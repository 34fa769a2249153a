import Knos.Bootloader.SavedFiles
import Knos.Paging.Switch

/-!
# From the `Makefile` to the linked address

All steps of a boot, one behind the other: the build writes three files to a disk, the boot
sector loads the second, the loader the third, collects the memory map, sets a mode and hands
over, and with the page tables of the image each byte of the kernel is read at the address it
was linked for (`boot_chain`).
-/

namespace Knos.Paging

open Knos.Bytes Knos.Chains Knos.Floppy Knos.PageTables Knos.Requests Knos.Requests.Prog
open Knos.Fat12Img (DateTime Holds clustersOf overlay sectorSize noon)
open Knos.Bootloader
open Knos.Memory (physToVirtBase E820Entry)

/-- Where the linker script puts the first byte of the image. -/
def linkedAddress : ℕ := physToVirtBase + 0x100000

/-- The assembler has put the tables where `.org` says. -/
def HasTables (kernel : List Byte) : Prop := (kernel.drop 0x1000).take 0x3000 = headTables

section Boot

variable {ram ram' : Store Byte} {kernel : List Byte} {firmware : HandOver.Firmware}
  {entries : List E820Entry} {fuel k : ℕ} {b : Byte}

/-- The kernel lies at 1 MB. -/
def KernelAt (ram : Store Byte) (kernel : List Byte) : Prop := peek ram 0x100000 kernel.length = kernel

theorem KernelAt.byte (h : KernelAt ram kernel) (hk : kernel[k]? = some b) :
    ram (0x100000 + k) = b := (peek_eq_iff rfl).mp h k b hk

theorem KernelAt.tables (h : KernelAt ram kernel) (htables : HasTables kernel) :
    KernelTables ram := by
  have hlen := congrArg List.length htables
  rw [List.length_take, List.length_drop, length_headTables] at hlen
  apply kernelTables_of_peek
  rw [← htables]
  have hpart : (kernel.drop 0x1000).take 0x3000 =
      ((peek ram 0x100000 kernel.length).drop 0x1000).take 0x3000 := by rw [h]
  rw [hpart, drop_peek (by omega), take_peek (by omega)]

theorem KernelAt.handOver (h : KernelAt ram kernel)
    (hover : HandOver.handOver entries firmware fuel ram = .ok ram') : KernelAt ram' kernel := by
  unfold KernelAt
  rw [peek_congr fun a ha _ => handOver_frame hover ha]
  exact h

/-- After the hand-over the kernel is read through both maps: through the loader's where it
was loaded, and through its own where it was linked. -/
theorem KernelAt.fetch (h : KernelAt ram kernel) (htables : HasTables kernel)
    (hover : HandOver.handOver entries firmware fuel ram = .ok ram')
    (hk : kernel[k]? = some b) (hlt : k < 0x900000) :
    Knos.PageTables.fetch ram' loaderCr3 (0x100000 + k) = some b ∧
      Knos.PageTables.fetch ram' headCr3 (linkedAddress + k) = some b := by
  have hbyte := (h.handOver hover).byte hk
  have hloader : translate ram' loaderCr3 (0 + (0x100000 + k)) = some (kernelPage (0x100000 + k)) := by
    obtain ⟨ram₀, rfl⟩ := handOver_loaderEntries hover
    exact loader_map (Or.inl rfl) (by omega)
  have hhigh : physToVirtBase ≤ linkedAddress + k ∧ linkedAddress + k < 2 ^ 64 := by
    unfold linkedAddress physToVirtBase
    omega
  have hmap := higher_map ((h.tables htables).handOver hover).higherHalf hhigh.1 hhigh.2
  have hoffset : linkedAddress + k - physToVirtBase = 0x100000 + k := by
    unfold linkedAddress
    omega
  have hphysical : physicalOf (0x100000 + k) = some (0x100000 + k) := if_pos (by omega)
  rw [hoffset, hphysical] at hmap
  rw [Nat.zero_add] at hloader
  unfold Knos.PageTables.fetch
  rw [hloader, hmap, ← hbyte]
  exact ⟨rfl, rfl⟩

/-- A file of at most 128 clusters that the boot sector loads. -/
theorem loader_loaded {disk : Store Byte} {img : Knos.Fat12Img.Image} {i : ℕ} {cs : List ℕ}
    {data : List Byte} (hdisk : img.byte = disk) (h : BootFile disk BootSector.loaderName i cs)
    (hholds : Holds img cs data) (hcount : cs.length = clustersOf data.length)
    (hshort : cs.length ≤ 128) (layout : BootSector.Layout) (m : Machine) {fuel : ℕ}
    (hfuel : cs.length ≤ fuel) :
    ∃ m', calm 0 (BootSector.boot layout disk fuel m) = .ok m' ∧
      peek m'.ram BootSector.loaderAddress data.length = data := by
  subst hdisk
  obtain ⟨m', hok, hpeek⟩ := BootSector.loadsLoader_of_short layout h hshort m fuel hfuel
  have hlen : data.length ≤ sectorBytes * cs.length := by
    rw [hcount]
    unfold clustersOf Knos.Fat12Img.clusterBytes sectorBytes
    omega
  refine ⟨m', hok, ?_⟩
  rw [← take_peek hlen, hpeek]
  exact take_fileData hholds

/-- The kernel that the loader has loaded lies at 1 MB. -/
theorem kernelAt_of_holds {disk : Store Byte} {img : Knos.Fat12Img.Image} {i : ℕ} {cs : List ℕ}
    (hdisk : img.byte = disk) (h : BootFile disk KernelLoader.kernelName i cs)
    (hholds : Holds img cs kernel) (hcount : cs.length = clustersOf kernel.length)
    (layout : KernelLoader.Layout) (m : Machine) {fuel : ℕ} (hfuel : cs.length ≤ fuel) :
    ∃ m', calm 0 (KernelLoader.loadKernel layout disk fuel m) = .ok m' ∧ KernelAt m'.ram kernel := by
  subst hdisk
  obtain ⟨m', hok, hram⟩ := KernelLoader.kernel_ram layout h m hfuel
  have hlen : kernel.length ≤ (fileData img.byte cs).length := by
    rw [length_fileData, hcount]
    unfold clustersOf Knos.Fat12Img.clusterBytes sectorBytes
    omega
  refine ⟨m', hok, ?_⟩
  show peek m'.ram KernelLoader.offsetOfKernelFile kernel.length = kernel
  rw [peek_congr fun a ha _ => hram a ha, ← take_peek hlen]
  exact (congrArg (List.take _) (peek_poke_self _ _)).trans (take_fileData hholds)

/-- **The boot.** A boot sector, a loader of at most 64 KB and a kernel with its page tables
that fit on a disk: the build succeeds; the boot sector brings the loader into memory, and the
loader the kernel, from whatever state they are started in; and once the loader has handed
over, whatever the firmware has answered, each byte of the kernel is read at the address it was
loaded to through the loader's map, and at the address it was linked for through its own. -/
theorem boot_chain {boot loader : List Byte} (hboot : boot.length ≤ sectorSize)
    (hloader : 0 < loader.length) (hshort : clustersOf loader.length ≤ 128)
    (hspace : clustersOf loader.length + clustersOf kernel.length ≤ 2847)
    (htables : HasTables kernel) (now now' : DateTime) :
    ∃ img, makeImage boot loader kernel now now' = some img ∧
      peek img.byte 0 sectorSize = overlay boot (List.replicate sectorSize 0) ∧
      (∀ (layout : BootSector.Layout) (m : Machine) (fuel : ℕ), clustersOf loader.length ≤ fuel →
        ∃ m', calm 0 (BootSector.boot layout img.byte fuel m) = .ok m' ∧
          peek m'.ram BootSector.loaderAddress loader.length = loader) ∧
      ∀ (layout : KernelLoader.Layout) (m : Machine) (fuel : ℕ), clustersOf kernel.length ≤ fuel →
        ∃ m', calm 0 (KernelLoader.loadKernel layout img.byte fuel m) = .ok m' ∧
          ∀ (entries : List E820Entry) (firmware : HandOver.Firmware) (fuel : ℕ) (ram : Store Byte),
            HandOver.handOver entries firmware fuel m'.ram = .ok ram →
            ∀ (k : ℕ) (b : Byte), kernel[k]? = some b →
              fetch ram loaderCr3 (0x100000 + k) = some b ∧
                fetch ram headCr3 (linkedAddress + k) = some b := by
  have hkernel : 0 < kernel.length := by
    have hlen := congrArg List.length htables
    rw [List.length_take, List.length_drop, length_headTables] at hlen
    omega
  have hend : kernel.length ≤ 0x900000 := by
    unfold clustersOf Knos.Fat12Img.clusterBytes at hspace
    omega
  obtain ⟨img, himage, hbuilt⟩ := build_succeeds hboot hloader hkernel hspace
  have hcount₁ : (List.range' 2 (clustersOf loader.length)).length = clustersOf loader.length :=
    List.length_range'
  have hcount₂ : (List.range' (2 + clustersOf loader.length) (clustersOf kernel.length)).length =
      clustersOf kernel.length := List.length_range'
  refine ⟨img, himage, hbuilt.boot_eq, fun layout m fuel hfuel => ?_, fun layout m fuel hfuel => ?_⟩
  · exact loader_loaded rfl hbuilt.loader_file hbuilt.loader_data hcount₁
      (Nat.le_trans (Nat.le_of_eq hcount₁) hshort) layout m (Nat.le_trans (Nat.le_of_eq hcount₁) hfuel)
  · obtain ⟨m', hok, hat⟩ := kernelAt_of_holds rfl hbuilt.kernel_file hbuilt.kernel_data hcount₂
      layout m (Nat.le_trans (Nat.le_of_eq hcount₂) hfuel)
    refine ⟨m', hok, fun entries firmware fuel ram hover k b hk => ?_⟩
    obtain ⟨hlt, -⟩ := List.getElem?_eq_some_iff.mp hk
    exact hat.fetch htables hover hk (Nat.lt_of_lt_of_le hlt hend)

end Boot

/-- An image that consists of its tables. -/
def tablesKernel : List Byte := List.replicate 0x1000 0 ++ headTables

theorem length_tablesKernel : tablesKernel.length = 0x4000 := by
  unfold tablesKernel
  rw [List.length_append, List.length_replicate, length_headTables]

theorem hasTables_tablesKernel : HasTables tablesKernel := by
  unfold HasTables tablesKernel
  rw [List.drop_left' List.length_replicate, ← length_headTables, List.take_length]

theorem boot_chain_tables : ∃ img, makeImage [0xEB] [0x4B] tablesKernel noon noon = some img ∧
    ∃ m', calm 0 (KernelLoader.loadKernel ⟨0, by decide⟩ img.byte 32 (filledWith 0)) = .ok m' ∧
      ∀ (entries : List E820Entry) (firmware : HandOver.Firmware) (fuel : ℕ) (ram : Store Byte),
        HandOver.handOver entries firmware fuel m'.ram = .ok ram →
        ∀ (k : ℕ) (b : Byte), tablesKernel[k]? = some b →
          fetch ram loaderCr3 (0x100000 + k) = some b ∧
            fetch ram headCr3 (linkedAddress + k) = some b := by
  have hclusters : clustersOf tablesKernel.length = 32 := by
    rw [length_tablesKernel]
    rfl
  obtain ⟨img, himage, -, -, hkernel⟩ := boot_chain (show [(0xEB : Byte)].length ≤ sectorSize by decide)
    (show 0 < [(0x4B : Byte)].length by decide) (by decide)
    (by rw [hclusters]; decide) hasTables_tablesKernel noon noon
  exact ⟨img, himage, hkernel ⟨0, by decide⟩ (filledWith 0) 32 (Nat.le_of_eq hclusters)⟩

end Knos.Paging
