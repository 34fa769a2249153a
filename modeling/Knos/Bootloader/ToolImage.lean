import Knos.Bootloader.BootFile
import Knos.Tools.Integrity

/-!
# Images of the tool

The boot code and `tools/fat12img.py` agree on the layout of the disk: a file that the tool
keeps in a slot of the directory, the first of its name and within the disk, is a file that
the boot code finds. They agree on the FAT as well, entry by entry, though the tool unpacks
three bytes at a time and the boot code addresses words.
-/

namespace Knos.Bootloader

open Knos.Bytes Knos.Floppy Knos.Chains Knos.PyText
open Knos.Fat12Img (Image FileInfo DirInfo Volume fileinfoBytes diskSlot slotAddress)

theorem slotAddress_eq (i : ℕ) : slotAddress i = sectorBytes * rootDirStartSectors + 32 * i := rfl

/-- The two bytes of the first cluster in a record. -/
theorem cluster_pack {info : FileInfo} (hname : (encode (ljust info.filename 11 ' ')).length = 11) :
    info.pack[0x1a]? = some (BitVec.ofNat 8 info.cluster.toNat) ∧
      info.pack[0x1a + 1]? = some (BitVec.ofNat 8 (info.cluster.toNat / 256)) := by
  unfold FileInfo.pack
  constructor
  · rw [List.getElem?_append_right (by omega), hname]
    rfl
  · rw [List.getElem?_append_right (by omega), hname]
    rfl

section Volume

variable {img : Image} {saved : ℕ → List Byte} {dir : DirInfo} {chain : ℕ → List ℕ} {i : ℕ}
  {info : FileInfo}

theorem entryName_of_volume (h : Volume img saved dir chain) (hfile : dir[i]? = some (.file info))
    (hname : (encode (ljust info.filename 11 ' ')).length = 11) :
    entryName img.byte i = encode (ljust info.filename 11 ' ') := by
  have hslot : peek img.byte (slotAddress i) fileinfoBytes = info.pack := h.tidy i _ hfile nofun
  have htake := congrArg (List.take 11) hslot
  rw [take_peek (by decide), slotAddress_eq] at htake
  exact htake.trans (List.take_left' hname)

theorem entryCluster_of_volume (h : Volume img saved dir chain)
    (hfile : dir[i]? = some (.file info))
    (hname : (encode (ljust info.filename 11 ' ')).length = 11) :
    entryCluster img.byte i = info.cluster.toNat := by
  have hslot : peek img.byte (slotAddress i) fileinfoBytes = info.pack := h.tidy i _ hfile nofun
  have hlt : info.cluster.toNat < 65536 := info.cluster.isLt
  obtain ⟨h₀, h₁⟩ := cluster_pack hname
  rw [← hslot, getElem?_peek (by decide)] at h₀ h₁
  unfold entryCluster
  rw [Nat.add_assoc _ 0x1a 1, ← slotAddress_eq, Option.some.inj h₀, Option.some.inj h₁,
    BitVec.toNat_ofNat, BitVec.toNat_ofNat]
  omega

/-- **The tool's files are the boot code's files.** -/
theorem bootFile_of_volume (h : Volume img saved dir chain) (hfile : dir[i]? = some (.file info))
    (hname : (encode (ljust info.filename 11 ' ')).length = 11)
    (hfirst : ∀ j, j < i → entryName img.byte j ≠ encode (ljust info.filename 11 ' '))
    (hne : chain i ≠ []) (hdisk : ∀ c ∈ chain i, c ≤ 2848) :
    BootFile img.byte (encode (ljust info.filename 11 ' ')) i (chain i) where
  entry_lt := by
    have hlt := (List.getElem?_eq_some_iff.mp hfile).1
    rw [h.length_dir] at hlt
    exact hlt
  named := entryName_of_volume h hfile hname
  first := hfirst
  head := by
    rw [h.first i info hfile hne, entryCluster_of_volume h hfile hname]
  chain := (h.linked i hne).congr fun c hc => by
    rw [Fat12Img.entryAt_init img (by have := hdisk c hc; omega)]
    rfl
  clusters := fun c hc => ⟨(h.cells i c hc).1, hdisk c hc⟩

end Volume

/-! ## §1  A disk with one file -/

open Knos.Fat12Img (Printable filename83 formatDisk noon newFile savedImage clustersOf picksFor Saves
  saveCommand Slot fileCount)

/-- The formatted disk with one file saved to it. -/
def savedDisk (path : List Char) (data : List Byte) : Image :=
  savedImage formatDisk (List.replicate fileCount .unused) 0
    (newFile (filename83 path) data.length 2 noon) data

section SavedDisk

variable (path : List Char) {data : List Byte}

theorem saves_savedDisk (hlen : clustersOf data.length ≤ 2847) :
    Saves formatDisk ⟨path, some data⟩ noon (List.replicate fileCount .unused) 0
      (newFile (filename83 path) data.length 2 noon) data :=
  @Fat12Img.saves_formatted formatDisk _ 0 ⟨path, some data⟩ data noon rfl
    Fat12Img.volume_format.dir_eq rfl rfl (Nat.le_trans hlen (by decide))

theorem save_savedDisk (hlen : clustersOf data.length ≤ 2847) :
    saveCommand formatDisk ⟨path, some data⟩ noon = .ok (true, savedDisk path data) :=
  Fat12Img.saveCommand_of_saves (saves_savedDisk path hlen)

theorem picksFor_formatDisk {n : ℕ} (h : clustersOf n ≤ 2847) :
    picksFor formatDisk n = List.range' 2 (clustersOf n) := by
  unfold picksFor
  rw [Fat12Img.free_formatDisk, List.take_range'_of_length_ge (by omega)]

theorem bootFile_savedDisk (hprint : Printable path) (hpos : 0 < data.length)
    (hlen : clustersOf data.length ≤ 2847) :
    BootFile (savedDisk path data).byte (encode (filename83 path)) 0
      (List.range' 2 (clustersOf data.length)) := by
  have hclean := hprint.cleanName
  have hvol := Fat12Img.volume_format.save hclean (saves_savedDisk path hlen)
  have hchain : Function.update (fun _ => []) 0 (picksFor formatDisk data.length) 0 =
      List.range' 2 (clustersOf data.length) := by
    rw [Function.update_self, picksFor_formatDisk hlen]
  have hname : (newFile (filename83 path) data.length 2 noon).stored.filename =
      rstrip (filename83 path) := Fat12Img.FileInfo.filename_stored _
  have hstored := hclean.storedName_rstrip
  rw [← hname] at hstored
  have hfile := bootFile_of_volume hvol (i := 0) rfl hstored.length_encode
    (fun j hj => absurd hj (Nat.not_lt_zero j))
  rw [hchain, hname, hclean.padded] at hfile
  refine hfile (fun hnil => ?_) fun c hc => ?_
  · have hclusters := Fat12Img.clustersOf_pos hpos
    have hzero := congrArg List.length hnil
    rw [List.length_range', List.length_nil] at hzero
    omega
  · rw [List.mem_range'_1] at hc
    omega

/-- `"LOADER.KAL"` -/
def loaderPath : List Char := ['L', 'O', 'A', 'D', 'E', 'R', '.', 'K', 'A', 'L']

/-- `"KERNEL.KAL"` -/
def kernelPath : List Char := ['K', 'E', 'R', 'N', 'E', 'L', '.', 'K', 'A', 'L']

theorem bootFile_loader (hpos : 0 < data.length) (hlen : clustersOf data.length ≤ 2847) :
    BootFile (savedDisk loaderPath data).byte BootSector.loaderName 0
      (List.range' 2 (clustersOf data.length)) :=
  bootFile_savedDisk loaderPath (by decide) hpos hlen

end SavedDisk

/-! ## §2  The table -/

open Knos.Requests Knos.Requests.Prog
open Knos.Fat12Img (Fat)

/-- Either copy of the routine returns the tool's entry of the cluster in AX. -/
theorem fatEntry_agrees (img : Image) {read : Machine → Exec Machine} (hread : Reads img.byte read)
    {buffer : ℕ} (hbuf : buffer + bytesPreSector ≤ 65536) {m : Machine} (hc : m.ax < 3072) :
    ∃ m', calm 0 (fatEntry read buffer m) = .ok m' ∧ (Fat.init img)[m.ax]? = some m'.ax := by
  obtain ⟨m', hrun, -, hdecoded⟩ := fatEntry_decodes img.byte hread hbuf (show m.ax < 4096 by omega)
  refine ⟨m', hrun, ?_⟩
  rw [Fat12Img.init_eq_map, List.getElem?_map, List.getElem?_range hc, hdecoded.ax_eq]
  rfl

/-- **One table, three decoders.** -/
theorem decoders_agree (img : Image) (fuel : ℕ) {m : Machine} (hc : m.ax < 3072) :
    (∃ m', calm 0 (BootSector.decodeFat img.byte m) = .ok m' ∧
        (Fat.init img)[m.ax]? = some m'.ax) ∧
      ∃ m', calm 0 (KernelLoader.funcGetFatEntry img.byte (fuel + 1) m) = .ok m' ∧
        (Fat.init img)[m.ax]? = some m'.ax :=
  ⟨fatEntry_agrees img (BootSector.reads img.byte) (by decide) hc,
    fatEntry_agrees img (KernelLoader.reads img.byte fuel) (by decide) hc⟩

/-- The machine that asks for the entry of a cluster. -/
def askingMachine (c : ℕ) : Machine :=
  ⟨c, 0, 0, 0, 0, 0, 0, [], fun _ => 0, 0, 0, 0⟩

/-- A kernel of 350 clusters on the formatted disk: entry 341, which is 342, begins in the last
byte of a sector. -/
def longDisk : Image := savedDisk kernelPath (List.replicate 179200 0x4B)

theorem decoders_agree_straddling :
    (∃ m', calm 0 (BootSector.decodeFat longDisk.byte (askingMachine 341)) = .ok m' ∧
        (Fat.init longDisk)[(askingMachine 341).ax]? = some m'.ax) ∧
      ∃ m', calm 0 (KernelLoader.funcGetFatEntry longDisk.byte 1 (askingMachine 341)) = .ok m' ∧
        (Fat.init longDisk)[(askingMachine 341).ax]? = some m'.ax :=
  decoders_agree longDisk 0 (show 341 < 3072 by decide)

end Knos.Bootloader
