import Knos.Bootloader.LoadKernel
import Knos.Bootloader.LoadLoader
import Knos.Lib.Blocks
import Knos.Tools.Extent
import Knos.Tools.Space

/-!
# From the build to memory

The tool writes what the boot code reads. In every image that the tool's commands lead to, the
loader finds the first file with the kernel's name and leaves in memory what was saved there
(`saved_kernel_loaded`). The `Makefile` puts three files on a formatted disk, and the boot
sector and the loader bring the other two into memory (`build_succeeds`).
-/

namespace Knos.Bootloader

open Knos.Bytes Knos.Floppy Knos.Chains Knos.PyText Knos.Requests Knos.Requests.Prog Knos.Loop
open Knos.Fat12Img

/-! ## §1  The bytes of a file -/

section Files

variable {img : Image} {saved : ℕ → List Byte} {dir : DirInfo} {chain : ℕ → List ℕ} {i : ℕ}
  {info : FileInfo} {cs : List ℕ} {data : List Byte}

theorem clusterSector_address (c : ℕ) :
    sectorBytes * clusterSector c = entityAddress + c * clusterBytes := by
  unfold clusterSector sectorBytes rootDirSectors sectorBalance entityAddress clusterBytes
  ring

theorem getElem?_fileData {disk : Store Byte} {j c : ℕ} (hc : cs[j / clusterBytes]? = some c) :
    (fileData disk cs)[j]? = some (disk (entityAddress + c * clusterBytes + j % clusterBytes)) := by
  have hmod : j % clusterBytes < sectorBytes := Nat.mod_lt j (by decide)
  have hblocks : ∀ b ∈ cs.map (clusterData disk), b.length = clusterBytes := by
    intro b hb
    obtain ⟨d, -, rfl⟩ := List.mem_map.mp hb
    exact length_clusterData disk d
  unfold fileData
  rw [getElem?_flatten hblocks (by decide), List.getElem?_map, hc]
  show (clusterData disk c)[j % clusterBytes]? = _
  unfold clusterData readSectors
  rw [Nat.mul_one, getElem?_peek hmod, clusterSector_address]

/-- The clusters of a file begin with what it holds. -/
theorem take_fileData (hholds : Holds img cs data) : (fileData img.byte cs).take data.length = data := by
  apply List.ext_getElem?
  intro j
  rw [List.getElem?_take]
  rcases Nat.lt_or_ge j data.length with hj | hj
  · have hb := List.getElem?_eq_getElem hj
    obtain ⟨c, hc, -, hbyte⟩ := hholds j _ hb
    rw [if_pos hj, getElem?_fileData hc, hbyte, hb]
  · rw [if_neg (Nat.not_lt.mpr hj), List.getElem?_eq_none hj]

/-- On an image of the size of a disk every cluster of a file is on the disk. -/
theorem cluster_le_of_holds (hholds : Holds img cs data) (hsize : img.size = fdSize)
    (hcount : cs.length = clustersOf data.length) {c : ℕ} (hc : c ∈ cs) : c ≤ 2848 := by
  obtain ⟨k, hk, rfl⟩ := List.mem_iff_getElem.mp hc
  have hfirst : k * clusterBytes < data.length := by
    unfold clustersOf clusterBytes at hcount
    unfold clusterBytes
    omega
  obtain ⟨d, hd, hlt, -⟩ := hholds _ _ (List.getElem?_eq_getElem hfirst)
  rw [Nat.mul_div_cancel k (by decide), List.getElem?_eq_getElem hk] at hd
  cases hd
  rw [hsize] at hlt
  unfold entityAddress clusterBytes fdSize at hlt
  omega

/-- A file of a volume that is not empty, and the first with its name. -/
theorem bootFile_of_saved (h : Volume img saved dir chain) (hsize : img.size = fdSize)
    (hfile : dir[i]? = some (.file info)) {name : List Byte}
    (hname : encode (ljust info.filename 11 ' ') = name) (hlen : name.length = 11)
    (hfirst : ∀ j, j < i → entryName img.byte j ≠ name) (hpos : 0 < (saved i).length) :
    BootFile img.byte name i (chain i) := by
  subst hname
  have hcount := h.count i info hfile
  refine bootFile_of_volume h hfile hlen hfirst (fun hnil => ?_) fun c hc =>
    cluster_le_of_holds (h.data i info hfile) hsize hcount hc
  rw [hnil, clustersOf_pos hpos] at hcount
  cases hcount

theorem buildRuns_savedDisk {path : List Char} (hprint : Printable path)
    (hlen : clustersOf data.length ≤ 2847) :
    BuildRuns (savedDisk path data) (Function.update (fun _ => []) 0 data)
      (List.replicate sectorSize 0) := by
  have hsave := save_savedDisk path hlen
  have hs := saves_savedDisk path hlen
  have hrun := BuildRuns.command .format
    (PrintableSave.cleanSave hprint : CleanSave formatDisk (.save ⟨path, some data⟩ noon))
  rw [@after_of_ok formatDisk _ (.save ⟨path, some data⟩ noon) true hsave, record_save, hsave,
    hs.dir_eq, recordSave_true _ _ hs.slot] at hrun
  exact hrun

theorem size_savedDisk {path : List Char} (hprint : Printable path)
    (hlen : clustersOf data.length ≤ 2847) : (savedDisk path data).size = fdSize := by
  have hsize := volume_format.savedImage_size hprint.cleanName (saves_savedDisk path hlen)
  rw [picksFor_formatDisk hlen, writeBlocks_size] at hsize
  · exact hsize
  · intro c hc
    have hc := List.mem_range'_1.mp hc
    show entityAddress + c * clusterBytes + clusterBytes ≤ fdSize
    unfold entityAddress clusterBytes fdSize
    omega

end Files

/-! ## §2  The kernel -/

namespace KernelLoader

/-- What the loader leaves in memory from `OffsetOfKernelFile` on. -/
theorem kernel_ram (layout : Layout) {disk : Store Byte} {i : ℕ} {cs : List ℕ}
    (h : BootFile disk kernelName i cs) (m : Machine) {fuel : ℕ} (hfuel : cs.length ≤ fuel) :
    ∃ m', calm 0 (loadKernel layout disk fuel m) = .ok m' ∧ ∀ a, offsetOfKernelFile ≤ a →
      m'.ram a = poke m.ram offsetOfKernelFile (fileData disk cs) a := by
  have hpos : 0 < cs.length := List.length_pos_of_mem h.first_mem
  obtain ⟨fuel, rfl⟩ : ∃ k, fuel = k + 1 := Nat.exists_eq_succ_of_ne_zero (by omega)
  have hp := searches layout disk fuel
  obtain ⟨m₁, hok, -, hfound⟩ := hp.found rootDirSectors (Nat.zero_add _) (Nat.zero_le i)
    h.entry_lt h.named h.first (start m) rfl
  have hat := atCluster_fileFound hp hfound (Nat.lt_succ_of_lt (h.cluster_lt _ h.first_mem))
    baseTmpOfKernelAddr offsetTmpOfKernelFile
  have hcount : (fileNameFound m₁).offsetOfKernelFileCount = offsetOfKernelFile := hfound.count_eq
  have hfits : offsetOfKernelFile + sectorBytes * cs.length < 2 ^ 32 := by
    have hmul : sectorBytes * cs.length ≤ sectorBytes * 2847 := Nat.mul_le_mul_left _ h.length_le
    exact Nat.lt_of_le_of_lt (Nat.add_le_add_left hmul _) (by decide)
  rw [← h.headD_eq] at hat
  obtain ⟨m₂, hok', -, hram⟩ := loop_ends (loadCluster_turns disk _) (goOnLoadingFile_succ disk)
    h.chain h.cluster_lt hfuel (fileNameFound m₁)
    ⟨⟨_, hat⟩, rfl, rfl, Nat.le_of_eq hcount.symm, by rw [hcount]; exact hfits, fun _ _ => rfl⟩
  refine ⟨m₂, ?_, fun a ha => ?_⟩
  · show calm 0 ((searchInRootDir layout disk (fuel + 1)).searchSectors rootDirSectors (start m) >>= _) = _
    rw [calm_bind, hok, ok_bind]
    exact hok'
  · rw [hram a ha, hcount]
    refine poke_congr _ (hfound.frame a (Or.inr ?_))
    exact Nat.le_trans (show buffer + sectorBytes ≤ offsetOfKernelFile by decide) ha

/-- **What was saved is loaded.** After any run of clean `save`s, of `del`s and of writes of at most
one sector at sector 0 that has left the image as long as a disk, the loader puts the bytes that
the first file with the kernel's name was saved with to `OffsetOfKernelFile`, whatever state it is
started in. -/
theorem saved_kernel_loaded {img : Image} {saved : ℕ → List Byte} {boot : List Byte}
    (hruns : BuildRuns img saved boot) (hsize : img.size = fdSize) {dir : DirInfo}
    (hdir : DirInfo.init img = .ok dir) {i : ℕ} {info : FileInfo}
    (hfile : dir[i]? = some (.file info)) (hname : encode (ljust info.filename 11 ' ') = kernelName)
    (hfirst : ∀ j, j < i → entryName img.byte j ≠ kernelName) (hpos : 0 < (saved i).length)
    (layout : Layout) (m : Machine) {fuel : ℕ} (hfuel : clustersOf (saved i).length ≤ fuel) :
    ∃ m', calm 0 (loadKernel layout img.byte fuel m) = .ok m' ∧
      peek m'.ram offsetOfKernelFile (saved i).length = saved i := by
  obtain ⟨⟨dir', chain, hvol⟩, -⟩ := runs_bootVolume hruns
  obtain rfl : dir' = dir := Except.ok.inj (hvol.dir_eq.symm.trans hdir)
  have hboot := bootFile_of_saved hvol hsize hfile hname rfl hfirst hpos
  have hcount := hvol.count i info hfile
  obtain ⟨m', hok, hram⟩ := kernel_ram layout hboot m (Nat.le_trans (Nat.le_of_eq hcount) hfuel)
  have hlen : (saved i).length ≤ (fileData img.byte (chain i)).length := by
    have htake := congrArg List.length (take_fileData (hvol.data i info hfile))
    rw [List.length_take] at htake
    omega
  refine ⟨m', hok, ?_⟩
  rw [peek_congr fun a ha _ => hram a ha, ← take_peek hlen, peek_poke_self]
  exact take_fileData (hvol.data i info hfile)

/-- A kernel of one byte. -/
theorem saved_kernel_loaded_small :
    ∃ m', calm 0 (loadKernel ⟨0, by decide⟩ (savedDisk kernelPath [0x4B]).byte 1 (filledWith 0)) =
        .ok m' ∧
      peek m'.ram offsetOfKernelFile 1 = [0x4B] := by
  have hlen : clustersOf [(0x4B : Byte)].length ≤ 2847 := by decide
  have hs := saves_savedDisk kernelPath hlen
  have hvol := volume_format.save (Printable.cleanName (show Printable kernelPath by decide)) hs
  have hname : encode (ljust (newFile (filename83 kernelPath) 1 2 noon).stored.filename 11 ' ') =
      kernelName := by
    rw [FileInfo.filename_stored]
    rfl
  exact saved_kernel_loaded (buildRuns_savedDisk (show Printable kernelPath by decide) hlen)
    (size_savedDisk (show Printable kernelPath by decide) hlen)
    hvol.dir_eq (i := 0) rfl hname (fun j hj => absurd hj (Nat.not_lt_zero j)) (by decide)
    ⟨0, by decide⟩ (filledWith 0) (Nat.le_refl 1)

end KernelLoader

/-! ## §3  The build -/

/-- `"./kal/"` -/
def kalDir : List Char := ['.', '/', 'k', 'a', 'l', '/']

/-- The image behind a command that has not failed. -/
def succeeded {ε : Type} : Except ε (Bool × Image) → Option Image
  | .ok (true, img) => some img
  | _ => none

@[simp] theorem succeeded_ok {ε : Type} (img : Image) :
    succeeded (.ok (true, img) : Except ε (Bool × Image)) = some img := rfl

/-- The commands of `KNOS.vfd` in the `Makefile`; none if one of them fails. -/
def makeImage (boot loader kernel : List Byte) (now now' : DateTime) : Option Image := do
  let img ← succeeded (writeData formatDisk (some boot) 0)
  let img ← succeeded (saveCommand img ⟨kalDir ++ loaderPath, some loader⟩ now)
  succeeded (saveCommand img ⟨kalDir ++ kernelPath, some kernel⟩ now')

section Build

variable {img : Image} {saved : ℕ → List Byte} {dir : DirInfo} {chain : ℕ → List ℕ} {i : ℕ}
  {info : FileInfo} {path : List Char} {boot loader kernel : List Byte} {now now' : DateTime}

theorem encode_clean (hclean : CleanName path) (hname : info.filename = rstrip (filename83 path)) :
    encode (ljust info.filename 11 ' ') = encode (filename83 path) := by
  rw [hname, hclean.padded]

/-- A file as `save` has put it into the directory. -/
theorem bootFile_of_clean (h : Volume img saved dir chain) (hclean : CleanName path)
    (hfile : dir[i]? = some (.file info)) (hname : info.filename = rstrip (filename83 path))
    (hfirst : ∀ j, j < i → entryName img.byte j ≠ encode (filename83 path))
    (hne : chain i ≠ []) (hdisk : ∀ c ∈ chain i, c ≤ 2848) :
    BootFile img.byte (encode (filename83 path)) i (chain i) := by
  have hencode := encode_clean hclean hname
  have hlen : (encode (ljust info.filename 11 ' ')).length = 11 := by
    have hstored := hclean.storedName_rstrip
    rw [← hname] at hstored
    exact hstored.length_encode
  rw [← hencode] at hfirst ⊢
  exact bootFile_of_volume h hfile hlen hfirst hne hdisk

theorem makeImage_eq {img₀ img₁ : Image} (hwrite : writeData formatDisk (some boot) 0 = .ok (true, img₀))
    (hloader : saveCommand img₀ ⟨kalDir ++ loaderPath, some loader⟩ now = .ok (true, img₁))
    (hkernel : saveCommand img₁ ⟨kalDir ++ kernelPath, some kernel⟩ now' = .ok (true, img)) :
    makeImage boot loader kernel now now' = some img := by
  unfold makeImage
  rw [hwrite, succeeded_ok, Option.bind_eq_bind, Option.bind_some, hloader, succeeded_ok,
    Option.bind_some, hkernel, succeeded_ok]

/-- The files of the build, each with its clusters. -/
structure Built (img : Image) (boot loader kernel : List Byte) : Prop where
  boot_eq : peek img.byte 0 sectorSize = overlay boot (List.replicate sectorSize 0)
  loader_file : BootFile img.byte BootSector.loaderName 0 (List.range' 2 (clustersOf loader.length))
  loader_data : Holds img (List.range' 2 (clustersOf loader.length)) loader
  kernel_file : BootFile img.byte KernelLoader.kernelName 1
    (List.range' (2 + clustersOf loader.length) (clustersOf kernel.length))
  kernel_data : Holds img (List.range' (2 + clustersOf loader.length) (clustersOf kernel.length)) kernel

theorem range'_ne_nil {start n : ℕ} (hpos : 0 < n) : List.range' start (clustersOf n) ≠ [] := by
  intro hnil
  have hlen := congrArg List.length hnil
  rw [List.length_range', clustersOf_pos hpos] at hlen
  cases hlen

/-- A `save` while the free clusters lie one behind the other takes the first of them. -/
theorem save_step (h : Volume img saved dir chain) (hclean : CleanName path) {start n : ℕ}
    (hfree : (Fat.init img).free 0 = List.range' start n) (hslot : dir.findFreeIndex = some i)
    {data : List Byte} (hspace : clustersOf data.length < n) :
    ∃ img' info', saveCommand img ⟨path, some data⟩ now = .ok (true, img') ∧
      info'.filename = rstrip (filename83 path) ∧
      Volume img' (Function.update saved i data) (dir.set i (.file info'))
        (Function.update chain i (List.range' start (clustersOf data.length))) ∧
      (Fat.init img').free 0 =
        List.range' (start + clustersOf data.length) (n - clustersOf data.length) ∧
      ∀ a < fat1Address, img'.byte a = img.byte a := by
  obtain ⟨n, rfl⟩ : ∃ k, n = k + 1 := Nat.exists_eq_succ_of_ne_zero (by omega)
  have hs : Saves img ⟨path, some data⟩ now dir i (newFile (filename83 path) data.length start now)
      data := by
    refine ⟨h.dir_eq, rfl, ?_, hslot, start, ?_, rfl⟩
    · rw [hfree, List.length_range']
      exact Nat.le_of_lt hspace
    · rw [hfree]
      rfl
  have hpicks : picksFor img data.length = List.range' start (clustersOf data.length) := by
    unfold picksFor
    rw [hfree, List.take_range'_of_length_ge (Nat.le_of_lt hspace)]
  have hvol := h.save hclean hs
  rw [hpicks] at hvol
  refine ⟨_, _, saveCommand_of_saves hs, FileInfo.filename_stored _, hvol, ?_, fun a ha =>
    h.save_front hclean hs ha⟩
  rw [free_savedImage h, hfree, List.drop_range', Nat.mul_one]

theorem kernelName_ne_loaderName :
    encode (filename83 (kalDir ++ loaderPath)) ≠ encode (filename83 (kalDir ++ kernelPath)) := by
  decide

/-- **The build goes through** when its files fit, and leaves them where they are looked for. -/
theorem build_succeeds (hboot : boot.length ≤ sectorSize) (hloader : 0 < loader.length)
    (hkernel : 0 < kernel.length)
    (hspace : clustersOf loader.length + clustersOf kernel.length ≤ 2847) :
    ∃ img, makeImage boot loader kernel now now' = some img ∧ Built img boot loader kernel := by
  have hclean₁ : CleanName (kalDir ++ loaderPath) := Printable.cleanName (by decide)
  have hclean₂ : CleanName (kalDir ++ kernelPath) := Printable.cleanName (by decide)
  -- the boot sector
  have hwrite := writeData_eq formatDisk boot 0
  rw [Nat.zero_mul, Nat.cast_zero] at hwrite
  have hfront : 0 + boot.length ≤ fat1Address := by rwa [Nat.zero_add]
  have hvol₀ := volume_format.write_front hfront
  have hfree₀ : (Fat.init (formatDisk.write 0 boot)).free 0 = List.range' 2 3070 := by
    rw [init_of_same fun a ha => poke_outside _ (Or.inr (Nat.le_trans hfront ha)), free_formatDisk]
  have hboot₀ : peek (formatDisk.write 0 boot).byte 0 sectorSize =
      overlay boot (List.replicate sectorSize 0) := by
    rw [write_byte, peek_overlay hboot, (runs_bootVolume .format).2]
  -- the loader and the kernel
  obtain ⟨img₁, info₁, hsave₁, hname₁, hvol₁, hfree₁, hsame₁⟩ :=
    @save_step _ _ _ _ 0 _ now hvol₀ hclean₁ _ _ hfree₀ rfl loader (by omega)
  obtain ⟨img₂, info₂, hsave₂, hname₂, hvol₂, -, hsame₂⟩ :=
    @save_step _ _ _ _ 1 _ now' hvol₁ hclean₂ _ _ hfree₁ rfl kernel (by omega)
  refine ⟨img₂, makeImage_eq hwrite hsave₁ hsave₂, ?_⟩
  · have hfile₁ := bootFile_of_clean hvol₂ hclean₁ (i := 0) rfl hname₁
      (fun j hj => absurd hj (Nat.not_lt_zero j)) (range'_ne_nil hloader) fun c hc => by
        have hc := List.mem_range'_1.mp hc
        omega
    have hfile₂ := bootFile_of_clean hvol₂ hclean₂ (i := 1) rfl hname₂
      (fun j hj => by
        obtain rfl : j = 0 := Nat.lt_one_iff.mp hj
        rw [hfile₁.named]
        exact kernelName_ne_loaderName) (range'_ne_nil hkernel) fun c hc => by
        have hc := List.mem_range'_1.mp hc
        omega
    refine ⟨?_, hfile₁, hvol₂.data 0 _ rfl, hfile₂, hvol₂.data 1 _ rfl⟩
    rw [← hboot₀]
    exact peek_congr fun a _ ha => (hsame₂ a ha).trans (hsame₁ a ha)

end Build

end Knos.Bootloader
