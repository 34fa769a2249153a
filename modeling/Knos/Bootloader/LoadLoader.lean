import Knos.Bootloader.ToolImage

/-!
# Loading the loader

The boot sector loads cluster after cluster to `LoaderBase:BX`, and BX advances by a
sector. It wraps after 64 KiB, so a longer loader is loaded over its own beginning and no
part of it gets to the physical addresses behind.
-/

namespace Knos.Bootloader

open Knos.Bytes Knos.Floppy Knos.Chains Knos.Requests Knos.Requests.Prog Knos.Loop

namespace BootSector

/-- The physical address of `LoaderBase:LoaderOffset`. -/
def loaderAddress : ℕ := loaderBase * 16 + loaderOffset

/-- Memory with the clusters loaded, from offset `bx` on. -/
def written (disk : Store Byte) : Store Byte → ℕ → List ℕ → Store Byte
  | ram, _, [] => ram
  | ram, bx, c :: cs =>
      written disk (poke ram (loaderAddress + bx) (clusterData disk c))
        ((bx + bytesPreSector) % 65536) cs

/-! ## §1  The loop -/

section Loop

variable {disk : Store Byte}

theorem searches (layout : Layout) (disk : Store Byte) : Searches disk (searchRootDir layout disk) where
  reads := reads disk
  length_name := rfl
  name_fits := by
    show layout.loaderFileName + 12 ≤ 65536
    have := layout.below
    omega
  buffer_aligned := show buffer % 32 = 0 by decide
  buffer_fits := show buffer + sectorBytes < 65536 by decide

theorem written_cons (ram : Store Byte) (bx c : ℕ) (cs : List ℕ) :
    written disk ram bx (c :: cs) =
      written disk (poke ram (loaderAddress + bx) (clusterData disk c))
        ((bx + bytesPreSector) % 65536) cs := rfl

theorem written_congr {ram ram' : Store Byte} {a : ℕ} (h : ram a = ram' a) (bx : ℕ) (cs : List ℕ) :
    written disk ram bx cs a = written disk ram' bx cs a := by
  induction cs generalizing ram ram' bx with
  | nil => exact h
  | cons c cs ih => exact ih (poke_congr ram h) _

/-- A turn of the loop, up to its comparison. -/
def loadSector (disk : Store Byte) (m : Machine) : Exec Machine :=
  readOneSectorFunction disk (m.setCl 1) >>= fun m =>
    fatEntry (readOneSectorFunction disk) buffer (id { m with ax := m.top }.drop)

theorem loadingFile_succ (disk : Store Byte) (fuel : ℕ) (m : Machine) :
    loadingFile disk (fuel + 1) m =
      (loadSector disk m >>= fun m =>
        if m.ax = 0x0fff then .ret m
        else loadingFile disk fuel (addSector (nextCluster m))) := by
  unfold loadSector
  rw [bind_assoc]
  rfl

/-- Above the buffer, memory will be `target` when the clusters `cs` are loaded. -/
structure Loading (disk target : Store Byte) (cs : List ℕ) (m : Machine) : Prop where
  at_cluster : ∃ stack, AtCluster m (cs.headD 0) stack
  es_eq : m.es = loaderBase
  ram_eq : ∀ a, buffer + 2 * sectorBytes ≤ a → written disk m.ram m.bx cs a = target a

/-- Above the buffer, memory is `target`. -/
def Loaded (target : Store Byte) (m : Machine) : Prop :=
  ∀ a, buffer + 2 * sectorBytes ≤ a → m.ram a = target a

theorem loadSector_turns (disk target : Store Byte) :
    Turns disk (loadSector disk) (fun m => addSector (nextCluster m)) (Loading disk target)
      (Loaded target) := by
  intro m c cs hc hm
  obtain ⟨stack, hat⟩ := hm.at_cluster
  obtain ⟨m₁, hok, hreq, hdec⟩ := turn_decodes (reads disk)
    (show buffer + bytesPreSector ≤ 65536 by decide) id (fun _ => rfl) hat hc
  have hentry : m₁.ax = Fat12.entry disk fatAddress c := by
    rw [hdec.ax_eq]
    exact congrArg _ hat.ax_after
  have hram : ∀ a, buffer + 2 * sectorBytes ≤ a →
      m₁.ram a = poke m.ram (loaderAddress + m.bx) (clusterData disk c) a := by
    intro a ha
    rw [hdec.frame a (Or.inr ha)]
    show (afterCluster disk m).ram a = _
    rw [hat.ram_after, hm.es_eq]
    rfl
  refine ⟨m₁, hok, hreq, hentry, ?_, ?_⟩
  · rintro rfl a ha
    exact (hram a ha).trans (hm.ram_eq a ha)
  · rintro d ds rfl hax
    -- the next turn starts with `d` on the stack and BX behind the sector
    have hlt : m₁.ax < 4096 := by
      rw [hentry]
      exact Fat12.entry_lt _ _ _
    have hnext := atCluster_nextCluster hlt
    rw [hax] at hnext
    refine ⟨⟨m₁.stack, hnext.ax_eq, hnext.stack_eq⟩, hdec.es_eq.trans hm.es_eq, fun a ha => ?_⟩
    have hbx : (addSector (nextCluster m₁)).bx = (m.bx + bytesPreSector) % 65536 :=
      congrArg (fun x => (x + bytesPreSector) % 65536) hdec.bx_eq
    have hsame : (addSector (nextCluster m₁)).ram = m₁.ram := rfl
    rw [hbx, hsame, ← hm.ram_eq a ha, written_cons m.ram m.bx c]
    exact written_congr (hram a ha) _ _

end Loop

/-! ## §2  The whole boot sector -/

section Boot

variable {disk : Store Byte} {i : ℕ} {cs : List ℕ}

/-- The run of the boot sector on a disk with a loader. -/
theorem boot_loads (layout : Layout) (h : BootFile disk loaderName i cs) {fuel : ℕ}
    (hfuel : cs.length ≤ fuel) (m : Machine) :
    ∃ m', calm 0 (boot layout disk fuel m) = .ok m' ∧
      requests 0 (boot layout disk fuel m) = i / 16 + 1 + 2 * cs.length ∧
      ∀ a, buffer + 2 * sectorBytes ≤ a → m'.ram a = written disk m.ram loaderOffset cs a := by
  have hp := searches layout disk
  obtain ⟨m₁, hok, hreq, hfound⟩ := hp.found rootDirSectors (Nat.zero_add _) (Nat.zero_le i)
    h.entry_lt h.named h.first (start m) rfl
  have hlast := Nat.lt_succ_of_lt (h.cluster_lt _ h.first_mem)
  have hat := atCluster_fileFound hp hfound hlast loaderBase loaderOffset
  rw [← h.headD_eq] at hat
  obtain ⟨m₂, hok', hreq', hram⟩ := loop_ends (fun _ => loadSector_turns disk _)
    (loadingFile_succ disk) h.chain h.cluster_lt hfuel (findLoaderFile m₁) ⟨⟨_, hat⟩, rfl, fun _ _ => rfl⟩
  refine ⟨m₂, ?_, ?_, fun a ha => ?_⟩
  · show calm 0 ((searchRootDir layout disk).searchSectors rootDirSectors (start m) >>= _) = _
    rw [calm_bind, hok, ok_bind]
    exact hok'
  · show requests 0 ((searchRootDir layout disk).searchSectors rootDirSectors (start m) >>= _) = _
    rw [requests_bind_of_ok 0 hok, hreq', ← hreq, Nat.add_zero]
  · rw [hram a ha]
    refine written_congr (hfound.frame a (Or.inr ?_)) loaderOffset cs
    exact Nat.le_trans (show buffer + sectorBytes ≤ buffer + 2 * sectorBytes by decide) ha

/-- Up to 64 KiB the clusters lie one behind the other. -/
theorem written_of_fits (disk ram : Store Byte) {bx : ℕ} {cs : List ℕ}
    (h : bx + bytesPreSector * cs.length ≤ 65536) :
    written disk ram bx cs = poke ram (loaderAddress + bx) (fileData disk cs) := by
  induction cs generalizing ram bx with
  | nil => exact (poke_nil ram).symm
  | cons c cs ih =>
      rw [List.length_cons, Nat.mul_add_one] at h
      rw [written_cons, fileData_cons, poke_append, length_clusterData]
      cases cs with
      | nil => exact (poke_nil _).symm
      | cons d cs =>
          have hlt : bx + bytesPreSector < 65536 := by
            have hpos : 0 < bytesPreSector * (d :: cs).length := Nat.mul_pos (by decide) (Nat.succ_pos _)
            omega
          rw [Nat.mod_eq_of_lt hlt, ih _ (by omega), Nat.add_assoc]
          rfl

/-- Nothing is written behind the 64 KiB. -/
theorem written_behind (disk ram : Store Byte) {bx : ℕ} (cs : List ℕ) {a : ℕ}
    (hbx : bx % bytesPreSector = 0) (hlt : bx < 65536) (ha : loaderAddress + 65536 ≤ a) :
    written disk ram bx cs a = ram a := by
  induction cs generalizing ram bx with
  | nil => rfl
  | cons c cs ih =>
      have hend : bx + bytesPreSector ≤ 65536 ∧
          (bx + bytesPreSector) % 65536 % bytesPreSector = 0 := by
        unfold bytesPreSector at hbx ⊢
        omega
      rw [written_cons, ih _ hend.2 (Nat.mod_lt _ (by decide))]
      refine poke_outside ram (Or.inr ?_)
      rw [length_clusterData, Nat.add_assoc]
      exact Nat.le_trans (Nat.add_le_add_left hend.1 _) ha

/-- What the boot sector is to do: whatever is in memory before, the clusters of the loader
lie one behind the other at its address when it jumps there. -/
def LoadsLoader (layout : Layout) (disk : Store Byte) (cs : List ℕ) : Prop :=
  ∀ (m : Machine) (fuel : ℕ), cs.length ≤ fuel → ∃ m', calm 0 (boot layout disk fuel m) = .ok m' ∧
    peek m'.ram loaderAddress (sectorBytes * cs.length) = fileData disk cs

/-- The byte of the file that belongs behind the 64 KiB does not get there. -/
theorem not_loadsLoader (layout : Layout) (h : BootFile disk loaderName i cs)
    (hlong : 128 < cs.length) : ¬ LoadsLoader layout disk cs := by
  intro hloads
  have habove : buffer + 2 * sectorBytes ≤ loaderAddress := by decide
  have hlt : 65536 < (fileData disk cs).length := by
    have hmul : sectorBytes * 129 ≤ sectorBytes * cs.length := Nat.mul_le_mul_left _ hlong
    rw [length_fileData]
    exact Nat.lt_of_lt_of_le (by decide) hmul
  -- memory is filled with a different value
  obtain ⟨m', hok, hpeek⟩ := hloads (filledWith ((fileData disk cs)[65536] + 1)) cs.length
    (Nat.le_refl _)
  obtain ⟨m₂, hok', -, hram⟩ := boot_loads layout h (Nat.le_refl cs.length)
    (filledWith ((fileData disk cs)[65536] + 1))
  obtain rfl : m' = m₂ := Except.ok.inj (hok.symm.trans hok')
  have hbyte := (peek_eq_iff (length_fileData disk cs)).mp hpeek _ _ (List.getElem?_eq_getElem hlt)
  rw [hram _ (Nat.le_trans habove (Nat.le_add_right _ _)),
    written_behind disk _ cs (by decide) (by decide) (Nat.le_refl _)] at hbyte
  refine absurd hbyte ?_
  show (fileData disk cs)[65536] + 1 ≠ (fileData disk cs)[65536]
  generalize (fileData disk cs)[65536] = x
  revert x
  decide

theorem loadsLoader_of_short (layout : Layout) (h : BootFile disk loaderName i cs)
    (hshort : cs.length ≤ 128) : LoadsLoader layout disk cs := by
  intro m fuel hfuel
  have habove : buffer + 2 * sectorBytes ≤ loaderAddress := by decide
  obtain ⟨m', hok, -, hram⟩ := boot_loads layout h hfuel m
  refine ⟨m', hok, ?_⟩
  have hfits : loaderOffset + bytesPreSector * cs.length ≤ 65536 := by
    have hmul : bytesPreSector * cs.length ≤ bytesPreSector * 128 := Nat.mul_le_mul_left _ hshort
    exact Nat.le_trans (Nat.add_le_add_left hmul _) (by decide)
  rw [peek_congr (t := written disk m.ram loaderOffset cs) fun a ha _ =>
      hram a (Nat.le_trans habove ha),
    written_of_fits disk m.ram hfits, ← length_fileData disk cs]
  exact peek_poke_self m.ram (fileData disk cs)

/-- **The loader is loaded as it should** exactly if it has at most 128 clusters. -/
theorem loadsLoader_iff (layout : Layout) (disk : Store Byte) (i : ℕ) (cs : List ℕ)
    (h : BootFile disk loaderName i cs) : LoadsLoader layout disk cs ↔ cs.length ≤ 128 := by
  constructor
  · intro hloads
    by_contra hlong
    exact not_loadsLoader layout h (Nat.lt_of_not_le hlong) hloads
  · exact loadsLoader_of_short layout h

/-- A boot sector whose name lies right before the padding. -/
def lowLayout : Layout where
  loaderFileName := 0x7de0
  above := by decide
  below := by decide

theorem loadsLoader_iff_small :
    LoadsLoader lowLayout (savedDisk loaderPath [0x4B]).byte [2] ↔ [2].length ≤ 128 :=
  loadsLoader_iff lowLayout _ 0 [2] (@bootFile_loader [0x4B] (by decide) (by decide))

/-- A loader of 129 clusters. -/
def longLoader : List Byte := List.replicate (129 * Fat12Img.clusterBytes) 1

/-- The tool saves it, and the boot sector overwrites its first cluster with its last. -/
theorem long_loader_overwrites_itself :
    Fat12Img.saveCommand Fat12Img.formatDisk ⟨loaderPath, some longLoader⟩ Fat12Img.noon =
        .ok (true, savedDisk loaderPath longLoader) ∧
      BootFile (savedDisk loaderPath longLoader).byte loaderName 0 (List.range' 2 129) ∧
      ¬ LoadsLoader lowLayout (savedDisk loaderPath longLoader).byte (List.range' 2 129) := by
  have hlen : longLoader.length = 129 * Fat12Img.clusterBytes := List.length_replicate
  have hclusters : Fat12Img.clustersOf longLoader.length = 129 := by
    rw [hlen]
    decide
  have hfile := @bootFile_loader longLoader (by rw [hlen]; decide) (by rw [hclusters]; decide)
  rw [hclusters] at hfile
  refine ⟨save_savedDisk loaderPath (by rw [hclusters]; decide), hfile, ?_⟩
  exact not_loadsLoader lowLayout hfile (by rw [List.length_range']; decide)

end Boot

end BootSector

end Knos.Bootloader
