import Knos.Tools.Integrity

/-!
# `write`

The command that puts a file on the disk sector by sector, without the file system. The build
uses it for the boot sector, which lies in front of the first FAT: written like that it harms no
file, and no `save` and no `del` changes it (`build_runs_intact`).
-/

namespace Knos.Fat12Img

open Knos.Bytes Knos.PyText Knos.Chains

/-! ## §1  The command -/

/-- What `seek` raises. -/
inductive SeekError where
  | negativePosition (position : ℤ)
deriving DecidableEq

def sectorSize : ℕ := 512

/-- `img_file.seek(offset)` -/
def seek (offset : ℤ) : Except SeekError ℕ :=
  if offset < 0 then .error (.negativePosition offset) else .ok offset.toNat

/-- The loop of `write_data` from sector `i` of the file on, with so many left. -/
def writeSectors (data : List Byte) (startSector : ℤ) : ℕ → ℕ → Image → Except SeekError Image
  | 0, _, img => .ok img
  | left + 1, i, img => do
      let offset ← seek ((startSector + i) * sectorSize)
      writeSectors data startSector left (i + 1)
        (img.write offset ((data.drop (i * sectorSize)).take sectorSize))

/-- `write_data` -/
def writeData (img : Image) (content : Option (List Byte)) (startSector : ℤ) :
    Except SeekError (Bool × Image) :=
  match content with
  | none => .ok (false, img)
  | some data => do
      let totalSectors := (data.length + sectorSize - 1) / sectorSize
      let img ← writeSectors data startSector totalSectors 0 img
      .ok (true, img)

section Write

variable {img : Image} {data : List Byte} {start : ℕ}

/-- The loop writes what is left of the file. -/
theorem writeSectors_eq {left i : ℕ} (hleft : data.length ≤ (i + left) * sectorSize) :
    writeSectors data (start : ℤ) left i img =
      .ok (img.write ((start + i) * sectorSize) (data.drop (i * sectorSize))) := by
  induction left generalizing i img with
  | zero =>
      rw [Nat.add_zero] at hleft
      rw [List.drop_eq_nil_of_le hleft, write_nil]
      rfl
  | succ left ih =>
      have hseek : seek (((start : ℤ) + i) * sectorSize) = .ok ((start + i) * sectorSize) := by
        have hcast : ((start : ℤ) + i) * sectorSize = (((start + i) * sectorSize : ℕ) : ℤ) := by
          push_cast
          rfl
        unfold seek
        rw [hcast, if_neg (by omega), Int.toNat_natCast]
      have hsucc : (i + 1) * sectorSize = i * sectorSize + sectorSize := Nat.add_one_mul i sectorSize
      have hrest : writeSectors data (start : ℤ) left (i + 1) _ = _ :=
        @ih (img.write ((start + i) * sectorSize) ((data.drop (i * sectorSize)).take sectorSize))
          (i + 1) (by rwa [Nat.add_assoc, Nat.add_comm 1])
      rw [writeSectors, hseek, Loop.ok_bind, hrest, hsucc]
      refine congrArg Except.ok ?_
      rcases Nat.le_total data.length (i * sectorSize + sectorSize) with hlast | hmore
      · have hlen : (data.drop (i * sectorSize)).length ≤ sectorSize := by
          rw [List.length_drop]
          omega
        rw [List.take_of_length_le hlen, List.drop_eq_nil_of_le hlast, write_nil]
      · have hlen : ((data.drop (i * sectorSize)).take sectorSize).length = sectorSize := by
          rw [List.length_take, List.length_drop]
          omega
        have hsplit := List.take_append_drop sectorSize (data.drop (i * sectorSize))
        rw [List.drop_drop] at hsplit
        have happend := write_append img ((start + i) * sectorSize)
          ((data.drop (i * sectorSize)).take sectorSize) (data.drop (i * sectorSize + sectorSize))
        rw [hsplit, hlen] at happend
        rw [← Nat.add_assoc start, Nat.add_one_mul, happend]

/-- **Sector by sector** is all at once. -/
theorem writeData_eq (img : Image) (data : List Byte) (start : ℕ) :
    writeData img (some data) start = .ok (true, img.write (start * sectorSize) data) := by
  have hleft : data.length ≤ (0 + (data.length + sectorSize - 1) / sectorSize) * sectorSize := by
    unfold sectorSize
    omega
  have hloop := @writeSectors_eq img data start _ 0 hleft
  rw [Nat.zero_mul, List.drop_zero, Nat.add_zero] at hloop
  unfold writeData
  dsimp only
  rw [hloop]
  rfl

end Write

/-! ## §2  The boot sector -/

section Boot

variable {img img' : Image} {saved : ℕ → List Byte} {dir : DirInfo} {chain : ℕ → List ℕ}

theorem init_of_same (hbyte : ∀ a, fat1Address ≤ a → img'.byte a = img.byte a) :
    Fat.init img' = Fat.init img := by
  have hentry : ∀ c, fatEntry img' c = fatEntry img c := by
    intro c
    unfold fatEntry Fat12.entry
    rw [hbyte _ (Nat.le_add_right _ _), hbyte _ (Nat.le_add_right_of_le (Nat.le_add_right _ _)),
      hbyte _ (Nat.le_add_right_of_le (Nat.le_add_right _ _))]
  rw [init_eq_map, init_eq_map]
  exact List.map_congr_left fun c _ => hentry c

/-- A volume lies behind the boot sector. -/
theorem Volume.of_same (h : Volume img saved dir chain) (hsize : img.size ≤ img'.size)
    (hbyte : ∀ a, fat1Address ≤ a → img'.byte a = img.byte a) : Volume img' saved dir chain := by
  have hfat : Fat.init img' = Fat.init img := init_of_same hbyte
  have hslot : ∀ i, diskSlot img' i = diskSlot img i := fun i =>
    peek_congr fun a ha _ =>
      hbyte a (Nat.le_trans (Nat.le_add_right_of_le (show fat1Address ≤ dirAddress by decide)) ha)
  have hdata : ∀ cs data, Holds img cs data → Holds img' cs data := fun cs data hholds =>
    hholds.congr hsize fun c _ a ha _ =>
      hbyte a (Nat.le_trans (Nat.le_add_right_of_le (show fat1Address ≤ entityAddress by decide)) ha)
  exact {
    dir_eq := by
      rw [init_eq_ok]
      refine ⟨h.length_dir, fun i s hs => ?_⟩
      rw [hslot]
      exact (init_eq_ok.mp h.dir_eq).2 i s hs
    tidy := fun i s hs hne => by
      rw [hslot]
      exact h.tidy i s hs hne
    compact := h.compact
    size_eq := h.size_eq
    count := h.count
    first := h.first
    free := h.free
    linked := by
      rw [hfat]
      exact h.linked
    cells := h.cells
    disjoint := h.disjoint
    owned := by
      rw [hfat]
      exact h.owned
    data := fun i info hfile => hdata _ _ (h.data i info hfile)
    reserved := by
      rw [hfat]
      exact h.reserved
    copies := by
      rw [peek_congr fun a ha _ => hbyte a ha, h.copies]
      exact (peek_congr fun a ha _ => hbyte a (Nat.le_trans (by decide) ha)).symm }

/-- A file that is written in front of the first FAT. -/
theorem Volume.write_front (h : Volume img saved dir chain) {pos : ℕ} {data : List Byte}
    (hend : pos + data.length ≤ fat1Address) : Volume (img.write pos data) saved dir chain :=
  h.of_same (size_le_write_size img pos data) fun a ha => poke_outside img.byte (Or.inr (by omega))

/-- `save` leaves what lies in front of the first FAT alone. -/
theorem Volume.save_front (h : Volume img saved dir chain) {target : TargetFile} {now : DateTime}
    {i : ℕ} {info : FileInfo} {data : List Byte} (hclean : CleanName target.path)
    (hs : Saves img target now dir i info data) {a : ℕ} (ha : a < fat1Address) :
    (savedImage img dir i info data).byte a = img.byte a := by
  obtain ⟨hall, -, -⟩ := h.slots_of_saves hclean hs
  obtain ⟨hfat, hlt⟩ := @link_picks_wf img data.length
  have hdir := (h.length_set_dir hs (.file info)).1
  unfold savedImage
  rw [writeFat_outside _ hfat hlt (Or.inl ha),
    writeDir_outside _ hdir hall (Or.inl (Nat.lt_trans ha (by decide))),
    h.blocks_outside (Nat.lt_trans ha (by decide))]

/-- So does `del`. -/
theorem Volume.del_front (h : Volume img saved dir chain) {i : ℕ} {info : FileInfo}
    (hfile : dir[i]? = some (.file info)) {a : ℕ} (ha : a < fat1Address) :
    (deletedImage img dir i (unlink (Fat.init img) (chain i))).byte a = img.byte a := by
  obtain ⟨hfat, hlt⟩ := unlink_wf img (chain i)
  obtain ⟨hall, -, -⟩ := h.slots_of_del hfile _ hfat hlt
  have hdir : (dir.set i .deleted).length = fileCount := by
    rw [List.length_set, h.length_dir]
  unfold deletedImage
  rw [writeFat_outside _ hfat hlt (Or.inl ha),
    writeDir_outside _ hdir hall (Or.inl (Nat.lt_trans ha (by decide)))]

end Boot

/-! ## §3  Runs -/

/-- What is in the boot sector when a file is written over it. -/
def overlay (data boot : List Byte) : List Byte := data ++ boot.drop data.length

/-- The images that `format`, clean `save`s, `del`s and writes of the boot sector lead to,
with what each slot was saved with and what the boot sector was written with. -/
inductive BuildRuns : Image → (ℕ → List Byte) → List Byte → Prop where
  | format : BuildRuns formatDisk (fun _ => []) (List.replicate sectorSize 0)
  | command {img : Image} {saved : ℕ → List Byte} {boot : List Byte} {cmd : Command}
      (hrun : BuildRuns img saved boot) (hclean : CleanSave img cmd) :
      BuildRuns (cmd.after img) (cmd.record img saved) boot
  | write {img img' : Image} {saved : ℕ → List Byte} {boot data : List Byte} {done : Bool}
      (hrun : BuildRuns img saved boot) (hlen : data.length ≤ sectorSize)
      (hwrite : writeData img (some data) 0 = .ok (done, img')) :
      BuildRuns img' saved (overlay data boot)

section Runs

variable {img : Image} {saved : ℕ → List Byte} {boot : List Byte}

/-- A volume with this boot sector. -/
def BootVolume (img : Image) (saved : ℕ → List Byte) (boot : List Byte) : Prop :=
  (∃ dir chain, Volume img saved dir chain) ∧ peek img.byte 0 sectorSize = boot

theorem peek_overlay {data : List Byte} (hlen : data.length ≤ sectorSize) :
    peek (poke img.byte 0 data) 0 sectorSize = overlay data (peek img.byte 0 sectorSize) := by
  obtain ⟨rest, hrest⟩ := Nat.exists_eq_add_of_le hlen
  unfold overlay
  rw [hrest, peek_add, peek_poke_self, drop_peek (Nat.le_add_right _ _), Nat.add_sub_cancel_left,
    peek_poke_of_disjoint (Or.inr (Nat.le_refl _))]

/-- A step of the file system. -/
theorem BootVolume.command (h : BootVolume img saved boot) {cmd : Command}
    (hclean : CleanSave img cmd) : BootVolume (cmd.after img) (cmd.record img saved) boot := by
  obtain ⟨⟨dir, chain, hvol⟩, hboot⟩ := h
  have hsame {img' : Image} (hbyte : ∀ a < fat1Address, img'.byte a = img.byte a) :
      peek img'.byte 0 sectorSize = boot := by
    rw [← hboot]
    exact peek_congr fun a _ ha => hbyte a ha
  cases cmd with
  | save target now =>
      rcases saveCommand_cases img target now with ⟨e, he⟩ | hfalse | ⟨dir', i, info, data, hs⟩
      · rw [@after_of_error img (.save target now) e he, record_save, he, recordSave_error]
        exact ⟨⟨dir, chain, hvol⟩, hboot⟩
      · rw [@after_of_ok img img (.save target now) false hfalse, record_save, hfalse,
          recordSave_false]
        exact ⟨⟨dir, chain, hvol⟩, hboot⟩
      · obtain rfl : dir' = dir := Except.ok.inj (hs.dir_eq.symm.trans hvol.dir_eq)
        have hrun := saveCommand_of_saves hs
        rw [@after_of_ok img _ (.save target now) true hrun, record_save, hrun, hs.dir_eq,
          hs.content, recordSave_true saved _ hs.slot]
        exact ⟨⟨_, _, hvol.save hclean hs⟩, hsame fun a ha => hvol.save_front hclean hs ha⟩
  | del path =>
      rcases delete_cases img path with ⟨e, he⟩ | ⟨hfalse, -⟩ |
        ⟨dir', i, info, fat, hdir, hfind, hfile, hdel, hrun⟩
      · rw [@after_of_error img (.del path) e he]
        exact ⟨⟨dir, chain, hvol⟩, hboot⟩
      · rw [@after_of_ok img img (.del path) false hfalse]
        exact ⟨⟨dir, chain, hvol⟩, hboot⟩
      · obtain rfl : dir' = dir := Except.ok.inj (hdir.symm.trans hvol.dir_eq)
        rw [hvol.delChain hfile] at hdel
        cases hdel
        rw [@after_of_ok img _ (.del path) true hrun]
        exact ⟨⟨_, _, hvol.del hfile⟩, hsame fun a ha => hvol.del_front hfile ha⟩

theorem runs_bootVolume (h : BuildRuns img saved boot) : BootVolume img saved boot := by
  induction h with
  | format =>
      refine ⟨⟨_, _, volume_format⟩, ?_⟩
      rw [peek_eq_iff List.length_replicate]
      intro i x hx
      obtain ⟨hlt, rfl⟩ := List.getElem?_eq_some_iff.mp hx
      rw [List.length_replicate] at hlt
      rw [List.getElem_replicate, Nat.zero_add]
      exact formatDisk_byte i (Or.inl hlt) (Or.inl (Nat.lt_trans hlt (by decide)))
  | command _ hclean ih => exact ih.command hclean
  | @write img img' saved boot data done _ hlen hwrite ih =>
      obtain ⟨⟨dir, chain, hvol⟩, rfl⟩ := ih
      have hrun := writeData_eq img data 0
      rw [Nat.zero_mul] at hrun
      obtain ⟨-, rfl⟩ := Prod.mk.inj (Except.ok.inj (hrun.symm.trans hwrite))
      exact ⟨⟨dir, chain, hvol.write_front (by rwa [Nat.zero_add])⟩, peek_overlay hlen⟩

/-- **A build keeps its files.** In every image that `format`, `save`, `del` and writes of at
most one sector at the beginning lead to, in any order: every file is intact, and the boot
sector is what was written there last. -/
theorem build_runs_intact (h : BuildRuns img saved boot) :
    (∃ dir chain, FilesIntact img saved dir chain) ∧ peek img.byte 0 sectorSize = boot := by
  obtain ⟨⟨dir, chain, hvol⟩, hboot⟩ := runs_bootVolume h
  exact ⟨⟨dir, chain, hvol.filesIntact⟩, hboot⟩

/-- A formatted disk with a boot sector and a file. -/
theorem build_runs_intact_readme :
    (∃ dir chain, FilesIntact (saveReadme.after (formatDisk.write 0 [0xEB]))
      (Command.record (formatDisk.write 0 [0xEB]) (fun _ => []) saveReadme) dir chain) ∧
    peek (saveReadme.after (formatDisk.write 0 [0xEB])).byte 0 sectorSize =
      overlay [0xEB] (List.replicate sectorSize 0) :=
  build_runs_intact (.command
    (.write .format (show [0xEB].length ≤ sectorSize by decide) (writeData_eq formatDisk [0xEB] 0))
    (PrintableSave.cleanSave (show Printable ['R', 'E', 'A', 'D', 'M', 'E'] by decide)))

end Runs

end Knos.Fat12Img
