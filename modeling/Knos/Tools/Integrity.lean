import Knos.Tools.Volume

/-!
# Files and directory slots

Two consequences of the volume invariant for runs of the tool: every file is intact
(`FilesIntact`), and a command touches the directory entry of its own file only
(`SlotsKept`). The second needs the names to come back unchanged from a record: a name
that takes more bytes than characters makes its record longer than 32 bytes and shifts all
behind it.
-/

namespace Knos.Fat12Img

open Knos.Bytes Knos.PyText Knos.Chains

/-! ## §1  Files -/

/-- A file whose entry is in the directory, with its chain of clusters. -/
structure Intact (img : Image) (info : FileInfo) (cs : List ℕ) (saved : List Byte) : Prop where
  size_eq : info.size.toNat = saved.length
  count : cs.length = clustersOf info.size.toNat
  nodup : cs.Nodup
  cells : ∀ c ∈ cs, 2 ≤ c
  first : cs.head? = some info.cluster.toNat
  linked : IsChain (entryAt (Fat.init img)) 0xFFF cs
  data : Holds img cs saved

/-- Slot `i` is a file that is not empty. -/
def NonEmptyFile (dir : DirInfo) (i : ℕ) (info : FileInfo) : Prop :=
  dir[i]? = some (.file info) ∧ info.size.toNat ≠ 0

/-- Every file is intact, no cluster belongs to two of them or to none, and the two FATs
are the same. -/
structure FilesIntact (img : Image) (saved : ℕ → List Byte) (dir : DirInfo)
    (chain : ℕ → List ℕ) : Prop where
  dir_eq : DirInfo.init img = .ok dir
  intact : ∀ i info, NonEmptyFile dir i info → Intact img info (chain i) (saved i)
  disjoint : ∀ i j info info', NonEmptyFile dir i info → NonEmptyFile dir j info' → i ≠ j →
    List.Disjoint (chain i) (chain j)
  owned : ∀ c, 2 ≤ c → entryAt (Fat.init img) c ≠ 0 →
    ∃! i, (∃ info, NonEmptyFile dir i info) ∧ c ∈ chain i
  copies : peek img.byte fat1Address fatBytes = peek img.byte fat2Address fatBytes

theorem Volume.filesIntact {img : Image} {saved : ℕ → List Byte} {dir : DirInfo}
    {chain : ℕ → List ℕ} (h : Volume img saved dir chain) : FilesIntact img saved dir chain := by
  have hcount : ∀ i info, dir[i]? = some (.file info) →
      (chain i).length = clustersOf info.size.toNat := by
    intro i info hfile
    rw [h.count i info hfile, h.size_eq i info hfile]
  refine ⟨h.dir_eq, ?_, ?_, ?_, h.copies⟩
  · rintro i info ⟨hfile, hsize⟩
    have hne : chain i ≠ [] := by
      intro hnil
      have hlen := hcount i info hfile
      rw [hnil] at hlen
      exact hsize (clustersOf_eq_zero.mp hlen.symm)
    exact ⟨h.size_eq i info hfile, hcount i info hfile, h.nodup i,
      fun c hc => (h.cells i c hc).1, h.first i info hfile hne, h.linked i hne,
      h.data i info hfile⟩
  · intro i j info info' _ _ hij c hc hc'
    exact hij (h.disjoint i j c hc hc')
  · intro c hc hentry
    obtain ⟨i, hi⟩ := h.owned c hc hentry
    refine ⟨i, ⟨?_, hi⟩, fun j hj => h.disjoint j i c hj.2 hi⟩
    by_contra hnone
    -- a slot without a file, or with an empty one, has no chain
    have hnil : chain i = [] := by
      by_cases hfile : ∃ info, dir[i]? = some (.file info)
      · obtain ⟨info, hfile⟩ := hfile
        have hzero : info.size.toNat = 0 := by
          by_contra hsize
          exact hnone ⟨info, hfile, hsize⟩
        have hlen := hcount i info hfile
        rw [hzero] at hlen
        exact List.length_eq_zero_iff.mp hlen
      · exact h.free i fun info hget => hfile ⟨info, hget⟩
    rw [hnil] at hi
    cases hi

/-- The names that are saved are printable. -/
def PrintableSave : Admission := fun _ cmd =>
  match cmd with
  | .save target _ => Printable target.path
  | .del _ => True

theorem PrintableSave.cleanSave {img : Image} {cmd : Command} (h : PrintableSave img cmd) :
    CleanSave img cmd := by
  cases cmd with
  | save target now => exact Printable.cleanName h
  | del path => trivial

/-- **Files are intact** in every image that `format`, `save` and `del` lead to. -/
theorem files_intact (img : Image) (saved : ℕ → List Byte) (h : Runs PrintableSave img saved) :
    ∃ dir chain, FilesIntact img saved dir chain := by
  obtain ⟨dir, chain, hvol⟩ := runs_volume (h.mono fun _ _ => PrintableSave.cleanSave)
  exact ⟨dir, chain, hvol.filesIntact⟩

def noon : DateTime where
  year := 2024
  month := 5
  day := 1
  hour := 12
  minute := 0
  second := 0
  year_ge := by decide
  year_le := by decide
  month_le := by decide
  day_le := by decide
  hour_lt := by decide
  minute_lt := by decide
  second_lt := by decide

/-- `save` of a file of one byte. -/
def saveReadme : Command := .save ⟨['R', 'E', 'A', 'D', 'M', 'E'], some [0x4B]⟩ noon

/-- `save` of a file of two clusters. -/
def saveNotes : Command :=
  .save ⟨['N', 'O', 'T', 'E', 'S', '.', 'T', 'X', 'T'], some (List.replicate 600 0x41)⟩ noon

/-- Two files, of which the first is deleted. -/
def notesOnly : List Command := [saveReadme, saveNotes, .del ['R', 'E', 'A', 'D', 'M', 'E']]

theorem printable_notesOnly : ∀ cmd ∈ notesOnly, ∀ img, PrintableSave img cmd := by
  unfold notesOnly
  simp only [List.forall_mem_cons, List.not_mem_nil, false_implies, implies_true, and_true]
  exact ⟨fun _ => (by decide : Printable ['R', 'E', 'A', 'D', 'M', 'E']),
    fun _ => (by decide : Printable ['N', 'O', 'T', 'E', 'S', '.', 'T', 'X', 'T']), fun _ => trivial⟩

theorem files_intact_notesOnly : ∃ dir chain,
    FilesIntact (runCommands formatDisk (fun _ => []) notesOnly).1
      (runCommands formatDisk (fun _ => []) notesOnly).2 dir chain :=
  files_intact _ _ (Runs.commands .format printable_notesOnly)

/-! ## §2  Directory slots -/

/-- The slot that a command adds or removes. -/
def Command.slot (dir : DirInfo) : Command → Option ℕ
  | .save _ _ => dir.findFreeIndex
  | .del path => dir.find (filename83 path)

/-- A command leaves the bytes of the other slots alone, and afterwards every file has a
record of 32 bytes in its slot. -/
structure SlotsKept (img : Image) (cmd : Command) (dir dir' : DirInfo) : Prop where
  dir_eq : DirInfo.init img = .ok dir
  dir_eq' : DirInfo.init (cmd.after img) = .ok dir'
  others : ∀ j, j < fileCount → cmd.slot dir ≠ some j →
    diskSlot (cmd.after img) j = diskSlot img j
  records : ∀ i info, dir'[i]? = some (.file info) →
    info.pack.length = fileinfoBytes ∧ diskSlot (cmd.after img) i = info.pack

theorem Volume.records {img : Image} {saved : ℕ → List Byte} {dir : DirInfo} {chain : ℕ → List ℕ}
    (h : Volume img saved dir chain) : ∀ i info, dir[i]? = some (.file info) →
      info.pack.length = fileinfoBytes ∧ diskSlot img i = info.pack := by
  intro i info hfile
  exact ⟨h.length_bytes hfile nofun, h.tidy i _ hfile nofun⟩

/-- **A clean command keeps the other slots.** -/
theorem Volume.slotsKept {img : Image} {saved : ℕ → List Byte} {dir : DirInfo}
    {chain : ℕ → List ℕ} (h : Volume img saved dir chain) {cmd : Command}
    (hadmits : CleanSave img cmd) : ∃ dir', SlotsKept img cmd dir dir' := by
  have hsame : cmd.after img = img → ∃ dir', SlotsKept img cmd dir dir' := by
    intro heq
    exact ⟨dir, h.dir_eq, by rw [heq]; exact h.dir_eq, fun j _ _ => by rw [heq],
      by rw [heq]; exact h.records⟩
  cases cmd with
  | save target now =>
      rcases saveCommand_cases img target now with ⟨e, he⟩ | hfalse | ⟨dir', i, info, data, hs⟩
      · exact hsame (@after_of_error img (.save target now) e he)
      · exact hsame (@after_of_ok img img (.save target now) false hfalse)
      · obtain rfl : dir' = dir := Except.ok.inj (hs.dir_eq.symm.trans h.dir_eq)
        have hafter := @after_of_ok img _ (.save target now) true (saveCommand_of_saves hs)
        have hvol := h.save hadmits hs
        refine ⟨_, h.dir_eq, by rw [hafter]; exact hvol.dir_eq, fun j hj hne => ?_, ?_⟩
        · rw [hafter]
          exact (h.slots_of_saves hadmits hs).2.2 j hj fun heq => hne (heq ▸ hs.slot)
        · rw [hafter]
          exact hvol.records
  | del path =>
      rcases delete_cases img path with ⟨e, he⟩ | ⟨hfalse, -⟩ |
        ⟨dir', i, info, fat, hdir, hfind, hfile, hdel, hrun⟩
      · exact hsame (@after_of_error img (.del path) e he)
      · exact hsame (@after_of_ok img img (.del path) false hfalse)
      · obtain rfl : dir' = dir := Except.ok.inj (hdir.symm.trans h.dir_eq)
        rw [h.delChain hfile] at hdel
        cases hdel
        have hafter := @after_of_ok img _ (.del path) true hrun
        obtain ⟨hfat, hlt⟩ := unlink_wf img (chain i)
        have hvol := h.del hfile
        refine ⟨_, h.dir_eq, by rw [hafter]; exact hvol.dir_eq, fun j hj hne => ?_, ?_⟩
        · rw [hafter]
          exact (h.slots_of_del hfile _ hfat hlt).2.2 j hj fun heq => hne (heq ▸ hfind)
        · rw [hafter]
          exact hvol.records

/-- **Slots are kept** by every further clean command after a run of clean commands. -/
theorem slots_kept (img : Image) (saved : ℕ → List Byte) (h : Runs CleanSave img saved)
    (cmd : Command) (hadmits : CleanSave img cmd) : ∃ dir dir', SlotsKept img cmd dir dir' := by
  obtain ⟨dir, chain, hvol⟩ := runs_volume h
  obtain ⟨dir', hkept⟩ := hvol.slotsKept hadmits
  exact ⟨dir, dir', hkept⟩

theorem slots_kept_readme : ∃ dir dir',
    SlotsKept (saveReadme.after formatDisk) (.del ['R', 'E', 'A', 'D', 'M', 'E']) dir dir' :=
  slots_kept _ _ (.step .format (@PrintableSave.cleanSave formatDisk saveReadme
    (show Printable ['R', 'E', 'A', 'D', 'M', 'E'] by decide))) _ trivial

/-! ## §3  Formatted disks -/

theorem freeCells_replicate (i n : ℕ) : freeCells i (List.replicate n 0) = List.range' i n := by
  induction n generalizing i with
  | zero => rfl
  | succ n ih =>
      rw [List.replicate_succ, freeCells_cons_zero, ih (i + 1), List.range'_succ]

theorem init_formatDisk : Fat.init formatDisk = 0xFF0 :: 0xFFF :: List.replicate 3070 0 := by
  apply ext_entryAt
  · rw [length_init, List.length_cons, List.length_cons, List.length_replicate]
  · intro c hc
    rw [length_init] at hc
    rw [entryAt_formatDisk]
    match c with
    | 0 => rfl
    | 1 => rfl
    | c + 2 =>
        rw [if_neg (by omega), if_neg (by omega)]
        exact (entryAt_eq (show (List.replicate 3070 0)[c]? = some 0 by
          rw [List.getElem?_replicate, if_pos (by omega)])).symm

/-- All clusters are free but the two reserved ones. -/
theorem free_formatDisk : (Fat.init formatDisk).free 0 = List.range' 2 3070 := by
  rw [init_formatDisk]
  show freeCells 0 (0xFF0 :: 0xFFF :: List.replicate 3070 0) = _
  rw [freeCells_cons_of_ne (by decide), freeCells_cons_of_ne (by decide), freeCells_replicate]

/-- What `save` puts into the directory of an image without files. -/
theorem saves_formatted {img : Image} {dir : DirInfo} {i : ℕ} {target : TargetFile}
    {data : List Byte} (now : DateTime) (hfat : Fat.init img = Fat.init formatDisk)
    (hdir : DirInfo.init img = .ok dir) (hslot : dir.findFreeIndex = some i)
    (hcontent : target.content = some data) (hspace : clustersOf data.length ≤ 3070) :
    Saves img target now dir i (newFile (filename83 target.path) data.length 2 now) data := by
  have hfree : (Fat.init img).free 0 = List.range' 2 3070 := by rw [hfat, free_formatDisk]
  refine ⟨hdir, hcontent, ?_, hslot, 2, ?_, rfl⟩
  · rw [hfree, List.length_range']
    exact hspace
  · rw [hfree]
    rfl

/-- An empty file takes no cluster. -/
theorem picksFor_zero (img : Image) : picksFor img 0 = [] := by
  have hzero : clustersOf 0 = 0 := rfl
  unfold picksFor
  rw [hzero, List.take_zero]

/-! ## §4  A name that is not ASCII -/

/-- `save` of an empty file. -/
def saveEmpty (path : List Char) : Command := .save ⟨path, some []⟩ noon

def pathA : List Char := ['A', '.', 'T', 'X', 'T']
def pathB : List Char := ['B', '.', 'T', 'X', 'T']
def pathAccented : List Char := ['é', '.', 'T', 'X', 'T']

/-- `A.TXT` and `B.TXT` saved, and `A.TXT` deleted again. -/
def oneFileBehindAHole : Image :=
  (Command.del pathA).after ((saveEmpty pathB).after
    ((saveEmpty pathA).after formatDisk))

theorem saveEmpty_keeps_fat {img : Image} {saved : ℕ → List Byte} {dir : DirInfo}
    {chain : ℕ → List ℕ} {i : ℕ} (path : List Char) (h : Volume img saved dir chain)
    (hclean : CleanName path) (hslot : dir.findFreeIndex = some i)
    (hfat : Fat.init img = Fat.init formatDisk) :
    ∃ saved' chain', Volume ((saveEmpty path).after img) saved'
      (dir.set i (.file (newFile (filename83 path) 0 2 noon).stored)) chain' ∧
      Fat.init ((saveEmpty path).after img) = Fat.init formatDisk := by
  have hs := @saves_formatted img dir i ⟨path, some []⟩ [] noon hfat h.dir_eq hslot rfl
    (Nat.zero_le 3070)
  have hafter := @after_of_ok img _ (saveEmpty path) true (saveCommand_of_saves hs)
  obtain ⟨hfat', hlt⟩ := @link_picks_wf img 0
  refine ⟨_, _, by rw [hafter]; exact h.save hclean hs, ?_⟩
  rw [hafter]
  refine (init_writeFat _ hfat' hlt).trans ?_
  rw [picksFor_zero, link_nil]
  exact hfat

/-- The entry of an empty file, as it is read back. -/
def emptyFile (path : List Char) : Slot :=
  .file (newFile (filename83 path) 0 2 noon).stored

/-- The directory with the two files. -/
def twoFiles : DirInfo :=
  ((List.replicate fileCount Slot.unused).set 0 (emptyFile pathA)).set 1 (emptyFile pathB)

theorem volume_oneFileBehindAHole : ∃ saved chain,
    Volume oneFileBehindAHole saved (twoFiles.set 0 .deleted) chain ∧
      Fat.init oneFileBehindAHole = Fat.init formatDisk := by
  obtain ⟨saved₁, chain₁, hvol₁, hfat₁⟩ := saveEmpty_keeps_fat (i := 0) pathA volume_format
    (Printable.cleanName (by decide)) rfl rfl
  obtain ⟨saved₂, chain₂, hvol₂, hfat₂⟩ := saveEmpty_keeps_fat (i := 1) pathB hvol₁
    (Printable.cleanName (by decide)) rfl hfat₁
  have hfile : twoFiles[0]? = some (emptyFile pathA) := rfl
  have hfind : twoFiles.find (filename83 pathA) = some 0 :=
    find_eq_some.mpr ⟨⟨_, hfile, by decide⟩, fun j info hj => absurd hj (Nat.not_lt_zero j)⟩
  have hnil : chain₂ 0 = [] := by
    have hlen := hvol₂.count 0 _ hfile
    rw [← hvol₂.size_eq 0 _ hfile] at hlen
    exact List.length_eq_zero_iff.mp hlen
  have hrun := delete_of_find hvol₂.dir_eq hfind hfile (hvol₂.delChain hfile)
  have hafter : oneFileBehindAHole = _ :=
    @after_of_ok _ _ (.del pathA) true hrun
  have hvol₃ := hvol₂.del hfile
  rw [← hafter] at hvol₃
  refine ⟨_, _, hvol₃, ?_⟩
  obtain ⟨hfat, hlt⟩ := unlink_wf ((saveEmpty pathB).after ((saveEmpty pathA).after formatDisk))
    (chain₂ 0)
  rw [hafter]
  refine (init_writeFat _ hfat hlt).trans ?_
  rw [hnil, unlink_nil]
  exact hfat₂

/-- The entry that `save` makes of an empty `é.TXT`. -/
def accentedFile : FileInfo := newFile (filename83 pathAccented) 0 2 noon

/-- Its name takes 12 bytes and its record 33: the last of them lands on the slot behind. -/
theorem byte_behind_accentedFile (base : Image) :
    (base.writeDir ((twoFiles.set 0 .deleted).set 0 (.file accentedFile))).byte (slotAddress 1) =
      0 := by
  have hwritten : DirInfo.written ((twoFiles.set 0 .deleted).set 0 (.file accentedFile)) =
      [.file accentedFile, emptyFile pathB] := rfl
  have hbyte : ([Slot.file accentedFile, emptyFile pathB].map Slot.bytes).flatten[32]? =
      some 0 := by
    decide +kernel
  unfold Image.writeDir
  rw [writeSlots_eq, hwritten, write_byte]
  exact poke_inside base.byte hbyte

/-- The name of the file in slot 1 loses its first letter. -/
theorem nonAscii_name_overwrites_slot :
    (∃ saved, Runs (fun _ _ => True) oneFileBehindAHole saved) ∧
    (∃ dir, DirInfo.init oneFileBehindAHole = .ok dir ∧ (saveEmpty pathAccented).slot dir = some 0) ∧
    diskSlot ((saveEmpty pathAccented).after oneFileBehindAHole) 1 ≠ diskSlot oneFileBehindAHole 1 := by
  obtain ⟨saved, chain, hvol, hfat⟩ := volume_oneFileBehindAHole
  have hslot : DirInfo.findFreeIndex (twoFiles.set 0 .deleted) = some 0 := rfl
  refine ⟨⟨_, .step (.step (.step .format trivial) trivial) trivial⟩,
    ⟨_, hvol.dir_eq, hslot⟩, fun heq => ?_⟩
  have hs : Saves oneFileBehindAHole ⟨pathAccented, some []⟩ noon (twoFiles.set 0 .deleted) 0
      accentedFile [] :=
    @saves_formatted _ _ 0 ⟨pathAccented, some []⟩ [] noon hfat hvol.dir_eq hslot rfl
      (Nat.zero_le 3070)
  have hafter := @after_of_ok _ _ (saveEmpty pathAccented) true (saveCommand_of_saves hs)
  obtain ⟨hfat', hlt⟩ := @link_picks_wf oneFileBehindAHole 0
  have hnew : (diskSlot ((saveEmpty pathAccented).after oneFileBehindAHole) 1)[0]? = some 0 := by
    rw [hafter]
    unfold savedImage
    rw [show ([] : List Byte).length = 0 from rfl, diskSlot_writeFat _ hfat' hlt]
    unfold diskSlot
    rw [getElem?_peek (by decide)]
    exact congrArg some (byte_behind_accentedFile _)
  have hold : diskSlot oneFileBehindAHole 1 = (emptyFile pathB).bytes := hvol.tidy 1 _ rfl nofun
  rw [heq, hold] at hnew
  exact absurd hnew (by decide +kernel)

end Knos.Fat12Img
