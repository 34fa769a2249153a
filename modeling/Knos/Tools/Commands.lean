import Knos.Tools.Clusters

/-!
# What a command does

One inversion lemma a command: `saveCommand_cases` and `delete_cases` say everything
that `save` and `del` can do, with the image they leave as a function of what they read
(`savedImage`, `deletedImage`). Later modules argue about these two functions only.

A run (`Runs`) starts with `format` and goes on with admitted commands. It carries the
bytes that each directory slot was saved with.
-/

namespace Knos.Fat12Img

open Knos.Bytes Knos.PyText Knos.Chains

/-! ## §1  `save` -/

/-- The clusters that `save` takes for a file of `n` bytes. -/
def picksFor (img : Image) (n : ℕ) : List ℕ := ((Fat.init img).free 0).take (clustersOf n)

/-- The image that `save` leaves when it has put the file into slot `i`. -/
def savedImage (img : Image) (dir : DirInfo) (i : ℕ) (info : FileInfo) (data : List Byte) : Image :=
  ((writeBlocks img (picksFor img data.length) data).writeDir (dir.set i (.file info))).writeFat
    (link 0xFFF (Fat.init img) (picksFor img data.length))

/-- `save` goes through: what it finds in the image. -/
structure Saves (img : Image) (target : TargetFile) (now : DateTime) (dir : DirInfo) (i : ℕ)
    (info : FileInfo) (data : List Byte) : Prop where
  dir_eq : DirInfo.init img = .ok dir
  content : target.content = some data
  space : clustersOf data.length ≤ ((Fat.init img).free 0).length
  slot : dir.findFreeIndex = some i
  start : ∃ start, ((Fat.init img).free 0).head? = some start ∧
    info = newFile (filename83 target.path) data.length start now

theorem length_picksFor {img : Image} {n : ℕ} (h : clustersOf n ≤ ((Fat.init img).free 0).length) :
    (picksFor img n).length = clustersOf n := by
  unfold picksFor
  rw [List.length_take, Nat.min_eq_left h]

theorem linkAfter_none (fat : Fat) (picks : List ℕ) :
    linkAfter none fat picks = link 0xFFF fat picks := by
  cases picks with
  | nil => rfl
  | cons c cs => rfl

theorem save_of_saves {img : Image} {target : TargetFile} {now : DateTime} {dir : DirInfo}
    {i : ℕ} {info : FileInfo} {data : List Byte} (h : Saves img target now dir i info data) :
    save img target now (Fat.init img) dir =
      (true, writeBlocks img (picksFor img data.length) data,
        link 0xFFF (Fat.init img) (picksFor img data.length), dir.set i (.file info)) := by
  obtain ⟨start, hstart, rfl⟩ := h.start
  have hloop := saveLoop_eq (picksFor img data.length) none data (Fat.init img) img
    (length_picksFor h.space) (List.take_prefix _ _)
  rw [linkAfter_none] at hloop
  have hspace : (Fat.init img).haveSpace (clustersOf data.length) = some start := by
    rw [haveSpace_eq, if_pos h.space, hstart]
  unfold save
  rw [h.content]
  simp only [hspace, h.slot, hloop]
  rfl

/-- **Everything the function `save` can do**: refuse and leave everything alone, for one
of four reasons, or go through. -/
theorem save_cases {img : Image} (target : TargetFile) (now : DateTime) {dir : DirInfo}
    (hdir : DirInfo.init img = .ok dir) :
    save img target now (Fat.init img) dir = (false, img, Fat.init img, dir) ∨
      ∃ i info data, Saves img target now dir i info data := by
  cases hcontent : target.content with
  | none =>
      left
      unfold save
      rw [hcontent]
  | some data =>
      cases hspace : (Fat.init img).haveSpace (clustersOf data.length) with
      | none =>
          left
          unfold save
          simp only [hcontent, hspace]
      | some start =>
          cases hslot : dir.findFreeIndex with
          | none =>
              left
              unfold save
              simp only [hcontent, hspace, hslot]
          | some i =>
              right
              rw [haveSpace_eq] at hspace
              by_cases hle : clustersOf data.length ≤ ((Fat.init img).free 0).length
              · rw [if_pos hle] at hspace
                exact ⟨i, _, data, hdir, hcontent, hle, hslot, start, hspace, rfl⟩
              · rw [if_neg hle] at hspace
                cases hspace

theorem saveCommand_of_saves {img : Image} {target : TargetFile} {now : DateTime} {dir : DirInfo}
    {i : ℕ} {info : FileInfo} {data : List Byte} (h : Saves img target now dir i info data) :
    saveCommand img target now = .ok (true, savedImage img dir i info data) := by
  unfold saveCommand
  rw [h.dir_eq, Loop.ok_bind, save_of_saves h]
  rfl

/-- **Everything the command `save` can do**: fail to decode the directory, refuse and
leave the image alone, or go through. -/
theorem saveCommand_cases (img : Image) (target : TargetFile) (now : DateTime) :
    (∃ e, saveCommand img target now = .error e) ∨
    saveCommand img target now = .ok (false, img) ∨
    ∃ dir i info data, Saves img target now dir i info data := by
  cases hdir : DirInfo.init img with
  | error e =>
      left
      refine ⟨e, ?_⟩
      unfold saveCommand
      rw [hdir]
      rfl
  | ok dir =>
      right
      rcases save_cases target now hdir with hrefused | ⟨i, info, data, h⟩
      · left
        unfold saveCommand
        rw [hdir, Loop.ok_bind, hrefused]
        rfl
      · exact Or.inr ⟨dir, i, info, data, h⟩

/-! ## §2  `del` -/

/-- The image that `del` leaves when it has removed the file in slot `i`. -/
def deletedImage (img : Image) (dir : DirInfo) (i : ℕ) (fat : Fat) : Image :=
  (img.writeDir (dir.set i .deleted)).writeFat fat

/-- What `find` returns, it is a file of that name, and the first one. -/
theorem find_eq_some {dir : DirInfo} {filename : List Char} {i : ℕ} :
    dir.find filename = some i ↔ (∃ info, dir[i]? = some (.file info) ∧ info.filename = filename) ∧
      ∀ j info, j < i → dir[j]? = some (.file info) → info.filename ≠ filename := by
  have hname : ∀ {s : Slot}, s.hasName filename = true ↔
      ∃ info, s = .file info ∧ info.filename = filename := by
    intro s
    cases s with
    | unused => simp [Slot.hasName]
    | deleted => simp [Slot.hasName]
    | file info => simp [Slot.hasName]
  unfold DirInfo.find
  rw [List.findIdx?_eq_some_iff_getElem]
  constructor
  · rintro ⟨hlt, hi, hbefore⟩
    obtain ⟨info, hfile, hinfo⟩ := hname.mp hi
    refine ⟨⟨info, by rw [List.getElem?_eq_getElem hlt, hfile], hinfo⟩, fun j info' hj hget heq => ?_⟩
    obtain ⟨hjlt, hjget⟩ := List.getElem?_eq_some_iff.mp hget
    exact hbefore j hj (hname.mpr ⟨info', hjget, heq⟩)
  · rintro ⟨⟨info, hget, hinfo⟩, hbefore⟩
    obtain ⟨hlt, hfile⟩ := List.getElem?_eq_some_iff.mp hget
    refine ⟨hlt, hname.mpr ⟨info, hfile, hinfo⟩, fun j hj hnamed => ?_⟩
    obtain ⟨info', hfile', hinfo'⟩ := hname.mp hnamed
    exact hbefore j info' hj (by rw [List.getElem?_eq_getElem (by omega), hfile']) hinfo'

theorem delete_of_find {img : Image} {path : List Char} {dir : DirInfo} {i : ℕ} {info : FileInfo}
    {fat : Fat} (hdir : DirInfo.init img = .ok dir) (hfind : dir.find (filename83 path) = some i)
    (hfile : dir[i]? = some (.file info))
    (hdel : (Fat.init img).delChain info.cluster.toNat info.size.toNat = .ok fat) :
    delete img path = .ok (true, deletedImage img dir i fat) := by
  unfold delete DirInfo.delFile
  rw [hdir, Loop.ok_bind]
  simp only [hfind, hfile, hdel]
  rfl

/-- **Everything `del` can do**: raise an exception, find nothing and leave the image
alone, or remove the first file of that name. -/
theorem delete_cases (img : Image) (path : List Char) :
    (∃ e, delete img path = .error e) ∨
    (delete img path = .ok (false, img) ∧
      ∀ dir, DirInfo.init img = .ok dir → dir.find (filename83 path) = none) ∨
    ∃ dir i info fat, DirInfo.init img = .ok dir ∧ dir.find (filename83 path) = some i ∧
      dir[i]? = some (.file info) ∧
      (Fat.init img).delChain info.cluster.toNat info.size.toNat = .ok fat ∧
      delete img path = .ok (true, deletedImage img dir i fat) := by
  cases hdir : DirInfo.init img with
  | error e =>
      left
      refine ⟨e, ?_⟩
      unfold delete
      rw [hdir]
      rfl
  | ok dir =>
      cases hfind : dir.find (filename83 path) with
      | none =>
          right
          left
          constructor
          · unfold delete DirInfo.delFile
            rw [hdir, Loop.ok_bind]
            simp only [hfind]
          · intro dir' hdir'
            cases hdir'
            exact hfind
      | some i =>
          obtain ⟨⟨info, hfile, -⟩, -⟩ := find_eq_some.mp hfind
          cases hdel : (Fat.init img).delChain info.cluster.toNat info.size.toNat with
          | error e =>
              left
              refine ⟨e, ?_⟩
              unfold delete DirInfo.delFile
              rw [hdir, Loop.ok_bind]
              simp only [hfind, hfile, hdel]
              rfl
          | ok fat =>
              right
              right
              exact ⟨dir, i, info, fat, rfl, hfind, hfile, hdel,
                delete_of_find hdir hfind hfile hdel⟩

/-! ## §3  Runs of commands -/

/-- A command after `format`. -/
inductive Command where
  | save (target : TargetFile) (now : DateTime)
  | del (path : List Char)

def Command.run (img : Image) : Command → Except PyError (Bool × Image)
  | .save target now => saveCommand img target now
  | .del path => delete img path

/-- The image after the command; an exception leaves it alone. -/
def Command.after (img : Image) (cmd : Command) : Image :=
  match cmd.run img with
  | .ok (_, img') => img'
  | .error _ => img

/-- The bytes each slot was saved with, after a `save` with this result: if successful,
it has put its file into the first free slot. -/
def recordSave (saved : ℕ → List Byte) (result : Except PyError (Bool × Image))
    (dir : Except PyError DirInfo) (content : Option (List Byte)) : ℕ → List Byte :=
  match result, dir, content with
  | .ok (true, _), .ok dir, some data =>
      match dir.findFreeIndex with
      | some i => Function.update saved i data
      | none => saved
  | _, _, _ => saved

def Command.record (img : Image) (saved : ℕ → List Byte) : Command → ℕ → List Byte
  | .save target now =>
      recordSave saved (saveCommand img target now) (DirInfo.init img) target.content
  | .del _ => saved

theorem record_save (img : Image) (saved : ℕ → List Byte) (target : TargetFile)
    (now : DateTime) : Command.record img saved (.save target now) =
      recordSave saved (saveCommand img target now) (DirInfo.init img) target.content := rfl

theorem recordSave_error (saved : ℕ → List Byte) (e : PyError) (dir : Except PyError DirInfo)
    (content : Option (List Byte)) : recordSave saved (.error e) dir content = saved := rfl

theorem recordSave_false (saved : ℕ → List Byte) (img : Image) (dir : Except PyError DirInfo)
    (content : Option (List Byte)) : recordSave saved (.ok (false, img)) dir content = saved := rfl

theorem recordSave_true (saved : ℕ → List Byte) (img : Image) {dir : DirInfo} {i : ℕ}
    (hslot : dir.findFreeIndex = some i) (data : List Byte) :
    recordSave saved (.ok (true, img)) (.ok dir) (some data) = Function.update saved i data := by
  unfold recordSave
  simp only [hslot]

theorem after_of_ok {img img' : Image} {cmd : Command} {b : Bool} (h : cmd.run img = .ok (b, img')) :
    cmd.after img = img' := by
  unfold Command.after
  rw [h]

theorem after_of_error {img : Image} {cmd : Command} {e : PyError} (h : cmd.run img = .error e) :
    cmd.after img = img := by
  unfold Command.after
  rw [h]

/-- A condition on a command, in the image that it is given. -/
abbrev Admission : Type := Image → Command → Prop

/-- The images that `format` and then admitted commands lead to, with the bytes that each
slot was saved with. -/
inductive Runs (admits : Admission) : Image → (ℕ → List Byte) → Prop where
  | format : Runs admits formatDisk fun _ => []
  | step {img : Image} {saved : ℕ → List Byte} {cmd : Command} (hrun : Runs admits img saved)
      (hadmits : admits img cmd) : Runs admits (cmd.after img) (cmd.record img saved)

theorem Runs.mono {admits admits' : Admission} {img : Image} {saved : ℕ → List Byte}
    (hle : ∀ img cmd, admits img cmd → admits' img cmd) (h : Runs admits img saved) :
    Runs admits' img saved := by
  induction h with
  | format => exact .format
  | step _ hadmits ih => exact .step ih (hle _ _ hadmits)

/-- The image behind a list of commands, and the bytes that each slot was saved with. -/
def runCommands : Image → (ℕ → List Byte) → List Command → Image × (ℕ → List Byte)
  | img, saved, [] => (img, saved)
  | img, saved, cmd :: cmds => runCommands (cmd.after img) (cmd.record img saved) cmds

/-- What is admitted in every image is admitted in a list. -/
theorem Runs.commands {admits : Admission} {cmds : List Command} {img : Image}
    {saved : ℕ → List Byte} (h : Runs admits img saved)
    (hadmits : ∀ cmd ∈ cmds, ∀ img, admits img cmd) :
    Runs admits (runCommands img saved cmds).1 (runCommands img saved cmds).2 := by
  induction cmds generalizing img saved with
  | nil => exact h
  | cons cmd cmds ih =>
      rw [List.forall_mem_cons] at hadmits
      exact ih (h.step (hadmits.1 img)) hadmits.2

/-- An invariant of `format`, successful `save`s and successful `del`s holds of every
image of a run. -/
theorem Runs.invariant {admits : Admission} (P : Image → (ℕ → List Byte) → Prop)
    (hformat : P formatDisk fun _ => [])
    (hsave : ∀ img saved target now dir i info data, P img saved →
      admits img (.save target now) → Saves img target now dir i info data →
      P (savedImage img dir i info data) (Function.update saved i data))
    (hdel : ∀ img saved path dir i info fat, P img saved → admits img (.del path) →
      DirInfo.init img = .ok dir → dir.find (filename83 path) = some i →
      dir[i]? = some (.file info) →
      (Fat.init img).delChain info.cluster.toNat info.size.toNat = .ok fat →
      P (deletedImage img dir i fat) saved)
    {img : Image} {saved : ℕ → List Byte} (h : Runs admits img saved) : P img saved := by
  induction h with
  | format => exact hformat
  | @step img saved cmd _ hadmits ih =>
      cases cmd with
      | save target now =>
          rcases saveCommand_cases img target now with ⟨e, he⟩ | hfalse | ⟨dir, i, info, data, h⟩
          · rw [@after_of_error img (.save target now) e he]
            rw [record_save, he, recordSave_error]
            exact ih
          · rw [@after_of_ok img img (.save target now) false hfalse]
            rw [record_save, hfalse, recordSave_false]
            exact ih
          · have hrun := saveCommand_of_saves h
            rw [@after_of_ok img _ (.save target now) true hrun]
            rw [record_save, hrun, h.dir_eq, h.content, recordSave_true saved _ h.slot]
            exact hsave img saved target now dir i info data ih hadmits h
      | del path =>
          rcases delete_cases img path with ⟨e, he⟩ | ⟨hfalse, -⟩ |
            ⟨dir, i, info, fat, hdir, hfind, hfile, hdelete, hrun⟩
          · rw [@after_of_error img (.del path) e he]
            exact ih
          · rw [@after_of_ok img img (.del path) false hfalse]
            exact ih
          · rw [@after_of_ok img _ (.del path) true hrun]
            exact hdel img saved path dir i info fat ih hadmits hdir hfind hfile hdelete

end Knos.Fat12Img
