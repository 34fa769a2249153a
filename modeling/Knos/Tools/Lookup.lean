import Knos.Tools.Integrity

/-!
# Finding a file again

`del` and `load` look a file up by the name padded to 11 characters, but the directory
keeps names stripped. So a file is found only if its padded name ends in a letter, that
is, if the extension has three characters or more (`saved_file_found_iff`); and of several
files of one name the first is found.

`load` takes the index that `find` returns for the file itself and asks it for its
cluster: it never gets as far as reading one.
-/

namespace Knos.Fat12Img

open Knos.Bytes Knos.PyText Knos.Chains

/-! ## §1  `find` after `save` -/

/-- The extension has a third character, and it is not a space. -/
def FullExtension (path : List Char) : Prop :=
  ∃ c, (splitext (basename path)).2[3]? = some c ∧ c ≠ ' '

/-- No file in a slot before the first free one has the name. -/
def NoEarlierNamesake (img : Image) (path : List Char) : Prop :=
  ∀ dir i, DirInfo.init img = .ok dir → dir.findFreeIndex = some i →
    ∀ j info, j < i → dir[j]? = some (.file info) → info.filename ≠ filename83 path

/-- `save` has made `img'` of `img`: on the directory loaded again `find` returns the slot
that was written, and a following `del` removes that file and frees its chain. -/
def FoundAgain (img img' : Image) (path : List Char) : Prop :=
  ∃ dir dir' i, DirInfo.init img = .ok dir ∧ dir.findFreeIndex = some i ∧
    DirInfo.init img' = .ok dir' ∧ dir'.find (filename83 path) = some i ∧
    ∃ img'', delete img' path = .ok (true, img'') ∧
      DirInfo.init img'' = .ok (dir'.set i .deleted) ∧ Fat.init img'' = Fat.init img

/-- The last character of the stored name. -/
theorem getLast_filename83 {path : List Char} (hne : filename83 path ≠ []) :
    (filename83 path).getLast hne = ((splitext (basename path)).2[3]?).getD ' ' := by
  have hlast : (filename83 path)[10]? = some (((splitext (basename path)).2[3]?).getD ' ') := by
    unfold filename83
    simp only
    rw [List.getElem?_append_right (by rw [length_setstrlen]; decide), length_setstrlen]
    unfold setstrlen ljust
    rw [List.getElem?_take_of_lt (by decide)]
    have hdrop : ((splitext (basename path)).2.drop 1)[2]? = (splitext (basename path)).2[3]? :=
      List.getElem?_drop
    rcases Nat.lt_or_ge 2 ((splitext (basename path)).2.drop 1).length with hlt | hge
    · rw [List.getElem?_append_left hlt, hdrop]
      obtain ⟨c, hc⟩ : ∃ c, (splitext (basename path)).2[3]? = some c := by
        rw [← hdrop]
        exact ⟨_, List.getElem?_eq_getElem hlt⟩
      rw [hc]
      rfl
    · rw [← hdrop, List.getElem?_eq_none hge, List.getElem?_append_right hge,
        List.getElem?_replicate, if_pos (by omega)]
      rfl
  have hlen := length_filename83 path
  rw [List.getLast_eq_getElem]
  have hget : (filename83 path)[10]? = some ((filename83 path)[(filename83 path).length - 1]) := by
    rw [List.getElem?_eq_getElem (by omega)]
    congr 2
    omega
  rw [hget] at hlast
  exact Option.some.inj hlast

/-- Stripping leaves a printable stored name alone iff the extension is full. -/
theorem rstrip_filename83_iff {path : List Char} (h : Printable path) :
    rstrip (filename83 path) = filename83 path ↔ FullExtension path := by
  have hne : filename83 path ≠ [] := by
    intro hnil
    have := length_filename83 path
    rw [hnil] at this
    cases this
  have hspace : ∀ c ∈ filename83 path, isSpace c = true ↔ c = ' ' := by
    intro c hc
    constructor
    · intro hs
      have hrange : 0x20 ≤ c.toNat ∧ c.toNat ≤ 0x7E := by
        rcases mem_filename83 hc with hc | rfl
        · exact h c hc
        · decide
      exact eq_space_of_printable hrange hs
    · rintro rfl
      decide
  unfold rstrip
  rw [List.rdropWhile_eq_self_iff]
  have hmem := List.getLast_mem hne
  constructor
  · intro hlast
    have hnot : (filename83 path).getLast hne ≠ ' ' := fun heq =>
      hlast hne ((hspace _ hmem).mpr heq)
    rw [getLast_filename83 hne] at hnot
    cases hext : (splitext (basename path)).2[3]? with
    | none =>
        rw [hext] at hnot
        exact absurd rfl hnot
    | some c =>
        rw [hext] at hnot
        exact ⟨c, hext, hnot⟩
  · rintro ⟨c, hc, hcs⟩ hne'
    intro hs
    have heq := (hspace _ hmem).mp hs
    rw [getLast_filename83 hne, hc] at heq
    exact hcs heq

section Find

variable {img : Image} {saved : ℕ → List Byte} {dir : DirInfo} {chain : ℕ → List ℕ}
  {target : TargetFile} {now : DateTime} {i : ℕ} {info : FileInfo} {data : List Byte}

/-- Which file `find` returns on the directory after `save`. -/
theorem Saves.find_iff (hs : Saves img target now dir i info data)
    (hprint : Printable target.path) :
    DirInfo.find (dir.set i (.file info.stored)) (filename83 target.path) = some i ↔
      FullExtension target.path ∧ ∀ j info', j < i → dir[j]? = some (.file info') →
        info'.filename ≠ filename83 target.path := by
  have hlt : i < dir.length := by
    rw [(init_eq_ok.mp hs.dir_eq).1]
    exact hs.index_lt
  have hname : info.stored.filename = rstrip (filename83 target.path) := by
    show rstrip info.filename = _
    rw [hs.info_eq.1]
  rw [find_eq_some, ← rstrip_filename83_iff hprint, ← hname]
  have hself : (dir.set i (.file info.stored))[i]? = some (.file info.stored) :=
    List.getElem?_set_self hlt
  have hother : ∀ j, j < i → (dir.set i (.file info.stored))[j]? = dir[j]? := fun j hj =>
    List.getElem?_set_ne (by omega)
  constructor
  · rintro ⟨⟨info', hget, hinfo⟩, hbefore⟩
    rw [hself] at hget
    cases hget
    exact ⟨hinfo, fun j info' hj hget => hbefore j info' hj (by rw [hother j hj, hget])⟩
  · rintro ⟨hinfo, hbefore⟩
    exact ⟨⟨_, hself, hinfo⟩, fun j info' hj hget => hbefore j info' hj (by rwa [hother j hj] at hget)⟩

/-- `del` right after `save` takes back what `save` did to the FAT. -/
theorem Volume.delete_saved (h : Volume img saved dir chain) (hclean : CleanName target.path)
    (hs : Saves img target now dir i info data)
    (hfind : DirInfo.find (dir.set i (.file info.stored)) (filename83 target.path) = some i) :
    ∃ img'', delete (savedImage img dir i info data) target.path = .ok (true, img'') ∧
      DirInfo.init img'' = .ok ((dir.set i (.file info.stored)).set i .deleted) ∧
      Fat.init img'' = Fat.init img := by
  have hvol := h.save hclean hs
  have hfile : (dir.set i (.file info.stored))[i]? = some (.file info.stored) := by
    apply List.getElem?_set_self
    rw [h.length_dir]
    exact hs.index_lt
  obtain ⟨hfat, hlt⟩ := unlink_wf (savedImage img dir i info data)
    (Function.update chain i (picksFor img data.length) i)
  refine ⟨_, delete_of_find hvol.dir_eq hfind hfile (hvol.delChain hfile), (hvol.del hfile).dir_eq,
    ?_⟩
  have hinit : Fat.init (savedImage img dir i info data) =
      link 0xFFF (Fat.init img) (picksFor img data.length) := by
    obtain ⟨hfat', hlt'⟩ := @link_picks_wf img data.length
    exact init_writeFat _ hfat' hlt'
  refine (init_writeFat _ hfat hlt).trans ?_
  rw [Function.update_self, hinit]
  apply unlink_link
  · exact fun c hc => entryAt_of_mem_free (mem_free_of_mem_picksFor hc)
  · exact fun c hc => lt_length_of_mem_free (mem_free_of_mem_picksFor hc)

/-- A successful `save` is one that goes through. -/
theorem saves_of_ok {img' : Image} (h : saveCommand img target now = .ok (true, img')) :
    ∃ dir i info data, Saves img target now dir i info data ∧
      img' = savedImage img dir i info data := by
  rcases saveCommand_cases img target now with ⟨e, he⟩ | hfalse | ⟨dir, i, info, data, hs⟩
  · rw [he] at h
    cases h
  · rw [hfalse] at h
    cases h
  · rw [saveCommand_of_saves hs] at h
    cases h
    exact ⟨dir, i, info, data, hs, rfl⟩

end Find

/-- **When a saved file is found again.** -/
theorem saved_file_found_iff (img : Image) (saved : ℕ → List Byte) (h : Runs CleanSave img saved)
    (target : TargetFile) (now : DateTime) (img' : Image) (hprint : Printable target.path)
    (hsave : saveCommand img target now = .ok (true, img')) :
    FoundAgain img img' target.path ↔
      FullExtension target.path ∧ NoEarlierNamesake img target.path := by
  obtain ⟨dir, chain, hvol⟩ := runs_volume h
  obtain ⟨dir₁, i, info, data, hs, rfl⟩ := saves_of_ok hsave
  obtain rfl : dir₁ = dir := Except.ok.inj (hs.dir_eq.symm.trans hvol.dir_eq)
  have hvol' := hvol.save hprint.cleanName hs
  constructor
  · rintro ⟨dir₂, dir', j, hdir, hslot, hdir', hfind, -⟩
    obtain rfl : dir₂ = dir₁ := Except.ok.inj (hdir.symm.trans hvol.dir_eq)
    obtain rfl : j = i := Option.some.inj (hslot.symm.trans hs.slot)
    obtain rfl : dir' = _ := Except.ok.inj (hdir'.symm.trans hvol'.dir_eq)
    obtain ⟨hfull, hfirst⟩ := (hs.find_iff hprint).mp hfind
    refine ⟨hfull, fun dir₃ k hdir₃ hk => ?_⟩
    obtain rfl : dir₃ = dir₂ := Except.ok.inj (hdir₃.symm.trans hdir)
    obtain rfl : k = j := Option.some.inj (hk.symm.trans hslot)
    exact hfirst
  · rintro ⟨hfull, hfirst⟩
    have hfind := (hs.find_iff hprint).mpr ⟨hfull, hfirst dir₁ i hs.dir_eq hs.slot⟩
    exact ⟨dir₁, _, i, hs.dir_eq, hs.slot, hvol'.dir_eq, hfind,
      hvol.delete_saved hprint.cleanName hs hfind⟩

/-- `save` of `A.TXT` with one byte in it. -/
def fileA : TargetFile := ⟨pathA, some [0x4B]⟩

theorem saves_on_formatted (path : List Char) : Saves formatDisk ⟨path, some [0x4B]⟩ noon
    (List.replicate fileCount .unused) 0 (newFile (filename83 path) 1 2 noon) [0x4B] :=
  @saves_formatted formatDisk _ 0 ⟨path, some [0x4B]⟩ [0x4B] noon rfl volume_format.dir_eq rfl rfl
    (by decide)

theorem saved_file_found_fileA : ∃ img', saveCommand formatDisk fileA noon = .ok (true, img') ∧
    (FoundAgain formatDisk img' pathA ↔
      FullExtension pathA ∧ NoEarlierNamesake formatDisk pathA) := by
  have hrun := saveCommand_of_saves (saves_on_formatted pathA)
  exact ⟨_, hrun, saved_file_found_iff formatDisk _ .format fileA noon _
    (by decide) hrun⟩

/-- A file without an extension is saved, and not found. -/
theorem readme_not_found : ∃ img',
    saveCommand formatDisk ⟨['R', 'E', 'A', 'D', 'M', 'E'], some [0x4B]⟩ noon = .ok (true, img') ∧
      ¬ FoundAgain formatDisk img' ['R', 'E', 'A', 'D', 'M', 'E'] := by
  have hs := saves_on_formatted ['R', 'E', 'A', 'D', 'M', 'E']
  have hprint : Printable ['R', 'E', 'A', 'D', 'M', 'E'] := by decide
  refine ⟨_, saveCommand_of_saves hs, ?_⟩
  rintro ⟨dir, dir', i, hdir, hslot, hdir', hfind, -⟩
  obtain rfl : _ = dir := Except.ok.inj (volume_format.dir_eq.symm.trans hdir)
  obtain rfl : 0 = i := Option.some.inj (hs.slot.symm.trans hslot)
  obtain rfl : _ = dir' := Except.ok.inj
    ((volume_format.save hprint.cleanName hs).dir_eq.symm.trans hdir')
  have hnone : (splitext (basename ['R', 'E', 'A', 'D', 'M', 'E'])).2[3]? = none := by decide
  obtain ⟨⟨c, hc, -⟩, -⟩ := (hs.find_iff hprint).mp hfind
  change (splitext (basename ['R', 'E', 'A', 'D', 'M', 'E'])).2[3]? = some c at hc
  rw [hnone] at hc
  cases hc

/-! ## §2  `load` -/

/-- **`load` writes no file.** -/
theorem load_writes_nothing (img : Image) (path : List Char) (data : List Byte) :
    loadCommand img path ≠ .ok (some data) := by
  intro h
  unfold loadCommand load at h
  rw [Loop.bind_eq_ok] at h
  obtain ⟨dir, -, h⟩ := h
  cases hfind : dir.find (filename83 path) with
  | none =>
      simp only [hfind] at h
      cases h
  | some i =>
      simp only [hfind] at h
      cases h

/-- `A.TXT` is saved and found, and `load` ends with an exception. -/
theorem load_raises_on_saved_file : ∃ img,
    saveCommand formatDisk fileA noon = .ok (true, img) ∧
      (∃ dir, DirInfo.init img = .ok dir ∧ dir.find (filename83 pathA) = some 0) ∧
      loadCommand img pathA = .error .attributeError := by
  have hs := saves_on_formatted pathA
  have hprint : Printable pathA := by decide
  have hdir := (volume_format.save hprint.cleanName hs).dir_eq
  have hfind := (hs.find_iff hprint).mpr ⟨⟨'T', by decide, by decide⟩,
    fun j _ hj => absurd hj (Nat.not_lt_zero j)⟩
  refine ⟨_, saveCommand_of_saves hs, ⟨_, hdir, hfind⟩, ?_⟩
  unfold loadCommand load
  rw [hdir, Loop.ok_bind]
  simp only [hfind]
  rfl

end Knos.Fat12Img
