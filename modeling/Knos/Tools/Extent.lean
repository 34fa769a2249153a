import Knos.Tools.Space

/-!
# The extent of the disk

A FAT of `FAT_BYTES` bytes has entries for 3072 clusters, and the disk has sectors for the
clusters up to 2848. `save` only counts free entries, so it stays on the disk as long as
there are enough of them for clusters that the disk has.
-/

namespace Knos.Fat12Img

open Knos.Bytes Knos.PyText Knos.Chains

/-- The first cluster behind the end of the disk. -/
def diskEnd : ℕ := (fdSize - entityAddress) / clusterBytes

/-- The free clusters that have a sector on the disk. -/
def freeOnDisk (img : Image) : List ℕ := ((Fat.init img).free 0).filter (· < diskEnd)

/-- A file that is saved has a clean name, and room on the disk or nowhere. -/
def FitsDisk : Admission := fun img cmd =>
  match cmd with
  | .save target _ => CleanName target.path ∧ ∀ data, target.content = some data →
      clustersOf data.length ≤ (freeOnDisk img).length ∨
        ((Fat.init img).free 0).length < clustersOf data.length
  | .del _ => True

/-- `save` writes the data of the file into the data area of the disk only, leaves the
image as long as the disk, and refuses what does not fit. -/
structure StaysOnDisk (img : Image) (target : TargetFile) (now : DateTime) (dir : DirInfo) :
    Prop where
  dir_eq : DirInfo.init img = .ok dir
  size_before : img.size = fdSize
  size_after : ((Command.save target now).after img).size = fdSize
  /-- The image behind the function `save`, before directory and FAT are written. -/
  data : ∀ a, (save img target now (Fat.init img) dir).2.1.byte a ≠ img.byte a →
    entityAddress + 2 * clusterBytes ≤ a ∧ a < fdSize
  refused : ∀ data, target.content = some data →
    (freeOnDisk img).length < clustersOf data.length →
    saveCommand img target now = .ok (false, img)

/-- The first elements of an increasing list that are as many as lie below a bound. -/
theorem lt_of_mem_take {l : List ℕ} {b k c : ℕ} (hl : l.Pairwise (· < ·))
    (hk : k ≤ (l.filter (· < b)).length) (hc : c ∈ l.take k) : c < b := by
  induction l generalizing k with
  | nil => cases List.mem_of_mem_take hc
  | cons x l ih =>
      obtain ⟨hx, hl⟩ := List.pairwise_cons.mp hl
      by_cases hxb : x < b
      · rw [List.filter_cons_of_pos (by simpa using hxb), List.length_cons] at hk
        cases k with
        | zero => cases hc
        | succ k =>
            rcases List.mem_cons.mp hc with rfl | hc
            · exact hxb
            · exact ih hl (by omega) hc
      · -- nothing behind `x` lies below the bound
        have hnil : (x :: l).filter (· < b) = [] := by
          rw [List.filter_eq_nil_iff]
          intro y hy
          rcases List.mem_cons.mp hy with rfl | hy
          · simpa using hxb
          · have := hx y hy
            simp only [decide_eq_true_eq]
            omega
        rw [hnil] at hk
        obtain rfl : k = 0 := Nat.le_zero.mp hk
        cases hc

section Step

variable {img : Image} {saved : ℕ → List Byte} {dir : DirInfo} {chain : ℕ → List ℕ}
  {target : TargetFile} {now : DateTime} {i : ℕ} {info : FileInfo} {data : List Byte}

/-- The clusters that an admitted `save` takes have their sectors on the disk. -/
theorem Saves.block_le (hs : Saves img target now dir i info data)
    (hfits : FitsDisk img (.save target now)) : ∀ c ∈ picksFor img data.length,
      entityAddress + c * clusterBytes + clusterBytes ≤ fdSize := by
  intro c hc
  have hspace := hs.space
  have hroom : clustersOf data.length ≤ (freeOnDisk img).length := by
    rcases hfits.2 data hs.content with h | h
    · exact h
    · omega
  have hlt : c < diskEnd := lt_of_mem_take pairwise_freeCells hroom hc
  have hend : entityAddress + diskEnd * clusterBytes ≤ fdSize := by decide
  have hle := Nat.mul_le_mul_right clusterBytes (show c + 1 ≤ diskEnd from hlt)
  rw [Nat.succ_mul] at hle
  omega

/-- The size of the image after a successful `save`. -/
theorem Volume.savedImage_size (h : Volume img saved dir chain) (hclean : CleanName target.path)
    (hs : Saves img target now dir i info data) :
    (savedImage img dir i info data).size =
      (writeBlocks img (picksFor img data.length) data).size := by
  obtain ⟨hall, -, -⟩ := h.slots_of_saves hclean hs
  obtain ⟨hfat, hlt⟩ := @link_picks_wf img data.length
  have hlen : (dir.set i (.file info)).length = fileCount := by rw [List.length_set, h.length_dir]
  exact writeBack_size _ hlen hall hfat hlt

theorem Volume.deletedImage_size (h : Volume img saved dir chain)
    (hfile : dir[i]? = some (.file info)) :
    (deletedImage img dir i (unlink (Fat.init img) (chain i))).size = img.size := by
  obtain ⟨hfat, hlt⟩ := unlink_wf img (chain i)
  obtain ⟨hall, -, -⟩ := h.slots_of_del hfile _ hfat hlt
  have hlen : (dir.set i .deleted).length = fileCount := by rw [List.length_set, h.length_dir]
  exact writeBack_size _ hlen hall hfat hlt

end Step

/-- The images of a run have the size of the disk. -/
theorem runs_size {img : Image} {saved : ℕ → List Byte} (h : Runs FitsDisk img saved) :
    img.size = fdSize ∧ ∃ dir chain, Volume img saved dir chain := by
  refine h.invariant (fun img saved => img.size = fdSize ∧ ∃ dir chain, Volume img saved dir chain)
    ⟨?_, _, _, volume_format⟩ ?_ ?_
  · decide
  · rintro img saved target now dir i info data ⟨hsize, dir', chain, hvol⟩ hadmits hs
    obtain rfl : dir' = dir := Except.ok.inj (hvol.dir_eq.symm.trans hs.dir_eq)
    refine ⟨?_, _, _, hvol.save hadmits.1 hs⟩
    rw [hvol.savedImage_size hadmits.1 hs, writeBlocks_size, hsize]
    intro c hc
    rw [hsize]
    exact hs.block_le hadmits c hc
  · rintro img saved path dir i info fat ⟨hsize, dir', chain, hvol⟩ - hdir - hfile hdel
    obtain rfl : dir' = dir := Except.ok.inj (hvol.dir_eq.symm.trans hdir)
    rw [hvol.delChain hfile] at hdel
    cases hdel
    exact ⟨(hvol.deletedImage_size hfile).trans hsize, _, _, hvol.del hfile⟩

/-- **A `save` stays on the disk** after a run of admitted commands, if it is admitted. -/
theorem save_stays_on_disk (img : Image) (saved : ℕ → List Byte) (h : Runs FitsDisk img saved)
    (target : TargetFile) (now : DateTime) (hadmits : FitsDisk img (.save target now)) :
    ∃ dir, StaysOnDisk img target now dir := by
  obtain ⟨hsize, dir, chain, hvol⟩ := runs_size h
  have hnext := runs_size (h.step hadmits)
  refine ⟨dir, hvol.dir_eq, hsize, hnext.1, fun a ha => ?_, fun data hcontent hbig => ?_⟩
  · rcases save_cases target now hvol.dir_eq with hrefused | ⟨i, info, data, hs⟩
    · rw [hrefused] at ha
      exact absurd rfl ha
    · rw [save_of_saves hs] at ha
      have hblock : ∃ c ∈ picksFor img data.length, entityAddress + c * clusterBytes ≤ a ∧
          a < entityAddress + c * clusterBytes + clusterBytes := by
        by_contra hnone
        apply ha
        apply writeBlocks_outside
        intro c hc
        by_contra hin
        exact hnone ⟨c, hc, by omega, by omega⟩
      obtain ⟨c, hc, h₁, h₂⟩ := hblock
      have hend := hs.block_le hadmits c hc
      have hle := Nat.mul_le_mul_right clusterBytes
        (hvol.of_mem_free (mem_free_of_mem_picksFor hc)).1
      exact ⟨by omega, by omega⟩
  · rcases saveCommand_cases img target now with ⟨e, he⟩ | hfalse | ⟨dir', i, info, data', hs⟩
    · -- the directory can be decoded
      rcases save_cases target now hvol.dir_eq with hrefused | ⟨i, info, data', hs⟩
      · unfold saveCommand
        rw [hvol.dir_eq, Loop.ok_bind, hrefused]
        rfl
      · rw [saveCommand_of_saves hs] at he
        cases he
    · exact hfalse
    · -- it fits nowhere, so it was not saved
      obtain rfl : data' = data := Option.some.inj (hs.content.symm.trans hcontent)
      have hspace := hs.space
      rcases hadmits.2 data' hcontent with hroom | hfull
      · omega
      · omega

/-! ## Lists of commands -/

section Lists

variable {img : Image} {saved : ℕ → List Byte} {dir : DirInfo} {chain : ℕ → List ℕ}

/-- Of the clusters that have no sector on the disk there are 223. -/
theorem Volume.le_freeOnDisk (h : Volume img saved dir chain) :
    2847 ≤ (freeOnDisk img).length + used saved dir := by
  have hspace := h.space_law
  have hsplit := List.length_eq_length_filter_add (l := (Fat.init img).free 0) (· < diskEnd)
  have hbehind : (((Fat.init img).free 0).filter (fun c => !decide (c < diskEnd))).length ≤ 223 := by
    have hsub : ((Fat.init img).free 0).filter (fun c => !decide (c < diskEnd)) ⊆ List.range' 2849 223 := by
      intro c hc
      obtain ⟨hfree, hge⟩ := List.mem_filter.mp hc
      have hlt := (h.of_mem_free hfree).2.1
      have hend : diskEnd = 2849 := by decide
      have hnot : ¬ c < diskEnd := by simpa using hge
      rw [List.mem_range'_1]
      omega
    have hle := ((List.Nodup.filter _ nodup_freeCells).subperm hsub).length_le
    rwa [List.length_range'] at hle
  unfold freeOnDisk
  omega

/-- The clusters of the files that a list of commands saves. -/
def need : List Command → ℕ
  | [] => 0
  | .save target _ :: cmds => (target.content.elim 0 fun data => clustersOf data.length) + need cmds
  | .del _ :: cmds => need cmds

/-- One command, with the clusters that are used before and behind it. -/
theorem Volume.admitted_step (h : Volume img saved dir chain) {cmd : Command}
    (hclean : CleanSave img cmd) (hneed : used saved dir + need [cmd] ≤ 2847) :
    FitsDisk img cmd ∧ ∃ dir' chain', Volume (cmd.after img) (cmd.record img saved) dir' chain' ∧
      used (cmd.record img saved) dir' ≤ used saved dir + need [cmd] := by
  have hsame : ∃ dir' chain', Volume img saved dir' chain' ∧
      used saved dir' ≤ used saved dir + need [cmd] := ⟨dir, chain, h, Nat.le_add_right _ _⟩
  cases cmd with
  | save target now =>
      refine ⟨⟨hclean, fun data hcontent => Or.inl ?_⟩, ?_⟩
      · have hfree := h.le_freeOnDisk
        simp only [need, hcontent, Option.elim_some] at hneed
        omega
      · rcases saveCommand_cases img target now with ⟨e, he⟩ | hfalse | ⟨dir', i, info, data, hs⟩
        · rw [@after_of_error img (.save target now) e he, record_save, he, recordSave_error]
          exact hsame
        · rw [@after_of_ok img img (.save target now) false hfalse, record_save, hfalse,
            recordSave_false]
          exact hsame
        · obtain rfl : dir' = dir := Except.ok.inj (hs.dir_eq.symm.trans h.dir_eq)
          have hrun := saveCommand_of_saves hs
          rw [@after_of_ok img _ (.save target now) true hrun, record_save, hrun, hs.dir_eq,
            hs.content, recordSave_true saved _ hs.slot]
          refine ⟨_, _, h.save hclean hs, ?_⟩
          rw [h.used_save hclean hs, need, hs.content]
          exact Nat.le_refl _
  | del path =>
      refine ⟨trivial, ?_⟩
      rcases delete_cases img path with ⟨e, he⟩ | ⟨hfalse, -⟩ |
        ⟨dir', i, info, fat, hdir, -, hfile, hdelete, hrun⟩
      · rw [@after_of_error img (.del path) e he]
        exact hsame
      · rw [@after_of_ok img img (.del path) false hfalse]
        exact hsame
      · obtain rfl : dir' = dir := Except.ok.inj (hdir.symm.trans h.dir_eq)
        rw [h.delChain hfile] at hdelete
        cases hdelete
        rw [@after_of_ok img _ (.del path) true hrun]
        exact ⟨_, _, h.del hfile, (used_del saved dir' i).trans (Nat.le_add_right _ _)⟩

theorem need_cons (cmd : Command) (cmds : List Command) : need (cmd :: cmds) = need [cmd] + need cmds := by
  cases cmd with
  | save target now => rfl
  | del path => exact (Nat.zero_add _).symm

/-- **Files that fit the disk together are admitted**, in any order, and whatever is deleted
between them. -/
theorem Runs.of_need {cmds : List Command} (hruns : Runs FitsDisk img saved)
    (h : Volume img saved dir chain) (hclean : ∀ cmd ∈ cmds, ∀ img, CleanSave img cmd)
    (hneed : used saved dir + need cmds ≤ 2847) :
    Runs FitsDisk (runCommands img saved cmds).1 (runCommands img saved cmds).2 ∧
      ∃ dir' chain', Volume (runCommands img saved cmds).1 (runCommands img saved cmds).2 dir' chain' ∧
        used (runCommands img saved cmds).2 dir' ≤ used saved dir + need cmds := by
  induction cmds generalizing img saved dir chain with
  | nil => exact ⟨hruns, dir, chain, h, Nat.le_add_right _ _⟩
  | cons cmd cmds ih =>
      rw [List.forall_mem_cons] at hclean
      rw [need_cons] at hneed ⊢
      obtain ⟨hfits, dir', chain', hvol, hused⟩ := h.admitted_step (hclean.1 img) (by omega)
      obtain ⟨hrest, dir'', chain'', hvol', hused'⟩ :=
        ih (hruns.step hfits) hvol hclean.2 (by omega)
      refine ⟨hrest, dir'', chain'', hvol', hused'.trans ?_⟩
      omega

end Lists

/-- A further file behind two others, of which one was deleted. -/
theorem save_stays_on_disk_notesOnly : ∃ dir,
    StaysOnDisk (runCommands formatDisk (fun _ => []) notesOnly).1 ⟨pathA, some [0x4B]⟩ noon dir := by
  have hclean : ∀ cmd ∈ notesOnly, ∀ img, CleanSave img cmd := by
    intro cmd hcmd img
    exact PrintableSave.cleanSave (printable_notesOnly cmd hcmd img)
  have hneed : need notesOnly = 3 := by decide +kernel
  have hunused : used (fun _ => []) (List.replicate fileCount .unused) = 0 := by decide +kernel
  obtain ⟨hruns, dir, chain, hvol, hused⟩ := Runs.of_need .format volume_format hclean
    (by rw [hunused, hneed]; decide)
  rw [hunused, hneed] at hused
  have hone : need [.save ⟨pathA, some [0x4B]⟩ noon] = 1 := by decide
  have hfits : FitsDisk (runCommands formatDisk (fun _ => []) notesOnly).1
      (.save ⟨pathA, some [0x4B]⟩ noon) := by
    have hcleanA : CleanName pathA := Printable.cleanName (by decide)
    refine (@Volume.admitted_step _ _ _ _ hvol (.save ⟨pathA, some [0x4B]⟩ noon) hcleanA ?_).1
    rw [hone]
    omega
  exact save_stays_on_disk _ _ hruns _ _ hfits

/-! ## A file that is one cluster too long -/

/-- 2848 clusters of data; the disk has 2847. -/
def oversized : TargetFile := ⟨pathA, some (List.replicate (2848 * clusterBytes) 0)⟩

/-- The file is saved, and its last cluster lies behind the end of the disk. -/
theorem oversized_file_leaves_disk :
    (∃ img, saveCommand formatDisk oversized noon = .ok (true, img)) ∧
      (freeOnDisk formatDisk).length < clustersOf (2848 * clusterBytes) ∧
      ((Command.save oversized noon).after formatDisk).size ≠ fdSize := by
  have hlen : (List.replicate (2848 * clusterBytes) (0 : Byte)).length = 2848 * clusterBytes :=
    List.length_replicate
  have hcount : clustersOf (2848 * clusterBytes) = 2848 := by decide
  have hs := @saves_formatted formatDisk _ 0 oversized (List.replicate (2848 * clusterBytes) 0)
    noon rfl volume_format.dir_eq rfl rfl (by rw [hlen, hcount]; decide)
  have hrun := saveCommand_of_saves hs
  refine ⟨⟨_, hrun⟩, ?_, ?_⟩
  · have hsub : freeOnDisk formatDisk ⊆ List.range' 2 2847 := by
      intro c hc
      unfold freeOnDisk at hc
      rw [free_formatDisk, List.mem_filter, List.mem_range'_1] at hc
      have hlt : c < diskEnd := by simpa using hc.2
      have hend : diskEnd = 2849 := by decide
      rw [List.mem_range'_1]
      omega
    have hnodup : (freeOnDisk formatDisk).Nodup := List.Nodup.filter _ nodup_freeCells
    have hle := (hnodup.subperm hsub).length_le
    rw [List.length_range'] at hle
    rw [hcount]
    omega
  · rw [@after_of_ok formatDisk _ (.save oversized noon) true hrun,
      volume_format.savedImage_size (Printable.cleanName (by decide)) hs]
    -- the last byte of the file is behind the end
    have hholds := @holds_writeBlocks formatDisk (picksFor formatDisk _) _ nodup_picksFor
      (length_picksFor hs.space)
    have hlast : (List.replicate (2848 * clusterBytes) (0 : Byte))[2847 * clusterBytes + 511]? =
        some 0 := by
      rw [List.getElem?_replicate, if_pos (by decide)]
    obtain ⟨c, hc, hlt, -⟩ := hholds _ _ hlast
    have hpick : c = 2849 := by
      have hdiv : (2847 * clusterBytes + 511) / clusterBytes = 2847 := by decide
      rw [hdiv] at hc
      unfold picksFor at hc
      rw [hlen, hcount, free_formatDisk, List.getElem?_take_of_lt (by decide),
        List.getElem?_range' (by decide)] at hc
      exact (Option.some.inj hc).symm
    rw [hpick] at hlt
    have hend : fdSize < entityAddress + 2849 * clusterBytes +
        (2847 * clusterBytes + 511) % clusterBytes := by decide
    omega

end Knos.Fat12Img
