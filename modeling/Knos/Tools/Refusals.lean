import Knos.Tools.Commands

/-!
# Commands that fail

`save` writes file data into the image before it knows that every block will find a
cluster. It can afford to: `have_space` counts the free entries in one scan, the loop
finds them again one scan at a time, and the entries that it links in between lie behind
the point where the next scan starts. So the late exit of the loop is dead code, whatever
the FAT holds, and a `save` that returns `False` has written nothing.
-/

namespace Knos.Fat12Img

open Knos.Bytes Knos.Chains

/-- What `have_space` promises, the loop of `save` finds: the first `k` free clusters. -/
theorem saveLoop_of_haveSpace {fat : Fat} {k start : ℕ} (h : fat.haveSpace k = some start)
    (img : Image) {data : List Byte} (hk : clustersOf data.length = k) :
    ∃ picks : List ℕ, picks.length = k ∧ picks.Pairwise (· < ·) ∧
      (∀ c ∈ picks, fat[c]? = some 0) ∧
      saveLoop none data data.length fat img =
        (true, linkAfter none fat picks, writeBlocks img picks data) := by
  have hspace : k ≤ (fat.free 0).length := by
    by_contra hlt
    rw [haveSpace_eq, if_neg hlt] at h
    cases h
  have hlen : ((fat.free 0).take k).length = k := by
    rw [List.length_take, Nat.min_eq_left hspace]
  refine ⟨(fat.free 0).take k, hlen, ?_, fun c hc => ?_, ?_⟩
  · exact (pairwise_freeCells (i := 0)).sublist (List.take_sublist _ _)
  · exact (mem_free.mp (List.mem_of_mem_take hc)).2
  · exact saveLoop_eq _ none data fat img (hlen.trans hk.symm) (List.take_prefix _ _)

/-- The function `save` on any FAT and any directory: what it refuses it leaves alone. -/
theorem save_false {img : Image} {target : TargetFile} {now : DateTime} {fat : Fat} {dir : DirInfo}
    (h : (save img target now fat dir).1 = false) :
    save img target now fat dir = (false, img, fat, dir) := by
  unfold save at h ⊢
  cases hcontent : target.content with
  | none => rfl
  | some data =>
      rw [hcontent] at h
      cases hspace : fat.haveSpace (clustersOf data.length) with
      | none => simp only [hspace]
      | some start =>
          cases hslot : dir.findFreeIndex with
          | none => simp only [hspace]
          | some i =>
              -- the loop goes through
              obtain ⟨picks, -, -, -, hloop⟩ := saveLoop_of_haveSpace hspace img rfl
              simp only [hspace, hslot, hloop] at h
              cases h

/-- **A `save` that fails leaves the image alone**, and the loop of `save` never fails. -/
theorem failed_save_writes_nothing (img : Image) (target : TargetFile) (now : DateTime) :
    (∀ img', saveCommand img target now = .ok (false, img') → img' = img) ∧
    (∀ (fat : Fat) (dir : DirInfo), (save img target now fat dir).1 = false →
      (save img target now fat dir).2.1 = img) ∧
    ∀ (fat : Fat) (k start : ℕ) (data : List Byte), fat.haveSpace k = some start →
      clustersOf data.length = k → ∃ picks : List ℕ, picks.length = k ∧
        picks.Pairwise (· < ·) ∧ (∀ c ∈ picks, fat[c]? = some 0) ∧
        saveLoop none data data.length fat img =
          (true, linkAfter none fat picks, writeBlocks img picks data) := by
  refine ⟨fun img' h => ?_, fun fat dir h => ?_, fun fat k start data h hk => ?_⟩
  · rcases saveCommand_cases img target now with ⟨e, he⟩ | hfalse | ⟨dir, i, info, data, hs⟩
    · rw [he] at h
      cases h
    · rw [hfalse] at h
      cases h
      rfl
    · rw [saveCommand_of_saves hs] at h
      cases h
  · rw [save_false h]
  · exact saveLoop_of_haveSpace h img hk

end Knos.Fat12Img
