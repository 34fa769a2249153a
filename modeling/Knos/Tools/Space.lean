import Knos.Tools.WriteData
import Mathlib.Algebra.Order.BigOperators.Group.List
import Mathlib.Data.List.Sort

/-!
# The space on the disk

In every image of a run the clusters of the data area are divided among the files and the free
ones, and none is lost (`Volume.partition`). So what `save` accepts depends on the sizes of the
files alone, and not on the order in which they were saved and deleted (`capacity_law`).
-/

namespace Knos.Fat12Img

open Knos.Bytes Knos.PyText Knos.Chains

/-! ## §1  Free clusters and chains -/

section Partition

variable {img : Image} {saved : ℕ → List Byte} {dir : DirInfo} {chain : ℕ → List ℕ}

theorem mem_free_zero {c : ℕ} :
    c ∈ (Fat.init img).free 0 ↔ c < 3072 ∧ entryAt (Fat.init img) c = 0 := by
  constructor
  · intro hc
    refine ⟨?_, entryAt_of_mem_free hc⟩
    rw [← length_init img]
    exact lt_length_of_mem_free hc
  · rintro ⟨hlt, hentry⟩
    rw [← length_init img] at hlt
    unfold entryAt at hentry
    rw [List.getD_eq_getElem?_getD, List.getElem?_eq_getElem hlt] at hentry
    refine mem_free.mpr ⟨Nat.zero_le c, ?_⟩
    rw [List.getElem?_eq_getElem hlt]
    exact congrArg some hentry

/-- A slot with a chain is one of the directory's. -/
theorem Volume.slot_lt (h : Volume img saved dir chain) {i c : ℕ} (hc : c ∈ chain i) :
    i < fileCount := by
  by_contra hge
  have hnone : dir[i]? = none := List.getElem?_eq_none (by rw [h.length_dir]; omega)
  rw [h.free i fun info hfile => by rw [hnone] at hfile; cases hfile] at hc
  cases hc

/-- **No cluster is lost.** The free clusters and the chains of the files are the data area. -/
theorem Volume.partition (h : Volume img saved dir chain) :
    ((Fat.init img).free 0 ++ (List.range fileCount).flatMap chain).Perm (List.range' 2 3070) := by
  have hchains : ((List.range fileCount).flatMap chain).Nodup := by
    rw [List.nodup_flatMap]
    refine ⟨fun i _ => h.nodup i, ?_⟩
    refine List.nodup_range.imp fun {i j} hne => ?_
    intro c hi hj
    exact hne (h.disjoint i j c hi hj)
  have hnodup : ((Fat.init img).free 0 ++ (List.range fileCount).flatMap chain).Nodup := by
    rw [List.nodup_append]
    refine ⟨nodup_freeCells, hchains, fun c hc d hd => ?_⟩
    rintro rfl
    obtain ⟨i, -, hi⟩ := List.mem_flatMap.mp hd
    exact (h.of_mem_free hc).2.2 i hi
  rw [List.perm_ext_iff_of_nodup hnodup List.nodup_range']
  intro c
  rw [List.mem_append, List.mem_flatMap, List.mem_range'_1]
  constructor
  · rintro (hc | ⟨i, -, hi⟩)
    · exact ⟨(h.of_mem_free hc).1, (h.of_mem_free hc).2.1⟩
    · exact h.cells i c hi
  · rintro ⟨hge, hlt⟩
    by_cases hentry : entryAt (Fat.init img) c = 0
    · exact Or.inl (mem_free_zero.mpr ⟨hlt, hentry⟩)
    · obtain ⟨i, hi⟩ := h.owned c hge hentry
      exact Or.inr ⟨i, List.mem_range.mpr (h.slot_lt hi), hi⟩

/-- The clusters of the file in a slot. -/
def slotClusters (saved : ℕ → List Byte) (dir : DirInfo) (i : ℕ) : ℕ :=
  match dir[i]? with
  | some (.file _) => clustersOf (saved i).length
  | _ => 0

/-- The clusters of all files. -/
def used (saved : ℕ → List Byte) (dir : DirInfo) : ℕ :=
  ((List.range fileCount).map (slotClusters saved dir)).sum

theorem Volume.length_chain (h : Volume img saved dir chain) (i : ℕ) :
    (chain i).length = slotClusters saved dir i := by
  unfold slotClusters
  cases hslot : dir[i]? with
  | none =>
      rw [h.free i fun info hfile => by rw [hslot] at hfile; cases hfile]
      rfl
  | some s =>
      cases s with
      | file info => exact h.count i info hslot
      | unused =>
          rw [h.free i fun info hfile => by rw [hslot] at hfile; cases hfile]
          rfl
      | deleted =>
          rw [h.free i fun info hfile => by rw [hslot] at hfile; cases hfile]
          rfl

theorem Volume.space_law (h : Volume img saved dir chain) :
    ((Fat.init img).free 0).length + used saved dir = 3070 := by
  have hlen := h.partition.length_eq
  rw [List.length_append, List.length_flatMap, List.length_range'] at hlen
  unfold used
  rw [List.map_congr_left fun i _ => (h.length_chain i).symm]
  exact hlen

end Partition

/-! ## §2  What `save` accepts -/

section Capacity

variable {img : Image} {saved : ℕ → List Byte} {boot : List Byte}

/-- `save` goes through exactly if it finds what it looks for. -/
theorem saveCommand_true_iff {dir : DirInfo} (hdir : DirInfo.init img = .ok dir) (path : List Char)
    (data : List Byte) (now : DateTime) :
    (∃ img', saveCommand img ⟨path, some data⟩ now = .ok (true, img')) ↔
      clustersOf data.length ≤ ((Fat.init img).free 0).length ∧ (Fat.init img).free 0 ≠ [] ∧
        ∃ i, dir.findFreeIndex = some i := by
  constructor
  · rintro ⟨img', hrun⟩
    rcases saveCommand_cases img ⟨path, some data⟩ now with ⟨e, he⟩ | hfalse |
      ⟨dir', i, info, data', hs⟩
    · rw [hrun] at he
      cases he
    · rw [hrun] at hfalse
      cases hfalse
    · cases hs.content
      obtain rfl : dir' = dir := Except.ok.inj (hs.dir_eq.symm.trans hdir)
      obtain ⟨start, hstart, -⟩ := hs.start
      refine ⟨hs.space, fun hnil => ?_, i, hs.slot⟩
      rw [hnil] at hstart
      cases hstart
  · rintro ⟨hspace, hne, i, hslot⟩
    obtain ⟨start, rest, hfree⟩ := List.exists_cons_of_ne_nil hne
    have hs : Saves img ⟨path, some data⟩ now dir i
        (newFile (filename83 path) data.length start now) data :=
      ⟨hdir, rfl, hspace, hslot, start, by rw [hfree]; rfl, rfl⟩
    exact ⟨_, saveCommand_of_saves hs⟩

theorem findFreeIndex_some_iff {dir : DirInfo} :
    (∃ i, dir.findFreeIndex = some i) ↔ ∃ s ∈ dir, s.isFree = true := by
  unfold DirInfo.findFreeIndex
  constructor
  · rintro ⟨i, hi⟩
    obtain ⟨hlt, hfree, -⟩ := List.findIdx?_eq_some_iff_getElem.mp hi
    exact ⟨dir[i], List.getElem_mem hlt, hfree⟩
  · rintro ⟨s, hs, hfree⟩
    have hsome : (List.findIdx? Slot.isFree dir).isSome = true := by
      rw [List.findIdx?_isSome]
      exact List.any_eq_true.mpr ⟨s, hs, hfree⟩
    exact Option.isSome_iff_exists.mp hsome

/-- **The capacity of a disk.** After any run of clean `save`s, of `del`s and of writes of at most
one sector at sector 0, `save` accepts a file exactly if its clusters fit beside those of the other
files, a cluster is left even for an empty one, and a slot of the directory is free. -/
theorem capacity_law (h : BuildRuns img saved boot) (path : List Char) (data : List Byte)
    (now : DateTime) : ∃ dir, DirInfo.init img = .ok dir ∧
      ((∃ img', saveCommand img ⟨path, some data⟩ now = .ok (true, img')) ↔
        used saved dir + clustersOf data.length ≤ 3070 ∧ used saved dir < 3070 ∧
          ∃ s ∈ dir, s.isFree = true) := by
  obtain ⟨⟨dir, chain, hvol⟩, -⟩ := runs_bootVolume h
  have hspace := hvol.space_law
  refine ⟨dir, hvol.dir_eq, ?_⟩
  rw [saveCommand_true_iff hvol.dir_eq, findFreeIndex_some_iff]
  constructor
  · rintro ⟨hle, hne, hslot⟩
    have hpos := List.length_pos_iff.mpr hne
    exact ⟨by omega, by omega, hslot⟩
  · rintro ⟨hle, hlt, hslot⟩
    refine ⟨by omega, List.ne_nil_of_length_pos (by omega), hslot⟩

theorem capacity_law_format : ∃ dir, DirInfo.init formatDisk = .ok dir ∧
    ((∃ img', saveCommand formatDisk ⟨pathA, some [0x4B]⟩ noon = .ok (true, img')) ↔
      used (fun _ => []) dir + clustersOf [(0x4B : Byte)].length ≤ 3070 ∧
        used (fun _ => []) dir < 3070 ∧ ∃ s ∈ dir, s.isFree = true) :=
  capacity_law .format pathA [0x4B] noon

/-- What is free after a `save`: it takes the first of the free clusters. -/
theorem free_savedImage {dir : DirInfo} {chain : ℕ → List ℕ} (h : Volume img saved dir chain)
    {i : ℕ} (info : FileInfo) (data : List Byte) :
    (Fat.init (savedImage img dir i info data)).free 0 =
      ((Fat.init img).free 0).drop (clustersOf data.length) := by
  have hsorted : ((Fat.init img).free 0).Pairwise (· < ·) := pairwise_freeCells
  have hnodup : ((Fat.init img).free 0).Nodup := nodup_freeCells
  have hsplit := List.take_append_drop (clustersOf data.length) ((Fat.init img).free 0)
  refine List.Pairwise.eq_of_mem_iff pairwise_freeCells hsorted.drop fun c => ?_
  show c ∈ (Fat.init (savedImage img dir i info data)).free 0 ↔ _
  rw [mem_free_zero, init_savedImage]
  by_cases hpick : c ∈ picksFor img data.length
  · have hchain : IsChain (entryAt (link 0xFFF (Fat.init img) (picksFor img data.length))) 0xFFF
        (picksFor img data.length) := by
      refine isChain_link (List.ne_nil_of_mem hpick) nodup_picksFor fun d hd => ?_
      rw [length_init]
      exact (h.of_mem_picksFor hd).2.1
    have hentry : entryAt (link 0xFFF (Fat.init img) (picksFor img data.length)) c ≠ 0 := by
      rcases hchain.next_mem hpick with hend | hnext
      · rw [hend]
        decide
      · have hge := (h.of_mem_picksFor hnext).1
        omega
    rw [← hsplit, List.nodup_append] at hnodup
    constructor
    · rintro ⟨-, hzero⟩
      exact absurd hzero hentry
    · intro hdrop
      exact absurd rfl (hnodup.2.2 c hpick c hdrop)
  · rw [entryAt_link_of_not_mem hpick, ← mem_free_zero]
    have hmem : c ∈ (Fat.init img).free 0 ↔
        c ∈ picksFor img data.length ∨ c ∈ ((Fat.init img).free 0).drop (clustersOf data.length) := by
      rw [← List.mem_append]
      exact iff_of_eq (congrArg (c ∈ ·) hsplit.symm)
    rw [hmem]
    constructor
    · rintro (hc | hc)
      · exact absurd hc hpick
      · exact hc
    · exact Or.inr

/-- A `save` uses as many clusters more as its file has. -/
theorem Volume.used_save {dir : DirInfo} {chain : ℕ → List ℕ} (h : Volume img saved dir chain)
    {target : TargetFile} {now : DateTime} {i : ℕ} {info : FileInfo} {data : List Byte}
    (hclean : CleanName target.path) (hs : Saves img target now dir i info data) :
    used (Function.update saved i data) (dir.set i (.file info.stored)) =
      used saved dir + clustersOf data.length := by
  have hbefore := h.space_law
  have hafter := (h.save hclean hs).space_law
  have hspace := hs.space
  rw [free_savedImage h, List.length_drop] at hafter
  omega

/-- A `del` uses none more. -/
theorem used_del (saved : ℕ → List Byte) (dir : DirInfo) (i : ℕ) :
    used saved (dir.set i .deleted) ≤ used saved dir := by
  refine List.sum_le_sum fun j _ => ?_
  unfold slotClusters
  by_cases hj : i = j
  · subst hj
    rw [List.getElem?_set_self']
    cases dir[i]? with
    | none => exact le_rfl
    | some s => exact Nat.zero_le _
  · rw [List.getElem?_set_ne hj]

end Capacity

end Knos.Fat12Img
