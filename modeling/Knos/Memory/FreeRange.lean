import Knos.Memory.Charges

/-!
# `free_pages` over a range

Only the first frame of a call is compared with the page array, and only its zone is
credited. So a call is harmless to other zones, and to the memory behind the array,
exactly when every frame of the range exists and what it gives back is the first zone's
own (§2, §3). Within such a range a second call finds nothing left to free (§4).
-/

namespace Knos.Memory

open Knos.Loop Knos.Words

/-! ## §1  The loop -/

/-- A frame that is not given back needs no zone. -/
theorem freePage_returns_of_lastUse {g : GlobalMemoryManager} {j q : ℕ} {f : PageFrame}
    (hf : g.page[q]? = some f)
    (h : f.lastUse = true → f.pfn / 64 < g.bitmap.length ∧ j < g.zone.length) :
    ∃ g', freePage j q g = .ok g' := by
  by_cases hlast : f.lastUse = true
  · exact freePage_returns hf (h hlast).1 (h hlast).2
  · unfold freePage
    simp only [hf]
    by_cases hfree : f.flags &&& pageUsed = 0#32
    · exact ⟨_, if_pos hfree⟩
    · rw [if_neg hfree]
      have hused : f.isUsed = true := by
        by_contra hunused
        exact hfree (isUsed_eq_false.mp (Bool.eq_false_iff.mpr hunused))
      have hcount : 1 < f.refCount.toNat := by
        by_contra hle
        exact hlast (by simp [PageFrame.lastUse, hused]; omega)
      exact ⟨_, if_pos (decRef_shared hcount).1⟩

/-- The call is its loop when the first frame has a zone. -/
theorem freePages_eq_forRange {g : GlobalMemoryManager} {i j : ℕ} {f : PageFrame}
    {nrPages : BitVec 32} (hindex : Indexed g) (hf : g.page[i]? = some f) (hj : f.zone = some j)
    (hn : nrPages ≠ 0#32) :
    freePages g (some i) nrPages = forRange (freePage j) i nrPages.toNat g := by
  have hlen := (List.getElem?_eq_some_iff.mp hf).1
  have hpfn := hindex i f hf
  unfold freePages
  simp only [if_neg hn, hf, hj, hpfn]
  exact if_neg (Nat.not_le.mpr hlen)

/-- What a loop that returned has seen: every frame of the range, and a zone for each
frame that it gave back. -/
theorem frames_of_forRange {g g' : GlobalMemoryManager} {j p n : ℕ} (hindex : Indexed g)
    (h : forRange (freePage j) p n g = .ok g') :
    ∀ q, p ≤ q → q < p + n → ∃ f, g.page[q]? = some f ∧
      (f.lastUse = true → j < g.zone.length) := by
  have hloop := forRange_invariant (fun m s => Released j p m g s ∧
    ∀ q, p ≤ q → q < p + m → ∃ f, g.page[q]? = some f ∧ (f.lastUse = true → j < g.zone.length))
    (fun m s s' _ hs hstep => ?_) ⟨Released.none j p g, fun q h₁ h₂ => by omega⟩ h
  · exact hloop.2
  · obtain ⟨hrel, hseen⟩ := hs
    refine ⟨hrel.snoc hindex hstep, fun q h₁ h₂ => ?_⟩
    by_cases hq : q < p + m
    · exact hseen q h₁ hq
    · obtain rfl : q = p + m := by omega
      obtain ⟨f, hf, hcases⟩ := freePage_eq_ok hstep
      have hframe := hrel.frames (p + m)
      rw [hf, if_neg (by omega), eq_comm] at hframe
      refine ⟨f, hframe, fun hlast => ?_⟩
      rcases hcases with ⟨hunused, -⟩ | ⟨-, hnot, -⟩ | ⟨-, -, hj, -⟩
      · rw [lastUse_of_not_isUsed hunused] at hlast
        cases hlast
      · rw [hnot] at hlast
        cases hlast
      · rwa [hrel.shape.zone_length] at hj

/-- The loop returns when every frame exists, and there is a bit and a zone for each one
that it gives back. -/
theorem forRange_freePage_returns {g : GlobalMemoryManager} {j p n : ℕ} (hindex : Indexed g)
    (h : ∀ q, p ≤ q → q < p + n → ∃ f, g.page[q]? = some f ∧
      (f.lastUse = true → q / 64 < g.bitmap.length ∧ j < g.zone.length)) :
    ∃ g', forRange (freePage j) p n g = .ok g' := by
  have hloop := @forRange_returns _ _ (freePage j) (fun m s => Released j p m g s) p n g ?_
    (Released.none j p g)
  · obtain ⟨g', hrun, -⟩ := hloop
    exact ⟨g', hrun⟩
  · intro m s hm hs
    obtain ⟨f, hf, hlast⟩ := h (p + m) (Nat.le_add_right p m) (by omega)
    have hframe : s.page[p + m]? = some f := by
      rw [hs.frames, if_neg (by omega), hf]
    have hpfn := hindex _ f hf
    obtain ⟨s', hrun⟩ := @freePage_returns_of_lastUse s j (p + m) f hframe (by
      rwa [hpfn, hs.shape.words, hs.shape.zone_length])
    exact ⟨s', hrun, hs.snoc hindex hrun⟩

/-! ## §2  Whose frames a call frees -/

/-- Frame `q` names zone `k`. -/
def ownedBy (g : GlobalMemoryManager) (k q : ℕ) : Bool :=
  (g.page[q]?).any fun f => decide (f.zone = some k)

/-- The frames of zone `k` whose bit is set in `g` and clear in `g'`. -/
def clearedPages (g g' : GlobalMemoryManager) (k : ℕ) : Finset ℕ :=
  (Finset.range g.page.length).filter fun q =>
    ownedBy g k q = true ∧ bitAt g.bitmap q = some true ∧ bitAt g'.bitmap q = some false

/-- The call stays inside the page array, and the counter of every zone rises by the
number of its own frames whose bit was cleared. -/
def FreesExactly (g : GlobalMemoryManager) (i : ℕ) (nrPages : BitVec 32) : Prop :=
  ∃ g', freePages g (some i) nrPages = .ok g' ∧
    ∀ (k : ℕ) (z z' : MemoryZone), g.zone[k]? = some z → g'.zone[k]? = some z' →
      z'.nrFree = z.nrFree + BitVec.ofNat 64 (clearedPages g g' k).card

/-- The frames from `i` on exist, and those given back are frames of zone `j` whose bit
is set. -/
def RangeOwned (g : GlobalMemoryManager) (j i n : ℕ) : Prop :=
  ∀ q, i ≤ q → q < i + n → ∃ f, g.page[q]? = some f ∧
    (f.lastUse = true → f.zone = some j ∧ bitAt g.bitmap q = some true)

/-- The frames of a range that the call gives back. -/
def givenPages (g : GlobalMemoryManager) (p n : ℕ) : Finset ℕ :=
  (Finset.Ico p (p + n)).filter fun q => lastUseAt g q = true

theorem card_givenPages (g : GlobalMemoryManager) (p n : ℕ) :
    (givenPages g p n).card = givenBack g p n := by
  induction n with
  | zero => rw [givenPages, Nat.add_zero, Finset.Ico_self]; rfl
  | succ n ih =>
      rw [givenBack_succ, ← ih]
      unfold givenPages
      rw [← Nat.add_assoc, Finset.card_filter, Finset.card_filter,
        Finset.sum_Ico_succ_top (Nat.le_add_right p n)]

theorem givenBack_le (g : GlobalMemoryManager) (p n : ℕ) : givenBack g p n ≤ n := Nat.count_le _

theorem lastUseAt_eq {g : GlobalMemoryManager} {q : ℕ} {f : PageFrame}
    (hf : g.page[q]? = some f) : lastUseAt g q = f.lastUse := by
  rw [lastUseAt, hf, Option.any_some]

theorem ownedBy_iff {g : GlobalMemoryManager} {k q : ℕ} {f : PageFrame}
    (hf : g.page[q]? = some f) : ownedBy g k q = true ↔ f.zone = some k := by
  rw [ownedBy, hf, Option.any_some, decide_eq_true_iff]

section Range

variable {g g' : GlobalMemoryManager} {j p n : ℕ}

/-- Frames that exist are numbered below the length of the page array. -/
theorem lt_length_of_frames {P : ℕ → PageFrame → Prop}
    (h : ∀ q, p ≤ q → q < p + n → ∃ f, g.page[q]? = some f ∧ P q f) :
    ∀ q, p ≤ q → q < p + n → q < g.page.length := by
  intro q h₁ h₂
  obtain ⟨f, hf, -⟩ := h q h₁ h₂
  exact (List.getElem?_eq_some_iff.mp hf).1

/-- Only a frame that is given back can lose its bit. -/
theorem Released.mem_clearedPages (h : Released j p n g g')
    (hpages : ∀ q, p ≤ q → q < p + n → q < g.page.length) {k q : ℕ} :
    q ∈ clearedPages g g' k ↔
      q ∈ givenPages g p n ∧ ownedBy g k q = true ∧ bitAt g.bitmap q = some true := by
  unfold clearedPages givenPages
  rw [Finset.mem_filter, Finset.mem_filter, Finset.mem_range, Finset.mem_Ico, h.bits]
  constructor
  · rintro ⟨-, hown, hset, hclear⟩
    by_cases hin : (p ≤ q ∧ q < p + n) ∧ lastUseAt g q = true
    · exact ⟨hin, hown, hset⟩
    · rw [if_neg hin, hset] at hclear
      cases hclear
  · rintro ⟨hin, hown, hset⟩
    exact ⟨hpages q hin.1.1 hin.1.2, hown, hset, if_pos hin⟩

theorem Released.clearedPages_subset (h : Released j p n g g')
    (hpages : ∀ q, p ≤ q → q < p + n → q < g.page.length) (k : ℕ) :
    clearedPages g g' k ⊆ givenPages g p n :=
  fun _ hq => ((h.mem_clearedPages hpages).mp hq).1

/-- The counters are right when everything given back was the first zone's own. -/
theorem Released.counters_of_owned (h : Released j p n g g') (howned : RangeOwned g j p n)
    {k : ℕ} {z z' : MemoryZone} (hz : g.zone[k]? = some z) (hz' : g'.zone[k]? = some z') :
    z'.nrFree = z.nrFree + BitVec.ofNat 64 (clearedPages g g' k).card := by
  have hpages := lt_length_of_frames howned
  have hgiven : ∀ q ∈ givenPages g p n, ∃ f, g.page[q]? = some f ∧ f.zone = some j ∧
      bitAt g.bitmap q = some true := by
    intro q hq
    obtain ⟨hrange, hlast⟩ := Finset.mem_filter.mp hq
    rw [Finset.mem_Ico] at hrange
    obtain ⟨f, hf, hown⟩ := howned q hrange.1 hrange.2
    rw [lastUseAt_eq hf] at hlast
    exact ⟨f, hf, hown hlast⟩
  rw [h.zones] at hz'
  by_cases hk : k = j
  · rw [if_pos hk, hz, Option.map_some] at hz'
    cases hz'
    have hall : clearedPages g g' k = givenPages g p n := by
      refine Finset.Subset.antisymm (h.clearedPages_subset hpages k) fun q hq => ?_
      obtain ⟨f, hf, hzone, hset⟩ := hgiven q hq
      rw [← hk] at hzone
      exact (h.mem_clearedPages hpages).mpr ⟨hq, (ownedBy_iff hf).mpr hzone, hset⟩
    rw [hall, card_givenPages]
    rfl
  · rw [if_neg hk, hz] at hz'
    cases hz'
    have hnone : clearedPages g g' k = ∅ := by
      refine Finset.eq_empty_of_forall_notMem fun q hq => ?_
      obtain ⟨hq, hown, -⟩ := (h.mem_clearedPages hpages).mp hq
      obtain ⟨f, hf, hzone, -⟩ := hgiven q hq
      rw [ownedBy_iff hf, hzone] at hown
      exact hk (Option.some.inj hown).symm
    rw [hnone, Finset.card_empty]
    exact (BitVec.add_zero _).symm

/-- And wrong otherwise: the first zone is credited for every frame given back. -/
theorem Released.owned_of_counters (h : Released j p n g g') (hn : n < 2 ^ 32)
    (hframes : ∀ q, p ≤ q → q < p + n → ∃ f, g.page[q]? = some f ∧
      (f.lastUse = true → j < g.zone.length))
    (hcount : ∀ (k : ℕ) (z z' : MemoryZone), g.zone[k]? = some z → g'.zone[k]? = some z' →
      z'.nrFree = z.nrFree + BitVec.ofNat 64 (clearedPages g g' k).card) :
    RangeOwned g j p n := by
  have hpages := lt_length_of_frames hframes
  intro q h₁ h₂
  obtain ⟨f, hf, hzone⟩ := hframes q h₁ h₂
  refine ⟨f, hf, fun hlast => ?_⟩
  have hz := List.getElem?_eq_getElem (hzone hlast)
  have hz' := h.zones j
  rw [if_pos rfl, hz, Option.map_some] at hz'
  have hsum : BitVec.ofNat 64 (givenBack g p n) =
      BitVec.ofNat 64 (clearedPages g g' j).card :=
    add_left_cancel (hcount j _ _ hz hz')
  have hsub := h.clearedPages_subset hpages j
  have hle := Finset.card_le_card hsub
  have hgiven := givenBack_le g p n
  rw [card_givenPages] at hle
  have hcard : givenBack g p n = (clearedPages g g' j).card := by
    have hnat := congrArg BitVec.toNat hsum
    rwa [BitVec.toNat_ofNat, BitVec.toNat_ofNat, Nat.mod_eq_of_lt (by omega),
      Nat.mod_eq_of_lt (by omega)] at hnat
  have hall := Finset.eq_of_subset_of_card_le hsub (by rw [card_givenPages, hcard])
  have hq : q ∈ givenPages g p n :=
    Finset.mem_filter.mpr ⟨Finset.mem_Ico.mpr ⟨h₁, h₂⟩, by rw [lastUseAt_eq hf, hlast]⟩
  rw [← hall, h.mem_clearedPages hpages, ownedBy_iff hf] at hq
  exact hq.2

end Range

/-! ## §3  From `init_memory` on -/

/-- Frames know their numbers, every frame has a bit, and a frame in use belongs to a zone
of the table or to none. -/
structure Workable (g : GlobalMemoryManager) : Prop where
  indexed : Indexed g
  covered : g.page.length ≤ 64 * g.bitmap.length
  homes : ∀ (q : ℕ) (f : PageFrame) (j : ℕ), g.page[q]? = some f → f.isUsed = true →
    f.zone = some j → j < g.zone.length

/-- The bitmap needs to keep its length only, and a frame that was not in use before needs
a zone of the table. -/
theorem SameShape.workable {g g' : GlobalMemoryManager} (h : SameShape g g') (hg : Workable g)
    (hused : ∀ (q : ℕ) (f f' : PageFrame), g.page[q]? = some f → g'.page[q]? = some f' →
      f'.isUsed = true → f.isUsed = true ∨ ∀ j, f.zone = some j → j < g.zone.length) :
    Workable g' := by
  refine ⟨h.indexed hg.indexed, ?_, fun q f' j hf' hu hj => ?_⟩
  · rw [h.page_length, h.words]
    exact hg.covered
  · obtain ⟨f, hf, hzone, -⟩ := h.frame hf'
    rw [h.zone_length]
    rw [← hzone] at hj
    rcases hused q f f' hf hf' hu with hu | hlt
    · exact hg.homes q f j hf hu hj
    · exact hlt j hj

section Calls

variable {g g' : GlobalMemoryManager}

theorem Workable.takeFree (h : Workable g) (j : ℕ) (n : BitVec 64) : Workable (g.takeFree j n) :=
  (sameShape_takeFree g j n).workable h fun q f f' hf hf' hu => by
    have hf' : g.page[q]? = some f' := hf'
    rw [hf] at hf'
    cases hf'
    exact Or.inl hu

/-- `page_init` on a frame of a zone of the table. -/
theorem Workable.acquire (h : Workable g) {i j : ℕ} {f : PageFrame} (flags : BitVec 32)
    (hf : g.page[i]? = some f) (hj : f.zone = some j) (hlt : j < g.zone.length) :
    Workable (g.setFrame i (f.acquire flags)) := by
  have hlen := (List.getElem?_eq_some_iff.mp hf).1
  refine (sameShape_setFrame g i _ hf (home_acquire flags f)).workable h
    fun q f₀ f' hf₀ hf' hu => ?_
  rw [setFrame_page, getElem?_set_of_lt hlen] at hf'
  by_cases hq : q = i
  · right
    intro j' hj'
    rw [hq, hf] at hf₀
    cases hf₀
    rw [hj] at hj'
    cases hj'
    exact hlt
  · rw [if_neg hq, hf₀] at hf'
    cases hf'
    exact Or.inl hu

theorem Workable.pageInit (h : Workable g) {p : Option ℕ} {flags : BitVec 32}
    (hcall : pageInit g p flags = .ok g') : Workable g' := by
  cases p with
  | none => cases hcall
  | some i =>
      obtain ⟨f, j, hf, hj, ⟨-, hlt, rfl⟩ | ⟨hused, rfl⟩⟩ := pageInit_eq_ok hcall
      · exact (h.acquire flags hf hj hlt).takeFree j 1
      · exact h.acquire flags hf hj (h.homes i f j hf hused hj)

theorem Workable.markPage (h : Workable g) {q : ℕ} {flags : BitVec 32}
    (hcall : markPage flags q g = .ok g') : Workable g' := by
  unfold Memory.markPage at hcall
  rw [bind_eq_ok] at hcall
  obtain ⟨bitmap, hbitmap, hcall⟩ := hcall
  obtain ⟨-, rfl⟩ := setBitmapBit_eq_ok.mp hbitmap
  have hset : Workable { g with bitmap := setBit g.bitmap q } := by
    refine ⟨h.indexed, ?_, h.homes⟩
    show g.page.length ≤ 64 * (setBit g.bitmap q).length
    rw [length_setBit]
    exact h.covered
  exact hset.pageInit hcall

theorem Workable.allocPages (h : Workable g) {ty : MemoryZoneType} {nrPages flags : BitVec 32}
    {r : Option ℕ} (hcall : allocPages g ty nrPages flags = .ok (r, g')) : Workable g' := by
  cases r with
  | none =>
      rw [(allocPages_none hcall).1]
      exact h
  | some p =>
      obtain ⟨i, g₁, -, hloop, rfl⟩ := allocPages_some hcall
      have h₁ := forRange_invariant (fun _ s => Workable s)
        (fun _ _ _ _ hs hstep => hs.markPage hstep) h hloop
      exact h₁.takeFree i _

/-- A frame that is released is in use afterwards only if it was before. -/
theorem isUsed_of_release {f : PageFrame} (h : f.release.isUsed = true) : f.isUsed = true := by
  by_contra hunused
  rw [release_of_not_isUsed (Bool.eq_false_iff.mpr hunused)] at h
  exact hunused h

theorem Workable.freePages (h : Workable g) {p : Option ℕ} {nrPages : BitVec 32}
    (hcall : freePages g p nrPages = .ok g') : Workable g' := by
  cases p with
  | none =>
      cases hcall
      exact h
  | some i =>
      rcases freePages_eq_ok h.indexed hcall with ⟨rfl, -⟩ | ⟨-, f, j, -, -, hrel⟩
      · exact h
      · refine hrel.shape.workable h fun q f₀ f' hf₀ hf' hu => Or.inl ?_
        rw [hrel.frames, hf₀, Option.map_some] at hf'
        split at hf'
        · cases hf'
          exact isUsed_of_release hu
        · cases hf'
          exact hu

theorem Calls.workable (h : Calls g g') (hg : Workable g) : Workable g' := by
  induction h with
  | refl => exact hg
  | tail _ hcall ih =>
      cases hcall with
      | pageInit _ _ hcall => exact ih.pageInit hcall
      | allocPages _ _ _ _ hcall => exact ih.allocPages hcall
      | freePages _ _ hcall => exact ih.freePages hcall

end Calls

/-- The tables lie behind the image, so page 0 is not one of theirs. -/
theorem firstTablePage_pos {endKrnl : ℕ} (htext : textAddr ≤ endKrnl) (hlt : endKrnl < 2 ^ 64) :
    1 ≤ firstTablePage endKrnl := by
  have hbase : physToVirtBase + 0x100000 ≤ endKrnl := htext
  have hphys := (physToVirt_virtToPhys (le_trans (Nat.le_add_right _ _) hbase) hlt).2.2
  unfold firstTablePage tablesStart Align.roundUp
  omega

theorem Booted.workable {buffer : E820Buffer} {endKrnl : ℕ} {s : Boot}
    (h : Booted buffer endKrnl s) (htext : textAddr ≤ endKrnl) (hlt : endKrnl < 2 ^ 64) :
    Workable s.gmm := by
  refine ⟨h.indexed, ?_, fun q f j hf hused hj => ?_⟩
  · rw [h.frameCount, h.words]
    omega
  · by_cases hq : q = 0
    · -- page 0 is blank
      obtain ⟨f₀, rfl, hzero, -⟩ := h.frames q f hf
      have hfirst := firstTablePage_pos htext hlt
      rw [if_neg (fun htable => by have := htable.1; omega), hzero hq] at hused
      exact absurd hused (by decide)
    · exact h.bounded.homes q f j hq hf hj

/-- **When a call frees exactly what it should**, in any state that calls lead to. -/
theorem free_exact_iff (buffer : E820Buffer) (endKrnl : ℕ) (s : Boot) (htext : textAddr ≤ endKrnl)
    (hlt : endKrnl < 2 ^ 64) (hrun : initMemory buffer endKrnl = .ok s) (g : GlobalMemoryManager)
    (hcalls : Calls s.gmm g) (i j : ℕ) (f : PageFrame) (hf : g.page[i]? = some f)
    (hj : f.zone = some j) (nrPages : BitVec 32) (hn : nrPages ≠ 0#32) :
    FreesExactly g i nrPages ↔ RangeOwned g j i nrPages.toNat := by
  have hend : physToVirtBase ≤ endKrnl := le_trans (Nat.le_add_right _ _) htext
  have hg := hcalls.workable ((initMemory_booted hend hlt hrun).workable htext hlt)
  have hloop := freePages_eq_forRange hg.indexed hf hj hn
  constructor
  · rintro ⟨g', hcall, hcount⟩
    rw [hloop] at hcall
    exact (released_of_forRange hg.indexed hcall).owned_of_counters nrPages.isLt
      (frames_of_forRange hg.indexed hcall) hcount
  · intro howned
    obtain ⟨g', hcall⟩ := @forRange_freePage_returns g j i nrPages.toNat hg.indexed (by
      intro q h₁ h₂
      obtain ⟨f', hf', hlast⟩ := howned q h₁ h₂
      refine ⟨f', hf', fun hl => ?_⟩
      have hlen := (List.getElem?_eq_some_iff.mp hf').1
      have hcovered := hg.covered
      have hused : f'.isUsed = true := by
        simp only [PageFrame.lastUse, Bool.and_eq_true] at hl
        exact hl.1
      exact ⟨by omega, hg.homes q f' j hf' hused (hlast hl).1⟩)
    refine ⟨g', hloop.trans hcall, fun k z z' hz hz' => ?_⟩
    exact (released_of_forRange hg.indexed hcall).counters_of_owned howned hz hz'

/-- Three pages that were handed out. -/
theorem free_exact_iff_smallMachine :
    ∃ g, allocPages (bootOf smallMachine smallImage).gmm .zoneNormal 3 pageKernel =
        .ok (some 8, g) ∧ (FreesExactly g 8 3 ↔ RangeOwned g 1 8 3) := by
  obtain ⟨g, hcall⟩ := smallMachine_allocates
  have hframe : (allocPages (bootOf smallMachine smallImage).gmm .zoneNormal 3 pageKernel).map
      (fun r => (r.2.page[8]?).map PageFrame.zone) = .ok (some (some 1)) := by
    decide +kernel
  rw [hcall] at hframe
  obtain ⟨f, hf, hzone⟩ := Option.map_eq_some_iff.mp (Except.ok.inj hframe)
  exact ⟨g, hcall, free_exact_iff smallMachine smallImage _ (by decide) (by decide)
    smallMachine_boots g (Relation.ReflTransGen.single (.allocPages _ _ _ _ hcall)) 8 1 f hf hzone 3
    (by decide)⟩

/-- Two ranges that start in a zone and leave it. Page 2 holds the tables and belongs to
zone 1, but freeing pages 1 and 2 credits zone 0; and page 33 is behind the page array. -/
theorem free_runs_over_border :
    initMemory borderMachine borderImage = .ok (bootOf borderMachine borderImage) ∧
    ¬ FreesExactly (bootOf borderMachine borderImage).gmm 1 2 ∧
    ¬ FreesExactly (bootOf borderMachine borderImage).gmm 31 3 := by
  refine ⟨borderMachine_boots, ?_, ?_⟩
  · rintro ⟨g', hcall, hcount⟩
    have hfreed : (freePages (bootOf borderMachine borderImage).gmm (some 1) 2).map (fun g' =>
        ((g'.zone[0]?).map MemoryZone.nrFree,
          (clearedPages (bootOf borderMachine borderImage).gmm g' 0).card)) =
        .ok (some 1, 0) := by
      decide +kernel
    have hbefore : (bootOf borderMachine borderImage).gmm.zone[0]? =
        some { spanZone .zoneDma 1 2 with nrFree := 0 } := by
      decide +kernel
    rw [hcall] at hfreed
    obtain ⟨hafter, hcard⟩ := Prod.mk.inj (Except.ok.inj hfreed)
    obtain ⟨z', hz', hfree⟩ := Option.map_eq_some_iff.mp hafter
    have hrise := hcount 0 _ z' hbefore hz'
    rw [hfree, hcard] at hrise
    exact absurd hrise (by decide)
  · rintro ⟨g', hcall, -⟩
    have hfault : (freePages (bootOf borderMachine borderImage).gmm (some 31) 3).isOk = false := by
      decide +kernel
    rw [hcall] at hfault
    cases hfault

/-! ## §4  A second call -/

section Twice

variable {g g' : GlobalMemoryManager} {j p n : ℕ}

theorem not_isUsed_release {f : PageFrame} (h : f.refCount.toNat ≤ 1) :
    f.release.isUsed = false := by
  unfold PageFrame.release
  by_cases hused : f.isUsed = true
  · rw [if_pos hused, if_pos h]
    exact isUsed_eq_false.mpr BitVec.zero_and
  · rw [if_neg hused]
    exact Bool.eq_false_iff.mpr hused

/-- Over frames that are not in use the loop does nothing. -/
theorem forRange_freePage_unused (h : ∀ q, p ≤ q → q < p + n →
    ∃ f, g.page[q]? = some f ∧ f.isUsed = false) :
    forRange (freePage j) p n g = .ok g := by
  obtain ⟨g', hrun, rfl⟩ := @forRange_returns _ _ (freePage j) (fun _ s => s = g) p n g
    (fun m s hm hs => by
      obtain ⟨f, hf, hunused⟩ := h (p + m) (Nat.le_add_right p m) (by omega)
      refine ⟨g, ?_, rfl⟩
      rw [hs, freePage, hf]
      exact if_pos (isUsed_eq_false.mp hunused)) rfl
  exact hrun

/-- The range `[p, p + n)` lies in the page array and in zone `j`, and nobody shares its
frames. -/
def Unshared (g : GlobalMemoryManager) (j p n : ℕ) : Prop :=
  ∀ q, p ≤ q → q < p + n → ∃ f, g.page[q]? = some f ∧ f.zone = some j ∧ f.refCount.toNat ≤ 1

/-- The first pass puts every frame of the range out of use. -/
theorem Released.unused (h : Released j p n g g') (hun : Unshared g j p n) :
    ∀ q, p ≤ q → q < p + n → ∃ f, g'.page[q]? = some f ∧ f.zone = some j ∧ f.isUsed = false := by
  intro q h₁ h₂
  obtain ⟨f, hf, hzone, hcount⟩ := hun q h₁ h₂
  refine ⟨f.release, ?_, (congrArg Prod.fst (home_release f)).trans hzone,
    not_isUsed_release hcount⟩
  rw [h.frames, if_pos ⟨h₁, h₂⟩, hf, Option.map_some]

end Twice

/-- **A double free is harmless**: on a range of frames that nobody shares the second call
leaves the state that the first one left; and the first one returns. -/
theorem double_free_harmless (g : GlobalMemoryManager) (hindex : Indexed g) (j p : ℕ)
    (nrPages : BitVec 32) (hun : Unshared g j p nrPages.toNat) :
    (freePages g (some p) nrPages >>= fun g' => freePages g' (some p) nrPages) =
      freePages g (some p) nrPages ∧
    (j < g.zone.length → g.page.length ≤ 64 * g.bitmap.length →
      ∃ g', freePages g (some p) nrPages = .ok g') := by
  by_cases hn : nrPages = 0#32
  · have hskip : ∀ s, freePages s (some p) nrPages = .ok s := fun s => if_pos hn
    rw [hskip, ok_bind, hskip]
    exact ⟨rfl, fun _ _ => ⟨g, rfl⟩⟩
  · have hpos := toNat_ne_zero hn
    obtain ⟨f, hf, hzone, -⟩ := hun p (Nat.le_refl p) (by omega)
    have hcall := freePages_eq_forRange hindex hf hzone hn
    refine ⟨?_, fun hj hcovered => ?_⟩
    · cases hrun : freePages g (some p) nrPages with
      | error e => rfl
      | ok g' =>
          rw [hcall] at hrun
          have hrel := released_of_forRange hindex hrun
          have hunused := hrel.unused hun
          obtain ⟨f', hf', hzone', -⟩ := hunused p (Nat.le_refl p) (by omega)
          rw [ok_bind, freePages_eq_forRange (hrel.shape.indexed hindex) hf' hzone' hn]
          exact forRange_freePage_unused fun q h₁ h₂ => by
            obtain ⟨f'', hf'', -, hu⟩ := hunused q h₁ h₂
            exact ⟨f'', hf'', hu⟩
    · rw [hcall]
      refine forRange_freePage_returns hindex fun q h₁ h₂ => ?_
      obtain ⟨f', hf', -, -⟩ := hun q h₁ h₂
      have hlen := (List.getElem?_eq_some_iff.mp hf').1
      exact ⟨f', hf', fun _ => ⟨by omega, hj⟩⟩

/-- Pages 8 to 10 of the machine of 64 MB after they were handed out, and page 11. -/
theorem double_free_harmless_smallMachine :
    ∃ g, allocPages (bootOf smallMachine smallImage).gmm .zoneNormal 3 pageKernel =
        .ok (some 8, g) ∧
      (freePages g (some 8) 4 >>= fun g' => freePages g' (some 8) 4) = freePages g (some 8) 4 ∧
      (1 < g.zone.length → g.page.length ≤ 64 * g.bitmap.length →
        ∃ g', freePages g (some 8) 4 = .ok g') := by
  obtain ⟨g, hcall⟩ := smallMachine_allocates
  have hcalls : Calls (bootOf smallMachine smallImage).gmm g :=
    Relation.ReflTransGen.single (.allocPages _ _ _ _ hcall)
  have hg := hcalls.workable
    ((initMemory_booted (by decide) (by decide) smallMachine_boots).workable (by decide) (by decide))
  have hframes : (allocPages (bootOf smallMachine smallImage).gmm .zoneNormal 3 pageKernel).map
      (fun r => decide (∀ q < 12, 8 ≤ q → (r.2.page[q]?).any
        (fun f => decide (f.zone = some 1 ∧ f.refCount.toNat ≤ 1)) = true)) = .ok true := by
    decide +kernel
  rw [hcall] at hframes
  refine ⟨g, hcall, double_free_harmless g hg.indexed 1 8 4 fun q h₁ h₂ => ?_⟩
  have hany := of_decide_eq_true (Except.ok.inj hframes) q h₂ h₁
  rw [Option.any_eq_true] at hany
  obtain ⟨f, hf, hprop⟩ := hany
  exact ⟨f, hf, of_decide_eq_true hprop⟩

end Knos.Memory
