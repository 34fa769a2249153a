import Knos.Memory.Effects
import Knos.Memory.Windows
import Knos.Memory.Zones

/-!
# The counters of free pages

`nr_free` is meant to be the number of clear bits of the zone. `free_pages` keeps it
so. `alloc_pages` does not: `page_init` takes every fresh page off the counter, and
step 4 takes the whole run off it once more. So the counters survive a call exactly
when it hands out nothing.
-/

namespace Knos.Memory

open Knos.Loop Knos.Words Knos.JumpSearch

/-! ## §1  Consistent states -/

/-- The zones are disjoint and covered by the tables, every frame knows its zone and
its number, no clear bit belongs to a page in use, and the counters are exact. -/
structure Consistent (g : GlobalMemoryManager) : Prop where
  disjoint : g.zone.Pairwise fun a b => ∀ q, ¬ (a.Contains q ∧ b.Contains q)
  bounded : ∀ z ∈ g.zone, z.endPfn < 2 ^ 64
  covered : ∀ z ∈ g.zone, ∀ q, z.Contains q → q / 64 < g.bitmap.length
  homes : ∀ (i : ℕ) (z : MemoryZone) (q : ℕ), g.zone[i]? = some z → z.Contains q →
    ∃ f : PageFrame, g.page[q]? = some f ∧ f.zone = some i
  indexed : Indexed g
  unused : ∀ z ∈ g.zone, ∀ (q : ℕ) (f : PageFrame), z.Contains q → bitAt g.bitmap q = some false →
    g.page[q]? = some f → f.isUsed = false
  counters : CountersExact g

/-- The search hands out no page: no zone claims enough free pages, or no window that
it probes in the zone it chose passes, or that window is at frame 0. -/
def NothingFound (g : GlobalMemoryManager) (ty : MemoryZoneType) (n : ℕ) : Prop :=
  ∀ i zone b, findZone ty n 0 g.zone = some (i, zone) → b ≤ searchLimit zone n →
    FirstHit (nextProbe n) (Passes g.bitmap n) zone.startPfn b → b = 0

theorem nothingFound_of_none {g : GlobalMemoryManager} {ty : MemoryZoneType} {n : ℕ} (hn : 1 ≤ n)
    (h : findRun g ty n = .ok none) : NothingFound g ty n := by
  intro i zone b hz hlim hhit
  by_contra hne
  rw [findRun_finds hn hz hne hlim hhit] at h
  cases h

theorem not_nothingFound {g : GlobalMemoryManager} {ty : MemoryZoneType} {n i p : ℕ} (hn : 1 ≤ n)
    (h : findRun g ty n = .ok (some (i, p))) : ¬ NothingFound g ty n := by
  intro hnothing
  obtain ⟨zone, hz, hne, hlim, hhit⟩ := findRun_some hn h
  exact hne (hnothing i zone p hz hlim hhit)

/-! ## §2  `alloc_pages` -/

section Alloc

variable {g g' : GlobalMemoryManager} {ty : MemoryZoneType} {nrPages flags : BitVec 32}

theorem zone_of_takeFree {i : ℕ} {n : BitVec 64} {z : MemoryZone} (h : g.zone[i]? = some z) :
    (g.takeFree i n).zone[i]? = some (z.subFree n) := by
  rw [takeFree_zone, h, Option.map_some, if_pos rfl]

/-- The first page of a run that is found is fresh. -/
theorem freshCount_pos (h : Consistent g) {n i p : ℕ} {z : MemoryZone} (hn : 1 ≤ n)
    (hget : g.zone[i]? = some z) (hin : z.Contains p) (hpass : Passes g.bitmap n p) :
    1 ≤ freshCount g i p n := by
  obtain ⟨f, hf, hzone⟩ := h.homes i z p hget hin
  have hclear : bitAt g.bitmap p = some false := hpass.1 0 (seen_pos hn p)
  have hunused := h.unused z (List.mem_of_getElem? hget) p f hin hclear hf
  have hfresh : freshIn g i (p + 0) = true := by
    simp [freshIn, hf, hzone, hunused]
  calc 1 = Nat.count (fun k => freshIn g i (p + k) = true) 1 := by
        rw [Nat.count_succ, Nat.count_zero, if_pos hfresh]
    _ ≤ freshCount g i p n := Nat.count_monotone _ hn

/-- Handing out a run leaves the counter of its zone too low. -/
theorem not_countersExact_of_some (h : Consistent g) (hn : 1 ≤ nrPages.toNat) {p : ℕ}
    (hrun : allocPages g ty nrPages flags = .ok (some p, g')) : ¬ CountersExact g' := by
  intro hexact
  obtain ⟨i, g₁, hfind, hloop, rfl⟩ := allocPages_some hrun
  obtain ⟨z, hz, -, hlim, hhit⟩ := findRun_some hn hfind
  obtain ⟨hget, hle⟩ := le_endPfn_of_exact h.counters hz
  obtain ⟨hstart, hend⟩ := run_in_zone hn hle (h.bounded z (List.mem_of_getElem? hget)) hlim hhit
  have hmarked := marked_of_forRange hloop
  have hfresh := freshCount_pos h hn hget ⟨hstart, by omega⟩ hhit.hit
  have hfresh' : freshCount g i p nrPages.toNat ≤ nrPages.toNat := Nat.count_le _
  -- the zone after step 3 and step 4
  have hget₁ := hmarked.zones i
  rw [hget, Option.map_some] at hget₁
  have hcount' := hexact _ (List.mem_of_getElem? (zone_of_takeFree hget₁))
  -- step 3 sets the clear bits of the run, at most `n` of them
  have hcount := h.counters z (List.mem_of_getElem? hget)
  have hset := clearCount_of_set hstart hend hmarked.bits
  have hrunCount := clearCount_le g.bitmap p (p + nrPages.toNat)
  have hlt := nrPages.isLt
  have hnr := z.nrFree.isLt
  simp only [MemoryZone.subFree, takeFree_bitmap, BitVec.toNat_sub, BitVec.toNat_ofNat,
    BitVec.toNat_setWidth] at hcount'
  rw [Nat.mod_eq_of_lt (show freshCount g i p nrPages.toNat < 2 ^ 64 by omega),
    Nat.mod_eq_of_lt (show nrPages.toNat < 2 ^ 64 by omega)] at hcount'
  omega

theorem countersExact_alloc_iff (h : Consistent g) {r : Option ℕ}
    (hrun : allocPages g ty nrPages flags = .ok (r, g')) :
    CountersExact g' ↔ nrPages = 0#32 ∨ NothingFound g ty nrPages.toNat := by
  by_cases hn : nrPages = 0#32
  · refine ⟨fun _ => Or.inl hn, fun _ => ?_⟩
    subst hn
    cases r with
    | none =>
        rw [(allocPages_none hrun).1]
        exact h.counters
    | some p =>
        -- nothing is marked and 0 is subtracted
        obtain ⟨i, g₁, -, hloop, rfl⟩ := allocPages_some hrun
        cases hloop
        intro z hz
        obtain ⟨k, hk⟩ := List.mem_iff_getElem?.mp hz
        rw [takeFree_zone, Option.map_eq_some_iff] at hk
        obtain ⟨z₀, hz₀, rfl⟩ := hk
        have hzero : (0#32).setWidth 64 = 0#64 := rfl
        rw [hzero, subFree_zero, id, ite_self]
        exact h.counters z₀ (List.mem_of_getElem? hz₀)
  · have hpos : 1 ≤ nrPages.toNat := by
      have : nrPages.toNat ≠ 0 := toNat_ne_zero hn
      omega
    cases r with
    | none =>
        obtain ⟨rfl, hfind⟩ := allocPages_none hrun
        exact ⟨fun _ => Or.inr (nothingFound_of_none hpos hfind), fun _ => h.counters⟩
    | some p =>
        obtain ⟨i, -, hfind, -⟩ := allocPages_some hrun
        refine ⟨fun hexact => absurd hexact (not_countersExact_of_some h hpos hrun), fun hor => ?_⟩
        exact absurd (hor.resolve_left hn) (not_nothingFound hpos hfind)

end Alloc

/-! ## §3  `free_pages` -/

section Free

variable {g g' : GlobalMemoryManager} {i p : ℕ} {z : MemoryZone}

/-- The frame of a page of zone `i` names zone `i`. -/
theorem Consistent.home_eq (h : Consistent g) (hi : g.zone[i]? = some z) (hin : z.Contains p)
    {f : PageFrame} {j : ℕ} (hf : g.page[p]? = some f) (hj : f.zone = some j) : j = i := by
  obtain ⟨f', hf', hi'⟩ := h.homes i z p hi hin
  rw [hf] at hf'
  cases hf'
  rw [hj] at hi'
  exact Option.some.inj hi'

/-- Each page given back turns one set bit of its zone into a clear one. -/
theorem Consistent.clearCount_released (h : Consistent g) (hz : z ∈ g.zone) {n : ℕ}
    (hstart : z.startPfn ≤ p) (hend : p + n ≤ z.endPfn) (hrel : Released i p n g g') :
    clearCount g'.bitmap z.startPfn z.endPfn =
      clearCount g.bitmap z.startPfn z.endPfn + givenBack g p n := by
  refine clearCount_of_clear (fun q => lastUseAt g q = true) hstart hend hrel.bits ?_
  intro q hpq hqn hlast
  have hin : z.Contains q := ⟨by omega, by omega⟩
  obtain ⟨k, hk⟩ := List.mem_iff_getElem?.mp hz
  obtain ⟨f', hf', -⟩ := h.homes k z q hk hin
  rcases bitAt_cases (h.covered z hz q hin) with hb | hb
  · exact hb
  · have hunused := h.unused z hz q f' hin hb hf'
    simp [lastUseAt, hf', PageFrame.lastUse, hunused] at hlast

/-- The counter of the zone that the run is released into. -/
theorem Consistent.released_counter (h : Consistent g) (hz : z ∈ g.zone) {n : ℕ}
    (hstart : z.startPfn ≤ p) (hend : p + n ≤ z.endPfn) (hrel : Released i p n g g') :
    (z.addFree (BitVec.ofNat 64 (givenBack g p n))).nrFree.toNat =
      clearCount g'.bitmap z.startPfn z.endPfn := by
  have hcount := h.counters z hz
  have hclear := h.clearCount_released hz hstart hend hrel
  have hbound := clearCount_le g'.bitmap z.startPfn z.endPfn
  have hlt := h.bounded z hz
  show (z.nrFree + BitVec.ofNat 64 (givenBack g p n)).toNat = _
  rw [BitVec.toNat_add, BitVec.toNat_ofNat, Nat.add_mod_mod, hcount, ← hclear]
  exact Nat.mod_eq_of_lt (by omega)

theorem countersExact_free (h : Consistent g) {nrPages : BitVec 32} (hz : z ∈ g.zone)
    (hstart : z.startPfn ≤ p) (hend : p + nrPages.toNat ≤ z.endPfn)
    (hrun : freePages g (some p) nrPages = .ok g') : CountersExact g' := by
  rcases freePages_eq_ok h.indexed hrun with ⟨rfl, -⟩ | ⟨hn, f, j, hf, hj, hrel⟩
  · exact h.counters
  · have hpos := toNat_ne_zero hn
    obtain ⟨i, hi⟩ := List.mem_iff_getElem?.mp hz
    -- the run starts in zone `i`, so that is the zone it is given back to
    obtain rfl := h.home_eq hi ⟨hstart, by omega⟩ hf hj
    intro z' hz'
    obtain ⟨k, hk⟩ := List.mem_iff_getElem?.mp hz'
    rw [hrel.zones] at hk
    by_cases hkj : k = j
    · rw [if_pos hkj, hkj, hi, Option.map_some] at hk
      cases hk
      exact h.released_counter hz hstart hend hrel
    · rw [if_neg hkj] at hk
      rw [h.counters z' (List.mem_of_getElem? hk)]
      apply clearCount_congr
      intro q hq₁ hq₂
      rw [hrel.bits, if_neg]
      rintro ⟨⟨h₁, h₂⟩, -⟩
      exact hkj (eq_of_contains h.disjoint hk hi ⟨hq₁, hq₂⟩ ⟨by omega, by omega⟩)

end Free

/-- **When the counters stay exact.** -/
theorem counters_stay_exact (g : GlobalMemoryManager) (h : Consistent g) :
    (∀ ty nrPages flags r g', allocPages g ty nrPages flags = .ok (r, g') →
      (CountersExact g' ↔ nrPages = 0#32 ∨ NothingFound g ty nrPages.toNat)) ∧
    ∀ (p : ℕ) (nrPages : BitVec 32) (g' : GlobalMemoryManager),
      (∃ z ∈ g.zone, z.startPfn ≤ p ∧ p + nrPages.toNat ≤ z.endPfn) →
        freePages g (some p) nrPages = .ok g' → CountersExact g' := by
  refine ⟨fun ty nrPages flags r g' hrun => countersExact_alloc_iff h hrun, ?_⟩
  rintro p nrPages g' ⟨z, hz, hstart, hend⟩ hrun
  exact countersExact_free h hz hstart hend hrun

/-- Four free pages. -/
def freshState : GlobalMemoryManager where
  e820Entry := []
  bitmap := [0]
  page := (List.range 5).map (PageFrame.ofZone 0)
  zone := [spanZone .zoneDma 1 5]
  total2mPages := 4
  free2mPages := 4
  layout := ⟨0, 0, 0, 0, 0, 0, 0⟩

theorem consistent_freshState : Consistent freshState := by
  have hpage : ∀ (q : ℕ) (f : PageFrame), freshState.page[q]? = some f →
      f = PageFrame.ofZone 0 q := by
    intro q f hf
    obtain ⟨i, hi, rfl⟩ := Option.map_eq_some_iff.mp ((List.getElem?_map ..).symm.trans hf)
    obtain ⟨hlt, rfl⟩ := List.getElem?_eq_some_iff.mp hi
    rw [List.getElem_range]
  refine ⟨List.pairwise_singleton _ _, by decide, ?_, ?_, ?_, ?_, by decide +kernel⟩
  · intro z hz q hq
    obtain rfl := List.mem_singleton.mp hz
    have hlt : q < 5 := hq.2
    show q / 64 < 1
    omega
  · intro i z q hi hq
    obtain rfl := List.mem_singleton.mp (List.mem_of_getElem? hi)
    have hzero : i = 0 := by
      have hlt : i < 1 := (List.getElem?_eq_some_iff.mp hi).1
      omega
    subst hzero
    have hlt : q < freshState.page.length := hq.2
    refine ⟨_, List.getElem?_eq_getElem hlt, ?_⟩
    rw [hpage q _ (List.getElem?_eq_getElem hlt)]
    rfl
  · intro q f hf
    rw [hpage q f hf]
    rfl
  · intro z _ q f _ _ hf
    rw [hpage q f hf]
    exact isUsed_eq_false.mpr (show 0#32 &&& pageUsed = 0#32 by decide)

theorem counters_stay_exact_freshState :
    (∀ ty nrPages flags r g', allocPages freshState ty nrPages flags = .ok (r, g') →
      (CountersExact g' ↔ nrPages = 0#32 ∨ NothingFound freshState ty nrPages.toNat)) ∧
    ∀ (p : ℕ) (nrPages : BitVec 32) (g' : GlobalMemoryManager),
      (∃ z ∈ freshState.zone, z.startPfn ≤ p ∧ p + nrPages.toNat ≤ z.endPfn) →
        freePages freshState (some p) nrPages = .ok g' → CountersExact g' :=
  counters_stay_exact freshState consistent_freshState

/-- One page is taken, and the counter falls from 4 to 2. -/
theorem alloc_counts_twice : Consistent freshState ∧
    ∃ r g', allocPages freshState .zoneDma 1 0 = .ok (r, g') ∧ ¬ CountersExact g' := by
  refine ⟨consistent_freshState, ?_⟩
  have hcount : (allocPages freshState .zoneDma 1 0).map
      (fun r => decide (CountersExact r.2)) = .ok false := by
    decide +kernel
  cases hrun : allocPages freshState .zoneDma 1 0 with
  | error e =>
      rw [hrun] at hcount
      cases hcount
  | ok r =>
      rw [hrun] at hcount
      exact ⟨r.1, r.2, rfl, of_decide_eq_false (Except.ok.inj hcount)⟩

end Knos.Memory
