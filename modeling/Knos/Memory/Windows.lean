import Knos.Memory.Search

/-!
# What `alloc_pages` hands out, and what it misses

Two laws of the search, over any bitmap and any zone table.

- **Exactness** (§1). The run handed out is clear iff the bits that the accepted
  test did not look at are clear. Up to 64 pages there are none.
- **Completeness** (§2). The search is not complete: a failed window of `n` pages
  is jumped over. Since no jump exceeds `n`, it cannot miss `2n - 1` clear pages
  in a row, and a single page is never missed.
-/

namespace Knos.Memory

open Knos.Loop Knos.Words Knos.JumpSearch

/-! ## §1  Exactness of the window tests -/

/-- In the zone that the request selects, the first probed window whose looked-at
bits are clear is clear to its end. Frame 0 is not handed out. -/
def TailsClear (g : GlobalMemoryManager) (ty : MemoryZoneType) (n : ℕ) : Prop :=
  ∀ i zone b, findZone ty n 0 g.zone = some (i, zone) → b ≠ 0 → b ≤ searchLimit zone n →
    FirstHit (nextProbe n) (Passes g.bitmap n) zone.startPfn b →
    AllClear g.bitmap (b + seen n b) (n - seen n b)

/-- Requests on which no window test is misled: at most 64 pages, or clear tails. -/
def TestsExact (g : GlobalMemoryManager) (ty : MemoryZoneType) (n : ℕ) : Prop :=
  n ≤ 64 ∨ TailsClear g ty n

theorem FirstHit.allClear {bitmap : List Word} {n start b : ℕ}
    (h : FirstHit (nextProbe n) (Passes bitmap n) start b)
    (htail : AllClear bitmap (b + seen n b) (n - seen n b)) : AllClear bitmap b n := by
  have hle := seen_le n b
  rw [show n = seen n b + (n - seen n b) from by omega, allClear_add]
  exact ⟨h.hit.1, htail⟩

theorem findRun_allClear {g : GlobalMemoryManager} {ty : MemoryZoneType} {n i p : ℕ} (hn : 1 ≤ n)
    (hexact : TestsExact g ty n) (h : findRun g ty n = .ok (some (i, p))) :
    AllClear g.bitmap p n := by
  obtain ⟨zone, hz, hne, hlim, hhit⟩ := findRun_some hn h
  rcases hexact with hn64 | htails
  · exact hhit.hit.allClear hn64
  · exact FirstHit.allClear hhit (htails i zone p hz hne hlim hhit)

/-- **The run handed out is clear exactly when no test was misled.** -/
theorem run_allClear_iff (g : GlobalMemoryManager) (ty : MemoryZoneType) (nrPages : BitVec 32)
    (hn : 1 ≤ nrPages.toNat) :
    ((∀ i p, findRun g ty nrPages.toNat = .ok (some (i, p)) →
        AllClear g.bitmap p nrPages.toNat) ↔ TestsExact g ty nrPages.toNat) ∧
    ∀ flags p g', allocPages g ty nrPages flags = .ok (some p, g') →
      ∃ i, findRun g ty nrPages.toNat = .ok (some (i, p)) := by
  refine ⟨⟨fun h => ?_, fun hexact i p => findRun_allClear hn hexact⟩, fun flags p g' h => ?_⟩
  · right
    intro i zone b hz hne hlim hhit
    have hrun := findRun_finds hn hz hne hlim hhit
    have hle := seen_le nrPages.toNat b
    exact (h i b hrun).sub (by omega) (by omega)
  · obtain ⟨i, -, hrun, -⟩ := allocPages_some h
    exact ⟨i, hrun⟩

/-- A zone table and a bitmap of three words; the two lower ones are free, frame
128 is taken. -/
def tailState : GlobalMemoryManager where
  e820Entry := []
  bitmap := [0, 0, 1]
  page := (List.range 192).map fun pfn =>
    { zone := some 0, pfn := pfn, refCount := 0, flags := 0, pageSize := .page2m }
  zone := [{ totalPages := 128, startPfn := 64, endPfn := 192, type := .zoneNormal, nrFree := 127 }]
  total2mPages := 128
  free2mPages := 127
  layout := ⟨0, 0, 0, 0, 0, 0, 0⟩

theorem run_allClear_iff_tailState :
    ((∀ i p, findRun tailState .zoneNormal 65 = .ok (some (i, p)) →
        AllClear tailState.bitmap p 65) ↔ TestsExact tailState .zoneNormal 65) ∧
    ∀ flags p g', allocPages tailState .zoneNormal 65 flags = .ok (some p, g') →
      ∃ i, findRun tailState .zoneNormal 65 = .ok (some (i, p)) :=
  run_allClear_iff tailState .zoneNormal 65 (by decide)

/-- 65 pages are handed out from frame 64 on, and the last of them is frame 128. -/
theorem aligned_test_misses_tail :
    ∃ g', allocPages tailState .zoneNormal 65 0 = .ok (some 64, g') ∧
      bitAt tailState.bitmap (64 + 64) = some true := by
  have h : (allocPages tailState .zoneNormal 65 0).map Prod.fst = .ok (some 64) := by
    decide +kernel
  obtain ⟨g', hg'⟩ := exists_of_map_fst h
  exact ⟨g', hg', by decide⟩

/-! ## §2  Completeness of the search -/

/-- Each zone's counter is the number of clear bits of the zone. -/
def CountersExact (g : GlobalMemoryManager) : Prop :=
  ∀ z ∈ g.zone, z.nrFree.toNat = clearCount g.bitmap z.startPfn z.endPfn

instance (g : GlobalMemoryManager) : Decidable (CountersExact g) :=
  inferInstanceAs (Decidable (∀ z ∈ g.zone, _))

/-- Between two probes lie fewer than `n` positions, so some probed window lies
inside any `2n - 1` pages in a row. -/
theorem exists_probed_window {n start s : ℕ} (hn : 1 ≤ n) (hs : start ≤ s) :
    ∃ b, Probed (nextProbe n) start b ∧ s ≤ b ∧ b + n ≤ s + (2 * n - 1) := by
  obtain ⟨b, hb, hsb, hbs⟩ := exists_probed_between (lt_nextProbe hn) (nextProbe_le n) hs
  exact ⟨b, hb, hsb, by omega⟩

/-- The search misses no probed window and no `2n - 1` clear pages. -/
theorem searchZone_misses_no_long_run {bitmap : List Word} {zone : MemoryZone} {n : ℕ}
    (hn : 1 ≤ n) (hle : n ≤ zone.endPfn) (hlt : zone.endPfn < 2 ^ 64)
    (h : searchZone bitmap zone n = .ok none) :
    (∀ b, Probed (nextProbe n) zone.startPfn b → b + n ≤ zone.endPfn → ¬ AllClear bitmap b n) ∧
    (∀ s, zone.startPfn ≤ s → s + (2 * n - 1) ≤ zone.endPfn → ¬ AllClear bitmap s (2 * n - 1)) := by
  have hprobed : ∀ b, Probed (nextProbe n) zone.startPfn b → b + n ≤ zone.endPfn →
      ¬ AllClear bitmap b n := by
    intro b hb hbn hclear
    refine searchZone_none hn h hb ?_ (passes_of_allClear hn hclear)
    rw [searchLimit_eq hle hlt]
    omega
  refine ⟨hprobed, fun s hs hend hclear => ?_⟩
  obtain ⟨b, hb, hsb, hbn⟩ := exists_probed_window hn hs
  exact hprobed b hb (by omega) (hclear.sub hsb hbn)

/-- The chosen zone has the pages that its counter claims, if that is exact. -/
theorem le_endPfn_of_exact {g : GlobalMemoryManager} {ty : MemoryZoneType} {n i : ℕ}
    {z : MemoryZone} (hexact : CountersExact g) (hz : findZone ty n 0 g.zone = some (i, z)) :
    g.zone[i]? = some z ∧ n ≤ z.endPfn := by
  obtain ⟨-, hget, -, hfree⟩ := findZone_some hz
  have hcount := clearCount_le g.bitmap z.startPfn z.endPfn
  rw [← hexact z (List.mem_of_getElem? hget)] at hcount
  exact ⟨hget, by omega⟩

/-- **What NULL means.** Either no zone of the type has `n` clear bits at all, or
the first one that has them was probed in vain (the case of a free window at frame
0, which is found and taken for a failure, is set apart). -/
theorem allocPages_null {g g' : GlobalMemoryManager} (ty : MemoryZoneType)
    {nrPages flags : BitVec 32} (hn : 1 ≤ nrPages.toNat) (hexact : CountersExact g)
    (hend : ∀ z ∈ g.zone, z.endPfn < 2 ^ 64)
    (hzero : ∀ i z, findZone ty nrPages.toNat 0 g.zone = some (i, z) → z.startPfn = 0 →
      ¬ Passes g.bitmap nrPages.toNat 0)
    (h : allocPages g ty nrPages flags = .ok (none, g')) :
    (∀ z ∈ g.zone, z.type = ty → ∀ s, z.startPfn ≤ s → s + nrPages.toNat ≤ z.endPfn →
      ¬ AllClear g.bitmap s nrPages.toNat) ∨
    ∃ i z, findZone ty nrPages.toNat 0 g.zone = some (i, z) ∧
      (∀ b, Probed (nextProbe nrPages.toNat) z.startPfn b → b + nrPages.toNat ≤ z.endPfn →
        ¬ AllClear g.bitmap b nrPages.toNat) ∧
      (∀ s, z.startPfn ≤ s → s + (2 * nrPages.toNat - 1) ≤ z.endPfn →
        ¬ AllClear g.bitmap s (2 * nrPages.toNat - 1)) := by
  obtain ⟨-, hrun⟩ := allocPages_none h
  rcases findRun_eq_ok hrun with ⟨hz, -⟩ | ⟨i, z, found, hz, hs, ⟨h0, -⟩ | ⟨-, hr⟩⟩
  · left
    intro z hz' hty s hs hsn hclear
    have hlt := findZone_none.mp hz z hz' hty
    have hcount := le_clearCount_of_allClear hclear hs hsn
    rw [hexact z hz'] at hlt
    omega
  · right
    refine ⟨i, z, hz, ?_⟩
    obtain ⟨hget, hle⟩ := le_endPfn_of_exact hexact hz
    cases found with
    | none => exact searchZone_misses_no_long_run hn hle (hend z (List.mem_of_getElem? hget)) hs
    | some b =>
        -- the search stopped at frame 0, which `hzero` excludes
        obtain ⟨-, hhit⟩ := searchZone_some hn hs
        have hb0 : b = 0 := h0
        subst hb0
        have hstart := hhit.probed.start_le (lt_nextProbe hn)
        exact absurd hhit.hit (hzero i z hz (by omega))
  · cases hr

/-- Frames 1 to 4 with 1 and 4 taken: two free pages side by side. -/
def skippedState : GlobalMemoryManager where
  e820Entry := []
  bitmap := [0b10010]
  page := []
  zone := [{ totalPages := 4, startPfn := 1, endPfn := 5, type := .zoneDma, nrFree := 2 }]
  total2mPages := 4
  free2mPages := 2
  layout := ⟨0, 0, 0, 0, 0, 0, 0⟩

theorem allocPages_null_skippedState :
    (∀ z ∈ skippedState.zone, z.type = .zoneDma → ∀ s, z.startPfn ≤ s → s + 2 ≤ z.endPfn →
      ¬ AllClear skippedState.bitmap s 2) ∨
    ∃ i z, findZone .zoneDma 2 0 skippedState.zone = some (i, z) ∧
      (∀ b, Probed (nextProbe 2) z.startPfn b → b + 2 ≤ z.endPfn →
        ¬ AllClear skippedState.bitmap b 2) ∧
      (∀ s, z.startPfn ≤ s → s + (2 * 2 - 1) ≤ z.endPfn →
        ¬ AllClear skippedState.bitmap s (2 * 2 - 1)) := by
  refine @allocPages_null skippedState skippedState .zoneDma 2 0 (by decide) (by decide +kernel)
    (by decide) ?_ (by decide +kernel)
  intro i z hz hstart
  cases hz
  cases hstart

/-- The windows probed for two pages are `{1, 2}` and `{3, 4}`; `{2, 3}` is free. -/
theorem search_skips_free_run :
    CountersExact skippedState ∧
    allocPages skippedState .zoneDma 2 0 = .ok (none, skippedState) ∧
    ∃ z ∈ skippedState.zone, z.type = .zoneDma ∧ z.startPfn ≤ 2 ∧ 2 + 2 ≤ z.endPfn ∧
      AllClear skippedState.bitmap 2 2 := by
  refine ⟨by decide +kernel, by decide +kernel, ?_⟩
  exact ⟨_, List.mem_singleton.mpr rfl, rfl, by decide, by decide, by decide⟩

end Knos.Memory
