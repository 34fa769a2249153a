import Knos.Memory.Boot
import Knos.Memory.Search

/-!
# Calls that return

A call of `alloc_pages` or `free_pages` could fail in three ways: an index outside its
table, the halt behind the `fatalk` of `page_init`, or a search that never ends. In the
state that `init_memory` leaves, and in every state of the same shape, frames and
bitmap cover the zones (`Bounded`). Then a request that exceeds no zone it is made to
returns, unless the run has a frame without a zone. The zone loop leaves such frames
only in zones of more than `2^31` pages.
-/

namespace Knos.Memory

open Knos.Loop Knos.Words Knos.JumpSearch

/-! ## §1  States whose tables cover the zones -/

structure Bounded (g : GlobalMemoryManager) : Prop where
  indexed : Indexed g
  limit : ∀ z ∈ g.zone, z.endPfn < 2 ^ 64
  words : ∀ z ∈ g.zone, z.endPfn ≤ 64 * g.bitmap.length
  pages : ∀ z ∈ g.zone, z.endPfn ≤ g.page.length
  homes : ∀ (q : ℕ) (f : PageFrame) (j : ℕ), q ≠ 0 → g.page[q]? = some f → f.zone = some j →
    j < g.zone.length
  orphans : ∀ (q : ℕ) (f : PageFrame), q ≠ 0 → g.page[q]? = some f → f.zone = none →
    ∀ z ∈ g.zone, z.Contains q → 2 ^ 31 < z.totalPages

theorem SameShape.bounded {g g' : GlobalMemoryManager} (h : SameShape g g') (hg : Bounded g) :
    Bounded g' := by
  refine ⟨h.indexed hg.indexed, fun z' hz' => ?_, fun z' hz' => ?_, fun z' hz' => ?_,
    fun q f' j hq hf' hj => ?_, fun q f' hq hf' hnone z' hz' hin => ?_⟩
  · obtain ⟨z, hz, hext⟩ := mem_zone_of_extent h.zones hz'
    rw [← endPfn_of_extent hext]
    exact hg.limit z hz
  · obtain ⟨z, hz, hext⟩ := mem_zone_of_extent h.zones hz'
    rw [← endPfn_of_extent hext, h.words]
    exact hg.words z hz
  · obtain ⟨z, hz, hext⟩ := mem_zone_of_extent h.zones hz'
    rw [← endPfn_of_extent hext, h.page_length]
    exact hg.pages z hz
  · obtain ⟨f, hf, hzone, -⟩ := h.frame hf'
    rw [h.zone_length]
    exact hg.homes q f j hq hf (hzone.trans hj)
  · obtain ⟨f, hf, hzone, -⟩ := h.frame hf'
    obtain ⟨z, hz, hext⟩ := mem_zone_of_extent h.zones hz'
    rw [← totalPages_of_extent hext]
    exact hg.orphans q f hq hf (hzone.trans hnone) z hz ((contains_of_extent hext q).mpr hin)

/-- What the end of `init_memory` leaves of a frame of the zone loop. -/
theorem Booted.frame {buffer : E820Buffer} {endKrnl : ℕ} {s : Boot} (h : Booted buffer endKrnl s)
    {q : ℕ} {f : PageFrame} (hq : q ≠ 0) (hf : s.gmm.page[q]? = some f) :
    ∃ f₀, FrameOf (zonesOf buffer.table) q f₀ ∧ f.zone = f₀.zone ∧ f.pfn = f₀.pfn := by
  obtain ⟨f₀, rfl, -, hpos⟩ := h.frames q f hf
  refine ⟨f₀, hpos hq, ?_⟩
  split
  · exact ⟨rfl, rfl⟩
  · exact ⟨rfl, rfl⟩

theorem Booted.indexed {buffer : E820Buffer} {endKrnl : ℕ} {s : Boot}
    (h : Booted buffer endKrnl s) : Indexed s.gmm := by
  intro q f hf
  by_cases hq : q = 0
  · obtain ⟨f₀, rfl, hzero, -⟩ := h.frames q f hf
    rw [hzero hq, hq]
    split
    · rfl
    · rfl
  · obtain ⟨f₀, hframe, -, hpfn⟩ := h.frame hq hf
    rw [hpfn, hframe.pfn]

theorem Booted.bounded {buffer : E820Buffer} {endKrnl : ℕ} {s : Boot}
    (h : Booted buffer endKrnl s) : Bounded s.gmm := by
  have hmax := maxPfnOf_lt buffer.table
  have hend : ∀ z' ∈ s.gmm.zone, z'.endPfn ≤ maxPfnOf buffer.table := by
    intro z' hz'
    obtain ⟨z, hz, hext⟩ := mem_zone_of_extent h.zones hz'
    rw [← endPfn_of_extent hext]
    exact endPfn_le_of_mem_zonesOf hz
  refine ⟨h.indexed, fun z hz => ?_, fun z hz => ?_, fun z hz => ?_,
    fun q f j hq hf hj => ?_, fun q f hq hf hnone z' hz' hin => ?_⟩
  · have := hend z hz
    omega
  · have := hend z hz
    rw [h.words]
    omega
  · have := hend z hz
    rw [h.frameCount]
    omega
  · obtain ⟨f₀, hframe, hzone, -⟩ := h.frame hq hf
    obtain ⟨z, hz, -⟩ := hframe.home j (hzone.symm.trans hj)
    have hlen := congrArg List.length h.zones
    rw [List.length_map, List.length_map] at hlen
    rw [hlen]
    exact (List.getElem?_eq_some_iff.mp hz).1
  · obtain ⟨f₀, hframe, hzone, -⟩ := h.frame hq hf
    obtain ⟨z, hz, hext⟩ := mem_zone_of_extent h.zones hz'
    have hin₀ := (contains_of_extent hext q).mpr hin
    have horphan := hframe.orphan (hzone.symm.trans hnone) z hz
    rw [initialised_iff hz] at horphan
    have hfar : ¬ q < z.startPfn + 2 ^ 31 := fun hlt => horphan ⟨hin₀, hlt⟩
    have htotal := totalPages_of_mem hz
    have hq₂ : q < z.endPfn := hin₀.2
    rw [← totalPages_of_extent hext]
    omega

/-! ## §2  `alloc_pages` -/

section Alloc

variable {g : GlobalMemoryManager} {ty : MemoryZoneType}

/-- The search ends when the zone that is chosen does not end below the request. -/
theorem findRun_returns (hb : Bounded g) {n : ℕ} (hn : 1 ≤ n)
    (hle : ∀ i z, findZone ty n 0 g.zone = some (i, z) → n ≤ z.endPfn) :
    ∃ r, findRun g ty n = .ok r := by
  unfold findRun
  cases hz : findZone ty n 0 g.zone with
  | none => exact ⟨none, rfl⟩
  | some iz =>
      obtain ⟨i, z⟩ := iz
      have hmem := List.mem_of_getElem? (findZone_some hz).2.1
      obtain ⟨found, hfound⟩ := searchZone_returns hn (hle i z hz) (hb.limit z hmem)
        (hb.words z hmem)
      simp only [hfound, ok_bind]
      split
      · exact ⟨_, rfl⟩
      · exact ⟨_, rfl⟩

/-- `page_init` returns on a frame that has a zone, and halts on one that has none. -/
theorem pageInit_ends {q : ℕ} {f : PageFrame} (flags : BitVec 32) (hf : g.page[q]? = some f)
    (hhome : ∀ j, f.zone = some j → j < g.zone.length) :
    (∃ g', pageInit g (some q) flags = .ok g') ∨
      (f.zone = none ∧ pageInit g (some q) flags = .error .halted) := by
  unfold pageInit
  simp only [hf]
  cases hzone : f.zone with
  | none => exact Or.inr ⟨rfl, rfl⟩
  | some j =>
      left
      simp only [if_pos (hhome j hzone)]
      split
      · exact ⟨_, rfl⟩
      · split
        · exact ⟨_, rfl⟩
        · exact ⟨_, rfl⟩

/-- Step 3 ends for a run inside the tables, and halts only at a frame without a zone. -/
theorem forRange_markPage_ends (flags : BitVec 32) {p n : ℕ} (hp : p ≠ 0)
    (hpages : p + n ≤ g.page.length) (hwords : p + n ≤ 64 * g.bitmap.length)
    (hhomes : ∀ (q : ℕ) (f : PageFrame) (j : ℕ), q ≠ 0 → g.page[q]? = some f → f.zone = some j →
      j < g.zone.length) :
    (∃ g', forRange (markPage flags) p n g = .ok g') ∨
      (forRange (markPage flags) p n g = .error .halted ∧
        ∃ q f, p ≤ q ∧ q < p + n ∧ g.page[q]? = some f ∧ f.zone = none) := by
  have hends := @forRange_ends _ _ (markPage flags)
    (fun e => e = .halted ∧ ∃ q f, p ≤ q ∧ q < p + n ∧ g.page[q]? = some f ∧ f.zone = none)
    n (fun _ s => SameShape g s) p g ?_ (SameShape.refl g)
  · rcases hends with ⟨g', hrun, -⟩ | ⟨e, hrun, rfl, hq⟩
    · exact Or.inl ⟨g', hrun⟩
    · exact Or.inr ⟨hrun, hq⟩
  · intro i s hi hs
    generalize hq : p + i = q
    have hword : q / 64 < s.bitmap.length := by
      rw [hs.words]
      omega
    have hlen : q < s.page.length := by
      rw [hs.page_length]
      omega
    have hf := List.getElem?_eq_getElem hlen
    obtain ⟨f, hf₀, hzone, -⟩ := hs.frame hf
    have hhome : ∀ j, (s.page[q]).zone = some j → j < s.zone.length := by
      intro j hj
      rw [hs.zone_length]
      exact hhomes q f j (by omega) hf₀ (hzone.trans hj)
    have hmark : markPage flags q s =
        pageInit { s with bitmap := setBit s.bitmap q } (some q) flags := by
      rw [markPage, setBitmapBit_eq_ok.mpr ⟨hword, rfl⟩, ok_bind]
    rcases @pageInit_ends { s with bitmap := setBit s.bitmap q } q _ flags hf hhome with
      ⟨s', hrun⟩ | ⟨hnone, hrun⟩
    · left
      rw [← hmark] at hrun
      obtain ⟨-, -, -, -, -, hshape, -⟩ := markPage_eq_ok hrun
      exact ⟨s', hrun, hs.trans hshape⟩
    · right
      rw [← hmark] at hrun
      exact ⟨.halted, hrun, rfl, q, f, by omega, by omega, hf₀, hzone.trans hnone⟩

/-- **`alloc_pages` returns**, or halts in a zone of more than `2^31` pages. -/
theorem allocPages_ends (hb : Bounded g) {nrPages : BitVec 32} (flags : BitVec 32)
    (hn : 1 ≤ nrPages.toNat)
    (hle : ∀ i z, findZone ty nrPages.toNat 0 g.zone = some (i, z) → nrPages.toNat ≤ z.endPfn) :
    (∃ r, allocPages g ty nrPages flags = .ok r) ∨
      (allocPages g ty nrPages flags = .error .halted ∧ ∃ z ∈ g.zone, 2 ^ 31 < z.totalPages) := by
  obtain ⟨r, hr⟩ := findRun_returns hb hn hle
  unfold allocPages
  rw [hr, ok_bind]
  cases r with
  | none => exact Or.inl ⟨_, rfl⟩
  | some ip =>
      obtain ⟨i, p⟩ := ip
      obtain ⟨z, hz, hp, hlim, hhit⟩ := findRun_some hn hr
      have hmem := List.mem_of_getElem? (findZone_some hz).2.1
      obtain ⟨hstart, hend⟩ := run_in_zone hn (hle i z hz) (hb.limit z hmem) hlim hhit
      rcases forRange_markPage_ends flags hp (le_trans hend (hb.pages z hmem))
        (le_trans hend (hb.words z hmem)) hb.homes with ⟨g₁, hrun⟩ | ⟨hrun, q, f, hq, hqn, hf, hnone⟩
      · left
        simp only [hrun, ok_bind]
        exact ⟨_, rfl⟩
      · right
        simp only [hrun, error_bind]
        exact ⟨trivial, z, hmem, hb.orphans q f (by omega) hf hnone z hmem ⟨by omega, by omega⟩⟩

end Alloc

/-! ## §3  `free_pages` -/

theorem freePage_returns {g : GlobalMemoryManager} {j q : ℕ} {f : PageFrame}
    (hf : g.page[q]? = some f) (hword : f.pfn / 64 < g.bitmap.length) (hj : j < g.zone.length) :
    ∃ g', freePage j q g = .ok g' := by
  unfold freePage
  simp only [hf, clearBitmapBit_eq_ok.mpr ⟨hword, rfl⟩, ok_bind, if_pos hj]
  by_cases hfree : f.flags &&& pageUsed = 0#32
  · exact ⟨_, if_pos hfree⟩
  · rw [if_neg hfree]
    by_cases hshared : 0 < f.refCount ∧ 0 < decRef f.refCount
    · exact ⟨_, if_pos hshared⟩
    · exact ⟨_, if_neg hshared⟩

/-- **`free_pages` returns** on a run of frames that exist. -/
theorem freePages_returns {g : GlobalMemoryManager} (hb : Bounded g) {p : ℕ} {nrPages : BitVec 32}
    (hp : nrPages ≠ 0#32 → p ≠ 0) (hpages : ∀ q, p ≤ q → q < p + nrPages.toNat →
      q < g.page.length ∧ q / 64 < g.bitmap.length) :
    ∃ g', freePages g (some p) nrPages = .ok g' := by
  unfold freePages
  by_cases hn : nrPages = 0#32
  · simp only [if_pos hn]
    exact ⟨g, rfl⟩
  · have hpos : nrPages.toNat ≠ 0 := toNat_ne_zero hn
    have hlen := (hpages p (Nat.le_refl p) (by omega)).1
    have hf := List.getElem?_eq_getElem hlen
    simp only [if_neg hn, hf]
    cases hzone : (g.page[p]).zone with
    | none => exact ⟨g, rfl⟩
    | some j =>
        have hj := hb.homes p _ j (hp hn) hf hzone
        have hpfn := hb.indexed p _ hf
        simp only [hpfn, if_neg (Nat.not_le.mpr hlen)]
        have hloop := @forRange_returns _ _ (freePage j) (fun _ s => SameShape g s) p
          nrPages.toNat g ?_ (SameShape.refl g)
        · obtain ⟨g', hrun, -⟩ := hloop
          exact ⟨g', hrun⟩
        · intro i s hi hs
          obtain ⟨hpage, hword⟩ := hpages (p + i) (Nat.le_add_right p i) (by omega)
          have hindex := hs.indexed hb.indexed
          have hf' := List.getElem?_eq_getElem (show p + i < s.page.length by rwa [hs.page_length])
          obtain ⟨s', hrun⟩ := @freePage_returns s j (p + i) _ hf'
            (by rwa [hindex _ _ hf', hs.words]) (by rwa [hs.zone_length])
          obtain ⟨-, -, hshape, -⟩ := freePage_effect hindex hrun
          exact ⟨s', hrun, hs.trans hshape⟩

end Knos.Memory
