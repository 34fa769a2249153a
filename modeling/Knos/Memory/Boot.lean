import Knos.Memory.Effects
import Knos.Memory.Tables

/-!
# The state that `init_memory` leaves

What the phases after the zone loop do to bitmap and frames (§1, §2), and from it the
state at the end in terms of the input (`Booted`, §3): which bits are set, which
frame belongs to which zone, where the tables lie. `init_memory` returns iff the page
of its bitmap test and the pages of its tables exist; §4 adds the indices it uses on
the other arrays.
-/

namespace Knos.Memory

open Knos.Loop Knos.Words

/-! ## §1  Reserving the pages of the tables -/

theorem chargeZone_eq (pfn : ℕ) (g : GlobalMemoryManager) :
    chargeZone pfn g = g ∨ ∃ i, chargeZone pfn g = g.takeFree i 1 := by
  unfold chargeZone
  split
  · exact Or.inr ⟨_, rfl⟩
  · exact Or.inl rfl

/-- `chargeZone` touches counters only. -/
theorem chargeZone_frame (pfn : ℕ) (g : GlobalMemoryManager) : SameShape g (chargeZone pfn g) ∧
    (chargeZone pfn g).bitmap = g.bitmap ∧ (chargeZone pfn g).page = g.page ∧
    (chargeZone pfn g).e820Entry = g.e820Entry := by
  rcases chargeZone_eq pfn g with h | ⟨i, h⟩
  · rw [h]
    exact ⟨SameShape.refl g, rfl, rfl, rfl⟩
  · rw [h]
    exact ⟨sameShape_takeFree g i 1, rfl, rfl, rfl⟩

/-- Everything `reserveKernelPage` does when it returns. -/
theorem reserveKernelPage_eq_ok {g g' : GlobalMemoryManager} {q : ℕ}
    (h : reserveKernelPage q g = .ok g') :
    q / 64 < g.bitmap.length ∧ ∃ f, g.page[q]? = some f ∧ SameShape g g' ∧
      g'.bitmap = setBit g.bitmap q ∧ g'.page = g.page.set q f.ofKernel ∧
      g'.e820Entry = g.e820Entry := by
  unfold reserveKernelPage at h
  rw [bind_eq_ok] at h
  obtain ⟨bitmap, hbitmap, h⟩ := h
  obtain ⟨hlt, rfl⟩ := setBitmapBit_eq_ok.mp hbitmap
  refine ⟨hlt, ?_⟩
  cases hf : g.page[q]? with
  | none =>
      rw [hf] at h
      cases h
  | some f =>
      rw [hf] at h
      cases h
      have hset : SameShape g { g with bitmap := setBit g.bitmap q } :=
        ⟨length_setBit _ _, rfl, rfl, rfl⟩
      have hframe := sameShape_setFrame { g with bitmap := setBit g.bitmap q } q f.ofKernel hf rfl
      obtain ⟨hshape, hbits, hpage, htable⟩ :=
        chargeZone_frame q (({ g with bitmap := setBit g.bitmap q }).setFrame q f.ofKernel)
      exact ⟨f, rfl, (hset.trans hframe).trans hshape, hbits, hpage, htable⟩

theorem reserveKernelPage_returns {g : GlobalMemoryManager} {q : ℕ}
    (hq : q / 64 < g.bitmap.length) (hf : q < g.page.length) :
    ∃ g', reserveKernelPage q g = .ok g' := by
  unfold reserveKernelPage
  rw [setBitmapBit_eq_ok.mpr ⟨hq, rfl⟩, ok_bind, List.getElem?_eq_getElem hf]
  exact ⟨_, rfl⟩

/-- `g'` is `g` with the `n` pages from `a` on reserved for the tables. -/
structure KernelReserved (a n : ℕ) (g g' : GlobalMemoryManager) : Prop where
  shape : SameShape g g'
  table : g'.e820Entry = g.e820Entry
  exist : ∀ q, a ≤ q → q < a + n → q < g.page.length
  bits : ∀ q, bitAt g'.bitmap q = if a ≤ q ∧ q < a + n then some true else bitAt g.bitmap q
  frames : ∀ q, g'.page[q]? =
    if a ≤ q ∧ q < a + n then (g.page[q]?).map PageFrame.ofKernel else g.page[q]?

theorem KernelReserved.none (a : ℕ) (g : GlobalMemoryManager) : KernelReserved a 0 g g where
  shape := SameShape.refl g
  table := rfl
  exist := fun q h₁ h₂ => by omega
  bits := fun q => by rw [if_neg (by omega)]
  frames := fun q => by rw [if_neg (by omega)]

theorem KernelReserved.snoc {a n : ℕ} {g g₁ g₂ : GlobalMemoryManager}
    (h : KernelReserved a n g g₁) (hstep : reserveKernelPage (a + n) g₁ = .ok g₂) :
    KernelReserved a (n + 1) g g₂ := by
  obtain ⟨hlt, f, hf, hshape, hbitmap, hpage, htable⟩ := reserveKernelPage_eq_ok hstep
  have hlen := (List.getElem?_eq_some_iff.mp hf).1
  have hframe : g.page[a + n]? = some f := by
    have := h.frames (a + n)
    rwa [hf, if_neg (by omega), eq_comm] at this
  refine ⟨h.shape.trans hshape, htable.trans h.table, fun q h₁ h₂ => ?_, fun q => ?_, fun q => ?_⟩
  · by_cases hq : q = a + n
    · rw [hq, ← h.shape.page_length]
      exact hlen
    · exact h.exist q h₁ (by omega)
  · rw [hbitmap, bitAt_setBit (by omega) hlt, h.bits]
    exact ite_run_succ fun _ => rfl
  · rw [hpage, getElem?_set_of_lt hlen, h.frames]
    exact ite_run_succ fun hq => by rw [hq, hframe, Option.map_some]

theorem kernelReserved_of_forRange {a n : ℕ} {g g' : GlobalMemoryManager}
    (h : forRange reserveKernelPage a n g = .ok g') : KernelReserved a n g g' := by
  exact forRange_invariant (fun n s => KernelReserved a n g s)
    (fun n s s' _ hs hstep => hs.snoc hstep) (KernelReserved.none a g) h

/-- The loop returns when all its pages exist, and the bitmap covers the pages. -/
theorem forRange_reserve_returns {a n : ℕ} {g : GlobalMemoryManager}
    (hpages : n = 0 ∨ a + n ≤ g.page.length) (hcover : g.page.length ≤ 64 * g.bitmap.length) :
    ∃ g', forRange reserveKernelPage a n g = .ok g' := by
  rcases hpages with rfl | hpages
  · exact ⟨g, rfl⟩
  · have hloop := @forRange_returns _ _ reserveKernelPage (fun _ s => SameShape g s) a n g
      (fun i s hi hs => by
        have hwords := hs.words
        obtain ⟨s', hrun⟩ := @reserveKernelPage_returns s (a + i) (by omega)
          (by rw [hs.page_length]; omega)
        obtain ⟨-, f, -, hshape, -⟩ := reserveKernelPage_eq_ok hrun
        exact ⟨s', hrun, hs.trans hshape⟩) (SameShape.refl g)
    obtain ⟨g', hrun, -⟩ := hloop
    exact ⟨g', hrun⟩

/-! ## §2  Page 0 and the bitmap test -/

/-- The first frame of the first zone; 0 when there is none. -/
def firstPfnOf (entries : List E820Entry) : ℕ :=
  match zonesOf entries with
  | zone :: _ => zone.startPfn
  | [] => 0

/-- The state after the reset of page 0. -/
structure PageZeroReset (buffer : E820Buffer) (s : Boot) : Prop where
  table : s.gmm.e820Entry = buffer.table
  maxPfn : s.maxPfn = maxPfnOf buffer.table
  zones : s.gmm.zone = zonesOf buffer.table
  words : s.gmm.bitmap.length = (maxPfnOf buffer.table + 64) / 64
  bits : ∀ q, bitAt s.gmm.bitmap q = some true ↔ MarkedOut buffer.table q ∧ q ≠ 0
  frameCount : s.gmm.page.length = maxPfnOf buffer.table + 1
  frames : ∀ q f, s.gmm.page[q]? = some f →
    (q = 0 → f = PageFrame.ofZone 0 0) ∧ (q ≠ 0 → FrameOf (zonesOf buffer.table) q f)
  accesses : s.accesses = passAccesses buffer

theorem resetPageZero_returns {buffer : E820Buffer} {s : Boot} (h : Constructed buffer s) :
    ∃ s₁, resetPageZero s = .ok s₁ ∧ PageZeroReset buffer s₁ := by
  have hwords := h.words
  have hlen : 0 < s.gmm.page.length := by
    rw [h.frameCount]
    exact Nat.succ_pos _
  have hword : 0 / 64 < s.gmm.bitmap.length := by omega
  have hrun : resetPageZero s = .ok { s with gmm := { s.gmm with
      bitmap := clearBit s.gmm.bitmap 0
      page := s.gmm.page.set 0 (PageFrame.ofZone 0 0) } } := by
    rw [resetPageZero, clearBitmapBit_eq_ok.mpr ⟨hword, rfl⟩, ok_bind, if_pos hlen]
  refine ⟨_, hrun, h.table, h.maxPfn, h.zones, (length_clearBit _ _).trans h.words,
    fun q => ?_, List.length_set.trans h.frameCount, fun q f hf => ?_, h.accesses⟩
  · show bitAt (clearBit s.gmm.bitmap 0) q = _ ↔ _
    rw [bitAt_clearBit (by omega) hword, ← h.bits]
    by_cases hq : q = 0
    · simp [hq]
    · simp [hq]
  · have hf' : (s.gmm.page.set 0 (PageFrame.ofZone 0 0))[q]? = some f := hf
    rw [getElem?_set_of_lt hlen] at hf'
    by_cases hq : q = 0
    · rw [if_pos hq] at hf'
      cases hf'
      exact ⟨fun _ => rfl, fun hne => absurd hq hne⟩
    · rw [if_neg hq] at hf'
      exact ⟨fun h0 => absurd h0 hq, fun _ => h.frames q f hf'⟩

theorem firstPfn_eq {entries : List E820Entry} {g : GlobalMemoryManager}
    (hzones : g.zone = zonesOf entries) (htable : g.e820Entry = entries) :
    firstPfn g = if entries = [] then .error (.outOfBounds .zone 0)
      else .ok (firstPfnOf entries) := by
  unfold firstPfn firstPfnOf
  rw [hzones, htable]
  cases entries with
  | nil => rfl
  | cons e es =>
      rw [if_neg (List.cons_ne_nil e es)]
      cases zonesOf (e :: es) with
      | nil => exact if_pos (Nat.succ_pos _)
      | cons z zs => rfl

theorem testBitmap_returns {s : Boot} {first : ℕ} (hfirst : firstPfn s.gmm = .ok first)
    (hlt : (first + 10) / 64 < s.gmm.bitmap.length) :
    testBitmap s = .ok { s with
      gmm := { s.gmm with
        bitmap := clearBit (setBit s.gmm.bitmap (first + 10)) (first + 10) }
      accesses := s.accesses ++ [⟨.zone, 0, s.gmm.zone.length⟩,
        ⟨.zone, sub64 s.gmm.zone.length 1, s.gmm.zone.length⟩] } := by
  unfold testBitmap
  rw [hfirst, ok_bind, setBitmapBit_eq_ok.mpr ⟨hlt, rfl⟩, ok_bind,
    clearBitmapBit_eq_ok.mpr ⟨by rwa [length_setBit], rfl⟩, ok_bind]

theorem testBitmap_faults {s : Boot} {first : ℕ} (hfirst : firstPfn s.gmm = .ok first)
    (hge : ¬ (first + 10) / 64 < s.gmm.bitmap.length) : ∃ e, testBitmap s = .error e := by
  unfold testBitmap setBitmapBit
  rw [hfirst, ok_bind, if_neg hge]
  exact ⟨_, rfl⟩

/-- The bits after the test: the bit of the test page ends up clear. -/
theorem testBitmap_bits {bitmap : List Word} {p : ℕ} (hp : p / 64 < bitmap.length) (q : ℕ) :
    bitAt (clearBit (setBit bitmap p) p) q = if q = p then some false else bitAt bitmap q := by
  rw [bitAt_clearBit (by omega) (by rwa [length_setBit]), bitAt_setBit (by omega) hp]
  by_cases hq : q = p
  · rw [if_pos hq, if_pos hq]
  · rw [if_neg hq, if_neg hq, if_neg hq]

/-! ## §3  The state at the end -/

/-- Page `q` is reserved for the tables. -/
def TablePage (buffer : E820Buffer) (endKrnl q : ℕ) : Prop :=
  firstTablePage endKrnl ≤ q ∧
    q < endTablePage endKrnl (maxPfnOf buffer.table) (zonesOf buffer.table).length

instance (buffer : E820Buffer) (endKrnl q : ℕ) : Decidable (TablePage buffer endKrnl q) :=
  inferInstanceAs (Decidable (_ ∧ _))

/-- The page of the bitmap test and the pages of the tables exist. -/
def Fits (buffer : E820Buffer) (endKrnl : ℕ) : Prop :=
  buffer.table ≠ [] ∧
  (firstPfnOf buffer.table + 10) / 64 < (maxPfnOf buffer.table + 64) / 64 ∧
  ∀ q, TablePage buffer endKrnl q → q ≤ maxPfnOf buffer.table

/-- The state at the end of `init_memory` in terms of its input. -/
structure Booted (buffer : E820Buffer) (endKrnl : ℕ) (s : Boot) : Prop where
  fits : Fits buffer endKrnl
  maxPfn : s.maxPfn = maxPfnOf buffer.table
  layout : s.gmm.layout =
    placeTables endKrnl (maxPfnOf buffer.table) (zonesOf buffer.table).length
  zones : s.gmm.zone.map MemoryZone.extent = (zonesOf buffer.table).map MemoryZone.extent
  words : s.gmm.bitmap.length = (maxPfnOf buffer.table + 64) / 64
  bits : ∀ q, bitAt s.gmm.bitmap q = some true ↔
    (MarkedOut buffer.table q ∧ q ≠ 0 ∧ q ≠ firstPfnOf buffer.table + 10) ∨
      TablePage buffer endKrnl q
  frameCount : s.gmm.page.length = maxPfnOf buffer.table + 1
  frames : ∀ q f, s.gmm.page[q]? = some f →
    ∃ f₀, f = (if TablePage buffer endKrnl q then f₀.ofKernel else f₀) ∧
      (q = 0 → f₀ = PageFrame.ofZone 0 0) ∧ (q ≠ 0 → FrameOf (zonesOf buffer.table) q f₀)
  accesses : s.accesses = passAccesses buffer ++
    [⟨.zone, 0, (zonesOf buffer.table).length⟩,
      ⟨.zone, sub64 (zonesOf buffer.table).length 1, (zonesOf buffer.table).length⟩]

/-- The state in which the pages of the tables are reserved. -/
structure Tested (buffer : E820Buffer) (endKrnl : ℕ) (s : Boot) : Prop where
  maxPfn : s.maxPfn = maxPfnOf buffer.table
  layout : s.gmm.layout =
    placeTables endKrnl (maxPfnOf buffer.table) (zonesOf buffer.table).length
  zones : s.gmm.zone = zonesOf buffer.table
  words : s.gmm.bitmap.length = (maxPfnOf buffer.table + 64) / 64
  bits : ∀ q, bitAt s.gmm.bitmap q = some true ↔
    MarkedOut buffer.table q ∧ q ≠ 0 ∧ q ≠ firstPfnOf buffer.table + 10
  frameCount : s.gmm.page.length = maxPfnOf buffer.table + 1
  frames : ∀ q f, s.gmm.page[q]? = some f →
    (q = 0 → f = PageFrame.ofZone 0 0) ∧ (q ≠ 0 → FrameOf (zonesOf buffer.table) q f)
  accesses : s.accesses = passAccesses buffer ++
    [⟨.zone, 0, (zonesOf buffer.table).length⟩,
      ⟨.zone, sub64 (zonesOf buffer.table).length 1, (zonesOf buffer.table).length⟩]

/-- The bitmap test on a state in which its page has a bit. -/
theorem PageZeroReset.tested {buffer : E820Buffer} {s : Boot} (h : PageZeroReset buffer s)
    (endKrnl : ℕ) (htable : buffer.table ≠ [])
    (htest : (firstPfnOf buffer.table + 10) / 64 < (maxPfnOf buffer.table + 64) / 64) :
    ∃ t, testBitmap s = .ok t ∧ Tested buffer endKrnl (t.place endKrnl) := by
  have hfirst := firstPfn_eq h.zones h.table
  rw [if_neg htable] at hfirst
  have hlt : (firstPfnOf buffer.table + 10) / 64 < s.gmm.bitmap.length := by
    rwa [h.words]
  refine ⟨_, testBitmap_returns hfirst hlt, h.maxPfn, ?_, h.zones, ?_, fun q => ?_,
    h.frameCount, h.frames, ?_⟩
  · show placeTables endKrnl s.maxPfn s.gmm.zone.length = _
    rw [h.maxPfn, h.zones]
  · show (clearBit (setBit s.gmm.bitmap _) _).length = _
    rw [length_clearBit, length_setBit, h.words]
  · show bitAt (clearBit (setBit s.gmm.bitmap _) _) q = _ ↔ _
    rw [testBitmap_bits hlt, ← and_assoc, ← h.bits]
    by_cases hq : q = firstPfnOf buffer.table + 10
    · simp [hq]
    · simp [hq]
  · show s.accesses ++ [⟨.zone, 0, s.gmm.zone.length⟩,
      ⟨.zone, sub64 s.gmm.zone.length 1, s.gmm.zone.length⟩] = _
    rw [h.accesses, h.zones]

/-- The phases up to the reservation return iff there is an entry and the page of the
bitmap test has a bit. -/
theorem initMemory_tested (buffer : E820Buffer) (endKrnl : ℕ) :
    (∃ e, initMemory buffer endKrnl = .error e ∧ ¬ (buffer.table ≠ [] ∧
      (firstPfnOf buffer.table + 10) / 64 < (maxPfnOf buffer.table + 64) / 64)) ∨
    (buffer.table ≠ [] ∧
      (firstPfnOf buffer.table + 10) / 64 < (maxPfnOf buffer.table + 64) / 64 ∧
      ∃ s, initMemory buffer endKrnl = reserveKernel s ∧ Tested buffer endKrnl s) := by
  obtain ⟨s, hrun, hs⟩ := constructZones_returns buffer
  obtain ⟨s₁, hrun₁, hs₁⟩ := resetPageZero_returns hs
  have hfirst := firstPfn_eq hs₁.zones hs₁.table
  have hinit : initMemory buffer endKrnl =
      (testBitmap s₁ >>= fun s => reserveKernel (s.place endKrnl)) := by
    unfold initMemory
    rw [hrun, ok_bind, hrun₁, ok_bind]
  rw [hinit]
  by_cases htable : buffer.table = []
  · left
    rw [if_pos htable] at hfirst
    refine ⟨.outOfBounds .zone 0, ?_, fun h => h.1 htable⟩
    rw [testBitmap, hfirst]
    rfl
  · by_cases htest : (firstPfnOf buffer.table + 10) / 64 < (maxPfnOf buffer.table + 64) / 64
    · obtain ⟨t, ht, htested⟩ := hs₁.tested endKrnl htable htest
      exact Or.inr ⟨htable, htest, t.place endKrnl, by rw [ht, ok_bind], htested⟩
    · left
      rw [if_neg htable] at hfirst
      obtain ⟨e, he⟩ := testBitmap_faults hfirst (by rwa [hs₁.words])
      exact ⟨e, by rw [he]; rfl, fun h => htest h.2⟩

section Ends

variable {buffer : E820Buffer} {endKrnl : ℕ}

/-- The reservation turns `Tested` into `Booted`. -/
theorem Tested.booted {s : Boot} {g : GlobalMemoryManager} (h : Tested buffer endKrnl s)
    (htable : buffer.table ≠ [])
    (htest : (firstPfnOf buffer.table + 10) / 64 < (maxPfnOf buffer.table + 64) / 64)
    (hg : KernelReserved (firstTablePage endKrnl)
      (endTablePage endKrnl (maxPfnOf buffer.table) (zonesOf buffer.table).length -
        firstTablePage endKrnl) s.gmm g) :
    Booted buffer endKrnl { s with gmm := g } := by
  have hin : ∀ q, (firstTablePage endKrnl ≤ q ∧ q < firstTablePage endKrnl +
      (endTablePage endKrnl (maxPfnOf buffer.table) (zonesOf buffer.table).length -
        firstTablePage endKrnl)) ↔ TablePage buffer endKrnl q := by
    intro q
    unfold TablePage
    omega
  refine ⟨⟨htable, htest, fun q hq => ?_⟩, h.maxPfn, hg.shape.layout.trans h.layout, ?_, ?_,
    fun q => ?_, ?_, fun q f hf => ?_, h.accesses⟩
  · have hrange := (hin q).mpr hq
    have := hg.exist q hrange.1 hrange.2
    rw [h.frameCount] at this
    omega
  · rw [hg.shape.zones, h.zones]
  · rw [hg.shape.words, h.words]
  · rw [hg.bits, ← h.bits]
    by_cases hq : TablePage buffer endKrnl q
    · rw [if_pos ((hin q).mpr hq)]
      exact ⟨fun _ => Or.inr hq, fun _ => rfl⟩
    · rw [if_neg (fun hr => hq ((hin q).mp hr))]
      exact ⟨Or.inl, fun hb => hb.resolve_right hq⟩
  · rw [hg.shape.page_length, h.frameCount]
  · have hf' : g.page[q]? = some f := hf
    rw [hg.frames] at hf'
    by_cases hq : TablePage buffer endKrnl q
    · rw [if_pos ((hin q).mpr hq), Option.map_eq_some_iff] at hf'
      obtain ⟨f₀, hf₀, rfl⟩ := hf'
      exact ⟨f₀, by rw [if_pos hq], (h.frames q f₀ hf₀).1, (h.frames q f₀ hf₀).2⟩
    · rw [if_neg (fun hr => hq ((hin q).mp hr))] at hf'
      exact ⟨f, by rw [if_neg hq], (h.frames q f hf').1, (h.frames q f hf').2⟩

variable (hend : physToVirtBase ≤ endKrnl) (hlt : endKrnl < 2 ^ 64)

include hend hlt

theorem reserveKernel_eq {s : Boot} (h : Tested buffer endKrnl s) : reserveKernel s =
    (forRange reserveKernelPage (firstTablePage endKrnl)
      (endTablePage endKrnl (maxPfnOf buffer.table) (zonesOf buffer.table).length -
        firstTablePage endKrnl) s.gmm >>= fun g => .ok { s with gmm := g }) := by
  have hzones := length_zonesOf_le buffer
  have hpages := @reserved_eq endKrnl (maxPfnOf buffer.table) (zonesOf buffer.table).length
    hend hlt (maxPfnOf_lt _) (by omega)
  unfold reserveKernel
  simp only [h.layout, hpages.1, hpages.2]

/-- **The state that `init_memory` leaves**, for any memory map and any image. -/
theorem initMemory_booted {s : Boot} (h : initMemory buffer endKrnl = .ok s) :
    Booted buffer endKrnl s := by
  rcases initMemory_tested buffer endKrnl with ⟨e, he, -⟩ | ⟨htable, htest, t, ht, htested⟩
  · rw [he] at h
    cases h
  · rw [ht, reserveKernel_eq hend hlt htested, bind_eq_ok] at h
    obtain ⟨g, hloop, hs⟩ := h
    cases hs
    exact htested.booted htable htest (kernelReserved_of_forRange hloop)

/-- `init_memory` returns iff the pages it writes to exist. -/
theorem initMemory_returns_iff :
    (∃ s, initMemory buffer endKrnl = .ok s) ↔ Fits buffer endKrnl := by
  constructor
  · rintro ⟨s, hs⟩
    exact (initMemory_booted hend hlt hs).fits
  · rintro ⟨htable, htest, hpages⟩
    rcases initMemory_tested buffer endKrnl with ⟨e, -, hne⟩ | ⟨-, -, t, ht, htested⟩
    · exact absurd ⟨htable, htest⟩ hne
    · have hframes := htested.frameCount
      have hwords := htested.words
      have hfit : endTablePage endKrnl (maxPfnOf buffer.table) (zonesOf buffer.table).length -
          firstTablePage endKrnl = 0 ∨ firstTablePage endKrnl +
          (endTablePage endKrnl (maxPfnOf buffer.table) (zonesOf buffer.table).length -
            firstTablePage endKrnl) ≤ t.gmm.page.length := by
        by_cases hempty : endTablePage endKrnl (maxPfnOf buffer.table)
            (zonesOf buffer.table).length ≤ firstTablePage endKrnl
        · exact Or.inl (Nat.sub_eq_zero_of_le hempty)
        · right
          have hlast := hpages (endTablePage endKrnl (maxPfnOf buffer.table)
            (zonesOf buffer.table).length - 1) ⟨by omega, by omega⟩
          omega
      obtain ⟨g, hloop⟩ := forRange_reserve_returns hfit (by omega)
      exact ⟨{ t with gmm := g }, by rw [ht, reserveKernel_eq hend hlt htested, hloop]; rfl⟩

end Ends

/-- The state that `buffer` and `endKrnl` lead to, where `init_memory` returns. -/
def bootOf (buffer : E820Buffer) (endKrnl : ℕ) : Boot :=
  (initMemory buffer endKrnl).toOption.getD ⟨GlobalMemoryManager.zeroed, 0, []⟩

theorem bootOf_eq {buffer : E820Buffer} {endKrnl : ℕ}
    (h : (initMemory buffer endKrnl).isOk = true) :
    initMemory buffer endKrnl = .ok (bootOf buffer endKrnl) := by
  unfold bootOf
  cases hrun : initMemory buffer endKrnl with
  | error e =>
      rw [hrun] at h
      cases h
  | ok s => rfl

/-- The end of an image of 256 KB. -/
def smallImage : ℕ := textAddr + 0x40000

theorem smallMachine_boots :
    initMemory smallMachine smallImage = .ok (bootOf smallMachine smallImage) :=
  bootOf_eq (by decide +kernel)

/-! ## §4  The indices used -/

/-- Every type has a name, there is a zone, there are no more zones than entries, and the
pages that `init_memory` writes to exist. -/
def IndicesFit (buffer : E820Buffer) (endKrnl : ℕ) : Prop :=
  (∀ e ∈ buffer.table, e.type.toNat ≤ 4) ∧
  (1 ≤ (zonesOf buffer.table).length ∧ (zonesOf buffer.table).length ≤ buffer.table.length) ∧
  (firstPfnOf buffer.table + 10) / 64 < (maxPfnOf buffer.table + 64) / 64 ∧
  ∀ q, TablePage buffer endKrnl q → q ≤ maxPfnOf buffer.table

theorem count_le (buffer : E820Buffer) : buffer.count ≤ e820MaxEntries := by
  unfold E820Buffer.count
  split <;> omega

theorem passAccesses_inBounds_iff (buffer : E820Buffer) :
    (∀ a ∈ passAccesses buffer, a.InBounds) ↔
      (∀ e ∈ buffer.table, e.type.toNat ≤ 4) ∧
        (zonesOf buffer.table).length ≤ buffer.table.length := by
  unfold passAccesses
  rw [List.forall_mem_append, List.forall_mem_append, List.forall_mem_map, List.forall_mem_map,
    List.forall_mem_map]
  constructor
  · rintro ⟨⟨-, htypes⟩, hzones⟩
    refine ⟨fun e he => Nat.lt_succ_iff.mp (htypes e he), ?_⟩
    by_contra hlt
    have := hzones buffer.table.length (List.mem_range.mpr (by omega))
    exact absurd this (Nat.lt_irrefl _)
  · rintro ⟨htypes, hzones⟩
    exact ⟨⟨fun i hi => Nat.lt_of_lt_of_le (List.mem_range.mp hi) (count_le buffer),
      fun e he => Nat.lt_succ_iff.mpr (htypes e he)⟩,
      fun i hi => Nat.lt_of_lt_of_le (List.mem_range.mp hi) hzones⟩

/-- **Every index lies in its array exactly when the table fits.** -/
theorem indices_in_bounds (buffer : E820Buffer) (endKrnl : ℕ) (htext : textAddr ≤ endKrnl)
    (hlt : endKrnl < 2 ^ 64) :
    (∃ s, initMemory buffer endKrnl = .ok s ∧ ∀ a ∈ s.accesses, a.InBounds) ↔
      IndicesFit buffer endKrnl := by
  have hend : physToVirtBase ≤ endKrnl := le_trans (Nat.le_add_right _ _) htext
  have hzones := length_zonesOf_le buffer
  -- the two reads of the bitmap test: zone 0 and zone `count - 1`
  have hreads : (∀ a ∈ [(⟨.zone, 0, (zonesOf buffer.table).length⟩ : Access),
      ⟨.zone, sub64 (zonesOf buffer.table).length 1, (zonesOf buffer.table).length⟩],
      a.InBounds) ↔ 1 ≤ (zonesOf buffer.table).length := by
    rw [List.forall_mem_cons, List.forall_mem_singleton]
    constructor
    · exact fun h => h.1
    · intro hpos
      refine ⟨hpos, ?_⟩
      show sub64 (zonesOf buffer.table).length 1 < (zonesOf buffer.table).length
      rw [sub64_of_le hpos (by omega)]
      omega
  have haccess : ∀ s, initMemory buffer endKrnl = .ok s → ((∀ a ∈ s.accesses, a.InBounds) ↔
      ((∀ e ∈ buffer.table, e.type.toNat ≤ 4) ∧
        (zonesOf buffer.table).length ≤ buffer.table.length) ∧
      1 ≤ (zonesOf buffer.table).length) := by
    intro s hs
    rw [(initMemory_booted hend hlt hs).accesses, List.forall_mem_append,
      passAccesses_inBounds_iff, hreads]
  constructor
  · rintro ⟨s, hs, hbounds⟩
    obtain ⟨⟨htypes, hle⟩, hpos⟩ := (haccess s hs).mp hbounds
    obtain ⟨-, htest, hpages⟩ := (initMemory_booted hend hlt hs).fits
    exact ⟨htypes, ⟨hpos, hle⟩, htest, hpages⟩
  · rintro ⟨htypes, ⟨hpos, hle⟩, htest, hpages⟩
    have htable : buffer.table ≠ [] := by
      intro hnil
      have hzero : buffer.table.length = 0 := by rw [hnil]; rfl
      omega
    obtain ⟨s, hs⟩ := (initMemory_returns_iff hend hlt).mpr ⟨htable, htest, hpages⟩
    exact ⟨s, hs, (haccess s hs).mpr ⟨⟨htypes, hle⟩, hpos⟩⟩

theorem indices_in_bounds_smallMachine :
    (∃ s, initMemory smallMachine smallImage = .ok s ∧
      ∀ a ∈ s.accesses, a.InBounds) ↔ IndicesFit smallMachine smallImage :=
  indices_in_bounds smallMachine smallImage (by decide) (by decide)

/-- 64 MB of RAM of which the firmware reports the last page as defective (type 5). -/
def defectiveMachine : E820Buffer :=
  bufferOf [entryOf 0 0xA0000 1, entryOf 0x100000 0x3D00000 1, entryOf 0x3E00000 0x200000 5]

/-- `memory_type_array` has no fifth name. -/
theorem type_index_out_of_bounds :
    ¬ ∃ s, initMemory defectiveMachine smallImage = .ok s ∧
      ∀ a ∈ s.accesses, a.InBounds := by
  have hrun : (initMemory defectiveMachine smallImage).map
      (fun s => decide (∀ a ∈ s.accesses, a.InBounds)) = .ok false := by
    decide +kernel
  rintro ⟨s, hs, hbounds⟩
  rw [hs] at hrun
  exact absurd hbounds (of_decide_eq_false (Except.ok.inj hrun))

end Knos.Memory
