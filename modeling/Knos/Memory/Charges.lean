import Knos.Memory.Lockstep
import Knos.Memory.Reserved
import Mathlib.Algebra.BigOperators.Intervals

/-!
# The counters that `init_memory` leaves

A new zone counts all its pages as free. The pages of the tables are then taken off
again one by one, each from the first zone with `start_pfn <= pfn <= end_pfn`: the
comparison includes the page behind the zone, so at the border of two zones a page
can be taken off the wrong one (§1 to §3). The global counter is lowered beside the
zones but, unlike `total_2m_pages`, never raised to the number of pages first (§4).
-/

namespace Knos.Memory

open Knos.Loop Knos.Words

/-! ## §1  Which zone a page is charged to -/

/-- The first zone with `start_pfn <= q <= end_pfn`. -/
def chargeIndex (zones : List MemoryZone) (q : ℕ) : Option ℕ :=
  zones.findIdx? fun zone => decide (zone.startPfn ≤ q ∧ q ≤ zone.endPfn)

theorem chargeIndex_eq_some {zones : List MemoryZone} {q k : ℕ} :
    chargeIndex zones q = some k ↔
      (∃ z, zones[k]? = some z ∧ z.startPfn ≤ q ∧ q ≤ z.endPfn) ∧
        ∀ j z', j < k → zones[j]? = some z' → ¬ (z'.startPfn ≤ q ∧ q ≤ z'.endPfn) := by
  unfold chargeIndex
  rw [List.findIdx?_eq_some_iff_getElem]
  constructor
  · rintro ⟨hk, hmatch, hfirst⟩
    refine ⟨⟨_, List.getElem?_eq_getElem hk, of_decide_eq_true hmatch⟩, fun j z' hj hz' => ?_⟩
    obtain ⟨hlt, rfl⟩ := List.getElem?_eq_some_iff.mp hz'
    simpa using hfirst j hj
  · rintro ⟨⟨z, hz, hmatch⟩, hfirst⟩
    obtain ⟨hlt, rfl⟩ := List.getElem?_eq_some_iff.mp hz
    refine ⟨hlt, decide_eq_true hmatch, fun j hj => ?_⟩
    simpa using hfirst j _ hj (List.getElem?_eq_getElem (Nat.lt_trans hj hlt))

theorem chargeIndex_lt {zones : List MemoryZone} {q k : ℕ} (h : chargeIndex zones q = some k) :
    k < zones.length := by
  obtain ⟨⟨z, hz, -⟩, -⟩ := chargeIndex_eq_some.mp h
  exact (List.getElem?_eq_some_iff.mp hz).1

/-- Only the limits of the zones matter. -/
theorem chargeIndex_congr {zones zones' : List MemoryZone}
    (h : zones'.map MemoryZone.extent = zones.map MemoryZone.extent) (q : ℕ) :
    chargeIndex zones' q = chargeIndex zones q := by
  have hmap : ∀ l : List MemoryZone, chargeIndex l q =
      (l.map MemoryZone.extent).findIdx? fun x => decide (x.2.1 ≤ q ∧ q ≤ x.2.2.1) := by
    intro l
    rw [List.findIdx?_map]
    rfl
  rw [hmap, hmap, h]

theorem chargeZone_eq_match (q : ℕ) (g : GlobalMemoryManager) : chargeZone q g =
    match chargeIndex g.zone q with
    | some i => g.takeFree i 1
    | none => g := rfl

/-- The pages of `[a, b)` that are charged to zone `k`. -/
def chargedPages (zones : List MemoryZone) (k a b : ℕ) : Finset ℕ :=
  (Finset.Ico a b).filter fun q => chargeIndex zones q = some k

theorem card_chargedPages_succ (zones : List MemoryZone) (k : ℕ) {a b : ℕ} (hab : a ≤ b) :
    (chargedPages zones k a (b + 1)).card =
      (chargedPages zones k a b).card + if chargeIndex zones b = some k then 1 else 0 := by
  unfold chargedPages
  rw [Finset.card_filter, Finset.card_filter, Finset.sum_Ico_succ_top hab]

theorem card_chargedPages_le (zones : List MemoryZone) (k a b : ℕ) :
    (chargedPages zones k a b).card ≤ b - a := by
  unfold chargedPages
  calc _ ≤ (Finset.Ico a b).card := Finset.card_filter_le _ _
    _ = b - a := Nat.card_Ico a b

@[simp] theorem subFree_nrFree (z : MemoryZone) (n : BitVec 64) :
    (z.subFree n).nrFree = z.nrFree - n := rfl
@[simp] theorem subFree_startPfn (z : MemoryZone) (n : BitVec 64) :
    (z.subFree n).startPfn = z.startPfn := rfl
@[simp] theorem subFree_endPfn (z : MemoryZone) (n : BitVec 64) :
    (z.subFree n).endPfn = z.endPfn := rfl

/-! ## §2  Reserving the pages of the tables -/

/-- `g'` is `g` after the pages `[a, b)` have been charged to their zones. -/
structure Charged (a b : ℕ) (g g' : GlobalMemoryManager) : Prop where
  shape : SameShape g g'
  zones : ∀ k, g'.zone[k]? = (g.zone[k]?).map
    (MemoryZone.subFree (BitVec.ofNat 64 (chargedPages g.zone k a b).card))
  drift : g'.drift = g.drift

theorem Charged.none (a : ℕ) (g : GlobalMemoryManager) : Charged a a g g where
  shape := SameShape.refl g
  zones := fun k => by
    rw [chargedPages, Finset.Ico_self, Finset.filter_empty, Finset.card_empty, subFree_zero,
      Option.map_id]
    rfl
  drift := rfl

/-- One page: its zone, if it has one, counts one page less. -/
theorem chargeZone_zone (q : ℕ) (g : GlobalMemoryManager) (k : ℕ) :
    (chargeZone q g).zone[k]? = (g.zone[k]?).map (MemoryZone.subFree
      (BitVec.ofNat 64 (if chargeIndex g.zone q = some k then 1 else 0))) := by
  rw [chargeZone_eq_match]
  cases hq : chargeIndex g.zone q with
  | none => simp
  | some i =>
      rw [takeFree_zone]
      by_cases hk : k = i
      · simp [hk]
      · simp [hk, Ne.symm hk]

theorem drift_chargeZone (q : ℕ) (g : GlobalMemoryManager) : (chargeZone q g).drift = g.drift := by
  rw [chargeZone_eq_match]
  cases hq : chargeIndex g.zone q with
  | none => rfl
  | some i => exact drift_takeFree (chargeIndex_lt hq) 1

theorem reserveKernelPage_counters {g g' : GlobalMemoryManager} {q : ℕ}
    (h : reserveKernelPage q g = .ok g') :
    (∀ k, g'.zone[k]? = (g.zone[k]?).map (MemoryZone.subFree
      (BitVec.ofNat 64 (if chargeIndex g.zone q = some k then 1 else 0)))) ∧
    g'.drift = g.drift := by
  unfold reserveKernelPage at h
  rw [bind_eq_ok] at h
  obtain ⟨bitmap, -, h⟩ := h
  cases hf : g.page[q]? with
  | none =>
      rw [hf] at h
      cases h
  | some f =>
      rw [hf] at h
      cases h
      exact ⟨chargeZone_zone q _, drift_chargeZone q _⟩

theorem Charged.snoc {a b : ℕ} {g g₁ g₂ : GlobalMemoryManager} (hab : a ≤ b)
    (h : Charged a b g g₁) (hstep : reserveKernelPage b g₁ = .ok g₂) : Charged a (b + 1) g g₂ := by
  obtain ⟨-, f, -, hshape, -⟩ := reserveKernelPage_eq_ok hstep
  obtain ⟨hzones, hdrift⟩ := reserveKernelPage_counters hstep
  refine ⟨h.shape.trans hshape, fun k => ?_, hdrift.trans h.drift⟩
  rw [hzones, h.zones, Option.map_map, subFree_subFree, chargeIndex_congr h.shape.zones,
    card_chargedPages_succ g.zone k hab, BitVec.ofNat_add]

theorem charged_of_forRange {a n : ℕ} {g g' : GlobalMemoryManager}
    (h : forRange reserveKernelPage a n g = .ok g') : Charged a (a + n) g g' := by
  exact forRange_invariant (fun n s => Charged a (a + n) g s)
    (fun n s s' _ hs hstep => hs.snoc (Nat.le_add_right a n) hstep) (Charged.none a g) h

/-! ## §3  Pages at a border -/

/-- The pages of `[a, b)` that belong to the zone. -/
def heldPages (z : MemoryZone) (a b : ℕ) : Finset ℕ := (Finset.Ico a b).filter fun q => z.Contains q

/-- No zone ends at a page of `[a, b)`, unless an earlier zone of the table starts there
and takes the charge. -/
def BorderFree (zones : List MemoryZone) (a b : ℕ) : Prop :=
  ∀ (k : ℕ) (z : MemoryZone), zones[k]? = some z → a ≤ z.endPfn → z.endPfn < b →
    ∃ j z', j < k ∧ zones[j]? = some z' ∧ z'.startPfn = z.endPfn

/-- A zone that is charged for the page behind another one starts there. -/
theorem startPfn_eq_endPfn {z z' : MemoryZone} (hz : z.startPfn < z.endPfn)
    (hdisj : ∀ q, ¬ (z.Contains q ∧ z'.Contains q)) (h : z'.startPfn ≤ z.endPfn)
    (h' : z.endPfn ≤ z'.endPfn) : z'.startPfn = z.endPfn := by
  by_contra hne
  have hlast : z.Contains (z.endPfn - 1) := ⟨by omega, by omega⟩
  have hlast' : z'.Contains (z.endPfn - 1) := ⟨by omega, by omega⟩
  exact hdisj _ ⟨hlast, hlast'⟩

section Borders

variable {zones : List MemoryZone} {a b : ℕ}
  (hdisj : zones.Pairwise fun x y => ∀ q, ¬ (x.Contains q ∧ y.Contains q))
  (hne : ∀ z ∈ zones, z.startPfn < z.endPfn)

include hdisj

theorem not_contains_of_ne {i j q : ℕ} {z z' : MemoryZone} (hi : zones[i]? = some z)
    (hj : zones[j]? = some z') (hij : i ≠ j) : ¬ (z.Contains q ∧ z'.Contains q) :=
  fun h => hij (eq_of_contains hdisj hi hj h.1 h.2)

include hne

/-- A page of zone `k` is charged to it, unless an earlier zone ends there; and where one
does, a still earlier one would have to start there. -/
theorem chargeIndex_of_contains {k q : ℕ} {z : MemoryZone} (hz : zones[k]? = some z)
    (hin : z.Contains q)
    (hbefore : ∀ (i : ℕ) (y : MemoryZone), i < k → zones[i]? = some y → y.endPfn = q →
      ∃ j z', j < i ∧ zones[j]? = some z' ∧ z'.startPfn = y.endPfn) :
    chargeIndex zones q = some k := by
  have hin₂ : q < z.endPfn := hin.2
  refine chargeIndex_eq_some.mpr ⟨⟨z, hz, hin.1, Nat.le_of_lt hin₂⟩, ?_⟩
  rintro i y hi hy ⟨hs, he⟩
  have hout : ¬ y.Contains q := fun hin' =>
    not_contains_of_ne hdisj hy hz (Nat.ne_of_lt hi) ⟨hin', hin⟩
  have hq : y.endPfn = q := by
    by_contra hlt
    exact hout ⟨hs, by omega⟩
  obtain ⟨j, z', hj, hz', hs'⟩ := hbefore i y hi hy hq
  have hlt := hne z' (List.mem_of_getElem? hz')
  have hin' : z'.Contains q := ⟨by omega, by omega⟩
  exact not_contains_of_ne hdisj hz' hz (by omega) ⟨hin', hin⟩

/-- Without a border in `[a, b)` every page is charged to the zone it belongs to. -/
theorem BorderFree.chargeIndex_iff (h : BorderFree zones a b) {k q : ℕ} {z : MemoryZone}
    (hz : zones[k]? = some z) (ha : a ≤ q) (hb : q < b) :
    chargeIndex zones q = some k ↔ z.Contains q := by
  constructor
  · intro hcharge
    obtain ⟨⟨z₁, hz₁, hstart, hend⟩, hfirst⟩ := chargeIndex_eq_some.mp hcharge
    rw [hz] at hz₁
    cases hz₁
    refine ⟨hstart, Nat.lt_of_le_of_ne hend fun heq => ?_⟩
    -- `q` lies behind zone `k`: an earlier zone that starts there would have matched
    obtain ⟨j, z', hj, hz', hs⟩ := h k z hz (by omega) (by omega)
    have hlt := hne z' (List.mem_of_getElem? hz')
    exact hfirst j z' hj hz' ⟨by omega, by omega⟩
  · intro hin
    refine chargeIndex_of_contains hdisj hne hz hin fun i y _ hy hq => ?_
    exact h i y hy (by omega) (by omega)

/-- The first zone that ends in `[a, b)` without an earlier zone starting there is charged
for a page too many. -/
theorem card_held_lt_charged {k : ℕ} {z : MemoryZone} (hz : zones[k]? = some z)
    (ha : a ≤ z.endPfn) (hb : z.endPfn < b)
    (hnone : ¬ ∃ j z', j < k ∧ zones[j]? = some z' ∧ z'.startPfn = z.endPfn)
    (hbefore : ∀ (i : ℕ) (y : MemoryZone), i < k → zones[i]? = some y → a ≤ y.endPfn →
      y.endPfn < b → ∃ j z', j < i ∧ zones[j]? = some z' ∧ z'.startPfn = y.endPfn) :
    (heldPages z a b).card < (chargedPages zones k a b).card := by
  have hlt := hne z (List.mem_of_getElem? hz)
  have hborder : chargeIndex zones z.endPfn = some k := by
    refine chargeIndex_eq_some.mpr ⟨⟨z, hz, Nat.le_of_lt hlt, Nat.le_refl _⟩, ?_⟩
    rintro j z' hj hz' ⟨hs, he⟩
    refine hnone ⟨j, z', hj, hz', startPfn_eq_endPfn hlt (fun q => ?_) hs he⟩
    exact not_contains_of_ne hdisj hz hz' (Nat.ne_of_gt hj)
  have hheld : ∀ q ∈ heldPages z a b, chargeIndex zones q = some k := by
    intro q hq
    obtain ⟨hrange, hin⟩ := Finset.mem_filter.mp hq
    rw [Finset.mem_Ico] at hrange
    refine chargeIndex_of_contains hdisj hne hz hin fun i y hi hy hend => ?_
    exact hbefore i y hi hy (by omega) (by omega)
  refine Finset.card_lt_card (Finset.ssubset_iff_subset_ne.mpr ⟨fun q hq => ?_, fun heq => ?_⟩)
  · exact Finset.mem_filter.mpr ⟨(Finset.mem_filter.mp hq).1, hheld q hq⟩
  · have hmem : z.endPfn ∈ chargedPages zones k a b :=
      Finset.mem_filter.mpr ⟨Finset.mem_Ico.mpr ⟨ha, hb⟩, hborder⟩
    rw [← heq] at hmem
    exact Nat.lt_irrefl _ (Finset.mem_filter.mp hmem).2.2

/-- **The zones are charged for their own pages** exactly when `[a, b)` has no border. -/
theorem charged_eq_held_iff :
    (∀ (k : ℕ) (z : MemoryZone), zones[k]? = some z →
      (chargedPages zones k a b).card = (heldPages z a b).card) ↔ BorderFree zones a b := by
  constructor
  · intro h k
    induction k using Nat.strongRecOn with
    | ind k ih =>
        intro z hz ha hb
        by_contra hnone
        have hlt := card_held_lt_charged hdisj hne hz ha hb hnone
          fun i y hi hy hya hyb => ih i hi y hy hya hyb
        rw [h k z hz] at hlt
        exact Nat.lt_irrefl _ hlt
  · intro h k z hz
    unfold chargedPages heldPages
    congr 1
    refine Finset.filter_congr fun q hq => ?_
    rw [Finset.mem_Ico] at hq
    exact h.chargeIndex_iff hdisj hne hz hq.1 hq.2

end Borders

/-! ## §4  The counters at the end -/

/-- The phases of a call that returns. -/
theorem initMemory_phases {buffer : E820Buffer} {endKrnl : ℕ} {s : Boot}
    (h : initMemory buffer endKrnl = .ok s) : ∃ s₀ s₁ s₂, constructZones buffer = .ok s₀ ∧
      resetPageZero s₀ = .ok s₁ ∧ testBitmap s₁ = .ok s₂ ∧
      reserveKernel (s₂.place endKrnl) = .ok s := by
  unfold initMemory at h
  rw [bind_eq_ok] at h
  obtain ⟨s₀, h₀, h⟩ := h
  rw [bind_eq_ok] at h
  obtain ⟨s₁, h₁, h⟩ := h
  rw [bind_eq_ok] at h
  obtain ⟨s₂, h₂, h⟩ := h
  exact ⟨s₀, s₁, s₂, h₀, h₁, h₂, h⟩

/-- Nothing before the reservation writes the global counter. -/
theorem constructZones_free2mPages {buffer : E820Buffer} {s : Boot}
    (h : constructZones buffer = .ok s) : s.gmm.free2mPages = 0 := by
  unfold constructZones at h
  rw [bind_eq_ok] at h
  obtain ⟨s₀, h₀, hloop⟩ := h
  obtain ⟨s₀', h₀', hprep⟩ := initBitmapAndPages_returns buffer
  rw [h₀] at h₀'
  cases h₀'
  obtain ⟨s', hloop', hbuilt⟩ := hprep.zoneLoop
  rw [hloop] at hloop'
  cases hloop'
  rw [initBitmapAndPages, bind_eq_ok, foldl_countEntry] at h₀
  obtain ⟨bitmap, -, h₀⟩ := h₀
  cases h₀
  rw [hbuilt.rest]
  rfl

theorem resetPageZero_free2mPages {s s' : Boot} (h : resetPageZero s = .ok s') :
    s'.gmm.free2mPages = s.gmm.free2mPages := by
  unfold resetPageZero at h
  rw [bind_eq_ok] at h
  obtain ⟨bitmap, -, h⟩ := h
  split at h
  · cases h
    rfl
  · cases h

theorem testBitmap_free2mPages {s s' : Boot} (h : testBitmap s = .ok s') :
    s'.gmm.free2mPages = s.gmm.free2mPages := by
  unfold testBitmap at h
  rw [bind_eq_ok] at h
  obtain ⟨first, -, h⟩ := h
  rw [bind_eq_ok] at h
  obtain ⟨b₁, -, h⟩ := h
  rw [bind_eq_ok] at h
  obtain ⟨b₂, -, h⟩ := h
  cases h
  rfl

section Boot

variable {buffer : E820Buffer} {endKrnl : ℕ}

/-- The page behind the last one that is reserved for the tables. -/
def chargeEnd (buffer : E820Buffer) (endKrnl : ℕ) : ℕ :=
  firstTablePage endKrnl +
    (endTablePage endKrnl (maxPfnOf buffer.table) (zonesOf buffer.table).length -
      firstTablePage endKrnl)

theorem tablePage_iff (q : ℕ) : TablePage buffer endKrnl q ↔
    firstTablePage endKrnl ≤ q ∧ q < chargeEnd buffer endKrnl := by
  unfold TablePage chargeEnd
  omega

/-- The pages of the tables are charged to zones that count all their pages as free. -/
theorem initMemory_charged {s : Boot} (hend : physToVirtBase ≤ endKrnl) (hlt : endKrnl < 2 ^ 64)
    (h : initMemory buffer endKrnl = .ok s) : ∃ g : GlobalMemoryManager,
      g.zone = zonesOf buffer.table ∧ g.free2mPages = 0 ∧
        Charged (firstTablePage endKrnl) (chargeEnd buffer endKrnl) g s.gmm := by
  obtain ⟨htable, htest, -⟩ := (initMemory_booted hend hlt h).fits
  obtain ⟨s₀, s₁, s₂, h₀, h₁, h₂, h₃⟩ := initMemory_phases h
  obtain ⟨s₀', h₀', hconstructed⟩ := constructZones_returns buffer
  rw [h₀] at h₀'
  cases h₀'
  obtain ⟨s₁', h₁', hreset⟩ := resetPageZero_returns hconstructed
  rw [h₁] at h₁'
  cases h₁'
  obtain ⟨s₂', h₂', htested⟩ := hreset.tested endKrnl htable htest
  rw [h₂] at h₂'
  cases h₂'
  rw [reserveKernel_eq hend hlt htested, bind_eq_ok] at h₃
  obtain ⟨g', hloop, hs⟩ := h₃
  cases hs
  refine ⟨(s₂.place endKrnl).gmm, htested.zones, ?_, charged_of_forRange hloop⟩
  show s₂.gmm.free2mPages = 0
  rw [testBitmap_free2mPages h₂, resetPageZero_free2mPages h₁, constructZones_free2mPages h₀]

theorem nrFree_of_mem {entries : List E820Entry} {z : MemoryZone} (h : z ∈ zonesOf entries) :
    z.nrFree = BitVec.ofNat 64 z.totalPages := by
  rw [(spanZone_of_mem h).1]
  rfl

/-- The pages of all zones together. -/
theorem sum_nrFree_zonesOf (entries : List E820Entry) :
    ((zonesOf entries).map MemoryZone.nrFree).sum =
      BitVec.ofNat 64 ((zonesOf entries).map MemoryZone.totalPages).sum := by
  have hone : ∀ z ∈ zonesOf entries, z.nrFree = BitVec.ofNat 64 z.totalPages :=
    fun z hz => nrFree_of_mem hz
  generalize zonesOf entries = zones at hone
  induction zones with
  | nil => rfl
  | cons z zones ih =>
      rw [List.map_cons, List.sum_cons, List.map_cons, List.sum_cons, BitVec.ofNat_add,
        hone z List.mem_cons_self, ih fun z hz => hone z (List.mem_cons_of_mem _ hz)]

theorem sum_totalPages_lt (buffer : E820Buffer) :
    ((zonesOf buffer.table).map MemoryZone.totalPages).sum < 2 ^ 64 := by
  have hone : ∀ n ∈ (zonesOf buffer.table).map MemoryZone.totalPages, n ≤ 2 ^ 43 := by
    intro n hn
    obtain ⟨z, hz, rfl⟩ := List.mem_map.mp hn
    have hmax := maxPfnOf_lt buffer.table
    have hend := endPfn_le_of_mem_zonesOf hz
    rw [totalPages_of_mem hz]
    omega
  have hsum := List.sum_le_card_nsmul _ _ hone
  have hlen := length_zonesOf_le buffer
  rw [List.length_map, Nat.nsmul_eq_mul] at hsum
  omega

/-- A zone has at least one page, so no pages means no zones. -/
theorem sum_totalPages_eq_zero_iff (entries : List E820Entry) :
    ((zonesOf entries).map MemoryZone.totalPages).sum = 0 ↔ zonesOf entries = [] := by
  constructor
  · intro h
    refine List.eq_nil_iff_forall_not_mem.mpr fun z hz => ?_
    have hle := List.le_sum_of_mem (List.mem_map_of_mem (f := MemoryZone.totalPages) hz)
    have hlt := (spanZone_of_mem hz).2
    rw [h, totalPages_of_mem hz] at hle
    omega
  · intro h
    rw [h]
    rfl

/-- **The global counter starts at 0**, so it agrees with the zones only where there are
none. -/
theorem free2mPages_eq_totalFree_iff {s : Boot} (hend : physToVirtBase ≤ endKrnl)
    (hlt : endKrnl < 2 ^ 64) (h : initMemory buffer endKrnl = .ok s) :
    s.gmm.free2mPages = s.gmm.totalFree ↔ zonesOf buffer.table = [] := by
  obtain ⟨g, hzones, hfree, hcharged⟩ := initMemory_charged hend hlt h
  have hdrift : s.gmm.totalFree - s.gmm.free2mPages =
      BitVec.ofNat 64 ((zonesOf buffer.table).map MemoryZone.totalPages).sum := by
    have hstart : g.drift = (g.zone.map MemoryZone.nrFree).sum - g.free2mPages := rfl
    rw [hzones, hfree, sum_nrFree_zonesOf] at hstart
    exact (hcharged.drift.trans hstart).trans (sub_zero _)
  rw [eq_comm, ← sub_eq_zero, hdrift, ← sum_totalPages_eq_zero_iff]
  constructor
  · intro hzero
    have hnat := congrArg BitVec.toNat hzero
    rwa [BitVec.toNat_ofNat, Nat.mod_eq_of_lt (sum_totalPages_lt buffer)] at hnat
  · intro hzero
    rw [hzero]
    rfl

/-! ## §5  The zone counters at the end -/

/-- No two entries of the table share a byte. -/
def EntriesDisjoint (entries : List E820Entry) : Prop :=
  entries.Pairwise fun a b => ∀ addr, ¬ (a.Covers addr ∧ b.Covers addr)

theorem EntriesDisjoint.ram {entries : List E820Entry} (h : EntriesDisjoint entries) :
    RamDisjoint entries :=
  List.Pairwise.imp (fun hab _ _ => hab) h

/-- Entries in ascending order. -/
theorem entriesDisjoint_of_sorted {entries : List E820Entry}
    (h : entries.Pairwise fun a b => a.base + a.length ≤ b.base) : EntriesDisjoint entries := by
  refine List.Pairwise.imp (fun {a b} hab addr => ?_) h
  rintro ⟨⟨-, h₁⟩, h₂, -⟩
  omega

/-- A page inside a RAM entry is not inside another entry. -/
theorem not_markedOut_of_contains {entries : List E820Entry} (hwrap : ∀ e ∈ entries, e.NoWrap)
    (hdisj : EntriesDisjoint entries) {z : MemoryZone} {q : ℕ} (hz : z ∈ zonesOf entries)
    (hq : z.Contains q) : ¬ MarkedOut entries q := by
  rw [markedOut_iff hwrap]
  rintro ⟨e', he', htype', hholds'⟩
  obtain ⟨e, he, htype, hholds⟩ := (contains_zonesOf_iff hwrap q).mp ⟨z, hz, hq⟩
  have hne : e ≠ e' := fun heq => htype' (heq ▸ htype)
  have haddr : q * page2mSize / page2mSize = q := Nat.mul_div_cancel q (by decide)
  have hsymm : Std.Symm fun a b : E820Entry => ∀ addr, ¬ (a.Covers addr ∧ b.Covers addr) :=
    ⟨fun a b hab addr hc => hab addr hc.symm⟩
  exact List.Pairwise.forall hdisj he he' hne (q * page2mSize)
    ⟨hholds _ haddr, hholds' _ haddr⟩

/-- The set bits of a zone are those of the pages of the tables in it. -/
theorem clearCount_add_held {s : Boot} (hwrap : ∀ e ∈ buffer.table, e.NoWrap)
    (hdisj : EntriesDisjoint buffer.table) (h : Booted buffer endKrnl s) {z : MemoryZone}
    (hz : z ∈ zonesOf buffer.table) : clearCount s.gmm.bitmap z.startPfn z.endPfn +
      (heldPages z (firstTablePage endKrnl) (chargeEnd buffer endKrnl)).card = z.totalPages := by
  have hend := endPfn_le_of_mem_zonesOf hz
  have hwords := h.words
  have hclear : ∀ q, z.Contains q →
      (bitAt s.gmm.bitmap q = some false ↔ ¬ TablePage buffer endKrnl q) := by
    intro q hq
    have hq₂ : q < z.endPfn := hq.2
    have hset : bitAt s.gmm.bitmap q = some true ↔ TablePage buffer endKrnl q := by
      rw [h.bits]
      exact ⟨fun hor => hor.resolve_left
        fun hm => not_markedOut_of_contains hwrap hdisj hz hq hm.1, Or.inr⟩
    rw [← hset]
    rcases @bitAt_cases _ s.gmm.bitmap q (by omega) with hb | hb
    · simp [hb]
    · simp [hb]
  have hbits : clearBits s.gmm.bitmap z.startPfn z.endPfn =
      (Finset.Ico z.startPfn z.endPfn).filter fun q => ¬ TablePage buffer endKrnl q := by
    refine Finset.filter_congr fun q hq => ?_
    exact hclear q (Finset.mem_Ico.mp hq)
  have hheld : heldPages z (firstTablePage endKrnl) (chargeEnd buffer endKrnl) =
      (Finset.Ico z.startPfn z.endPfn).filter fun q => TablePage buffer endKrnl q := by
    ext q
    unfold heldPages
    rw [Finset.mem_filter, Finset.mem_filter, Finset.mem_Ico, Finset.mem_Ico, tablePage_iff]
    exact and_comm
  have hsplit := Finset.card_filter_add_card_filter_not (s := Finset.Ico z.startPfn z.endPfn)
    (TablePage buffer endKrnl)
  rw [Nat.card_Ico, ← totalPages_of_mem hz] at hsplit
  rw [clearCount, hbits, hheld, Nat.add_comm]
  exact hsplit

/-- No zone ends at a page of the tables, unless an earlier zone starts there. -/
def NoBorderPage (buffer : E820Buffer) (endKrnl : ℕ) : Prop :=
  ∀ (k : ℕ) (z : MemoryZone), (zonesOf buffer.table)[k]? = some z →
    TablePage buffer endKrnl z.endPfn →
      ∃ j z', j < k ∧ (zonesOf buffer.table)[j]? = some z' ∧ z'.startPfn = z.endPfn

theorem noBorderPage_iff : NoBorderPage buffer endKrnl ↔
    BorderFree (zonesOf buffer.table) (firstTablePage endKrnl) (chargeEnd buffer endKrnl) := by
  refine forall₃_congr fun k z hz => ?_
  rw [tablePage_iff, and_imp]

/-- One zone: its counter is exact when it was charged for its own pages only. -/
theorem nrFree_exact_iff {total charged held clear : ℕ} (htotal : clear + held = total)
    (hbig : total < 2 ^ 64) (hcharged : charged < 2 ^ 64) :
    (BitVec.ofNat 64 total - BitVec.ofNat 64 charged).toNat = clear ↔ charged = held := by
  rw [BitVec.toNat_sub, BitVec.toNat_ofNat, BitVec.toNat_ofNat, Nat.mod_eq_of_lt hbig,
    Nat.mod_eq_of_lt hcharged]
  omega

/-- A charge is at most the number of pages of the tables. -/
theorem card_chargedPages_lt (hfits : Fits buffer endKrnl) (k : ℕ) :
    (chargedPages (zonesOf buffer.table) k (firstTablePage endKrnl)
      (chargeEnd buffer endKrnl)).card < 2 ^ 64 := by
  have hmax := maxPfnOf_lt buffer.table
  have hcard : (chargedPages (zonesOf buffer.table) k (firstTablePage endKrnl)
      (chargeEnd buffer endKrnl)).card ≤ chargeEnd buffer endKrnl - firstTablePage endKrnl :=
    card_chargedPages_le _ _ _ _
  by_cases hempty : chargeEnd buffer endKrnl ≤ firstTablePage endKrnl
  · omega
  · have hlast := hfits.2.2 (chargeEnd buffer endKrnl - 1)
      ((tablePage_iff _).mpr ⟨by omega, by omega⟩)
    omega

/-- The counter of one zone is right when it was charged for its own pages only. -/
theorem zone_exact_iff {s : Boot} (hwrap : ∀ e ∈ buffer.table, e.NoWrap)
    (hdisj : EntriesDisjoint buffer.table) (h : Booted buffer endKrnl s) {z : MemoryZone}
    (hz : z ∈ zonesOf buffer.table) (k : ℕ) :
    (z.nrFree - BitVec.ofNat 64 (chargedPages (zonesOf buffer.table) k (firstTablePage endKrnl)
        (chargeEnd buffer endKrnl)).card).toNat =
        clearCount s.gmm.bitmap z.startPfn z.endPfn ↔
      (chargedPages (zonesOf buffer.table) k (firstTablePage endKrnl)
        (chargeEnd buffer endKrnl)).card =
          (heldPages z (firstTablePage endKrnl) (chargeEnd buffer endKrnl)).card := by
  have hmax := maxPfnOf_lt buffer.table
  have hle := endPfn_le_of_mem_zonesOf hz
  have htotal := totalPages_of_mem hz
  have hbig : z.totalPages < 2 ^ 64 := by omega
  rw [nrFree_of_mem hz]
  exact nrFree_exact_iff (clearCount_add_held hwrap hdisj h hz) hbig
    (card_chargedPages_lt h.fits k)

/-- **The zone counters are exact** unless a page of the tables lies right behind a zone. -/
theorem countersExact_iff {s : Boot} (hend : physToVirtBase ≤ endKrnl) (hlt : endKrnl < 2 ^ 64)
    (hwrap : ∀ e ∈ buffer.table, e.NoWrap) (hdisj : EntriesDisjoint buffer.table)
    (h : initMemory buffer endKrnl = .ok s) :
    CountersExact s.gmm ↔ NoBorderPage buffer endKrnl := by
  obtain ⟨g, hzones, -, hcharged⟩ := initMemory_charged hend hlt h
  have hbooted := initMemory_booted hend hlt h
  have hpair := pairwise_zonesOf hwrap hdisj.ram
  have hne : ∀ z ∈ zonesOf buffer.table, z.startPfn < z.endPfn := fun z hz => (spanZone_of_mem hz).2
  have hget := hcharged.zones
  rw [hzones] at hget
  rw [noBorderPage_iff, ← charged_eq_held_iff hpair hne]
  constructor
  · intro hexact k z hk
    have hk' := hget k
    rw [hk, Option.map_some] at hk'
    have hcount := hexact _ (List.mem_of_getElem? hk')
    rw [subFree_nrFree, subFree_startPfn, subFree_endPfn] at hcount
    exact (zone_exact_iff hwrap hdisj hbooted (List.mem_of_getElem? hk) k).mp hcount
  · intro hcards z' hz'
    obtain ⟨k, hk'⟩ := List.mem_iff_getElem?.mp hz'
    rw [hget, Option.map_eq_some_iff] at hk'
    obtain ⟨z, hk, rfl⟩ := hk'
    rw [subFree_nrFree, subFree_startPfn, subFree_endPfn]
    exact (zone_exact_iff hwrap hdisj hbooted (List.mem_of_getElem? hk) k).mpr (hcards k z hk)

end Boot

/-- **What the counters of `init_memory` are worth.** Zone counters and global counter are
right together only on a map without zones; the zone counters alone are right unless a
page of the tables lies right behind a zone. -/
theorem boot_counters (buffer : E820Buffer) (endKrnl : ℕ) (s : Boot)
    (hdisj : EntriesDisjoint buffer.table) (htext : textAddr ≤ endKrnl) (hlt : endKrnl < 2 ^ 64)
    (hrun : initMemory buffer endKrnl = .ok s) :
    (CountersExact s.gmm ∧ s.gmm.free2mPages = s.gmm.totalFree ↔ zonesOf buffer.table = []) ∧
    ((∀ e ∈ buffer.table, e.NoWrap) →
      (CountersExact s.gmm ↔ NoBorderPage buffer endKrnl)) := by
  have hend : physToVirtBase ≤ endKrnl := le_trans (Nat.le_add_right _ _) htext
  refine ⟨⟨fun h => (free2mPages_eq_totalFree_iff hend hlt hrun).mp h.2, fun hnil => ⟨?_, ?_⟩⟩,
    fun hwrap => countersExact_iff hend hlt hwrap hdisj hrun⟩
  · -- there is no counter to be wrong
    have hzones := (initMemory_booted hend hlt hrun).zones
    rw [hnil, List.map_nil, List.map_eq_nil_iff] at hzones
    intro z hz
    rw [hzones] at hz
    exact absurd hz List.not_mem_nil
  · exact (free2mPages_eq_totalFree_iff hend hlt hrun).mpr hnil

/-- 64 MB of RAM in two adjacent entries, and an image that ends inside the second one:
its tables lie in page 2, right behind the first zone. -/
def borderMachine : E820Buffer :=
  bufferOf [entryOf 0x100000 0x300000 1, entryOf 0x400000 0x3C00000 1]

def borderImage : ℕ := textAddr + 0x180000

theorem borderMachine_disjoint : EntriesDisjoint borderMachine.table :=
  entriesDisjoint_of_sorted (by decide +kernel)

theorem borderMachine_boots :
    initMemory borderMachine borderImage = .ok (bootOf borderMachine borderImage) :=
  bootOf_eq (by decide +kernel)

theorem boot_counters_borderMachine :
    (CountersExact (bootOf borderMachine borderImage).gmm ∧
      (bootOf borderMachine borderImage).gmm.free2mPages =
        (bootOf borderMachine borderImage).gmm.totalFree ↔ zonesOf borderMachine.table = []) ∧
    ((∀ e ∈ borderMachine.table, e.NoWrap) →
      (CountersExact (bootOf borderMachine borderImage).gmm ↔
        NoBorderPage borderMachine borderImage)) :=
  boot_counters borderMachine borderImage _ borderMachine_disjoint (by decide) (by decide)
    borderMachine_boots

/-- The first zone loses a page that is not its own, and the global counter wraps below 0. -/
theorem counters_wrong_after_boot : EntriesDisjoint borderMachine.table ∧
    initMemory borderMachine borderImage = .ok (bootOf borderMachine borderImage) ∧
    ¬ CountersExact (bootOf borderMachine borderImage).gmm ∧
    (bootOf borderMachine borderImage).gmm.free2mPages = -1 ∧
    (bootOf borderMachine borderImage).gmm.totalFree = 30 :=
  ⟨borderMachine_disjoint, borderMachine_boots, by decide +kernel, by decide +kernel,
    by decide +kernel⟩

end Knos.Memory
