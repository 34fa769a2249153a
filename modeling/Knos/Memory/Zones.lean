import Knos.Memory.Entries
import Mathlib.Algebra.Order.BigOperators.Group.List

/-!
# The zones that `init_memory` builds

The zones of one entry in terms of its pages (§1), then, by induction over the
table, what the zone loop leaves behind (§2) and the state in which it ends (§3).
§4 compares that state with what the zones are for.

The frame loops count with an `int`, so a zone of more than `2^31` pages is not
initialised to its end; that is the only way in which the zones go wrong.
-/

namespace Knos.Memory

open Knos.Loop Knos.Words

/-! ## §1  The zones of one entry -/

/-- 16 MB in pages. -/
def dmaPfn : ℕ := 8

/-- A new zone of the pages `[start, end_)`. -/
def spanZone (type : MemoryZoneType) (start end_ : ℕ) : MemoryZone :=
  newZone type start end_ (end_ - start)

@[simp] theorem totalPages_spanZone (type : MemoryZoneType) (start end_ : ℕ) :
    (spanZone type start end_).totalPages = end_ - start := rfl

/-- The zones of an entry, in terms of its pages. -/
def entryZones (e : E820Entry) : List MemoryZone :=
  if e.type ≠ 1#32 ∨ e.endPfn ≤ e.startPfn then []
  else if e.startPfn < dmaPfn ∧ dmaPfn < e.endPfn then
    [spanZone .zoneDma e.startPfn dmaPfn, spanZone .zoneNormal dmaPfn e.endPfn]
  else [spanZone (if e.startPfn < dmaPfn then .zoneDma else .zoneNormal) e.startPfn e.endPfn]

def zonesOf (entries : List E820Entry) : List MemoryZone := entries.flatMap entryZones

theorem shiftRight_page (q : ℕ) : (q * 2 ^ 21) >>> page2mShift = q := by
  rw [page2mShift, Nat.shiftRight_eq_div_pow, Nat.mul_div_cancel _ (by decide)]

theorem dmaBoundary_eq : dmaBoundary = dmaPfn * 2 ^ 21 := by decide

theorem page_lt_page {a b : ℕ} : a * 2 ^ 21 < b * 2 ^ 21 ↔ a < b :=
  Nat.mul_lt_mul_right (by decide)

theorem sub64_pfn {a b : ℕ} (hab : a ≤ b) (hb : b < 2 ^ 43) : sub64 b a = b - a :=
  sub64_of_le hab (Nat.lt_trans hb (by decide))

theorem dmaZone_eq {a : ℕ} (ha : a ≤ dmaPfn) :
    dmaZone (a * 2 ^ 21) = spanZone .zoneDma a dmaPfn := by
  rw [dmaZone, dmaBoundary_eq, shiftRight_page, shiftRight_page, sub64_pfn ha (by decide)]
  rfl

theorem normalZone_eq {b : ℕ} (hb : dmaPfn ≤ b) (hlt : b < 2 ^ 43) :
    normalZone (b * 2 ^ 21) = spanZone .zoneNormal dmaPfn b := by
  rw [normalZone, dmaBoundary_eq, shiftRight_page, shiftRight_page, sub64_pfn hb hlt]
  rfl

theorem wholeZone_eq {a b : ℕ} (hab : a ≤ b) (hb : b < 2 ^ 43) :
    wholeZone (a * 2 ^ 21) (b * 2 ^ 21) =
      spanZone (if a < dmaPfn then .zoneDma else .zoneNormal) a b := by
  have hsub : sub64 (b * 2 ^ 21) (a * 2 ^ 21) = (b - a) * 2 ^ 21 := by
    rw [Nat.sub_mul]
    refine sub64_of_le (Nat.mul_le_mul_right _ hab) ?_
    calc b * 2 ^ 21 < 2 ^ 43 * 2 ^ 21 := Nat.mul_lt_mul_of_pos_right hb (by decide)
      _ = 2 ^ 64 := by decide
  rw [wholeZone, show (0x1000000 : ℕ) = dmaPfn * 2 ^ 21 from dmaBoundary_eq, shiftRight_page,
    shiftRight_page, hsub, shiftRight_page]
  simp only [page_lt_page]
  rfl

/-- The zone loop in terms of pages. -/
theorem buildZones_eq (s : Boot) (e : E820Entry) : buildZones s e =
    if e.type ≠ 1#32 ∨ e.endPfn ≤ e.startPfn then .ok s
    else if e.startPfn < dmaPfn ∧ dmaPfn < e.endPfn then
      addZone false (spanZone .zoneDma e.startPfn dmaPfn) s >>=
        addZone false (spanZone .zoneNormal dmaPfn e.endPfn)
    else addZone true
      (spanZone (if e.startPfn < dmaPfn then .zoneDma else .zoneNormal) e.startPfn e.endPfn) s := by
  have hend := endPfn_lt e
  unfold buildZones
  by_cases htype : e.type ≠ 1#32
  · rw [if_pos htype, if_pos (Or.inl htype)]
  · rw [if_neg htype]
    simp only [alignedBase_eq, alignedEnd_eq, dmaBoundary_eq, page_lt_page]
    by_cases hempty : e.endPfn ≤ e.startPfn
    · rw [if_pos (Nat.mul_le_mul_right _ hempty), if_pos (Or.inr hempty)]
    · have hused : ¬ (e.type ≠ 1#32 ∨ e.endPfn ≤ e.startPfn) :=
        fun h => h.elim htype hempty
      have hlt : e.startPfn < e.endPfn := Nat.not_le.mp hempty
      rw [if_neg hused, if_neg (Nat.not_le.mpr (page_lt_page.mpr hlt))]
      by_cases hsplit : e.startPfn < dmaPfn ∧ dmaPfn < e.endPfn
      · rw [if_pos hsplit, if_pos hsplit, dmaZone_eq (Nat.le_of_lt hsplit.1),
          normalZone_eq (Nat.le_of_lt hsplit.2) hend]
      · rw [if_neg hsplit, if_neg hsplit, wholeZone_eq (Nat.le_of_lt hlt) hend]

/-- The shape of every zone of an entry. -/
theorem mem_entryZones {e : E820Entry} {z : MemoryZone} (h : z ∈ entryZones e) :
    e.type = 1#32 ∧ z = spanZone z.type z.startPfn z.endPfn ∧ z.startPfn < z.endPfn ∧
      e.startPfn ≤ z.startPfn ∧ z.endPfn ≤ e.endPfn ∧
      (z.type = .zoneDma ∧ z.endPfn ≤ dmaPfn ∨ z.type = .zoneNormal ∧ dmaPfn ≤ z.startPfn) := by
  unfold entryZones at h
  split at h
  · cases h
  next hused =>
    rw [not_or, not_not, Nat.not_le] at hused
    refine ⟨hused.1, ?_⟩
    split at h
    next hsplit =>
      rcases List.mem_cons.mp h with rfl | h
      · exact ⟨rfl, hsplit.1, Nat.le_refl _, Nat.le_of_lt hsplit.2,
          Or.inl ⟨rfl, Nat.le_refl _⟩⟩
      · rw [List.mem_singleton] at h
        subst h
        exact ⟨rfl, hsplit.2, Nat.le_of_lt hsplit.1, Nat.le_refl _,
          Or.inr ⟨rfl, Nat.le_refl _⟩⟩
    next hsplit =>
      rw [List.mem_singleton] at h
      subst h
      refine ⟨rfl, hused.2, Nat.le_refl _, Nat.le_refl _, ?_⟩
      by_cases hlow : e.startPfn < dmaPfn
      · left
        refine ⟨if_pos hlow, ?_⟩
        show e.endPfn ≤ dmaPfn
        omega
      · right
        exact ⟨if_neg hlow, Nat.not_lt.mp hlow⟩

/-- The zones of an entry hold exactly its pages. -/
theorem contains_entryZones (e : E820Entry) (q : ℕ) : (∃ z ∈ entryZones e, z.Contains q) ↔
    e.type = 1#32 ∧ e.startPfn ≤ q ∧ q < e.endPfn := by
  constructor
  · rintro ⟨z, hz, hq⟩
    obtain ⟨htype, -, -, hs, he, -⟩ := mem_entryZones hz
    have h₁ : z.startPfn ≤ q := hq.1
    have h₂ : q < z.endPfn := hq.2
    exact ⟨htype, by omega, by omega⟩
  · rintro ⟨htype, hs, he⟩
    unfold entryZones
    rw [if_neg (by rintro (h | h); exacts [h htype, by omega])]
    by_cases hsplit : e.startPfn < dmaPfn ∧ dmaPfn < e.endPfn
    · rw [if_pos hsplit]
      by_cases hq : q < dmaPfn
      · exact ⟨_, List.mem_cons_self, hs, hq⟩
      · exact ⟨_, List.mem_cons_of_mem _ List.mem_cons_self, Nat.not_lt.mp hq, he⟩
    · rw [if_neg hsplit]
      exact ⟨_, List.mem_cons_self, hs, he⟩

theorem contains_zonesOf (entries : List E820Entry) (q : ℕ) :
    (∃ z ∈ zonesOf entries, z.Contains q) ↔
      ∃ e ∈ entries, e.type = 1#32 ∧ e.startPfn ≤ q ∧ q < e.endPfn := by
  unfold zonesOf
  constructor
  · rintro ⟨z, hz, hq⟩
    obtain ⟨e, he, hz⟩ := List.mem_flatMap.mp hz
    exact ⟨e, he, (contains_entryZones e q).mp ⟨z, hz, hq⟩⟩
  · rintro ⟨e, he, hq⟩
    obtain ⟨z, hz, hq⟩ := (contains_entryZones e q).mpr hq
    exact ⟨z, List.mem_flatMap.mpr ⟨e, he, hz⟩, hq⟩

/-- A zone ends at or before `max_pfn`. -/
theorem endPfn_le_of_mem_zonesOf {entries : List E820Entry} {z : MemoryZone}
    (h : z ∈ zonesOf entries) : z.endPfn ≤ maxPfnOf entries := by
  obtain ⟨e, he, hz⟩ := List.mem_flatMap.mp h
  exact le_trans (mem_entryZones hz).2.2.2.2.1 (endPfn_le_maxPfnOf he)

/-! ## §2  The zone loop -/

/-- The frames of a zone that its frame loop reaches. -/
def MemoryZone.Initialised (z : MemoryZone) (q : ℕ) : Prop :=
  z.startPfn ≤ q ∧ q < z.startPfn + frameLoopCount z.totalPages

instance (z : MemoryZone) (q : ℕ) : Decidable (z.Initialised q) :=
  inferInstanceAs (Decidable (_ ∧ _))

/-- What the zone loop leaves in frame `q`, for the zones built so far. -/
structure FrameOf (zones : List MemoryZone) (q : ℕ) (f : PageFrame) : Prop where
  pfn : f.pfn = q
  refCount : f.refCount = 0
  flags : f.flags = if f.zone = none then pageReserved else 0
  home : ∀ i, f.zone = some i → ∃ z, zones[i]? = some z ∧ z.Initialised q
  orphan : f.zone = none → ∀ z ∈ zones, ¬ z.Initialised q

theorem frameOf_reserved (q : ℕ) : FrameOf [] q (PageFrame.reserved q) where
  pfn := rfl
  refCount := rfl
  flags := rfl
  home := fun _ h => (nomatch h)
  orphan := fun _ _ hz => absurd hz List.not_mem_nil

theorem initFrames_returns {checked : Bool} {zone : MemoryZone} {maxPfn index k : ℕ}
    {page : List PageFrame} (hcheck : zone.endPfn ≤ maxPfn)
    (hlen : zone.startPfn + k ≤ page.length) :
    ∃ page', forRange (initFrame checked zone maxPfn index) zone.startPfn k page = .ok page' ∧
      page'.length = page.length ∧
      ∀ q, page'[q]? = if zone.startPfn ≤ q ∧ q < zone.startPfn + k
        then some (PageFrame.ofZone index q) else page[q]? := by
  refine forRange_returns (fun n (p : List PageFrame) => p.length = page.length ∧
    ∀ q, p[q]? = if zone.startPfn ≤ q ∧ q < zone.startPfn + n
      then some (PageFrame.ofZone index q) else page[q]?) ?_ ?_
  · rintro n p hn ⟨hplen, hframes⟩
    have hlt : zone.startPfn + n < p.length := by omega
    refine ⟨p.set (zone.startPfn + n) (PageFrame.ofZone index (zone.startPfn + n)), ?_,
      by rw [List.length_set, hplen], fun q => ?_⟩
    · unfold initFrame
      rw [if_neg (by omega), if_pos hlt]
    · rw [getElem?_set_of_lt hlt, hframes]
      exact ite_run_succ fun hq => by rw [hq]
  · exact ⟨rfl, fun q => by rw [if_neg (by omega)]⟩

/-- The state of the zone loop that started in `s₀` and has built the zones `built`. -/
structure ZonesBuilt (s₀ : Boot) (built : List MemoryZone) (s : Boot) : Prop where
  zones : s.gmm.zone = built
  frameCount : s.gmm.page.length = s₀.gmm.page.length
  frames : ∀ q f, s.gmm.page[q]? = some f → FrameOf built q f
  accesses : s.accesses = s₀.accesses ++
    (List.range built.length).map fun i => ⟨.zone, i, s₀.gmm.e820Entry.length⟩
  rest : s = { s₀ with
    gmm := { s₀.gmm with zone := s.gmm.zone, page := s.gmm.page }
    accesses := s.accesses }

theorem ZonesBuilt.table {s₀ s : Boot} {zones : List MemoryZone} (h : ZonesBuilt s₀ zones s) :
    s.gmm.e820Entry = s₀.gmm.e820Entry := by
  rw [h.rest]

theorem ZonesBuilt.maxPfn {s₀ s : Boot} {zones : List MemoryZone} (h : ZonesBuilt s₀ zones s) :
    s.maxPfn = s₀.maxPfn := by
  rw [h.rest]

/-- One more zone: its frames change hands, the others keep their zone. -/
theorem FrameOf.snoc {zones : List MemoryZone} {zone : MemoryZone} {q : ℕ} {f : PageFrame}
    (h : FrameOf zones q f) (hq : ¬ zone.Initialised q) : FrameOf (zones ++ [zone]) q f where
  pfn := h.pfn
  refCount := h.refCount
  flags := h.flags
  home := by
    intro i hi
    obtain ⟨z, hz, hin⟩ := h.home i hi
    have hlt := (List.getElem?_eq_some_iff.mp hz).1
    exact ⟨z, by rwa [List.getElem?_append_left hlt], hin⟩
  orphan := by
    intro hnone z hz
    rcases List.mem_append.mp hz with hz | hz
    · exact h.orphan hnone z hz
    · rw [List.mem_singleton] at hz
      rwa [hz]

theorem frameOf_ofZone {zones : List MemoryZone} {zone : MemoryZone} {q : ℕ}
    (hq : zone.Initialised q) :
    FrameOf (zones ++ [zone]) q (PageFrame.ofZone zones.length q) where
  pfn := rfl
  refCount := rfl
  flags := rfl
  home := by
    intro i hi
    cases hi
    exact ⟨zone, by simp, hq⟩
  orphan := fun h => (nomatch h)

theorem addZone_returns {s₀ s : Boot} {zones : List MemoryZone} {zone : MemoryZone}
    {checked : Bool} (h : ZonesBuilt s₀ zones s) (hcheck : zone.endPfn ≤ s₀.maxPfn)
    (hlen : zone.startPfn + frameLoopCount zone.totalPages ≤ s₀.gmm.page.length) :
    ∃ s', addZone checked zone s = .ok s' ∧ ZonesBuilt s₀ (zones ++ [zone]) s' := by
  obtain ⟨page, hrun, hplen, hframes⟩ := @initFrames_returns checked zone s.maxPfn
    s.gmm.zone.length (frameLoopCount zone.totalPages) s.gmm.page (by rwa [h.maxPfn])
    (by rwa [h.frameCount])
  refine ⟨_, by rw [addZone, hrun]; rfl, ?_, ?_, fun q f hf => ?_, ?_, ?_⟩
  · show s.gmm.zone ++ [zone] = _
    rw [h.zones]
  · exact hplen.trans h.frameCount
  · have hf' : page[q]? = some f := hf
    rw [hframes] at hf'
    change (if zone.Initialised q then _ else _) = _ at hf'
    by_cases hq : zone.Initialised q
    · rw [if_pos hq] at hf'
      cases hf'
      rw [h.zones]
      exact frameOf_ofZone hq
    · rw [if_neg hq] at hf'
      exact (h.frames q f hf').snoc hq
  · show s.accesses ++ _ = _
    rw [h.accesses, h.zones, h.table, List.length_append, List.length_singleton,
      List.range_succ, List.map_append, List.append_assoc]
    rfl
  · rw [h.rest]

theorem buildZones_returns {s₀ s : Boot} {zones : List MemoryZone} {e : E820Entry}
    (h : ZonesBuilt s₀ zones s) (hpage : s₀.gmm.page.length = s₀.maxPfn + 1)
    (he : e.endPfn ≤ s₀.maxPfn) :
    ∃ s', buildZones s e = .ok s' ∧ ZonesBuilt s₀ (zones ++ entryZones e) s' := by
  have hfits : ∀ {type : MemoryZoneType} {a b : ℕ}, a ≤ b → b ≤ e.endPfn →
      (spanZone type a b).endPfn ≤ s₀.maxPfn ∧ (spanZone type a b).startPfn +
        frameLoopCount (spanZone type a b).totalPages ≤ s₀.gmm.page.length := by
    intro type a b hab hb
    have hmin : frameLoopCount (b - a) ≤ b - a := Nat.min_le_left _ _
    refine ⟨le_trans hb he, ?_⟩
    show a + frameLoopCount (b - a) ≤ _
    omega
  rw [buildZones_eq, entryZones]
  by_cases hskip : e.type ≠ 1#32 ∨ e.endPfn ≤ e.startPfn
  · rw [if_pos hskip, if_pos hskip, List.append_nil]
    exact ⟨s, rfl, h⟩
  · rw [if_neg hskip, if_neg hskip]
    rw [not_or, Nat.not_le] at hskip
    by_cases hsplit : e.startPfn < dmaPfn ∧ dmaPfn < e.endPfn
    · rw [if_pos hsplit, if_pos hsplit]
      have hdma := @hfits .zoneDma _ _ (Nat.le_of_lt hsplit.1) (Nat.le_of_lt hsplit.2)
      have hnormal := @hfits .zoneNormal _ _ (Nat.le_of_lt hsplit.2) (Nat.le_refl _)
      obtain ⟨s₁, hrun₁, h₁⟩ := addZone_returns h hdma.1 hdma.2
      obtain ⟨s₂, hrun₂, h₂⟩ := addZone_returns h₁ hnormal.1 hnormal.2
      refine ⟨s₂, by rw [hrun₁]; exact hrun₂, ?_⟩
      rwa [List.append_assoc] at h₂
    · rw [if_neg hsplit, if_neg hsplit]
      have hwhole := @hfits (if e.startPfn < dmaPfn then .zoneDma else .zoneNormal) _ _
        (Nat.le_of_lt hskip.2) (Nat.le_refl _)
      exact addZone_returns h hwhole.1 hwhole.2

/-! ## §3  The state at the end of the zone loop -/

/-- The indices that the passes use on `e820_entry`, `memory_type_array` and the zone
array. -/
def passAccesses (buffer : E820Buffer) : List Access :=
  (List.range buffer.count).map (fun i => ⟨.e820Entry, i, e820MaxEntries⟩) ++
    buffer.table.map (fun e => ⟨.memoryTypeArray, e.type.toNat, memoryTypeArrayLength⟩) ++
    (List.range (zonesOf buffer.table).length).map
      (fun i => ⟨.zone, i, buffer.table.length⟩)

/-- What the later phases need to know about that state. -/
structure Constructed (buffer : E820Buffer) (s : Boot) : Prop where
  table : s.gmm.e820Entry = buffer.table
  maxPfn : s.maxPfn = maxPfnOf buffer.table
  zones : s.gmm.zone = zonesOf buffer.table
  words : s.gmm.bitmap.length = (maxPfnOf buffer.table + 64) / 64
  bits : ∀ q, bitAt s.gmm.bitmap q = some true ↔ MarkedOut buffer.table q
  frameCount : s.gmm.page.length = maxPfnOf buffer.table + 1
  frames : ∀ q f, s.gmm.page[q]? = some f → FrameOf (zonesOf buffer.table) q f
  total : s.gmm.total2mPages = BitVec.ofNat 64 (buffer.table.map countedPages).sum
  accesses : s.accesses = passAccesses buffer

/-- The state in which the zone loop starts. -/
structure Prepared (buffer : E820Buffer) (s : Boot) : Prop where
  table : s.gmm.e820Entry = buffer.table
  maxPfn : s.maxPfn = maxPfnOf buffer.table
  zones : s.gmm.zone = []
  words : s.gmm.bitmap.length = (maxPfnOf buffer.table + 64) / 64
  bits : ∀ q, bitAt s.gmm.bitmap q = some true ↔ MarkedOut buffer.table q
  page : s.gmm.page = (List.range (maxPfnOf buffer.table + 1)).map PageFrame.reserved
  total : s.gmm.total2mPages = BitVec.ofNat 64 (buffer.table.map countedPages).sum
  accesses : s.accesses =
    (List.range buffer.count).map (fun i => ⟨.e820Entry, i, e820MaxEntries⟩) ++
      buffer.table.map (fun e => ⟨.memoryTypeArray, e.type.toNat, memoryTypeArrayLength⟩)

theorem initBitmapAndPages_returns (buffer : E820Buffer) :
    ∃ s, initBitmapAndPages (buffer.table.foldl countEntry (copyEntries buffer)) = .ok s ∧
      Prepared buffer s := by
  rw [foldl_countEntry]
  obtain ⟨bitmap, hrun, hlen, hbits⟩ := @forEach_markReserved buffer.table
    (List.replicate ((maxPfnOf buffer.table + 1 + 63) / 64) 0) (fun e he => by
      have := endPfn_le_maxPfnOf he
      rw [List.length_replicate]
      omega)
  refine ⟨_, by rw [initBitmapAndPages]; exact congrArg (· >>= _) hrun, rfl, rfl, rfl, ?_,
    fun q => ?_, rfl, ?_, rfl⟩
  · show bitmap.length = _
    rw [hlen, List.length_replicate]
  · show bitAt bitmap q = some true ↔ _
    rw [hbits]
    refine ⟨fun hq => hq.elim (fun hset => ?_) id, Or.inr⟩
    have hlt := index_lt_of_bitAt hset
    rw [List.length_replicate] at hlt
    have hzero := bitAt_replicate_zero (w := 64) hlt
    exact absurd (hzero.symm.trans hset) (by decide)
  · simp only [copyEntries, GlobalMemoryManager.zeroed, BitVec.ofNat_eq_ofNat, BitVec.zero_add]

/-- No zone has been built yet. -/
theorem Prepared.built {buffer : E820Buffer} {s : Boot} (h : Prepared buffer s) :
    ZonesBuilt s [] s := by
  refine ⟨h.zones, rfl, fun q f hf => ?_, by simp, rfl⟩
  rw [h.page, List.getElem?_map, Option.map_eq_some_iff] at hf
  obtain ⟨i, hi, rfl⟩ := hf
  have hiq : i = q := by
    obtain ⟨hlt, hget⟩ := List.getElem?_eq_some_iff.mp hi
    rw [← hget, List.getElem_range]
  rw [hiq]
  exact frameOf_reserved q

theorem Prepared.pageCount {buffer : E820Buffer} {s : Boot} (h : Prepared buffer s) :
    s.gmm.page.length = s.maxPfn + 1 := by
  rw [h.page, h.maxPfn, List.length_map, List.length_range]

/-- The zone loop over the whole table. -/
theorem Prepared.zoneLoop {buffer : E820Buffer} {s₀ : Boot} (h : Prepared buffer s₀) :
    ∃ s, forEach buildZones s₀.gmm.e820Entry s₀ = .ok s ∧
      ZonesBuilt s₀ (zonesOf buffer.table) s := by
  have hloop := @forEach_returns _ _ _ buildZones (fun pre s => ZonesBuilt s₀ (zonesOf pre) s)
    s₀.gmm.e820Entry [] s₀ ?_ h.built
  · rw [List.nil_append] at hloop
    rwa [h.table] at hloop ⊢
  · rintro pre e s ⟨post, hpost⟩ hs
    rw [List.nil_append, h.table] at hpost
    have he : e ∈ buffer.table := by
      rw [← hpost]
      simp
    have hzones : zonesOf (pre ++ [e]) = zonesOf pre ++ entryZones e := by
      simp [zonesOf]
    rw [hzones]
    refine buildZones_returns hs h.pageCount ?_
    rw [h.maxPfn]
    exact endPfn_le_maxPfnOf he

/-- **The zone loop never faults**, whatever the firmware left; in particular the halt
on `end_pfn > max_pfn` is not reached. -/
theorem constructZones_returns (buffer : E820Buffer) :
    ∃ s, constructZones buffer = .ok s ∧ Constructed buffer s := by
  obtain ⟨s₀, hinit, h₀⟩ := initBitmapAndPages_returns buffer
  obtain ⟨s, hrun, hs⟩ := h₀.zoneLoop
  refine ⟨s, by rw [constructZones, hinit]; exact hrun, hs.table.trans h₀.table,
    hs.maxPfn.trans h₀.maxPfn, hs.zones, ?_, fun q => ?_, ?_, hs.frames, ?_, ?_⟩
  · rw [hs.rest]
    exact h₀.words
  · rw [hs.rest]
    exact h₀.bits q
  · rw [hs.frameCount, h₀.pageCount, h₀.maxPfn]
  · rw [hs.rest]
    exact h₀.total
  · rw [hs.accesses, h₀.accesses, h₀.table]
    rfl

/-! ## §4  What the zones are for -/

/-- No byte belongs to two RAM entries. -/
def RamDisjoint (entries : List E820Entry) : Prop :=
  entries.Pairwise fun a b => a.type = 1#32 → b.type = 1#32 →
    ∀ addr, ¬ (a.Covers addr ∧ b.Covers addr)

/-- The zones partition the whole pages of the RAM entries, below and above 16 MB
apart; their sizes add up to the pages counted; and every frame but frame 0 records
its own number and the zone it lies in. -/
structure ZonesExact (entries : List E820Entry) (s : Boot) : Prop where
  union : ∀ q, (∃ z ∈ s.gmm.zone, z.Contains q) ↔ ∃ e ∈ entries, e.type = 1#32 ∧ e.HoldsPage q
  nonempty : ∀ z ∈ s.gmm.zone, z.startPfn < z.endPfn
  bounded : ∀ z ∈ s.gmm.zone, z.endPfn ≤ s.maxPfn
  disjoint : s.gmm.zone.Pairwise fun a b => ∀ q, ¬ (a.Contains q ∧ b.Contains q)
  dma : ∀ z ∈ s.gmm.zone, z.type = .zoneDma → z.endPfn * page2mSize ≤ dmaBoundary
  normal : ∀ z ∈ s.gmm.zone, z.type = .zoneNormal → dmaBoundary ≤ z.startPfn * page2mSize
  total : (s.gmm.zone.map MemoryZone.totalPages).sum = s.gmm.total2mPages.toNat
  frames : ∀ q f, 1 ≤ q → s.gmm.page[q]? = some f →
    f.pfn = q ∧ ∀ i, f.zone = some i ↔ ∃ z, s.gmm.zone[i]? = some z ∧ z.Contains q

theorem spanZone_of_mem {entries : List E820Entry} {z : MemoryZone} (h : z ∈ zonesOf entries) :
    z = spanZone z.type z.startPfn z.endPfn ∧ z.startPfn < z.endPfn := by
  obtain ⟨e, -, hz⟩ := List.mem_flatMap.mp h
  exact ⟨(mem_entryZones hz).2.1, (mem_entryZones hz).2.2.1⟩

theorem totalPages_of_mem {entries : List E820Entry} {z : MemoryZone} (h : z ∈ zonesOf entries) :
    z.totalPages = z.endPfn - z.startPfn :=
  congrArg MemoryZone.totalPages (spanZone_of_mem h).1

/-- A zone lies below 16 MB or from there on, as its type says. -/
theorem type_of_mem {entries : List E820Entry} {z : MemoryZone} (h : z ∈ zonesOf entries) :
    (z.type = .zoneDma ∧ z.endPfn * page2mSize ≤ dmaBoundary) ∨
      (z.type = .zoneNormal ∧ dmaBoundary ≤ z.startPfn * page2mSize) := by
  obtain ⟨e, -, hz⟩ := List.mem_flatMap.mp h
  rw [dmaBoundary_eq]
  rcases (mem_entryZones hz).2.2.2.2.2 with ⟨htype, hle⟩ | ⟨htype, hle⟩
  · exact Or.inl ⟨htype, Nat.mul_le_mul_right _ hle⟩
  · exact Or.inr ⟨htype, Nat.mul_le_mul_right _ hle⟩

/-- The frame loop reaches the first `2^31` pages of a zone. -/
theorem initialised_iff {entries : List E820Entry} {z : MemoryZone} (h : z ∈ zonesOf entries)
    (q : ℕ) : z.Initialised q ↔ z.Contains q ∧ q < z.startPfn + 2 ^ 31 := by
  have hlt := (spanZone_of_mem h).2
  have htotal := totalPages_of_mem h
  have hmin : q < z.startPfn + frameLoopCount z.totalPages ↔
      q < z.startPfn + z.totalPages ∧ q < z.startPfn + 2 ^ 31 := by
    unfold frameLoopCount
    omega
  unfold MemoryZone.Initialised MemoryZone.Contains
  rw [hmin, htotal, show z.startPfn + (z.endPfn - z.startPfn) = z.endPfn from by omega, and_assoc]

theorem not_contains_two {e e' : E820Entry} (he : e.NoWrap) (he' : e'.NoWrap)
    (hdisj : e.type = 1#32 → e'.type = 1#32 → ∀ addr, ¬ (e.Covers addr ∧ e'.Covers addr))
    {z z' : MemoryZone} (hz : z ∈ entryZones e) (hz' : z' ∈ entryZones e') (q : ℕ) :
    ¬ (z.Contains q ∧ z'.Contains q) := by
  rintro ⟨hq, hq'⟩
  obtain ⟨htype, hin⟩ := (contains_entryZones e q).mp ⟨z, hz, hq⟩
  obtain ⟨htype', hin'⟩ := (contains_entryZones e' q).mp ⟨z', hz', hq'⟩
  have haddr : q * page2mSize / page2mSize = q := Nat.mul_div_cancel q (by decide)
  exact hdisj htype htype' (q * page2mSize)
    ⟨(holdsPage_iff he q).mpr hin _ haddr, (holdsPage_iff he' q).mpr hin' _ haddr⟩

theorem pairwise_entryZones (e : E820Entry) :
    (entryZones e).Pairwise fun a b => ∀ q, ¬ (a.Contains q ∧ b.Contains q) := by
  unfold entryZones
  split
  · exact List.Pairwise.nil
  · split
    · refine List.pairwise_pair.mpr fun q hq => ?_
      have h₁ : q < dmaPfn := hq.1.2
      have h₂ : dmaPfn ≤ q := hq.2.1
      omega
    · exact List.pairwise_singleton _ _

theorem pairwise_zonesOf {entries : List E820Entry} (hwrap : ∀ e ∈ entries, e.NoWrap)
    (hdisj : RamDisjoint entries) :
    (zonesOf entries).Pairwise fun a b => ∀ q, ¬ (a.Contains q ∧ b.Contains q) := by
  unfold zonesOf
  rw [List.pairwise_flatMap]
  refine ⟨fun e _ => pairwise_entryZones e, ?_⟩
  refine List.Pairwise.imp_of_mem (fun {e e'} he he' h => ?_) hdisj
  exact fun z hz z' hz' => not_contains_two (hwrap e he) (hwrap e' he') h hz hz'

theorem sum_totalPages_entry {e : E820Entry} (h : e.NoWrap) :
    ((entryZones e).map MemoryZone.totalPages).sum = countedPages e := by
  have hzero : e.length = 0 → e.endPfn ≤ e.startPfn := by
    intro hlen
    by_contra hlt
    have hpage := (holdsPage_iff_bytes e e.startPfn).mp
      ((holdsPage_iff h e.startPfn).mpr ⟨Nat.le_refl _, Nat.not_le.mp hlt⟩)
    rw [Nat.succ_mul] at hpage
    have : 0 < page2mSize := by decide
    omega
  unfold entryZones countedPages
  by_cases htype : e.type ≠ 1#32
  · rw [if_pos (Or.inl htype), if_pos (Or.inl htype)]
    rfl
  · by_cases hempty : e.endPfn ≤ e.startPfn
    · rw [if_pos (Or.inr hempty), Nat.sub_eq_zero_of_le hempty, ite_self]
      rfl
    · have hlen : e.length ≠ 0 := fun hlen => hempty (hzero hlen)
      rw [if_neg (not_or.mpr ⟨htype, hempty⟩), if_neg (not_or.mpr ⟨htype, hlen⟩)]
      by_cases hsplit : e.startPfn < dmaPfn ∧ dmaPfn < e.endPfn
      · rw [if_pos hsplit, List.map_cons, List.map_singleton, List.sum_cons, List.sum_singleton,
          totalPages_spanZone, totalPages_spanZone]
        omega
      · rw [if_neg hsplit, List.map_singleton, List.sum_singleton, totalPages_spanZone]

theorem sum_totalPages {entries : List E820Entry} (hwrap : ∀ e ∈ entries, e.NoWrap) :
    ((zonesOf entries).map MemoryZone.totalPages).sum = (entries.map countedPages).sum := by
  unfold zonesOf
  induction entries with
  | nil => rfl
  | cons e es ih =>
      rw [List.flatMap_cons, List.map_append, List.sum_append, List.map_cons, List.sum_cons,
        sum_totalPages_entry (hwrap e List.mem_cons_self),
        ih fun e' he' => hwrap e' (List.mem_cons_of_mem _ he')]

theorem table_length_le (buffer : E820Buffer) : buffer.table.length ≤ e820MaxEntries := by
  unfold E820Buffer.table E820Buffer.count
  rw [List.length_map, List.length_range]
  split <;> omega

/-- 64 entries cannot overflow the count. -/
theorem sum_countedPages_lt (buffer : E820Buffer) :
    (buffer.table.map countedPages).sum < 2 ^ 64 := by
  have hone : ∀ n ∈ buffer.table.map countedPages, n ≤ 2 ^ 43 := by
    intro n hn
    obtain ⟨e, -, rfl⟩ := List.mem_map.mp hn
    have := endPfn_lt e
    unfold countedPages
    split <;> omega
  have hsum := List.sum_le_card_nsmul _ _ hone
  have hlen : buffer.table.length ≤ 64 := table_length_le buffer
  rw [List.length_map, Nat.nsmul_eq_mul] at hsum
  calc _ ≤ buffer.table.length * 2 ^ 43 := hsum
    _ ≤ 64 * 2 ^ 43 := Nat.mul_le_mul_right _ hlen
    _ < 2 ^ 64 := by decide

section Exact

variable {buffer : E820Buffer} {s : Boot} (h : Constructed buffer s)

include h

/-- A zone that outgrows the frame loop's counter has a frame that does not know it. -/
theorem totalPages_le_of_exact (hexact : ZonesExact buffer.table s) {z : MemoryZone}
    (hz : z ∈ zonesOf buffer.table) : z.totalPages ≤ 2 ^ 31 := by
  by_contra hbig
  have hlt := (spanZone_of_mem hz).2
  have htotal := totalPages_of_mem hz
  have hbound := endPfn_le_of_mem_zonesOf hz
  -- the first page that the frame loop does not reach
  have hin : z.Contains (z.startPfn + 2 ^ 31) := ⟨by omega, by omega⟩
  have hlen : z.startPfn + 2 ^ 31 < s.gmm.page.length := by
    rw [h.frameCount]
    omega
  have hframe := List.getElem?_eq_getElem hlen
  obtain ⟨i, hi⟩ := List.mem_iff_getElem?.mp hz
  have hhome := ((hexact.frames _ _ (by omega) hframe).2 i).mpr ⟨z, by rwa [h.zones], hin⟩
  obtain ⟨z', hz', hinit⟩ := (h.frames _ _ hframe).home i hhome
  rw [hi] at hz'
  cases hz'
  have := ((initialised_iff hz _).mp hinit).2
  omega

/-- Where the frame loop reaches all pages, frames and zones point to each other. -/
theorem home_iff (hsmall : ∀ z ∈ zonesOf buffer.table, z.totalPages ≤ 2 ^ 31)
    (hpair : (zonesOf buffer.table).Pairwise fun a b => ∀ q, ¬ (a.Contains q ∧ b.Contains q))
    {q : ℕ} {f : PageFrame} (hf : s.gmm.page[q]? = some f) (i : ℕ) :
    f.zone = some i ↔ ∃ z, (zonesOf buffer.table)[i]? = some z ∧ z.Contains q := by
  have hframe := h.frames q f hf
  constructor
  · intro hi
    obtain ⟨z, hz, hinit⟩ := hframe.home i hi
    exact ⟨z, hz, ((initialised_iff (List.mem_of_getElem? hz) q).mp hinit).1⟩
  · rintro ⟨z, hz, hin⟩
    have hmem := List.mem_of_getElem? hz
    have htotal := totalPages_of_mem hmem
    have hle := hsmall z hmem
    have hend : q < z.endPfn := hin.2
    have hinit := (initialised_iff hmem q).mpr ⟨hin, by omega⟩
    cases hzone : f.zone with
    | none => exact absurd hinit (hframe.orphan hzone z hmem)
    | some j =>
        obtain ⟨z', hz', hinit'⟩ := hframe.home j hzone
        have hin' := ((initialised_iff (List.mem_of_getElem? hz') q).mp hinit').1
        rw [eq_of_contains hpair hz hz' hin hin']

/-- The zone loop meets its purpose iff no zone outgrows the frame loop's counter. -/
theorem zonesExact_iff (hwrap : ∀ e ∈ buffer.table, e.NoWrap) (hdisj : RamDisjoint buffer.table) :
    ZonesExact buffer.table s ↔ ∀ z ∈ zonesOf buffer.table, z.totalPages ≤ 2 ^ 31 := by
  have hpair := pairwise_zonesOf hwrap hdisj
  refine ⟨fun hexact z hz => totalPages_le_of_exact h hexact hz, fun hsmall => ?_⟩
  refine ⟨fun q => ?_, fun z hz => ?_, fun z hz => ?_, ?_, fun z hz htype => ?_,
    fun z hz htype => ?_, ?_, fun q f _ hf => ⟨(h.frames q f hf).pfn, fun i => ?_⟩⟩
  · rw [h.zones, contains_zonesOf]
    exact exists_congr fun e => and_congr_right fun he =>
      and_congr_right fun _ => (holdsPage_iff (hwrap e he) q).symm
  · rw [h.zones] at hz
    exact (spanZone_of_mem hz).2
  · rw [h.zones] at hz
    rw [h.maxPfn]
    exact endPfn_le_of_mem_zonesOf hz
  · rwa [h.zones]
  · rw [h.zones] at hz
    rcases type_of_mem hz with ⟨-, hle⟩ | ⟨hnormal, -⟩
    · exact hle
    · rw [htype] at hnormal
      cases hnormal
  · rw [h.zones] at hz
    rcases type_of_mem hz with ⟨hdma, -⟩ | ⟨-, hle⟩
    · rw [htype] at hdma
      cases hdma
    · exact hle
  · rw [h.zones, h.total, sum_totalPages hwrap, BitVec.toNat_ofNat,
      Nat.mod_eq_of_lt (sum_countedPages_lt buffer)]
  · rw [h.zones]
    exact home_iff h hsmall hpair hf i

end Exact

/-- The whole pages of an entry, without those below 16 MB if it reaches across. -/
def E820Entry.lastZonePages (e : E820Entry) : ℕ :=
  e.endPfn - if e.startPfn < dmaPfn ∧ dmaPfn < e.endPfn then dmaPfn else e.startPfn

theorem totalPages_le_iff (entries : List E820Entry) :
    (∀ z ∈ zonesOf entries, z.totalPages ≤ 2 ^ 31) ↔
      ∀ e ∈ entries, e.type = 1#32 → e.lastZonePages ≤ 2 ^ 31 := by
  unfold zonesOf
  rw [List.forall_mem_flatMap]
  refine forall_congr' fun e => imp_congr_right fun _ => ?_
  unfold entryZones E820Entry.lastZonePages
  by_cases htype : e.type = 1#32
  · by_cases hempty : e.endPfn ≤ e.startPfn
    · have hsplit : ¬ (e.startPfn < dmaPfn ∧ dmaPfn < e.endPfn) := by omega
      rw [if_pos (Or.inr hempty), if_neg hsplit, Nat.sub_eq_zero_of_le hempty]
      exact ⟨fun _ _ => Nat.zero_le _, fun _ z hz => absurd hz List.not_mem_nil⟩
    · rw [if_neg (not_or.mpr ⟨fun h => h htype, hempty⟩)]
      by_cases hsplit : e.startPfn < dmaPfn ∧ dmaPfn < e.endPfn
      · rw [if_pos hsplit, if_pos hsplit, List.forall_mem_cons, List.forall_mem_singleton,
          totalPages_spanZone, totalPages_spanZone]
        have hdma : dmaPfn - e.startPfn ≤ 2 ^ 31 := le_trans (Nat.sub_le _ _) (by decide)
        exact ⟨fun h _ => h.2, fun h => ⟨hdma, h htype⟩⟩
      · rw [if_neg hsplit, if_neg hsplit, List.forall_mem_singleton, totalPages_spanZone]
        exact ⟨fun h _ => h, fun h => h htype⟩
  · rw [if_pos (Or.inl htype)]
    exact ⟨fun _ h => absurd h htype, fun _ z hz => absurd hz List.not_mem_nil⟩

/-- 640 KB and 64 MB of RAM with a hole between them. -/
def smallMachine : E820Buffer :=
  bufferOf [entryOf 0 0xA0000 1, entryOf 0xF0000 0x10000 2, entryOf 0x100000 0x3F00000 1]

/-- One RAM entry of `2^53` bytes. -/
def hugeMachine : E820Buffer := bufferOf [entryOf 0x1000000 (2 ^ 53) 1]

end Knos.Memory
