import Knos.Lib.Align
import Knos.Memory.InitMemory
import Mathlib.Algebra.BigOperators.Group.List.Basic
import Mathlib.Data.BitVec

/-!
# The E820 entries as `init_memory` reads them

Both passes over the table round an entry inwards to pages: it holds the pages
`[startPfn, endPfn)`, and without wrap-around these are the pages wholly inside
it (§1). §2 has the closed forms of the counting pass and of the first bitmap.
-/

namespace Knos.Memory

open Knos.Loop Knos.Words

/-! ## §1  The pages of an entry -/

theorem u64_lt (x : ℕ) : u64 x < 2 ^ 64 := Nat.mod_lt x (by decide)

theorem page2mAlign_eq (addr : ℕ) :
    page2mAlign addr = u64 (addr + page2mSize - 1) / 2 ^ 21 * 2 ^ 21 :=
  Align.and_mask (u64_lt _) (by decide)

theorem startPfn_eq (e : E820Entry) : e.startPfn = u64 (e.base + page2mSize - 1) / 2 ^ 21 := by
  unfold E820Entry.startPfn page2mShift
  rw [page2mAlign_eq, Nat.shiftRight_eq_div_pow, Nat.mul_div_cancel _ (by decide)]

theorem endPfn_eq (e : E820Entry) : e.endPfn = e.end64 / 2 ^ 21 := by
  unfold E820Entry.endPfn page2mShift
  rw [Nat.shiftRight_eq_div_pow]

theorem alignedBase_eq (e : E820Entry) : e.alignedBase = e.startPfn * 2 ^ 21 := by
  rw [E820Entry.alignedBase, page2mAlign_eq, startPfn_eq]

theorem alignedEnd_eq (e : E820Entry) : e.alignedEnd = e.endPfn * 2 ^ 21 := by
  rw [endPfn_eq]
  exact Align.and_mask (u64_lt _) (by decide)

theorem endPfn_lt (e : E820Entry) : e.endPfn < 2 ^ 43 := by
  have h := u64_lt (e.base + e.length)
  rw [endPfn_eq, E820Entry.end64]
  omega

/-- Nothing that the passes compute from the entry wraps around. -/
def E820Entry.NoWrap (e : E820Entry) : Prop := e.base + e.length + page2mSize < 2 ^ 64

instance (e : E820Entry) : Decidable e.NoWrap := inferInstanceAs (Decidable (_ < _))

/-- The byte at `addr` belongs to the entry. -/
def E820Entry.Covers (e : E820Entry) (addr : ℕ) : Prop :=
  e.base ≤ addr ∧ addr < e.base + e.length

/-- Page `q` lies wholly inside the entry. -/
def E820Entry.HoldsPage (e : E820Entry) (q : ℕ) : Prop :=
  ∀ addr, addr / page2mSize = q → e.Covers addr

/-- Some byte of page `q` belongs to the entry. -/
def E820Entry.TouchesPage (e : E820Entry) (q : ℕ) : Prop :=
  ∃ addr, addr / page2mSize = q ∧ e.Covers addr

theorem holdsPage_iff_bytes (e : E820Entry) (q : ℕ) :
    e.HoldsPage q ↔ e.base ≤ q * page2mSize ∧ (q + 1) * page2mSize ≤ e.base + e.length := by
  have hsize : 0 < page2mSize := by decide
  unfold E820Entry.HoldsPage E820Entry.Covers
  rw [Nat.succ_mul]
  constructor
  · intro h
    have hfirst := h (q * page2mSize) (Nat.mul_div_cancel q hsize)
    have hlast := h (q * page2mSize + (page2mSize - 1)) (by
      rw [Nat.mul_comm, Nat.mul_add_div hsize, Nat.div_eq_of_lt (by omega), Nat.add_zero])
    exact ⟨hfirst.1, by omega⟩
  · rintro ⟨h₁, h₂⟩ addr rfl
    have hlow := Nat.div_mul_le_self addr page2mSize
    have hhigh := Nat.lt_div_mul_add hsize (a := addr)
    exact ⟨by omega, by omega⟩

/-- **Rounding an entry inwards** leaves exactly the pages wholly inside it. -/
theorem holdsPage_iff {e : E820Entry} (h : e.NoWrap) (q : ℕ) :
    e.HoldsPage q ↔ e.startPfn ≤ q ∧ q < e.endPfn := by
  unfold E820Entry.NoWrap page2mSize at h
  have hstart : u64 (e.base + page2mSize - 1) = e.base + page2mSize - 1 := by
    unfold page2mSize
    exact u64_of_lt (by omega)
  have hend : e.end64 = e.base + e.length := u64_of_lt (by omega)
  have hfirst := @Align.ceil_le_iff e.base q page2mSize (by decide)
  have hlast := @Align.lt_floor_iff (e.base + e.length) q page2mSize (by decide)
  rw [holdsPage_iff_bytes, startPfn_eq, endPfn_eq, hstart, hend]
  change _ ↔ (e.base + page2mSize - 1) / page2mSize ≤ q ∧ q < (e.base + e.length) / page2mSize
  rw [hfirst, hlast]

/-! ## §2  The counting pass and the bitmap -/

/-- The highest end of an entry, in pages. -/
def maxPfnOf (entries : List E820Entry) : ℕ :=
  entries.foldl (fun m e => max m e.endPfn) 0

/-- The pages of an entry that pass 1 counts. -/
def countedPages (e : E820Entry) : ℕ :=
  if e.type ≠ 1#32 ∨ e.length = 0 then 0 else e.endPfn - e.startPfn

theorem countEntry_eq (s : Boot) (e : E820Entry) : countEntry s e =
    { gmm := { s.gmm with
        total2mPages := s.gmm.total2mPages + BitVec.ofNat 64 (countedPages e) }
      maxPfn := max s.maxPfn e.endPfn
      accesses := s.accesses ++ [⟨.memoryTypeArray, e.type.toNat, memoryTypeArrayLength⟩] } := by
  have hmax : (if s.maxPfn < e.end64 >>> page2mShift then e.end64 >>> page2mShift
      else s.maxPfn) = max s.maxPfn e.endPfn := by
    change (if s.maxPfn < e.endPfn then e.endPfn else s.maxPfn) = _
    split <;> omega
  unfold countEntry countedPages
  simp only [hmax]
  by_cases htype : e.type ≠ 1#32 ∨ e.length = 0
  · rw [if_pos htype, if_pos htype, BitVec.add_zero]
  · rw [if_neg htype, if_neg htype, alignedBase_eq, alignedEnd_eq]
    by_cases hempty : e.endPfn ≤ e.startPfn
    · rw [if_pos (Nat.mul_le_mul_right _ hempty), Nat.sub_eq_zero_of_le hempty, BitVec.add_zero]
    · rw [if_neg (by omega), ← Nat.sub_mul, page2mSize, Nat.mul_div_cancel _ (by decide)]

/-- Pass 1 in closed form. -/
theorem foldl_countEntry (entries : List E820Entry) : ∀ s : Boot, entries.foldl countEntry s =
    { gmm := { s.gmm with total2mPages :=
        s.gmm.total2mPages + BitVec.ofNat 64 (entries.map countedPages).sum }
      maxPfn := entries.foldl (fun m e => max m e.endPfn) s.maxPfn
      accesses := s.accesses ++
        entries.map fun e => ⟨.memoryTypeArray, e.type.toNat, memoryTypeArrayLength⟩ } := by
  induction entries with
  | nil =>
      intro s
      simp
  | cons e es ih =>
      intro s
      rw [List.foldl_cons, ih, countEntry_eq]
      simp [BitVec.ofNat_add, BitVec.add_assoc]

theorem le_foldl_max (entries : List E820Entry) : ∀ m : ℕ,
    m ≤ entries.foldl (fun m e => max m e.endPfn) m ∧
    ∀ e ∈ entries, e.endPfn ≤
      entries.foldl (fun m e => max m e.endPfn) m := by
  induction entries with
  | nil =>
      intro m
      exact ⟨Nat.le_refl m, fun e he => absurd he List.not_mem_nil⟩
  | cons e es ih =>
      intro m
      obtain ⟨hle, hmem⟩ := ih (max m e.endPfn)
      rw [List.foldl_cons]
      refine ⟨le_trans (Nat.le_max_left _ _) hle, fun e' he' => ?_⟩
      rcases List.mem_cons.mp he' with rfl | he'
      · exact le_trans (Nat.le_max_right _ _) hle
      · exact hmem e' he'

theorem endPfn_le_maxPfnOf {entries : List E820Entry} {e : E820Entry} (h : e ∈ entries) :
    e.endPfn ≤ maxPfnOf entries :=
  (le_foldl_max entries 0).2 e h

theorem maxPfnOf_lt (entries : List E820Entry) : maxPfnOf entries < 2 ^ 43 := by
  have hfold : ∀ (es : List E820Entry) (m : ℕ), m < 2 ^ 43 →
      es.foldl (fun m e => max m e.endPfn) m < 2 ^ 43 := by
    intro es
    induction es with
    | nil => exact fun m hm => hm
    | cons e es ih =>
        intro m hm
        have := endPfn_lt e
        exact ih _ (Nat.max_lt.mpr ⟨hm, this⟩)
  exact hfold entries 0 (by decide)

/-- Setting the bits of an interval. -/
theorem setBits_returns {a k : ℕ} {bitmap : List Word} (h : a + k ≤ 64 * bitmap.length) :
    ∃ bitmap', forRange (fun pfn bitmap => setBitmapBit bitmap pfn) a k bitmap = .ok bitmap' ∧
      bitmap'.length = bitmap.length ∧
      ∀ q, bitAt bitmap' q = if a ≤ q ∧ q < a + k then some true else bitAt bitmap q := by
  refine forRange_returns (fun n b => b.length = bitmap.length ∧
    ∀ q, bitAt b q = if a ≤ q ∧ q < a + n then some true else bitAt bitmap q) ?_ ?_
  · rintro n b hn ⟨hlen, hbits⟩
    have hlt : (a + n) / 64 < b.length := by omega
    refine ⟨setBit b (a + n), setBitmapBit_eq_ok.mpr ⟨hlt, rfl⟩, by rw [length_setBit, hlen], ?_⟩
    intro q
    rw [bitAt_setBit (by omega) hlt, hbits]
    exact ite_run_succ fun _ => rfl
  · exact ⟨rfl, fun q => by rw [if_neg (by omega)]⟩

/-- Page `q` is marked as not usable: it lies between the bounds of an entry that is
not RAM. -/
def MarkedOut (entries : List E820Entry) (q : ℕ) : Prop :=
  ∃ e ∈ entries, e.type ≠ 1#32 ∧ e.startPfn ≤ q ∧ q < e.endPfn

theorem markReserved_returns {bitmap : List Word} {e : E820Entry}
    (h : e.endPfn ≤ 64 * bitmap.length) :
    ∃ bitmap', markReserved bitmap e = .ok bitmap' ∧ bitmap'.length = bitmap.length ∧
      ∀ q, bitAt bitmap' q = some true ↔
        bitAt bitmap q = some true ∨ (e.type ≠ 1#32 ∧ e.startPfn ≤ q ∧ q < e.endPfn) := by
  unfold markReserved
  by_cases htype : e.type = 1#32
  · exact ⟨bitmap, by rw [if_pos htype], rfl, fun q => by simp [htype]⟩
  · rw [if_neg htype]
    by_cases hempty : e.startPfn ≤ e.endPfn
    · obtain ⟨bitmap', hrun, hlen, hbits⟩ :=
        @setBits_returns e.startPfn (e.endPfn - e.startPfn) bitmap (by omega)
      refine ⟨bitmap', hrun, hlen, fun q => ?_⟩
      rw [hbits, show e.startPfn + (e.endPfn - e.startPfn) = e.endPfn from by omega]
      by_cases hin : e.startPfn ≤ q ∧ q < e.endPfn
      · simp [hin, htype]
      · rw [if_neg hin]
        exact ⟨Or.inl, fun h => h.elim id fun h' => absurd h'.2 hin⟩
    · refine ⟨bitmap, ?_, rfl, fun q => ⟨Or.inl, fun h => h.elim id fun h' => ?_⟩⟩
      · rw [Nat.sub_eq_zero_of_le (by omega), forRange_zero]
      · omega

theorem forEach_markReserved {entries : List E820Entry} {bitmap : List Word}
    (hcover : ∀ e ∈ entries, e.endPfn ≤ 64 * bitmap.length) :
    ∃ bitmap', forEach markReserved entries bitmap = .ok bitmap' ∧
      bitmap'.length = bitmap.length ∧
      ∀ q, bitAt bitmap' q = some true ↔ bitAt bitmap q = some true ∨ MarkedOut entries q := by
  have h := @forEach_returns _ _ _ markReserved (fun pre b => b.length = bitmap.length ∧
      ∀ q, bitAt b q = some true ↔ bitAt bitmap q = some true ∨ MarkedOut pre q)
    entries [] bitmap ?_ ?_
  · simpa using h
  · rintro pre e b ⟨post, hpost⟩ ⟨hlen, hbits⟩
    have he : e ∈ entries := by
      rw [← List.nil_append entries, ← hpost]
      simp
    obtain ⟨b', hrun, hlen', hbits'⟩ := @markReserved_returns b e (by rw [hlen]; exact hcover e he)
    refine ⟨b', hrun, hlen'.trans hlen, fun q => ?_⟩
    rw [hbits', hbits, or_assoc]
    simp only [MarkedOut, List.mem_append, List.mem_singleton, or_and_right, exists_or,
      exists_eq_left]
  · exact ⟨rfl, fun q => by simp [MarkedOut]⟩

end Knos.Memory
