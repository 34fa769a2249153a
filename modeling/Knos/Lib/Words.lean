import Mathlib.Data.Finset.Card
import Mathlib.Order.Interval.Finset.Nat
import Mathlib.Algebra.Order.Interval.Finset.Basic
import Mathlib.Data.Nat.Count
import Mathlib.Tactic.Ring

/-!
# A list of machine words read as one long row of bits

Bit `i` of the row is bit `i % w` of word `i / w`. `bitAt` is the only view the
other modules use: it is `none` beyond the last word, so a statement that a bit
is clear also says that it exists.

§1 the view, its two updates, and the masks that set a run of bits · §2 rows of clear
bits (`AllClear`) and the word and mask tests that decide them · §3 counting the clear
bits of an interval.
-/

namespace Knos.Words

variable {w : ℕ}

/-! ## §1  Bits, and setting and clearing one -/

/-- Bit `i` of the row; `none` when `i` lies beyond the last word. -/
def bitAt (ws : List (BitVec w)) (i : ℕ) : Option Bool :=
  ws[i / w]?.map (·.getLsbD (i % w))

/-- `ws[i / w] |= 1 << i % w` -/
def setBit (ws : List (BitVec w)) (i : ℕ) : List (BitVec w) :=
  ws.modify (i / w) (· ||| 1#w <<< (i % w))

/-- `ws[i / w] &= ~(1 << i % w)` -/
def clearBit (ws : List (BitVec w)) (i : ℕ) : List (BitVec w) :=
  ws.modify (i / w) (· &&& ~~~(1#w <<< (i % w)))

@[simp] theorem length_setBit (ws : List (BitVec w)) (i : ℕ) :
    (setBit ws i).length = ws.length := by
  simp [setBit]

@[simp] theorem length_clearBit (ws : List (BitVec w)) (i : ℕ) :
    (clearBit ws i).length = ws.length := by
  simp [clearBit]

theorem bitAt_eq_none (ws : List (BitVec w)) (i : ℕ) :
    bitAt ws i = none ↔ ws.length ≤ i / w := by
  simp [bitAt]

theorem index_lt_of_bitAt {ws : List (BitVec w)} {i : ℕ} {b : Bool}
    (h : bitAt ws i = some b) : i / w < ws.length := by
  by_contra hlt
  rw [(bitAt_eq_none ws i).mpr (by omega)] at h
  cases h

/-- Inside the row every bit reads as set or as clear. -/
theorem bitAt_cases {ws : List (BitVec w)} {i : ℕ} (h : i / w < ws.length) :
    bitAt ws i = some true ∨ bitAt ws i = some false := by
  cases hb : bitAt ws i with
  | none =>
      rw [bitAt_eq_none] at hb
      omega
  | some b => cases b <;> simp

/-- Two positions agree when word and offset do. -/
theorem eq_of_div_mod {i j : ℕ} (hq : i / w = j / w) (hr : i % w = j % w) : i = j := by
  rw [← Nat.div_add_mod i w, ← Nat.div_add_mod j w, hq, hr]

theorem bitAt_setBit (hw : 0 < w) {ws : List (BitVec w)} {i : ℕ}
    (hi : i / w < ws.length) (j : ℕ) :
    bitAt (setBit ws i) j = if j = i then some true else bitAt ws j := by
  unfold bitAt setBit
  have hjw : j % w < w := Nat.mod_lt j hw
  by_cases hq : i / w = j / w
  · have hr : j = i ↔ i % w = j % w :=
      ⟨fun h => by rw [h], fun h => (eq_of_div_mod hq h).symm⟩
    rw [← hq, List.getElem?_modify_eq, List.getElem?_eq_getElem hi]
    by_cases h : j = i
    · subst h
      simp [← BitVec.twoPow_eq, hjw]
    · have hne : ¬ i % w = j % w := fun e => h (hr.mpr e)
      simp [← BitVec.twoPow_eq, h, hne]
  · have hne : j ≠ i := fun h => hq (by rw [h])
    rw [List.getElem?_modify_ne _ _ hq, if_neg hne]

theorem bitAt_clearBit (hw : 0 < w) {ws : List (BitVec w)} {i : ℕ}
    (hi : i / w < ws.length) (j : ℕ) :
    bitAt (clearBit ws i) j = if j = i then some false else bitAt ws j := by
  unfold bitAt clearBit
  have hjw : j % w < w := Nat.mod_lt j hw
  by_cases hq : i / w = j / w
  · rw [← hq, List.getElem?_modify_eq, List.getElem?_eq_getElem hi]
    by_cases h : j = i
    · subst h
      simp [← BitVec.twoPow_eq, hjw]
    · have hne : ¬ j % w = i % w := fun e => h (eq_of_div_mod hq e.symm).symm
      simp [← BitVec.twoPow_eq, h, hne, hjw]
  · have hne : j ≠ i := fun h => hq (by rw [h])
    rw [List.getElem?_modify_ne _ _ hq, if_neg hne]

theorem bitAt_replicate_zero {k i : ℕ} (h : i / w < k) :
    bitAt (List.replicate k 0#w) i = some false := by
  simp [bitAt, h]

/-- A bit by its word and its offset. -/
theorem bitAt_of_offset {ws : List (BitVec w)} {i : ℕ} (hi : i < w) (k : ℕ) :
    bitAt ws (i + w * k) = (ws[k]?).map (·.getLsbD i) := by
  have hw : 0 < w := Nat.zero_lt_of_lt hi
  unfold bitAt
  rw [Nat.add_mul_div_left _ _ hw, Nat.div_eq_of_lt hi, Nat.zero_add, Nat.add_mul_mod_self_left,
    Nat.mod_eq_of_lt hi]

/-- A word of the row, from its bits. -/
theorem getElem?_of_bitAt (hw : 0 < w) {ws : List (BitVec w)} {k : ℕ} {x : BitVec w}
    (h : ∀ i, i < w → bitAt ws (i + w * k) = some (x.getLsbD i)) : ws[k]? = some x := by
  cases hk : ws[k]? with
  | none =>
      have hbit := h 0 hw
      rw [bitAt_of_offset hw, hk] at hbit
      cases hbit
  | some y =>
      refine congrArg some (BitVec.eq_of_getLsbD_eq fun i hi => ?_)
      have hbit := h i hi
      rw [bitAt_of_offset hi, hk] at hbit
      exact Option.some.inj hbit

/-- The row says all of the words. -/
theorem ext_bitAt (hw : 0 < w) {ws ws' : List (BitVec w)} (hlen : ws.length = ws'.length)
    (h : ∀ i, bitAt ws i = bitAt ws' i) : ws = ws' := by
  refine List.ext_getElem hlen fun k hk hk' => ?_
  have hword : ws[k]? = some ws'[k] := getElem?_of_bitAt hw fun i hi => by
    rw [h, bitAt_of_offset hi, List.getElem?_eq_getElem hk']
    rfl
  rw [List.getElem?_eq_getElem hk] at hword
  exact Option.some.inj hword

/-! ### A run of bits as long as a word

It reaches into two words at most; a mask for each.
-/

/-- The bits of a run from `a` on in the word where it begins. -/
def runMask (w a : ℕ) : BitVec w := BitVec.allOnes w <<< (a % w)

/-- The bits of the run in the next word. -/
def runMaskNext (w a : ℕ) : BitVec w := BitVec.allOnes w >>> (w - a % w)

theorem getLsbD_runMask {a i : ℕ} (hi : i < w) :
    (runMask w a).getLsbD i = true ↔ a ≤ i + w * (a / w) ∧ i + w * (a / w) < a + w := by
  have hsplit := Nat.div_add_mod a w
  have hmod := Nat.mod_lt a (Nat.zero_lt_of_lt hi)
  have hmask : (runMask w a).getLsbD i = true ↔ a % w ≤ i := by
    simp [runMask, hi]
  rw [hmask]
  omega

theorem getLsbD_runMaskNext {a i : ℕ} (hi : i < w) :
    (runMaskNext w a).getLsbD i = true ↔
      a ≤ i + w * (a / w + 1) ∧ i + w * (a / w + 1) < a + w := by
  have hsplit := Nat.div_add_mod a w
  have hmod := Nat.mod_lt a (Nat.zero_lt_of_lt hi)
  have hmask : (runMaskNext w a).getLsbD i = true ↔ i < a % w := by
    simp [runMaskNext]
    omega
  rw [hmask, Nat.mul_add]
  omega

section SetRun

variable {ws vs : List (BitVec w)} {P : ℕ → Prop} {k : ℕ} {x m : BitVec w}

/-- Where the bits with `P` have been set, a word has been or-ed with its mask. -/
theorem getElem?_of_set (hw : 0 < w) (hlen : vs.length = ws.length)
    (hset : ∀ i, bitAt vs i = some true ↔ bitAt ws i = some true ∨ P i) (hx : ws[k]? = some x)
    (hm : ∀ i, i < w → (m.getLsbD i = true ↔ P (i + w * k))) : vs[k]? = some (x ||| m) := by
  refine getElem?_of_bitAt hw fun i hi => ?_
  have hold : bitAt ws (i + w * k) = some (x.getLsbD i) := by
    rw [bitAt_of_offset hi, hx]
    rfl
  have hlt := index_lt_of_bitAt hold
  rw [← hlen] at hlt
  have hbit : bitAt vs (i + w * k) = some true ↔ (x ||| m).getLsbD i = true := by
    rw [hset, hold, BitVec.getLsbD_or, Bool.or_eq_true, hm i hi, Option.some_inj]
  cases hb : (x ||| m).getLsbD i with
  | true => exact hbit.mpr hb
  | false => exact (bitAt_cases hlt).resolve_left fun hone => by simp [hbit.mp hone] at hb

end SetRun

/-! ## §2  Rows of clear bits -/

/-- The `n` bits from `a` on exist and are clear. -/
def AllClear (ws : List (BitVec w)) (a n : ℕ) : Prop :=
  ∀ i, i < n → bitAt ws (a + i) = some false

instance (ws : List (BitVec w)) (a n : ℕ) : Decidable (AllClear ws a n) :=
  inferInstanceAs (Decidable (∀ i, i < n → _))

theorem allClear_zero (ws : List (BitVec w)) (a : ℕ) : AllClear ws a 0 :=
  fun i hi => absurd hi (Nat.not_lt_zero i)

theorem allClear_add {ws : List (BitVec w)} {a m n : ℕ} :
    AllClear ws a (m + n) ↔ AllClear ws a m ∧ AllClear ws (a + m) n := by
  constructor
  · intro h
    refine ⟨fun i hi => h i (by omega), fun i hi => ?_⟩
    rw [Nat.add_assoc]
    exact h (m + i) (by omega)
  · rintro ⟨h₁, h₂⟩ i hi
    by_cases him : i < m
    · exact h₁ i him
    · have := h₂ (i - m) (by omega)
      rwa [show a + m + (i - m) = a + i from by omega] at this

theorem AllClear.mono {ws : List (BitVec w)} {a m n : ℕ} (h : AllClear ws a n)
    (hm : m ≤ n) : AllClear ws a m :=
  fun i hi => h i (by omega)

/-- A row of clear bits contains each of its sub-rows. -/
theorem AllClear.sub {ws : List (BitVec w)} {a b m n : ℕ} (h : AllClear ws a n)
    (hab : a ≤ b) (hbn : b + m ≤ a + n) : AllClear ws b m := by
  intro i hi
  have := h (b - a + i) (by omega)
  rwa [show a + (b - a + i) = b + i from by omega] at this

/-- A mask test: the masked word is zero iff every masked bit is clear. -/
theorem and_eq_zero_iff (x m : BitVec w) :
    x &&& m = 0#w ↔ ∀ i, i < w → m.getLsbD i = true → x.getLsbD i = false := by
  constructor
  · intro h i _ hm
    have := congrArg (·.getLsbD i) h
    simpa [hm] using this
  · intro h
    apply BitVec.eq_of_getLsbD_eq
    intro i hi
    cases hm : m.getLsbD i with
    | false => simp [hm]
    | true => simp [h i hi hm]

/-- `(1 << n) - 1` has the `n` lowest bits. -/
theorem getLsbD_low {n : ℕ} (hn : n < w) (i : ℕ) :
    (1#w <<< n - 1#w).getLsbD i = decide (i < n) := by
  have h1 : (1#w).toNat = 1 := by
    simp only [BitVec.toNat_ofNat]
    exact Nat.mod_eq_of_lt (Nat.one_lt_two_pow (by omega))
  have hlt : 2 ^ n < 2 ^ w := Nat.pow_lt_pow_right (by omega) hn
  have hpos : 0 < 2 ^ n := Nat.two_pow_pos n
  have hval : (1#w <<< n - 1#w).toNat = 2 ^ n - 1 := by
    rw [← BitVec.twoPow_eq, BitVec.toNat_sub, BitVec.toNat_twoPow_of_lt hn, h1]
    rw [show 2 ^ w - 1 + 2 ^ n = 2 ^ n - 1 + 2 ^ w from by omega, Nat.add_mod_right]
    exact Nat.mod_eq_of_lt (by omega)
  rw [← BitVec.testBit_toNat, hval, Nat.testBit_two_pow_sub_one]

/-- `((1 << n) - 1) << off` has the `n` bits from `off` on. -/
theorem getLsbD_window {n off : ℕ} (hn : n < w) (i : ℕ) :
    ((1#w <<< n - 1#w) <<< off).getLsbD i = decide (i < w ∧ off ≤ i ∧ i < off + n) := by
  rw [BitVec.getLsbD_shiftLeft, getLsbD_low hn]
  by_cases hw : i < w
  · by_cases ho : i < off
    · simp only [hw, ho, decide_true, Bool.not_true, Bool.and_false, Bool.false_and]
      simp only [Bool.false_eq, decide_eq_false_iff_not]
      omega
    · simp only [hw, ho, decide_true, decide_false, Bool.not_false, Bool.true_and, true_and]
      rw [decide_eq_decide]
      constructor
      · intro h
        omega
      · rintro ⟨-, h⟩
        omega
  · simp [hw]

/-- Bits of one word: `k` bits from offset `off` of word `q`. -/
theorem allClear_in_word (hw : 0 < w) {ws : List (BitVec w)} {q off n : ℕ} {x : BitVec w}
    (hq : ws[q]? = some x) (hoff : off + n ≤ w) :
    AllClear ws (w * q + off) n ↔ ∀ i, off ≤ i → i < off + n → x.getLsbD i = false := by
  have hdiv : ∀ i, off + i < w → (w * q + off + i) / w = q ∧ (w * q + off + i) % w = off + i := by
    intro i hi
    rw [Nat.add_assoc]
    exact ⟨by rw [Nat.mul_add_div hw, Nat.div_eq_of_lt hi, Nat.add_zero],
      by rw [Nat.mul_add_mod, Nat.mod_eq_of_lt hi]⟩
  constructor
  · intro h i hlo hhi
    have hi := h (i - off) (by omega)
    obtain ⟨h₁, h₂⟩ := hdiv (i - off) (by omega)
    rw [bitAt, h₁, h₂, hq, Option.map_some, Option.some.injEq] at hi
    rwa [show off + (i - off) = i from by omega] at hi
  · intro h i hi
    obtain ⟨h₁, h₂⟩ := hdiv i (by omega)
    rw [bitAt, h₁, h₂, hq, Option.map_some, h (off + i) (by omega) (by omega)]

/-- The mask test decides `n` bits inside one word. -/
theorem window_test {ws : List (BitVec w)} {q off n : ℕ} {x : BitVec w}
    (hq : ws[q]? = some x) (hn : n < w) (hoff : off + n ≤ w) :
    x &&& ((1#w <<< n - 1#w) <<< off) = 0#w ↔ AllClear ws (w * q + off) n := by
  rw [and_eq_zero_iff, allClear_in_word (by omega) hq hoff]
  constructor
  · intro h i hlo hhi
    exact h i (by omega) (by rw [getLsbD_window hn]; simp; omega)
  · intro h i _ hm
    rw [getLsbD_window hn] at hm
    simp only [decide_eq_true_eq] at hm
    exact h i hm.2.1 hm.2.2

/-- A zero word is `w` clear bits. -/
theorem word_test (hw : 0 < w) {ws : List (BitVec w)} {q : ℕ} {x : BitVec w}
    (hq : ws[q]? = some x) : x = 0#w ↔ AllClear ws (w * q) w := by
  have h := @allClear_in_word w hw ws q 0 w x hq (by omega)
  rw [Nat.add_zero] at h
  rw [h]
  constructor
  · rintro rfl i _ _
    simp
  · intro h
    apply BitVec.eq_of_getLsbD_eq
    intro i hi
    simpa using h i (Nat.zero_le i) (by omega)

/-! ## §3  Counting clear bits -/

/-- The clear bits of `[a, b)`. -/
def clearBits (ws : List (BitVec w)) (a b : ℕ) : Finset ℕ :=
  (Finset.Ico a b).filter (fun i => bitAt ws i = some false)

/-- How many bits of `[a, b)` are clear. -/
def clearCount (ws : List (BitVec w)) (a b : ℕ) : ℕ := (clearBits ws a b).card

theorem mem_clearBits {ws : List (BitVec w)} {a b i : ℕ} :
    i ∈ clearBits ws a b ↔ (a ≤ i ∧ i < b) ∧ bitAt ws i = some false := by
  simp [clearBits]

theorem clearCount_le (ws : List (BitVec w)) (a b : ℕ) : clearCount ws a b ≤ b - a := by
  unfold clearCount clearBits
  calc _ ≤ (Finset.Ico a b).card := Finset.card_filter_le _ _
    _ = b - a := Nat.card_Ico a b

/-- A run of clear bits inside the interval is counted. -/
theorem le_clearCount_of_allClear {ws : List (BitVec w)} {a b s n : ℕ}
    (h : AllClear ws s n) (ha : a ≤ s) (hb : s + n ≤ b) : n ≤ clearCount ws a b := by
  have hsub : Finset.Ico s (s + n) ⊆ clearBits ws a b := by
    intro i hi
    rw [Finset.mem_Ico] at hi
    rw [mem_clearBits]
    refine ⟨⟨by omega, by omega⟩, ?_⟩
    have := h (i - s) (by omega)
    rwa [show s + (i - s) = i from by omega] at this
  calc n = (Finset.Ico s (s + n)).card := by rw [Nat.card_Ico]; omega
    _ ≤ _ := Finset.card_le_card hsub

theorem clearCount_congr {ws vs : List (BitVec w)} {a b : ℕ}
    (h : ∀ i, a ≤ i → i < b → (bitAt ws i = some false ↔ bitAt vs i = some false)) :
    clearCount ws a b = clearCount vs a b := by
  unfold clearCount
  congr 1
  ext i
  rw [mem_clearBits, mem_clearBits]
  constructor
  · rintro ⟨hi, hc⟩
    exact ⟨hi, (h i hi.1 hi.2).mp hc⟩
  · rintro ⟨hi, hc⟩
    exact ⟨hi, (h i hi.1 hi.2).mpr hc⟩

/-- Setting a run of bits inside the interval costs the clear ones among them. -/
theorem clearCount_of_set {ws vs : List (BitVec w)} {a b p n : ℕ} (ha : a ≤ p) (hb : p + n ≤ b)
    (h : ∀ q, bitAt vs q = if p ≤ q ∧ q < p + n then some true else bitAt ws q) :
    clearCount vs a b + clearCount ws p (p + n) = clearCount ws a b := by
  have hunion : clearBits ws a b = clearBits vs a b ∪ clearBits ws p (p + n) := by
    ext q
    rw [Finset.mem_union, mem_clearBits, mem_clearBits, mem_clearBits, h]
    by_cases hq : p ≤ q ∧ q < p + n
    · have hin : a ≤ q ∧ q < b := by omega
      simp [hq, hin]
    · simp [hq]
  have hdisj : Disjoint (clearBits vs a b) (clearBits ws p (p + n)) := by
    rw [Finset.disjoint_left]
    intro q hq hq'
    rw [mem_clearBits, h] at hq
    rw [mem_clearBits] at hq'
    rw [if_pos hq'.1] at hq
    exact Bool.noConfusion (Option.some.inj hq.2)
  unfold clearCount
  rw [hunion, Finset.card_union_of_disjoint hdisj]

/-- Clearing set bits of a run inside the interval adds their number. -/
theorem clearCount_of_clear {ws vs : List (BitVec w)} {a b p n : ℕ} (P : ℕ → Prop)
    [DecidablePred P] (ha : a ≤ p) (hb : p + n ≤ b)
    (h : ∀ q, bitAt vs q = if (p ≤ q ∧ q < p + n) ∧ P q then some false else bitAt ws q)
    (hset : ∀ q, p ≤ q → q < p + n → P q → bitAt ws q = some true) :
    clearCount vs a b = clearCount ws a b + Nat.count (fun i => P (p + i)) n := by
  have hunion : clearBits vs a b =
      clearBits ws a b ∪ ((Finset.range n).filter (fun i => P (p + i))).image (p + ·) := by
    ext q
    rw [Finset.mem_union, mem_clearBits, mem_clearBits, h, Finset.mem_image]
    by_cases hq : (p ≤ q ∧ q < p + n) ∧ P q
    · have hin : a ≤ q ∧ q < b := by omega
      rw [if_pos hq]
      refine ⟨fun _ => Or.inr ⟨q - p, ?_, by omega⟩, fun _ => ⟨hin, rfl⟩⟩
      rw [Finset.mem_filter, Finset.mem_range, show p + (q - p) = q from by omega]
      exact ⟨by omega, hq.2⟩
    · rw [if_neg hq]
      refine ⟨Or.inl, fun hor => hor.elim id ?_⟩
      rintro ⟨i, hi, rfl⟩
      rw [Finset.mem_filter, Finset.mem_range] at hi
      exact absurd ⟨⟨by omega, by omega⟩, hi.2⟩ hq
  have hdisj : Disjoint (clearBits ws a b)
      (((Finset.range n).filter (fun i => P (p + i))).image (p + ·)) := by
    rw [Finset.disjoint_right]
    intro q hq hq'
    obtain ⟨i, hi, rfl⟩ := Finset.mem_image.mp hq
    rw [Finset.mem_filter, Finset.mem_range] at hi
    rw [mem_clearBits, hset (p + i) (by omega) (by omega) hi.2] at hq'
    exact Bool.noConfusion (Option.some.inj hq'.2)
  unfold clearCount
  rw [hunion, Finset.card_union_of_disjoint hdisj,
    Finset.card_image_of_injective _ (fun _ _ => Nat.add_left_cancel), Nat.count_eq_card_filter_range]

end Knos.Words
