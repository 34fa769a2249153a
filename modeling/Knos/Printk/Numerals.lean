import Knos.Lib.Numeral
import Knos.Printk.Rendering

/-!
# The layout of a number

What a number should look like: spaces, the sign, the prefix, zeros that fill the field,
zeros up to the precision, the digits, spaces (`referenceText`). The digits are those of
`Knos.Numeral`, and the fill is what the width leaves of the rest (`bareLength`).

Without `#` this is what `number` appends, cut to the room that there is
(`number_eq_take`). With `#` the width is reduced for the prefix twice, and in base 10 for a
prefix that there is not, so a field that is wider than its content comes out too narrow
(`number_special_iff`).
-/

namespace Knos.Printk

open Knos.Bytes Knos.Stack Knos.Pieces Knos.Numeral

/-! ## §1  The digits -/

/-- The digits in the chosen case. -/
def digitGlyph (small : Bool) : ℕ → Byte := digitChar (if small then smallDigits else capitalDigits)

theorem digitLoop_eq (digits : List Char) {base : ℕ} (hbase : 2 ≤ base) {places num : ℕ}
    (h : num < base ^ places) :
    digitLoop digits base places num = (Nat.digits base num).map (digitChar digits) := by
  induction places generalizing num with
  | zero =>
      obtain rfl : num = 0 := by simpa using h
      rw [Nat.digits_zero]
      rfl
  | succ places ih =>
      unfold digitLoop
      split_ifs with hnum
      · rw [hnum, Nat.digits_zero]
        rfl
      · have hquot : num / base < base ^ places := by
          rw [Nat.div_lt_iff_lt_mul (by omega)]
          rwa [pow_succ] at h
        rw [ih hquot, Nat.digits_eq_cons_digits_div hbase hnum]
        rfl

/-- There are places enough for 64 bits in every base. -/
theorem reverse_tmpOf (small : Bool) {base : ℕ} (hbase : 2 ≤ base) (num : Word) :
    (tmpOf (if small then smallDigits else capitalDigits) base num.toNat).reverse =
      numeral (digitGlyph small) base num.toNat := by
  have hplaces : num.toNat < base ^ 72 :=
    calc num.toNat < 2 ^ 64 := num.isLt
      _ ≤ 2 ^ 72 := by decide
      _ ≤ base ^ 72 := Nat.pow_le_pow_left hbase 72
  unfold tmpOf numeral digitsOf
  by_cases hnum : num.toNat = 0
  · rw [if_pos hnum, if_pos hnum]
    cases small <;> rfl
  · rw [if_neg hnum, if_neg hnum, digitLoop_eq _ hbase hplaces, ← List.map_reverse]
    rfl

theorem length_digitLoop_le (digits : List Char) (base places num : ℕ) :
    (digitLoop digits base places num).length ≤ places := by
  induction places generalizing num with
  | zero => exact Nat.zero_le 0
  | succ places ih =>
      unfold digitLoop
      split_ifs
      · exact Nat.zero_le _
      · exact Nat.succ_le_succ (ih _)

theorem length_numeral_le (small : Bool) {base : ℕ} (hbase : 2 ≤ base) (num : Word) :
    (numeral (digitGlyph small) base num.toNat).length ≤ 72 := by
  rw [← reverse_tmpOf small hbase, List.length_reverse]
  unfold tmpOf
  by_cases hnum : num.toNat = 0
  · rw [if_pos hnum]
    exact (by decide : 1 ≤ 72)
  · rw [if_neg hnum]
    exact length_digitLoop_le _ _ _ _

/-! ## §2  The layout -/

def signText (flags : Flags) (isNegative : Bool) : List Byte :=
  if flags.sign then
    if isNegative then [chr '-'] else if flags.plus then [chr '+'] else if flags.space then [chr ' '] else []
  else []

def prefixText (flags : Flags) (base : ℕ) : List Byte :=
  if flags.special then
    if base = 8 then [chr '0']
    else if base = 16 then [chr '0', if flags.small then chr 'x' else chr 'X']
    else []
  else []

/-- The characters that do not depend on the width. -/
def bareLength (num : Word) (base : ℕ) (prec : ℤ) (flags : Flags) (isNegative : Bool) : ℕ :=
  (signText flags isNegative).length + (prefixText flags base).length +
    max prec.toNat (numeral (digitGlyph flags.small) base num.toNat).length

/-- The characters of a number with so many to fill the field. -/
def layoutText (num : Word) (base fill : ℕ) (prec : ℤ) (flags : Flags) (isNegative : Bool) :
    List Byte :=
  let digits := numeral (digitGlyph flags.small) base num.toNat
  (if flags.left ∨ flags.zeropad then [] else spaces fill) ++
    (signText flags isNegative ++
      (prefixText flags base ++
        ((if flags.zeropad ∧ ¬ flags.left then List.replicate fill (chr '0') else []) ++
          (List.replicate (prec.toNat - digits.length) (chr '0') ++
            (digits ++
              if flags.left then spaces fill else [])))))

/-- **The reference layout** of a number. -/
def referenceText (num : Word) (base : ℕ) (width prec : ℤ) (flags : Flags) (isNegative : Bool) :
    List Byte :=
  layoutText num base (width.toNat - bareLength num base prec flags isNegative) prec flags isNegative

section Layout

variable (num : Word) (base : ℕ) (width prec : ℤ) (flags : Flags) (isNegative : Bool)

@[simp] theorem length_spaces (n : ℕ) : (spaces n).length = n := List.length_replicate

/-- The field is filled on one of three sides. -/
theorem length_layoutText (fill : ℕ) : (layoutText num base fill prec flags isNegative).length =
    fill + bareLength num base prec flags isNegative := by
  unfold layoutText bareLength
  by_cases hleft : flags.left
  · simp only [hleft, true_or, not_true_eq_false, and_false, if_true, if_false, List.nil_append,
      List.length_append, List.length_replicate, length_spaces]
    omega
  · by_cases hzero : flags.zeropad
    · simp only [hleft, hzero, or_true, Bool.false_eq_true, not_false_eq_true, and_self, if_true,
        if_false, List.nil_append, List.length_append, List.length_replicate, List.length_nil]
      omega
    · simp only [hleft, hzero, Bool.false_eq_true, or_self, false_and, if_false, List.nil_append,
        List.length_append, List.length_replicate, length_spaces, List.length_nil]
      omega

theorem length_referenceText : (referenceText num base width prec flags isNegative).length =
    max width.toNat (bareLength num base prec flags isNegative) := by
  unfold referenceText
  rw [length_layoutText]
  omega

/-! ## §3  What `number` writes -/

/-- What step 9 takes off the width for a prefix that step 6 has taken off already. -/
def overcount (flags : Flags) (base : ℕ) : ℕ :=
  if flags.special then (if base = 8 then 1 else 2) else 0

/-- The width that is left to be filled. -/
def budget (num : Word) (base : ℕ) (width prec : ℤ) (flags : Flags) (isNegative : Bool) : ℤ :=
  int32 (width - (bareLength num base prec flags isNegative + overcount flags base : ℕ))

theorem int32_sub_int32 (x y : ℤ) : int32 (int32 x - y) = int32 (x - y) := Int.bmod_sub_bmod

theorem signChar_eq : (if signChar flags isNegative ≠ 0 then [signChar flags isNegative] else []) =
    signText flags isNegative := by
  unfold signChar signText
  split_ifs <;> first | rfl | contradiction

/-- Without left alignment the flags are as they were. -/
theorem flatten_layout {digits : List Byte} {tmp : List Byte} (htmp : tmp.reverse = digits)
    (padLen width : ℤ) :
    (layout flags base (signChar flags isNegative)
        (if flags.zeropad then chr '0' else chr ' ') tmp padLen width).flatten =
      (if flags.left ∨ flags.zeropad then [] else spaces width.toNat) ++
        (signText flags isNegative ++
          (prefixText flags base ++
            ((if flags.zeropad ∧ ¬ flags.left then List.replicate width.toNat (chr '0') else []) ++
              (List.replicate padLen.toNat (chr '0') ++
                (digits ++ if flags.left then spaces width.toNat else []))))) := by
  have hpre : (prefixPieces flags base).flatten = prefixText flags base := by
    unfold prefixPieces prefixText
    split_ifs <;> rfl
  have hfill : (if flags.left then [] else if flags.zeropad then
        List.replicate width.toNat (if flags.zeropad then chr '0' else chr ' ') else []) =
      if flags.zeropad ∧ ¬ flags.left then List.replicate width.toNat (chr '0') else [] := by
    by_cases hleft : flags.left
    · rw [if_pos hleft, if_neg fun h => h.2 hleft]
    · by_cases hzero : flags.zeropad
      · rw [if_neg hleft, if_pos hzero, if_pos hzero, if_pos ⟨hzero, hleft⟩]
      · rw [if_neg hleft, if_neg hzero, if_neg fun h => hzero h.1]
  unfold layout
  simp only [List.flatten_append, flatten_singles, hpre, hfill, signChar_eq, htmp, or_comm,
    List.append_assoc]

/-- Step 9 on what step 6 has left of the width. -/
theorem remainingWidth_eq {i : ℕ}
    (hi : i = (numeral (digitGlyph flags.small) base num.toNat).length) :
    remainingWidth flags base (widthBehindPrefix flags base width)
      (if prec < i then (i : ℤ) else prec) (signChar flags isNegative) i = budget num base width prec flags isNegative := by
  have hsign : (if signChar flags isNegative ≠ 0 then 1 else 0 : ℤ) =
      (signText flags isNegative).length := by
    rw [← signChar_eq]
    split_ifs <;> rfl
  have hdigits : (if (i : ℤ) < (if prec < i then (i : ℤ) else prec) then
      (if prec < i then (i : ℤ) else prec) else (i : ℤ)) = (max prec.toNat i : ℕ) := by
    split_ifs <;> omega
  unfold remainingWidth budget bareLength
  rw [hsign, hdigits, ← hi]
  unfold widthBehindPrefix overcount prefixText
  by_cases hspecial : flags.special
  · simp only [if_pos hspecial]
    by_cases h8 : base = 8
    · simp only [if_pos h8, int32_sub_int32]
      exact congrArg int32 (by push_cast [List.length_singleton]; omega)
    · by_cases h16 : base = 16
      · simp only [if_neg h8, if_pos h16, int32_sub_int32]
        exact congrArg int32 (by push_cast [List.length_cons, List.length_nil]; omega)
      · simp only [if_neg h8, if_neg h16]
        exact congrArg int32 (by push_cast [List.length_nil]; omega)
  · simp only [if_neg hspecial]
    exact congrArg int32 (by push_cast [List.length_nil]; omega)

theorem layoutText_of_left (hleft : flags.left = true) (fill : ℕ) :
    layoutText num base fill prec { flags with zeropad := false } isNegative =
      layoutText num base fill prec flags isNegative := by
  unfold layoutText
  simp only [hleft, true_or, if_true, not_true_eq_false, and_false]
  rfl

/-- The pieces of a number, with the flags that step 3 has left. -/
theorem flatten_layout_tmp (hbase : 2 ≤ base) {tmp : List Byte}
    (htmp : tmp = tmpOf (if flags.small then smallDigits else capitalDigits) base num.toNat)
    {prec' : ℤ} (hprec : prec' = if prec < tmp.length then (tmp.length : ℤ) else prec) :
    (layout flags base (signChar flags isNegative) (if flags.zeropad then chr '0' else chr ' ') tmp
      (prec' - tmp.length) (remainingWidth flags base (widthBehindPrefix flags base width) prec'
        (signChar flags isNegative) tmp.length)).flatten =
      layoutText num base (budget num base width prec flags isNegative).toNat prec flags
        isNegative := by
  have hdigits : tmp.reverse = numeral (digitGlyph flags.small) base num.toNat := by
    rw [htmp, reverse_tmpOf flags.small hbase]
  have hlen : tmp.length = (numeral (digitGlyph flags.small) base num.toNat).length := by
    rw [← hdigits, List.length_reverse]
  have hzeros : (prec' - tmp.length).toNat = prec.toNat - tmp.length := by
    rw [hprec]
    split_ifs <;> omega
  rw [flatten_layout base flags isNegative hdigits, hzeros, hprec,
    remainingWidth_eq num base width prec flags isNegative hlen, hlen]
  rfl

/-- **The characters of a number**, with what `number` has computed to fill the field. -/
theorem flatten_numberPieces (hlow : 2 ≤ base) (hhigh : base ≤ 36) :
    (numberPieces num.toNat base width prec flags isNegative).flatten =
      layoutText num base (budget num base width prec flags isNegative).toNat prec flags
        isNegative := by
  unfold numberPieces
  rw [if_neg (by omega)]
  by_cases hleft : flags.left
  · simp only [if_pos hleft]
    rw [← layoutText_of_left num base prec flags isNegative hleft]
    exact flatten_layout_tmp num base width prec { flags with zeropad := false } isNegative hlow
      rfl rfl
  · simp only [if_neg hleft]
    exact flatten_layout_tmp num base width prec flags isNegative hlow rfl rfl

end Layout

/-! ## §4  Numbers without a prefix -/

section Plain

variable {size : ℕ} {str : List Byte} {num : Word} {base : ℕ} {width prec : ℤ} {flags : Flags}
  {isNegative : Bool}

/-- The width that is left can be written with 32 bits. -/
structure BudgetFits (num : Word) (base : ℕ) (width prec : ℤ) (flags : Flags) (isNegative : Bool) :
    Prop where
  low : -2 ^ 31 ≤ width - bareLength num base prec flags isNegative
  high : width - bareLength num base prec flags isNegative < 2 ^ 31

/-- Every piece is a single character. -/
theorem numberPieces_eq_singles (hspecial : flags.special = false) :
    numberPieces num.toNat base width prec flags isNegative =
      singles (numberPieces num.toNat base width prec flags isNegative).flatten := by
  have hlayout : ∀ (flags : Flags) (sign padChar : Byte) (tmp : List Byte) (padLen width : ℤ),
      flags.special = false → layout flags base sign padChar tmp padLen width =
        singles (layout flags base sign padChar tmp padLen width).flatten := by
    intro flags sign padChar tmp padLen width h
    have hpre : prefixPieces flags base = singles [] := by
      unfold prefixPieces
      rw [h, if_neg Bool.false_ne_true]
      rfl
    unfold layout
    rw [hpre]
    simp only [← singles_append, flatten_singles]
  unfold numberPieces
  dsimp only
  by_cases hbase : base < 2 ∨ 36 < base
  · rw [if_pos hbase]
    rfl
  · rw [if_neg hbase]
    by_cases hleft : flags.left
    · simp only [if_pos hleft]
      exact hlayout _ _ _ _ _ _ hspecial
    · simp only [if_neg hleft]
      exact hlayout _ _ _ _ _ _ hspecial

theorem overcount_of_plain (hspecial : flags.special = false) : overcount flags base = 0 := by
  unfold overcount
  rw [hspecial]
  rfl

/-- **A number is laid out as the reference says**, and cut to the room that there is. -/
theorem number_eq_take (hlow : 2 ≤ base) (hhigh : base ≤ 36) (hspecial : flags.special = false)
    (hfits : BudgetFits num base width prec flags isNegative) :
    number size str num.toNat base width prec flags isNegative =
        str ++ (referenceText num base width prec flags isNegative).take (size - str.length) ∧
      (referenceText num base width prec flags isNegative).length =
        max width.toNat (bareLength num base prec flags isNegative) := by
  have hbudget : (budget num base width prec flags isNegative).toNat =
      width.toNat - bareLength num base prec flags isNegative := by
    have hl := hfits.low
    have hh := hfits.high
    unfold budget
    rw [overcount_of_plain hspecial, Nat.add_zero, int32_eq hl hh]
    omega
  refine ⟨?_, length_referenceText num base width prec flags isNegative⟩
  rw [number_eq_emit, numberPieces_eq_singles hspecial, emit_singles,
    flatten_numberPieces num base width prec flags isNegative hlow hhigh, hbudget]
  rfl

end Plain

/-- `%5d` of 42 in a buffer with room for four characters. -/
theorem number_eq_take_cut :
    number 4 [] (42 : Word).toNat 10 5 (-1) { sign := true } false =
        [] ++ (referenceText 42 10 5 (-1) { sign := true } false).take (4 - 0) ∧
      (referenceText 42 10 5 (-1) { sign := true } false).length =
        max (5 : ℤ).toNat (bareLength 42 10 (-1) { sign := true } false) :=
  number_eq_take (by decide) (by decide) rfl ⟨by decide, by decide⟩

/-! ## §5  Numbers with a prefix -/

section Special

variable {size : ℕ} {str : List Byte} {num : Word} {base : ℕ} {width prec : ℤ} {flags : Flags}
  {isNegative : Bool}

/-- What has been appended to `str` is the field that was asked for, in its full width. -/
structure Honours (num : Word) (base : ℕ) (width prec : ℤ) (flags : Flags) (isNegative : Bool)
    (str out : List Byte) : Prop where
  text_eq : out = str ++ referenceText num base width prec flags isNegative
  length_eq : out.length = str.length +
    max width.toNat (bareLength num base prec flags isNegative)

/-- The width asks for nothing to be filled, and does not lie so far below what is there that
32 bits cannot hold the difference. -/
structure NoFill (num : Word) (base : ℕ) (width prec : ℤ) (flags : Flags) (isNegative : Bool) :
    Prop where
  narrow : width ≤ bareLength num base prec flags isNegative
  fits : -2 ^ 31 ≤ width - (bareLength num base prec flags isNegative + overcount flags base : ℕ) ∨
    width - (bareLength num base prec flags isNegative + overcount flags base : ℕ) ≤ -2 ^ 32

theorem overcount_pos (hspecial : flags.special = true) : 0 < overcount flags base := by
  unfold overcount
  rw [if_pos hspecial]
  split_ifs <;> decide

/-- The budget is used up exactly where there is nothing to fill; where the width asks for more
characters than there are, some of them are missing. -/
theorem budget_nonpos_iff (hlow : -2 ^ 31 ≤ width) (hhigh : width < 2 ^ 31) (hprec : prec < 2 ^ 31)
    (hdigits : (numeral (digitGlyph flags.small) base num.toNat).length ≤ 2 ^ 31)
    (hnarrow : width ≤ bareLength num base prec flags isNegative) :
    budget num base width prec flags isNegative ≤ 0 ↔
      NoFill num base width prec flags isNegative := by
  have hbare : bareLength num base prec flags isNegative ≤ 2 ^ 31 + 3 := by
    have hsign : (signText flags isNegative).length ≤ 1 := by
      unfold signText
      split_ifs <;> decide
    have hpre : (prefixText flags base).length ≤ 2 := by
      unfold prefixText
      split_ifs <;> decide
    unfold bareLength
    omega
  have hover : overcount flags base ≤ 2 := by
    unfold overcount
    split_ifs <;> decide
  unfold budget
  generalize hx : width - (bareLength num base prec flags isNegative + overcount flags base : ℕ) = x
  have hmin : -2 ^ 32 - 5 ≤ x := by omega
  have hmax : x ≤ 0 := by omega
  rcases lt_or_ge x (-2 ^ 31) with hwrap | hfits
  · have hint : int32 x = x + 2 ^ 32 := by
      have hsum : int32 (x + 2 ^ 32) = int32 x := Int.add_bmod_right x (2 ^ 32)
      rw [← hsum, int32_eq (by omega) (by omega)]
    rw [hint]
    refine ⟨fun h => ⟨hnarrow, Or.inr (by omega)⟩, fun h => ?_⟩
    have := h.fits
    omega
  · rw [int32_eq hfits (by omega)]
    exact iff_of_true hmax ⟨hnarrow, Or.inl (by omega)⟩

/-- **With `#` the width is honoured** exactly where there is nothing to fill. -/
theorem number_special_iff (hbase : base = 8 ∨ base = 10 ∨ base = 16)
    (hspecial : flags.special = true) (hlow : -2 ^ 31 ≤ width) (hhigh : width < 2 ^ 31)
    (hprec : prec < 2 ^ 31)
    (hroom : str.length + max width.toNat (bareLength num base prec flags isNegative) < size) :
    Honours num base width prec flags isNegative str
        (number size str num.toNat base width prec flags isNegative) ↔
      NoFill num base width prec flags isNegative := by
  have htwo : 2 ≤ base := by omega
  have hdigits := (length_numeral_le flags.small htwo num).trans (show 72 ≤ 2 ^ 31 by decide)
  have hflatten := flatten_numberPieces num base width prec flags isNegative htwo (by omega)
  have hlen : (numberPieces num.toNat base width prec flags isNegative).flatten.length =
      (budget num base width prec flags isNegative).toNat +
        bareLength num base prec flags isNegative := by
    rw [hflatten, length_layoutText]
  rw [number_eq_emit]
  constructor
  · intro h
    have hsize := length_emit
      (followed_numberPieces num.toNat base width prec flags isNegative)
      (by omega : str.length ≤ size)
    rw [h.length_eq, hlen] at hsize
    rcases le_or_gt width (bareLength num base prec flags isNegative) with hnarrow | hwide
    · exact (budget_nonpos_iff hlow hhigh hprec hdigits hnarrow).mp (by omega)
    · -- a wide field loses the characters that were taken off twice
      have hover := @overcount_pos base flags hspecial
      have hover' : overcount flags base ≤ 2 := by
        unfold overcount
        split_ifs <;> decide
      have hbudget : budget num base width prec flags isNegative =
          width - (bareLength num base prec flags isNegative + overcount flags base : ℕ) :=
        int32_eq (by omega) (by omega)
      omega
  · intro h
    have hzero : (budget num base width prec flags isNegative).toNat = 0 :=
      Int.toNat_of_nonpos ((budget_nonpos_iff hlow hhigh hprec hdigits h.narrow).mpr h)
    have hnarrow := h.narrow
    have hout : emit size (numberPieces num.toNat base width prec flags isNegative) str =
        str ++ referenceText num base width prec flags isNegative := by
      have hfill : width.toNat - bareLength num base prec flags isNegative = 0 := by omega
      unfold emit referenceText
      rw [fill_of_length_le (by omega), hflatten, hzero, hfill]
    refine ⟨hout, ?_⟩
    rw [hout, List.length_append, length_referenceText]

end Special

/-- `%#x` of 0x1a. -/
theorem number_special_iff_hex :
    Honours 0x1a 16 (-1) (-1) { special := true, small := true } false []
        (number 16 [] (0x1a : Word).toNat 16 (-1) (-1) { special := true, small := true } false) ↔
      NoFill 0x1a 16 (-1) (-1) { special := true, small := true } false :=
  number_special_iff (Or.inr (Or.inr rfl)) rfl (by decide) (by decide) (by decide) (by decide)

/-- `%#6x` of 0x1a takes four characters. -/
theorem special_field_too_narrow :
    number 16 [] (0x1a : Word).toNat 16 6 (-1) { special := true, small := true } false =
        [chr '0', chr 'x', chr '1', chr 'a'] ∧
      ¬ Honours 0x1a 16 6 (-1) { special := true, small := true } false []
        (number 16 [] (0x1a : Word).toNat 16 6 (-1) { special := true, small := true } false) := by
  have hout : number 16 [] (0x1a : Word).toNat 16 6 (-1) { special := true, small := true } false =
      [chr '0', chr 'x', chr '1', chr 'a'] := by decide +kernel
  refine ⟨hout, fun h => ?_⟩
  have hlen := h.length_eq
  rw [hout] at hlen
  have hbare : bareLength 0x1a 16 (-1) { special := true, small := true } false = 4 := by decide
  rw [hbare] at hlen
  exact absurd hlen (by decide)

end Knos.Printk
