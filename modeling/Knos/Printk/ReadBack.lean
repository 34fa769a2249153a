import Knos.Printk.Formats
import Knos.Printk.Numerals
import Knos.Printk.Room

/-!
# Numbers that are read back

A numeral names the argument that was printed if reading it in the base of its conversion
gives that argument, in the width and the signedness of the directive. `%d`, `%i`, `%x` and
`%X` name their arguments. `%u` and `%o` are printed in base 16 like `%x`, so they do for
numbers of one digit only (`readBack_iff`).
-/

namespace Knos.Printk

open Knos.Bytes Knos.Stack Knos.Pieces Knos.Numeral

/-! ## §1  Reading -/

inductive NumberConversion where
  | d
  | i
  | u
  | o
  | x
  | capitalX
deriving DecidableEq

namespace NumberConversion

def char : NumberConversion → Byte
  | d => chr 'd'
  | i => chr 'i'
  | u => chr 'u'
  | o => chr 'o'
  | x => chr 'x'
  | capitalX => chr 'X'

/-- The case of the switch. -/
def conversion : NumberConversion → Conversion
  | d | i => .signed
  | u | o | x => .unsigned
  | capitalX => .capital

/-- The base that a numeral of the conversion is meant to be in. -/
def ownBase : NumberConversion → ℕ
  | d | i | u => 10
  | o => 8
  | x | capitalX => 16

def isSigned : NumberConversion → Bool
  | d | i => true
  | _ => false

/-- The letters of its digits are small ones. -/
def small : NumberConversion → Bool
  | u | o | x => true
  | _ => false

theorem conversionOf_char (n : NumberConversion) : conversionOf n.char = some n.conversion := by
  cases n <;> decide

end NumberConversion

/-- The width of a number with this modifier; `L` is none of numbers. -/
def Qualifier.bits : Qualifier → ℕ
  | .h => 16
  | .l | .ll => 64
  | .none | .capitalL => 32

/-- An argument as a number of the width and the signedness of its directive. -/
def argumentValue (qualifier : Qualifier) (isSigned : Bool) (slot : Word) : ℤ :=
  if isSigned then (slot.setWidth qualifier.bits).toInt else (slot.setWidth qualifier.bits).toNat

/-- The number that a text stands for. -/
def readBack (n : NumberConversion) (text : List Byte) : Option ℤ :=
  if n.isSigned ∧ text.head? = some (chr '-') then
    (readNumeral (digitGlyph n.small) n.ownBase text.tail).map fun value : ℕ => -(value : ℤ)
  else (readNumeral (digitGlyph n.small) n.ownBase text).map fun value : ℕ => (value : ℤ)

/-- A directive of a conversion character and a modifier. -/
def numberFormat (n : NumberConversion) (qualifier : Qualifier) : Format :=
  ⟨[.directive ⟨[], .absent, .absent, qualifier⟩ n.char n.conversion n.conversionOf_char], none⟩

/-! ## §2  Arguments -/

section Arguments

variable (qualifier : Qualifier) (slot : Word)

theorem toInt_signedArg : (signedArg qualifier slot).toInt = argumentValue qualifier true slot := by
  have hextend {w : ℕ} (hw : w ≤ 64) (v : BitVec w) : (v.signExtend 64).toInt = v.toInt :=
    BitVec.toInt_signExtend_of_le hw
  have hsame : slot.toInt = (slot.setWidth 64).toInt := by rw [BitVec.setWidth_eq]
  cases qualifier with
  | none => exact hextend (by decide) _
  | capitalL => exact hextend (by decide) _
  | h => exact hextend (by decide) _
  | l => exact hsame
  | ll => exact hsame

theorem toNat_unsignedArg :
    ((unsignedArg qualifier slot).toNat : ℤ) = argumentValue qualifier false slot := by
  have hextend {w : ℕ} (hw : w ≤ 64) (v : BitVec w) : ((v.setWidth 64).toNat : ℤ) = v.toNat := by
    rw [BitVec.toNat_setWidth_of_le hw]
  have hsame : (slot.toNat : ℤ) = (slot.setWidth 64).toNat := by rw [BitVec.setWidth_eq]
  cases qualifier with
  | none => exact hextend (by decide) _
  | capitalL => exact hextend (by decide) _
  | h => exact hextend (by decide) _
  | l => exact hsame
  | ll => exact hsame

/-- The number whose digits are printed, of the smallest one as well. -/
theorem magnitude_eq (num : Word) :
    (if num.msb then -num else num).toNat = num.toInt.natAbs := by
  have hlt := num.isLt
  rw [BitVec.toInt_eq_msb_cond]
  by_cases hneg : num.msb
  · have hpos : 2 ^ 63 ≤ num.toNat := BitVec.le_toNat_of_msb_true hneg
    rw [if_pos hneg, if_pos hneg, BitVec.toNat_neg, Nat.mod_eq_of_lt (by omega)]
    omega
  · rw [if_neg hneg, if_neg hneg, Int.natAbs_natCast]

theorem msb_iff (num : Word) : num.msb = true ↔ num.toInt < 0 := by
  rw [BitVec.msb_eq_toInt, decide_eq_true_iff]

end Arguments

/-! ## §3  Numerals -/

theorem distinct_digitGlyph (small : Bool) : Distinct (digitGlyph small) 16 := by
  have hall : ∀ d < 16, ∀ e < 16, digitGlyph small d = digitGlyph small e → d = e := by
    cases small <;> decide
  exact fun d e hd he => hall d hd e he

theorem digitGlyph_ne_minus (small : Bool) : ∀ d < 16, digitGlyph small d ≠ chr '-' := by
  cases small <;> decide

theorem head_numeral_ne {small : Bool} {base : ℕ} (hlow : 2 ≤ base) (hhigh : base ≤ 16) (n : ℕ) :
    (numeral (digitGlyph small) base n).head? ≠ some (chr '-') := by
  intro h
  obtain ⟨d, hd, hglyph⟩ := List.mem_map.mp (List.mem_of_mem_head? h)
  exact digitGlyph_ne_minus small d ((lt_of_mem_digitsOf hlow hd).trans_le hhigh) hglyph

/-- Nothing is filled where no width is asked for. -/
theorem flatten_bare (num : Word) {base : ℕ} (hlow : 2 ≤ base) (hhigh : base ≤ 36)
    (small isNegative isSigned : Bool) :
    (numberPieces num.toNat base (-1) (-1) { sign := isSigned, small := small } isNegative).flatten =
      (if isSigned ∧ isNegative then [chr '-'] else []) ++
        numeral (digitGlyph small) base num.toNat := by
  have hbudget : (budget num base (-1) (-1) { sign := isSigned, small := small } isNegative).toNat =
      0 := by
    have hdigits := length_numeral_le small hlow num
    have hsign : (signText { sign := isSigned, small := small } isNegative).length ≤ 1 := by
      unfold signText
      split_ifs <;> decide
    have hbare : bareLength num base (-1) { sign := isSigned, small := small } isNegative ≤ 73 := by
      have hprefix : (prefixText { sign := isSigned, small := small } base).length = 0 := rfl
      unfold bareLength
      dsimp only at hdigits ⊢
      omega
    unfold budget
    rw [overcount_of_plain rfl, int32_eq (by omega) (by omega)]
    omega
  rw [flatten_numberPieces num base _ _ _ _ hlow hhigh, hbudget]
  unfold layoutText
  cases isSigned <;> cases isNegative <;> simp [signText, prefixText, spaces]

section Reading

variable (n : NumberConversion) {num : Word} {base : ℕ}

theorem readBack_unsigned (hn : n.isSigned = false) (hbase : 2 ≤ base) (hhigh : base ≤ 16)
    (hown : n.ownBase ≤ base) :
    readBack n (numeral (digitGlyph n.small) base num.toNat) = some (num.toNat : ℤ) ↔
      (n.ownBase < base → num.toNat < n.ownBase) := by
  unfold readBack
  rw [if_neg fun h => absurd (hn.symm.trans h.1) Bool.false_ne_true, Option.map_eq_some_iff]
  have hsame : (∃ value, readNumeral (digitGlyph n.small) n.ownBase
      (numeral (digitGlyph n.small) base num.toNat) = some value ∧ (value : ℤ) = num.toNat) ↔
        readNumeral (digitGlyph n.small) n.ownBase
          (numeral (digitGlyph n.small) base num.toNat) = some num.toNat := by
    constructor
    · rintro ⟨value, hvalue, heq⟩
      rwa [Int.ofNat_inj.mp heq] at hvalue
    · exact fun h => ⟨_, h, rfl⟩
  rw [hsame]
  rcases Nat.eq_or_lt_of_le hown with heq | hlt
  · rw [heq]
    refine iff_of_true (readNumeral_numeral (distinct_digitGlyph n.small) hbase hhigh _) ?_
    exact fun h => absurd h (lt_irrefl _)
  · rw [readNumeral_numeral_iff (distinct_digitGlyph n.small) hbase hhigh hlt]
    exact ⟨fun h _ => h, fun h => h hlt⟩

theorem readBack_signed (hn : n.isSigned = true) (hbase : 2 ≤ n.ownBase) (hhigh : n.ownBase ≤ 16) :
    readBack n ((if num.msb then [chr '-'] else []) ++ numeral (digitGlyph n.small) n.ownBase
      (if num.msb then -num else num).toNat) = some num.toInt := by
  have hread := readNumeral_numeral (distinct_digitGlyph n.small) hbase hhigh
    (if num.msb then -num else num).toNat
  have hmagnitude := magnitude_eq num
  unfold readBack
  by_cases hneg : num.msb
  · have hless := (msb_iff num).mp hneg
    simp only [if_pos hneg] at hread hmagnitude ⊢
    rw [if_pos ⟨hn, rfl⟩]
    rw [List.singleton_append, List.tail_cons, hread, Option.map_some, hmagnitude]
    exact congrArg some (by omega)
  · have hge : 0 ≤ num.toInt := Int.not_lt.mp fun h => hneg ((msb_iff num).mpr h)
    simp only [if_neg hneg] at hread hmagnitude ⊢
    rw [List.nil_append, if_neg fun h => head_numeral_ne hbase hhigh _ h.2, hread, Option.map_some,
      hmagnitude]
    exact congrArg some (by omega)

end Reading

/-! ## §4  What is printed -/

section Printed

variable (n : NumberConversion) (qualifier : Qualifier) (memory : Memory) (args : ℕ → Word)

theorem fieldsOf_number : fieldsOf memory ((numberFormat n qualifier).text ++ [0]) args =
    [(fieldOf memory args 0 ⟨{}, -1, -1, qualifier⟩ n.conversion).2] := by
  rw [fieldsOf_text]
  show Item.fields memory args 0 (.directive _ _ _ _) ++ [] ++ [] = _
  rw [fields_directive, List.append_nil, List.append_nil]
  rfl

theorem rendering_pieces {ps : List (List Byte)}
    (h : (fieldOf memory args 0 ⟨{}, -1, -1, qualifier⟩ n.conversion).2 = .pieces ps) :
    rendering memory ((numberFormat n qualifier).text ++ [0]) args = ps.flatten := by
  unfold rendering piecesOf
  rw [fieldsOf_number, h, List.flatMap_cons, List.flatMap_nil, List.append_nil]
  rfl

theorem rendering_signed (hn : n.isSigned = true) :
    rendering memory ((numberFormat n qualifier).text ++ [0]) args =
      (if (signedArg qualifier (args 0)).msb then [chr '-'] else []) ++
        numeral (digitGlyph n.small) n.ownBase
          (if (signedArg qualifier (args 0)).msb then -signedArg qualifier (args 0)
            else signedArg qualifier (args 0)).toNat := by
  have hfield : (fieldOf memory args 0 ⟨{}, -1, -1, qualifier⟩ .signed).2 =
      .pieces (numberPieces (if (signedArg qualifier (args 0)).msb then -signedArg qualifier (args 0)
        else signedArg qualifier (args 0)).toNat 10 (-1) (-1) { sign := true }
          (signedArg qualifier (args 0)).msb) := by
    rw [apply_ite BitVec.toNat]
    rfl
  have hbare := flatten_bare (if (signedArg qualifier (args 0)).msb then
    -signedArg qualifier (args 0) else signedArg qualifier (args 0)) (show 2 ≤ 10 by decide)
      (by decide) false (signedArg qualifier (args 0)).msb true
  simp only [true_and] at hbare
  cases n with
  | d => exact (rendering_pieces .d qualifier memory args hfield).trans hbare
  | i => exact (rendering_pieces .i qualifier memory args hfield).trans hbare
  | _ => exact absurd hn Bool.false_ne_true

/-- All conversions without sign are printed in base 16. -/
theorem rendering_unsigned (hn : n.isSigned = false) :
    rendering memory ((numberFormat n qualifier).text ++ [0]) args =
      numeral (digitGlyph n.small) 16 (unsignedArg qualifier (args 0)).toNat := by
  have hbare (small : Bool) := flatten_bare (unsignedArg qualifier (args 0)) (show 2 ≤ 16 by decide)
    (by decide) small false false
  simp only [Bool.false_eq_true, and_self, if_false, List.nil_append] at hbare
  cases n with
  | d => exact absurd hn.symm Bool.false_ne_true
  | i => exact absurd hn.symm Bool.false_ne_true
  | capitalX => exact (rendering_pieces .capitalX qualifier memory args rfl).trans (hbare false)
  | u => exact (rendering_pieces .u qualifier memory args rfl).trans (hbare true)
  | o => exact (rendering_pieces .o qualifier memory args rfl).trans (hbare true)
  | x => exact (rendering_pieces .x qualifier memory args rfl).trans (hbare true)

/-- **A numeral names its argument**, save those of `%u` and `%o`, which are printed in the
wrong base: there it does for numbers of one digit. -/
theorem readBack_iff (b : Buffer)
    (hroom : (rendering memory ((numberFormat n qualifier).text ++ [0]) args).length < b.size) :
    (∃ o, vsnprintf b memory ((numberFormat n qualifier).text ++ [0]) args = .ok o ∧
        readBack n o.str = some (argumentValue qualifier n.isSigned (args 0))) ↔
      (n = .u → argumentValue qualifier n.isSigned (args 0) < 10) ∧
        (n = .o → argumentValue qualifier n.isSigned (args 0) < 8) := by
  obtain ⟨counts, hok, -⟩ := vsnprintf_of_fits b memory (numberFormat n qualifier).text args hroom
  have hstored : (∃ o, vsnprintf b memory ((numberFormat n qualifier).text ++ [0]) args = .ok o ∧
      readBack n o.str = some (argumentValue qualifier n.isSigned (args 0))) ↔
        readBack n (rendering memory ((numberFormat n qualifier).text ++ [0]) args) =
          some (argumentValue qualifier n.isSigned (args 0)) := by
    rw [hok]
    constructor
    · rintro ⟨o, heq, hread⟩
      rwa [← Except.ok.inj heq] at hread
    · exact fun h => ⟨_, rfl, h⟩
  rw [hstored]
  cases hn : n.isSigned with
  | true =>
      rw [rendering_signed n qualifier memory args hn, ← toInt_signedArg]
      have hbase : n.ownBase = 10 := by
        cases n <;> first | rfl | exact absurd hn Bool.false_ne_true
      refine iff_of_true (readBack_signed n hn (by omega) (by omega)) ⟨?_, ?_⟩
      · rintro rfl
        exact absurd hn Bool.false_ne_true
      · rintro rfl
        exact absurd hn Bool.false_ne_true
  | false =>
      have hown : n.ownBase ≤ 16 := by cases n <;> decide
      rw [rendering_unsigned n qualifier memory args hn, ← toNat_unsignedArg,
        readBack_unsigned n hn (by decide) (by decide) hown]
      generalize (unsignedArg qualifier (args 0)).toNat = value
      cases n with
      | d => exact absurd hn.symm Bool.false_ne_true
      | i => exact absurd hn.symm Bool.false_ne_true
      | u =>
          refine ⟨fun h => ⟨fun _ => ?_, nofun⟩, fun h _ => ?_⟩
          · exact Int.ofNat_lt.mpr (h (by decide))
          · exact Int.ofNat_lt.mp (h.1 rfl)
      | o =>
          refine ⟨fun h => ⟨nofun, fun _ => ?_⟩, fun h _ => ?_⟩
          · exact Int.ofNat_lt.mpr (h (by decide))
          · exact Int.ofNat_lt.mp (h.2 rfl)
      | x => exact iff_of_true (fun h => absurd h (by decide)) ⟨nofun, nofun⟩
      | capitalX => exact iff_of_true (fun h => absurd h (by decide)) ⟨nofun, nofun⟩

end Printed

/-- A buffer of 32 bytes. -/
def numberBuffer : Buffer := ⟨0x1000, 32, by decide⟩

/-- `%lld` of the smallest number. -/
theorem readBack_iff_smallest :
    (∃ o, vsnprintf numberBuffer emptyMemory ((numberFormat .d .ll).text ++ [0])
          (sameArgs 0x8000000000000000) = .ok o ∧
        readBack .d o.str = some (argumentValue .ll true 0x8000000000000000)) ↔
      (NumberConversion.d = .u → argumentValue .ll true 0x8000000000000000 < 10) ∧
        (NumberConversion.d = .o → argumentValue .ll true 0x8000000000000000 < 8) :=
  readBack_iff .d .ll emptyMemory (sameArgs 0x8000000000000000) numberBuffer (by decide +kernel)

/-- `%u` of 16 prints the digits of 10. -/
theorem unsigned_in_wrong_base :
    ∃ o, vsnprintf numberBuffer emptyMemory ((numberFormat .u .none).text ++ [0]) (sameArgs 16) =
        .ok o ∧
      o.str = [chr '1', chr '0'] ∧ argumentValue .none false 16 = 16 ∧ readBack .u o.str = some 10 :=
  ⟨⟨[chr '1', chr '0'], [0], [], 2⟩, by decide +kernel, rfl, by decide, by decide⟩

end Knos.Printk
