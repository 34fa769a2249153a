import Knos.Lib.Numeral
import Knos.Printk.Parsing

/-!
# How directives are written

A directive is a `%`, flags, a width, a precision, a qualifier and a conversion character. It
extends as far as the parsers read, so its conversion character is the first one that does
not continue it (`Written.Ends`). Then the parsers take the text of a directive back apart
(`parseDirective_text`), and every text begins with what can stand behind a `%`
(`exists_written`).
-/

namespace Knos.Printk

open Knos.Bytes Knos.Stack Knos.Pieces Knos.Numeral

/-! ## §1  Directives as they are written -/

inductive FlagChar where
  | minus
  | plus
  | space
  | sharp
  | zero
deriving DecidableEq

def FlagChar.char : FlagChar → Byte
  | .minus => chr '-'
  | .plus => chr '+'
  | .space => chr ' '
  | .sharp => chr '#'
  | .zero => chr '0'

def FlagChar.set (flags : Flags) : FlagChar → Flags
  | .minus => { flags with left := true }
  | .plus => { flags with plus := true }
  | .space => { flags with space := true }
  | .sharp => { flags with special := true }
  | .zero => { flags with zeropad := true }

/-- The character of a decimal digit. -/
def decimalChar (d : Fin 10) : Byte := BitVec.ofNat 8 (48 + d)

def decimalText (ds : List (Fin 10)) : List Byte := ds.map decimalChar

/-- A width does not begin with 0, which would be a flag. -/
inductive WidthText where
  | absent
  | star
  | digits (d : Fin 10) (ds : List (Fin 10)) (hd : d ≠ 0)

def WidthText.text : WidthText → List Byte
  | .absent => []
  | .star => [chr '*']
  | .digits d ds _ => decimalText (d :: ds)

inductive PrecisionText where
  | absent
  /-- A point with nothing behind it. -/
  | point
  | star
  | digits (d : Fin 10) (ds : List (Fin 10))

def PrecisionText.text : PrecisionText → List Byte
  | .absent => []
  | .point => [chr '.']
  | .star => [chr '.', chr '*']
  | .digits d ds => chr '.' :: decimalText (d :: ds)

def Qualifier.text : Qualifier → List Byte
  | .none => []
  | .h => [chr 'h']
  | .l => [chr 'l']
  | .capitalL => [chr 'L']
  | .ll => [chr 'l', chr 'l']

/-- What stands between `%` and the conversion character. -/
structure Written where
  flags : List FlagChar
  width : WidthText
  precision : PrecisionText
  qualifier : Qualifier

/-- A directive without flags, width, precision and qualifier. -/
def Written.plain : Written := ⟨[], .absent, .absent, .none⟩

/-- The text behind the `%`. -/
def Written.body (w : Written) : List Byte :=
  w.flags.map FlagChar.char ++ (w.width.text ++ (w.precision.text ++ w.qualifier.text))

/-! ### What is asked for -/

def decimalValue (ds : List (Fin 10)) : ℕ := horner 10 0 (ds.map Fin.val)

section Requests

variable (args : ℕ → Word) (k : ℕ)

/-- The width that is asked for; 0 asks for nothing. -/
def WidthText.columns : WidthText → ℕ
  | .absent => 0
  | .star => (int32Arg args k).natAbs
  | .digits d ds _ => decimalValue (d :: ds)

def WidthText.isNegative : WidthText → Bool
  | .star => decide (int32Arg args k < 0)
  | _ => false

/-- The number of characters that a string is cut to. -/
def PrecisionText.limit : PrecisionText → Option ℕ
  | .absent => none
  | .point => some 0
  | .star => some (int32Arg args k).toNat
  | .digits d ds => some (decimalValue (d :: ds))

end Requests

/-! ## §2  What ends a directive -/

/-- No flag. -/
def EndsFlags (c : Byte) : Prop :=
  c ≠ chr '-' ∧ c ≠ chr '+' ∧ c ≠ chr ' ' ∧ c ≠ chr '#' ∧ c ≠ chr '0'

instance (c : Byte) : Decidable (EndsFlags c) := inferInstanceAs (Decidable (_ ∧ _))

def WidthText.Ends (c : Byte) : WidthText → Prop
  | .absent => c ≠ chr '*' ∧ isDigit c = false
  | .star => True
  | .digits _ _ _ => isDigit c = false

def PrecisionText.Ends (c : Byte) : PrecisionText → Prop
  | .absent => c ≠ chr '.'
  | .point => c ≠ chr '*' ∧ isDigit c = false
  | .star => True
  | .digits _ _ => isDigit c = false

def Qualifier.Ends (c : Byte) : Qualifier → Prop
  | .none => c ≠ chr 'h' ∧ c ≠ chr 'L' ∧ c ≠ chr 'l'
  | .l => c ≠ chr 'l'
  | _ => True

/-- The character does not continue the directive; which characters would depends on the last
part that is there. -/
structure Written.Ends (w : Written) (c : Byte) : Prop where
  qualifier : w.qualifier.Ends c
  precision : w.qualifier.text = [] → w.precision.Ends c
  width : w.qualifier.text = [] → w.precision.text = [] → w.width.Ends c
  flags : w.qualifier.text = [] → w.precision.text = [] → w.width.text = [] → EndsFlags c

/-! ## §3  What the parsers make of it -/

/-- The number that the parser accumulates, of type `int32_t`. -/
def parsedNumber (ds : List (Fin 10)) : ℤ :=
  ds.foldl (fun (n : ℤ) (d : Fin 10) => int32 (n * 10 + d)) 0

def WidthText.value (args : ℕ → Word) (k : ℕ) : WidthText → ℤ
  | .absent => -1
  | .star => if int32Arg args k < 0 then int32 (-int32Arg args k) else int32Arg args k
  | .digits d ds _ => parsedNumber (d :: ds)

def WidthText.setFlags (args : ℕ → Word) (k : ℕ) (flags : Flags) : WidthText → Flags
  | .star => if int32Arg args k < 0 then { flags with left := true } else flags
  | _ => flags

/-- The number of arguments. -/
def WidthText.stars : WidthText → ℕ
  | .star => 1
  | _ => 0

def PrecisionText.value (args : ℕ → Word) (k : ℕ) : PrecisionText → ℤ
  | .absent => -1
  | .point => 0
  | .star => if int32Arg args k < 0 then 0 else int32Arg args k
  | .digits d ds => if parsedNumber (d :: ds) < 0 then 0 else parsedNumber (d :: ds)

def PrecisionText.stars : PrecisionText → ℕ
  | .star => 1
  | _ => 0

namespace Written

variable (w : Written) (args : ℕ → Word) (k : ℕ)

def stars : ℕ := w.width.stars + w.precision.stars

def directive : Directive where
  flags := w.width.setFlags args k (w.flags.foldl FlagChar.set {})
  fieldWidth := w.width.value args k
  precision := w.precision.value args (k + w.width.stars)
  qualifier := w.qualifier

end Written

section Parsers

variable {args : ℕ → Word} {k : ℕ} {c : Byte} {rest : List Byte}

theorem parseFlags_text (fs : List FlagChar) (flags : Flags) (hc : EndsFlags c) :
    parseFlags flags (fs.map FlagChar.char ++ c :: rest) =
      .ok (fs.foldl FlagChar.set flags, c :: rest) := by
  induction fs generalizing flags with
  | nil =>
      obtain ⟨h₁, h₂, h₃, h₄, h₅⟩ := hc
      rw [List.map_nil, List.nil_append]
      unfold parseFlags
      rw [if_neg h₁, if_neg h₂, if_neg h₃, if_neg h₄, if_neg h₅]
      rfl
  | cons f fs ih =>
      rw [List.foldl_cons, ← ih (f.set flags)]
      cases f <;> rfl

theorem isDigit_decimalChar (d : Fin 10) : isDigit (decimalChar d) = true := by
  revert d
  decide

theorem toNat_decimalChar (d : Fin 10) : ((decimalChar d).toNat : ℤ) - 48 = d := by
  revert d
  decide

theorem parseDigits_text (ds : List (Fin 10)) (n : ℤ) (hc : isDigit c = false) :
    parseDigits n (decimalText ds ++ c :: rest) =
      .ok (ds.foldl (fun (n : ℤ) (d : Fin 10) => int32 (n * 10 + d)) n, c :: rest) := by
  induction ds generalizing n with
  | nil =>
      show parseDigits n (c :: rest) = _
      unfold parseDigits
      rw [hc]
      rfl
  | cons d ds ih =>
      show parseDigits n (decimalChar d :: (decimalText ds ++ c :: rest)) = _
      unfold parseDigits
      rw [if_pos (isDigit_decimalChar d), toNat_decimalChar, ih]
      rfl

theorem decimalChar_ne (d : Fin 10) : decimalChar d ≠ chr '*' := by
  revert d
  decide

theorem parseWidth_text (w : WidthText) (flags : Flags) (hc : w.Ends c) :
    parseWidth args k flags (w.text ++ c :: rest) =
      .ok (w.setFlags args k flags, w.value args k, k + w.stars, c :: rest) := by
  cases w with
  | absent =>
      show parseWidth args k flags (c :: rest) = _
      rw [parseWidth, if_neg hc.1, hc.2]
      rfl
  | star =>
      show parseWidth args k flags (chr '*' :: c :: rest) = _
      unfold WidthText.setFlags WidthText.value
      rw [parseWidth, if_pos rfl]
      dsimp only
      split_ifs <;> rfl
  | digits d ds hd =>
      show parseWidth args k flags (decimalChar d :: (decimalText ds ++ c :: rest)) = _
      rw [parseWidth, if_neg (decimalChar_ne d), if_pos (isDigit_decimalChar d)]
      show (parseDigits 0 (decimalText (d :: ds) ++ c :: rest) >>= _) = _
      rw [parseDigits_text (d :: ds) 0 hc]
      rfl

theorem parsePoint_digits (d : Fin 10) (ds : List (Fin 10)) (hc : isDigit c = false) :
    parsePoint args k (decimalText (d :: ds) ++ c :: rest) =
      .ok (parsedNumber (d :: ds), k, c :: rest) := by
  show parsePoint args k (decimalChar d :: (decimalText ds ++ c :: rest)) = _
  rw [parsePoint, if_neg (decimalChar_ne d), if_pos (isDigit_decimalChar d)]
  show (parseDigits 0 (decimalText (d :: ds) ++ c :: rest) >>= _) = _
  rw [parseDigits_text (d :: ds) 0 hc]
  rfl

theorem parsePrecision_text (p : PrecisionText) (hc : p.Ends c) :
    parsePrecision args k (p.text ++ c :: rest) = .ok (p.value args k, k + p.stars, c :: rest) := by
  cases p with
  | absent =>
      show parsePrecision args k (c :: rest) = _
      rw [parsePrecision, if_neg hc]
      rfl
  | point =>
      show parsePrecision args k (chr '.' :: c :: rest) = _
      rw [parsePrecision, if_pos rfl, parsePoint, if_neg hc.1, hc.2]
      rfl
  | star => rfl
  | digits d ds =>
      show parsePrecision args k (chr '.' :: (decimalText (d :: ds) ++ c :: rest)) = _
      rw [parsePrecision, if_pos rfl, parsePoint_digits d ds hc]
      rfl

theorem parseQualifier_text (q : Qualifier) (hc : q.Ends c) :
    parseQualifier (q.text ++ c :: rest) = .ok (q, c :: rest) := by
  cases q with
  | none =>
      show parseQualifier (c :: rest) = _
      unfold parseQualifier
      dsimp only
      rw [if_neg hc.1, if_neg hc.2.1, if_neg hc.2.2]
  | l =>
      show parseQualifier (chr 'l' :: c :: rest) = _
      rw [parseQualifier, if_neg (by decide), if_neg (by decide), if_pos rfl, if_neg hc]
  | _ => rfl

/-! ### From one parser to the next -/

theorem exists_tail (text : List Byte) (c : Byte) (rest : List Byte) :
    ∃ xs, text ++ c :: rest = text.headD c :: xs := by
  cases text with
  | nil => exact ⟨rest, rfl⟩
  | cons x text => exact ⟨text ++ c :: rest, rfl⟩

/-- A character that continues nothing before a qualifier. -/
structure EndsNumbers (c : Byte) : Prop where
  point : c ≠ chr '.'
  star : c ≠ chr '*'
  digit : isDigit c = false
  flags : EndsFlags c

theorem EndsNumbers.precision (h : EndsNumbers c) (p : PrecisionText) : p.Ends c := by
  cases p with
  | absent => exact h.point
  | point => exact ⟨h.star, h.digit⟩
  | star => trivial
  | digits d ds => exact h.digit

theorem widthEnds_of_ne (hstar : c ≠ chr '*') (hdigit : isDigit c = false) (w : WidthText) :
    w.Ends c := by
  cases w with
  | absent => exact ⟨hstar, hdigit⟩
  | star => trivial
  | digits d ds hd => exact hdigit

/-- A qualifier begins with a letter, or there is none. -/
theorem Qualifier.headD_text (q : Qualifier) (c : Byte) :
    q.text = [] ∧ q.text.headD c = c ∨ EndsNumbers (q.text.headD c) := by
  have h : EndsNumbers (chr 'h') := ⟨by decide, by decide, by decide, by decide⟩
  have l : EndsNumbers (chr 'l') := ⟨by decide, by decide, by decide, by decide⟩
  have capitalL : EndsNumbers (chr 'L') := ⟨by decide, by decide, by decide, by decide⟩
  cases q with
  | none => exact Or.inl ⟨rfl, rfl⟩
  | h => exact Or.inr h
  | capitalL => exact Or.inr capitalL
  | l => exact Or.inr l
  | ll => exact Or.inr l

/-- A precision begins with a point, or there is none. -/
theorem PrecisionText.headD_text (p : PrecisionText) (text : List Byte) (c : Byte) :
    p.text = [] ∧ (p.text ++ text).headD c = text.headD c ∨
      (p.text ++ text).headD c = chr '.' := by
  cases p with
  | absent => exact Or.inl ⟨rfl, rfl⟩
  | _ => exact Or.inr rfl

section Ends

variable {w : Written} (h : w.Ends c)

include h

theorem Written.Ends.precision_head : w.precision.Ends (w.qualifier.text.headD c) := by
  rcases w.qualifier.headD_text c with ⟨hnone, hhead⟩ | hletter
  · rw [hhead]
    exact h.precision hnone
  · exact hletter.precision _

theorem Written.Ends.width_head :
    w.width.Ends ((w.precision.text ++ w.qualifier.text).headD c) := by
  rcases w.precision.headD_text w.qualifier.text c with ⟨hnone, hhead⟩ | hpoint
  · rw [hhead]
    rcases w.qualifier.headD_text c with ⟨hnone', hhead'⟩ | hletter
    · rw [hhead']
      exact h.width hnone' hnone
    · exact widthEnds_of_ne hletter.star hletter.digit _
  · rw [hpoint]
    exact widthEnds_of_ne (by decide) (by decide) _

theorem Written.Ends.flags_head :
    EndsFlags ((w.width.text ++ (w.precision.text ++ w.qualifier.text)).headD c) := by
  have hnone := h.flags
  generalize w.width = wd at hnone ⊢
  cases wd with
  | absent =>
      show EndsFlags ((w.precision.text ++ w.qualifier.text).headD c)
      rcases w.precision.headD_text w.qualifier.text c with ⟨hp, hhead⟩ | hpoint
      · rw [hhead]
        rcases w.qualifier.headD_text c with ⟨hq, hhead'⟩ | hletter
        · rw [hhead']
          exact hnone hq hp rfl
        · exact hletter.flags
      · rw [hpoint]
        decide
  | star => exact (by decide : EndsFlags (chr '*'))
  | digits d ds hd =>
      have hdigit : ∀ d : Fin 10, d ≠ 0 → EndsFlags (decimalChar d) := by decide
      exact hdigit d hd

/-- **The parsers take a directive apart** into the parts it was written from. -/
theorem parseDirective_text : parseDirective args k (w.body ++ c :: rest) =
    .ok (w.directive args k, k + w.stars, c :: rest) := by
  obtain ⟨xs, hxs⟩ := exists_tail (w.width.text ++ (w.precision.text ++ w.qualifier.text)) c rest
  obtain ⟨ys, hys⟩ := exists_tail (w.precision.text ++ w.qualifier.text) c rest
  obtain ⟨zs, hzs⟩ := exists_tail w.qualifier.text c rest
  have hflags : parseFlags {} (w.body ++ c :: rest) = .ok (w.flags.foldl FlagChar.set {},
      w.width.text ++ ((w.precision.text ++ w.qualifier.text) ++ c :: rest)) := by
    rw [← List.append_assoc w.width.text, hxs]
    unfold Written.body
    rw [List.append_assoc, hxs]
    exact parseFlags_text w.flags {} h.flags_head
  have hwidth (flags : Flags) : parseWidth args k flags
      (w.width.text ++ ((w.precision.text ++ w.qualifier.text) ++ c :: rest)) =
        .ok (w.width.setFlags args k flags, w.width.value args k, k + w.width.stars,
          w.precision.text ++ (w.qualifier.text ++ c :: rest)) := by
    rw [← List.append_assoc w.precision.text, hys]
    exact parseWidth_text w.width flags h.width_head
  have hprecision (k : ℕ) : parsePrecision args k
      (w.precision.text ++ (w.qualifier.text ++ c :: rest)) =
        .ok (w.precision.value args k, k + w.precision.stars, w.qualifier.text ++ c :: rest) := by
    rw [hzs]
    exact parsePrecision_text w.precision h.precision_head
  unfold parseDirective
  rw [hflags, Loop.ok_bind]
  dsimp only
  rw [hwidth, Loop.ok_bind]
  dsimp only
  rw [hprecision, Loop.ok_bind]
  dsimp only
  rw [parseQualifier_text w.qualifier h.qualifier, Loop.ok_bind]
  unfold Written.directive Written.stars
  rw [Nat.add_assoc]

end Ends

end Parsers

/-! ## §4  Conversion characters -/

theorem mem_of_conversion {c : Byte} {conversion : Conversion}
    (h : conversionOf c = some conversion) :
    c ∈ [chr 'c', chr 's', chr 'p', chr 'd', chr 'i', chr 'u', chr 'o', chr 'x', chr 'X', chr 'n',
      chr '%'] := by
  by_contra hmem
  simp only [List.mem_cons, List.not_mem_nil, or_false, not_or] at hmem
  obtain ⟨hc, hs, hp, hd, hi, hu, ho, hx, hX, hn, hpercent⟩ := hmem
  have hsigned : ¬ (c = chr 'd' ∨ c = chr 'i') := not_or.mpr ⟨hd, hi⟩
  have hunsigned : ¬ (c = chr 'u' ∨ c = chr 'o' ∨ c = chr 'x') :=
    not_or.mpr ⟨hu, not_or.mpr ⟨ho, hx⟩⟩
  rw [conversionOf, if_neg hc, if_neg hs, if_neg hp, if_neg hsigned, if_neg hunsigned, if_neg hX,
    if_neg hn, if_neg hpercent] at h
  cases h

/-- No directive goes on behind a conversion character. -/
theorem ends_of_conversion {c : Byte} {conversion : Conversion}
    (h : conversionOf c = some conversion) (w : Written) : w.Ends c := by
  have hall : ∀ c ∈ [chr 'c', chr 's', chr 'p', chr 'd', chr 'i', chr 'u', chr 'o', chr 'x',
      chr 'X', chr 'n', chr '%'], (c ≠ chr '.' ∧ c ≠ chr '*' ∧ isDigit c = false ∧ EndsFlags c) ∧
        c ≠ chr 'h' ∧ c ≠ chr 'L' ∧ c ≠ chr 'l' := by decide +kernel
  obtain ⟨⟨hpoint, hstar, hdigit, hflags⟩, hletters⟩ := hall c (mem_of_conversion h)
  have hnumbers : EndsNumbers c := ⟨hpoint, hstar, hdigit, hflags⟩
  refine ⟨?_, fun _ => hnumbers.precision _, fun _ _ => widthEnds_of_ne hstar hdigit _,
    fun _ _ _ => hflags⟩
  generalize w.qualifier = q
  cases q with
  | none => exact hletters
  | l => exact hletters.2.2
  | _ => trivial

/-- Nor behind the NUL. -/
theorem ends_zero (w : Written) : w.Ends 0 := by
  have hnumbers : EndsNumbers 0 := ⟨by decide, by decide, by decide, by decide⟩
  refine ⟨?_, fun _ => hnumbers.precision _, fun _ _ => widthEnds_of_ne (by decide) (by decide) _,
    fun _ _ _ => hnumbers.flags⟩
  generalize w.qualifier = q
  cases q with
  | none => exact (by decide : (0 : Byte) ≠ chr 'h' ∧ (0 : Byte) ≠ chr 'L' ∧ (0 : Byte) ≠ chr 'l')
  | l => exact (by decide : (0 : Byte) ≠ chr 'l')
  | _ => trivial

/-! ## §5  Every text begins with a directive -/

/-- The first character, if there is one. -/
def Heads (P : Byte → Prop) (text : List Byte) : Prop := ∀ c rest, text = c :: rest → P c

theorem exists_flags (text : List Byte) :
    ∃ (fs : List FlagChar) (rest : List Byte), text = fs.map FlagChar.char ++ rest ∧
      Heads EndsFlags rest := by
  induction text with
  | nil => exact ⟨[], [], rfl, nofun⟩
  | cons c text ih =>
      obtain ⟨fs, rest, rfl, hrest⟩ := ih
      by_cases hc : EndsFlags c
      · refine ⟨[], c :: _, rfl, fun c' rest' heq => ?_⟩
        rw [← (List.cons.inj heq).1]
        exact hc
      · obtain ⟨f, rfl⟩ : ∃ f : FlagChar, f.char = c := by
          unfold EndsFlags at hc
          simp only [not_and_or, not_not] at hc
          rcases hc with rfl | rfl | rfl | rfl | rfl
          · exact ⟨.minus, rfl⟩
          · exact ⟨.plus, rfl⟩
          · exact ⟨.space, rfl⟩
          · exact ⟨.sharp, rfl⟩
          · exact ⟨.zero, rfl⟩
        exact ⟨f :: fs, rest, rfl, hrest⟩

theorem exists_decimalChar {c : Byte} (h : isDigit c = true) : ∃ d, decimalChar d = c := by
  have hbounds : 48 ≤ c.toNat ∧ c.toNat ≤ 57 := of_decide_eq_true h
  refine ⟨⟨c.toNat - 48, by omega⟩, BitVec.eq_of_toNat_eq ?_⟩
  show (48 + (c.toNat - 48)) % 2 ^ 8 = c.toNat
  omega

theorem exists_digits (text : List Byte) :
    ∃ (ds : List (Fin 10)) (rest : List Byte), text = decimalText ds ++ rest ∧
      Heads (isDigit · = false) rest := by
  induction text with
  | nil => exact ⟨[], [], rfl, nofun⟩
  | cons c text ih =>
      obtain ⟨ds, rest, rfl, hrest⟩ := ih
      cases hc : isDigit c with
      | false =>
          refine ⟨[], c :: _, rfl, fun c' rest' heq => ?_⟩
          rw [← (List.cons.inj heq).1]
          exact hc
      | true =>
          obtain ⟨d, rfl⟩ := exists_decimalChar hc
          exact ⟨d :: ds, rest, rfl, hrest⟩

theorem exists_width {text : List Byte} (htext : Heads EndsFlags text) :
    ∃ (w : WidthText) (rest : List Byte), text = w.text ++ rest ∧ Heads (w.Ends ·) rest := by
  cases text with
  | nil => exact ⟨.absent, [], rfl, nofun⟩
  | cons c text =>
      by_cases hstar : c = chr '*'
      · exact ⟨.star, text, by rw [hstar]; rfl, fun _ _ _ => trivial⟩
      · cases hc : isDigit c with
        | false =>
            refine ⟨.absent, c :: text, rfl, fun c' rest heq => ?_⟩
            rw [← (List.cons.inj heq).1]
            exact ⟨hstar, hc⟩
        | true =>
            obtain ⟨d, rfl⟩ := exists_decimalChar hc
            obtain ⟨ds, rest, rfl, hrest⟩ := exists_digits text
            have hd : d ≠ 0 := by
              rintro rfl
              exact (htext _ _ rfl).2.2.2.2 rfl
            exact ⟨.digits d ds hd, rest, rfl, hrest⟩

theorem exists_precision (text : List Byte) :
    ∃ (p : PrecisionText) (rest : List Byte), text = p.text ++ rest ∧ Heads (p.Ends ·) rest := by
  cases text with
  | nil => exact ⟨.absent, [], rfl, nofun⟩
  | cons c text =>
      by_cases hpoint : c = chr '.'
      · subst hpoint
        cases text with
        | nil => exact ⟨.point, [], rfl, nofun⟩
        | cons c text =>
            by_cases hstar : c = chr '*'
            · exact ⟨.star, text, by rw [hstar]; rfl, fun _ _ _ => trivial⟩
            · cases hc : isDigit c with
              | false =>
                  refine ⟨.point, c :: text, rfl, fun c' rest heq => ?_⟩
                  rw [← (List.cons.inj heq).1]
                  exact ⟨hstar, hc⟩
              | true =>
                  obtain ⟨d, rfl⟩ := exists_decimalChar hc
                  obtain ⟨ds, rest, rfl, hrest⟩ := exists_digits text
                  exact ⟨.digits d ds, rest, rfl, hrest⟩
      · refine ⟨.absent, c :: text, rfl, fun c' rest heq => ?_⟩
        rw [← (List.cons.inj heq).1]
        exact hpoint

theorem exists_qualifier (text : List Byte) :
    ∃ (q : Qualifier) (rest : List Byte), text = q.text ++ rest ∧ Heads (q.Ends ·) rest := by
  cases text with
  | nil => exact ⟨.none, [], rfl, nofun⟩
  | cons c text =>
      by_cases hh : c = chr 'h'
      · exact ⟨.h, text, by rw [hh]; rfl, fun _ _ _ => trivial⟩
      · by_cases hL : c = chr 'L'
        · exact ⟨.capitalL, text, by rw [hL]; rfl, fun _ _ _ => trivial⟩
        · by_cases hl : c = chr 'l'
          · subst hl
            by_cases hll : ∃ rest, text = chr 'l' :: rest
            · obtain ⟨rest, rfl⟩ := hll
              exact ⟨.ll, rest, rfl, fun _ _ _ => trivial⟩
            · refine ⟨.l, text, rfl, fun c' rest heq hc => ?_⟩
              exact hll ⟨rest, by rw [heq, hc]⟩
          · refine ⟨.none, c :: text, rfl, fun c' rest heq => ?_⟩
            rw [← (List.cons.inj heq).1]
            exact ⟨hh, hL, hl⟩

theorem exists_written (text : List Byte) :
    ∃ (w : Written) (rest : List Byte), text = w.body ++ rest ∧ Heads w.Ends rest := by
  obtain ⟨fs, rest₁, rfl, hflags⟩ := exists_flags text
  obtain ⟨wd, rest₂, rfl, hwidth⟩ := exists_width hflags
  obtain ⟨p, rest₃, rfl, hprecision⟩ := exists_precision rest₂
  obtain ⟨q, rest, rfl, hqualifier⟩ := exists_qualifier rest₃
  refine ⟨⟨fs, wd, p, q⟩, rest, ?_, ?_⟩
  · simp only [Written.body, List.append_assoc]
  · rintro c rest rfl
    refine ⟨hqualifier c rest rfl, fun hq => ?_, fun hq hp => ?_, fun hq hp hw => ?_⟩
    · exact hprecision c rest (by rw [show q.text = [] from hq, List.nil_append])
    · exact hwidth c rest (by rw [show q.text = [] from hq, show p.text = [] from hp]; rfl)
    · exact hflags c rest (by
        rw [show q.text = [] from hq, show p.text = [] from hp, show wd.text = [] from hw]; rfl)

end Knos.Printk
