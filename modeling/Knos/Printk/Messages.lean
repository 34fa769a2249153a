import Knos.Printk.Drawing
import Knos.Printk.ReadBack
import Knos.Printk.Strings

/-!
# Messages

Most formats of the kernel consist of text and of directives of a few kinds. What such a format
is rendered to can be said part by part (`rendering_parts`), and if that is shorter than
`printk_buf` it is what is drawn (`vcolorPrintk_parts`). Where no digit follows a number, the
values can be read from the message (`readParts_renderParts`).
-/

namespace Knos.Printk

open Knos.Bytes Knos.Stack Knos.Pieces Knos.Numeral

/-! ## §1  Parts -/

/-- A kind of directive. -/
inductive Request where
  /-- `%#llx` -/
  | address
  /-- `%01x` to `%09x` -/
  | padded (d : Fin 9)
  /-- `%c` -/
  | char
  /-- `%d` -/
  | decimal

namespace Request

theorem digit_ne_zero (d : Fin 9) : (d.succ : Fin 10) ≠ 0 := Fin.succ_ne_zero d

def written : Request → Written
  | address => ⟨[.sharp], .absent, .absent, .ll⟩
  | padded d => ⟨[.zero], .digits d.succ [] (digit_ne_zero d), .absent, .none⟩
  | char => .plain
  | decimal => .plain

def letter : Request → Byte
  | address => chr 'x'
  | padded _ => chr 'x'
  | char => chr 'c'
  | decimal => chr 'd'

def conversion : Request → Conversion
  | address => .unsigned
  | padded _ => .unsigned
  | char => .char
  | decimal => .signed

theorem conversionOf_letter (r : Request) : conversionOf r.letter = some r.conversion := by
  cases r <;> rfl

/-- The digits of a number in base 16. -/
def hexDigits (n : ℕ) : List Byte := numeral (digitGlyph true) 16 n

/-- What becomes of an argument. -/
def render (slot : Word) : Request → List Byte
  | address => [chr '0', chr 'x'] ++ hexDigits slot.toNat
  | padded d =>
      let digits := hexDigits (slot.setWidth 32).toNat
      List.replicate (d + 1 - digits.length) (chr '0') ++ digits
  | char => [slot.setWidth 8]
  | decimal =>
      let n := (slot.setWidth 32).toInt
      (if n < 0 then [chr '-'] else []) ++ numeral (digitGlyph false) 10 n.natAbs

end Request

inductive Part where
  | text (s : List Byte)
  | request (r : Request)

def Part.format : Part → List Byte
  | .text s => s
  | .request r => chr '%' :: (r.written.body ++ [r.letter])

/-- A format without its NUL. -/
def formatOf (parts : List Part) : List Byte := parts.flatMap Part.format

/-- The parts with their arguments, from number `k` on. -/
def renderParts (args : ℕ → Word) : ℕ → List Part → List Byte
  | _, [] => []
  | k, .text s :: parts => s ++ renderParts args k parts
  | k, .request r :: parts => r.render (args k) ++ renderParts args (k + 1) parts

/-- Characters that stand for themselves. -/
def Literal (s : List Byte) : Prop := ∀ c ∈ s, c ≠ 0 ∧ c ≠ chr '%'

theorem literal_iff (s : List Byte) :
    Literal s ↔ s.all (fun c => c != 0 && c != chr '%') = true := by
  unfold Literal
  simp

instance (s : List Byte) : Decidable (Literal s) := decidable_of_iff' _ (literal_iff s)

def Part.Plain : Part → Prop
  | .text s => Literal s
  | .request _ => True

instance (p : Part) : Decidable p.Plain := by
  cases p with
  | text s => exact inferInstanceAs (Decidable (Literal s))
  | request r => exact inferInstanceAs (Decidable True)

/-! ## §2  What they are rendered to -/

section Rendering

variable (memory : Memory) (args : ℕ → Word)

theorem bareLength_le (num : Word) (flags : Flags) (isNegative : Bool) :
    bareLength num 16 (-1) flags isNegative ≤ 75 := by
  have hdigits := length_numeral_le flags.small (show 2 ≤ 16 by decide) num
  have hsign : (signText flags isNegative).length ≤ 1 := by
    unfold signText
    split_ifs <;> decide
  have hprefix : (prefixText flags 16).length ≤ 2 := by
    unfold prefixText
    split_ifs <;> simp_all
  unfold bareLength
  omega

theorem flatten_address (slot : Word) :
    (numberPieces slot.toNat 16 (-1) (-1) { special := true, small := true } false).flatten =
      Request.address.render slot := by
  have hbare := bareLength_le slot { special := true, small := true } false
  have hbudget : (budget slot 16 (-1) (-1) { special := true, small := true } false).toNat = 0 := by
    have hover : overcount { special := true, small := true } 16 = 2 := rfl
    unfold budget
    rw [hover, int32_eq (by omega) (by omega)]
    omega
  rw [flatten_numberPieces slot 16 _ _ _ _ (by decide) (by decide), hbudget]
  simp [layoutText, signText, prefixText, spaces, Request.render, Request.hexDigits]

theorem flatten_padded (d : Fin 9) (num : Word) :
    (numberPieces num.toNat 16 (d + 1) (-1) { zeropad := true, small := true } false).flatten =
      List.replicate (d + 1 - (Request.hexDigits num.toNat).length) (chr '0') ++
        Request.hexDigits num.toNat := by
  have hbare := bareLength_le num { zeropad := true, small := true } false
  have hlen : bareLength num 16 (-1) { zeropad := true, small := true } false =
      (Request.hexDigits num.toNat).length := by
    unfold bareLength
    simp [signText, prefixText, Request.hexDigits]
  have hbudget : (budget num 16 (d + 1) (-1) { zeropad := true, small := true } false).toNat =
      d + 1 - (Request.hexDigits num.toNat).length := by
    have hd := d.isLt
    unfold budget
    rw [overcount_of_plain rfl, hlen, int32_eq (by omega) (by omega)]
    omega
  rw [flatten_numberPieces num 16 _ _ _ _ (by decide) (by decide), hbudget]
  simp [layoutText, signText, prefixText, Request.hexDigits]

theorem flatten_decimal (slot : Word) :
    (numberPieces (if (signedArg .none slot).msb then -signedArg .none slot
      else signedArg .none slot).toNat 10 (-1) (-1) { sign := true } (signedArg .none slot).msb).flatten =
      Request.decimal.render slot := by
  have hvalue : (signedArg .none slot).toInt = (slot.setWidth 32).toInt := toInt_signedArg .none slot
  have hsign : ((signedArg .none slot).msb = true) = ((slot.setWidth 32).toInt < 0) := by
    rw [← hvalue]
    exact propext (msb_iff _)
  have hbare := flatten_bare (if (signedArg .none slot).msb then -signedArg .none slot
    else signedArg .none slot) (show 2 ≤ 10 by decide) (by decide) false
      (signedArg .none slot).msb true
  rw [magnitude_eq] at hbare ⊢
  rw [hbare]
  simp only [true_and, hsign, hvalue]
  rfl

theorem flatten_field (r : Request) (k : ℕ) :
    (fieldOf memory args k (r.written.directive args k) r.conversion).2.asPieces.flatten =
      r.render (args k) := by
  cases r with
  | address => exact flatten_address (args k)
  | padded d =>
      have hwidth : parsedNumber [d.succ] = d + 1 := by
        revert d
        decide
      have hvalue : (unsignedArg .none (args k)).toNat = ((args k).setWidth 32).toNat :=
        BitVec.toNat_setWidth_of_le (by decide)
      have hdirective : (Request.padded d).written.directive args k =
          ⟨{ zeropad := true }, parsedNumber [d.succ], -1, .none⟩ := rfl
      rw [hdirective, hwidth, Request.render, ← hvalue]
      exact flatten_padded d (unsignedArg .none (args k))
  | char => rfl
  | decimal =>
      have hdecimal := flatten_decimal (args k)
      rw [apply_ite BitVec.toNat] at hdecimal
      exact hdecimal

theorem stars_written (r : Request) : r.written.stars = 0 := by
  cases r <;> rfl

theorem conversion_ne_percent (r : Request) : r.conversion ≠ .percent := by
  cases r <;> simp [Request.conversion]

theorem flatten_fieldsFrom_parts {parts : List Part} (hplain : ∀ p ∈ parts, p.Plain) {fuel : ℕ}
    (hfuel : (formatOf parts).length < fuel) (k : ℕ) :
    (piecesOf (fieldsFrom memory args fuel (formatOf parts ++ [0]) k)).flatten =
      renderParts args k parts := by
  induction parts generalizing fuel k with
  | nil =>
      obtain ⟨fuel, rfl⟩ : ∃ n, fuel = n + 1 := ⟨fuel - 1, by omega⟩
      rfl
  | cons p parts ih =>
      rw [List.forall_mem_cons] at hplain
      have hformat : formatOf (p :: parts) = p.format ++ formatOf parts := rfl
      rw [hformat, List.length_append] at hfuel
      rw [hformat, List.append_assoc]
      cases p with
      | text t =>
          obtain ⟨fuel, rfl⟩ : ∃ n, fuel = t.length + n := by
            have hlength : (Part.text t).format.length = t.length := rfl
            exact ⟨fuel - t.length, by omega⟩
          have hsplit : ∀ fields, (piecesOf (literalFields t ++ fields)).flatten =
              t ++ (piecesOf fields).flatten := by
            intro fields
            have hliterals : (piecesOf (literalFields t)).flatten = t := by
              rw [piecesOf_literals, flatten_singles]
            rw [piecesOf, List.flatMap_append, List.flatten_append]
            exact congrArg (· ++ _) hliterals
          have hlength : (Part.text t).format.length = t.length := rfl
          rw [Part.format, fieldsFrom_literals memory args hplain.1, hsplit,
            ih hplain.2 (by omega), renderParts]
      | request r =>
          obtain ⟨fuel, rfl⟩ : ∃ n, fuel = n + 1 := ⟨fuel - 1, by omega⟩
          have hlength : (Part.request r).format.length = (r.written.body ++ [r.letter]).length + 1 :=
            rfl
          rw [Part.format, List.cons_append, List.append_assoc, List.singleton_append,
            fieldsFrom_directive memory args r.conversionOf_letter, stars_written,
            if_neg (conversion_ne_percent r), Nat.add_zero, Nat.zero_add, renderParts]
          rw [piecesOf_cons, flatten_field, ih hplain.2 (by omega)]

/-- **Part by part** is how a format is rendered. -/
theorem rendering_parts {parts : List Part} (hplain : ∀ p ∈ parts, p.Plain) :
    rendering memory (formatOf parts ++ [0]) args = renderParts args 0 parts := by
  have hlength : (formatOf parts ++ [0]).length = (formatOf parts).length + 1 :=
    List.length_append
  exact flatten_fieldsFrom_parts memory args hplain (by omega) 0

/-- A message has room for 80 characters an argument. -/
def roomFor : List Part → ℕ
  | [] => 0
  | .text s :: parts => s.length + roomFor parts
  | .request _ :: parts => 80 + roomFor parts

theorem length_render_le (r : Request) (slot : Word) : (r.render slot).length ≤ 80 := by
  cases r with
  | address =>
      have hdigits : (Request.hexDigits slot.toNat).length ≤ 72 :=
        length_numeral_le true (by decide) slot
      rw [Request.render, List.length_append]
      exact Nat.add_le_add (show 2 ≤ 8 by decide) hdigits
  | padded d =>
      have hdigits : (Request.hexDigits ((slot.setWidth 32).setWidth 64).toNat).length ≤ 72 :=
        length_numeral_le true (by decide) _
      rw [BitVec.toNat_setWidth_of_le (by decide)] at hdigits
      have hd := d.isLt
      rw [Request.render, List.length_append, List.length_replicate]
      omega
  | char => exact (by decide : 1 ≤ 80)
  | decimal =>
      have hdigits := @length_numeral_le false 10 (by decide)
        (BitVec.ofNat 64 (slot.setWidth 32).toInt.natAbs)
      have hlow := BitVec.le_toInt (slot.setWidth 32)
      have hhigh := @BitVec.toInt_lt 32 (slot.setWidth 32)
      have hsign : (if (slot.setWidth 32).toInt < 0 then [chr '-'] else []).length ≤ 1 := by
        split_ifs <;> decide
      rw [BitVec.toNat_ofNat, Nat.mod_eq_of_lt (by omega)] at hdigits
      rw [Request.render, List.length_append]
      omega

theorem length_renderParts_le (k : ℕ) (parts : List Part) :
    (renderParts args k parts).length ≤ roomFor parts := by
  induction parts generalizing k with
  | nil => exact le_rfl
  | cons p parts ih =>
      cases p with
      | text s =>
          rw [renderParts, List.length_append]
          exact Nat.add_le_add_left (ih k) _
      | request r =>
          rw [renderParts, List.length_append]
          exact Nat.add_le_add (length_render_le r _) (ih (k + 1))

end Rendering

/-! ## §3  Reading -/

section Reading

/-- What an argument is shown as. -/
def Request.value (slot : Word) : Request → ℤ
  | address => slot.toNat
  | padded _ => (slot.setWidth 32).toNat
  | char => (slot.setWidth 8).toNat
  | decimal => (slot.setWidth 32).toInt

/-- The values in a message. -/
def shownValues (args : ℕ → Word) : ℕ → List Part → List ℤ
  | _, [] => []
  | k, .text _ :: parts => shownValues args k parts
  | k, .request r :: parts => r.value (args k) :: shownValues args (k + 1) parts

/-- The value that a text begins with, and what follows it. -/
def Request.read (text : List Byte) : Request → Option (ℤ × List Byte)
  | address =>
      if [chr '0', chr 'x'] <+: text then
        (scanNumeral (digitGlyph true) 16 (text.drop 2)).map fun r => (r.1, r.2)
      else none
  | padded _ => (scanNumeral (digitGlyph true) 16 text).map fun r => (r.1, r.2)
  | char =>
      match text with
      | [] => none
      | c :: rest => some (c.toNat, rest)
  | decimal =>
      if [chr '-'] <+: text then
        (scanNumeral (digitGlyph false) 10 (text.drop 1)).map fun r => (-r.1, r.2)
      else (scanNumeral (digitGlyph false) 10 text).map fun r => (r.1, r.2)

/-- The values in a text that consists of these parts. -/
def readParts : List Part → List Byte → Option (List ℤ)
  | [], text => if text = [] then some [] else none
  | .text s :: parts, text => if s <+: text then readParts parts (text.drop s.length) else none
  | .request r :: parts, text =>
      match r.read text with
      | none => none
      | some (value, rest) => (readParts parts rest).map (value :: ·)

/-- What comes next begins with no digit. -/
def NoDigit (small : Bool) (base : ℕ) : List Part → Prop
  | [] => True
  | .text (c :: _) :: _ => digitFor (digitGlyph small) base c = none
  | _ => False

instance (small : Bool) (base : ℕ) (parts : List Part) : Decidable (NoDigit small base parts) := by
  unfold NoDigit
  split <;> infer_instance

def Request.Ends (parts : List Part) : Request → Prop
  | char => True
  | decimal => NoDigit false 10 parts
  | _ => NoDigit true 16 parts

instance (parts : List Part) (r : Request) : Decidable (r.Ends parts) := by
  unfold Request.Ends
  split <;> infer_instance

/-- The numbers can be told from what follows them. -/
def Delimited : List Part → Prop
  | [] => True
  | .text _ :: parts => Delimited parts
  | .request r :: parts => r.Ends parts ∧ Delimited parts

instance decidableDelimited : (parts : List Part) → Decidable (Delimited parts)
  | [] => isTrue trivial
  | .text _ :: parts => decidableDelimited parts
  | .request r :: parts =>
      have := decidableDelimited parts
      inferInstanceAs (Decidable (r.Ends parts ∧ Delimited parts))

variable {args : ℕ → Word} {k : ℕ} {parts : List Part}

theorem NoDigit.head {small : Bool} {base : ℕ} (h : NoDigit small base parts) :
    ∀ c ∈ (renderParts args k parts).head?, digitFor (digitGlyph small) base c = none := by
  intro c hc
  cases parts with
  | nil => cases hc
  | cons p parts =>
      cases p with
      | request r => exact absurd h not_false
      | text s =>
          cases s with
          | nil => exact absurd h not_false
          | cons c' s =>
              obtain rfl : c' = c := Option.some.inj hc
              exact h

theorem scanNumeral_hexDigits (n k : ℕ) {rest : List Byte}
    (hrest : ∀ c ∈ rest.head?, digitFor (digitGlyph true) 16 c = none) :
    scanNumeral (digitGlyph true) 16
        (List.replicate k (chr '0') ++ Request.hexDigits n ++ rest) = some (n, rest) := by
  have hzeros : List.replicate k (chr '0') ++ Request.hexDigits n =
      (List.replicate k 0 ++ digitsOf 16 n).map (digitGlyph true) := by
    rw [List.map_append, List.map_replicate]
    rfl
  have hdigits : ∀ d ∈ List.replicate k 0 ++ digitsOf 16 n, d < 16 := by
    intro d hd
    rcases List.mem_append.mp hd with hd | hd
    · rw [List.eq_of_mem_replicate hd]
      decide
    · exact lt_of_mem_digitsOf (by decide) hd
  have hne : List.replicate k 0 ++ digitsOf 16 n ≠ [] := by
    simp [digitsOf_ne_nil]
  rw [hzeros, scanNumeral_digits (distinct_digitGlyph true) le_rfl hdigits hne hrest, horner_zeros,
    horner_digitsOf (by decide)]

theorem scanNumeral_decimal (n : ℕ) {rest : List Byte}
    (hrest : ∀ c ∈ rest.head?, digitFor (digitGlyph false) 10 c = none) :
    scanNumeral (digitGlyph false) 10 (numeral (digitGlyph false) 10 n ++ rest) = some (n, rest) := by
  rw [numeral, scanNumeral_digits (distinct_digitGlyph false) (by decide)
    (fun d hd => lt_of_mem_digitsOf (by decide) hd) (digitsOf_ne_nil 10 n) hrest,
    horner_digitsOf (by decide)]

/-- No numeral begins with a minus sign. -/
theorem not_minus_head (n : ℕ) (rest : List Byte) :
    ¬ [chr '-'] <+: numeral (digitGlyph false) 10 n ++ rest := by
  have hhead := @head_numeral_ne false 10 (by decide) (by decide) n
  have hne : numeral (digitGlyph false) 10 n ≠ [] := by
    simp [numeral, digitsOf_ne_nil]
  cases hnum : numeral (digitGlyph false) 10 n with
  | nil => exact absurd hnum hne
  | cons c cs =>
      rw [hnum] at hhead
      rw [List.cons_append, List.cons_prefix_cons]
      exact fun h => hhead (congrArg some h.1.symm)

/-- What is written for an argument is read as its value. -/
theorem read_render (r : Request) (h : r.Ends parts) (slot : Word) :
    r.read (r.render slot ++ renderParts args k parts) =
      some (r.value slot, renderParts args k parts) := by
  cases r with
  | address =>
      have hscan := scanNumeral_hexDigits slot.toNat 0 (@NoDigit.head args k parts true 16 h)
      rw [List.replicate_zero, List.nil_append] at hscan
      rw [Request.render, Request.read, List.append_assoc, if_pos (List.prefix_append _ _)]
      simp only [List.cons_append, List.nil_append, List.drop_succ_cons, List.drop_zero, hscan]
      rfl
  | padded d =>
      rw [Request.render, Request.read,
        scanNumeral_hexDigits _ _ (@NoDigit.head args k parts true 16 h)]
      rfl
  | char => rfl
  | decimal =>
      have hscan := scanNumeral_decimal (slot.setWidth 32).toInt.natAbs
        (@NoDigit.head args k parts false 10 h)
      rw [Request.render, Request.read, List.append_assoc]
      by_cases hneg : (slot.setWidth 32).toInt < 0
      · have hvalue : -((slot.setWidth 32).toInt.natAbs : ℤ) = (slot.setWidth 32).toInt := by omega
        rw [if_pos hneg, if_pos (List.prefix_append _ _)]
        simp only [List.cons_append, List.nil_append, List.drop_succ_cons, List.drop_zero, hscan,
          Option.map_some, hvalue]
        rfl
      · have hvalue : ((slot.setWidth 32).toInt.natAbs : ℤ) = (slot.setWidth 32).toInt := by omega
        rw [if_neg hneg, List.nil_append, if_neg (not_minus_head _ _)]
        simp only [hscan, Option.map_some, hvalue]
        rfl

/-- **Reading a message**: the values that were put into it. -/
theorem readParts_renderParts (h : Delimited parts) (args : ℕ → Word) (k : ℕ) :
    readParts parts (renderParts args k parts) = some (shownValues args k parts) := by
  induction parts generalizing k with
  | nil => rfl
  | cons p parts ih =>
      cases p with
      | text s =>
          rw [renderParts, readParts, if_pos (List.prefix_append _ _), List.drop_left, ih h]
          rfl
      | request r =>
          rw [renderParts, readParts, read_render r h.1]
          dsimp only
          rw [ih h.2]
          rfl

end Reading

/-! ## §4  What is drawn -/

/-- The characters of a text. -/
def chars (s : String) : List Byte := s.toList.map chr

/-- A call with a string constant. The list of its arguments goes on with `behind`. -/
def printCall (function : PrintFunction) (memory : Memory) (behind : ℕ → Word) (fmt : String)
    (args : List Word) : PrintCall :=
  ⟨function, memory, chars fmt ++ [0], fun k => args.getD k (behind k)⟩

section Calls

variable (memory : Memory) (args : ℕ → Word) {cells : Cells} {cell : ℕ × ℕ} {s : Screen} (kernel : Kernel)

theorem vcolorPrintk_parts (h : OnCell cells s.pos cell) (fg bg : Color) {parts : List Part}
    (hplain : ∀ p ∈ parts, p.Plain) (hshort : (renderParts args 0 parts).length < 4096) :
    vcolorPrintk kernel fg bg memory (formatOf parts ++ [0]) args s =
      (.ok (renderParts args 0 parts).length,
        (renderParts args 0 parts).foldl (plainChar fg bg) s) := by
  have hrendering := rendering_parts memory args hplain
  rw [vcolorPrintk_of_fits h kernel memory _ args (by rwa [hrendering]), hrendering]

theorem onCell_foldl (h : OnCell cells s.pos cell) (fg bg : Color) (text : List Byte) :
    ∃ cell', OnCell cells (text.foldl (plainChar fg bg) s).pos cell' := by
  induction text generalizing s cell with
  | nil => exact ⟨cell, h⟩
  | cons c text ih =>
      obtain ⟨cell', h'⟩ := @OnCell.plainChar cells cell fg bg s h c
      exact ih h'

/-- `"[FATL] "` without its NUL. -/
def fatalText : List Byte := fatalTag.dropLast

/-- **A fatal message** in red: its tag, and its text. -/
theorem fatalk_parts (h : OnCell cells s.pos cell) {parts : List Part}
    (hplain : ∀ p ∈ parts, p.Plain) (hshort : (renderParts args 0 parts).length < 4096) :
    (⟨.fatalk, memory, formatOf parts ++ [0], args⟩ : PrintCall).run kernel s =
      (.ok (fatalText ++ renderParts args 0 parts).length,
        (fatalText ++ renderParts args 0 parts).foldl (plainChar RED WHITE) s) := by
  have hrender : renderParts args 0 [.text fatalText] = fatalText := List.append_nil _
  have htag := @vcolorPrintk_parts memory args cells cell s kernel h RED WHITE [.text fatalText]
    (by decide) (by rw [hrender]; decide)
  rw [hrender, show formatOf [.text fatalText] ++ [0] = fatalTag from by decide] at htag
  obtain ⟨cell', h'⟩ := onCell_foldl h RED WHITE fatalText
  have hbody := vcolorPrintk_parts memory args kernel h' RED WHITE hplain hshort
  have hlength : fatalText.length = 7 := rfl
  have hsum : int32 ((fatalText.length : ℕ) + (renderParts args 0 parts).length : ℤ) =
      (fatalText ++ renderParts args 0 parts).length := by
    rw [← Nat.cast_add, int32_of_lt (by omega), List.length_append]
  simp only [PrintCall.run, logkImpl, htag, hbody]
  rw [if_neg (by omega), hsum, List.foldl_append]

end Calls

end Knos.Printk
