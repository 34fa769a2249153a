import Mathlib.Order.Lattice.Nat
import Knos.Printk.Formats
import Knos.Printk.Numerals
import Knos.Printk.Room

/-!
# Text, characters and strings

What a format without numbers should look like (`reference`): literals and `%%` as they
stand, a character or a string padded to its width on one side, a string cut to its
precision. A width of `*` that is negative asks for the other side, a precision that is
negative is 0.

`vsnprintf` stores the first characters of it (`stores_iff`) as long as the strings that it
gets to are shorter than 2 GB: `strlen` has 32 bits with a sign, so a longer one gets a
length close to the end of the address space.
-/

namespace Knos.Printk

open Knos.Bytes Knos.Stack Knos.Pieces Knos.Numeral

/-! ## §1  The reference -/

section Requests

variable (args : ℕ → Word) (k : ℕ)

/-- The padding stands behind the text. -/
def Written.alignsLeft (w : Written) : Bool :=
  w.flags.contains .minus || w.width.isNegative args k

/-- The numbers have 32 bits with a sign, and so has the negation of the width. -/
structure Written.InRange (w : Written) : Prop where
  columns_lt : w.width.columns args k < 2 ^ 31
  limit_lt : ∀ n ∈ w.precision.limit args (k + w.width.stars), n < 2 ^ 31

end Requests

/-- The number of bytes before the first NUL. -/
noncomputable def textLength (source : Store Byte) : ℕ := sInf {i | source i = 0}

/-- The number of bytes that a precision leaves. -/
noncomputable def cutLength (source : Store Byte) : Option ℕ → ℕ
  | none => textLength source
  | some n => min n (textLength source)

def padded (left : Bool) (columns : ℕ) (text : List Byte) : List Byte :=
  if left then text ++ spaces (columns - text.length) else spaces (columns - text.length) ++ text

section Reference

variable (memory : Memory) (args : ℕ → Word) (k : ℕ)

/-- The string of a directive whose first argument has the number `k`. -/
def Written.source (w : Written) : Store Byte := stringSource memory (args (k + w.stars))

noncomputable def Written.cutLength (w : Written) : ℕ :=
  Printk.cutLength (w.source memory args k) (w.precision.limit args (k + w.width.stars))

noncomputable def Item.reference : Item → List Byte
  | .directive w _ .char _ =>
      padded (w.alignsLeft args k) (w.width.columns args k) [(args (k + w.stars)).setWidth 8]
  | .directive w _ .string _ =>
      padded (w.alignsLeft args k) (w.width.columns args k)
        (peek (w.source memory args k) 0 (w.cutLength memory args k))
  | .directive _ _ _ _ => [chr '%']
  | item => item.text

/-- **The reference rendering**: one item after the other. -/
noncomputable def reference : ℕ → List Item → List Byte
  | _, [] => []
  | k, item :: items =>
      item.reference memory args k ++ reference (k + item.arguments Written.stars) items

end Reference

/-- Literal text, or a directive for `%`, a character or a string. -/
def Item.IsText : Item → Prop
  | .literal _ _ _ => True
  | .directive _ _ conversion _ =>
      conversion = .percent ∨ conversion = .char ∨ conversion = .string
  | .malformed _ _ _ _ _ => False

def Item.InRange (args : ℕ → Word) (k : ℕ) : Item → Prop
  | .directive w _ _ _ => w.InRange args k
  | _ => True

/-- All widths and precisions are in range. -/
def InRange (args : ℕ → Word) : ℕ → List Item → Prop
  | _, [] => True
  | k, item :: items =>
      item.InRange args k ∧ InRange args (k + item.arguments Written.stars) items

/-! ## §2  The length of a string -/

section Strlen

variable {source : Store Byte}

theorem source_textLength (h : ∃ i, source i = 0) : source (textLength source) = 0 :=
  Nat.sInf_mem h

theorem source_ne_zero {i : ℕ} (h : i < textLength source) : source i ≠ 0 :=
  Nat.notMem_of_lt_sInf h

/-- What is left of the counter at the first NUL. -/
theorem repneScasb_eq {m : ℕ} (ecx i : ℕ) (hnul : source (i + m) = 0)
    (hbefore : ∀ j < m, source (i + j) ≠ 0) : repneScasb source ecx i = ecx - 1 - m := by
  induction ecx generalizing i m with
  | zero => exact (by omega : 0 = 0 - 1 - m)
  | succ ecx ih =>
      rw [repneScasb]
      cases m with
      | zero => exact if_pos hnul
      | succ m =>
          have hnext := @ih m (i + 1) (by rwa [Nat.add_right_comm]) fun j hj => by
            rw [Nat.add_right_comm]
            exact hbefore (j + 1) (by omega)
          rw [if_neg (show ¬ source i = 0 from hbefore 0 (Nat.succ_pos m)), hnext]
          omega

/-- The length has 32 bits. -/
theorem toNat_strlen (h : ∃ i, source i = 0) :
    (strlen source).toNat = min (textLength source) 0xfffffffe := by
  have hcount : repneScasb source 0xffffffff 0 = 0xfffffffe - textLength source := by
    refine repneScasb_eq _ 0 (by rw [Nat.zero_add]; exact source_textLength h) fun j hj => ?_
    rw [Nat.zero_add]
    exact source_ne_zero hj
  unfold strlen
  rw [hcount, BitVec.toNat_sub, BitVec.toNat_not, BitVec.toNat_ofNat,
    show (1 : BitVec 32).toNat = 1 from rfl]
  omega

theorem toNat_signExtend_strlen (h : ∃ i, source i = 0) : ((strlen source).signExtend 64).toNat =
    if textLength source < 2 ^ 31 then textLength source
    else 2 ^ 64 - 2 ^ 32 + min (textLength source) 0xfffffffe := by
  have hlen := toNat_strlen h
  have hmsb : (strlen source).msb = decide (2 ^ 31 ≤ (strlen source).toNat) :=
    BitVec.msb_eq_decide _
  rw [BitVec.toNat_signExtend, BitVec.toNat_setWidth_of_le (by decide), hmsb, hlen]
  simp only [decide_eq_true_eq]
  split_ifs <;> omega

end Strlen

section Lengths

variable {source : Store Byte} {limit : Option ℕ}

/-- The precision as the parser gives it. -/
def precisionOf (limit : Option ℕ) : ℤ := limit.elim (-1) fun n => (n : ℤ)

theorem toNat_stringLength (h : ∃ i, source i = 0) (hlimit : ∀ n ∈ limit, n < 2 ^ 31)
    (hshort : cutLength source limit < 2 ^ 31) :
    (stringLength source (precisionOf limit)).toNat = cutLength source limit := by
  have hlen := toNat_signExtend_strlen h
  cases limit with
  | none =>
      have hneg : ¬ (0 ≤ precisionOf none ∧
          (BitVec.ofInt 64 (precisionOf none)).toNat < ((strlen source).signExtend 64).toNat) :=
        fun h => absurd h.1 (by decide)
      have htext : textLength source < 2 ^ 31 := hshort
      unfold stringLength
      rw [if_neg hneg, hlen, if_pos htext]
      rfl
  | some n =>
      have hn : n < 2 ^ 31 := hlimit n rfl
      have hprecision : (BitVec.ofInt 64 (precisionOf (some n))).toNat = n := by
        show (BitVec.ofInt 64 (n : ℤ)).toNat = n
        rw [BitVec.ofInt_natCast, BitVec.toNat_ofNat]
        omega
      have hnonneg : 0 ≤ precisionOf (some n) := Int.natCast_nonneg n
      have hcut : cutLength source (some n) = min n (textLength source) := rfl
      unfold stringLength
      dsimp only
      rw [apply_ite BitVec.toNat, hprecision, hlen, hcut]
      split_ifs <;> omega

/-- The length of a string that is too long lies close to the end of the address space. -/
theorem le_toNat_stringLength (h : ∃ i, source i = 0) (hlimit : ∀ n ∈ limit, n < 2 ^ 31)
    (hlong : 2 ^ 31 ≤ cutLength source limit) :
    2 ^ 64 - 2 ^ 31 ≤ (stringLength source (precisionOf limit)).toNat := by
  have hlen := toNat_signExtend_strlen h
  cases limit with
  | none =>
      have hneg : ¬ (0 ≤ precisionOf none ∧
          (BitVec.ofInt 64 (precisionOf none)).toNat < ((strlen source).signExtend 64).toNat) :=
        fun h => absurd h.1 (by decide)
      have htext : 2 ^ 31 ≤ textLength source := hlong
      unfold stringLength
      rw [if_neg hneg, hlen, if_neg (Nat.not_lt.mpr htext)]
      omega
  | some n =>
      have hn : n < 2 ^ 31 := hlimit n rfl
      have hcut : cutLength source (some n) = min n (textLength source) := rfl
      omega

/-- The width as the parser gives it: -1 where there is none. -/
def IsWidth (width : ℤ) (columns : ℕ) : Prop := width = columns ∨ width = -1 ∧ columns = 0

theorem toNat_stringPadding {width : ℤ} {columns : ℕ} {len : Word} (hwidth : IsWidth width columns)
    (hcolumns : columns < 2 ^ 31) (hlen : len.toNat < 2 ^ 31) :
    (stringPadding width len).toNat = columns - len.toNat := by
  unfold stringPadding
  rcases hwidth with rfl | ⟨rfl, rfl⟩
  · have hw : (BitVec.ofInt 64 (columns : ℤ)).toNat = columns := by
      rw [BitVec.ofInt_natCast, BitVec.toNat_ofNat]
      omega
    dsimp only
    rw [hw]
    split_ifs with hlt
    · have hsub : ((BitVec.ofInt 64 (columns : ℤ) - len).setWidth 32).toNat =
          columns - len.toNat := by
        rw [BitVec.toNat_setWidth, BitVec.toNat_sub, hw]
        omega
      rw [BitVec.toInt_eq_toNat_of_lt (by omega), hsub, Int.toNat_natCast]
    · exact (by omega : 0 = columns - len.toNat)
  · -- the comparison takes -1 for the largest number, and the difference is negative again
    have hw : (BitVec.ofInt 64 (-1)).toNat = 2 ^ 64 - 1 := by decide
    have hsub : ((BitVec.ofInt 64 (-1) - len).setWidth 32).toNat = 2 ^ 32 - 1 - len.toNat := by
      rw [BitVec.toNat_setWidth, BitVec.toNat_sub, hw]
      omega
    have hneg : ((BitVec.ofInt 64 (-1) - len).setWidth 32).toInt < 0 := by
      rw [BitVec.toInt_neg_iff, hsub]
      omega
    dsimp only
    rw [if_pos (by omega), Int.toNat_of_nonpos hneg.le, Nat.zero_sub]

end Lengths

/-! ## §3  What the parser makes of a directive -/

section Values

variable {args : ℕ → Word} {k : ℕ}

theorem foldl_parsed (ds : List (Fin 10)) (acc : ℕ)
    (h : horner 10 acc (ds.map Fin.val) < 2 ^ 31) :
    ds.foldl (fun (n : ℤ) (d : Fin 10) => int32 (n * 10 + d)) (acc : ℤ) =
      horner 10 acc (ds.map Fin.val) := by
  induction ds generalizing acc with
  | nil => rfl
  | cons d ds ih =>
      rw [List.map_cons, horner_cons] at h ⊢
      have hstep : acc * 10 + d < 2 ^ 31 := (le_horner (by decide) _ _).trans_lt h
      have hint : int32 ((acc : ℤ) * 10 + d) = (acc * 10 + d : ℕ) := by
        rw [int32_eq (by omega) (by omega)]
        push_cast
        rfl
      rw [List.foldl_cons, hint]
      exact ih _ h

theorem parsedNumber_eq {ds : List (Fin 10)} (h : decimalValue ds < 2 ^ 31) :
    parsedNumber ds = decimalValue ds := foldl_parsed ds 0 h

theorem WidthText.isWidth_value (w : WidthText) (h : w.columns args k < 2 ^ 31) :
    IsWidth (w.value args k) (w.columns args k) := by
  cases w with
  | absent => exact Or.inr ⟨rfl, rfl⟩
  | digits d ds hd => exact Or.inl (parsedNumber_eq h)
  | star =>
      have hrange : (int32Arg args k).natAbs < 2 ^ 31 := h
      refine Or.inl ?_
      show (if int32Arg args k < 0 then int32 (-int32Arg args k) else int32Arg args k) =
        ((int32Arg args k).natAbs : ℤ)
      split_ifs
      · rw [int32_eq (by omega) (by omega)]
        omega
      · omega

theorem PrecisionText.value_eq (p : PrecisionText) (h : ∀ n ∈ p.limit args k, n < 2 ^ 31) :
    p.value args k = precisionOf (p.limit args k) := by
  cases p with
  | absent => rfl
  | point => rfl
  | star =>
      show (if int32Arg args k < 0 then 0 else int32Arg args k) = ((int32Arg args k).toNat : ℤ)
      split_ifs <;> omega
  | digits d ds =>
      have hvalue := parsedNumber_eq (h _ rfl)
      show (if parsedNumber (d :: ds) < 0 then 0 else parsedNumber (d :: ds)) =
        (decimalValue (d :: ds) : ℤ)
      rw [hvalue]
      exact if_neg (by omega)

theorem left_foldl_set (fs : List FlagChar) (flags : Flags) :
    (fs.foldl FlagChar.set flags).left = (flags.left || fs.contains .minus) := by
  induction fs generalizing flags with
  | nil => exact (Bool.or_false _).symm
  | cons f fs ih =>
      rw [List.foldl_cons, ih, List.contains_cons]
      cases f with
      | minus => simp [FlagChar.set]
      | _ => rfl

theorem Written.left_directive (w : Written) :
    (w.directive args k).flags.left = w.alignsLeft args k := by
  have hflags := left_foldl_set w.flags {}
  rw [Bool.false_or] at hflags
  unfold Written.directive Written.alignsLeft
  dsimp only
  cases w.width with
  | star =>
      unfold WidthText.setFlags WidthText.isNegative
      dsimp only
      split_ifs with hneg
      · rw [decide_eq_true hneg, Bool.or_true]
      · rw [decide_eq_false hneg, Bool.or_false, hflags]
  | _ =>
      show (w.flags.foldl FlagChar.set {}).left = (_ || false)
      rw [hflags, Bool.or_false]

end Values

/-! ## §4  One item -/

section Fits

variable (b : Buffer) (memory : Memory) (args : ℕ → Word) (k offset : ℕ)

/-- The padding before a string. -/
noncomputable def Written.lead (w : Written) : ℕ :=
  if w.alignsLeft args k then 0 else w.width.columns args k - w.cutLength memory args k

/-- The string is shorter than 2 GB, and its end does not wrap around. -/
structure Written.Fits (w : Written) : Prop where
  short : w.cutLength memory args k < 2 ^ 31
  inside : b.address + min (offset + w.lead memory args k) b.size + w.cutLength memory args k < 2 ^ 64

/-- The item can be stored so far into the rendering. -/
def Item.Fits : Item → Prop
  | .directive w _ .string _ => w.Fits b memory args k offset
  | _ => True

/-- Every string that is reached can be stored. -/
def StringsFit : ℕ → ℕ → List Item → Prop
  | _, _, [] => True
  | offset, k, item :: items =>
      (offset < b.size → item.Fits b memory args k offset) ∧
        StringsFit (offset + (item.reference memory args k).length)
          (k + item.arguments Written.stars) items

end Fits

section Fields

variable {b : Buffer} {memory : Memory} {args : ℕ → Word} {k offset : ℕ}

theorem flatten_charField {d : Directive} {columns : ℕ} (c : Byte)
    (hwidth : IsWidth d.fieldWidth columns) :
    (charField d c).asPieces.flatten = padded d.flags.left columns [c] := by
  have hpadding : (if 1 < d.fieldWidth then d.fieldWidth - 1 else 0).toNat = columns - 1 := by
    rcases hwidth with h | h
    · split_ifs <;> omega
    · rw [if_neg (by omega)]
      omega
  unfold charField padded Field.asPieces
  dsimp only
  rw [hpadding, List.flatten_append, List.flatten_cons, flatten_singles, flatten_singles,
    List.length_singleton]
  by_cases hleft : d.flags.left
  · simp only [hleft, if_true, List.nil_append]
  · simp only [hleft, if_false, Bool.false_eq_true, List.append_nil]

theorem asPieces_charField (d : Directive) (c : Byte) :
    (charField d c).asPieces = singles (charField d c).asPieces.flatten := by
  unfold charField Field.asPieces
  dsimp only
  rw [List.flatten_append, List.flatten_cons, flatten_singles, flatten_singles, singles_append,
    singles_append]
  rfl

theorem asPieces_text (lead : ℕ) (source : Store Byte) (len : Word) (trail : ℕ) :
    (Field.text lead source len trail).asPieces =
      singles (spaces lead ++ (peek source 0 len.toNat ++ spaces trail)) := by
  rw [singles_append, singles_append]
  rfl

/-- What is known of a field that an item is read as. -/
structure Renders (b : Buffer) (memory : Memory) (args : ℕ → Word) (k offset : ℕ) (item : Item)
    (f : Field) : Prop where
  fields_eq : item.fields memory args k = [f]
  singles_eq : f.asPieces = singles f.asPieces.flatten
  flatten_eq : item.Fits b memory args k offset →
    f.asPieces.flatten = item.reference memory args k
  not_wraps : item.Fits b memory args k offset → ¬ f.Wraps b offset
  wraps : 2 ^ 31 ≤ b.address → ¬ item.Fits b memory args k offset → f.Wraps b offset

/-- A field that always fits. -/
theorem renders_pieces {item : Item} {ps : List (List Byte)}
    (hfields : item.fields memory args k = [.pieces ps]) (hsingles : ps = singles ps.flatten)
    (hflatten : ps.flatten = item.reference memory args k)
    (hfits : item.Fits b memory args k offset) :
    Renders b memory args k offset item (.pieces ps) where
  fields_eq := hfields
  singles_eq := hsingles
  flatten_eq _ := hflatten
  not_wraps _ := id
  wraps _ h := absurd hfits h

theorem exists_nul (w : Written) (hnul : ∃ address, memory address = 0) :
    ∃ i, w.source memory args k i = 0 := by
  obtain ⟨address, haddress⟩ := hnul
  unfold Written.source stringSource
  split_ifs with hnull
  · exact ⟨6, rfl⟩
  · refine ⟨(address - args (k + w.stars)).toNat, ?_⟩
    show memory (_ + BitVec.ofNat 64 _) = 0
    rw [BitVec.ofNat_toNat, BitVec.setWidth_eq, BitVec.add_comm, BitVec.sub_add_cancel, haddress]

variable {w : Written} (hrange : w.InRange args k)

include hrange

theorem isWidth_fieldWidth : IsWidth (w.directive args k).fieldWidth (w.width.columns args k) :=
  w.width.isWidth_value hrange.columns_lt

theorem precision_eq : (w.directive args k).precision =
    precisionOf (w.precision.limit args (k + w.width.stars)) :=
  w.precision.value_eq hrange.limit_lt

/-- The field of a string that is short enough. -/
theorem stringField_of_short (hnul : ∃ address, memory address = 0)
    (hshort : w.cutLength memory args k < 2 ^ 31) :
    ∃ len : Word, len.toNat = w.cutLength memory args k ∧
      stringField (w.directive args k) (w.source memory args k) =
        .text (w.lead memory args k) (w.source memory args k) len
          (if w.alignsLeft args k then w.width.columns args k - w.cutLength memory args k
            else 0) := by
  have hlen := toNat_stringLength (exists_nul w hnul) hrange.limit_lt hshort
  rw [← precision_eq hrange] at hlen
  have hpadding := toNat_stringPadding (isWidth_fieldWidth hrange) hrange.columns_lt
    (hlen.trans_lt hshort)
  refine ⟨_, hlen, ?_⟩
  unfold stringField
  dsimp only
  rw [hpadding, hlen, w.left_directive]
  rfl

theorem renders_string {c : Byte} (hconv : conversionOf c = some .string)
    (hnul : ∃ address, memory address = 0) :
    Renders b memory args k offset (.directive w c .string hconv)
      (stringField (w.directive args k) (w.source memory args k)) where
  fields_eq := fields_directive memory args hconv
  singles_eq := by
    unfold stringField
    dsimp only
    rw [asPieces_text, flatten_singles]
  flatten_eq hfits := by
    obtain ⟨len, hlen, hfield⟩ := stringField_of_short hrange hnul hfits.short
    rw [hfield, asPieces_text, flatten_singles, hlen]
    show _ = padded _ _ (peek _ 0 (w.cutLength memory args k))
    unfold padded Written.lead
    rw [length_peek]
    by_cases hleft : w.alignsLeft args k
    · rw [if_pos hleft, if_pos hleft, if_pos hleft]
      rfl
    · rw [if_neg hleft, if_neg hleft, if_neg hleft]
      show spaces _ ++ (_ ++ []) = _
      rw [List.append_nil]
  not_wraps hfits hwraps := by
    obtain ⟨len, hlen, hfield⟩ := stringField_of_short hrange hnul hfits.short
    rw [hfield] at hwraps
    have haddr : 2 ^ 64 ≤
        b.address + min (offset + w.lead memory args k) b.size + len.toNat := hwraps
    have hinside := hfits.inside
    omega
  wraps hlow hfits := by
    by_cases hshort : w.cutLength memory args k < 2 ^ 31
    · obtain ⟨len, hlen, hfield⟩ := stringField_of_short hrange hnul hshort
      rw [hfield]
      show 2 ^ 64 ≤ b.address + min (offset + w.lead memory args k) b.size + len.toNat
      by_contra hless
      exact hfits ⟨hshort, by omega⟩
    · have hlong := le_toNat_stringLength (exists_nul w hnul) hrange.limit_lt
        (Nat.not_lt.mp hshort)
      rw [← precision_eq hrange] at hlong
      show 2 ^ 64 ≤ b.address + min _ b.size + (stringLength _ _).toNat
      omega

omit hrange

/-- **Every item is read as one field.** -/
theorem exists_renders (item : Item) (htext : item.IsText) (hrange : item.InRange args k)
    (hnul : ∃ address, memory address = 0) : ∃ f, Renders b memory args k offset item f := by
  cases item with
  | literal c hc hpercent => exact ⟨_, renders_pieces rfl rfl rfl trivial⟩
  | malformed w c hends hconv hc => exact htext.elim
  | directive w c conversion hconv =>
      have hwritten : w.InRange args k := hrange
      rcases htext with rfl | rfl | rfl
      · exact ⟨_, renders_pieces rfl rfl rfl trivial⟩
      · refine ⟨_, renders_pieces (fields_directive memory args hconv) (asPieces_charField _ _) ?_
          trivial⟩
        have hflatten := flatten_charField ((args (k + w.stars)).setWidth 8)
          (isWidth_fieldWidth hwritten)
        rw [w.left_directive] at hflatten
        exact hflatten
      · exact ⟨_, renders_string hwritten hconv hnul⟩

end Fields

/-! ## §5  All items -/

section Items

variable {b : Buffer} {memory : Memory} {args : ℕ → Word} {k offset : ℕ} {items : List Item}

theorem stringsFit_of_full (h : b.size ≤ offset) : StringsFit b memory args offset k items := by
  induction items generalizing k offset with
  | nil => trivial
  | cons item items ih => exact ⟨fun hlt => absurd hlt (Nat.not_lt.mpr h), ih (by omega)⟩

theorem piecesOf_cons (f : Field) (fields : List Field) :
    (piecesOf (f :: fields)).flatten = f.asPieces.flatten ++ (piecesOf fields).flatten := by
  unfold piecesOf
  rw [List.flatMap_cons, List.flatten_append]

theorem readItems_singles (htext : ∀ item ∈ items, item.IsText) (hrange : InRange args k items)
    (hnul : ∃ address, memory address = 0) :
    piecesOf (readItems Written.stars memory args k items) =
      singles (piecesOf (readItems Written.stars memory args k items)).flatten := by
  induction items generalizing k with
  | nil => rfl
  | cons item items ih =>
      rw [List.forall_mem_cons] at htext
      obtain ⟨f, hf⟩ := @exists_renders oneByte memory args k 0 item htext.1 hrange.1 hnul
      rw [readItems, hf.fields_eq, List.singleton_append, piecesOf_cons, singles_append,
        ← hf.singles_eq, ← ih htext.2 hrange.2]
      rfl

/-- Where the strings fit, the rendering is the reference as far as the buffer goes. -/
theorem rendered_of_fit (htext : ∀ item ∈ items, item.IsText) (hrange : InRange args k items)
    (hnul : ∃ address, memory address = 0) (hfit : StringsFit b memory args offset k items) :
    ¬ Overruns b offset (readItems Written.stars memory args k items) ∧
      (piecesOf (readItems Written.stars memory args k items)).flatten.take (b.size - offset) =
        (reference memory args k items).take (b.size - offset) := by
  induction items generalizing k offset with
  | nil => exact ⟨id, rfl⟩
  | cons item items ih =>
      rcases Nat.lt_or_ge offset b.size with hlt | hge
      · rw [List.forall_mem_cons] at htext
        obtain ⟨f, hf⟩ := @exists_renders b memory args k offset item htext.1 hrange.1 hnul
        have hflatten := hf.flatten_eq (hfit.1 hlt)
        have hlength : f.length = (item.reference memory args k).length :=
          congrArg List.length hflatten
        obtain ⟨hover, htake⟩ := ih htext.2 hrange.2 hfit.2
        rw [readItems, hf.fields_eq, List.singleton_append, reference]
        constructor
        · rintro ⟨-, hwraps | hrest⟩
          · exact hf.not_wraps (hfit.1 hlt) hwraps
          · rw [hlength] at hrest
            exact hover hrest
        · rw [piecesOf_cons, hflatten, List.take_append, List.take_append, Nat.sub_sub, htake]
      · refine ⟨?_, ?_⟩
        · cases readItems Written.stars memory args k (item :: items) with
          | nil => exact id
          | cons f fields => exact fun h => absurd h.1 (Nat.not_lt.mpr hge)
        · rw [Nat.sub_eq_zero_of_le hge, List.take_zero, List.take_zero]

/-- A string that does not fit makes the copy leave a buffer that lies above the first 2 GB. -/
theorem overruns_of_not_fit (htext : ∀ item ∈ items, item.IsText) (hrange : InRange args k items)
    (hnul : ∃ address, memory address = 0) (hlow : 2 ^ 31 ≤ b.address)
    (hfit : ¬ StringsFit b memory args offset k items) :
    Overruns b offset (readItems Written.stars memory args k items) := by
  induction items generalizing k offset with
  | nil => exact absurd trivial hfit
  | cons item items ih =>
      rw [List.forall_mem_cons] at htext
      have hlt : offset < b.size := by
        by_contra hge
        exact hfit (stringsFit_of_full (Nat.not_lt.mp hge))
      obtain ⟨f, hf⟩ := @exists_renders b memory args k offset item htext.1 hrange.1 hnul
      rw [readItems, hf.fields_eq]
      refine ⟨hlt, ?_⟩
      by_cases hitem : item.Fits b memory args k offset
      · have hlength : f.length = (item.reference memory args k).length :=
          congrArg List.length (hf.flatten_eq hitem)
        rw [hlength]
        exact Or.inr (ih htext.2 hrange.2 fun hrest => hfit ⟨fun _ => hitem, hrest⟩)
      · exact Or.inl (hf.wraps hlow hitem)

end Items

/-- A format without numbers. -/
def textFormat (items : List Item) : Format := ⟨items, none⟩

/-- The call stores the first characters of the reference. -/
def StoresReference (b : Buffer) (memory : Memory) (args : ℕ → Word) (items : List Item) : Prop :=
  ∃ o, vsnprintf b memory ((textFormat items).text ++ [0]) args = .ok o ∧
    o.str = (reference memory args 0 items).take b.size

theorem fieldsOf_textFormat (memory : Memory) (args : ℕ → Word) (items : List Item) :
    fieldsOf memory ((textFormat items).text ++ [0]) args =
      readItems Written.stars memory args 0 items := by
  rw [fieldsOf_text]
  exact List.append_nil _

theorem overrun_of_not_fit {b : Buffer} {memory : Memory} {args : ℕ → Word} {items : List Item}
    (hsize : 1 ≤ b.size) (htext : ∀ item ∈ items, item.IsText) (hrange : InRange args 0 items)
    (hnul : ∃ address, memory address = 0) (hlow : 2 ^ 31 ≤ b.address)
    (hfit : ¬ StringsFit b memory args 0 0 items) :
    vsnprintf b memory ((textFormat items).text ++ [0]) args = .error .overrun := by
  refine vsnprintf_of_overruns b memory (textFormat items).text args hsize ?_
  rw [fieldsOf_textFormat]
  exact overruns_of_not_fit htext hrange hnul hlow hfit

/-- **The reference is stored** if the strings that are reached fit, and only then if the
buffer lies above the first 2 GB. -/
theorem stores_iff (b : Buffer) (memory : Memory) (args : ℕ → Word) (items : List Item)
    (htext : ∀ item ∈ items, item.IsText) (hrange : InRange args 0 items)
    (hnul : ∃ address, memory address = 0) :
    (StringsFit b memory args 0 0 items → StoresReference b memory args items) ∧
      (2 ^ 31 ≤ b.address → StoresReference b memory args items →
        StringsFit b memory args 0 0 items) := by
  have hfields := fieldsOf_textFormat memory args items
  rcases Nat.eq_zero_or_pos b.size with hzero | hpos
  · refine ⟨fun _ => ⟨⟨[], [], [], 0⟩, if_pos hzero, ?_⟩, fun _ _ => ?_⟩
    · rw [hzero, List.take_zero]
    · exact stringsFit_of_full (by omega)
  · constructor
    · intro hfit
      obtain ⟨hover, htake⟩ := rendered_of_fit htext hrange hnul hfit
      rw [← hfields] at hover
      obtain ⟨counts, hok, -⟩ := vsnprintf_of_roomy b memory (textFormat items).text args hpos hover
      refine ⟨_, hok, ?_⟩
      show fill b.size _ = _
      rw [hfields, readItems_singles htext hrange hnul, fill_singles]
      exact htake
    · rintro hlow ⟨o, hok, -⟩
      by_contra hfit
      rw [overrun_of_not_fit hpos htext hrange hnul hlow hfit] at hok
      cases hok

theorem conversionOf_s : conversionOf (chr 's') = some .string := by decide

theorem nine_ne_zero : Fin.last 9 ≠ 0 := by decide

/-- `"%9s"` -/
def paddedStringItem : Item :=
  .directive ⟨[], .digits (Fin.last 9) [] nine_ne_zero, .absent, .none⟩ (chr 's') .string
    conversionOf_s

/-- `"%9s"` of a null pointer in a buffer of two bytes. -/
theorem stores_iff_null :
    (StringsFit twoBytes emptyMemory (sameArgs 0) 0 0 [paddedStringItem] →
        StoresReference twoBytes emptyMemory (sameArgs 0) [paddedStringItem]) ∧
      (2 ^ 31 ≤ twoBytes.address →
        StoresReference twoBytes emptyMemory (sameArgs 0) [paddedStringItem] →
          StringsFit twoBytes emptyMemory (sameArgs 0) 0 0 [paddedStringItem]) :=
  stores_iff twoBytes emptyMemory (sameArgs 0) [paddedStringItem]
    (fun item h => by
      rw [List.mem_singleton.mp h]
      exact Or.inr (Or.inr rfl))
    ⟨⟨by decide, nofun⟩, trivial⟩ ⟨0, rfl⟩

/-! ### A string of 2 GB -/

/-- A buffer of the kernel. -/
def kernelBuffer : Buffer := ⟨0xffff800000200000, 64, by decide⟩

/-- The address of a string of 2 GB. -/
def longString : Word := 0xffff900000000000

def longMemory : Memory := fun address => if address = 0xffff900080000000 then 0 else chr 'a'

/-- `"%s"` -/
def stringItem : Item := .directive Written.plain (chr 's') .string conversionOf_s

theorem textLength_longString :
    2 ^ 31 ≤ textLength (Written.plain.source longMemory (sameArgs longString) 0) := by
  by_contra hshort
  have hnul := source_textLength (@exists_nul longMemory (sameArgs longString) 0 Written.plain
    ⟨0xffff900080000000, rfl⟩)
  generalize textLength (Written.plain.source longMemory (sameArgs longString) 0) = i at hshort hnul
  have hmem : longMemory (longString + BitVec.ofNat 64 i) = 0 := hnul
  have hne : longString + BitVec.ofNat 64 i ≠ 0xffff900080000000 := by
    unfold longString
    bv_omega
  unfold longMemory at hmem
  rw [if_neg hne] at hmem
  exact absurd hmem (by decide)

/-- `"%s"` of a string of 2 GB leaves the buffer. -/
theorem long_string_overruns :
    vsnprintf kernelBuffer longMemory ((textFormat [stringItem]).text ++ [0]) (sameArgs longString) =
        .error .overrun ∧
      ¬ StoresReference kernelBuffer longMemory (sameArgs longString) [stringItem] := by
  have hfit : ¬ StringsFit kernelBuffer longMemory (sameArgs longString) 0 0 [stringItem] := by
    intro h
    have hshort := (h.1 (by decide)).short
    exact absurd textLength_longString (Nat.not_le.mpr hshort)
  have hover := @overrun_of_not_fit kernelBuffer longMemory (sameArgs longString) [stringItem]
    (by decide)
    (fun item h => by
      rw [List.mem_singleton.mp h]
      exact Or.inr (Or.inr rfl))
    ⟨⟨by decide, nofun⟩, trivial⟩ ⟨0xffff900080000000, rfl⟩ (by decide) hfit
  refine ⟨hover, ?_⟩
  rintro ⟨o, hok, -⟩
  rw [hover] at hok
  cases hok

end Knos.Printk
