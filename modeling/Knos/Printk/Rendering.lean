import Knos.Lib.Pieces
import Knos.Printk.Vsnprintf

/-!
# What a format asks for

The complete rendering of a format does not depend on a buffer: it is a list of fields, one
for each literal character and each directive, and a field is a list of pieces. All pieces
are single characters but one, the prefix of a hexadecimal number, which is stored as a
whole or not at all. Storing the fields one after the other in the room of a buffer
(`playAll`) is what the loop of `vsnprintf` does.
-/

namespace Knos.Printk

open Knos.Bytes Knos.Stack Knos.Pieces

def spaces (n : ℕ) : List Byte := List.replicate n (chr ' ')

/-! ## §1  Numbers -/

/-- The prefix: one character for octal, a pair for hexadecimal. -/
def prefixPieces (flags : Flags) (base : ℕ) : List (List Byte) :=
  if flags.special then
    if base = 8 then [[chr '0']]
    else if base = 16 then [[chr '0', if flags.small then chr 'x' else chr 'X']]
    else []
  else []

/-- The layout of a number, of which steps 10 to 16 write what there is room for. -/
def layout (flags : Flags) (base : ℕ) (sign padChar : Byte) (tmp : List Byte) (padLen width : ℤ) :
    List (List Byte) :=
  singles (if flags.zeropad ∨ flags.left then [] else spaces width.toNat) ++
    (singles (if sign ≠ 0 then [sign] else []) ++
      (prefixPieces flags base ++
        (singles (if flags.left then [] else
            if flags.zeropad then List.replicate width.toNat padChar else []) ++
          (singles (List.replicate padLen.toNat (chr '0') ++ tmp.reverse) ++
            singles (if flags.left then spaces width.toNat else [])))))

/-- The pieces of a number. -/
def numberPieces (num base : ℕ) (width prec : ℤ) (flags : Flags) (isNegative : Bool) :
    List (List Byte) :=
  let digits := if flags.small then smallDigits else capitalDigits
  if base < 2 ∨ 36 < base then []
  else
    let flags := if flags.left then { flags with zeropad := false } else flags
    let padChar := if flags.zeropad then chr '0' else chr ' '
    let sign := signChar flags isNegative
    let width := widthBehindPrefix flags base width
    let tmp := tmpOf digits base num
    let prec := if prec < tmp.length then (tmp.length : ℤ) else prec
    let padLen := prec - tmp.length
    let width := remainingWidth flags base width prec sign tmp.length
    layout flags base sign padChar tmp padLen width

section Storing

variable {size : ℕ} {str : List Byte}

theorem put_eq_emit (c : Byte) : put size c str = emit size [[c]] str := by
  unfold put
  rcases Nat.lt_or_ge str.length size with h | h
  · rw [if_pos h, emit_single_of_lt h]
  · rw [if_neg (Nat.not_lt.mpr h), emit_of_full (Followed.nil.single c) h]

theorem padLoop_eq_emit (c : Byte) (n : ℕ) (str : List Byte) :
    (padLoop size c n str).2 = emit size (singles (List.replicate n c)) str := by
  induction n generalizing str with
  | zero => exact (emit_nil str).symm
  | succ n ih =>
      show (if str.length < size then padLoop size c n (str ++ [c]) else (_, str)).2 = _
      rcases Nat.lt_or_ge str.length size with h | h
      · rw [if_pos h, ih, ← emit_single_of_lt h, ← emit_append]
        rfl
      · rw [if_neg (Nat.not_lt.mpr h), emit_of_full (followed_singles _) h]

theorem writeDigits_eq_emit (ds str : List Byte) :
    writeDigits size ds str = emit size (singles ds) str := by
  induction ds generalizing str with
  | nil => exact (emit_nil str).symm
  | cons d ds ih =>
      show (if str.length < size then writeDigits size ds (str ++ [d]) else str) = _
      rcases Nat.lt_or_ge str.length size with h | h
      · rw [if_pos h, ih, ← emit_single_of_lt h, ← emit_append]
        rfl
      · rw [if_neg (Nat.not_lt.mpr h), emit_of_full (followed_singles _) h]

/-- Nothing is written where the loop is not entered. -/
theorem emit_of_pos (c : Byte) (n : ℤ) (str : List Byte) :
    (if 0 < n then emit size (singles (List.replicate n.toNat c)) str else str) =
      emit size (singles (List.replicate n.toNat c)) str := by
  rcases lt_or_ge 0 n with h | h
  · rw [if_pos h]
  · rw [if_neg (not_lt.mpr h), Int.toNat_of_nonpos h]
    exact (emit_nil str).symm

theorem padLoop_of_pos (c : Byte) (n m : ℤ) (str : List Byte) :
    (if 0 < n then padLoop size c n.toNat str else (m, str)).2 =
      emit size (singles (List.replicate n.toNat c)) str := by
  rw [← emit_of_pos, ← padLoop_eq_emit]
  split <;> rfl

theorem writePrefix_eq_emit (flags : Flags) (base : ℕ) :
    writePrefix size flags base str = emit size (prefixPieces flags base) str := by
  unfold writePrefix prefixPieces
  by_cases hspecial : flags.special
  · rw [if_pos hspecial, if_pos hspecial]
    by_cases h8 : base = 8
    · rw [if_pos h8, ← put_eq_emit]
      unfold put
      by_cases hroom : str.length < size
      · rw [if_pos ⟨h8, hroom⟩, if_pos hroom]
      · rw [if_neg fun h => hroom h.2, if_neg fun h => absurd (h8.symm.trans h.1) (by decide),
          if_neg hroom]
    · rw [if_neg h8, if_neg fun h => h8 h.1]
      by_cases h16 : base = 16
      · rw [if_pos h16]
        unfold emit
        by_cases hroom : str.length + 1 < size
        · rw [if_pos ⟨h16, hroom⟩, fill_cons_of_le (show 2 ≤ _ by omega), fill_nil,
            List.append_assoc]
          rfl
        · rw [if_neg fun h => hroom h.2, fill_cons_of_lt (show _ < 2 by omega), fill_nil,
            List.append_nil]
      · rw [if_neg h16, if_neg fun h => h16 h.1]
        exact (emit_nil str).symm
  · rw [if_neg hspecial, if_neg hspecial]
    exact (emit_nil str).symm

/-- The three loops over the width exclude each other, so none sees what another has left. -/
theorem writeNumber_eq_emit (flags : Flags) (base : ℕ) (sign padChar : Byte) (tmp : List Byte)
    (padLen width : ℤ) (str : List Byte) :
    writeNumber size flags base sign padChar tmp padLen width str =
      emit size (layout flags base sign padChar tmp padLen width) str := by
  have hsign (s : List Byte) : (if sign ≠ 0 then put size sign s else s) =
      emit size (singles (if sign ≠ 0 then [sign] else [])) s := by
    by_cases h : sign ≠ 0
    · rw [if_pos h, if_pos h]
      exact put_eq_emit sign
    · rw [if_neg h, if_neg h]
      exact (emit_nil s).symm
  unfold writeNumber layout
  simp only [emit_append, singles_append, hsign, writePrefix_eq_emit, padLoop_eq_emit,
    writeDigits_eq_emit]
  by_cases hleft : flags.left
  · simp only [hleft, or_true, not_true_eq_false, false_and, if_false, if_true, true_and,
      singles_nil, emit_nil]
    exact emit_of_pos _ _ _
  · by_cases hzero : flags.zeropad
    · simp only [hleft, hzero, Bool.false_eq_true, true_or, not_true_eq_false, not_false_eq_true,
        false_and, if_false, if_true, true_and, singles_nil, emit_nil, padLoop_of_pos]
    · simp only [hleft, hzero, Bool.false_eq_true, or_self, not_false_eq_true, false_and, and_false,
        if_false, true_and, singles_nil, emit_nil, padLoop_of_pos]
      rfl

theorem number_eq_emit (num base : ℕ) (width prec : ℤ) (flags : Flags) (isNegative : Bool)
    (str : List Byte) : number size str num base width prec flags isNegative =
      emit size (numberPieces num base width prec flags isNegative) str := by
  unfold number numberPieces
  by_cases h : base < 2 ∨ 36 < base
  · simp only [if_pos h]
    exact (emit_nil str).symm
  · simp only [if_neg h]
    exact writeNumber_eq_emit ..

end Storing

/-! ## §2  Every pair has a digit behind it -/

theorem tmpOf_ne_nil (digits : List Char) (base num : ℕ) : tmpOf digits base num ≠ [] := by
  unfold tmpOf
  by_cases h : num = 0
  · rw [if_pos h]
    exact List.cons_ne_nil _ _
  · rw [if_neg h]
    show (if num = 0 then [] else _ :: _) ≠ []
    rw [if_neg h]
    exact List.cons_ne_nil _ _

theorem followed_of_pair {x y : Byte} {xs : List Byte} (h : xs ≠ []) :
    Followed ([x, y] :: singles xs) := by
  obtain ⟨z, zs, rfl⟩ := List.exists_cons_of_ne_nil h
  exact (followed_singles zs).pair x y z

theorem followed_layout (flags : Flags) (base : ℕ) (sign padChar : Byte) {tmp : List Byte}
    (htmp : tmp ≠ []) (padLen width : ℤ) :
    Followed (layout flags base sign padChar tmp padLen width) := by
  unfold layout
  refine Followed.singles_append _ (Followed.singles_append _ ?_)
  rw [← singles_append, ← singles_append]
  unfold prefixPieces
  split
  · split
    · exact (followed_singles _).single _
    · split
      · refine followed_of_pair fun hnil => ?_
        simp only [List.append_eq_nil_iff, List.reverse_eq_nil_iff] at hnil
        exact htmp hnil.2.1.2
      · exact followed_singles _
  · exact followed_singles _

theorem followed_numberPieces (num base : ℕ) (width prec : ℤ) (flags : Flags)
    (isNegative : Bool) : Followed (numberPieces num base width prec flags isNegative) := by
  unfold numberPieces
  by_cases h : base < 2 ∨ 36 < base
  · simp only [if_pos h]
    exact .nil
  · simp only [if_neg h]
    exact followed_layout _ _ _ _ (tmpOf_ne_nil _ _ _) _ _

/-! ## §3  Fields -/

/-- What a character or a directive asks for. -/
inductive Field where
  | pieces (ps : List (List Byte))
  /-- A string of so many bytes, between spaces. -/
  | text (lead : ℕ) (source : Store Byte) (len : Word) (trail : ℕ)
  /-- `%n` -/
  | count (pointer : Word) (qualifier : Qualifier)

/-- The pieces that end up in the buffer. -/
def Field.asPieces : Field → List (List Byte)
  | .pieces ps => ps
  | .text lead source len trail =>
      singles (spaces lead) ++ (singles (peek source 0 len.toNat) ++ singles (spaces trail))
  | .count _ _ => []

def charField (d : Directive) (c : Byte) : Field :=
  let padding := (if 1 < d.fieldWidth then d.fieldWidth - 1 else 0).toNat
  .pieces (singles (if d.flags.left then [] else spaces padding) ++
    ([c] :: singles (if d.flags.left then spaces padding else [])))

def stringField (d : Directive) (source : Store Byte) : Field :=
  let len := stringLength source d.precision
  let padding := (stringPadding d.fieldWidth len).toNat
  .text (if d.flags.left then 0 else padding) source len (if d.flags.left then padding else 0)

/-- The field of a directive, and the number of the next argument. -/
def fieldOf (memory : Memory) (args : ℕ → Word) (k : ℕ) (d : Directive) : Conversion → ℕ × Field
  | .char => (k + 1, charField d ((args k).setWidth 8))
  | .string => (k + 1, stringField d (stringSource memory (args k)))
  | .pointer =>
      let flags := { d.flags with special := true, small := true, zeropad := true }
      (k + 1, .pieces (numberPieces (args k).toNat 16 16 d.precision flags false))
  | .signed =>
      let signedNum := signedArg d.qualifier (args k)
      let num := if signedNum.msb then (-signedNum).toNat else signedNum.toNat
      (k + 1, .pieces (numberPieces num 10 d.fieldWidth d.precision { d.flags with sign := true }
        signedNum.msb))
  | .unsigned =>
      (k + 1, .pieces (numberPieces (unsignedArg d.qualifier (args k)).toNat 16 d.fieldWidth
        d.precision { d.flags with small := true } false))
  | .capital =>
      (k + 1, .pieces (numberPieces (unsignedArg d.qualifier (args k)).toNat 16 d.fieldWidth
        d.precision { d.flags with small := false } false))
  | .count => (k + 1, .count (args k) d.qualifier)
  | .percent => (k, .pieces [[chr '%']])

/-- The fields of a format, up to its NUL. -/
def fieldsFrom (memory : Memory) (args : ℕ → Word) : ℕ → List Byte → ℕ → List Field
  | 0, _, _ => []
  | _ + 1, [], _ => []
  | fuel + 1, c :: fmt, k =>
      if c = 0 then []
      else if c ≠ chr '%' then .pieces [[c]] :: fieldsFrom memory args fuel fmt k
      else
        match parseDirective args k fmt with
        | .ok (directive, k, c' :: rest) =>
            match conversionOf c' with
            | some conversion =>
                let (k, field) := fieldOf memory args k directive conversion
                field :: fieldsFrom memory args fuel rest k
            | none => .pieces [[c]] :: fieldsFrom memory args fuel fmt k
        | _ => []

def fieldsOf (memory : Memory) (fmt : List Byte) (args : ℕ → Word) : List Field :=
  fieldsFrom memory args (fmt.length + 1) fmt 0

def piecesOf (fields : List Field) : List (List Byte) := fields.flatMap Field.asPieces

/-- **The complete rendering** of a format. -/
def rendering (memory : Memory) (fmt : List Byte) (args : ℕ → Word) : List Byte :=
  (piecesOf (fieldsOf memory fmt args)).flatten

theorem followed_asPieces_fieldOf (memory : Memory) (args : ℕ → Word) (k : ℕ) (d : Directive)
    (conversion : Conversion) : Followed (fieldOf memory args k d conversion).2.asPieces := by
  cases conversion with
  | char => exact ((followed_singles _).single _).singles_append _
  | string =>
      exact ((followed_singles _).singles_append _).singles_append _
  | percent => exact Followed.nil.single _
  | count => exact .nil
  | _ =>
      simp only [fieldOf, Field.asPieces]
      exact followed_numberPieces ..

theorem followed_fieldsFrom (memory : Memory) (args : ℕ → Word) (fuel : ℕ) (fmt : List Byte)
    (k : ℕ) : ∀ f ∈ fieldsFrom memory args fuel fmt k, Followed f.asPieces := by
  induction fuel generalizing fmt k with
  | zero => nofun
  | succ fuel ih =>
      cases fmt with
      | nil => nofun
      | cons c fmt =>
          have hliteral : ∀ f ∈ Field.pieces [[c]] :: fieldsFrom memory args fuel fmt k,
              Followed f.asPieces :=
            List.forall_mem_cons.mpr ⟨Followed.nil.single c, ih fmt k⟩
          unfold fieldsFrom
          split
          · nofun
          · split
            · exact hliteral
            · split
              · split
                · exact List.forall_mem_cons.mpr
                    ⟨followed_asPieces_fieldOf .., ih _ _⟩
                · exact List.forall_mem_cons.mpr ⟨Followed.nil.single c, ih fmt _⟩
              · nofun

theorem followed_piecesOf {fields : List Field} (h : ∀ f ∈ fields, Followed f.asPieces) :
    Followed (piecesOf fields) := by
  induction fields with
  | nil => exact .nil
  | cons f fields ih =>
      rw [List.forall_mem_cons] at h
      exact h.1.append (ih h.2)

/-! ## §4  Storing the fields -/

def Field.play (b : Buffer) (s : Sink) : Field → Except Fault Sink
  | .pieces ps => .ok { s with str := emit b.size ps s.str }
  | .text lead source len trail => do
      let str ← copyString b source len (emit b.size (singles (spaces lead)) s.str)
      .ok { s with str := emit b.size (singles (spaces trail)) str }
  | .count pointer qualifier =>
      .ok { s with counts := s.counts ++ [(pointer, qualifier, s.str.length)] }

/-- One field after the other, as long as there is room. -/
def playAll (b : Buffer) : List Field → Sink → Except Fault Sink
  | [], s => .ok s
  | f :: fields, s =>
      if s.str.length < b.size then do
        let s ← f.play b s
        playAll b fields s
      else .ok s

section Conversions

variable (b : Buffer) (memory : Memory) (args : ℕ → Word) (k : ℕ) (d : Directive) (s : Sink)

theorem writeChar_eq_emit (c : Byte) (str : List Byte) :
    writeChar b.size d c str = emit b.size (charField d c).asPieces str := by
  unfold writeChar charField Field.asPieces
  by_cases h : d.flags.left
  · simp only [h, not_true_eq_false, if_false, if_true, singles_nil, List.nil_append,
      padLoop_eq_emit, put_eq_emit]
    rw [← emit_append]
    rfl
  · simp only [h, not_false_eq_true, if_false, if_true, padLoop_eq_emit, put_eq_emit,
      Bool.false_eq_true, singles_nil]
    rw [← emit_append]
    rfl

theorem writeString_eq_play (source : Store Byte) :
    (writeString b d source s.str >>= fun str => .ok { s with str := str }) =
      (stringField d source).play b s := by
  have hnone (str : List Byte) : emit b.size (singles (spaces 0)) str = str := emit_nil str
  unfold writeString stringField Field.play
  by_cases h : d.flags.left
  · simp only [h, not_true_eq_false, if_false, if_true, padLoop_eq_emit, hnone]
    cases copyString b source (stringLength source d.precision) s.str <;> rfl
  · simp only [h, not_false_eq_true, if_false, if_true, padLoop_eq_emit, Bool.false_eq_true, hnone]
    show (copyString b source _ _ >>= Except.ok) >>= _ = _
    rw [show (Except.ok : List Byte → Except Fault (List Byte)) = pure from rfl, bind_pure]
    rfl

/-- **A conversion stores its field.** -/
theorem convert_eq_play (conversion : Conversion) :
    convert b memory args k d s conversion =
      ((fieldOf memory args k d conversion).2.play b s).map
        fun s => ((fieldOf memory args k d conversion).1, s) := by
  cases conversion with
  | char =>
      show Except.ok (k + 1, { s with str := _ }) = _
      rw [writeChar_eq_emit]
      rfl
  | string =>
      show _ = ((stringField d (stringSource memory (args k))).play b s).map fun s => (k + 1, s)
      rw [← writeString_eq_play]
      show (writeString b d _ s.str >>= _) = _
      cases writeString b d (stringSource memory (args k)) s.str <;> rfl
  | percent =>
      show Except.ok (k, { s with str := _ }) = _
      rw [put_eq_emit]
      rfl
  | count => rfl
  | _ =>
      simp only [convert, number_eq_emit]
      rfl

end Conversions

end Knos.Printk
