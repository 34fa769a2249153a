import Knos.Printk.Formats
import Knos.Printk.Numerals

/-!
# Malformed directives

A directive with an unknown conversion character is left as text: the parser goes back to
its `%` and goes on from there. It cannot go back in the argument list, so a `*` of such a
directive has taken an argument for good, and what is behind it is one argument late
(`malformed_iff`). The parser itself never leaves the format, whatever stands in it, and comes
to an end (`vsnprintf_within_format`).
-/

namespace Knos.Printk

open Knos.Bytes Knos.Stack Knos.Pieces Knos.Numeral

/-! ## §1  The end of the format -/

section Ends

variable {b : Buffer} {s : Sink}

theorem Field.play_error {f : Field} {fault : Fault} (h : f.play b s = .error fault) :
    fault = .overrun := by
  cases f with
  | pieces ps => cases h
  | count pointer qualifier => cases h
  | text lead source len trail =>
      rcases Loop.bind_eq_error h with hcopy | ⟨str, -, hdone⟩
      · unfold copyString at hcopy
        dsimp only at hcopy
        split_ifs at hcopy <;> exact (Except.error.inj hcopy).symm
      · cases hdone

theorem playAll_error {fields : List Field} {fault : Fault}
    (h : playAll b fields s = .error fault) : fault = .overrun := by
  induction fields generalizing s with
  | nil => cases h
  | cons f fields ih =>
      unfold playAll at h
      split_ifs at h with hroom
      rcases Loop.bind_eq_error h with hplay | ⟨s', -, hrest⟩
      · exact Field.play_error hplay
      · exact ih hrest

/-- **The parser stays in the format**: a call returns, or a copy has left the buffer. -/
theorem vsnprintf_within_format (b : Buffer) (memory : Memory) (fmt : List Byte)
    (args : ℕ → Word) :
    (∃ o, vsnprintf b memory (fmt ++ [0]) args = .ok o) ∨
      vsnprintf b memory (fmt ++ [0]) args = .error .overrun := by
  rcases Nat.eq_zero_or_pos b.size with hzero | hpos
  · refine Or.inl ⟨⟨[], [], [], 0⟩, ?_⟩
    unfold vsnprintf
    rw [if_pos hzero]
  · rw [vsnprintf_eq_playAll b memory args fmt hpos]
    cases hplay : playAll b (fieldsOf memory (fmt ++ [0]) args) ⟨[], []⟩ with
    | ok s => exact Or.inl ⟨finish b s, rfl⟩
    | error fault =>
        rw [playAll_error hplay]
        exact Or.inr rfl

end Ends

/-! ## §2  Arguments that are lost -/

/-- The item takes an argument that is seen in its field. -/
def Item.TakesArgument : Item → Prop
  | .directive _ _ conversion _ => conversion ≠ .percent
  | _ => False

/-- The item is a malformed directive with a `*`. -/
def Item.LosesArguments : Item → Prop
  | .malformed w _ _ _ _ => 0 < w.stars
  | _ => False

/-- No argument is lost that is needed later. -/
def Format.Clean (f : Format) : Prop :=
  ∀ pre item post, f.items = pre ++ item :: post → item.LosesArguments →
    ∀ later ∈ post, ¬ later.TakesArgument

/-- Malformed directives take no argument. -/
def nothing (_w : Written) : ℕ := 0

def argumentsOf (charge : Written → ℕ) (items : List Item) : ℕ :=
  (items.map (Item.arguments charge)).sum

section Reading

variable {memory : Memory} {args : ℕ → Word} {charge charge' : Written → ℕ} {k k' : ℕ}

theorem readItems_append (pre post : List Item) :
    readItems charge memory args k (pre ++ post) = readItems charge memory args k pre ++
      readItems charge memory args (k + argumentsOf charge pre) post := by
  induction pre generalizing k with
  | nil => rfl
  | cons item pre ih =>
      rw [List.cons_append, readItems, ih, readItems, List.append_assoc]
      unfold argumentsOf
      rw [List.map_cons, List.sum_cons, Nat.add_assoc]

theorem fieldOf_percent (d : Directive) :
    (fieldOf memory args k d .percent).2 = .pieces [[chr '%']] := rfl

theorem length_fields (item : Item) :
    (item.fields memory args k).length = (item.fields memory args k').length := by
  cases item with
  | directive w c conversion hconv =>
      rw [fields_directive, fields_directive, List.length_singleton, List.length_singleton]
  | _ => rfl

theorem length_readItems (items : List Item) : (readItems charge memory args k items).length =
    (readItems charge' memory args k' items).length := by
  induction items generalizing k k' with
  | nil => rfl
  | cons item items ih =>
      have hitem : (item.fields memory args k).length = (item.fields memory args k').length :=
        length_fields item
      rw [readItems, readItems, List.length_append, List.length_append, hitem, ih]

theorem argumentsOf_nothing_le (items : List Item) :
    argumentsOf nothing items ≤ argumentsOf Written.stars items := by
  induction items with
  | nil => exact le_rfl
  | cons item items ih =>
      have hitem : item.arguments nothing ≤ item.arguments Written.stars := by
        cases item with
        | malformed w c hends hconv hnul => exact Nat.zero_le _
        | _ => exact le_rfl
      exact Nat.add_le_add hitem ih

/-- Items without arguments read the same everywhere. -/
theorem readItems_of_no_argument {items : List Item} (h : ∀ item ∈ items, ¬ item.TakesArgument) :
    readItems charge memory args k items = readItems charge' memory args k' items := by
  induction items generalizing k k' with
  | nil => rfl
  | cons item items ih =>
      rw [List.forall_mem_cons] at h
      have hfields : item.fields memory args k = item.fields memory args k' := by
        cases item with
        | directive w c conversion hconv =>
            have hpercent : conversion = .percent := not_not.mp h.1
            subst hpercent
            rw [fields_directive, fields_directive, fieldOf_percent, fieldOf_percent]
        | _ => rfl
      rw [readItems, readItems, hfields, ih h.2]

theorem readItems_of_clean {items : List Item}
    (h : ∀ pre item post, items = pre ++ item :: post → item.LosesArguments →
      ∀ later ∈ post, ¬ later.TakesArgument) :
    readItems Written.stars memory args k items = readItems nothing memory args k items := by
  induction items generalizing k with
  | nil => rfl
  | cons item items ih =>
      have hrest := @ih k fun pre item' post heq => h (item :: pre) item' post (by rw [heq]; rfl)
      rw [readItems, readItems]
      by_cases hlost : item.LosesArguments
      · rw [readItems_of_no_argument (h [] item items rfl hlost)]
      · have hsame : item.arguments Written.stars = item.arguments nothing := by
          cases item with
          | malformed w c hends hconv hnul => exact Nat.eq_zero_of_not_pos hlost
          | _ => rfl
        rw [hsame, ih fun pre item' post heq => h (item :: pre) item' post (by rw [heq]; rfl)]

end Reading

/-! ## §3  Arguments that are seen -/

section Seen

theorem one_mem_layoutText {base : ℕ} (hbase : base = 10 ∨ base = 16) (fill : ℕ) (prec : ℤ)
    (flags : Flags) (isNegative : Bool) :
    chr '1' ∈ layoutText 1 base fill prec flags isNegative := by
  have hdigits : numeral (digitGlyph flags.small) base (1 : Word).toNat = [chr '1'] := by
    unfold numeral
    rw [digitsOf_of_lt (show (1 : Word).toNat < base by rcases hbase with rfl | rfl <;> decide)]
    cases flags.small <;> rfl
  unfold layoutText
  simp only [hdigits, List.mem_append, List.mem_singleton, true_or, or_true]

theorem one_notMem_layoutText {base : ℕ} (fill : ℕ) (prec : ℤ) (flags : Flags) (isNegative : Bool) :
    chr '1' ∉ layoutText 0 base fill prec flags isNegative := by
  have hdigits : numeral (digitGlyph flags.small) base (0 : Word).toNat = [chr '0'] := by
    cases flags.small <;> rfl
  have hspaces (n : ℕ) : chr '1' ∉ spaces n := fun h =>
    absurd (List.eq_of_mem_replicate h) (by decide)
  have hzeros (n : ℕ) : chr '1' ∉ List.replicate n (chr '0') := fun h =>
    absurd (List.eq_of_mem_replicate h) (by decide)
  have hsign : chr '1' ∉ signText flags isNegative := by
    unfold signText
    split_ifs <;> decide
  have hprefix : chr '1' ∉ prefixText flags base := by
    unfold prefixText
    split_ifs <;> decide
  unfold layoutText
  simp only [hdigits, List.mem_append, not_or]
  refine ⟨?_, hsign, hprefix, ?_, hzeros _, by decide, ?_⟩
  · split_ifs
    · exact List.not_mem_nil
    · exact hspaces _
  · split_ifs
    · exact hzeros _
    · exact List.not_mem_nil
  · split_ifs
    · exact hspaces _
    · exact List.not_mem_nil

/-- The numbers 1 and 0 are told apart by their digits. -/
theorem numberPieces_one_ne {base : ℕ} (hbase : base = 10 ∨ base = 16) {width width' prec prec' : ℤ}
    {flags flags' : Flags} {isNegative isNegative' : Bool} :
    numberPieces (1 : Word).toNat base width prec flags isNegative ≠
      numberPieces (0 : Word).toNat base width' prec' flags' isNegative' := by
  intro h
  have hflatten := congrArg List.flatten h
  rw [flatten_numberPieces _ _ _ _ _ _ (by omega) (by omega),
    flatten_numberPieces _ _ _ _ _ _ (by omega) (by omega)] at hflatten
  exact one_notMem_layoutText _ _ _ _ (hflatten ▸ one_mem_layoutText hbase _ _ _ _)

theorem signedArg_one (qualifier : Qualifier) : signedArg qualifier 1 = 1 := by
  cases qualifier <;> decide

theorem signedArg_zero (qualifier : Qualifier) : signedArg qualifier 0 = 0 := by
  cases qualifier <;> decide

theorem unsignedArg_one (qualifier : Qualifier) : unsignedArg qualifier 1 = 1 := by
  cases qualifier <;> decide

theorem unsignedArg_zero (qualifier : Qualifier) : unsignedArg qualifier 0 = 0 := by
  cases qualifier <;> decide

theorem charField_one_ne (d d' : Directive) : charField d 1 ≠ charField d' 0 := by
  have hspaces (n : ℕ) : (1 : Byte) ∉ spaces n := fun h =>
    absurd (List.eq_of_mem_replicate h) (by decide)
  intro h
  have hflatten := congrArg (fun f => f.asPieces.flatten) h
  simp only [charField, Field.asPieces, List.flatten_append, flatten_singles,
    List.flatten_cons] at hflatten
  have hmem := congrArg ((1 : Byte) ∈ ·) hflatten
  simp only [List.mem_append, List.mem_singleton, true_or, or_true, eq_iff_iff, true_iff] at hmem
  by_cases hleft : d'.flags.left
  · rw [if_pos hleft, if_pos hleft] at hmem
    rcases hmem with hnil | hzero | htrail
    · exact List.not_mem_nil hnil
    · exact absurd hzero (by decide)
    · exact hspaces _ htrail
  · rw [if_neg hleft, if_neg hleft] at hmem
    rcases hmem with hlead | hzero | hnil
    · exact hspaces _ hlead
    · exact absurd hzero (by decide)
    · exact List.not_mem_nil hnil

/-- **A conversion shows which argument it was given**, 1 or 0, in memory without strings. -/
theorem fieldOf_ne {conversion : Conversion} (hconv : conversion ≠ .percent) {args : ℕ → Word}
    {k k' : ℕ} (hone : args k = 1) (hzero : args k' = 0) (d d' : Directive) :
    (fieldOf (fun _ => 0) args k d conversion).2 ≠
      (fieldOf (fun _ => 0) args k' d' conversion).2 := by
  intro h
  cases conversion with
  | percent => exact hconv rfl
  | char =>
      simp only [fieldOf, hone, hzero] at h
      exact charField_one_ne d d' h
  | string =>
      simp only [fieldOf, stringField, hone, hzero, Field.text.injEq] at h
      -- an empty string is not the text for a null pointer
      exact absurd (congrFun h.2.1 0) (by decide)
  | pointer =>
      simp only [fieldOf, hone, hzero, Field.pieces.injEq] at h
      exact numberPieces_one_ne (Or.inr rfl) h
  | signed =>
      simp only [fieldOf, hone, hzero, signedArg_one, signedArg_zero, Field.pieces.injEq] at h
      exact numberPieces_one_ne (Or.inl rfl) h
  | unsigned =>
      simp only [fieldOf, hone, hzero, unsignedArg_one, unsignedArg_zero, Field.pieces.injEq] at h
      exact numberPieces_one_ne (Or.inr rfl) h
  | capital =>
      simp only [fieldOf, hone, hzero, unsignedArg_one, unsignedArg_zero, Field.pieces.injEq] at h
      exact numberPieces_one_ne (Or.inr rfl) h
  | count =>
      simp only [fieldOf, hone, hzero, Field.count.injEq] at h
      exact absurd h.1 (by decide)

end Seen

/-! ## §4  When nothing is lost -/

/-- A malformed directive is text, and what is behind it has its own arguments. -/
structure ReadsAsText (f : Format) : Prop where
  fields_eq : ∀ memory args, fieldsOf memory (f.text ++ [0]) args = f.read nothing memory args
  output_eq : ∀ (b : Buffer) memory args, 1 ≤ b.size → vsnprintf b memory (f.text ++ [0]) args =
    (playAll b (f.read nothing memory args) ⟨[], []⟩).map (finish b)

theorem readsAsText_of_fields {f : Format}
    (h : ∀ memory args, fieldsOf memory (f.text ++ [0]) args = f.read nothing memory args) :
    ReadsAsText f := by
  refine ⟨h, fun b memory args hsize => ?_⟩
  rw [vsnprintf_eq_playAll b memory args f.text hsize, h]

/-- A lost argument is missed by the first directive that shows it. -/
theorem not_readsAsText {f : Format} {pre post : List Item} {item later : Item}
    (hitems : f.items = pre ++ item :: post) (hlost : item.LosesArguments) (hlater : later ∈ post)
    (htakes : later.TakesArgument) : ¬ ReadsAsText f := by
  intro h
  obtain ⟨mid, rest, rfl⟩ := List.append_of_mem hlater
  generalize hbefore : pre ++ item :: mid = before
  have hsplit : f.items = before ++ later :: rest := by
    rw [hitems, ← hbefore, List.append_assoc, List.cons_append]
  have hlate : argumentsOf nothing before < argumentsOf Written.stars before := by
    have hpre := argumentsOf_nothing_le pre
    have hmid := argumentsOf_nothing_le mid
    have hitem : item.arguments nothing < item.arguments Written.stars := by
      cases item with
      | malformed w c hends hconv hnul => exact hlost
      | _ => exact hlost.elim
    rw [← hbefore]
    unfold argumentsOf at hpre hmid ⊢
    simp only [List.map_append, List.map_cons, List.sum_append, List.sum_cons]
    omega
  cases later with
  | literal c hnul hpercent => exact htakes
  | malformed w c hends hconv hnul => exact htakes
  | directive w c conversion hconv =>
      -- one argument is 1, where the directive should look for its own
      generalize hwanted : argumentsOf nothing before + w.stars = wanted
      have hfields := h.fields_eq (fun _ => 0) fun j => if j = wanted then 1 else 0
      rw [fieldsOf_text] at hfields
      unfold Format.read at hfields
      have hread := List.append_cancel_right hfields
      rw [hsplit, readItems_append, readItems_append] at hread
      have hrest := (List.append_inj hread (length_readItems before)).2
      rw [readItems, readItems, fields_directive, fields_directive, Nat.zero_add, Nat.zero_add,
        List.singleton_append, List.singleton_append] at hrest
      refine fieldOf_ne htakes ?_ ?_ _ _ (List.cons.inj hrest).1.symm
      · rw [hwanted]
        exact if_pos rfl
      · exact if_neg (by omega)

/-- **Malformed directives are text** exactly where none of them loses an argument that is
needed later. -/
theorem malformed_iff (f : Format) : ReadsAsText f ↔ f.Clean := by
  constructor
  · intro h pre item post hitems hlost later hlater htakes
    exact not_readsAsText hitems hlost hlater htakes h
  · intro h
    refine readsAsText_of_fields fun memory args => ?_
    rw [fieldsOf_text]
    unfold Format.read
    rw [readItems_of_clean h]

/-- `"%*y%d"` -/
def starredFormat : Format where
  items := [
    .malformed ⟨[], .star, .absent, .none⟩ (chr 'y')
      ⟨(by decide : chr 'y' ≠ chr 'h' ∧ chr 'y' ≠ chr 'L' ∧ chr 'y' ≠ chr 'l'),
        fun _ => (by decide : chr 'y' ≠ chr '.'), fun _ _ => trivial, nofun⟩
      (by decide) (by decide),
    .directive .plain (chr 'd') .signed (by decide)]
  cut := none

/-- A buffer of 16 bytes. -/
def sixteenBytes : Buffer := ⟨0x1000, 16, by decide⟩

/-- The arguments are 5 and 7, and the number that is printed is 7. -/
theorem second_argument_printed :
    ∃ o o', vsnprintf sixteenBytes (fun _ => 0) (starredFormat.text ++ [0])
          (fun k => if k = 0 then 5 else 7) = .ok o ∧
        o.str = [chr '%', chr '*', chr 'y', chr '7'] ∧
      (playAll sixteenBytes (starredFormat.read nothing (fun _ => 0) fun k => if k = 0 then 5 else 7)
          ⟨[], []⟩).map (finish sixteenBytes) = .ok o' ∧
        o'.str = [chr '%', chr '*', chr 'y', chr '5'] ∧ ¬ ReadsAsText starredFormat := by
  have hcode : vsnprintf sixteenBytes (fun _ => 0) (starredFormat.text ++ [0])
      (fun k => if k = 0 then 5 else 7) =
        .ok ⟨[chr '%', chr '*', chr 'y', chr '7'], [0], [], 4⟩ := by decide +kernel
  have href : (playAll sixteenBytes
      (starredFormat.read nothing (fun _ => 0) fun k => if k = 0 then 5 else 7) ⟨[], []⟩).map
        (finish sixteenBytes) = .ok ⟨[chr '%', chr '*', chr 'y', chr '5'], [0], [], 4⟩ := by
    decide +kernel
  refine ⟨_, _, hcode, rfl, href, rfl, fun h => ?_⟩
  have hsame := h.output_eq sixteenBytes (fun _ => 0) (fun k => if k = 0 then 5 else 7) (by decide)
  rw [hcode, href] at hsame
  exact absurd (congrArg Output.str (Except.ok.inj hsame)) (by decide)

end Knos.Printk
