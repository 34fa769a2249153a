import Knos.Printk.Grammar

/-!
# How formats are written

A format is a sequence of items: characters that stand for themselves, directives, and
malformed directives, whose conversion character is none that `vsnprintf` knows. At its end
it may cut a directive off. Every text without a NUL can be written so (`exists_format`), and
its fields are those of its items (`fieldsOf_text`).
-/

namespace Knos.Printk

open Knos.Bytes Knos.Stack Knos.Pieces

/-! ## §1  Items -/

inductive Item where
  | literal (c : Byte) (hnul : c ≠ 0) (hpercent : c ≠ chr '%')
  | directive (w : Written) (c : Byte) (conversion : Conversion)
      (hconv : conversionOf c = some conversion)
  | malformed (w : Written) (c : Byte) (hends : w.Ends c) (hconv : conversionOf c = none)
      (hnul : c ≠ 0)

def Item.text : Item → List Byte
  | .literal c _ _ => [c]
  | .directive w c _ _ => chr '%' :: (w.body ++ [c])
  | .malformed w c _ _ _ => chr '%' :: (w.body ++ [c])

/-- A format without its NUL. -/
structure Format where
  items : List Item
  /-- The directive that the end of the format cuts off. -/
  cut : Option Written

def Format.cutText (f : Format) : List Byte :=
  match f.cut with
  | none => []
  | some w => chr '%' :: w.body

def Format.text (f : Format) : List Byte := f.items.flatMap Item.text ++ f.cutText

/-! ## §2  Their fields -/

/-- Characters that stand for themselves. -/
def literalFields (text : List Byte) : List Field := text.map fun c => .pieces [[c]]

/-- The fields of an item whose first argument has the number `k`. -/
def Item.fields (memory : Memory) (args : ℕ → Word) (k : ℕ) : Item → List Field
  | .directive w _ conversion _ =>
      [(fieldOf memory args (k + w.stars) (w.directive args k) conversion).2]
  | item => literalFields item.text

/-- The number of arguments that an item takes, where a malformed directive takes as many as
`charge` says. -/
def Item.arguments (charge : Written → ℕ) : Item → ℕ
  | .literal _ _ _ => 0
  | .directive w _ conversion _ => w.stars + if conversion = .percent then 0 else 1
  | .malformed w _ _ _ _ => charge w

def readItems (charge : Written → ℕ) (memory : Memory) (args : ℕ → Word) : ℕ → List Item → List Field
  | _, [] => []
  | k, item :: items =>
      item.fields memory args k ++ readItems charge memory args (k + item.arguments charge) items

def Format.read (charge : Written → ℕ) (memory : Memory) (args : ℕ → Word) (f : Format) :
    List Field :=
  readItems charge memory args 0 f.items ++ literalFields f.cutText

section Fields

variable (memory : Memory) (args : ℕ → Word)

theorem fieldOf_fst (k : ℕ) (d : Directive) (conversion : Conversion) :
    (fieldOf memory args k d conversion).1 = k + if conversion = .percent then 0 else 1 := by
  cases conversion <;> rfl

theorem fields_directive {k : ℕ} {w : Written} {c : Byte} {conversion : Conversion}
    (hconv : conversionOf c = some conversion) :
    (Item.directive w c conversion hconv).fields memory args k =
      [(fieldOf memory args (k + w.stars) (w.directive args k) conversion).2] := rfl

theorem fieldsFrom_literals {text : List Byte} (htext : ∀ c ∈ text, c ≠ 0 ∧ c ≠ chr '%')
    (fuel : ℕ) (rest : List Byte) (k : ℕ) :
    fieldsFrom memory args (text.length + fuel) (text ++ rest) k =
      literalFields text ++ fieldsFrom memory args fuel rest k := by
  induction text with
  | nil =>
      rw [List.length_nil, Nat.zero_add]
      rfl
  | cons c text ih =>
      rw [List.forall_mem_cons] at htext
      rw [List.length_cons, Nat.add_right_comm, List.cons_append, fieldsFrom, if_neg htext.1.1,
        if_pos htext.1.2, ih htext.2]
      rfl

theorem fieldsFrom_directive {w : Written} {c : Byte} {conversion : Conversion}
    (hconv : conversionOf c = some conversion) (fuel : ℕ) (rest : List Byte) (k : ℕ) :
    fieldsFrom memory args (fuel + 1) (chr '%' :: (w.body ++ c :: rest)) k =
      (fieldOf memory args (k + w.stars) (w.directive args k) conversion).2 ::
        fieldsFrom memory args fuel rest
          (k + (w.stars + if conversion = .percent then 0 else 1)) := by
  rw [fieldsFrom, if_neg (by decide), if_neg (by decide),
    parseDirective_text (ends_of_conversion hconv w)]
  dsimp only
  rw [hconv]
  dsimp only
  rw [fieldOf_fst, Nat.add_assoc]

/-- The parser goes back to the `%`, but not to the arguments that it has taken. -/
theorem fieldsFrom_malformed {w : Written} {c : Byte} (hends : w.Ends c)
    (hconv : conversionOf c = none) (fuel : ℕ) (rest : List Byte) (k : ℕ) :
    fieldsFrom memory args (fuel + 1) (chr '%' :: (w.body ++ c :: rest)) k =
      .pieces [[chr '%']] :: fieldsFrom memory args fuel (w.body ++ c :: rest) (k + w.stars) := by
  rw [fieldsFrom, if_neg (by decide), if_neg (by decide), parseDirective_text hends]
  dsimp only
  rw [hconv]

/-- What a directive is written with stands for itself when it is read as text. -/
theorem literal_of_mem_body (w : Written) : ∀ c ∈ w.body, c ≠ 0 ∧ c ≠ chr '%' := by
  have hflag : ∀ f : FlagChar, f.char ≠ 0 ∧ f.char ≠ chr '%' := by
    intro f
    cases f <;> decide
  have hdigit : ∀ d : Fin 10, decimalChar d ≠ 0 ∧ decimalChar d ≠ chr '%' := by decide
  have hdigits : ∀ ds : List (Fin 10), ∀ c ∈ decimalText ds, c ≠ 0 ∧ c ≠ chr '%' := by
    intro ds c hc
    obtain ⟨d, -, rfl⟩ := List.mem_map.mp hc
    exact hdigit d
  have hwidth : ∀ c ∈ w.width.text, c ≠ 0 ∧ c ≠ chr '%' := by
    cases w.width with
    | absent => nofun
    | star => exact (by decide : ∀ c ∈ [chr '*'], c ≠ 0 ∧ c ≠ chr '%')
    | digits d ds hd => exact hdigits (d :: ds)
  have hprecision : ∀ c ∈ w.precision.text, c ≠ 0 ∧ c ≠ chr '%' := by
    cases w.precision with
    | absent => nofun
    | point => exact (by decide : ∀ c ∈ [chr '.'], c ≠ 0 ∧ c ≠ chr '%')
    | star => exact (by decide : ∀ c ∈ [chr '.', chr '*'], c ≠ 0 ∧ c ≠ chr '%')
    | digits d ds => exact List.forall_mem_cons.mpr ⟨by decide, hdigits (d :: ds)⟩
  have hqualifier : ∀ c ∈ w.qualifier.text, c ≠ 0 ∧ c ≠ chr '%' := by
    cases w.qualifier <;> decide
  unfold Written.body
  intro c hc
  simp only [List.mem_append, List.mem_map] at hc
  rcases hc with ⟨f, -, rfl⟩ | hc | hc | hc
  · exact hflag f
  · exact hwidth c hc
  · exact hprecision c hc
  · exact hqualifier c hc

/-- One item, with fuel for what is behind it. -/
theorem fieldsFrom_item (item : Item) {fuel : ℕ} {rest : List Byte}
    (hfuel : (item.text ++ rest).length < fuel) (k : ℕ) :
    ∃ fuel', rest.length < fuel' ∧ fieldsFrom memory args fuel (item.text ++ rest) k =
      item.fields memory args k ++
        fieldsFrom memory args fuel' rest (k + item.arguments Written.stars) := by
  rw [List.length_append] at hfuel
  cases item with
  | literal c hnul hpercent =>
      obtain ⟨fuel, rfl⟩ : ∃ n, fuel = n + 1 := ⟨fuel - 1, by omega⟩
      refine ⟨fuel, by simp only [Item.text, List.length_singleton] at hfuel; omega, ?_⟩
      show fieldsFrom memory args (fuel + 1) (c :: rest) k = _
      rw [fieldsFrom, if_neg hnul, if_pos hpercent]
      rfl
  | directive w c conversion hconv =>
      obtain ⟨fuel, rfl⟩ : ∃ n, fuel = n + 1 := ⟨fuel - 1, by omega⟩
      refine ⟨fuel, by simp only [Item.text, List.length_cons] at hfuel; omega, ?_⟩
      show fieldsFrom memory args (fuel + 1) (chr '%' :: (w.body ++ [c] ++ rest)) k = _
      rw [List.append_assoc, List.singleton_append, fieldsFrom_directive memory args hconv]
      rfl
  | malformed w c hends hconv hnul =>
      have hlen : (w.body ++ [c]).length + 1 + rest.length < fuel := hfuel
      obtain ⟨fuel, rfl⟩ : ∃ n, fuel = (w.body ++ [c]).length + n + 1 :=
        ⟨fuel - 1 - (w.body ++ [c]).length, by omega⟩
      refine ⟨fuel, by omega, ?_⟩
      have hpercent : c ≠ chr '%' := by
        rintro rfl
        exact absurd hconv (by decide)
      have htext : ∀ x ∈ w.body ++ [c], x ≠ 0 ∧ x ≠ chr '%' := by
        intro x hx
        rcases List.mem_append.mp hx with hx | hx
        · exact literal_of_mem_body w x hx
        · rw [List.mem_singleton.mp hx]
          exact ⟨hnul, hpercent⟩
      show fieldsFrom memory args ((w.body ++ [c]).length + fuel + 1)
        (chr '%' :: (w.body ++ [c] ++ rest)) k = _
      rw [List.append_assoc, List.singleton_append, fieldsFrom_malformed memory args hends hconv,
        show w.body ++ c :: rest = (w.body ++ [c]) ++ rest by
          rw [List.append_assoc, List.singleton_append],
        fieldsFrom_literals memory args htext]
      rfl

theorem fieldsFrom_items (items : List Item) {fuel : ℕ} {rest : List Byte}
    (hfuel : (items.flatMap Item.text ++ rest).length < fuel) (k : ℕ) :
    ∃ fuel' k', rest.length < fuel' ∧
      fieldsFrom memory args fuel (items.flatMap Item.text ++ rest) k =
        readItems Written.stars memory args k items ++ fieldsFrom memory args fuel' rest k' := by
  induction items generalizing fuel k with
  | nil => exact ⟨fuel, k, hfuel, rfl⟩
  | cons item items ih =>
      rw [List.flatMap_cons, List.append_assoc] at hfuel ⊢
      obtain ⟨fuel₁, hfuel₁, heq₁⟩ := fieldsFrom_item memory args item hfuel k
      obtain ⟨fuel₂, k₂, hfuel₂, heq₂⟩ := ih hfuel₁ (k + item.arguments Written.stars)
      refine ⟨fuel₂, k₂, hfuel₂, ?_⟩
      rw [heq₁, heq₂, readItems, List.append_assoc]

/-- A directive that is cut off is text as well. -/
theorem fieldsFrom_cutText (f : Format) {fuel : ℕ} (hfuel : (f.cutText ++ [0]).length < fuel)
    (k : ℕ) :
    fieldsFrom memory args fuel (f.cutText ++ [0]) k = literalFields f.cutText := by
  unfold Format.cutText at hfuel ⊢
  cases hcut : f.cut with
  | none =>
      rw [hcut] at hfuel
      obtain ⟨fuel, rfl⟩ : ∃ n, fuel = n + 1 := ⟨fuel - 1, by omega⟩
      rfl
  | some w =>
      rw [hcut] at hfuel
      simp only [List.length_append, List.length_cons, List.length_nil] at hfuel
      obtain ⟨fuel, rfl⟩ : ∃ n, fuel = w.body.length + (n + 1) + 1 :=
        ⟨fuel - 2 - w.body.length, by omega⟩
      show fieldsFrom memory args _ (chr '%' :: (w.body ++ 0 :: [])) k = _
      rw [fieldsFrom_malformed memory args (ends_zero w) (by decide),
        fieldsFrom_literals memory args (literal_of_mem_body w)]
      show .pieces [[chr '%']] :: (literalFields w.body ++ []) = _
      rw [List.append_nil]
      rfl

/-- **The fields of a format** are those of its items. -/
theorem fieldsOf_text (f : Format) :
    fieldsOf memory (f.text ++ [0]) args = f.read Written.stars memory args := by
  unfold fieldsOf Format.text Format.read
  rw [List.append_assoc]
  obtain ⟨fuel, k, hfuel, heq⟩ := fieldsFrom_items memory args f.items
    (Nat.lt_succ_self (f.items.flatMap Item.text ++ (f.cutText ++ [0])).length) 0
  rw [heq, fieldsFrom_cutText memory args f hfuel]

end Fields

/-! ## §3  Every text is a format -/

/-- **Every text without a NUL** is written by the grammar. -/
theorem exists_format (text : List Byte) (hnul : (0 : Byte) ∉ text) :
    ∃ f : Format, f.text = text := by
  induction hn : text.length using Nat.strong_induction_on generalizing text with
  | _ n ih =>
      cases text with
      | nil => exact ⟨⟨[], none⟩, rfl⟩
      | cons c text =>
          rw [List.mem_cons, not_or] at hnul
          rw [List.length_cons] at hn
          have hcons (item : Item) (rest : List Byte) (hrest : rest.length ≤ text.length)
              (hmem : (0 : Byte) ∉ rest) : ∃ f : Format, f.text = item.text ++ rest := by
            obtain ⟨f, hf⟩ := ih rest.length (by omega) rest hmem rfl
            refine ⟨⟨item :: f.items, f.cut⟩, ?_⟩
            rw [← hf]
            unfold Format.text
            rw [List.flatMap_cons, List.append_assoc]
            rfl
          by_cases hpercent : c = chr '%'
          · subst hpercent
            obtain ⟨w, rest, rfl, hends⟩ := exists_written text
            cases rest with
            | nil => exact ⟨⟨[], some w⟩, by rw [List.append_nil]; rfl⟩
            | cons c rest =>
                have hc : c ≠ 0 := fun h =>
                  hnul.2 (List.mem_append_right _ (h ▸ List.mem_cons_self))
                have hmem : (0 : Byte) ∉ rest := fun h =>
                  hnul.2 (List.mem_append_right _ (List.mem_cons_of_mem _ h))
                have hlen : rest.length ≤ (w.body ++ c :: rest).length := by
                  rw [List.length_append, List.length_cons]
                  omega
                have hassoc : chr '%' :: (w.body ++ c :: rest) =
                    chr '%' :: (w.body ++ [c]) ++ rest := by
                  rw [List.cons_append, List.append_assoc, List.singleton_append]
                rw [hassoc]
                cases hconv : conversionOf c with
                | some conversion => exact hcons (.directive w c conversion hconv) rest hlen hmem
                | none => exact hcons (.malformed w c (hends c rest rfl) hconv hc) rest hlen hmem
          · exact hcons (.literal c (Ne.symm hnul.1) hpercent) text le_rfl hnul.2

end Knos.Printk
