import Mathlib.Data.Nat.Digits.Defs
import Mathlib.Tactic.Cases

/-!
# Numerals

A number written in a base, the most significant digit first, each digit as a glyph
(`numeral`), and read back by Horner's rule (`readNumeral`), which fails on a glyph that is
no digit of the base. What was written in a base is read back in that base
(`readNumeral_numeral`). In a smaller base only the numbers of one digit are
(`readNumeral_numeral_iff`): the others are too large, or have a digit too large. In a text a
numeral ends where no digit follows (`scanNumeral_digits`).
-/

namespace Knos.Numeral

variable {α : Type}

/-! ## §1  Writing -/

/-- The digits of a number; 0 has one. -/
def digitsOf (base n : ℕ) : List ℕ := if n = 0 then [0] else (Nat.digits base n).reverse

def numeral (glyph : ℕ → α) (base n : ℕ) : List α := (digitsOf base n).map glyph

theorem digitsOf_ne_nil (base n : ℕ) : digitsOf base n ≠ [] := by
  unfold digitsOf
  split_ifs with h
  · exact List.cons_ne_nil _ _
  · rwa [ne_eq, List.reverse_eq_nil_iff, Nat.digits_eq_nil_iff_eq_zero]

theorem lt_of_mem_digitsOf {base n d : ℕ} (hbase : 2 ≤ base) (h : d ∈ digitsOf base n) :
    d < base := by
  unfold digitsOf at h
  split_ifs at h with hn
  · rw [List.mem_singleton.mp h]
    omega
  · exact Nat.digits_lt_base hbase (List.mem_reverse.mp h)

theorem digitsOf_of_lt {base n : ℕ} (h : n < base) : digitsOf base n = [n] := by
  unfold digitsOf
  split_ifs with hn
  · rw [hn]
  · rw [Nat.digits_of_lt base n hn h, List.reverse_singleton]

/-- The last digit, and those before it. -/
theorem digitsOf_of_le {base n : ℕ} (hbase : 2 ≤ base) (h : base ≤ n) :
    digitsOf base n = digitsOf base (n / base) ++ [n % base] := by
  have hquot : n / base ≠ 0 := Nat.ne_of_gt (Nat.div_pos h (by omega))
  unfold digitsOf
  rw [if_neg (by omega), if_neg hquot, Nat.digits_eq_cons_digits_div hbase (by omega),
    List.reverse_cons]

/-! ## §2  Values -/

/-- Horner's rule. -/
def horner (base acc : ℕ) (ds : List ℕ) : ℕ := ds.foldl (fun acc d => acc * base + d) acc

@[simp] theorem horner_nil (base acc : ℕ) : horner base acc [] = acc := rfl

@[simp] theorem horner_cons (base acc d : ℕ) (ds : List ℕ) :
    horner base acc (d :: ds) = horner base (acc * base + d) ds := rfl

theorem horner_append_single (base acc : ℕ) (ds : List ℕ) (d : ℕ) :
    horner base acc (ds ++ [d]) = horner base acc ds * base + d := by
  unfold horner
  rw [List.foldl_append]
  rfl

theorem le_horner {base : ℕ} (hbase : 1 ≤ base) (acc : ℕ) (ds : List ℕ) :
    acc ≤ horner base acc ds := by
  induction ds generalizing acc with
  | nil => exact le_rfl
  | cons d ds ih =>
      have hstep : acc * 1 ≤ acc * base := Nat.mul_le_mul_left acc hbase
      exact le_trans (by omega) (ih (acc * base + d))

theorem horner_digitsOf {base : ℕ} (hbase : 2 ≤ base) (n : ℕ) :
    horner base 0 (digitsOf base n) = n := by
  induction n using Nat.strong_induction_on with
  | _ n ih =>
      rcases Nat.lt_or_ge n base with hlt | hge
      · rw [digitsOf_of_lt hlt, horner_cons, horner_nil, Nat.zero_mul, Nat.zero_add]
      · rw [digitsOf_of_le hbase hge, horner_append_single,
          ih (n / base) (Nat.div_lt_self (by omega) hbase), Nat.div_add_mod']

/-- The digits of a number are worth no more in a smaller base. -/
theorem horner_digitsOf_le {b base : ℕ} (hbase : 2 ≤ base) (hb : b ≤ base) (n : ℕ) :
    horner b 0 (digitsOf base n) ≤ n := by
  induction n using Nat.strong_induction_on with
  | _ n ih =>
      rcases Nat.lt_or_ge n base with hlt | hge
      · rw [digitsOf_of_lt hlt, horner_cons, horner_nil, Nat.zero_mul, Nat.zero_add]
      · have hquot := ih (n / base) (Nat.div_lt_self (by omega) hbase)
        rw [digitsOf_of_le hbase hge, horner_append_single]
        calc horner b 0 (digitsOf base (n / base)) * b + n % base
            ≤ n / base * base + n % base := Nat.add_le_add_right (Nat.mul_le_mul hquot hb) _
          _ = n := Nat.div_add_mod' n base

/-- And they are worth less if there are two of them. -/
theorem horner_digitsOf_lt {b base n : ℕ} (hbase : 2 ≤ base) (hb : b < base) (h : base ≤ n) :
    horner b 0 (digitsOf base n) < n := by
  have hquot := horner_digitsOf_le hbase hb.le (n / base)
  have hpos : 0 < n / base := Nat.div_pos h (by omega)
  rw [digitsOf_of_le hbase h, horner_append_single]
  calc horner b 0 (digitsOf base (n / base)) * b + n % base
      ≤ n / base * b + n % base := Nat.add_le_add_right (Nat.mul_le_mul_right b hquot) _
    _ < n / base * base + n % base := Nat.add_lt_add_right (Nat.mul_lt_mul_of_pos_left hb hpos) _
    _ = n := Nat.div_add_mod' n base

/-! ## §3  Reading -/

variable [DecidableEq α]

/-- The digit of a base that a glyph stands for. -/
def digitFor (glyph : ℕ → α) (base : ℕ) (c : α) : Option ℕ :=
  (List.range base).find? fun d => glyph d = c

def readDigits (glyph : ℕ → α) (base : ℕ) : ℕ → List α → Option ℕ
  | acc, [] => some acc
  | acc, c :: cs =>
      match digitFor glyph base c with
      | some d => readDigits glyph base (acc * base + d) cs
      | none => none

def readNumeral (glyph : ℕ → α) (base : ℕ) (cs : List α) : Option ℕ :=
  if cs = [] then none else readDigits glyph base 0 cs

/-- Different digits, of which there are so many, have different glyphs. -/
def Distinct (glyph : ℕ → α) (count : ℕ) : Prop :=
  ∀ d e, d < count → e < count → glyph d = glyph e → d = e

section Reading

variable {glyph : ℕ → α} {b base count : ℕ}

theorem digitFor_glyph (h : Distinct glyph count) (hb : b ≤ count) {d : ℕ} (hd : d < count) :
    digitFor glyph b (glyph d) = if d < b then some d else none := by
  unfold digitFor
  split_ifs with hlt
  · rw [List.find?_range_eq_some]
    refine ⟨by simp, List.mem_range.mpr hlt, fun e he => ?_⟩
    have hne : glyph e ≠ glyph d := fun heq => Nat.ne_of_lt he (h e d (he.trans hd) hd heq)
    simpa using hne
  · rw [List.find?_eq_none]
    intro e he heq
    rw [List.mem_range] at he
    have hsame := h e d (he.trans_le hb) hd (by simpa using heq)
    exact hlt (hsame ▸ he)

theorem readDigits_map (h : Distinct glyph count) (hb : b ≤ count) {ds : List ℕ}
    (hds : ∀ d ∈ ds, d < count) (acc : ℕ) :
    readDigits glyph b acc (ds.map glyph) =
      if ∀ d ∈ ds, d < b then some (horner b acc ds) else none := by
  induction ds generalizing acc with
  | nil => rw [if_pos fun d hd => absurd hd List.not_mem_nil]; rfl
  | cons d ds ih =>
      rw [List.forall_mem_cons] at hds
      rw [List.map_cons, readDigits, digitFor_glyph h hb hds.1]
      by_cases hlt : d < b
      · rw [if_pos hlt]
        dsimp only
        rw [ih hds.2, horner_cons]
        refine if_congr ?_ rfl rfl
        rw [List.forall_mem_cons, and_iff_right hlt]
      · rw [if_neg hlt, if_neg fun hall => hlt (hall d List.mem_cons_self)]

theorem readNumeral_eq (h : Distinct glyph count) (hb : b ≤ count) (hbase : 2 ≤ base)
    (hcount : base ≤ count) (n : ℕ) :
    readNumeral glyph b (numeral glyph base n) =
      if ∀ d ∈ digitsOf base n, d < b then some (horner b 0 (digitsOf base n)) else none := by
  have hne : numeral glyph base n ≠ [] := by
    unfold numeral
    rw [ne_eq, List.map_eq_nil_iff]
    exact digitsOf_ne_nil base n
  unfold readNumeral
  rw [if_neg hne]
  exact readDigits_map h hb (fun d hd => (lt_of_mem_digitsOf hbase hd).trans_le hcount) 0

/-- **Writing and reading** in one base. -/
theorem readNumeral_numeral (h : Distinct glyph count) (hbase : 2 ≤ base) (hcount : base ≤ count)
    (n : ℕ) : readNumeral glyph base (numeral glyph base n) = some n := by
  rw [readNumeral_eq h hcount hbase hcount, if_pos fun d hd => lt_of_mem_digitsOf hbase hd,
    horner_digitsOf hbase]

/-- **Reading in a smaller base.** -/
theorem readNumeral_numeral_iff (h : Distinct glyph count) (hbase : 2 ≤ base)
    (hcount : base ≤ count) (hb : b < base) (n : ℕ) :
    readNumeral glyph b (numeral glyph base n) = some n ↔ n < b := by
  rw [readNumeral_eq h (by omega) hbase hcount]
  constructor
  · intro hread
    split_ifs at hread with hall
    by_contra hge
    rcases Nat.lt_or_ge n base with hlt | hle
    · rw [digitsOf_of_lt hlt] at hall
      exact hge (hall n List.mem_cons_self)
    · have hless := horner_digitsOf_lt hbase hb hle
      rw [Option.some.inj hread] at hless
      exact lt_irrefl n hless
  · intro hlt
    rw [digitsOf_of_lt (hlt.trans hb), if_pos fun d hd => by rwa [List.mem_singleton.mp hd],
      horner_cons, horner_nil, Nat.zero_mul, Nat.zero_add]

/-! ### Numerals in a text -/

/-- The numeral that a text begins with, and what follows it. -/
def scanNumeral (glyph : ℕ → α) (base : ℕ) (cs : List α) : Option (ℕ × List α) :=
  (readNumeral glyph base (cs.takeWhile fun c => (digitFor glyph base c).isSome)).map
    (·, cs.dropWhile fun c => (digitFor glyph base c).isSome)

theorem horner_zeros (base k : ℕ) (ds : List ℕ) :
    horner base 0 (List.replicate k 0 ++ ds) = horner base 0 ds := by
  induction k with
  | zero => rfl
  | succ k ih => rw [List.replicate_succ, List.cons_append, horner_cons, Nat.zero_mul, ih]

/-- Digits are read up to what is none. -/
theorem scanNumeral_digits (h : Distinct glyph count) (hb : base ≤ count) {ds : List ℕ}
    (hds : ∀ d ∈ ds, d < base) (hne : ds ≠ []) {rest : List α}
    (hrest : ∀ c ∈ rest.head?, digitFor glyph base c = none) :
    scanNumeral glyph base (ds.map glyph ++ rest) = some (horner base 0 ds, rest) := by
  have hdigits : ∀ c ∈ ds.map glyph, (digitFor glyph base c).isSome = true := by
    intro c hc
    obtain ⟨d, hd, rfl⟩ := List.mem_map.mp hc
    rw [digitFor_glyph h hb ((hds d hd).trans_le hb), if_pos (hds d hd)]
    rfl
  have hend : rest.takeWhile (fun c => (digitFor glyph base c).isSome) = [] ∧
      rest.dropWhile (fun c => (digitFor glyph base c).isSome) = rest := by
    cases rest with
    | nil => exact ⟨rfl, rfl⟩
    | cons c rest =>
        have hc : ¬ (digitFor glyph base c).isSome = true := by simp [hrest c rfl]
        exact ⟨List.takeWhile_cons_of_neg hc, List.dropWhile_cons_of_neg hc⟩
  have hread : readNumeral glyph base (ds.map glyph) = some (horner base 0 ds) := by
    unfold readNumeral
    rw [if_neg (by simpa using hne),
      readDigits_map h hb (fun d hd => (hds d hd).trans_le hb), if_pos hds]
  unfold scanNumeral
  rw [List.takeWhile_append_of_pos hdigits, List.dropWhile_append_of_pos hdigits, hend.1, hend.2,
    List.append_nil, hread]
  rfl

end Reading

end Knos.Numeral
