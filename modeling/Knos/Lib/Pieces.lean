import Mathlib.Data.List.Basic
import Mathlib.Data.List.Infix

/-!
# Pieces in a bounded buffer

A writer emits pieces into a buffer with so much room; a piece that does not fit is skipped
and the writer goes on with the next one (`fill`). Where every piece is a single character
this only cuts the text off. Where a piece of two characters is skipped, the character
behind it slips into the room that the pair has declined, and `fill_prefix_iff` says that
nothing else can go wrong.
-/

namespace Knos.Pieces

variable {α : Type}

/-! ## §1  Filling -/

def fill : ℕ → List (List α) → List α
  | _, [] => []
  | room, p :: ps =>
      if p.length ≤ room then p ++ fill (room - p.length) ps else fill room ps

section Fill

variable {r : ℕ} {ps qs : List (List α)}

@[simp] theorem fill_nil (r : ℕ) : fill r ([] : List (List α)) = [] := rfl

theorem fill_cons_of_le {p : List α} (h : p.length ≤ r) :
    fill r (p :: ps) = p ++ fill (r - p.length) ps := if_pos h

theorem fill_cons_of_lt {p : List α} (h : r < p.length) : fill r (p :: ps) = fill r ps :=
  if_neg (Nat.not_le.mpr h)

theorem fill_append (r : ℕ) (ps qs : List (List α)) :
    fill r (ps ++ qs) = fill r ps ++ fill (r - (fill r ps).length) qs := by
  induction ps generalizing r with
  | nil => rfl
  | cons p ps ih =>
      rw [List.cons_append]
      rcases Nat.lt_or_ge r p.length with h | h
      · rw [fill_cons_of_lt h, fill_cons_of_lt h]
        exact ih r
      · rw [fill_cons_of_le h, fill_cons_of_le h, ih, List.append_assoc, List.length_append,
          Nat.sub_sub]

/-- Pieces that fit altogether are all written. -/
theorem fill_of_length_le (h : ps.flatten.length ≤ r) : fill r ps = ps.flatten := by
  induction ps generalizing r with
  | nil => rfl
  | cons p ps ih =>
      rw [List.flatten_cons, List.length_append] at h
      rw [fill_cons_of_le (by omega), List.flatten_cons, ih (by omega)]

end Fill

/-! ## §2  Single characters -/

/-- Every character a piece of its own. -/
def singles (xs : List α) : List (List α) := xs.map fun x => [x]

section Singles

variable {xs ys : List α} {x : α}

@[simp] theorem singles_nil : singles ([] : List α) = [] := rfl

@[simp] theorem singles_cons : singles (x :: xs) = [x] :: singles xs := rfl

@[simp] theorem singles_append : singles (xs ++ ys) = singles xs ++ singles ys :=
  List.map_append

@[simp] theorem flatten_singles (xs : List α) : (singles xs).flatten = xs := by
  induction xs with
  | nil => rfl
  | cons x xs ih => rw [singles_cons, List.flatten_cons, ih, List.singleton_append]

theorem fill_succ_single (r : ℕ) (ps : List (List α)) :
    fill (r + 1) ([x] :: ps) = x :: fill r ps :=
  fill_cons_of_le (Nat.le_add_left 1 r)

theorem fill_singles (r : ℕ) (xs : List α) : fill r (singles xs) = xs.take r := by
  induction xs generalizing r with
  | nil => rw [singles_nil, fill_nil, List.take_nil]
  | cons x xs ih =>
      cases r with
      | zero =>
          rw [singles_cons, fill_cons_of_lt (Nat.lt_succ_self 0), ih, List.take_zero,
            List.take_zero]
      | succ r => rw [singles_cons, fill_succ_single, ih, List.take_succ_cons]

end Singles

/-! ## §3  Pairs -/

/-- Single characters, and pairs with a single character behind them. -/
inductive Followed : List (List α) → Prop
  | nil : Followed []
  | single (x : α) {ps : List (List α)} (h : Followed ps) : Followed ([x] :: ps)
  | pair (x y z : α) {ps : List (List α)} (h : Followed ps) : Followed ([x, y] :: [z] :: ps)

section Followed

variable {ps qs : List (List α)} {r s : ℕ} {x y z : α}

theorem Followed.singles_append (xs : List α) (h : Followed ps) : Followed (singles xs ++ ps) := by
  induction xs with
  | nil => exact h
  | cons x xs ih => exact ih.single x

theorem followed_singles (xs : List α) : Followed (singles xs) := by
  have h := Followed.nil.singles_append xs
  rwa [List.append_nil] at h

theorem Followed.append (hp : Followed ps) (hq : Followed qs) : Followed (ps ++ qs) := by
  induction hp with
  | nil => exact hq
  | single x _ ih => exact ih.single x
  | pair x y z _ ih => exact ih.pair x y z

/-- No room, nothing written. -/
theorem Followed.fill_zero (h : Followed ps) : fill 0 ps = [] := by
  induction h with
  | nil => rfl
  | single x _ ih => rwa [fill_cons_of_lt (Nat.lt_succ_self 0)]
  | pair x y z _ ih =>
      rwa [fill_cons_of_lt (show 0 < 2 by decide), fill_cons_of_lt (Nat.lt_succ_self 0)]

theorem fill_succ_pair (r : ℕ) (ps : List (List α)) :
    fill (r + 2) ([x, y] :: ps) = x :: y :: fill r ps :=
  fill_cons_of_le (Nat.le_add_left 2 r)

theorem fill_one_pair (ps : List (List α)) : fill 1 ([x, y] :: [z] :: ps) = z :: fill 0 ps :=
  fill_cons_of_lt (Nat.lt_succ_self 1)

/-- Whatever is skipped, the room is used up before anything is left out. -/
theorem Followed.length_fill (h : Followed ps) (r : ℕ) :
    (fill r ps).length = min r ps.flatten.length := by
  induction h generalizing r with
  | nil => exact (Nat.min_zero r).symm
  | @single x ps h ih =>
      cases r with
      | zero => rw [(h.single x).fill_zero, Nat.zero_min, List.length_nil]
      | succ r =>
          rw [fill_succ_single, List.length_cons, ih, List.flatten_cons, List.length_append,
            List.length_singleton]
          omega
  | @pair x y z ps h ih =>
      rcases r with - | - | r
      · rw [(h.pair x y z).fill_zero, Nat.zero_min, List.length_nil]
      · rw [fill_one_pair, h.fill_zero, List.flatten_cons, List.length_append]
        show 1 = min 1 (2 + _)
        omega
      · rw [fill_succ_pair, List.flatten_cons, List.length_append, List.length_cons,
          List.length_cons]
        show _ = min (r + 2) (2 + _)
        rcases r with - | r
        · rw [(h.single z).fill_zero, List.length_nil]
          omega
        · rw [fill_succ_single, List.length_cons, ih, List.flatten_cons, List.length_append,
            List.length_singleton]
          omega

/-- The cut at `r` does not split a pair, or splits it where it cannot be seen. -/
def CleanCut (r : ℕ) (ps : List (List α)) : Prop :=
  ∀ pre x y z post, ps = pre ++ [x, y] :: [z] :: post → pre.flatten.length + 1 = r → z = x

theorem cleanCut_zero (ps : List (List α)) : CleanCut 0 ps :=
  fun _ _ _ _ _ _ h => absurd h (Nat.succ_ne_zero _)

theorem cleanCut_nil (r : ℕ) : CleanCut r ([] : List (List α)) := by
  intro pre x y z post heq
  simp at heq

theorem cleanCut_succ_single : CleanCut (r + 1) ([x] :: ps) ↔ CleanCut r ps := by
  constructor
  · intro h pre a b c post heq hlen
    refine h ([x] :: pre) a b c post (by rw [heq, List.cons_append]) ?_
    rw [List.flatten_cons, List.length_append, List.length_singleton]
    omega
  · intro h pre a b c post heq hlen
    rcases pre with - | ⟨p, pre⟩
    · simp at heq
    · rw [List.cons_append, List.cons.injEq] at heq
      obtain ⟨rfl, heq⟩ := heq
      rw [List.flatten_cons, List.length_append, List.length_singleton] at hlen
      exact h pre a b c post heq (by omega)

theorem cleanCut_succ_pair : CleanCut (r + 2) ([x, y] :: ps) ↔ CleanCut r ps := by
  constructor
  · intro h pre a b c post heq hlen
    refine h ([x, y] :: pre) a b c post (by rw [heq, List.cons_append]) ?_
    rw [List.flatten_cons, List.length_append]
    show 2 + _ + 1 = r + 2
    omega
  · intro h pre a b c post heq hlen
    rcases pre with - | ⟨p, pre⟩
    · rw [List.flatten_nil, List.length_nil] at hlen
      omega
    · rw [List.cons_append, List.cons.injEq] at heq
      obtain ⟨rfl, heq⟩ := heq
      rw [List.flatten_cons, List.length_append] at hlen
      exact h pre a b c post heq (by change 2 + _ + 1 = r + 2 at hlen; omega)

theorem cleanCut_one_pair : CleanCut 1 ([x, y] :: [z] :: ps) ↔ z = x := by
  constructor
  · intro h
    exact h [] x y z ps rfl rfl
  · rintro rfl pre a b c post heq hlen
    rcases pre with - | ⟨p, pre⟩
    · simp only [List.nil_append, List.cons.injEq, and_true] at heq
      obtain ⟨⟨rfl, -⟩, rfl, -⟩ := heq
      rfl
    · rw [List.cons_append, List.cons.injEq] at heq
      rw [← heq.1, List.flatten_cons, List.length_append] at hlen
      change 2 + _ + 1 = 1 at hlen
      omega

/-- **When less room only cuts.** -/
theorem fill_prefix_iff (h : Followed ps) (hrs : r ≤ s) :
    fill r ps <+: fill s ps ↔ r = s ∨ CleanCut r ps := by
  induction h generalizing r s with
  | nil => exact iff_of_true (List.prefix_refl _) (Or.inr (cleanCut_nil r))
  | @single x ps h ih =>
      rcases r with - | r
      · rw [(h.single x).fill_zero]
        exact iff_of_true (List.nil_prefix) (Or.inr (cleanCut_zero _))
      · obtain ⟨s, rfl⟩ : ∃ s', s = s' + 1 := ⟨s - 1, by omega⟩
        rw [fill_succ_single, fill_succ_single, List.prefix_cons_inj, ih (by omega),
          cleanCut_succ_single, Nat.add_right_cancel_iff]
  | @pair x y z ps h ih =>
      rcases r with - | - | r
      · rw [(h.pair x y z).fill_zero]
        exact iff_of_true (List.nil_prefix) (Or.inr (cleanCut_zero _))
      · rw [cleanCut_one_pair]
        rcases Nat.lt_or_ge 1 s with hs | hs
        · -- the larger buffer takes the pair, the smaller one only what is behind it
          obtain ⟨s, rfl⟩ : ∃ s', s = s' + 2 := ⟨s - 2, by omega⟩
          rw [fill_one_pair, h.fill_zero, fill_succ_pair, List.cons_prefix_cons]
          exact ⟨fun hp => Or.inr hp.1, fun hp => ⟨hp.resolve_left (by omega), List.nil_prefix⟩⟩
        · obtain rfl : s = 1 := by omega
          exact iff_of_true (List.prefix_refl _) (Or.inl rfl)
      · obtain ⟨s, rfl⟩ : ∃ s', s = s' + 2 := ⟨s - 2, by omega⟩
        rw [fill_succ_pair, fill_succ_pair, List.prefix_cons_inj, List.prefix_cons_inj,
          cleanCut_succ_pair]
        rcases r with - | r
        · rw [(h.single z).fill_zero]
          exact iff_of_true (List.nil_prefix) (Or.inr (cleanCut_zero _))
        · obtain ⟨s, rfl⟩ : ∃ s', s = s' + 1 := ⟨s - 1, by omega⟩
          rw [fill_succ_single, fill_succ_single, List.prefix_cons_inj, ih (by omega),
            cleanCut_succ_single]
          exact or_congr_left (by omega)

end Followed

/-! ## §4  Writing behind what is there -/

/-- The pieces written to a buffer of `size` behind the characters `str`. -/
def emit (size : ℕ) (ps : List (List α)) (str : List α) : List α :=
  str ++ fill (size - str.length) ps

section Emit

variable {size : ℕ} {ps qs : List (List α)} {str xs : List α} {x : α}

@[simp] theorem emit_nil (str : List α) : emit size [] str = str := List.append_nil str

theorem emit_append : emit size (ps ++ qs) str = emit size qs (emit size ps str) := by
  unfold emit
  rw [fill_append, List.append_assoc, List.length_append, Nat.sub_sub]

theorem emit_single_of_lt (h : str.length < size) : emit size [[x]] str = str ++ [x] := by
  unfold emit
  rw [fill_of_length_le (by show 1 ≤ _; omega)]
  rfl

theorem emit_of_full (hps : Followed ps) (h : size ≤ str.length) : emit size ps str = str := by
  unfold emit
  rw [Nat.sub_eq_zero_of_le h, hps.fill_zero, List.append_nil]

theorem emit_singles : emit size (singles xs) str = str ++ xs.take (size - str.length) := by
  unfold emit
  rw [fill_singles]

theorem length_emit (hps : Followed ps) (h : str.length ≤ size) :
    (emit size ps str).length = min (str.length + ps.flatten.length) size := by
  unfold emit
  rw [List.length_append, hps.length_fill]
  omega

end Emit

end Knos.Pieces
