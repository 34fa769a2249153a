import Mathlib.Data.BitVec
import Mathlib.Data.List.Basic
import Mathlib.Tactic.Ring

/-!
# Stores of bytes

A store is a total function from addresses to values; a disk, a file or a memory is
one together with a bound of its own. `poke` replaces a range, `peek` reads one, and
everything is settled by where an address lies: inside the range that was written or
outside it.

Numbers are kept in a store least significant byte first (`leBytes`, `leNat`).
-/

namespace Knos.Bytes

abbrev Byte : Type := BitVec 8

abbrev Store (α : Type) : Type := ℕ → α

section Store

variable {α : Type}

/-! ## §1  Writing and reading a range -/

/-- The values `data` from address `base` on, the rest as in `s`. -/
def poke (s : Store α) (base : ℕ) (data : List α) : Store α := fun a =>
  if base ≤ a then (data[a - base]?).getD (s a) else s a

/-- The `n` values from address `base` on. -/
def peek (s : Store α) (base n : ℕ) : List α := (List.range n).map fun i => s (base + i)

section Poke

variable (s : Store α) {base a : ℕ} {data : List α}

theorem poke_inside {i : ℕ} {x : α} (h : data[i]? = some x) : poke s base data (base + i) = x := by
  unfold poke
  rw [if_pos (Nat.le_add_right base i), Nat.add_sub_cancel_left, h]
  rfl

theorem poke_outside (h : a < base ∨ base + data.length ≤ a) : poke s base data a = s a := by
  unfold poke
  rcases h with h | h
  · rw [if_neg (Nat.not_le.mpr h)]
  · rw [if_pos (by omega), List.getElem?_eq_none (by omega)]
    rfl

/-- An address only depends on what was there. -/
theorem poke_congr {t : Store α} (h : s a = t a) : poke s base data a = poke t base data a := by
  unfold poke
  rw [h]

@[simp] theorem poke_nil : poke s base [] = s := by
  funext a
  apply poke_outside
  show a < base ∨ base + 0 ≤ a
  omega

/-- An address of the range, as an offset into it. -/
theorem poke_eq (h₁ : base ≤ a) (h₂ : a < base + data.length) :
    ∃ x, data[a - base]? = some x ∧ poke s base data a = x := by
  have hlt : a - base < data.length := by omega
  refine ⟨data[a - base], List.getElem?_eq_getElem hlt, ?_⟩
  have hinside := @poke_inside _ s base _ _ _ (List.getElem?_eq_getElem hlt)
  rwa [Nat.add_sub_cancel' h₁] at hinside

/-- Two ranges in a row. -/
theorem poke_append (xs ys : List α) :
    poke s base (xs ++ ys) = poke (poke s base xs) (base + xs.length) ys := by
  funext a
  rcases Nat.lt_or_ge a (base + xs.length) with h | h
  · rw [poke_outside _ (Or.inl h)]
    rcases Nat.lt_or_ge a base with hb | hb
    · rw [poke_outside s (Or.inl hb), poke_outside s (Or.inl hb)]
    · unfold poke
      rw [if_pos hb, if_pos hb, List.getElem?_append_left (by omega)]
  · have hb : base ≤ a := by omega
    unfold poke
    rw [if_pos hb, if_pos h, if_pos hb, List.getElem?_append_right (by omega),
      List.getElem?_eq_none (show xs.length ≤ a - base by omega),
      show a - (base + xs.length) = a - base - xs.length by omega]
    rfl

/-- Ranges apart from each other are written in any order. -/
theorem poke_comm {base' : ℕ} {data' : List α}
    (h : base + data.length ≤ base' ∨ base' + data'.length ≤ base) :
    poke (poke s base data) base' data' = poke (poke s base' data') base data := by
  funext a
  by_cases hin : base ≤ a ∧ a < base + data.length
  · rw [poke_outside _ (show a < base' ∨ base' + data'.length ≤ a by omega)]
    exact poke_congr s (poke_outside s (by omega)).symm
  · rw [poke_outside (poke s base' data') (show a < base ∨ base + data.length ≤ a by omega)]
    exact poke_congr _ (poke_outside s (by omega))

end Poke

section Peek

variable {s t : Store α} {base n : ℕ}

@[simp] theorem length_peek : (peek s base n).length = n := by simp [peek]

theorem getElem?_peek {i : ℕ} (h : i < n) : (peek s base n)[i]? = some (s (base + i)) := by
  simp [peek, List.getElem?_map, List.getElem?_range h]

theorem peek_congr (h : ∀ a, base ≤ a → a < base + n → s a = t a) :
    peek s base n = peek t base n := by
  apply List.map_congr_left
  intro i hi
  have := List.mem_range.mp hi
  exact h (base + i) (by omega) (by omega)

theorem peek_eq_iff {data : List α} (hlen : data.length = n) :
    peek s base n = data ↔ ∀ i (x : α), data[i]? = some x → s (base + i) = x := by
  constructor
  · rintro rfl i x hx
    obtain ⟨hlt, -⟩ := List.getElem?_eq_some_iff.mp hx
    rw [length_peek] at hlt
    rw [getElem?_peek hlt] at hx
    exact Option.some.inj hx
  · intro h
    apply List.ext_getElem?
    intro i
    rcases Nat.lt_or_ge i n with hi | hi
    · have hx := List.getElem?_eq_getElem (hlen.symm ▸ hi : i < data.length)
      rw [getElem?_peek hi, hx, h i _ hx]
    · rw [List.getElem?_eq_none (by rw [length_peek]; exact hi),
        List.getElem?_eq_none (by omega)]

/-- What was written is read. -/
theorem peek_poke_self (s : Store α) (data : List α) :
    peek (poke s base data) base data.length = data :=
  (peek_eq_iff rfl).mpr fun _ _ hx => poke_inside s hx

/-- A range written elsewhere does not matter. -/
theorem peek_poke_of_disjoint {base' : ℕ} {data : List α}
    (h : base + n ≤ base' ∨ base' + data.length ≤ base) :
    peek (poke s base' data) base n = peek s base n :=
  peek_congr fun a _ _ => poke_outside s (by omega)

theorem peek_add (m : ℕ) : peek s base (n + m) = peek s base n ++ peek s (base + n) m := by
  unfold peek
  rw [List.range_add, List.map_append, List.map_map]
  congr 1
  apply List.map_congr_left
  intro i _
  show s (base + (n + i)) = s (base + n + i)
  rw [Nat.add_assoc]

/-- To write what is there changes nothing. -/
theorem poke_peek (s : Store α) (base n : ℕ) : poke s base (peek s base n) = s := by
  funext a
  by_cases hin : base ≤ a ∧ a < base + n
  · obtain ⟨i, rfl⟩ := Nat.exists_eq_add_of_le hin.1
    exact poke_inside s (getElem?_peek (by omega))
  · exact poke_outside s (by rw [length_peek]; omega)

@[simp] theorem peek_zero (s : Store α) (base : ℕ) : peek s base 0 = [] := rfl

theorem peek_succ (s : Store α) (base n : ℕ) :
    peek s base (n + 1) = s base :: peek s (base + 1) n := by
  rw [Nat.add_comm n 1, peek_add]
  rfl

theorem take_peek {m : ℕ} (h : m ≤ n) : (peek s base n).take m = peek s base m := by
  obtain ⟨k, rfl⟩ := Nat.exists_eq_add_of_le h
  rw [peek_add, List.take_left' length_peek]

theorem drop_peek {m : ℕ} (h : m ≤ n) : (peek s base n).drop m = peek s (base + m) (n - m) := by
  obtain ⟨k, rfl⟩ := Nat.exists_eq_add_of_le h
  rw [peek_add, List.drop_left' length_peek, Nat.add_sub_cancel_left]

/-- A part of a range that was copied from another store. -/
theorem peek_poke_peek (s t : Store α) (base base' : ℕ) {k m : ℕ} (h : k + m ≤ n) :
    peek (poke s base (peek t base' n)) (base + k) m = peek t (base' + k) m := by
  rw [peek_eq_iff length_peek]
  intro i x hx
  obtain ⟨hi, -⟩ := List.getElem?_eq_some_iff.mp hx
  rw [length_peek] at hi
  rw [getElem?_peek hi, Nat.add_assoc] at hx
  rw [Nat.add_assoc]
  refine poke_inside s ?_
  rw [getElem?_peek (by omega)]
  exact hx

/-- Blocks of one length laid out in a row: each is read at its place. -/
theorem peek_poke_flatten (s : Store α) (base : ℕ) {blocks : List (List α)}
    (hlen : ∀ b ∈ blocks, b.length = n) (i : ℕ) :
    peek (poke s base blocks.flatten) (base + n * i) n =
      (blocks[i]?).getD (peek s (base + n * i) n) := by
  induction blocks generalizing s base i with
  | nil => rw [List.flatten_nil, poke_nil]; rfl
  | cons b blocks ih =>
      have hb := hlen b List.mem_cons_self
      rw [List.flatten_cons, poke_append, hb]
      have hrec := ih (poke s base b) (base + n) fun b hb => hlen b (List.mem_cons_of_mem _ hb)
      cases i with
      | zero =>
          rw [peek_poke_of_disjoint (by omega), Nat.mul_zero, Nat.add_zero, ← hb, peek_poke_self]
          rfl
      | succ i =>
          rw [show base + n * (i + 1) = base + n + n * i by ring, hrec i,
            peek_poke_of_disjoint (by rw [hb]; omega), List.getElem?_cons_succ]

theorem length_flatten {blocks : List (List α)} (hlen : ∀ b ∈ blocks, b.length = n) :
    blocks.flatten.length = n * blocks.length := by
  induction blocks with
  | nil => rfl
  | cons b blocks ih =>
      rw [List.flatten_cons, List.length_append, hlen b List.mem_cons_self,
        ih fun b hb => hlen b (List.mem_cons_of_mem _ hb), List.length_cons]
      ring

end Peek

end Store

/-! ## §2  Numbers, least significant byte first -/

/-- The `n` lowest bytes of `k`. -/
def leBytes : ℕ → ℕ → List Byte
  | 0, _ => []
  | n + 1, k => BitVec.ofNat 8 k :: leBytes n (k / 256)

def leNat : List Byte → ℕ
  | [] => 0
  | b :: bs => b.toNat + 256 * leNat bs

@[simp] theorem length_leBytes (n k : ℕ) : (leBytes n k).length = n := by
  induction n generalizing k with
  | zero => rfl
  | succ n ih => exact congrArg Nat.succ (ih (k / 256))

theorem leNat_leBytes (n k : ℕ) : leNat (leBytes n k) = k % 256 ^ n := by
  induction n generalizing k with
  | zero => rw [Nat.pow_zero, Nat.mod_one]; rfl
  | succ n ih =>
      show (BitVec.ofNat 8 k).toNat + 256 * leNat (leBytes n (k / 256)) = _
      rw [ih, BitVec.toNat_ofNat, Nat.pow_succ 256, Nat.mul_comm (256 ^ n) 256, Nat.mod_mul]

/-- A number that fits is read back. -/
theorem leNat_leBytes_of_lt {n k : ℕ} (h : k < 256 ^ n) : leNat (leBytes n k) = k := by
  rw [leNat_leBytes, Nat.mod_eq_of_lt h]

theorem leNat_append (xs ys : List Byte) :
    leNat (xs ++ ys) = leNat xs + 256 ^ xs.length * leNat ys := by
  induction xs with
  | nil => simp [leNat]
  | cons x xs ih =>
      rw [List.cons_append, leNat, leNat, ih, List.length_cons, Nat.pow_succ]
      ring

theorem leNat_lt (bs : List Byte) : leNat bs < 256 ^ bs.length := by
  induction bs with
  | nil => exact Nat.one_pos
  | cons x bs ih =>
      have hx : x.toNat < 256 := x.isLt
      rw [leNat, List.length_cons, Nat.pow_succ]
      omega

/-! ## §3  Parts of a number -/

/-- The `len` bits of a number from bit `i` on. -/
def bits (n i len : ℕ) : ℕ := n / 2 ^ i % 2 ^ len

section Bits

variable {n p q i len w : ℕ}

theorem bits_low (h : i + len ≤ w) : bits (p + 2 ^ w * q) i len = bits p i len := by
  obtain ⟨k, rfl⟩ := Nat.exists_eq_add_of_le h
  unfold bits
  rw [Nat.pow_add, Nat.pow_add, Nat.mul_assoc, Nat.mul_assoc,
    Nat.add_mul_div_left _ _ (Nat.two_pow_pos i), Nat.add_mul_mod_self_left]

theorem bits_high (hp : p < 2 ^ w) (h : w ≤ i) :
    bits (p + 2 ^ w * q) i len = bits q (i - w) len := by
  obtain ⟨k, rfl⟩ := Nat.exists_eq_add_of_le h
  unfold bits
  rw [Nat.pow_add, ← Nat.div_div_eq_div_mul, Nat.add_mul_div_left _ _ (Nat.two_pow_pos w),
    Nat.div_eq_of_lt hp, Nat.zero_add, Nat.add_sub_cancel_left]

theorem bits_zero (h : n < 2 ^ len) : bits n 0 len = n := by
  unfold bits
  rw [Nat.pow_zero, Nat.div_one, Nat.mod_eq_of_lt h]

theorem testBit_eq_bits (n i : ℕ) : n.testBit i = decide (bits n i 1 = 1) :=
  Nat.testBit_eq_decide_div_mod_eq

end Bits

end Knos.Bytes
