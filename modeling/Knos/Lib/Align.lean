import Mathlib.Data.Nat.Bitwise
import Mathlib.Tactic.Ring

/-!
# Rounding addresses to blocks

Masking with `~(2^k - 1)` rounds down to a multiple of `2^k`. A block `p` of size
`B` is the interval `[p * B, (p + 1) * B)`; the blocks that lie wholly inside an
interval of addresses are those from its start rounded up to its end rounded down.
-/

namespace Knos.Align

/-- `x & ~(2^k - 1)` on a `w`-bit machine is `x` rounded down. -/
theorem and_mask {x k w : ℕ} (hx : x < 2 ^ w) (hk : k ≤ w) :
    x &&& (2 ^ w - 2 ^ k) = x / 2 ^ k * 2 ^ k := by
  apply Nat.eq_of_testBit_eq
  intro i
  have hpow : 2 ^ w - 2 ^ k = (2 ^ (w - k) - 1) * 2 ^ k := by
    rw [Nat.sub_mul, ← Nat.pow_add, Nat.sub_add_cancel hk, Nat.one_mul]
  rw [hpow, Nat.testBit_and, Nat.testBit_mul_two_pow, Nat.testBit_mul_two_pow,
    Nat.testBit_two_pow_sub_one, Nat.testBit_div_two_pow]
  by_cases hik : k ≤ i
  · by_cases hiw : i < w
    · have h₁ : i - k < w - k := by omega
      have h₂ : i - k + k = i := by omega
      simp [hik, h₁, h₂]
    · have hbit : x.testBit i = false :=
        Nat.testBit_eq_false_of_lt
          (Nat.lt_of_lt_of_le hx (Nat.pow_le_pow_right (by omega) (by omega)))
      have h₂ : i - k + k = i := by omega
      simp [hbit, h₂]
  · simp [hik]

/-- `x` rounded up to a multiple of `2^k`. -/
def roundUp (k x : ℕ) : ℕ := (x + 2 ^ k - 1) / 2 ^ k * 2 ^ k

theorem roundUp_add_mul (k x m : ℕ) : roundUp k (x + m * 2 ^ k) = roundUp k x + m * 2 ^ k := by
  have hpos : 0 < 2 ^ k := Nat.two_pow_pos k
  unfold roundUp
  rw [show x + m * 2 ^ k + 2 ^ k - 1 = x + 2 ^ k - 1 + m * 2 ^ k from by omega,
    Nat.add_mul_div_right _ _ hpos, Nat.add_mul]

theorem roundUp_zero (k : ℕ) : roundUp k 0 = 0 := by
  have hpos : 0 < 2 ^ k := Nat.two_pow_pos k
  unfold roundUp
  rw [Nat.div_eq_of_lt (by omega), Nat.zero_mul]

theorem dvd_roundUp (k x : ℕ) : 2 ^ k ∣ roundUp k x := Nat.dvd_mul_left _ _

/-- A multiple of `2^k` is left alone. -/
theorem roundUp_mul (k m : ℕ) : roundUp k (m * 2 ^ k) = m * 2 ^ k := by
  have h := roundUp_add_mul k 0 m
  rwa [Nat.zero_add, roundUp_zero, Nat.zero_add] at h

/-- Rounding down commutes with wrapping around. -/
theorem floor_mod {k w : ℕ} (hk : k ≤ w) (y : ℕ) :
    y % 2 ^ w / 2 ^ k * 2 ^ k = y / 2 ^ k * 2 ^ k % 2 ^ w := by
  have hpow : 2 ^ w = 2 ^ k * 2 ^ (w - k) := by
    rw [← Nat.pow_add, Nat.add_sub_cancel' hk]
  rw [hpow, Nat.mod_mul_right_div_self, Nat.mul_comm (2 ^ k) (2 ^ (w - k)), Nat.mul_mod_mul_right]

/-- `(x + 2^k - 1) & ~(2^k - 1)` on a `w`-bit machine. -/
theorem and_mask_roundUp {k w : ℕ} (hk : k ≤ w) (x : ℕ) :
    (x + 2 ^ k - 1) % 2 ^ w &&& (2 ^ w - 2 ^ k) = roundUp k x % 2 ^ w := by
  rw [and_mask (Nat.mod_lt _ (Nat.two_pow_pos w)) hk, floor_mod hk]
  rfl

/-- Rounding up commutes with wrapping around. -/
theorem roundUp_mod {k w : ℕ} (hk : k ≤ w) (y c : ℕ) :
    roundUp k (y % 2 ^ w + c) % 2 ^ w = roundUp k (y + c) % 2 ^ w := by
  have hpow : y / 2 ^ w * 2 ^ w = y / 2 ^ w * 2 ^ (w - k) * 2 ^ k := by
    rw [Nat.mul_assoc, ← Nat.pow_add, Nat.sub_add_cancel hk]
  have hsplit : y + c = y % 2 ^ w + c + y / 2 ^ w * 2 ^ (w - k) * 2 ^ k := by
    rw [← hpow]
    have := Nat.mod_add_div y (2 ^ w)
    rw [Nat.mul_comm] at this
    omega
  rw [hsplit, roundUp_add_mul, ← hpow, Nat.add_mul_mod_self_right]

/-- A block starts at or after `a` iff it is not before `a` rounded up. -/
theorem ceil_le_iff {a p B : ℕ} (hB : 0 < B) : (a + B - 1) / B ≤ p ↔ a ≤ p * B := by
  rw [← Nat.lt_succ_iff, Nat.div_lt_iff_lt_mul hB, Nat.succ_mul]
  omega

/-- A block ends at or before `e` iff it is before `e` rounded down. -/
theorem lt_floor_iff {e p B : ℕ} (hB : 0 < B) : p < e / B ↔ (p + 1) * B ≤ e := by
  rw [← Nat.succ_le_iff, Nat.le_div_iff_mul_le hB]

end Knos.Align
