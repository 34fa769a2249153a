import Knos.Lib.Bytes

/-!
# Blocks written one after the other

A list of blocks, each with the address it is written to. A block that the others are apart
from is read back (`peek_pokes_of_mem`), and a range that all are apart from is as it was
(`peek_pokes_of_apart`).
-/

namespace Knos.Bytes

variable {α : Type}

/-- An address and what is written from there on. -/
abbrev Block (α : Type) : Type := ℕ × List α

/-- The blocks, in this order. -/
def pokes (s : Store α) (blocks : List (Block α)) : Store α :=
  blocks.foldl (fun s b => poke s b.1 b.2) s

/-- The block at an offset from another address. -/
def Block.shift (base : ℕ) (b : Block α) : Block α := (base + b.1, b.2)

/-- The ranges of two blocks have no address in common. -/
def Block.Apart (b c : Block α) : Prop := b.1 + b.2.length ≤ c.1 ∨ c.1 + c.2.length ≤ b.1

section Pokes

variable {s : Store α} {blocks : List (Block α)} {a base n : ℕ} {data : List α}

@[simp] theorem pokes_nil (s : Store α) : pokes s [] = s := rfl

@[simp] theorem pokes_cons (s : Store α) (b : Block α) (blocks : List (Block α)) :
    pokes s (b :: blocks) = pokes (poke s b.1 b.2) blocks := rfl

theorem pokes_append (s : Store α) (blocks blocks' : List (Block α)) :
    pokes s (blocks ++ blocks') = pokes (pokes s blocks) blocks' := List.foldl_append

theorem pokes_outside (h : ∀ b ∈ blocks, a < b.1 ∨ b.1 + b.2.length ≤ a) : pokes s blocks a = s a := by
  induction blocks generalizing s with
  | nil => rfl
  | cons b blocks ih =>
      rw [pokes_cons, ih fun c hc => h c (List.mem_cons_of_mem _ hc)]
      exact poke_outside s (h b List.mem_cons_self)

theorem peek_pokes_of_apart (h : ∀ b ∈ blocks, base + n ≤ b.1 ∨ b.1 + b.2.length ≤ base) :
    peek (pokes s blocks) base n = peek s base n := by
  refine peek_congr fun a ha hlt => pokes_outside fun b hb => ?_
  rcases h b hb with h | h
  · exact Or.inl (Nat.lt_of_lt_of_le hlt h)
  · exact Or.inr (Nat.le_trans h ha)

/-- **A block is read back**, when no other lies across it. -/
theorem peek_pokes_of_mem (hmem : (base, data) ∈ blocks)
    (h : ∀ b ∈ blocks, b = (base, data) ∨ Block.Apart (base, data) b) :
    peek (pokes s blocks) base data.length = data := by
  induction blocks generalizing s with
  | nil => cases hmem
  | cons b blocks ih =>
      have hrest : ∀ c ∈ blocks, c = (base, data) ∨ Block.Apart (base, data) c :=
        fun c hc => h c (List.mem_cons_of_mem _ hc)
      rw [pokes_cons]
      by_cases hlater : (base, data) ∈ blocks
      · exact ih hlater hrest
      · rcases List.mem_cons.mp hmem with rfl | hlater'
        · rw [peek_pokes_of_apart]
          · exact peek_poke_self s data
          · intro c hc
            rcases hrest c hc with rfl | hapart
            · exact absurd hc hlater
            · exact hapart
        · exact absurd hlater' hlater

theorem Block.Apart.shift {b c : Block α} (h : Block.Apart b c) (base : ℕ) :
    Block.Apart (b.shift base) (c.shift base) := by
  unfold Block.Apart Block.shift at *
  rw [Nat.add_assoc, Nat.add_assoc]
  exact h.imp (Nat.add_le_add_left · base) (Nat.add_le_add_left · base)

theorem shifted_outside (h : ∀ b ∈ blocks, b.1 + b.2.length ≤ n) (ha : a < base ∨ base + n ≤ a) :
    pokes s (blocks.map (Block.shift base)) a = s a := by
  refine pokes_outside fun b hb => ?_
  obtain ⟨c, hc, rfl⟩ := List.mem_map.mp hb
  have hle := h c hc
  show a < base + c.1 ∨ base + c.1 + c.2.length ≤ a
  omega

theorem peek_shifted_of_apart {offset : ℕ}
    (h : ∀ b ∈ blocks, offset + n ≤ b.1 ∨ b.1 + b.2.length ≤ offset) :
    peek (pokes s (blocks.map (Block.shift base))) (base + offset) n = peek s (base + offset) n := by
  refine peek_pokes_of_apart fun b hb => ?_
  obtain ⟨c, hc, rfl⟩ := List.mem_map.mp hb
  have hapart := h c hc
  show base + offset + n ≤ base + c.1 ∨ base + c.1 + c.2.length ≤ base + offset
  omega

theorem peek_shifted_of_mem {offset : ℕ} (hmem : (offset, data) ∈ blocks)
    (h : ∀ b ∈ blocks, b = (offset, data) ∨ Block.Apart (offset, data) b) :
    peek (pokes s (blocks.map (Block.shift base))) (base + offset) data.length = data := by
  have hmem' : (base + offset, data) ∈ blocks.map (Block.shift base) :=
    List.mem_map.mpr ⟨_, hmem, rfl⟩
  refine peek_pokes_of_mem hmem' fun b hb => ?_
  obtain ⟨c, hc, rfl⟩ := List.mem_map.mp hb
  rcases h c hc with rfl | hapart
  · exact Or.inl rfl
  · exact Or.inr (hapart.shift base)

end Pokes

/-! ## Blocks of one length in a row -/

section Rows

variable {n width : ℕ} {rows : ℕ → List α}

theorem getElem?_flatten {blocks : List (List α)} (hlen : ∀ b ∈ blocks, b.length = n) (hn : 0 < n)
    (j : ℕ) : blocks.flatten[j]? = (blocks[j / n]?).bind fun b => b[j % n]? := by
  induction blocks generalizing j with
  | nil => rfl
  | cons b blocks ih =>
      have hb := hlen b List.mem_cons_self
      rw [List.flatten_cons]
      rcases Nat.lt_or_ge j n with hlt | hge
      · rw [List.getElem?_append_left (by omega), Nat.div_eq_of_lt hlt, Nat.mod_eq_of_lt hlt]
        rfl
      · obtain ⟨k, rfl⟩ := Nat.exists_eq_add_of_le hge
        rw [List.getElem?_append_right (by omega), hb, Nat.add_sub_cancel_left,
          ih fun b hb => hlen b (List.mem_cons_of_mem _ hb), Nat.add_div_left k hn,
          Nat.add_mod_left, List.getElem?_cons_succ]

theorem length_rows (hlen : ∀ i, (rows i).length = width) :
    ((List.range n).flatMap rows).length = n * width := by
  rw [List.flatMap_def, length_flatten (n := width), List.length_map, List.length_range, Nat.mul_comm]
  intro row hrow
  obtain ⟨i, -, rfl⟩ := List.mem_map.mp hrow
  exact hlen i

/-- A place in one of the rows. -/
theorem getElem?_rows (hlen : ∀ i, (rows i).length = width) {i x : ℕ} (hi : i < n) (hx : x < width) :
    ((List.range n).flatMap rows)[i * width + x]? = (rows i)[x]? := by
  have hwidth : 0 < width := Nat.lt_of_le_of_lt (Nat.zero_le x) hx
  rw [List.flatMap_def, getElem?_flatten (n := width), Nat.add_comm, Nat.add_mul_div_right x i hwidth,
    Nat.div_eq_of_lt hx, Nat.zero_add, Nat.add_mul_mod_self_right, Nat.mod_eq_of_lt hx,
    List.getElem?_map, List.getElem?_range hi]
  · rfl
  · intro row hrow
    obtain ⟨i, -, rfl⟩ := List.mem_map.mp hrow
    exact hlen i
  · exact hwidth

end Rows

end Knos.Bytes
