import Knos.Memory.Tables
import Knos.Paging.KernelMap

/-!
# The end of `init_memory`

The kernel clears the first ten entries of the table in CR3, through the direct map that this
table establishes. The entries that the stores are translated by lie in the other half of the
table, so no store can fault, and afterwards exactly the lower half of the address space is
gone (`clear_unmaps_lower_half`).
-/

namespace Knos.Paging

open Knos.Bytes Knos.PageTables
open Knos.Memory (physToVirtBase physToVirt)

/-- The loop over the first entries, from the one with number `i` on: so many are left. -/
def clearEntries (globalCr3 : ℕ) : ℕ → ℕ → Store Byte → Option (Store Byte)
  | 0, _, ram => some ram
  | n + 1, i, ram => do
      let ram ← storeBytes globalCr3 (physToVirt globalCr3 + 8 * i) (leBytes 8 0) ram
      clearEntries globalCr3 n (i + 1) ram

/-- What `init_memory` does with `Global_CR3`, which `Get_gdt` has read. -/
def clearPml4 (globalCr3 : ℕ) (ram : Store Byte) : Option (Store Byte) :=
  clearEntries globalCr3 10 0 ram

section Clear

variable {ram ram' : Store Byte} {va : ℕ}

/-- The first entries of the table, with some of them empty. -/
def cleared (ram : Store Byte) (i n : ℕ) : Store Byte :=
  setEntries ram ((List.range' i n).map fun i => (0x101000 + 8 * i, 0))

theorem physToVirt_headCr3 : physToVirt headCr3 = physToVirtBase + 0x101000 := by decide

theorem entry_window {i : ℕ} (hi : i < 256) :
    Window HigherHalf headCr3 (physToVirtBase + (0x101000 + 8 * i)) (0x101000 + 8 * i) 8 := by
  apply higherHalf_window
  · omega
  · intro k hk
    unfold physicalOf
    rw [if_pos (by omega)]
  · omega

theorem clearEntries_eq (h : HigherHalf ram) {n i : ℕ} (hi : i + n ≤ 256) :
    clearEntries headCr3 n i ram = some (cleared ram i n) ∧ HigherHalf (cleared ram i n) := by
  induction n generalizing i ram with
  | zero => exact ⟨rfl, h⟩
  | succ n ih =>
      have hwindow : Window HigherHalf headCr3 _ _ (leBytes 8 0).length :=
        entry_window (show i < 256 by omega)
      obtain ⟨hstore, htables⟩ := hwindow.storeBytes_eq h
      have hva : physToVirt headCr3 + 8 * i = physToVirtBase + (0x101000 + 8 * i) := by
        rw [physToVirt_headCr3, Nat.add_assoc]
      rw [clearEntries, hva, hstore]
      exact ih htables (by omega)

theorem entryAt_cleared {i n k : ℕ} (hk : i ≤ k ∧ k < i + n) :
    entryAt (cleared ram i n) (0x101000 + 8 * k) = 0 := by
  refine entryAt_setEntries ?_ (by decide) fun p hp => ?_
  · exact List.mem_map.mpr ⟨k, List.mem_range'_1.mpr hk, rfl⟩
  · obtain ⟨j, -, rfl⟩ := List.mem_map.mp hp
    rcases Nat.lt_trichotomy j k with hlt | rfl | hlt
    · exact Or.inr (Or.inr (by omega))
    · exact Or.inl rfl
    · exact Or.inr (Or.inl (by omega))

theorem entryAt_cleared_of_ge {i n k : ℕ} (hk : i + n ≤ k) :
    entryAt (cleared ram i n) (0x101000 + 8 * k) = entryAt ram (0x101000 + 8 * k) := by
  refine entryAt_setEntries_of_apart fun p hp => ?_
  obtain ⟨j, hj, rfl⟩ := List.mem_map.mp hp
  have hj := List.mem_range'_1.mp hj
  exact Or.inr (by omega)

theorem cleared_outside {i n a : ℕ} (ha : a < 0x101000 + 8 * i ∨ 0x101000 + 8 * (i + n) ≤ a) :
    cleared ram i n a = ram a := by
  refine setEntries_outside fun p hp => ?_
  obtain ⟨j, hj, rfl⟩ := List.mem_map.mp hp
  have hj := List.mem_range'_1.mp hj
  show a < 0x101000 + 8 * j ∨ 0x101000 + 8 * j + 8 ≤ a
  omega

/-- Without entries the lower half is not there. -/
theorem lower_absent (hentry : ∀ i < 256, entryAt ram (0x101000 + 8 * i) = 0) (hlow : va < 2 ^ 47) :
    translate ram headCr3 va = none := by
  have hcanon : Canonical va := Or.inl hlow
  have hindex : index 3 va < 256 := by
    rw [index_three]
    omega
  unfold PageTables.translate
  rw [if_pos hcanon, frame_headCr3]
  exact walk_absent (hentry _ hindex) (by decide)

/-- **The lower half is unmapped.** None of the ten stores faults, although the table that
they change is the one that translates them. Nothing but these entries changes in memory,
every address below the gap is a page fault afterwards, and every address above leads where
it did. -/
theorem clear_unmaps_lower_half (h : KernelTables ram) :
    ∃ ram', clearPml4 headCr3 ram = some ram' ∧
      (∀ a, a < 0x101000 ∨ 0x101050 ≤ a → ram' a = ram a) ∧
      ∀ va, va < 2 ^ 64 → translate ram' headCr3 va =
        if va < 2 ^ 47 then none else translate ram headCr3 va := by
  obtain ⟨hclear, htables⟩ := clearEntries_eq h.higherHalf (show 0 + 10 ≤ 256 by decide)
  refine ⟨cleared ram 0 10, hclear, fun a ha => cleared_outside ha, fun va hva => ?_⟩
  by_cases hlow : va < 2 ^ 47
  · rw [if_pos hlow]
    refine lower_absent (fun i hi => ?_) hlow
    rcases Nat.lt_or_ge i 10 with hten | hten
    · exact entryAt_cleared ⟨Nat.zero_le i, Nat.lt_of_lt_of_eq hten (Nat.zero_add 10).symm⟩
    · rw [entryAt_cleared_of_ge (by omega), h.entryAt_pml4e (Nat.lt_trans hi (by decide)),
        if_neg (by omega)]
  · rw [if_neg hlow]
    by_cases hhigh : physToVirtBase ≤ va
    · rw [higher_map htables hhigh hva, higher_map h.higherHalf hhigh hva]
    · have hnot : ¬ Canonical va := by
        rintro (hcanon | ⟨hcanon, -⟩)
        · exact hlow hcanon
        · exact hhigh hcanon
      rw [translate_of_not_canonical hnot, translate_of_not_canonical hnot]

theorem clear_unmaps_tablesOnly : ∃ ram', clearPml4 headCr3 tablesOnly = some ram' ∧
    (∀ a, a < 0x101000 ∨ 0x101050 ≤ a → ram' a = tablesOnly a) ∧
    ∀ va, va < 2 ^ 64 → translate ram' headCr3 va =
      if va < 2 ^ 47 then none else translate tablesOnly headCr3 va :=
  clear_unmaps_lower_half kernelTables_tablesOnly

end Clear

end Knos.Paging
