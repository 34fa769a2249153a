import Mathlib.Data.List.Perm.Basic
import Mathlib.Data.Nat.Notation
import Mathlib.Logic.Relation
import Mathlib.Tactic.Cases

/-!
# A ledger of runs handed out from a stock

What an allocator of runs of units is for, whatever its tables look like: a run is
granted only if all its units are in the stock and none is held, and giving a run back
frees its units and no others. The two laws are fields of `Ledger`, so a ledger in
which two runs share a unit cannot be written down.
-/

namespace Knos.Grants

/-- `len` units from `start` on. -/
structure Run where
  start : ℕ
  len : ℕ
deriving DecidableEq, Repr

def Run.Has (r : Run) (q : ℕ) : Prop := r.start ≤ q ∧ q < r.start + r.len

instance (r : Run) (q : ℕ) : Decidable (r.Has q) := inferInstanceAs (Decidable (_ ∧ _))

/-- Two runs that share no unit. -/
def Apart (a b : Run) : Prop := ∀ q, ¬ (a.Has q ∧ b.Has q)

theorem Apart.symm {a b : Run} (h : Apart a b) : Apart b a := fun q hq => h q hq.symm

/-- Some run of the list has unit `q`. -/
def Held (runs : List Run) (q : ℕ) : Prop := ∃ r ∈ runs, r.Has q

theorem held_cons {r : Run} {runs : List Run} {q : ℕ} :
    Held (r :: runs) q ↔ r.Has q ∨ Held runs q := by
  unfold Held
  rw [List.exists_mem_cons_iff]

theorem not_held_nil (q : ℕ) : ¬ Held [] q := by
  rintro ⟨r, hr, -⟩
  exact absurd hr List.not_mem_nil

theorem held_singleton {r : Run} {q : ℕ} : Held [r] q ↔ r.Has q := by
  rw [held_cons, or_iff_left (not_held_nil q)]

structure Ledger (stock : ℕ → Prop) where
  runs : List Run
  apart : runs.Pairwise Apart
  inStock : ∀ q, Held runs q → stock q

namespace Ledger

variable {stock : ℕ → Prop}

def empty : Ledger stock where
  runs := []
  apart := List.Pairwise.nil
  inStock := fun q hq => absurd hq (not_held_nil q)

/-- Hand out a run of units in stock that nobody holds. -/
def grant (L : Ledger stock) (r : Run) (h : ∀ q, r.Has q → stock q ∧ ¬ Held L.runs q) :
    Ledger stock where
  runs := r :: L.runs
  apart := by
    refine List.pairwise_cons.mpr ⟨fun r' hr' q hq => ?_, L.apart⟩
    exact (h q hq.1).2 ⟨r', hr', hq.2⟩
  inStock := by
    intro q hq
    rcases held_cons.mp hq with hq | hq
    · exact (h q hq).1
    · exact L.inStock q hq

/-- Take a run back. -/
def giveBack (L : Ledger stock) (r : Run) : Ledger stock where
  runs := L.runs.erase r
  apart := L.apart.sublist List.erase_sublist
  inStock := by
    rintro q ⟨r', hr', hq⟩
    exact L.inStock q ⟨r', List.mem_of_mem_erase hr', hq⟩

/-- **Giving a run back frees its units and no others.** -/
theorem held_giveBack (L : Ledger stock) {r : Run} (hr : r ∈ L.runs) (q : ℕ) :
    Held (L.giveBack r).runs q ↔ Held L.runs q ∧ ¬ r.Has q := by
  have hperm := List.perm_cons_erase hr
  have hapart : (r :: L.runs.erase r).Pairwise Apart :=
    L.apart.perm hperm fun h => h.symm
  have hrest := (List.pairwise_cons.mp hapart).1
  constructor
  · rintro ⟨r', hr', hq⟩
    exact ⟨⟨r', List.mem_of_mem_erase hr', hq⟩, fun hrq => hrest r' hr' q ⟨hrq, hq⟩⟩
  · rintro ⟨⟨r', hr', hq⟩, hnot⟩
    rcases List.mem_cons.mp (hperm.mem_iff.mp hr') with rfl | hmem
    · exact absurd hq hnot
    · exact ⟨r', hmem, hq⟩

/-- One move: a run is granted or given back. -/
inductive Move : Ledger stock → Ledger stock → Prop where
  | grant (L : Ledger stock) (r : Run) (h : ∀ q, r.Has q → stock q ∧ ¬ Held L.runs q) :
      Move L (L.grant r h)
  | giveBack (L : Ledger stock) (r : Run) (hr : r ∈ L.runs) : Move L (L.giveBack r)

end Ledger

end Knos.Grants
