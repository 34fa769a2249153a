import Mathlib.Data.List.Basic

/-!
# Shelves

A shelf is a row of slots, each empty or with one thing in it, and what stands on it weighs at
most as much as the shelf carries. A thing is put into the first empty slot, and taken from the
first slot whose thing answers a description; nothing else on the shelf moves.
-/

namespace Knos

/-! ## §1  Weights -/

section Weight

variable {α : Type*} {weight : α → ℕ}

/-- The weight of what is in a slot. -/
def slotWeight (weight : α → ℕ) : Option α → ℕ
  | some a => weight a
  | none => 0

def totalWeight (weight : α → ℕ) : List (Option α) → ℕ
  | [] => 0
  | s :: slots => slotWeight weight s + totalWeight weight slots

@[simp] theorem totalWeight_nil : totalWeight weight [] = 0 := rfl

@[simp] theorem totalWeight_cons (s : Option α) (slots : List (Option α)) :
    totalWeight weight (s :: slots) = slotWeight weight s + totalWeight weight slots := rfl

@[simp] theorem totalWeight_replicate_none (n : ℕ) :
    totalWeight weight (List.replicate n none) = 0 := by
  induction n with
  | zero => rfl
  | succ n ih => simp [List.replicate_succ, slotWeight, ih]

/-- One slot changes, and the weight by as much. -/
theorem totalWeight_set {slots : List (Option α)} {i : ℕ} {old : Option α}
    (h : slots[i]? = some old) (new : Option α) :
    totalWeight weight (slots.set i new) + slotWeight weight old =
      totalWeight weight slots + slotWeight weight new := by
  induction slots generalizing i with
  | nil => simp at h
  | cons s slots ih =>
      cases i with
      | zero =>
          simp only [List.getElem?_cons_zero, Option.some.injEq] at h
          simp [h, Nat.add_comm, Nat.add_left_comm]
      | succ i =>
          simp only [List.getElem?_cons_succ] at h
          simp [Nat.add_assoc, ih h]

end Weight

/-! ## §2  The first slot of a kind -/

section First

variable {α β : Type*}

/-- The search does not see a translation that keeps what it looks for. -/
theorem findIdx?_mapIdx {f : ℕ → α → β} {p : β → Bool} {q : α → Bool}
    (h : ∀ i a, p (f i a) = q a) (l : List α) : (l.mapIdx f).findIdx? p = l.findIdx? q := by
  induction l generalizing f with
  | nil => simp
  | cons a l ih =>
      have htail := @ih (fun i => f (i + 1)) fun i => h (i + 1)
      simp [List.mapIdx_cons, List.findIdx?_cons, h, htail]

/-- What the search finds, is there. -/
theorem getElem?_of_findIdx? {p : α → Bool} {l : List α} {i : ℕ} (h : l.findIdx? p = some i) :
    ∃ a, l[i]? = some a ∧ p a = true := by
  obtain ⟨hi, hp, -⟩ := List.findIdx?_eq_some_iff_getElem.mp h
  exact ⟨l[i], List.getElem?_eq_getElem hi, hp⟩

end First

/-! ## §3  Shelves -/

@[ext] structure Shelf (α : Type*) (weight : α → ℕ) (count capacity : ℕ) where
  slots : List (Option α)
  length_slots : slots.length = count
  weight_le : totalWeight weight slots ≤ capacity

namespace Shelf

variable {α : Type*} {weight : α → ℕ} {count capacity : ℕ}

def empty : Shelf α weight count capacity where
  slots := List.replicate count none
  length_slots := List.length_replicate
  weight_le := by simp

def load (s : Shelf α weight count capacity) : ℕ := totalWeight weight s.slots

def firstFree (s : Shelf α weight count capacity) : Option ℕ := s.slots.findIdx? Option.isNone

/-- The first slot with a thing of this description. -/
def firstWith (s : Shelf α weight count capacity) (p : α → Bool) : Option ℕ :=
  s.slots.findIdx? (Option.any p)

/-- The thing goes into the first empty slot, if the shelf carries what it needs. -/
def put (s : Shelf α weight count capacity) (a : α) (need : ℕ) (hneed : weight a ≤ need) :
    Option (Shelf α weight count capacity) :=
  match hslot : s.firstFree with
  | none => none
  | some i =>
      if hroom : s.load + need ≤ capacity then
        some {
          slots := s.slots.set i (some a)
          length_slots := by rw [List.length_set, s.length_slots]
          weight_le := by
            obtain ⟨old, hold, hnone⟩ := getElem?_of_findIdx? hslot
            have hset := @totalWeight_set α weight _ _ _ hold (some a)
            rw [Option.isNone_iff_eq_none.mp hnone] at hset
            simp only [slotWeight] at hset
            unfold load at hroom
            omega }
      else none

/-- The first thing of this description leaves the shelf. -/
def take (s : Shelf α weight count capacity) (p : α → Bool) :
    Option (Shelf α weight count capacity) :=
  match hslot : s.firstWith p with
  | none => none
  | some i =>
      some {
        slots := s.slots.set i none
        length_slots := by rw [List.length_set, s.length_slots]
        weight_le := by
          obtain ⟨old, hold, -⟩ := getElem?_of_findIdx? hslot
          have hset := @totalWeight_set α weight _ _ _ hold none
          have hle := s.weight_le
          simp only [slotWeight] at hset
          omega }

variable {s t : Shelf α weight count capacity} {a : α} {need : ℕ} {hneed : weight a ≤ need}
  {p : α → Bool}

theorem put_eq_none_iff :
    s.put a need hneed = none ↔ s.firstFree = none ∨ capacity < s.load + need := by
  unfold put
  split
  next h => simp [h]
  next i h =>
    split
    next hroom => simp [h, hroom]
    next hroom => simp [h, Nat.lt_of_not_le hroom]

theorem put_eq_some_iff : s.put a need hneed = some t ↔
    ∃ i, s.firstFree = some i ∧ s.load + need ≤ capacity ∧ t.slots = s.slots.set i (some a) := by
  unfold put
  split
  next h => simp [h]
  next i h =>
    split
    next hroom =>
      simp only [Option.some.injEq, h, hroom, true_and, exists_eq_left', Shelf.ext_iff]
      exact eq_comm
    next hroom => simp [h, hroom]

theorem take_eq_none_iff : s.take p = none ↔ s.firstWith p = none := by
  unfold take
  split
  next h => simp [h]
  next i h => simp [h]

theorem take_eq_some_iff :
    s.take p = some t ↔ ∃ i, s.firstWith p = some i ∧ t.slots = s.slots.set i none := by
  unfold take
  split
  next h => simp [h]
  next i h =>
    simp only [Option.some.injEq, h, exists_eq_left', Shelf.ext_iff]
    exact eq_comm

/-! ## §4  What stays where it is -/

/-- What is put down is there. -/
theorem mem_of_put (h : s.put a need hneed = some t) : some a ∈ t.slots := by
  obtain ⟨i, hfree, -, hslots⟩ := put_eq_some_iff.mp h
  obtain ⟨old, hold, -⟩ := getElem?_of_findIdx? hfree
  rw [hslots]
  exact List.mem_set (List.getElem?_eq_some_iff.mp hold).1 (some a)

/-- And nothing else has left. -/
theorem mem_put_of_mem (h : s.put a need hneed = some t) {b : α} (hb : some b ∈ s.slots) :
    some b ∈ t.slots := by
  obtain ⟨i, hfree, -, hslots⟩ := put_eq_some_iff.mp h
  obtain ⟨old, hold, hnone⟩ := getElem?_of_findIdx? hfree
  obtain ⟨j, hj⟩ := List.mem_iff_getElem?.mp hb
  have hne : i ≠ j := by
    rintro rfl
    rw [hold, Option.isNone_iff_eq_none.mp hnone] at hj
    cases hj
  rw [hslots]
  apply List.mem_of_getElem? (i := j)
  rw [List.getElem?_set_ne hne, hj]

/-- Only a thing of the description is taken. -/
theorem mem_take_of_mem (h : s.take p = some t) {b : α} (hb : some b ∈ s.slots)
    (hp : p b = false) : some b ∈ t.slots := by
  obtain ⟨i, hfirst, hslots⟩ := take_eq_some_iff.mp h
  obtain ⟨old, hold, hany⟩ := getElem?_of_findIdx? hfirst
  obtain ⟨j, hj⟩ := List.mem_iff_getElem?.mp hb
  have hne : i ≠ j := by
    rintro rfl
    rw [hold] at hj
    cases hj
    simp [hp] at hany
  rw [hslots]
  apply List.mem_of_getElem? (i := j)
  rw [List.getElem?_set_ne hne, hj]

end Shelf

end Knos
