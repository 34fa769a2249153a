import Mathlib.Data.BitVec
import Mathlib.Data.List.Basic

/-!
# Spans of a memory that wraps around

A memory is a total function from addresses of a fixed width to values. A span is the run of
addresses from its first one on, over the end of the memory if need be. Whether an address
lies in it is a matter of its distance from the first one, so that a span may lie anywhere, as
long as it does not go around the whole memory.
-/

namespace Knos.Spans

variable {w : ℕ} {α : Type}

/-- The values `data` from address `a` on, the rest as in `m`. -/
def write (m : BitVec w → α) (a : BitVec w) (data : List α) : BitVec w → α := fun x =>
  (data[(x - a).toNat]?).getD (m x)

/-- The `n` values from address `a` on. -/
def read (m : BitVec w → α) (a : BitVec w) (n : ℕ) : List α :=
  (List.range n).map fun k => m (a + BitVec.ofNat w k)

/-- No address is in both spans. -/
def Apart (a : BitVec w) (n : ℕ) (b : BitVec w) (k : ℕ) : Prop :=
  ∀ i < n, ∀ j < k, a + BitVec.ofNat w i ≠ b + BitVec.ofNat w j

/-! ## §1  Distances -/

theorem toNat_offset (a : BitVec w) {k : ℕ} (hk : k < 2 ^ w) :
    (a + BitVec.ofNat w k - a).toNat = k := by
  rw [add_sub_cancel_left, BitVec.toNat_ofNat, Nat.mod_eq_of_lt hk]

/-- An address is at its distance. -/
theorem offset_distance (a x : BitVec w) : a + BitVec.ofNat w (x - a).toNat = x := by
  rw [BitVec.ofNat_toNat, BitVec.setWidth_eq, add_sub_cancel]

theorem add_offset (a : BitVec w) (j k : ℕ) :
    a + BitVec.ofNat w (j + k) = a + BitVec.ofNat w j + BitVec.ofNat w k := by
  rw [BitVec.ofNat_add, add_assoc]

theorem distance_add {a b : BitVec w} {k : ℕ} (h : (b - a).toNat + k < 2 ^ w) :
    (b + BitVec.ofNat w k - a).toNat = (b - a).toNat + k := by
  rw [add_sub_right_comm, BitVec.toNat_add, BitVec.toNat_ofNat,
    Nat.mod_eq_of_lt (show k < 2 ^ w by omega), Nat.mod_eq_of_lt h]

/-- Measured from further on, an address that lies there is nearer. -/
theorem distance_after {a x : BitVec w} {k : ℕ} (h : k ≤ (x - a).toNat) :
    (x - (a + BitVec.ofNat w k)).toNat = (x - a).toNat - k := by
  have hlt := (x - a).isLt
  rw [← sub_sub, BitVec.toNat_sub, BitVec.toNat_ofNat,
    Nat.mod_eq_of_lt (show k < 2 ^ w by omega),
    show 2 ^ w - k + (x - a).toNat = 2 ^ w + ((x - a).toNat - k) by omega, Nat.add_mod_left,
    Nat.mod_eq_of_lt (by omega)]

/-- An address left behind is almost a whole round ahead. -/
theorem distance_before {a x : BitVec w} {k : ℕ} (h : (x - a).toNat < k) (hk : k < 2 ^ w) :
    (x - (a + BitVec.ofNat w k)).toNat = 2 ^ w - k + (x - a).toNat := by
  rw [← sub_sub, BitVec.toNat_sub, BitVec.toNat_ofNat, Nat.mod_eq_of_lt hk,
    Nat.mod_eq_of_lt (by omega)]

/-! ## §2  Writing -/

section Write

variable (m : BitVec w → α) {a x : BitVec w} {data : List α}

theorem write_inside {i : ℕ} {v : α} (hi : i < 2 ^ w) (h : data[i]? = some v) :
    write m a data (a + BitVec.ofNat w i) = v := by
  unfold write
  rw [toNat_offset a hi, h]
  rfl

theorem write_outside (h : data.length ≤ (x - a).toNat) : write m a data x = m x := by
  unfold write
  rw [List.getElem?_eq_none h]
  rfl

@[simp] theorem write_nil : write m a [] = m := rfl

/-- An address that is none of the span is at a distance beyond it. -/
theorem le_distance {n : ℕ} (h : ∀ i < n, x ≠ a + BitVec.ofNat w i) : n ≤ (x - a).toNat := by
  by_contra hlt
  exact h (x - a).toNat (Nat.lt_of_not_le hlt) (offset_distance a x).symm

/-- An address that is none of the span keeps its value. -/
theorem write_frame (h : ∀ i < data.length, x ≠ a + BitVec.ofNat w i) : write m a data x = m x :=
  write_outside m (le_distance h)

/-- Two spans in a row. -/
theorem write_append {xs ys : List α} (hfit : xs.length + ys.length ≤ 2 ^ w) :
    write m a (xs ++ ys) = write (write m a xs) (a + BitVec.ofNat w xs.length) ys := by
  rcases ys with _ | ⟨y, ys⟩
  · rw [List.append_nil, write_nil]
  rw [List.length_cons] at hfit
  funext x
  rcases Nat.lt_or_ge (x - a).toNat xs.length with hx | hx
  · have hbefore := distance_before hx (by omega)
    rw [write_outside (write m a xs) (by rw [List.length_cons]; omega)]
    unfold write
    rw [List.getElem?_append_left hx]
  · unfold write
    rw [distance_after hx, List.getElem?_append_right hx, List.getElem?_eq_none hx]
    rfl

end Write

/-! ## §3  Reading -/

section Read

variable {m : BitVec w → α} {a b : BitVec w} {n : ℕ}

@[simp] theorem length_read (m : BitVec w → α) (a : BitVec w) (n : ℕ) :
    (read m a n).length = n := by
  rw [read, List.length_map, List.length_range]

theorem getElem?_read {i : ℕ} (h : i < n) : (read m a n)[i]? = some (m (a + BitVec.ofNat w i)) := by
  rw [read, List.getElem?_map, List.getElem?_range h]
  rfl

theorem read_add (m : BitVec w → α) (a : BitVec w) (j k : ℕ) :
    read m a (j + k) = read m a j ++ read m (a + BitVec.ofNat w j) k := by
  unfold read
  rw [List.range_add, List.map_append, List.map_map]
  congr 1
  apply List.map_congr_left
  intro i _
  exact congrArg m (add_offset a j i)

theorem read_congr {m' : BitVec w → α}
    (h : ∀ i < n, m' (a + BitVec.ofNat w i) = m (a + BitVec.ofNat w i)) : read m' a n = read m a n :=
  List.map_congr_left fun i hi => h i (List.mem_range.mp hi)

/-- What was written is read. -/
theorem read_write_self {data : List α} (hfit : data.length ≤ 2 ^ w) :
    read (write m a data) a data.length = data := by
  apply List.ext_getElem?
  intro i
  rcases Nat.lt_or_ge i data.length with hi | hi
  · rw [getElem?_read hi, List.getElem?_eq_getElem hi,
      write_inside m (Nat.lt_of_lt_of_le hi hfit) (List.getElem?_eq_getElem hi)]
  · rw [List.getElem?_eq_none hi, List.getElem?_eq_none (by rwa [length_read])]

/-- A span written elsewhere does not matter. -/
theorem read_write_of_apart {data : List α} (h : Apart a data.length b n) :
    read (write m a data) b n = read m b n := by
  apply List.map_congr_left
  intro j hj
  apply write_frame
  intro i hi heq
  exact h i hi j (List.mem_range.mp hj) heq.symm

/-- A span that begins beyond the one written and ends before its first address. -/
theorem read_write_of_far {data : List α} (hup : data.length ≤ (b - a).toNat)
    (hdown : (b - a).toNat + n ≤ 2 ^ w) : read (write m a data) b n = read m b n := by
  apply List.map_congr_left
  intro j hj
  have hlt := List.mem_range.mp hj
  apply write_outside
  rw [distance_add (by omega)]
  omega

end Read

/-! ## §4  Spans apart -/

section Apart

variable {a b : BitVec w} {n k : ℕ}

/-- Parts of spans that are apart. -/
theorem Apart.part (h : Apart a n b k) {n' k' j : ℕ} (hn : n' ≤ n) (hk : j + k' ≤ k) :
    Apart a n' (b + BitVec.ofNat w j) k' := by
  intro i hi l hl
  rw [← add_offset]
  exact h i (by omega) (j + l) (by omega)

end Apart

/-! ## §5  Slots -/

/-- Slot `i` of a table of slots of one size. -/
def slot (a : BitVec w) (size i : ℕ) : BitVec w := a + BitVec.ofNat w (size * i)

/-- Each of the contents to its slot, one after the other. -/
def fillSlots (a : BitVec w) (size : ℕ) (m : BitVec w → α) (contents : List (ℕ × List α)) :
    BitVec w → α :=
  contents.foldl (fun m c => write m (slot a size c.1) c.2) m

/-- What was put into a slot last. -/
def lastIn (contents : List (ℕ × List α)) (i : ℕ) : Option (List α) :=
  (contents.findRev? fun c => c.1 = i).map Prod.snd

section Slots

variable {m : BitVec w → α} {a b : BitVec w} {size n k i j : ℕ} {data : List α}
  {contents : List (ℕ × List α)}

/-- Parts of one span that do not overlap. -/
theorem apart_parts (hi : i + n ≤ 2 ^ w) (hj : j + k ≤ 2 ^ w) (hsep : i + n ≤ j ∨ j + k ≤ i) :
    Apart (a + BitVec.ofNat w i) n (a + BitVec.ofNat w j) k := by
  intro u hu v hv heq
  rw [← add_offset, ← add_offset, add_right_inj] at heq
  have hnat := congrArg BitVec.toNat heq
  rw [BitVec.toNat_ofNat, BitVec.toNat_ofNat, Nat.mod_eq_of_lt (by omega),
    Nat.mod_eq_of_lt (by omega)] at hnat
  omega

theorem slots_apart (hi : size * (i + 1) ≤ 2 ^ w) (hj : size * (j + 1) ≤ 2 ^ w) (hne : i ≠ j) :
    Apart (slot a size i) size (slot a size j) size := by
  refine apart_parts hi hj ?_
  rcases Nat.lt_or_gt_of_ne hne with hlt | hlt
  · exact Or.inl (Nat.mul_le_mul_left size hlt)
  · exact Or.inr (Nat.mul_le_mul_left size hlt)

theorem lastIn_cons (c : ℕ × List α) (contents : List (ℕ × List α)) (i : ℕ) :
    lastIn (c :: contents) i =
      (lastIn contents i).or (if c.1 = i then some c.2 else none) := by
  unfold lastIn
  rw [List.findRev?]
  cases contents.findRev? fun c => c.1 = i with
  | some d => rfl
  | none => by_cases hci : c.1 = i <;> simp [hci]

theorem lastIn_append (xs ys : List (ℕ × List α)) (i : ℕ) :
    lastIn (xs ++ ys) i = (lastIn ys i).or (lastIn xs i) := by
  induction xs with
  | nil =>
      show lastIn ys i = (lastIn ys i).or none
      rw [Option.or_none]
  | cons c xs ih => rw [List.cons_append, lastIn_cons, ih, lastIn_cons, Option.or_assoc]

theorem lastIn_map {β : Type} (f : β → ℕ × List α) (l : List β) (i : ℕ) :
    lastIn (l.map f) i = (l.findRev? fun b => (f b).1 = i).map fun b => (f b).2 := by
  unfold lastIn
  rw [List.findRev?_eq_find?_reverse, List.findRev?_eq_find?_reverse, ← List.map_reverse,
    List.find?_map, Option.map_map]
  rfl

/-- What is apart from the whole table keeps its values. -/
theorem read_fillSlots_of_apart (hcontents : ∀ c ∈ contents, c.1 < n ∧ c.2.length = size)
    (h : Apart a (size * n) b k) : read (fillSlots a size m contents) b k = read m b k := by
  induction contents generalizing m with
  | nil => rfl
  | cons c contents ih =>
      obtain ⟨hc, hlen⟩ := hcontents c List.mem_cons_self
      refine (ih fun d hd => hcontents d (List.mem_cons_of_mem _ hd)).trans ?_
      refine read_write_of_apart fun i hi j hj => ?_
      have hle := Nat.mul_le_mul_left size (show c.1 + 1 ≤ n from hc)
      rw [Nat.mul_succ] at hle
      unfold slot
      rw [← add_offset]
      exact h (size * c.1 + i) (by omega) j hj

/-- **The last one stays.** -/
theorem read_fillSlots (hfit : size * n ≤ 2 ^ w)
    (hcontents : ∀ c ∈ contents, c.1 < n ∧ c.2.length = size) (hi : i < n) :
    read (fillSlots a size m contents) (slot a size i) size =
      (lastIn contents i).getD (read m (slot a size i) size) := by
  have hwithin {j : ℕ} (hj : j < n) : size * (j + 1) ≤ 2 ^ w :=
    Nat.le_trans (Nat.mul_le_mul_left size hj) hfit
  induction contents generalizing m with
  | nil => rfl
  | cons c contents ih =>
      obtain ⟨hc, hlen⟩ := hcontents c List.mem_cons_self
      refine (ih fun d hd => hcontents d (List.mem_cons_of_mem _ hd)).trans ?_
      rw [lastIn_cons]
      cases lastIn contents i with
      | some data => rfl
      | none =>
          by_cases hci : c.1 = i
          · subst hci
            rw [if_pos rfl]
            have hself := @read_write_self w α m (slot a size c.1) c.2
              (by rw [hlen]; exact Nat.le_trans (Nat.le_mul_of_pos_right size (by omega)) hfit)
            rw [hlen] at hself
            exact hself
          · rw [if_neg hci]
            refine read_write_of_apart ?_
            rw [hlen]
            exact slots_apart (hwithin hc) (hwithin hi) hci

end Slots

end Knos.Spans
