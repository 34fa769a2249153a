import Knos.Lib.Bytes
import Knos.Lib.Spans

/-!
# Stacks in memory

Memory holds bytes, at addresses of 64 bits that wrap around; a word is eight of them, least
significant first. A stack is a list of words from the stack pointer upwards (`Holds`), and
pushing a word stores it below all of them: that is a matter of distances, so it needs no
assumption on where the stack lies, only that it does not fill the memory.
-/

namespace Knos.Stack

open Knos.Bytes

abbrev Word : Type := BitVec 64

abbrev Memory : Type := Word → Byte

/-! ## §1  Words -/

/-- The bytes of `v` from address `a` on. -/
def store (m : Memory) (a v : Word) : Memory := fun x =>
  ((leBytes 8 v.toNat)[(x - a).toNat]?).getD (m x)

/-- The eight bytes from address `a` on. -/
def bytesAt (m : Memory) (a : Word) : List Byte :=
  (List.range 8).map fun k => m (a + BitVec.ofNat 64 k)

/-- The word at address `a`. -/
def load (m : Memory) (a : Word) : Word := BitVec.ofNat 64 (leNat (bytesAt m a))

section Words

variable (m : Memory) {a b v : Word}

theorem store_eq_write : store m a v = Spans.write m a (leBytes 8 v.toNat) := rfl

theorem bytesAt_eq_read : bytesAt m a = Spans.read m a 8 := rfl

theorem store_outside {x : Word} (h : 8 ≤ (x - a).toNat) : store m a v x = m x :=
  Spans.write_outside m (by rwa [length_leBytes])

theorem bytesAt_store_self : bytesAt (store m a v) a = leBytes 8 v.toNat := by
  have hfit : (leBytes 8 v.toNat).length ≤ 2 ^ 64 := by
    rw [length_leBytes]
    decide
  have hread := @Spans.read_write_self _ _ m a _ hfit
  rwa [length_leBytes] at hread

/-- What was stored is loaded. -/
@[simp] theorem load_store_self : load (store m a v) a = v := by
  unfold load
  rw [bytesAt_store_self, leNat_leBytes_of_lt v.isLt, BitVec.ofNat_toNat]
  exact BitVec.setWidth_eq v

/-- A word eight bytes or more away, on either side, is still there. -/
theorem load_store_of_far (hup : 8 ≤ (b - a).toNat) (hdown : (b - a).toNat + 8 ≤ 2 ^ 64) :
    load (store m a v) b = load m b := by
  have hbytes : bytesAt (store m a v) b = bytesAt m b := by
    rw [store_eq_write, bytesAt_eq_read, bytesAt_eq_read]
    exact Spans.read_write_of_far (by rwa [length_leBytes]) hdown
  unfold load
  rw [hbytes]

theorem toNat_load (a : Word) : (load m a).toNat = leNat (Spans.read m a 8) := by
  have hlt := leNat_lt (Spans.read m a 8)
  rw [Spans.length_read] at hlt
  show (BitVec.ofNat 64 (leNat (Spans.read m a 8))).toNat = _
  rw [BitVec.toNat_ofNat, Nat.mod_eq_of_lt (show leNat (Spans.read m a 8) < 2 ^ 64 from hlt)]

/-- Two quad words in a row. -/
theorem leNat_read_sixteen (a : Word) :
    leNat (Spans.read m a 16) = (load m a).toNat + 2 ^ 64 * (load m (a + 8)).toNat := by
  rw [toNat_load, toNat_load, show 16 = 8 + 8 from rfl, Spans.read_add, leNat_append, Spans.length_read]
  rfl

theorem load_store_of_apart (h : Spans.Apart a 8 b 8) : load (store m a v) b = load m b := by
  have hread : Spans.read (store m a v) b 8 = Spans.read m b 8 := by
    rw [store_eq_write]
    exact Spans.read_write_of_apart (by rwa [length_leBytes])
  exact congrArg (fun bytes => BitVec.ofNat 64 (leNat bytes)) hread

end Words

/-! ## §2  Stacks -/

/-- The words from address `sp` upwards. -/
def Holds (m : Memory) : Word → List Word → Prop
  | _, [] => True
  | sp, x :: xs => load m sp = x ∧ Holds m (sp + 8) xs

section Stack

variable {m : Memory} {a sp v x : Word} {xs : List Word}

@[simp] theorem holds_nil : Holds m sp [] := trivial

/-- A store below a stack. -/
theorem Holds.store_below (h : Holds m sp xs) (hbelow : 8 ≤ (sp - a).toNat)
    (hroom : (sp - a).toNat + 8 * xs.length ≤ 2 ^ 64) : Holds (store m a v) sp xs := by
  induction xs generalizing sp with
  | nil => trivial
  | cons x xs ih =>
      rw [List.length_cons] at hroom
      refine ⟨(load_store_of_far m hbelow (by omega)).trans h.1, ?_⟩
      rcases Nat.eq_zero_or_pos xs.length with hlen | hlen
      · rw [List.length_eq_zero_iff.mp hlen]
        trivial
      · have hnext : (sp + 8 - a).toNat = (sp - a).toNat + 8 :=
          @Spans.distance_add _ a sp 8 (by omega)
        exact ih h.2 (by omega) (by omega)

/-- **Pushing a word** keeps the words above it. -/
theorem Holds.push (h : Holds m sp xs) (hroom : 8 * (xs.length + 1) ≤ 2 ^ 64) (v : Word) :
    Holds (store m (sp - 8) v) (sp - 8) (v :: xs) := by
  have hdist : (sp - (sp - 8)).toNat = 8 := by
    rw [sub_sub_cancel]
    rfl
  refine ⟨load_store_self m, ?_⟩
  rw [BitVec.sub_add_cancel]
  exact h.store_below (by omega) (by omega)

/-- Words as they lie in memory. -/
theorem holds_of_read (h : Spans.read m sp (8 * xs.length) = xs.flatMap fun x => leBytes 8 x.toNat) :
    Holds m sp xs := by
  induction xs generalizing sp with
  | nil => trivial
  | cons x xs ih =>
      rw [List.length_cons, Nat.mul_succ, Nat.add_comm, Spans.read_add, List.flatMap_cons] at h
      obtain ⟨hx, hxs⟩ := List.append_inj h (by rw [Spans.length_read, length_leBytes])
      refine ⟨?_, ih hxs⟩
      show BitVec.ofNat 64 (leNat (Spans.read m sp 8)) = x
      rw [hx, leNat_leBytes_of_lt x.isLt, BitVec.ofNat_toNat, BitVec.setWidth_eq]

end Stack

end Knos.Stack
