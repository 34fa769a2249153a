import Knos.Lib.Loop
import Knos.Lib.PageTables
import Knos.Trap.TaskState

/-!
# How the processor takes an exception

It finds the gate, the code segment and the stack, and pushes its block. When one of these
steps faults, another exception takes the place of the first, until one is delivered or the
processor shuts down. The chain is short: each exception in it is of a graver class than the
one before (`rank_of_escalate`), so that the number of steps does not matter
(`takeException_stable`).
-/

namespace Knos.Trap

open Knos.Bytes Knos.Spans Knos.Stack Knos.Loop Knos.PageTables

/-! ## §1  The steps of a delivery -/

/-- What the processor looks at besides its registers. -/
structure Processor where
  idtr : TableRegister
  gdtr : TableRegister
  tr : TableRegister
  cr3 : ℕ
  ram : Store Byte

section Steps

variable (p : Processor) (c : Cpu)

/-- A vector has an interrupt or a trap gate, which is present. -/
def findGate (vector : ℕ) : Except ℕ Gate :=
  match gateAt c.memory p.idtr vector with
  | none => .error 13
  | some gate =>
      if gate.kind ≠ 14 ∧ gate.kind ≠ 15 then .error 13
      else if gate.present then .ok gate
      else .error 11

/-- A selector of a code segment for 64-bit mode, of privilege 0 and present. -/
def checkCode (selector : BitVec 16) : Except ℕ Unit :=
  let index := selector.toNat / 8 * 8
  let n := (load c.memory (p.gdtr.base + BitVec.ofNat 64 index)).toNat
  if index = 0 ∨ selector.getLsbD 2 ∨ p.gdtr.limit < index + 7 then .error 13
  else if bits n 43 2 ≠ 3 ∨ bits n 45 2 ≠ 0 ∨ bits n 53 2 ≠ 1 then .error 13
  else if n.testBit 47 then .ok ()
  else .error 11

/-- The interrupted stack, or one of those in the task state. -/
def findStack (ist : ℕ) : Except ℕ Word :=
  if ist = 0 then .ok c.rsp
  else if p.tr.limit < 28 + 8 * ist + 7 then .error 10
  else .ok (load c.memory (p.tr.base + BitVec.ofNat 64 (28 + 8 * ist)))

def checkEntry (offset : Word) : Except ℕ Unit :=
  if Canonical offset.toNat then .ok () else .error 13

/-- The addresses of the words that are pushed, in their order. -/
def pushes (stack : Word) (n : ℕ) : List Word :=
  (List.range n).map fun k => (stack &&& ~~~15#64) - BitVec.ofNat 64 (8 * (k + 1))

/-- What becomes of a push. -/
def pushFault (a : Word) : Option ℕ :=
  if Canonical a.toNat then
    match translate p.ram p.cr3 a.toNat with
    | some page => if page.writable then none else some 14
    | none => some 14
  else some 12

def checkPushes (stack : Word) (n : ℕ) : Except ℕ Unit :=
  match (pushes stack n).findSome? (pushFault p) with
  | some fault => .error fault
  | none => .ok ()

/-- How many words an exception pushes. -/
def wordsPushed (vector : ℕ) : ℕ := if vector ∈ errorCodeVectors then 6 else 5

/-- TF, NT, RF and VM are cleared on the way in; an interrupt gate clears IF as well. -/
def flagsCleared (kind : ℕ) : Word := if kind = 14 then 0x34300 else 0x34100

/-- A delivery, or the vector of the exception that stops it. -/
def attempt (errorCode : Word) (vector : ℕ) : Except ℕ Delivery := do
  let gate ← findGate p c vector
  checkCode p c gate.selector
  let stack ← findStack p c gate.ist
  checkEntry gate.offset
  checkPushes p stack (wordsPushed vector)
  pure
    { stack := stack
      errorCode := errorCode
      entry := gate.offset
      rflags := c.rflags &&& ~~~flagsCleared gate.kind
      cs := gate.selector &&& ~~~3#16
      ss := c.ss }

end Steps

/-! ## §2  One exception after another -/

inductive FaultClass where
  | benign
  | contributory
  | pageFault
  | doubleFault
deriving DecidableEq

def faultClass : ℕ → FaultClass
  | 0 | 10 | 11 | 12 | 13 | 21 => .contributory
  | 14 | 20 => .pageFault
  | 8 => .doubleFault
  | _ => .benign

/-- What follows when the delivery of the first is stopped by the second; nothing after a
double fault. -/
def escalate (first second : ℕ) : Option ℕ :=
  match faultClass first, faultClass second with
  | .doubleFault, .contributory | .doubleFault, .pageFault => none
  | .contributory, .contributory | .pageFault, .contributory | .pageFault, .pageFault => some 8
  | _, _ => some second

inductive Outcome where
  | entered (vector : ℕ) (d : Delivery)
  | shutdown

/-- The error codes are those the processor has for each vector. -/
def takeException (p : Processor) (c : Cpu) (errorCode : ℕ → Word) : ℕ → ℕ → Outcome
  | 0, _ => .shutdown
  | fuel + 1, vector =>
      match attempt p c (errorCode vector) vector with
      | .ok d => .entered vector d
      | .error second =>
          match escalate vector second with
          | some next => takeException p c errorCode fuel next
          | none => .shutdown

/-- At most four exceptions take the place of each other. -/
def outcome (p : Processor) (c : Cpu) (errorCode : ℕ → Word) (vector : ℕ) : Outcome :=
  takeException p c errorCode 4 vector

section Ends

variable {p : Processor} {c : Cpu} {errorCode : ℕ → Word}

/-- The exceptions that can stop a delivery. -/
def deliveryFaults : List ℕ := [10, 11, 12, 13, 14]

theorem fault_of_findGate {vector fault : ℕ} (h : findGate p c vector = .error fault) :
    fault ∈ deliveryFaults := by
  unfold findGate at h
  split at h
  · cases h
    decide
  · split at h
    · cases h
      decide
    · split at h <;> cases h
      decide

theorem fault_of_checkCode {selector : BitVec 16} {fault : ℕ}
    (h : checkCode p c selector = .error fault) : fault ∈ deliveryFaults := by
  unfold checkCode at h
  dsimp only at h
  split at h
  · cases h
    decide
  · split at h
    · cases h
      decide
    · split at h <;> cases h
      decide

theorem fault_of_findStack {ist fault : ℕ} (h : findStack p c ist = .error fault) :
    fault ∈ deliveryFaults := by
  unfold findStack at h
  split at h
  · cases h
  · split at h <;> cases h
    decide

theorem pushFault_writable {a : Word} {page : Mapping} (hcanon : Canonical a.toNat)
    (hmap : translate p.ram p.cr3 a.toNat = some page) (hwritable : page.writable = true) :
    pushFault p a = none := by
  unfold pushFault
  simp [hcanon, hmap, hwritable]

theorem pushFault_unmapped {a : Word} (hcanon : Canonical a.toNat)
    (hmap : translate p.ram p.cr3 a.toNat = none) : pushFault p a = some 14 := by
  unfold pushFault
  simp [hcanon, hmap]

theorem pushFault_cases {a : Word} {fault : ℕ} (h : pushFault p a = some fault) :
    fault = 12 ∨ fault = 14 := by
  unfold pushFault at h
  split at h
  · split at h
    · split at h <;> cases h
      exact Or.inr rfl
    · cases h
      exact Or.inr rfl
  · cases h
    exact Or.inl rfl

theorem checkPushes_cases {stack : Word} {n fault : ℕ} (h : checkPushes p stack n = .error fault) :
    fault = 12 ∨ fault = 14 := by
  unfold checkPushes at h
  split at h
  · rename_i hfind
    cases h
    obtain ⟨a, -, ha⟩ := List.exists_of_findSome?_eq_some hfind
    exact pushFault_cases ha
  · cases h

theorem fault_of_attempt {vector fault : ℕ} {code : Word}
    (h : attempt p c code vector = .error fault) : fault ∈ deliveryFaults := by
  unfold attempt at h
  rcases bind_eq_error h with hgate | ⟨gate, -, h⟩
  · exact fault_of_findGate hgate
  rcases bind_eq_error h with hcode | ⟨-, -, h⟩
  · exact fault_of_checkCode hcode
  rcases bind_eq_error h with hstack | ⟨stack, -, h⟩
  · exact fault_of_findStack hstack
  rcases bind_eq_error h with hentry | ⟨-, -, h⟩
  · unfold checkEntry at hentry
    split at hentry <;> cases hentry
    decide
  rcases bind_eq_error h with hpushes | ⟨-, -, h⟩
  · rcases checkPushes_cases hpushes with rfl | rfl <;> decide
  · cases h

def FaultClass.rank : FaultClass → ℕ
  | .benign => 3
  | .contributory => 2
  | .pageFault => 1
  | .doubleFault => 0

theorem rank_of_escalate {first second next : ℕ} (hsecond : second ∈ deliveryFaults)
    (h : escalate first second = some next) :
    (faultClass next).rank < (faultClass first).rank := by
  have hclass : ∀ second ∈ deliveryFaults, faultClass second = .contributory ∨
      faultClass second = .pageFault := by decide
  unfold escalate at h
  rcases hclass second hsecond with hc | hc <;> rw [hc] at h <;>
    cases hfirst : faultClass first <;> rw [hfirst] at h <;> cases h <;>
    first | rw [hc]; decide | decide

theorem takeException_ok {fuel vector : ℕ} {d : Delivery}
    (h : attempt p c (errorCode vector) vector = .ok d) :
    takeException p c errorCode (fuel + 1) vector = .entered vector d := by
  rw [takeException, h]

theorem takeException_error {fuel vector second : ℕ}
    (h : attempt p c (errorCode vector) vector = .error second) :
    takeException p c errorCode (fuel + 1) vector =
      match escalate vector second with
      | some next => takeException p c errorCode fuel next
      | none => .shutdown := by
  rw [takeException, h]

/-- **The chain of exceptions is short**: the number of steps allowed does not matter. -/
theorem takeException_stable {fuel vector : ℕ} (h : (faultClass vector).rank < fuel) (k : ℕ) :
    takeException p c errorCode (fuel + k) vector = takeException p c errorCode fuel vector := by
  induction fuel generalizing vector with
  | zero => exact absurd h (Nat.not_lt_zero _)
  | succ fuel ih =>
      rw [Nat.succ_add, takeException, takeException]
      cases hattempt : attempt p c (errorCode vector) vector with
      | ok d => rfl
      | error second =>
          cases hnext : escalate vector second with
          | none => simp only [hnext]
          | some next =>
              have hrank := rank_of_escalate (fault_of_attempt hattempt) hnext
              simp only [hnext]
              exact ih (by omega)

end Ends

end Knos.Trap
