import Knos.Trap.Gates
import Knos.Trap.Restore

/-!
# `ignore_interrupt` of `kernel/trap.h`

The entry of every vector that has no exception of its own. It saves and restores on its own
account, with RDI and RSI the other way round than `common_exception_stub` and with selectors
that take a whole register, and it has no slot for an error code. Of an interrupt it brings
everything back, so that a program goes on over any exceptions and interrupts as if there were
none (`program_survives`). An exception that pushes an error code does not come back from it: the
code is taken for the return address (`ignored_error_code`).
-/

namespace Knos.Trap

open Knos.Stack

/-! ## §1  The entry -/

/-- `cld` clears the direction flag. -/
def Cpu.cld (c : Cpu) : Cpu := { c with rflags := c.rflags &&& ~~~0x400#64 }

/-- `mov` of a selector into RAX, whose upper bits become zero. -/
def Cpu.movToRax (c : Cpu) (s : BitVec 16) : Cpu := c.set .rax (s.setWidth 64)

/-- The general registers in the order they are pushed. -/
def ignoredRegisters : List Gpr :=
  [.rax, .rbx, .rcx, .rdx, .rbp, .rdi, .rsi, .r8, .r9, .r10, .r11, .r12, .r13, .r14, .r15]

def saveWholeSegments (c : Cpu) : Cpu :=
  let c := c.movToRax c.ds
  let c := c.pushq (c.gpr .rax)
  let c := c.movToRax c.es
  c.pushq (c.gpr .rax)

/-- `mov $0x10, %rax`, and RAX into DS and ES -/
def loadDataSegments (c : Cpu) : Cpu :=
  let c := c.set .rax 0x10
  { c with ds := (c.gpr .rax).setWidth 16, es := (c.gpr .rax).setWidth 16 }

/-- `mov %rsp, %rdi` and `callq ignore_interrupt_handler` -/
def callIgnored (returnAddress : Word) (c : Cpu) : Cpu :=
  (c.set .rdi c.rsp).pushq returnAddress

/-- `ignore_interrupt` up to the first instruction of its handler. -/
def enterIgnored (returnAddress : Word) (c : Cpu) : Cpu :=
  callIgnored returnAddress
    (loadDataSegments (saveWholeSegments (saveRegisters ignoredRegisters c.cld)))

/-- The general registers in the order they are popped. -/
def broughtBackRegisters : List Gpr :=
  [.r15, .r14, .r13, .r12, .r11, .r10, .r9, .r8, .rsi, .rdi, .rbp, .rdx, .rcx, .rbx, .rax]

/-- `ignore_interrupt` from the return of its handler up to `iretq`. -/
def leaveIgnored (c : Cpu) : Cpu := restoreRegisters broughtBackRegisters (restoreSegments c)

/-- The state in which `ignore_interrupt_handler` is entered. -/
def Cpu.interrupt (c : Cpu) (d : Delivery) (returnAddress : Word) (vector : ℕ) : Cpu :=
  enterIgnored returnAddress (c.deliver d vector)

/-! ## §2  The stack under it -/

section Enter

variable {c : Cpu} {xs : List Word}

/-- The selectors come to lie below the registers, ES lowest. -/
theorem Cpu.Stacked.saveWholeSegments (h : c.Stacked xs) (hroom : xs.length + 2 ≤ 32) :
    (saveWholeSegments c).Stacked (c.es.setWidth 64 :: c.ds.setWidth 64 :: xs) := by
  have hds := (h.set .rax (c.ds.setWidth 64)).pushq (by omega) (c.ds.setWidth 64)
  have hes := (hds.set .rax (c.es.setWidth 64)).pushq (by rw [List.length_cons]; omega)
    (c.es.setWidth 64)
  have hrax : Knos.Trap.saveWholeSegments c =
      (((c.set .rax (c.ds.setWidth 64)).pushq (c.ds.setWidth 64)).set .rax
        (c.es.setWidth 64)).pushq (c.es.setWidth 64) := by
    unfold Knos.Trap.saveWholeSegments Cpu.movToRax
    simp only [gpr_set_self]
    rfl
  rw [hrax]
  exact hes

/-- The words that the handler finds at its argument. -/
theorem Cpu.Stacked.enterIgnored (h : c.Stacked xs) (hroom : xs.length + 17 < 32)
    (returnAddress : Word) :
    Holds (enterIgnored returnAddress c).memory ((enterIgnored returnAddress c).gpr .rdi)
      (c.es.setWidth 64 :: c.ds.setWidth 64 :: ((ignoredRegisters.map c.gpr).reverse ++ xs)) := by
  have hcld : c.cld.Stacked xs := h
  have hregisters := @Cpu.Stacked.saveRegisters c.cld xs ignoredRegisters hcld
    (show xs.length + 15 ≤ 32 by omega)
  have hlen : ((ignoredRegisters.map c.cld.gpr).reverse ++ xs).length = 15 + xs.length := by
    rw [List.length_append, List.length_reverse, List.length_map]
    rfl
  obtain ⟨hgpr, hds, hes⟩ := saveRegisters_keeps ignoredRegisters c.cld
  have hsegments := hregisters.saveWholeSegments (by rw [hlen]; omega)
  rw [hds, hes] at hsegments
  have hdata : (loadDataSegments (Knos.Trap.saveWholeSegments
      (Knos.Trap.saveRegisters ignoredRegisters c.cld))).Stacked _ := hsegments
  exact hdata.callDispatch (by rw [List.length_cons, List.length_cons, hlen]; omega) returnAddress

/-- Words that were not written are still there. -/
theorem holds_of_same {m m' : Memory} {p : Word} (h : Holds m p xs)
    (hsame : ∀ i < xs.length, load m' (p + BitVec.ofNat 64 (8 * i)) =
      load m (p + BitVec.ofNat 64 (8 * i))) : Holds m' p xs := by
  induction xs generalizing p with
  | nil => trivial
  | cons x xs ih =>
      refine ⟨?_, ih h.2 fun i hi => ?_⟩
      · have hfirst := hsame 0 (Nat.zero_lt_succ _)
        rw [Nat.mul_zero, BitVec.add_zero] at hfirst
        exact hfirst.trans h.1
      · have hnext := hsame (i + 1) (Nat.succ_lt_succ hi)
        rw [Nat.mul_succ, Nat.add_comm, BitVec.ofNat_add, ← BitVec.add_assoc] at hnext
        exact hnext

end Enter

/-! ## §3  The way back -/

/-- The pops are the pushes from behind. -/
theorem broughtBackRegisters_eq : broughtBackRegisters = ignoredRegisters.reverse := rfl

/-- Where the words of an interrupt end: an error code is among them. -/
def pushedWords (c : Cpu) (d : Delivery) (vector : ℕ) : List Word :=
  (if vector ∈ errorCodeVectors then [d.errorCode] else []) ++
    [c.rip, c.cs.setWidth 64, c.rflags, c.rsp, c.ss.setWidth 64]

/-- `ignore_interrupt_handler`, entered in the first state, has returned in the second: it has
taken its return address, kept the registers of the calling convention and left the words behind
its argument as they were. -/
structure IgnoredReturns (c c' : Cpu) (words : ℕ) : Prop where
  rip_eq : c'.rip = load c.memory c.rsp
  rsp_eq : c'.rsp = c.rsp + 8
  gpr_eq : ∀ r ∈ calleeSaved, c'.gpr r = c.gpr r
  words_eq : ∀ i < words, load c'.memory (c.gpr .rdi + BitVec.ofNat 64 (8 * i)) =
    load c.memory (c.gpr .rdi + BitVec.ofNat 64 (8 * i))

section Return

variable {c c' : Cpu} {d : Delivery} {returnAddress : Word} {vector : ℕ}

theorem rdi_interrupt : (c.interrupt d returnAddress vector).gpr .rdi =
    (c.interrupt d returnAddress vector).rsp + 8 := by
  unfold Cpu.interrupt enterIgnored callIgnored
  rw [gpr_pushq, gpr_set_self]
  exact (BitVec.sub_add_cancel ..).symm

theorem length_pushedWords (c : Cpu) (d : Delivery) (vector : ℕ) :
    (pushedWords c d vector).length ≤ 6 := by
  unfold pushedWords
  split <;> simp

/-- The entry finds its words again. -/
theorem IgnoredReturns.stacked
    (h : IgnoredReturns (c.interrupt d returnAddress vector) c'
      (17 + (pushedWords c d vector).length)) :
    c'.Stacked (c.es.setWidth 64 :: c.ds.setWidth 64 ::
      ((ignoredRegisters.map c.gpr).reverse ++ pushedWords c d vector)) := by
  obtain ⟨hgpr, hds, hes⟩ := deliver_keeps c d vector
  have hlen := length_pushedWords c d vector
  have hwords := @Cpu.Stacked.enterIgnored _ (pushedWords c d vector)
    (stacked_deliver c d vector) (by omega) returnAddress
  rw [hgpr, hds, hes] at hwords
  have hkept := holds_of_same hwords fun i hi => h.words_eq i <| by
    rw [List.length_cons, List.length_cons, List.length_append, List.length_reverse,
      List.length_map] at hi
    have hfifteen : ignoredRegisters.length = 15 := rfl
    omega
  have hrsp : (c.interrupt d returnAddress vector).gpr .rdi = c'.rsp := by
    rw [rdi_interrupt, h.rsp_eq]
  unfold Cpu.Stacked
  rw [← hrsp]
  exact hkept

/-- **The entry undoes itself**, down to what the processor has pushed. -/
theorem IgnoredReturns.leaveIgnored
    (h : IgnoredReturns (c.interrupt d returnAddress vector) c'
      (17 + (pushedWords c d vector).length)) :
    (leaveIgnored c').gpr = c.gpr ∧ (leaveIgnored c').ds = c.ds ∧ (leaveIgnored c').es = c.es ∧
      (leaveIgnored c').memory = c'.memory ∧
      (leaveIgnored c').Stacked (pushedWords c d vector) := by
  obtain ⟨hstack, hes, hds⟩ := h.stacked.restoreSegments
  rw [← List.map_reverse, ← broughtBackRegisters_eq] at hstack
  obtain ⟨hrest, hgpr⟩ := hstack.restoreRegisters
  obtain ⟨hds', hes', hmemory, -⟩ := restoreRegisters_keeps broughtBackRegisters (restoreSegments c')
  have hselector (s : BitVec 16) : (s.setWidth 64).setWidth 16 = s := by
    rw [BitVec.setWidth_setWidth_of_le _ (by decide), BitVec.setWidth_eq]
  refine ⟨?_, ?_, ?_, hmemory, hrest⟩
  · funext r
    have hmem : r ∈ broughtBackRegisters := by cases r <;> decide
    exact (hgpr r).trans (if_pos hmem)
  · exact hds'.trans (hds.trans (hselector c.ds))
  · exact hes'.trans (hes.trans (hselector c.es))

/-- **An ignored interrupt** leaves no trace but in memory. -/
theorem IgnoredReturns.iretq (hvector : vector ∉ errorCodeVectors)
    (h : IgnoredReturns (c.interrupt d returnAddress vector) c'
      (17 + (pushedWords c d vector).length)) :
    (Knos.Trap.leaveIgnored c').iretq = { c with memory := c'.memory } := by
  obtain ⟨hgpr, hds, hes, hmemory, hblock⟩ := h.leaveIgnored
  have hwords : pushedWords c d vector =
      [c.rip, c.cs.setWidth 64, c.rflags, c.rsp, c.ss.setWidth 64] := by
    unfold pushedWords
    rw [if_neg hvector]
    rfl
  rw [hwords] at hblock
  rw [hblock.iretq, hgpr, hds, hes, hmemory]

/-- **An ignored exception with an error code** goes on at the code, with every register of the
block taken from the word below its own. -/
theorem ignored_error_code (hvector : vector ∈ errorCodeVectors)
    (h : IgnoredReturns (c.interrupt d returnAddress vector) c'
      (17 + (pushedWords c d vector).length)) :
    (leaveIgnored c').iretq =
      { c with
        rip := d.errorCode
        cs := c.rip.setWidth 16
        rflags := c.cs.setWidth 64
        rsp := c.rflags
        ss := c.rsp.setWidth 16
        memory := c'.memory } := by
  obtain ⟨hgpr, hds, hes, hmemory, hblock⟩ := h.leaveIgnored
  have hwords : pushedWords c d vector =
      [d.errorCode, c.rip, c.cs.setWidth 64, c.rflags, c.rsp, c.ss.setWidth 64] := by
    unfold pushedWords
    rw [if_pos hvector]
    rfl
  rw [hwords] at hblock
  obtain ⟨hrip, hcs, hrflags, hrsp, hss, -⟩ := hblock
  simp only [BitVec.ofNat_eq_ofNat, BitVec.add_assoc, BitVec.reduceAdd] at hcs hrflags hrsp hss
  rw [hmemory] at hrip hcs hrflags hrsp hss
  unfold Cpu.iretq
  simp only [BitVec.ofNat_eq_ofNat, hrip, hcs, hrflags, hrsp, hss, hgpr, hds, hes, hmemory]

end Return

/-! ## §4  Programs -/

/-- An exception or an interrupt has been taken, and its handler has returned. Which entry it is,
the gate of its vector says. -/
inductive Cpu.Disturbed (c : Cpu) : Cpu → Prop where
  | exception (d : Delivery) (returnAddress : Word) (e : ExceptionEntry) (after : Cpu)
      (hreturns : DispatchReturns (c.raise d returnAddress e) after) :
      Cpu.Disturbed c (leaveDispatch after).iretq
  | interrupt (d : Delivery) (returnAddress : Word) (vector : ℕ) (after : Cpu)
      (hentry : entryOf vector = none) (hvector : vector ∉ errorCodeVectors)
      (hreturns : IgnoredReturns (c.interrupt d returnAddress vector) after 22) :
      Cpu.Disturbed c (leaveIgnored after).iretq

theorem Cpu.Disturbed.eq {c c' : Cpu} (h : c.Disturbed c') : c' = { c with memory := c'.memory } := by
  cases h with
  | exception d returnAddress e after hreturns =>
      rw [hreturns.iretq_leaveDispatch]
  | interrupt d returnAddress vector after hentry hvector hreturns =>
      have hlen : 17 + (pushedWords c d vector).length = 22 := by
        unfold pushedWords
        rw [if_neg hvector]
        rfl
      rw [← hlen] at hreturns
      rw [hreturns.iretq hvector]

/-- **A program survives** any number of exceptions and interrupts, in any order: its whole state
is what it was, but for what the handlers have written to memory. -/
theorem program_survives {c c' : Cpu} (h : Relation.ReflTransGen Cpu.Disturbed c c') :
    c' = { c with memory := c'.memory } := by
  induction h with
  | refl => rfl
  | tail _ hstep ih =>
      rw [hstep.eq, ih]

theorem ignoredReturns_scratched (c : Cpu) (words : ℕ) : IgnoredReturns c (scratched c) words where
  rip_eq := rfl
  rsp_eq := rfl
  gpr_eq := fun _ hr => if_pos hr
  words_eq := fun _ _ => rfl

/-- A page fault and then the timer. -/
theorem program_survives_timer : ∃ c', Relation.ReflTransGen Cpu.Disturbed r15State c' ∧
    c' = { r15State with memory := c'.memory } := by
  have hfault : r15State.Disturbed _ :=
    .exception r15Delivery 0x102000 .pageFault _ (dispatchReturns_scratched _)
  have htimer := fun c : Cpu => Cpu.Disturbed.interrupt r15Delivery 0x103000 32 _ (by decide)
    (by decide) (ignoredReturns_scratched (c.interrupt r15Delivery 0x103000 32) 22)
  have hrun := (Relation.ReflTransGen.single hfault).tail (htimer _)
  exact ⟨_, hrun, program_survives hrun⟩

end Knos.Trap
