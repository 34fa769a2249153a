import Knos.Trap.Layout

/-!
# The way back from `dispatch_exception`

After the call the stub pops what it pushed, in mirror order, drops vector and error code and
ends with `iretq`. It trusts the stack alone: of the callee it needs that RSP is back and that
the 24 words of the frame are as they were (`DispatchReturns`), so the registers and all
other memory may be anything. The names of `struct register_frame` play no part here. What was
pushed at a slot is popped from it, whatever the structure calls it.

An interrupted program goes on with its whole state, memory apart
(`interrupted_program_resumes`).
-/

namespace Knos.Trap

open Knos.Stack

/-! ## §1  The second half of `common_exception_stub` -/

/-- The general registers in the order they are popped. -/
def restoredRegisters : List Gpr :=
  [.r15, .r14, .r13, .r12, .r11, .r10, .r9, .r8, .rdi, .rsi, .rbp, .rdx, .rcx, .rbx, .rax]

def restoreRegisters (rs : List Gpr) (c : Cpu) : Cpu := rs.foldl (fun c r => c.popq r) c

/-- Both selectors come back through AX. They have been in these registers before, so that
loading them does not fault. -/
def restoreSegments (c : Cpu) : Cpu :=
  let c := c.popq .rax
  let c := { c with es := (c.gpr .rax).setWidth 16 }
  let c := c.popq .rax
  { c with ds := (c.gpr .rax).setWidth 16 }

/-- The bit at position `i`, if `b`. -/
def flag (i : ℕ) (b : Bool) : Word := if b then BitVec.twoPow 64 i else 0

/-- RFLAGS after an addition: carry, parity, auxiliary carry, zero, sign and overflow. -/
def addFlags (rflags x y : Word) : Word :=
  let sum := x + y
  (rflags &&& ~~~0x8d5#64) |||
    flag 0 (BitVec.uaddOverflow x y) |||
    flag 2 ((List.range 8).countP (fun i => sum.getLsbD i) % 2 = 0) |||
    flag 4 (BitVec.uaddOverflow (x.setWidth 4) (y.setWidth 4)) |||
    flag 6 (sum = 0) |||
    flag 7 sum.msb |||
    flag 11 (BitVec.saddOverflow x y)

/-- `addq` of an immediate to RSP -/
def Cpu.addqRsp (c : Cpu) (n : Word) : Cpu :=
  { c with rsp := c.rsp + n, rflags := addFlags c.rflags c.rsp n }

/-- The stub from the return of `dispatch_exception` up to `iretq`. -/
def leaveDispatch (c : Cpu) : Cpu :=
  (restoreRegisters restoredRegisters (restoreSegments c)).addqRsp 16

/-- `iretq` takes five words. Its checks of privilege are left out: it goes back to the
privilege the processor came from. -/
def Cpu.iretq (c : Cpu) : Cpu :=
  { c with
    rip := load c.memory c.rsp
    cs := (load c.memory (c.rsp + 8)).setWidth 16
    rflags := load c.memory (c.rsp + 16)
    rsp := load c.memory (c.rsp + 24)
    ss := (load c.memory (c.rsp + 32)).setWidth 16 }

/-! ## §2  The call -/

/-- The registers a function keeps. -/
def calleeSaved : List Gpr := [.rbx, .rbp, .r12, .r13, .r14, .r15]

/-- `dispatch_exception`, entered in the first state, has returned in the second: it has taken
its return address from the stack, kept the registers of the calling convention and left the
frame behind its argument as it was. -/
structure DispatchReturns (c c' : Cpu) : Prop where
  rip_eq : c'.rip = load c.memory c.rsp
  rsp_eq : c'.rsp = c.rsp + 8
  gpr_eq : ∀ r ∈ calleeSaved, c'.gpr r = c.gpr r
  frame_eq : RegisterFrame.at c'.memory (c.gpr .rdi) = RegisterFrame.at c.memory (c.gpr .rdi)

/-- The words of the structure in its order. -/
def RegisterFrame.words (f : RegisterFrame) : List Word :=
  [f.r15, f.r14, f.r13, f.r12, f.r11, f.r10, f.r9, f.r8, f.rdi, f.rsi, f.rbp, f.rdx, f.rcx, f.rbx,
    f.rax, f.es, f.ds, f.vector, f.errorCode, f.rip, f.cs, f.rflags, f.rsp, f.ss]

theorem RegisterFrame.holds_at (m : Memory) (p : Word) : Holds m p (RegisterFrame.at m p).words := by
  simp only [RegisterFrame.words, RegisterFrame.at, Holds, BitVec.ofNat_eq_ofNat,
    BitVec.add_assoc, BitVec.reduceAdd, and_self]

/-- The address of the five words that the processor pushed. -/
def Delivery.block (d : Delivery) : Word := (d.stack &&& ~~~15#64) - 40

section Call

variable (c : Cpu) (d : Delivery) (returnAddress : Word) (e : ExceptionEntry)

/-- The argument of the call is where the stack lies once it has returned. -/
theorem rsp_raise : (c.raise d returnAddress e).rsp + 8 = (c.raise d returnAddress e).gpr .rdi := by
  unfold Cpu.raise enterDispatch callDispatch
  rw [gpr_pushq, gpr_set_self]
  exact BitVec.sub_add_cancel ..

theorem rsp_saveRegisters (rs : List Gpr) :
    (saveRegisters rs c).rsp = c.rsp - BitVec.ofNat 64 (8 * rs.length) := by
  induction rs generalizing c with
  | nil => exact (BitVec.sub_zero ..).symm
  | cons r rs ih =>
      refine (ih (c.pushq (c.gpr r))).trans ?_
      show c.rsp - 8 - BitVec.ofNat 64 (8 * rs.length) = _
      rw [sub_sub, List.length_cons, Nat.mul_succ, Nat.add_comm, BitVec.ofNat_add]
      rfl

/-- Vector and error code lie below the block, whoever pushed the error code. -/
theorem rsp_exceptionEntry : (exceptionEntry e (c.deliver d e.vector)).rsp = d.block - 16 := by
  unfold Delivery.block
  cases e <;>
  · simp only [exceptionEntry, exceptionEntryNoErrCode, exceptionEntryErrCode, Cpu.deliver,
      ExceptionEntry.vector, errorCodeVectors, Cpu.pushq, List.mem_cons]
    simp [sub_sub]

/-- **The frame** begins 152 bytes below the block. -/
theorem rdi_raise : (c.raise d returnAddress e).gpr .rdi = d.block - 152 := by
  unfold Cpu.raise enterDispatch callDispatch
  rw [gpr_pushq, gpr_set_self]
  show (saveRegisters savedRegisters (exceptionEntry e (c.deliver d e.vector))).rsp - 8 - 8 = _
  rw [rsp_saveRegisters, rsp_exceptionEntry]
  simp [savedRegisters, sub_sub]

end Call

/-! ## §3  The pops -/

section Pops

variable {c : Cpu} {x : Word} {xs : List Word}

theorem Cpu.Stacked.popq (h : c.Stacked (x :: xs)) (r : Gpr) : (c.popq r).Stacked xs := h.2

theorem Cpu.Stacked.gpr_popq (h : c.Stacked (x :: xs)) (r : Gpr) :
    (c.popq r).gpr = Function.update c.gpr r x := by
  show Function.update c.gpr r (load c.memory c.rsp) = _
  rw [h.1]

/-- Popping the registers of a list takes their words from the stack, in its order. -/
theorem Cpu.Stacked.restoreRegisters {rs : List Gpr} (g : Gpr → Word)
    (h : c.Stacked (rs.map g ++ xs)) :
    (restoreRegisters rs c).Stacked xs ∧
      ∀ r, (restoreRegisters rs c).gpr r = if r ∈ rs then g r else c.gpr r := by
  induction rs generalizing c with
  | nil => exact ⟨h, fun r => (if_neg List.not_mem_nil).symm⟩
  | cons r rs ih =>
      obtain ⟨hrest, hgpr⟩ := ih (h.popq r)
      refine ⟨hrest, fun q => (hgpr q).trans ?_⟩
      rw [h.gpr_popq r]
      by_cases hlater : q ∈ rs
      · rw [if_pos hlater, if_pos (List.mem_cons_of_mem r hlater)]
      · rw [if_neg hlater]
        rcases eq_or_ne q r with rfl | hne
        · rw [Function.update_self, if_pos List.mem_cons_self]
        · rw [Function.update_of_ne hne, if_neg (List.not_mem_cons_of_ne_of_not_mem hne hlater)]

/-- Popping registers changes nothing else. -/
theorem restoreRegisters_keeps (rs : List Gpr) (c : Cpu) :
    (restoreRegisters rs c).ds = c.ds ∧ (restoreRegisters rs c).es = c.es ∧
      (restoreRegisters rs c).memory = c.memory ∧
      (restoreRegisters rs c).rsp = c.rsp + BitVec.ofNat 64 (8 * rs.length) := by
  induction rs generalizing c with
  | nil => exact ⟨rfl, rfl, rfl, (BitVec.add_zero ..).symm⟩
  | cons r rs ih =>
      obtain ⟨hds, hes, hmemory, hrsp⟩ := ih (c.popq r)
      refine ⟨hds, hes, hmemory, hrsp.trans ?_⟩
      show c.rsp + 8 + BitVec.ofNat 64 (8 * rs.length) = _
      rw [add_assoc, List.length_cons, Nat.mul_succ, Nat.add_comm, BitVec.ofNat_add]
      rfl

/-- The selector in a word comes out of it. -/
theorem setWidth_withLow16 (x : Word) (s : BitVec 16) : (withLow16 x s).setWidth 16 = s := by
  apply BitVec.eq_of_getLsbD_eq
  intro i hi
  rw [BitVec.getLsbD_setWidth, getLsbD_withLow16 x s (by omega), if_pos hi, decide_eq_true hi,
    Bool.true_and]

/-- ES is taken from the lower word and DS from the upper one. -/
theorem Cpu.Stacked.restoreSegments {y : Word} (h : c.Stacked (y :: x :: xs)) :
    (restoreSegments c).Stacked xs ∧ (restoreSegments c).es = y.setWidth 16 ∧
      (restoreSegments c).ds = x.setWidth 16 := by
  obtain ⟨hes, hds, hrest⟩ := h
  refine ⟨hrest, ?_, ?_⟩
  · show ((c.popq .rax).gpr .rax).setWidth 16 = _
    rw [Cpu.popq, gpr_set_self, hes]
  · show ((c.popq .rax).popq .rax |>.gpr .rax).setWidth 16 = _
    rw [Cpu.popq, gpr_set_self]
    exact congrArg (BitVec.setWidth 16) hds

end Pops

/-! ## §4  The whole way -/

/-- The pops are the pushes from behind. -/
theorem restoredRegisters_eq : restoredRegisters = savedRegisters.reverse := rfl

theorem mem_restoredRegisters (r : Gpr) : r ∈ restoredRegisters := by
  cases r <;> decide

section Way

variable {c c' : Cpu} {xs : List Word}

theorem rsp_leaveDispatch : (leaveDispatch c).rsp = c.rsp + 152 := by
  obtain ⟨-, -, -, hrsp⟩ := restoreRegisters_keeps restoredRegisters (restoreSegments c)
  show (restoreRegisters restoredRegisters (restoreSegments c)).rsp + 16 = _
  rw [hrsp]
  show c.rsp + 8 + 8 + _ + 16 = _
  simp [restoredRegisters, add_assoc]

/-- **The stub undoes itself**: what its first half pushed, its second half brings back, whatever
the registers held in between. -/
theorem Cpu.Stacked.leaveDispatch {vector errorCode : Word} {x : Word}
    (h : c'.Stacked (withLow16 x c.es :: withLow16 x c.ds ::
      ((savedRegisters.map c.gpr).reverse ++ vector :: errorCode :: xs))) :
    (leaveDispatch c').gpr = c.gpr ∧ (leaveDispatch c').ds = c.ds ∧
      (leaveDispatch c').es = c.es ∧ (leaveDispatch c').memory = c'.memory ∧
      (leaveDispatch c').Stacked xs := by
  obtain ⟨hstack, hes, hds⟩ := h.restoreSegments
  rw [← List.map_reverse, ← restoredRegisters_eq] at hstack
  obtain ⟨hrest, hgpr⟩ := hstack.restoreRegisters
  obtain ⟨hds', hes', hmemory, -⟩ :=
    restoreRegisters_keeps restoredRegisters (Knos.Trap.restoreSegments c')
  unfold Knos.Trap.leaveDispatch
  generalize Knos.Trap.restoreRegisters restoredRegisters (Knos.Trap.restoreSegments c') = popped
    at *
  refine ⟨?_, ?_, ?_, hmemory, ?_⟩
  · funext r
    exact (hgpr r).trans (if_pos (mem_restoredRegisters r))
  · exact hds'.trans (hds.trans (setWidth_withLow16 x c.ds))
  · exact hes'.trans (hes.trans (setWidth_withLow16 x c.es))
  · have hblock := hrest.2.2
    rw [BitVec.add_assoc] at hblock
    exact hblock

/-- `iretq` with the block of a state on the stack. -/
theorem Cpu.Stacked.iretq (h : c'.Stacked
    [c.rip, c.cs.setWidth 64, c.rflags, c.rsp, c.ss.setWidth 64]) :
    c'.iretq = { c with
      gpr := c'.gpr, ds := c'.ds, es := c'.es, memory := c'.memory } := by
  obtain ⟨hrip, hcs, hrflags, hrsp, hss, -⟩ := h
  have hselector (s : BitVec 16) : (s.setWidth 64).setWidth 16 = s := by
    rw [BitVec.setWidth_setWidth_of_le _ (by decide), BitVec.setWidth_eq]
  simp only [BitVec.ofNat_eq_ofNat, BitVec.add_assoc, BitVec.reduceAdd] at hcs hrflags hrsp hss
  unfold Cpu.iretq
  simp only [BitVec.ofNat_eq_ofNat, hrip, hcs, hrflags, hrsp, hss, hselector]

end Way

section Return

variable (c : Cpu) (d : Delivery) (returnAddress : Word) (e : ExceptionEntry) {c' : Cpu}

/-- The stub finds its 24 words again, at the address it passed. -/
theorem DispatchReturns.stacked (h : DispatchReturns (c.raise d returnAddress e) c') :
    c'.Stacked (withLow16 (c.gpr .rax) c.es :: withLow16 (c.gpr .rax) c.ds ::
      ((savedRegisters.map c.gpr).reverse ++ BitVec.ofNat 64 e.vector :: errorDatum d e ::
        [c.rip, c.cs.setWidth 64, c.rflags, c.rsp, c.ss.setWidth 64])) := by
  have hwords := RegisterFrame.holds_at c'.memory ((c.raise d returnAddress e).gpr .rdi)
  have hreceived : RegisterFrame.at (c.raise d returnAddress e).memory
      ((c.raise d returnAddress e).gpr .rdi) = receivedFrame c d returnAddress e := rfl
  rw [h.frame_eq, hreceived, receivedFrame_eq, ← rsp_raise, ← h.rsp_eq] at hwords
  exact hwords

/-- The stack is at the block of the processor when the stub gets to `iretq`. -/
theorem DispatchReturns.rsp_leaveDispatch (h : DispatchReturns (c.raise d returnAddress e) c') :
    (leaveDispatch c').rsp = d.block := by
  rw [Knos.Trap.rsp_leaveDispatch, h.rsp_eq, rsp_raise, rdi_raise]
  exact BitVec.sub_add_cancel ..

theorem DispatchReturns.iretq_leaveDispatch (h : DispatchReturns (c.raise d returnAddress e) c') :
    (leaveDispatch c').iretq = { c with memory := c'.memory } := by
  obtain ⟨hgpr, hds, hes, hmemory, hblock⟩ := (h.stacked c d returnAddress e).leaveDispatch
  rw [hblock.iretq, hgpr, hds, hes, hmemory]

/-- **An interrupted program resumes**: every register is back when the stub gets to `iretq`,
with the stack at the block of the processor, and `iretq` goes on where the exception came. -/
theorem interrupted_program_resumes (h : DispatchReturns (c.raise d returnAddress e) c') :
    (leaveDispatch c').gpr = c.gpr ∧ (leaveDispatch c').ds = c.ds ∧ (leaveDispatch c').es = c.es ∧
      (leaveDispatch c').rsp = d.block ∧
      (leaveDispatch c').Stacked
        [c.rip, c.cs.setWidth 64, c.rflags, c.rsp, c.ss.setWidth 64] ∧
      (leaveDispatch c').iretq = { c with memory := c'.memory } := by
  obtain ⟨hgpr, hds, hes, -, hblock⟩ := (h.stacked c d returnAddress e).leaveDispatch
  exact ⟨hgpr, hds, hes, h.rsp_leaveDispatch c d returnAddress e, hblock,
    h.iretq_leaveDispatch c d returnAddress e⟩

end Return

/-! ## §5  A callee that uses what it may -/

/-- The return with every register cleared that is not to be kept. -/
def scratched (c : Cpu) : Cpu where
  gpr := fun r => if r ∈ calleeSaved then c.gpr r else 0
  rsp := c.rsp + 8
  rip := load c.memory c.rsp
  rflags := 0x2
  cs := c.cs
  ss := c.ss
  ds := 0
  es := 0
  memory := c.memory

theorem dispatchReturns_scratched (c : Cpu) : DispatchReturns c (scratched c) where
  rip_eq := rfl
  rsp_eq := rfl
  gpr_eq := fun _ hr => if_pos hr
  frame_eq := rfl

/-- With and without an error code. -/
theorem interrupted_program_resumes_scratched :
    (leaveDispatch (scratched (r15State.raise r15Delivery 0x102000 .divideError))).gpr .r15 =
        0x1234 ∧
      (leaveDispatch (scratched (r15State.raise r15Delivery 0x102000 .pageFault))).iretq.rip =
        0x100000 := by
  obtain ⟨hgpr, -⟩ := interrupted_program_resumes r15State r15Delivery 0x102000 .divideError
    (dispatchReturns_scratched _)
  obtain ⟨-, -, -, -, -, hresumed⟩ := interrupted_program_resumes r15State r15Delivery 0x102000
    .pageFault (dispatchReturns_scratched _)
  rw [hgpr, hresumed]
  exact ⟨rfl, rfl⟩

/-! ## §6  One exception after another -/

/-- An exception has been taken and its handler has returned. -/
def Cpu.Interrupted (c c' : Cpu) : Prop :=
  ∃ d returnAddress e after, DispatchReturns (c.raise d returnAddress e) after ∧
    c' = (leaveDispatch after).iretq

/-- A program keeps its registers over any number of exceptions. -/
theorem registers_survive_exceptions {c c' : Cpu}
    (h : Relation.ReflTransGen Cpu.Interrupted c c') : c' = { c with memory := c'.memory } := by
  induction h with
  | refl => rfl
  | tail _ hstep ih =>
      obtain ⟨d, returnAddress, e, after, hreturns, rfl⟩ := hstep
      rw [hreturns.iretq_leaveDispatch, ih]

end Knos.Trap
