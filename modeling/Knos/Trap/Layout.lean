import Knos.Trap.Frame

/-!
# The frame that `dispatch_exception` receives

The stub pushes DS and ES last, so they lie below the general registers; the structure has
them above. The upper part of the frame, from the vector to SS, is where the structure says.
The fifteen general registers are found two slots further down than they lie, and the two
selectors are read from the slots of RBX and RAX (`receivedFrame_eq`). Nothing is wrong with
the frame only where nothing can be told apart: all fifteen registers and both selectors hold
one value (`frame_faithful_iff`).
-/

namespace Knos.Trap

open Knos.Stack

/-! ## §1  The stack under the stub -/

section Steps

variable {c : Cpu} {xs : List Word}

/-- The words on the stack of the machine. -/
def Cpu.Stacked (c : Cpu) (xs : List Word) : Prop := Holds c.memory c.rsp xs

theorem Cpu.Stacked.pushq (h : c.Stacked xs) (hroom : xs.length < 32) (v : Word) :
    (c.pushq v).Stacked (v :: xs) :=
  h.push (by omega) v

@[simp] theorem gpr_pushq (v : Word) : (c.pushq v).gpr = c.gpr := rfl

theorem Cpu.Stacked.set (h : c.Stacked xs) (r : Gpr) (v : Word) : (c.set r v).Stacked xs := h

@[simp] theorem gpr_set_self (r : Gpr) (v : Word) : (c.set r v).gpr r = v := Function.update_self ..

/-- A register list comes to lie in reverse, the last one pushed lowest. -/
theorem Cpu.Stacked.saveRegisters {rs : List Gpr} (h : c.Stacked xs)
    (hroom : xs.length + rs.length ≤ 32) :
    (saveRegisters rs c).Stacked ((rs.map c.gpr).reverse ++ xs) := by
  induction rs generalizing c xs with
  | nil => exact h
  | cons r rs ih =>
      rw [List.length_cons] at hroom
      rw [List.map_cons, List.reverse_cons, List.append_assoc]
      refine ih (h.pushq (by omega) (c.gpr r)) ?_
      show xs.length + 1 + rs.length ≤ 32
      omega

/-- Saving changes no register. -/
theorem saveRegisters_keeps (rs : List Gpr) (c : Cpu) :
    (saveRegisters rs c).gpr = c.gpr ∧ (saveRegisters rs c).ds = c.ds ∧
      (saveRegisters rs c).es = c.es := by
  induction rs generalizing c with
  | nil => exact ⟨rfl, rfl, rfl⟩
  | cons r rs ih => exact ih (c.pushq (c.gpr r))

theorem getLsbD_withLow16 (x : Word) (s : BitVec 16) {i : ℕ} (hi : i < 64) :
    (withLow16 x s).getLsbD i = if i < 16 then s.getLsbD i else x.getLsbD i := by
  have hmask : (0xffff#64).getLsbD i = decide (i < 16) := by
    show ((BitVec.allOnes 16).setWidth 64).getLsbD i = _
    rw [BitVec.getLsbD_setWidth, BitVec.getLsbD_allOnes, decide_eq_true hi, Bool.true_and]
  unfold withLow16
  rw [BitVec.getLsbD_or, BitVec.getLsbD_and, BitVec.getLsbD_not, BitVec.getLsbD_setWidth, hmask]
  rcases Nat.lt_or_ge i 16 with hlow | hhigh
  · simp [hi, hlow]
  · rw [BitVec.getLsbD_of_ge s i hhigh, if_neg (Nat.not_lt.mpr hhigh)]
    simp [hi, Nat.not_lt.mpr hhigh]

theorem withLow16_withLow16 (x : Word) (s s' : BitVec 16) :
    withLow16 (withLow16 x s) s' = withLow16 x s' := by
  apply BitVec.eq_of_getLsbD_eq
  intro i hi
  rw [getLsbD_withLow16 _ s' hi, getLsbD_withLow16 _ s hi, getLsbD_withLow16 x s' hi]
  split <;> rfl

/-- A register without upper bits takes on the selector. -/
theorem withLow16_setWidth (s s' : BitVec 16) :
    withLow16 (s.setWidth 64) s' = s'.setWidth 64 := by
  apply BitVec.eq_of_getLsbD_eq
  intro i hi
  rw [getLsbD_withLow16 _ s' hi, BitVec.getLsbD_setWidth, BitVec.getLsbD_setWidth,
    decide_eq_true hi, Bool.true_and, Bool.true_and]
  split
  · rfl
  · rw [BitVec.getLsbD_of_ge s i (by omega), BitVec.getLsbD_of_ge s' i (by omega)]

/-- The selector of ES comes to lie below that of DS, each with the upper bits of RAX. -/
theorem Cpu.Stacked.saveSegments (h : c.Stacked xs) (hroom : xs.length + 2 ≤ 32) :
    (saveSegments c).Stacked
      (withLow16 (c.gpr .rax) c.es :: withLow16 (c.gpr .rax) c.ds :: xs) := by
  have hds := (h.set .rax (withLow16 (c.gpr .rax) c.ds)).pushq (by omega)
    (withLow16 (c.gpr .rax) c.ds)
  have hes := (hds.set .rax (withLow16 (c.gpr .rax) c.es)).pushq
    (by rw [List.length_cons]; omega) (withLow16 (c.gpr .rax) c.es)
  have hax : Knos.Trap.saveSegments c =
      (((c.set .rax (withLow16 (c.gpr .rax) c.ds)).pushq (withLow16 (c.gpr .rax) c.ds)).set .rax
        (withLow16 (c.gpr .rax) c.es)).pushq (withLow16 (c.gpr .rax) c.es) := by
    unfold Knos.Trap.saveSegments Cpu.movwToAx
    simp only [gpr_pushq, gpr_set_self, withLow16_withLow16]
    rfl
  rw [hax]
  exact hes

theorem Cpu.Stacked.loadKernelSegments (h : c.Stacked xs) : (loadKernelSegments c).Stacked xs := h

/-- The return address is pushed below the words that RDI points at. -/
theorem Cpu.Stacked.callDispatch (h : c.Stacked xs) (hroom : xs.length < 32)
    (returnAddress : Word) :
    Holds (callDispatch returnAddress c).memory ((callDispatch returnAddress c).gpr .rdi) xs := by
  have hbelow := (h.pushq hroom returnAddress).2
  rw [show (c.pushq returnAddress).rsp + 8 = c.rsp from BitVec.sub_add_cancel ..] at hbelow
  show Holds _ ((c.set .rdi c.rsp).gpr .rdi) xs
  rw [gpr_set_self]
  exact hbelow

/-! ## §2  The whole stub -/

theorem Cpu.Stacked.enterDispatch (h : c.Stacked xs) (hroom : xs.length + 17 < 32)
    (returnAddress : Word) :
    Holds (enterDispatch returnAddress c).memory ((enterDispatch returnAddress c).gpr .rdi)
      (withLow16 (c.gpr .rax) c.es :: withLow16 (c.gpr .rax) c.ds ::
        ((savedRegisters.map c.gpr).reverse ++ xs)) := by
  have hlen : ((savedRegisters.map c.gpr).reverse ++ xs).length = 15 + xs.length := by
    rw [List.length_append, List.length_reverse, List.length_map]
    rfl
  have hregisters := @Cpu.Stacked.saveRegisters c xs savedRegisters h
    (show xs.length + 15 ≤ 32 by omega)
  have hsegments := hregisters.saveSegments (by rw [hlen]; omega)
  obtain ⟨hgpr, hds, hes⟩ := saveRegisters_keeps savedRegisters c
  rw [hgpr, hds, hes] at hsegments
  exact hsegments.loadKernelSegments.callDispatch
    (by rw [List.length_cons, List.length_cons, hlen]; omega) returnAddress

theorem Cpu.Stacked.exceptionEntry (h : c.Stacked xs) (hroom : xs.length + 2 ≤ 32)
    (e : ExceptionEntry) : (exceptionEntry e c).Stacked (BitVec.ofNat 64 e.vector ::
      if e.vector ∈ errorCodeVectors then xs else 0 :: xs) := by
  have hplain (v : ℕ) :
      (exceptionEntryNoErrCode v c).Stacked (BitVec.ofNat 64 v :: (0 : Word) :: xs) :=
    (h.pushq (by omega) 0).pushq (by rw [List.length_cons]; omega) _
  have hcode (v : ℕ) : (exceptionEntryErrCode v c).Stacked (BitVec.ofNat 64 v :: xs) :=
    h.pushq (by omega) _
  cases e with
  | doubleFault => exact hcode 8
  | invalidTss => exact hcode 10
  | segmentNotPresent => exact hcode 11
  | stackSegment => exact hcode 12
  | generalProtection => exact hcode 13
  | pageFault => exact hcode 14
  | alignmentCheck => exact hcode 17
  | _ => exact hplain _

end Steps

/-- The error code of an exception, or the placeholder. -/
def errorDatum (d : Delivery) (e : ExceptionEntry) : Word :=
  if e.vector ∈ errorCodeVectors then d.errorCode else 0

section Stub

variable (c : Cpu) (d : Delivery) (returnAddress : Word) (e : ExceptionEntry)

/-- The words the processor pushes. -/
theorem stacked_deliver (vector : ℕ) :
    (c.deliver d vector).Stacked ((if vector ∈ errorCodeVectors then [d.errorCode] else []) ++
      [c.rip, c.cs.setWidth 64, c.rflags, c.rsp, c.ss.setWidth 64]) := by
  have hempty : ({ c with rsp := d.stack &&& ~~~15#64 } : Cpu).Stacked [] := trivial
  have hss := hempty.pushq (show 0 < 32 by decide) (c.ss.setWidth 64)
  have hrsp := hss.pushq (show 1 < 32 by decide) c.rsp
  have hrflags := hrsp.pushq (show 2 < 32 by decide) c.rflags
  have hcs := hrflags.pushq (show 3 < 32 by decide) (c.cs.setWidth 64)
  have hrip := hcs.pushq (show 4 < 32 by decide) c.rip
  unfold Cpu.deliver
  by_cases h : vector ∈ errorCodeVectors
  · simp only [if_pos h]
    exact hrip.pushq (show 5 < 32 by decide) d.errorCode
  · simp only [if_neg h]
    exact hrip

/-- The words above the general registers. -/
theorem stacked_exceptionEntry : (exceptionEntry e (c.deliver d e.vector)).Stacked
    [BitVec.ofNat 64 e.vector, errorDatum d e, c.rip, c.cs.setWidth 64, c.rflags, c.rsp,
      c.ss.setWidth 64] := by
  have hdeliver := stacked_deliver c d e.vector
  unfold errorDatum
  by_cases h : e.vector ∈ errorCodeVectors
  · rw [if_pos h] at hdeliver ⊢
    have hentry := hdeliver.exceptionEntry (show 6 + 2 ≤ 32 by decide) e
    rwa [if_pos h] at hentry
  · rw [if_neg h] at hdeliver ⊢
    have hentry := hdeliver.exceptionEntry (show 5 + 2 ≤ 32 by decide) e
    rwa [if_neg h] at hentry

/-- The processor changes no register that the stub saves. -/
theorem deliver_keeps (vector : ℕ) : (c.deliver d vector).gpr = c.gpr ∧
    (c.deliver d vector).ds = c.ds ∧ (c.deliver d vector).es = c.es := by
  unfold Cpu.deliver
  by_cases h : vector ∈ errorCodeVectors
  · simp only [if_pos h]
    exact ⟨rfl, rfl, rfl⟩
  · simp only [if_neg h]
    exact ⟨rfl, rfl, rfl⟩

theorem exceptionEntry_keeps : (exceptionEntry e c).gpr = c.gpr ∧
    (exceptionEntry e c).ds = c.ds ∧ (exceptionEntry e c).es = c.es := by
  cases e <;> exact ⟨rfl, rfl, rfl⟩

/-- **The stack of `dispatch_exception`**: 24 words, and RDI points at the first of them. -/
theorem stacked_raise : Holds (c.raise d returnAddress e).memory
    ((c.raise d returnAddress e).gpr .rdi)
    [withLow16 (c.gpr .rax) c.es, withLow16 (c.gpr .rax) c.ds, c.gpr .r15, c.gpr .r14, c.gpr .r13,
      c.gpr .r12, c.gpr .r11, c.gpr .r10, c.gpr .r9, c.gpr .r8, c.gpr .rdi, c.gpr .rsi, c.gpr .rbp,
      c.gpr .rdx, c.gpr .rcx, c.gpr .rbx, c.gpr .rax, BitVec.ofNat 64 e.vector, errorDatum d e,
      c.rip, c.cs.setWidth 64, c.rflags, c.rsp, c.ss.setWidth 64] := by
  obtain ⟨hgpr₁, hds₁, hes₁⟩ := deliver_keeps c d e.vector
  obtain ⟨hgpr₂, hds₂, hes₂⟩ := exceptionEntry_keeps (c.deliver d e.vector) e
  have hstub := (stacked_exceptionEntry c d e).enterDispatch (show 7 + 17 < 32 by decide)
    returnAddress
  rw [hgpr₂, hds₂, hes₂, hgpr₁, hds₁, hes₁] at hstub
  exact hstub

end Stub

/-! ## §3  The structure -/

/-- The structure read where 24 words lie. -/
theorem RegisterFrame.at_of_holds {m : Memory} {p : Word} {w₀ w₁ w₂ w₃ w₄ w₅ w₆ w₇ w₈ w₉ w₁₀ w₁₁
    w₁₂ w₁₃ w₁₄ w₁₅ w₁₆ w₁₇ w₁₈ w₁₉ w₂₀ w₂₁ w₂₂ w₂₃ : Word}
    (h : Holds m p [w₀, w₁, w₂, w₃, w₄, w₅, w₆, w₇, w₈, w₉, w₁₀, w₁₁, w₁₂, w₁₃, w₁₄, w₁₅, w₁₆, w₁₇,
      w₁₈, w₁₉, w₂₀, w₂₁, w₂₂, w₂₃]) :
    RegisterFrame.at m p = ⟨w₀, w₁, w₂, w₃, w₄, w₅, w₆, w₇, w₈, w₉, w₁₀, w₁₁, w₁₂, w₁₃, w₁₄, w₁₅,
      w₁₆, w₁₇, w₁₈, w₁₉, w₂₀, w₂₁, w₂₂, w₂₃⟩ := by
  simp only [Holds, BitVec.ofNat_eq_ofNat, BitVec.add_assoc, BitVec.reduceAdd, and_true] at h
  unfold RegisterFrame.at
  simp only [BitVec.ofNat_eq_ofNat, h]

section Received

variable (c : Cpu) (d : Delivery) (returnAddress : Word) (e : ExceptionEntry)

/-- **What the handler sees**, field by field. -/
theorem receivedFrame_eq : receivedFrame c d returnAddress e =
    { r15 := withLow16 (c.gpr .rax) c.es
      r14 := withLow16 (c.gpr .rax) c.ds
      r13 := c.gpr .r15
      r12 := c.gpr .r14
      r11 := c.gpr .r13
      r10 := c.gpr .r12
      r9 := c.gpr .r11
      r8 := c.gpr .r10
      rdi := c.gpr .r9
      rsi := c.gpr .r8
      rbp := c.gpr .rdi
      rdx := c.gpr .rsi
      rcx := c.gpr .rbp
      rbx := c.gpr .rdx
      rax := c.gpr .rcx
      es := c.gpr .rbx
      ds := c.gpr .rax
      vector := BitVec.ofNat 64 e.vector
      errorCode := errorDatum d e
      rip := c.rip
      cs := c.cs.setWidth 64
      rflags := c.rflags
      rsp := c.rsp
      ss := c.ss.setWidth 64 } :=
  RegisterFrame.at_of_holds (stacked_raise c d returnAddress e)

/-- The frame the structure's names ask for. -/
def interruptedFrame : RegisterFrame where
  r15 := c.gpr .r15
  r14 := c.gpr .r14
  r13 := c.gpr .r13
  r12 := c.gpr .r12
  r11 := c.gpr .r11
  r10 := c.gpr .r10
  r9 := c.gpr .r9
  r8 := c.gpr .r8
  rdi := c.gpr .rdi
  rsi := c.gpr .rsi
  rbp := c.gpr .rbp
  rdx := c.gpr .rdx
  rcx := c.gpr .rcx
  rbx := c.gpr .rbx
  rax := c.gpr .rax
  es := c.es.setWidth 64
  ds := c.ds.setWidth 64
  vector := BitVec.ofNat 64 e.vector
  errorCode := errorDatum d e
  rip := c.rip
  cs := c.cs.setWidth 64
  rflags := c.rflags
  rsp := c.rsp
  ss := c.ss.setWidth 64

/-- Every general register holds the selector that is in both DS and ES. -/
def Cpu.Indistinct : Prop := c.ds = c.es ∧ ∀ r, c.gpr r = c.es.setWidth 64

theorem setWidth_injective {s s' : BitVec 16} (h : s.setWidth 64 = s'.setWidth 64) : s = s' := by
  apply BitVec.eq_of_getLsbD_eq
  intro i hi
  have hbit := congrArg (fun x : Word => x.getLsbD i) h
  simpa only [BitVec.getLsbD_setWidth, decide_eq_true (show i < 64 by omega), Bool.true_and]
    using hbit

theorem frame_faithful_iff :
    receivedFrame c d returnAddress e = interruptedFrame c d e ↔ c.Indistinct := by
  rw [receivedFrame_eq]
  constructor
  · intro h
    simp only [interruptedFrame, RegisterFrame.mk.injEq] at h
    obtain ⟨h15, h14, h13, h12, h11, h10, h9, h8, hdi, hsi, hbp, hdx, hcx, hbx, hax, hes, hds, -⟩ := h
    -- RAX holds the selector of DS, so its upper bits are clear and R15 holds that of ES
    rw [hds, withLow16_setWidth] at h15
    have hodd : c.gpr .rax = c.es.setWidth 64 := by
      rw [← hax, ← hcx, ← hbp, ← hdi, ← h9, ← h11, ← h13, h15]
    have hsel : c.ds = c.es := setWidth_injective (hds.symm.trans hodd)
    refine ⟨hsel, fun r => ?_⟩
    cases r <;> simp_all
  · rintro ⟨hsel, hall⟩
    simp only [interruptedFrame, hall, hsel, withLow16_setWidth]

end Received

/-! ## §4  A state that is told apart -/

/-- The state of the kernel with R15 set, nothing else. -/
def r15State : Cpu where
  gpr := Function.update (fun _ => 0) .r15 0x1234
  rsp := 0x7e00
  rip := 0x100000
  rflags := 0x202
  cs := 0x08
  ss := 0x10
  ds := 0x10
  es := 0x10
  memory := fun _ => 0

/-- An exception without error code, on the interrupted stack. -/
def r15Delivery : Delivery where
  stack := 0x7e00
  errorCode := 0
  entry := 0x101000
  rflags := 0x2
  cs := 0x08
  ss := 0x10

theorem register_read_from_wrong_slot :
    (receivedFrame r15State r15Delivery 0x102000 .divideError).r13 = 0x1234 ∧
      r15State.gpr .r13 = 0 ∧
      receivedFrame r15State r15Delivery 0x102000 .divideError ≠
        interruptedFrame r15State r15Delivery .divideError := by
  have hslot : (receivedFrame r15State r15Delivery 0x102000 .divideError).r13 = 0x1234 := by
    rw [receivedFrame_eq]
    rfl
  refine ⟨hslot, rfl, fun heq => ?_⟩
  rw [heq] at hslot
  exact absurd hslot (show ¬ (0 : Word) = 0x1234 by decide)

/-! ## §5  The dispatch -/

/-- The handler that an entry is named after. -/
def ExceptionEntry.handler : ExceptionEntry → ExceptionHandler
  | .divideError => .divideErrorHandler
  | .debug => .debugHandler
  | .nmi => .nmiHandler
  | .breakpoint => .breakpointHandler
  | .overflow => .overflowHandler
  | .boundRange => .boundRangeExceededHandler
  | .invalidOpcode => .invalidOpcodeHandler
  | .deviceNotAvailable => .deviceNotAvailableHandler
  | .doubleFault => .doubleFaultHandler
  | .invalidTss => .invalidTssHandler
  | .segmentNotPresent => .segmentNotPresentHandler
  | .stackSegment => .stackSegmentFaultHandler
  | .generalProtection => .generalProtectionHandler
  | .pageFault => .pageFaultHandler
  | .x87FpuError => .x87FpExceptionHandler
  | .alignmentCheck => .alignmentCheckHandler
  | .machineCheck => .machineCheckHandler
  | .simdException => .simdFpExceptionHandler
  | .virtualization => .virtualizationExceptionHandler

theorem dispatchException_of_vector {f : RegisterFrame} (e : ExceptionEntry)
    (h : f.vector = BitVec.ofNat 64 e.vector) :
    dispatchException f = .handled e.handler f.errorCode f := by
  unfold dispatchException
  rw [h]
  cases e <;> rfl

/-- Vector and error code lie above the shifted part, so every exception gets to its own
handler, with its own error code. -/
theorem dispatch_of_entry (c : Cpu) (d : Delivery) (returnAddress : Word) (e : ExceptionEntry) :
    dispatchException (receivedFrame c d returnAddress e) =
      .handled e.handler (errorDatum d e) (receivedFrame c d returnAddress e) := by
  have hvector : (receivedFrame c d returnAddress e).vector = BitVec.ofNat 64 e.vector := by
    rw [receivedFrame_eq]
  have herror : (receivedFrame c d returnAddress e).errorCode = errorDatum d e := by
    rw [receivedFrame_eq]
  rw [dispatchException_of_vector e hvector, herror]

end Knos.Trap
