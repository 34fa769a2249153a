import Knos.Printk.Messages
import Knos.Trap.Exceptions

/-!
# The handlers of `kernel/trap.c`

A handler draws a report of its exception and stops. What it says is read from the frame whose
registers are in the wrong places (`frame_faithful_iff`), but all that reports show is right, and
a report tells which handler it is from: reading it gives the exception and the values of the
interrupted program (`report_tells_exception`).
-/

namespace Knos.Trap

open Knos.Bytes Knos.Stack Knos.Printk

/-! ## §1  The handlers -/

/-- What handlers read besides their arguments. -/
structure HandlerState where
  memory : Memory
  cr2 : Word
  mxcsr : BitVec 32
  /-- What the list of variable arguments goes on with. -/
  behind : ℕ → Word

def HandlerState.fatalk (st : HandlerState) (fmt : String) (args : List Word) : PrintCall :=
  printCall .fatalk st.memory st.behind fmt args

namespace ExceptionHandler

def format : ExceptionHandler → String
  | divideErrorHandler => "#DE(0) Divide error RSP=%#llx, RIP=%#llx, Error Code=%#llx\n"
  | debugHandler => "#DB(1) Debug RIP=%#llx, Error Code=%#llx\n"
  | nmiHandler => "#NMI(2) Non-Maskable Interrupt! RIP=%#llx\n"
  | breakpointHandler => "#BP(3) Breakpoint RIP=%#llx\n"
  | overflowHandler => "#OF(4) Overflow! RIP=%#llx, RSP=%#llx\n"
  | boundRangeExceededHandler => "#BR(5) BOUND Range Exceeded RIP=%#llx\n"
  | invalidOpcodeHandler => "#UD(6) Invalid Opcode 0x%04x RIP=%#llx\n"
  | deviceNotAvailableHandler => "#NM(7) FPU Not Available RIP=%#llx\n"
  | doubleFaultHandler => "#DF(8) Double Fault! RIP=%#llx, RSP=%#llx\n"
  | invalidTssHandler => "#TS(10) Invalid TSS! Error Code=%#llx RIP=%#llx\n"
  | segmentNotPresentHandler => "#NP(11) Segment Not Present! Error Code=%#llx RIP=%#llx\n"
  | stackSegmentFaultHandler => "#SS(12) Stack Segment Fault! Error Code=%#llx RIP=%#llx\n"
  | generalProtectionHandler => "#GP(13) General Protection Fault! Error Code=%#llx RIP=%#llx\n"
  | pageFaultHandler => "#PF(14) Page Fault CR2=%#llx  Error Code=%#llx [%c%c%c]\n"
  | x87FpExceptionHandler => "#MF(16) x87 FPU Fault RIP=%#llx, Status=%#llx\n"
  | alignmentCheckHandler => "#AC(17) Alignment Check RIP=%#llx (Addr=%#llx)\n"
  | machineCheckHandler => "#MC(18) Machine Check! System Halted\n"
  | simdFpExceptionHandler => "#XM(19) SIMD FP Exception RIP=%#llx\n  MXCSR=0x%08x\n"
  | virtualizationExceptionHandler => "#VE(20) Virtualization Exception RIP=%#llx\n"
  | reservedExceptionHandler => "Reserved Exception RIP=%#llx\n"

/-- A letter for a bit of the error code, passed as an `int`. -/
def bitLetter (errorCode mask : Word) (letter : Char) : Word :=
  (if errorCode &&& mask ≠ 0 then chr letter else chr '-').setWidth 64

/-- `*(uint16_t*)ctx->rip` -/
def opcode (m : Memory) (rip : Word) : BitVec 16 := m (rip + 1) ++ m rip

def arguments (st : HandlerState) (errorCode : Word) (ctx : RegisterFrame) :
    ExceptionHandler → List Word
  | divideErrorHandler => [ctx.rsp, ctx.rip, errorCode]
  | debugHandler => [ctx.rip, errorCode]
  | nmiHandler => [ctx.rip]
  | breakpointHandler => [ctx.rip]
  | overflowHandler => [ctx.rip, ctx.rsp]
  | boundRangeExceededHandler => [ctx.rip]
  | invalidOpcodeHandler => [(opcode st.memory ctx.rip).setWidth 64, ctx.rip]
  | deviceNotAvailableHandler => [ctx.rip]
  | doubleFaultHandler => [ctx.rip, ctx.rsp]
  | invalidTssHandler => [errorCode, ctx.rip]
  | segmentNotPresentHandler => [errorCode, ctx.rip]
  | stackSegmentFaultHandler => [errorCode, ctx.rip]
  | generalProtectionHandler => [errorCode, ctx.rip]
  | pageFaultHandler => [st.cr2, errorCode, bitLetter errorCode 0x01 'P',
      bitLetter errorCode 0x02 'W', bitLetter errorCode 0x04 'U']
  | x87FpExceptionHandler => [ctx.rip, errorCode]
  | alignmentCheckHandler => [ctx.rip, st.cr2]
  | machineCheckHandler => []
  | simdFpExceptionHandler => [ctx.rip, st.mxcsr.setWidth 64]
  | virtualizationExceptionHandler => [ctx.rip]
  | reservedExceptionHandler => [ctx.rip]

/-- What a handler calls before its endless loop. -/
def report (st : HandlerState) (errorCode : Word) (ctx : RegisterFrame) (h : ExceptionHandler) :
    PrintCall :=
  st.fatalk h.format (h.arguments st errorCode ctx)

end ExceptionHandler

/-- What `dispatch_exception` comes to. -/
def Dispatch.report (st : HandlerState) : Dispatch → PrintCall
  | .handled handler errorCode frame => handler.report st errorCode frame
  | .unhandled vector => st.fatalk "Unhandled exception %d\n" [vector.setWidth 64]

/-! ## §2  The formats in parts -/

namespace ExceptionHandler

/-- The text in front of the first value. -/
def lead : ExceptionHandler → List Byte
  | divideErrorHandler => chars "#DE(0) Divide error RSP="
  | debugHandler => chars "#DB(1) Debug RIP="
  | nmiHandler => chars "#NMI(2) Non-Maskable Interrupt! RIP="
  | breakpointHandler => chars "#BP(3) Breakpoint RIP="
  | overflowHandler => chars "#OF(4) Overflow! RIP="
  | boundRangeExceededHandler => chars "#BR(5) BOUND Range Exceeded RIP="
  | invalidOpcodeHandler => chars "#UD(6) Invalid Opcode 0x"
  | deviceNotAvailableHandler => chars "#NM(7) FPU Not Available RIP="
  | doubleFaultHandler => chars "#DF(8) Double Fault! RIP="
  | invalidTssHandler => chars "#TS(10) Invalid TSS! Error Code="
  | segmentNotPresentHandler => chars "#NP(11) Segment Not Present! Error Code="
  | stackSegmentFaultHandler => chars "#SS(12) Stack Segment Fault! Error Code="
  | generalProtectionHandler => chars "#GP(13) General Protection Fault! Error Code="
  | pageFaultHandler => chars "#PF(14) Page Fault CR2="
  | x87FpExceptionHandler => chars "#MF(16) x87 FPU Fault RIP="
  | alignmentCheckHandler => chars "#AC(17) Alignment Check RIP="
  | machineCheckHandler => chars "#MC(18) Machine Check! System Halted\n"
  | simdFpExceptionHandler => chars "#XM(19) SIMD FP Exception RIP="
  | virtualizationExceptionHandler => chars "#VE(20) Virtualization Exception RIP="
  | reservedExceptionHandler => chars "Reserved Exception RIP="

/-- The values, and the text between them. -/
def details : ExceptionHandler → List Part
  | divideErrorHandler =>
      [.request .address, .text (chars ", RIP="), .request .address, .text (chars ", Error Code="),
        .request .address, .text (chars "\n")]
  | debugHandler =>
      [.request .address, .text (chars ", Error Code="), .request .address, .text (chars "\n")]
  | overflowHandler | doubleFaultHandler =>
      [.request .address, .text (chars ", RSP="), .request .address, .text (chars "\n")]
  | invalidOpcodeHandler =>
      [.request (.padded 3), .text (chars " RIP="), .request .address, .text (chars "\n")]
  | invalidTssHandler | segmentNotPresentHandler | stackSegmentFaultHandler
  | generalProtectionHandler =>
      [.request .address, .text (chars " RIP="), .request .address, .text (chars "\n")]
  | pageFaultHandler =>
      [.request .address, .text (chars "  Error Code="), .request .address, .text (chars " ["),
        .request .char, .request .char, .request .char, .text (chars "]\n")]
  | x87FpExceptionHandler =>
      [.request .address, .text (chars ", Status="), .request .address, .text (chars "\n")]
  | alignmentCheckHandler =>
      [.request .address, .text (chars " (Addr="), .request .address, .text (chars ")\n")]
  | machineCheckHandler => []
  | simdFpExceptionHandler =>
      [.request .address, .text (chars "\n  MXCSR=0x"), .request (.padded 7), .text (chars "\n")]
  | nmiHandler | breakpointHandler | boundRangeExceededHandler | deviceNotAvailableHandler
  | virtualizationExceptionHandler | reservedExceptionHandler =>
      [.request .address, .text (chars "\n")]

def parts (h : ExceptionHandler) : List Part := .text h.lead :: h.details

theorem chars_format (h : ExceptionHandler) : chars h.format = formatOf h.parts := by
  cases h <;> decide +kernel

theorem plain_parts (h : ExceptionHandler) : ∀ p ∈ h.parts, p.Plain := by
  cases h <;> decide +kernel

theorem delimited_parts (h : ExceptionHandler) : Delimited h.parts := by
  cases h <;> decide +kernel

theorem roomFor_parts (h : ExceptionHandler) : roomFor h.parts < 4096 := by
  cases h <;> decide +kernel

/-! ## §3  What a report says -/

section Text

variable (st : HandlerState) (errorCode : Word) (ctx : RegisterFrame)

/-- The arguments by number. -/
def argument (h : ExceptionHandler) (k : ℕ) : Word := (h.arguments st errorCode ctx).getD k 0

def text (h : ExceptionHandler) : List Byte := renderParts (h.argument st errorCode ctx) 0 h.parts

/-- The values in a report. -/
def values (h : ExceptionHandler) : List ℤ := shownValues (h.argument st errorCode ctx) 0 h.parts

/-- Every directive has an argument. -/
theorem text_eq (h : ExceptionHandler) : renderParts
    (fun k => (h.arguments st errorCode ctx).getD k (st.behind k)) 0 h.parts =
      h.text st errorCode ctx := by
  cases h <;> rfl

/-- A report depends on what the stub hands over faithfully. -/
theorem arguments_congr (h : ExceptionHandler) {ctx' : RegisterFrame} (hrip : ctx.rip = ctx'.rip)
    (hrsp : ctx.rsp = ctx'.rsp) : h.arguments st errorCode ctx = h.arguments st errorCode ctx' := by
  cases h <;> simp only [arguments, hrip, hrsp]

end Text

end ExceptionHandler

/-! ## §4  Telling reports apart -/

def handlers : List ExceptionHandler :=
  [.divideErrorHandler, .debugHandler, .nmiHandler, .breakpointHandler, .overflowHandler,
    .boundRangeExceededHandler, .invalidOpcodeHandler, .deviceNotAvailableHandler,
    .doubleFaultHandler, .invalidTssHandler, .segmentNotPresentHandler, .stackSegmentFaultHandler,
    .generalProtectionHandler, .pageFaultHandler, .x87FpExceptionHandler, .alignmentCheckHandler,
    .machineCheckHandler, .simdFpExceptionHandler, .virtualizationExceptionHandler,
    .reservedExceptionHandler]

theorem mem_handlers (h : ExceptionHandler) : h ∈ handlers := by
  cases h <;> decide

/-- The handler whose report a text is, and the values in it. -/
def readReport (text : List Byte) : Option (ExceptionHandler × List ℤ) :=
  handlers.findSome? fun h => (readParts h.parts text).map (h, ·)

/-- Four characters tell. -/
theorem lead_injective {h h' : ExceptionHandler} (heq : h.lead.take 4 = h'.lead.take 4) : h = h' := by
  have hdistinct : (handlers.map fun h => h.lead.take 4).Nodup := by decide +kernel
  exact List.inj_on_of_nodup_map hdistinct (mem_handlers h) (mem_handlers h') heq

theorem four_le_lead (h : ExceptionHandler) : 4 ≤ h.lead.length := by
  cases h <;> decide +kernel

theorem take_of_isPrefix {α : Type} {s t : List α} {n : ℕ} (hst : s <+: t) (hn : n ≤ s.length) :
    t.take n = s.take n := by
  obtain ⟨u, rfl⟩ := hst
  exact List.take_append_of_le_length hn

theorem readReport_text (h : ExceptionHandler) (st : HandlerState) (errorCode : Word)
    (ctx : RegisterFrame) :
    readReport (h.text st errorCode ctx) = some (h, h.values st errorCode ctx) := by
  have hread : readParts h.parts (h.text st errorCode ctx) = some (h.values st errorCode ctx) :=
    readParts_renderParts h.delimited_parts _ 0
  have hlead : h.lead <+: h.text st errorCode ctx := List.prefix_append _ _
  obtain ⟨before, behind, hsplit, hnew⟩ := List.eq_append_cons_of_mem (mem_handlers h)
  refine List.findSome?_eq_some_iff.mpr ⟨before, h, behind, hsplit, ?_, fun h' hmem => ?_⟩
  · rw [hread]
    rfl
  · have hother : ¬ h'.lead <+: h.text st errorCode ctx := by
      intro hlead'
      have hfour := (take_of_isPrefix hlead' (four_le_lead h')).symm.trans
        (take_of_isPrefix hlead (four_le_lead h))
      exact hnew (lead_injective hfour ▸ hmem)
    rw [ExceptionHandler.parts, readParts, if_neg hother]
    rfl

/-! ## §5  Reports of exceptions -/

section Reports

variable {cells : Cells} {cell : ℕ × ℕ} {s : Screen}

theorem report_drawn (hcell : OnCell cells s.pos cell) (kernel : Kernel) (h : ExceptionHandler)
    (st : HandlerState) (errorCode : Word) (ctx : RegisterFrame) :
    (h.report st errorCode ctx).run kernel s =
      (.ok (fatalText ++ h.text st errorCode ctx).length,
        (fatalText ++ h.text st errorCode ctx).foldl (plainChar RED WHITE) s) := by
  have hshort := (length_renderParts_le (fun k => (h.arguments st errorCode ctx).getD k (st.behind k))
    0 h.parts).trans_lt h.roomFor_parts
  have hdrawn := fatalk_parts st.memory _ kernel hcell h.plain_parts hshort
  rw [h.text_eq] at hdrawn
  unfold ExceptionHandler.report HandlerState.fatalk printCall
  rw [h.chars_format]
  exact hdrawn

/-- **A report tells its exception**: what is drawn is the tag and a text that only this handler
writes, and the values in it are those of the interrupted program. -/
theorem report_tells_exception (hcell : OnCell cells s.pos cell) (kernel : Kernel)
    (st : HandlerState) (c : Cpu) (d : Delivery) (returnAddress : Word) (e : ExceptionEntry) :
    ∃ text, ((dispatchException (receivedFrame c d returnAddress e)).report st).run kernel s =
        (.ok (fatalText ++ text).length, (fatalText ++ text).foldl (plainChar RED WHITE) s) ∧
      readReport text =
        some (e.handler, e.handler.values st (errorDatum d e) (interruptedFrame c d e)) := by
  have harguments : e.handler.arguments st (errorDatum d e) (receivedFrame c d returnAddress e) =
      e.handler.arguments st (errorDatum d e) (interruptedFrame c d e) := by
    apply ExceptionHandler.arguments_congr
    · rw [receivedFrame_eq]
      rfl
    · rw [receivedFrame_eq]
      rfl
  refine ⟨e.handler.text st (errorDatum d e) (interruptedFrame c d e), ?_, readReport_text _ _ _ _⟩
  rw [dispatch_of_entry, Dispatch.report, ExceptionHandler.report, harguments]
  exact report_drawn hcell kernel e.handler st _ _

/-- A vector without a handler is drawn as a number. -/
theorem unhandled_drawn (hcell : OnCell cells s.pos cell) (kernel : Kernel) (st : HandlerState)
    (vector : BitVec 8) :
    let text := chars "Unhandled exception " ++
      (Numeral.numeral (digitGlyph false) 10 vector.toNat ++ chars "\n")
    ((Dispatch.unhandled vector).report st).run kernel s =
      (.ok (fatalText ++ text).length, (fatalText ++ text).foldl (plainChar RED WHITE) s) := by
  intro text
  have hvalue : ((vector.setWidth 64).setWidth 32).toInt = vector.toNat := by
    have hlt := vector.isLt
    rw [BitVec.setWidth_setWidth_of_le _ (by decide), BitVec.toInt_setWidth,
      Int.bmod_eq_of_le (by omega) (by omega)]
  have hparts : renderParts (fun k => [vector.setWidth 64].getD k (st.behind k)) 0
      [.text (chars "Unhandled exception "), .request .decimal, .text (chars "\n")] = text := by
    simp only [renderParts, Request.render, List.getD_cons_zero, hvalue, List.append_nil]
    rw [if_neg (by omega), Int.natAbs_natCast, List.nil_append]
  have hshort := length_renderParts_le (fun k => [vector.setWidth 64].getD k (st.behind k)) 0
    [.text (chars "Unhandled exception "), .request .decimal, .text (chars "\n")]
  have hdrawn := fatalk_parts st.memory _ kernel hcell (by decide +kernel)
    (hshort.trans_lt (by decide +kernel))
  rw [hparts] at hdrawn
  rw [Dispatch.report, HandlerState.fatalk, printCall, show chars "Unhandled exception %d\n" = formatOf
    [.text (chars "Unhandled exception "), .request .decimal, .text (chars "\n")] from by
      decide +kernel]
  exact hdrawn

end Reports

/-- A page fault of the kernel on an empty screen. -/
theorem report_tells_exception_pageFault :
    ∃ text, ((dispatchException (receivedFrame r15State r15Delivery 0x102000 .pageFault)).report
        ⟨r15State.memory, 0xdeadbeef, 0x1f80, fun _ => 0⟩).run blankKernel
          ⟨initVbeInfo loaderMode, []⟩ = (.ok (fatalText ++ text).length,
            (fatalText ++ text).foldl (plainChar RED WHITE) ⟨initVbeInfo loaderMode, []⟩) ∧
      readReport text = some (.pageFaultHandler, [0xdeadbeef, 0, 0x2d, 0x2d, 0x2d]) :=
  report_tells_exception (atCell_init wholeCharacters_loaderMode).toOnCell blankKernel
    ⟨r15State.memory, 0xdeadbeef, 0x1f80, fun _ => 0⟩ r15State r15Delivery 0x102000 .pageFault

end Knos.Trap
