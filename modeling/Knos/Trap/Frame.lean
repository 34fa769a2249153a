import Knos.Lib.Stack

/-!
# `kernel/trap_entry.S` and `struct register_frame`

The layout of the frame is written down twice: as the pushes of the processor and of an
entry stub, and as a structure of 24 quad words in `kernel/trap.h`. Here both are written as
they stand, the stub as steps of a machine with the registers and the stack it uses, the
structure as what is read at the pointer that `dispatch_exception` receives.

Of an exception the stub sees what the processor has pushed; where the stack lies, and what
else the processor loads, depends on gates and task state (`Delivery`) and is left open.
-/

namespace Knos.Trap

open Knos.Stack

/-! ## §1  The machine -/

/-- The general registers except RSP. -/
inductive Gpr where
  | rax | rbx | rcx | rdx | rbp | rsi | rdi
  | r8 | r9 | r10 | r11 | r12 | r13 | r14 | r15
deriving DecidableEq

structure Cpu where
  gpr : Gpr → Word
  rsp : Word
  rip : Word
  rflags : Word
  cs : BitVec 16
  ss : BitVec 16
  ds : BitVec 16
  es : BitVec 16
  memory : Memory

def Cpu.set (c : Cpu) (r : Gpr) (v : Word) : Cpu := { c with gpr := Function.update c.gpr r v }

def Cpu.pushq (c : Cpu) (v : Word) : Cpu :=
  { c with rsp := c.rsp - 8, memory := store c.memory (c.rsp - 8) v }

def Cpu.popq (c : Cpu) (r : Gpr) : Cpu :=
  { c with rsp := c.rsp + 8 }.set r (load c.memory c.rsp)

/-- A word whose low 16 bits are replaced, the way a 16-bit move into a register does. -/
def withLow16 (x : Word) (s : BitVec 16) : Word := (x &&& ~~~0xffff#64) ||| s.setWidth 64

/-- `movw` into AX. -/
def Cpu.movwToAx (c : Cpu) (s : BitVec 16) : Cpu := c.set .rax (withLow16 (c.gpr .rax) s)

/-! ## §2  What the processor does -/

/-- What comes from outside the interrupted program: the top of the stack the processor
switches to (or stays on), the error code, and what it loads from gate and task state. -/
structure Delivery where
  stack : Word
  errorCode : Word
  entry : Word
  rflags : Word
  cs : BitVec 16
  ss : BitVec 16

/-- The vectors for which the processor pushes an error code. -/
def errorCodeVectors : List ℕ := [8, 10, 11, 12, 13, 14, 17, 21, 29, 30]

/-- The state at the first instruction of the entry. In 64-bit mode the stack is aligned
and SS:RSP is always pushed. -/
def Cpu.deliver (c : Cpu) (d : Delivery) (vector : ℕ) : Cpu :=
  let top := { c with rsp := d.stack &&& ~~~15#64 }
  let top := top.pushq (c.ss.setWidth 64)
  let top := top.pushq c.rsp
  let top := top.pushq c.rflags
  let top := top.pushq (c.cs.setWidth 64)
  let top := top.pushq c.rip
  let top := if vector ∈ errorCodeVectors then top.pushq d.errorCode else top
  { top with rip := d.entry, rflags := d.rflags, cs := d.cs, ss := d.ss }

/-! ## §3  The entries -/

inductive ExceptionEntry where
  | divideError
  | debug
  | nmi
  | breakpoint
  | overflow
  | boundRange
  | invalidOpcode
  | deviceNotAvailable
  | doubleFault
  | invalidTss
  | segmentNotPresent
  | stackSegment
  | generalProtection
  | pageFault
  | x87FpuError
  | alignmentCheck
  | machineCheck
  | simdException
  | virtualization
deriving DecidableEq

/-- `EXCEPTION_ENTRY_NOERRCODE` -/
def exceptionEntryNoErrCode (vector : ℕ) (c : Cpu) : Cpu :=
  (c.pushq 0).pushq (BitVec.ofNat 64 vector)

/-- `EXCEPTION_ENTRY_ERRCODE` -/
def exceptionEntryErrCode (vector : ℕ) (c : Cpu) : Cpu :=
  c.pushq (BitVec.ofNat 64 vector)

/-- The table of entries, up to the jump to the common stub. -/
def exceptionEntry : ExceptionEntry → Cpu → Cpu
  | .divideError => exceptionEntryNoErrCode 0
  | .debug => exceptionEntryNoErrCode 1
  | .nmi => exceptionEntryNoErrCode 2
  | .breakpoint => exceptionEntryNoErrCode 3
  | .overflow => exceptionEntryNoErrCode 4
  | .boundRange => exceptionEntryNoErrCode 5
  | .invalidOpcode => exceptionEntryNoErrCode 6
  | .deviceNotAvailable => exceptionEntryNoErrCode 7
  | .doubleFault => exceptionEntryErrCode 8
  | .invalidTss => exceptionEntryErrCode 10
  | .segmentNotPresent => exceptionEntryErrCode 11
  | .stackSegment => exceptionEntryErrCode 12
  | .generalProtection => exceptionEntryErrCode 13
  | .pageFault => exceptionEntryErrCode 14
  | .x87FpuError => exceptionEntryNoErrCode 16
  | .alignmentCheck => exceptionEntryErrCode 17
  | .machineCheck => exceptionEntryNoErrCode 18
  | .simdException => exceptionEntryNoErrCode 19
  | .virtualization => exceptionEntryNoErrCode 20

/-- The vector whose gate leads to an entry, as `setup_idt` sets them. -/
def ExceptionEntry.vector : ExceptionEntry → ℕ
  | .divideError => 0
  | .debug => 1
  | .nmi => 2
  | .breakpoint => 3
  | .overflow => 4
  | .boundRange => 5
  | .invalidOpcode => 6
  | .deviceNotAvailable => 7
  | .doubleFault => 8
  | .invalidTss => 10
  | .segmentNotPresent => 11
  | .stackSegment => 12
  | .generalProtection => 13
  | .pageFault => 14
  | .x87FpuError => 16
  | .alignmentCheck => 17
  | .machineCheck => 18
  | .simdException => 19
  | .virtualization => 20

/-! ## §4  `common_exception_stub` -/

/-- The general registers in the order they are pushed. -/
def savedRegisters : List Gpr :=
  [.rax, .rbx, .rcx, .rdx, .rbp, .rsi, .rdi, .r8, .r9, .r10, .r11, .r12, .r13, .r14, .r15]

def saveRegisters (rs : List Gpr) (c : Cpu) : Cpu := rs.foldl (fun c r => c.pushq (c.gpr r)) c

/-- Both selectors go through AX. -/
def saveSegments (c : Cpu) : Cpu :=
  let c := c.movwToAx c.ds
  let c := c.pushq (c.gpr .rax)
  let c := c.movwToAx c.es
  c.pushq (c.gpr .rax)

def loadKernelSegments (c : Cpu) : Cpu :=
  let c := c.movwToAx 0x10
  { c with ds := (c.gpr .rax).setWidth 16, es := (c.gpr .rax).setWidth 16 }

/-- `movq %rsp, %rdi` and `call dispatch_exception` -/
def callDispatch (returnAddress : Word) (c : Cpu) : Cpu :=
  (c.set .rdi c.rsp).pushq returnAddress

/-- The stub up to the first instruction of `dispatch_exception`. -/
def enterDispatch (returnAddress : Word) (c : Cpu) : Cpu :=
  callDispatch returnAddress (loadKernelSegments (saveSegments (saveRegisters savedRegisters c)))

/-! ## §5  `struct register_frame` -/

structure RegisterFrame where
  (r15 r14 r13 r12 r11 r10 r9 r8 : Word)
  (rdi rsi rbp rdx rcx rbx rax : Word)
  (es ds : Word)
  vector : Word
  errorCode : Word
  rip : Word
  cs : Word
  rflags : Word
  rsp : Word
  ss : Word
deriving DecidableEq

/-- The fields of the structure at an address, in its order. -/
def RegisterFrame.at (m : Memory) (p : Word) : RegisterFrame where
  r15 := load m p
  r14 := load m (p + 8)
  r13 := load m (p + 16)
  r12 := load m (p + 24)
  r11 := load m (p + 32)
  r10 := load m (p + 40)
  r9 := load m (p + 48)
  r8 := load m (p + 56)
  rdi := load m (p + 64)
  rsi := load m (p + 72)
  rbp := load m (p + 80)
  rdx := load m (p + 88)
  rcx := load m (p + 96)
  rbx := load m (p + 104)
  rax := load m (p + 112)
  es := load m (p + 120)
  ds := load m (p + 128)
  vector := load m (p + 136)
  errorCode := load m (p + 144)
  rip := load m (p + 152)
  cs := load m (p + 160)
  rflags := load m (p + 168)
  rsp := load m (p + 176)
  ss := load m (p + 184)

/-- The state in which `dispatch_exception` is entered. -/
def Cpu.raise (c : Cpu) (d : Delivery) (returnAddress : Word) (e : ExceptionEntry) : Cpu :=
  enterDispatch returnAddress (exceptionEntry e (c.deliver d e.vector))

/-- The frame that `dispatch_exception` receives: its first argument is in RDI. -/
def receivedFrame (c : Cpu) (d : Delivery) (returnAddress : Word) (e : ExceptionEntry) :
    RegisterFrame :=
  let c := c.raise d returnAddress e
  RegisterFrame.at c.memory (c.gpr .rdi)

/-! ## §6  `dispatch_exception` -/

inductive ExceptionHandler where
  | divideErrorHandler
  | debugHandler
  | nmiHandler
  | breakpointHandler
  | overflowHandler
  | boundRangeExceededHandler
  | invalidOpcodeHandler
  | deviceNotAvailableHandler
  | doubleFaultHandler
  | reservedExceptionHandler
  | invalidTssHandler
  | segmentNotPresentHandler
  | stackSegmentFaultHandler
  | generalProtectionHandler
  | pageFaultHandler
  | x87FpExceptionHandler
  | alignmentCheckHandler
  | machineCheckHandler
  | simdFpExceptionHandler
  | virtualizationExceptionHandler
deriving DecidableEq

/-- The 32 pointers; those behind the last initialiser are null. -/
def exceptionHandlers : List (Option ExceptionHandler) :=
  [some .divideErrorHandler, some .debugHandler, some .nmiHandler, some .breakpointHandler,
    some .overflowHandler, some .boundRangeExceededHandler, some .invalidOpcodeHandler,
    some .deviceNotAvailableHandler, some .doubleFaultHandler, some .reservedExceptionHandler,
    some .invalidTssHandler, some .segmentNotPresentHandler, some .stackSegmentFaultHandler,
    some .generalProtectionHandler, some .pageFaultHandler, some .reservedExceptionHandler,
    some .x87FpExceptionHandler, some .alignmentCheckHandler, some .machineCheckHandler,
    some .simdFpExceptionHandler, some .virtualizationExceptionHandler] ++
    List.replicate 11 none

/-- What is called: a handler with the error code and the frame, or `fatalk` with the
vector. -/
inductive Dispatch where
  | handled (handler : ExceptionHandler) (errorCode : Word) (frame : RegisterFrame)
  | unhandled (vector : BitVec 8)
deriving DecidableEq

def dispatchException (frame : RegisterFrame) : Dispatch :=
  let vector : BitVec 8 := frame.vector.setWidth 8
  if vector.toNat < 32 then
    match exceptionHandlers.getD vector.toNat none with
    | some handler => .handled handler frame.errorCode frame
    | none => .unhandled vector
  else .unhandled vector

end Knos.Trap
