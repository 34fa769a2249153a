import Knos.Lib.Spans
import Knos.Lib.Stack

/-!
# `memcpy` and `memset` of `kernel/lib.h`

Both are inline assembly: a repeated string instruction for the quad words, and for what is
left over three single string instructions (`memcpy`) or another repeated one (`memset`). The
machine has the registers these instructions name, the direction flag and the zero flag.
-/

namespace Knos.KernelLib

open Knos.Bytes Knos.Spans Knos.Stack

/-! ## §1  The machine -/

structure Cpu where
  rax : Word
  rcx : Word
  rdx : Word
  rsi : Word
  rdi : Word
  df : Bool
  zf : Bool
  memory : Memory

/-- Where a string instruction takes a pointer. -/
def Cpu.advance (c : Cpu) (width : ℕ) (p : Word) : Word :=
  if c.df then p - BitVec.ofNat 64 width else p + BitVec.ofNat 64 width

/-- `movsb`, `movsw`, `movsl` and `movsq`, by the width of the unit -/
def Cpu.movs (width : ℕ) (c : Cpu) : Cpu :=
  { c with
    memory := write c.memory c.rdi (read c.memory c.rsi width)
    rsi := c.advance width c.rsi
    rdi := c.advance width c.rdi }

/-- `stosb` and `stosq` store the low bytes of RAX. -/
def Cpu.stos (width : ℕ) (c : Cpu) : Cpu :=
  { c with
    memory := write c.memory c.rdi (leBytes width c.rax.toNat)
    rdi := c.advance width c.rdi }

/-- A string instruction with RCX counted down after each time. -/
def repeated (instruction : Cpu → Cpu) : ℕ → Cpu → Cpu
  | 0, c => c
  | k + 1, c => repeated instruction k { instruction c with rcx := c.rcx - 1 }

/-- `rep` goes on until RCX is zero, and does nothing if it is zero at once. -/
def Cpu.rep (instruction : Cpu → Cpu) (c : Cpu) : Cpu := repeated instruction c.rcx.toNat c

def Cpu.cld (c : Cpu) : Cpu := { c with df := false }

/-- `testb` of an immediate and a byte register -/
def Cpu.testb (mask value : Byte) (c : Cpu) : Cpu := { c with zf := value &&& mask == 0 }

/-- `je` (or `jz`) over some instructions -/
def Cpu.jeOver (instructions : Cpu → Cpu) (c : Cpu) : Cpu := if c.zf then c else instructions c

/-- `shr` of RCX by an immediate that is not zero -/
def Cpu.shrRcx (count : ℕ) (c : Cpu) : Cpu :=
  { c with rcx := c.rcx >>> count, zf := c.rcx >>> count == 0 }

/-- `and` of an immediate to RCX -/
def Cpu.andRcx (mask : Word) (c : Cpu) : Cpu :=
  { c with rcx := c.rcx &&& mask, zf := c.rcx &&& mask == 0 }

/-! ## §2  `memcpy` -/

/-- The instructions, with `n` in a register that they leave alone. -/
def memcpyCode (n : Word) (c : Cpu) : Cpu :=
  let c := c.cld
  let c := c.rep (Cpu.movs 8)
  let c := (c.testb 4 (n.setWidth 8)).jeOver (Cpu.movs 4)
  let c := (c.testb 2 (n.setWidth 8)).jeOver (Cpu.movs 2)
  (c.testb 1 (n.setWidth 8)).jeOver (Cpu.movs 1)

/-- What is returned, and the state after it. -/
def memcpy (dest src n : Word) (c : Cpu) : Word × Cpu :=
  (dest, memcpyCode n { c with rcx := n / 8, rdi := dest, rsi := src })

/-! ## §3  `memset` -/

def memsetCode (c64 n : Word) (c : Cpu) : Cpu :=
  let c := { c with rax := c64 }
  let c := { c with rcx := n }
  let c := { c with rdx := c.rcx }
  let c := (c.shrRcx 3).jeOver (Cpu.rep (Cpu.stos 8))
  let c := { c with rcx := c.rdx }
  (c.andRcx 7).jeOver (Cpu.rep (Cpu.stos 1))

def memset (dest : Word) (ch : BitVec 32) (n : Word) (c : Cpu) : Word × Cpu :=
  let originalDest := dest
  let c8 : Byte := ch.setWidth 8
  let c64 : Word := c8.setWidth 64 * 0x0101010101010101
  (originalDest, memsetCode c64 n { c with rdi := dest })

end Knos.KernelLib
