import Knos.Lib.Stack
import Knos.Printk.Number

/-!
# `vsnprintf` in `kernel/printk.c`

A pointer into the format is the list of the characters from it on, the terminating NUL
included; to read at the empty list is to read behind the NUL. The arguments are the slots
of the argument list, as many as are asked for, and strings lie in memory. A buffer lies
somewhere in the address space, which matters in one place: the copy of a string compares
`str + len` with `end`, and that sum wraps around.
-/

namespace Knos.Printk

open Knos.Bytes Knos.Stack

/-- A buffer of the caller: no address of it, nor the one behind it, wraps around. -/
structure Buffer where
  address : ℕ
  size : ℕ
  fits : address + size < 2 ^ 64

inductive Fault where
  /-- A read behind the NUL of the format. -/
  | unterminated
  /-- A copy that leaves the buffer. -/
  | overrun
  | unfinished
deriving DecidableEq

/-! ## §1  Directives -/

inductive Qualifier where
  | none
  | h
  | l
  | capitalL
  | ll
deriving DecidableEq

/-- What stands between `%` and the conversion character. -/
structure Directive where
  flags : Flags
  fieldWidth : ℤ
  precision : ℤ
  qualifier : Qualifier

/-- `is_digit` -/
def isDigit (c : Byte) : Bool := decide (48 ≤ c.toNat ∧ c.toNat ≤ 57)

/-- `va_arg(args, int32_t)` -/
def int32Arg (args : ℕ → Word) (k : ℕ) : ℤ := ((args k).setWidth 32).toInt

def parseFlags : Flags → List Byte → Except Fault (Flags × List Byte)
  | _, [] => .error .unterminated
  | flags, c :: fmt =>
      if c = chr '-' then parseFlags { flags with left := true } fmt
      else if c = chr '+' then parseFlags { flags with plus := true } fmt
      else if c = chr ' ' then parseFlags { flags with space := true } fmt
      else if c = chr '#' then parseFlags { flags with special := true } fmt
      else if c = chr '0' then parseFlags { flags with zeropad := true } fmt
      else .ok (flags, c :: fmt)

def parseDigits : ℤ → List Byte → Except Fault (ℤ × List Byte)
  | _, [] => .error .unterminated
  | n, c :: fmt =>
      if isDigit c then parseDigits (int32 (n * 10 + (c.toNat - 48))) fmt else .ok (n, c :: fmt)

/-- `parse_width`; a negative argument asks for left alignment. -/
def parseWidth (args : ℕ → Word) (k : ℕ) (flags : Flags) :
    List Byte → Except Fault (Flags × ℤ × ℕ × List Byte)
  | [] => .error .unterminated
  | c :: fmt =>
      if c = chr '*' then
        let width := int32Arg args k
        if width < 0 then .ok ({ flags with left := true }, int32 (-width), k + 1, fmt)
        else .ok (flags, width, k + 1, fmt)
      else if isDigit c then do
        let (width, fmt) ← parseDigits 0 (c :: fmt)
        .ok (flags, width, k, fmt)
      else .ok (flags, -1, k, c :: fmt)

/-- What stands behind the point. -/
def parsePoint (args : ℕ → Word) (k : ℕ) : List Byte → Except Fault (ℤ × ℕ × List Byte)
  | [] => .error .unterminated
  | c :: fmt =>
      if c = chr '*' then .ok (int32Arg args k, k + 1, fmt)
      else if isDigit c then do
        let (precision, fmt) ← parseDigits 0 (c :: fmt)
        .ok (precision, k, fmt)
      else .ok (-1, k, c :: fmt)

def parsePrecision (args : ℕ → Word) (k : ℕ) : List Byte → Except Fault (ℤ × ℕ × List Byte)
  | [] => .error .unterminated
  | c :: fmt =>
      if c = chr '.' then do
        let (precision, k, fmt) ← parsePoint args k fmt
        .ok (if precision < 0 then 0 else precision, k, fmt)
      else .ok (-1, k, c :: fmt)

def parseQualifier : List Byte → Except Fault (Qualifier × List Byte)
  | [] => .error .unterminated
  | c :: fmt =>
      if c = chr 'h' then .ok (.h, fmt)
      else if c = chr 'L' then .ok (.capitalL, fmt)
      else if c = chr 'l' then
        match fmt with
        | [] => .error .unterminated
        | c' :: rest => if c' = chr 'l' then .ok (.ll, rest) else .ok (.l, c' :: rest)
      else .ok (.none, c :: fmt)

/-- The directive behind a `%`, the number of the next argument, and the format from the
conversion character on. -/
def parseDirective (args : ℕ → Word) (k : ℕ) (fmt : List Byte) :
    Except Fault (Directive × ℕ × List Byte) := do
  let (flags, fmt) ← parseFlags {} fmt
  let (flags, fieldWidth, k, fmt) ← parseWidth args k flags fmt
  let (precision, k, fmt) ← parsePrecision args k fmt
  let (qualifier, fmt) ← parseQualifier fmt
  .ok (⟨flags, fieldWidth, precision, qualifier⟩, k, fmt)

/-! ## §2  Conversions -/

/-- The cases of the switch over the conversion character. -/
inductive Conversion where
  | char
  | string
  | pointer
  | signed
  | unsigned
  | capital
  | count
  | percent
deriving DecidableEq

def conversionOf (c : Byte) : Option Conversion :=
  if c = chr 'c' then some .char
  else if c = chr 's' then some .string
  else if c = chr 'p' then some .pointer
  else if c = chr 'd' ∨ c = chr 'i' then some .signed
  else if c = chr 'u' ∨ c = chr 'o' ∨ c = chr 'x' then some .unsigned
  else if c = chr 'X' then some .capital
  else if c = chr 'n' then some .count
  else if c = chr '%' then some .percent
  else none

/-- `signed_num` -/
def signedArg (qualifier : Qualifier) (slot : Word) : Word :=
  match qualifier with
  | .l | .ll => slot
  | .h => (slot.setWidth 16).signExtend 64
  | .none | .capitalL => (slot.setWidth 32).signExtend 64

/-- `low_num` and `upper_num` -/
def unsignedArg (qualifier : Qualifier) (slot : Word) : Word :=
  match qualifier with
  | .l | .ll => slot
  | .h => (slot.setWidth 16).setWidth 64
  | .none | .capitalL => (slot.setWidth 32).setWidth 64

/-- `"(null)"` -/
def nullText : List Byte := [chr '(', chr 'n', chr 'u', chr 'l', chr 'l', chr ')']

/-- The bytes from the pointer of a `%s` on. -/
def stringSource (memory : Memory) (s : Word) : Store Byte :=
  if s = 0 then fun i => nullText.getD i 0 else fun i => memory (s + BitVec.ofNat 64 i)

/-- `repne scasb` for a NUL: what is left of the counter. -/
def repneScasb (source : Store Byte) : ℕ → ℕ → ℕ
  | 0, _ => 0
  | ecx + 1, i => if source i = 0 then ecx else repneScasb source ecx (i + 1)

/-- `strlen` of `kernel/lib.h`, of type `int32_t`. -/
def strlen (source : Store Byte) : BitVec 32 :=
  ~~~BitVec.ofNat 32 (repneScasb source 0xffffffff 0) - 1

/-- `len`, cut to the precision. -/
def stringLength (source : Store Byte) (precision : ℤ) : Word :=
  let len := (strlen source).signExtend 64
  if 0 ≤ precision ∧ (BitVec.ofInt 64 precision).toNat < len.toNat then BitVec.ofInt 64 precision
  else len

/-- The padding of a `%s`: the comparison is one of 64-bit numbers without sign, the result
one of 32 bits. -/
def stringPadding (fieldWidth : ℤ) (len : Word) : ℤ :=
  let width := BitVec.ofInt 64 fieldWidth
  if len.toNat < width.toNat then ((width - len).setWidth 32).toInt else 0

/-- `memcpy(str, s, copy_len)` -/
def copyString (b : Buffer) (source : Store Byte) (len : Word) (str : List Byte) :
    Except Fault (List Byte) :=
  let copyLen :=
    if (b.address + str.length + len.toNat) % 2 ^ 64 ≤ b.address + b.size then len.toNat
    else b.size - str.length
  if str.length + copyLen ≤ b.size then .ok (str ++ peek source 0 copyLen) else .error .overrun

/-- What has been written: the characters behind `buf`, and what `%n` has stored, a pointer
with the length modifier and the number. -/
structure Sink where
  str : List Byte
  counts : List (Word × Qualifier × ℕ) := []

def writeChar (size : ℕ) (d : Directive) (c : Byte) (str : List Byte) : List Byte :=
  let padding := if 1 < d.fieldWidth then d.fieldWidth - 1 else 0
  let str := if ¬ d.flags.left then (padLoop size (chr ' ') padding.toNat str).2 else str
  let str := put size c str
  if d.flags.left then (padLoop size (chr ' ') padding.toNat str).2 else str

def writeString (b : Buffer) (d : Directive) (source : Store Byte) (str : List Byte) :
    Except Fault (List Byte) := do
  let len := stringLength source d.precision
  let padding := stringPadding d.fieldWidth len
  let str := if ¬ d.flags.left then (padLoop b.size (chr ' ') padding.toNat str).2 else str
  let str ← copyString b source len str
  .ok (if d.flags.left then (padLoop b.size (chr ' ') padding.toNat str).2 else str)

/-- One case of the switch, with the number of the next argument. -/
def convert (b : Buffer) (memory : Memory) (args : ℕ → Word) (k : ℕ) (d : Directive) (s : Sink) :
    Conversion → Except Fault (ℕ × Sink)
  | .char => .ok (k + 1, { s with str := writeChar b.size d ((args k).setWidth 8) s.str })
  | .string => do
      let str ← writeString b d (stringSource memory (args k)) s.str
      .ok (k + 1, { s with str := str })
  | .pointer =>
      let flags := { d.flags with special := true, small := true, zeropad := true }
      .ok (k + 1, { s with str := number b.size s.str (args k).toNat 16 16 d.precision flags false })
  | .signed =>
      let flags := { d.flags with sign := true }
      let signedNum := signedArg d.qualifier (args k)
      let isNegative := signedNum.msb
      let num := if isNegative then (-signedNum).toNat else signedNum.toNat
      .ok (k + 1, { s with
        str := number b.size s.str num 10 d.fieldWidth d.precision flags isNegative })
  | .unsigned =>
      let flags := { d.flags with small := true }
      .ok (k + 1, { s with
        str := number b.size s.str (unsignedArg d.qualifier (args k)).toNat 16 d.fieldWidth
          d.precision flags false })
  | .capital =>
      let flags := { d.flags with small := false }
      .ok (k + 1, { s with
        str := number b.size s.str (unsignedArg d.qualifier (args k)).toNat 16 d.fieldWidth
          d.precision flags false })
  | .count =>
      .ok (k + 1, { s with counts := s.counts ++ [(args k, d.qualifier, s.str.length)] })
  | .percent => .ok (k, { s with str := put b.size (chr '%') s.str })

/-! ## §3  The function -/

/-- The loop over the format. -/
def format (b : Buffer) (memory : Memory) (args : ℕ → Word) :
    ℕ → List Byte → ℕ → Sink → Except Fault Sink
  | 0, _, _, _ => .error .unfinished
  | _ + 1, [], _, _ => .error .unterminated
  | fuel + 1, c :: fmt, k, s =>
      if c ≠ 0 ∧ s.str.length < b.size then
        if c ≠ chr '%' then format b memory args fuel fmt k { s with str := s.str ++ [c] }
        else do
          let (directive, k, rest) ← parseDirective args k fmt
          match rest with
          | [] => .error .unterminated
          | c' :: rest =>
              match conversionOf c' with
              | some conversion => do
                  let (k, s) ← convert b memory args k directive s conversion
                  format b memory args fuel rest k s
              | none =>
                  -- back to the `%`, which is stored as it stands
                  format b memory args fuel fmt k { s with str := put b.size c s.str }
      else .ok s

/-- What a call has written, and what it returns. -/
structure Output where
  /-- The characters stored before the terminator. -/
  str : List Byte
  /-- The terminator; there is none where the size is 0. -/
  terminator : List Byte
  counts : List (Word × Qualifier × ℕ)
  ret : ℤ
deriving DecidableEq

/-- The bytes written to the buffer, from its first one on. -/
def Output.written (o : Output) : List Byte := o.str ++ o.terminator

def finish (b : Buffer) (s : Sink) : Output where
  str := s.str
  terminator := [0]
  counts := s.counts
  ret := if s.str.length < b.size then int32 s.str.length else int32 (int32 b.size - 1)

/-- Each round of the loop takes a character from the format, so it makes no more rounds
than that has characters. -/
def vsnprintf (b : Buffer) (memory : Memory) (fmt : List Byte) (args : ℕ → Word) :
    Except Fault Output :=
  if b.size = 0 then .ok ⟨[], [], [], 0⟩
  else do
    let s ← format b memory args (fmt.length + 1) fmt 0 ⟨[], []⟩
    .ok (finish b s)

end Knos.Printk
