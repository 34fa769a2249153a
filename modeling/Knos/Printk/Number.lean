import Knos.Lib.Bytes

/-!
# `number` in `kernel/printk.c`

The digits of a number with sign, prefix and padding, written to what is left of a buffer.
`str` is the list of characters that lie between `buf` and the pointer of that name, so
`str < end` is a comparison of its length with the size of the buffer. Where the source
computes in 32 bits the result wraps around.
-/

namespace Knos.Printk

open Knos.Bytes

/-! ## §1  Types of the source -/

/-- A value of type `int32_t`. -/
def int32 (x : ℤ) : ℤ := x.bmod (2 ^ 32)

theorem int32_eq {x : ℤ} (hlow : -2 ^ 31 ≤ x) (hhigh : x < 2 ^ 31) : int32 x = x := by
  unfold int32
  rw [Int.bmod_eq_of_le] <;> omega

def chr (c : Char) : Byte := BitVec.ofNat 8 c.toNat

/-- The bits ZEROPAD to SMALL. -/
structure Flags where
  zeropad : Bool := false
  sign : Bool := false
  plus : Bool := false
  space : Bool := false
  left : Bool := false
  special : Bool := false
  small : Bool := false
deriving DecidableEq

/-! ## §2  Storing characters -/

/-- `if (str < end) *str++ = c` -/
def put (size : ℕ) (c : Byte) (str : List Byte) : List Byte :=
  if str.length < size then str ++ [c] else str

/-- `while (n-- > 0 && str < end) *str++ = c`, with the value that the counter is left at. -/
def padLoop (size : ℕ) (c : Byte) : ℕ → List Byte → ℤ × List Byte
  | 0, str => (-1, str)
  | n + 1, str => if str.length < size then padLoop size c n (str ++ [c]) else (n, str)

/-- `while (i-- > 0 && str < end) *str++ = tmp[i]`, the digits given from the last one on. -/
def writeDigits (size : ℕ) : List Byte → List Byte → List Byte
  | [], str => str
  | d :: ds, str => if str.length < size then writeDigits size ds (str ++ [d]) else str

/-! ## §3  The digits -/

def smallDigits : List Char :=
  ['0', '1', '2', '3', '4', '5', '6', '7', '8', '9', 'a', 'b', 'c', 'd', 'e', 'f', 'g', 'h', 'i',
    'j', 'k', 'l', 'm', 'n', 'o', 'p', 'q', 'r', 's', 't', 'u', 'v', 'w', 'x', 'y', 'z']

def capitalDigits : List Char :=
  ['0', '1', '2', '3', '4', '5', '6', '7', '8', '9', 'A', 'B', 'C', 'D', 'E', 'F', 'G', 'H', 'I',
    'J', 'K', 'L', 'M', 'N', 'O', 'P', 'Q', 'R', 'S', 'T', 'U', 'V', 'W', 'X', 'Y', 'Z']

def digitChar (digits : List Char) (rem : ℕ) : Byte := chr (digits.getD rem '0')

/-- Step 7 of the source for a number that is not 0: `tmp` from `tmp[0]` on, with so many
places left. -/
def digitLoop (digits : List Char) (base : ℕ) : ℕ → ℕ → List Byte
  | 0, _ => []
  | places + 1, num =>
      if num = 0 then []
      else digitChar digits (num % base) :: digitLoop digits base places (num / base)

def tmpOf (digits : List Char) (base num : ℕ) : List Byte :=
  if num = 0 then [chr '0'] else digitLoop digits base 72 num

/-! ## §4  The function -/

/-- Step 5; 0 where there is no sign. -/
def signChar (flags : Flags) (isNegative : Bool) : Byte :=
  if flags.sign then
    if isNegative then chr '-' else if flags.plus then chr '+' else if flags.space then chr ' ' else 0
  else 0

/-- Step 6 -/
def widthBehindPrefix (flags : Flags) (base : ℕ) (width : ℤ) : ℤ :=
  if flags.special then
    if base = 8 then int32 (width - 1) else if base = 16 then int32 (width - 2) else width
  else width

/-- Step 9 -/
def remainingWidth (flags : Flags) (base : ℕ) (width prec : ℤ) (sign : Byte) (i : ℕ) : ℤ :=
  int32 (width - ((if sign ≠ 0 then 1 else 0) + (if (i : ℤ) < prec then prec else (i : ℤ)) +
    (if flags.special then (if base = 8 then 1 else 2) else 0)))

/-- Step 12 -/
def writePrefix (size : ℕ) (flags : Flags) (base : ℕ) (str : List Byte) : List Byte :=
  if flags.special then
    if base = 8 ∧ str.length < size then str ++ [chr '0']
    else if base = 16 ∧ str.length + 1 < size then
      str ++ [chr '0'] ++ [if flags.small then chr 'x' else chr 'X']
    else str
  else str

/-- Steps 10 to 16 -/
def writeNumber (size : ℕ) (flags : Flags) (base : ℕ) (sign padChar : Byte) (tmp : List Byte)
    (padLen width : ℤ) (str : List Byte) : List Byte :=
  let (width, str) :=
    if ¬ (flags.zeropad ∨ flags.left) ∧ 0 < width then padLoop size (chr ' ') width.toNat str
    else (width, str)
  let str := if sign ≠ 0 then put size sign str else str
  let str := writePrefix size flags base str
  let (width, str) :=
    if ¬ flags.left ∧ flags.zeropad ∧ 0 < width then padLoop size padChar width.toNat str
    else (width, str)
  let str := (padLoop size (chr '0') padLen.toNat str).2
  let str := writeDigits size tmp.reverse str
  if flags.left ∧ 0 < width then (padLoop size (chr ' ') width.toNat str).2 else str

def number (size : ℕ) (str : List Byte) (num base : ℕ) (width prec : ℤ) (flags : Flags)
    (isNegative : Bool) : List Byte :=
  let digits := if flags.small then smallDigits else capitalDigits
  if base < 2 ∨ 36 < base then str
  else
    let flags := if flags.left then { flags with zeropad := false } else flags
    let padChar := if flags.zeropad then chr '0' else chr ' '
    let sign := signChar flags isNegative
    let width := widthBehindPrefix flags base width
    let tmp := tmpOf digits base num
    let prec := if prec < tmp.length then (tmp.length : ℤ) else prec
    let padLen := prec - tmp.length
    let width := remainingWidth flags base width prec sign tmp.length
    writeNumber size flags base sign padChar tmp padLen width str

end Knos.Printk
