import Knos.KernelLib.MemoryRoutines

/-!
# Exactly `n` bytes

A state of `memcpy` is described by how many bytes it has copied so far, `k`: memory is the old
one with the first `k` bytes of the source at the destination, and both pointers are `k` bytes
on (`Copying`). A string instruction adds its width to `k`, so the routine has copied
`8 * (n / 8)` bytes and then, for each of the three low bits of `n` that is set, as many as the
bit is worth. `memset` is described in the same way (`Filling`).

Nothing depends on where the spans lie, or on their alignment: addresses wrap around, and a
length of 64 bits does not go around the memory.
-/

namespace Knos.KernelLib

open Knos.Bytes Knos.Spans Knos.Stack

/-! ## §1  Repetition -/

section Repetition

variable {instruction : Cpu → Cpu} {c : Cpu}

/-- What one time preserves, all of them preserve. -/
theorem repeated_induct {P : ℕ → Cpu → Prop} {total : ℕ}
    (hstep : ∀ j c, j < total → P j c → P (j + 1) { instruction c with rcx := c.rcx - 1 })
    {j k : ℕ} (hjk : j + k = total) (h : P j c) : P total (repeated instruction k c) := by
  induction k generalizing j c with
  | zero => exact hjk ▸ h
  | succ k ih => exact ih (by omega) (hstep j c (by omega) h)

/-- With RCX zero there is nothing to repeat, so that jumping over it makes no difference. -/
theorem jeOver_rep (hzf : c.zf = (c.rcx == 0)) : c.jeOver (Cpu.rep instruction) =
    c.rep instruction := by
  unfold Cpu.jeOver
  by_cases hrcx : c.rcx = 0
  · rw [hzf, hrcx]
    show c = Cpu.rep instruction c
    rw [Cpu.rep, hrcx]
    rfl
  · rw [hzf, beq_eq_false_iff_ne.mpr hrcx]
    rfl

theorem advance_of_df (hdf : c.df = false) (width : ℕ) (p : Word) :
    c.advance width p = p + BitVec.ofNat 64 width := by
  rw [Cpu.advance, hdf]
  rfl

end Repetition

/-! ## §2  `memcpy` -/

section Copy

/-- `memcpy` when `k` bytes are copied. -/
structure Copying (m : Memory) (dest src : Word) (k : ℕ) (c : Cpu) : Prop where
  memory_eq : c.memory = write m dest (read m src k)
  rdi_eq : c.rdi = dest + BitVec.ofNat 64 k
  rsi_eq : c.rsi = src + BitVec.ofNat 64 k
  df_eq : c.df = false

variable {m : Memory} {dest src : Word} {k n : ℕ} {c : Cpu}

/-- **One string instruction** copies the next bytes. -/
theorem Copying.movs {width : ℕ} (h : Copying m dest src k c) (hapart : Apart dest n src n)
    (hn : n ≤ 2 ^ 64) (hroom : k + width ≤ n) :
    Copying m dest src (k + width) (c.movs width) where
  memory_eq := by
    have hread : read (write m dest (read m src k)) (src + BitVec.ofNat 64 k) width =
        read m (src + BitVec.ofNat 64 k) width := by
      apply read_write_of_apart
      rw [length_read]
      exact hapart.part (by omega) hroom
    show write c.memory c.rdi (read c.memory c.rsi width) = _
    rw [h.memory_eq, h.rdi_eq, h.rsi_eq, hread, read_add, write_append m, length_read]
    rw [length_read, length_read]
    omega
  rdi_eq := by
    show c.advance width c.rdi = _
    rw [advance_of_df h.df_eq, h.rdi_eq, add_offset]
  rsi_eq := by
    show c.advance width c.rsi = _
    rw [advance_of_df h.df_eq, h.rsi_eq, add_offset]
  df_eq := h.df_eq

/-- The bulk. -/
theorem Copying.rep {width : ℕ} (h : Copying m dest src 0 c) (hapart : Apart dest n src n)
    (hn : n ≤ 2 ^ 64) (hroom : width * c.rcx.toNat ≤ n) :
    Copying m dest src (width * c.rcx.toNat) (c.rep (Cpu.movs width)) := by
  refine repeated_induct (P := fun j c => Copying m dest src (width * j) c) ?_
    (Nat.zero_add _) h
  intro j c' hj h'
  have hstep := h'.movs hapart hn (le_trans (Nat.mul_le_mul_left width hj) hroom)
  exact ⟨hstep.memory_eq, hstep.rdi_eq, hstep.rsi_eq, hstep.df_eq⟩

/-- `testb` of one bit in the low byte of a length -/
theorem testb_bit (length : Word) {i : ℕ} (hi : i < 8) :
    (length.setWidth 8 &&& BitVec.twoPow 8 i == 0) = !length.getLsbD i := by
  have hlow : (length.setWidth 8).getLsbD i = length.getLsbD i := by
    rw [BitVec.getLsbD_setWidth, decide_eq_true hi, Bool.true_and]
  rw [BitVec.and_twoPow, hlow]
  cases length.getLsbD i with
  | false => rfl
  | true =>
      apply beq_eq_false_iff_ne.mpr
      intro hzero
      have hbit := congrArg (fun x : Byte => x.getLsbD i) hzero
      simp [hi] at hbit

/-- A step of the tail copies as many bytes as its bit is worth. -/
theorem Copying.tail {i : ℕ} {length : Word} (hi : i < 8) (h : Copying m dest src k c)
    (hapart : Apart dest n src n) (hn : n ≤ 2 ^ 64)
    (hroom : k + 2 ^ i * (length.toNat / 2 ^ i % 2) ≤ n) :
    Copying m dest src (k + 2 ^ i * (length.toNat / 2 ^ i % 2))
      ((c.testb (BitVec.twoPow 8 i) (length.setWidth 8)).jeOver (Cpu.movs (2 ^ i))) := by
  have htested : Copying m dest src k (c.testb (BitVec.twoPow 8 i) (length.setWidth 8)) :=
    ⟨h.memory_eq, h.rdi_eq, h.rsi_eq, h.df_eq⟩
  have hzf : (c.testb (BitVec.twoPow 8 i) (length.setWidth 8)).zf = !length.getLsbD i :=
    testb_bit length hi
  rw [← Nat.toNat_testBit, BitVec.testBit_toNat] at hroom ⊢
  unfold Cpu.jeOver
  rw [hzf]
  cases hbit : length.getLsbD i with
  | false => exact htested
  | true =>
      rw [hbit, Bool.toNat_true, Nat.mul_one] at hroom
      rw [Bool.toNat_true, Nat.mul_one]
      exact htested.movs hapart hn hroom

/-- **All bytes are copied**, in the order of the instructions: the quad words, then four, two
and one, as the length has them. -/
theorem copying_memcpyCode (length : Word) (hdest : c.rdi = dest) (hsrc : c.rsi = src)
    (hcount : c.rcx = length / 8) (hapart : Apart dest length.toNat src length.toNat) :
    Copying c.memory dest src length.toNat (memcpyCode length c) := by
  have hn : length.toNat ≤ 2 ^ 64 := Nat.le_of_lt length.isLt
  have hstart : Copying c.memory dest src 0 c.cld :=
    ⟨rfl, hdest.trans (BitVec.add_zero _).symm, hsrc.trans (BitVec.add_zero _).symm, rfl⟩
  have hrcx : c.cld.rcx.toNat = length.toNat / 8 := by
    show c.rcx.toNat = _
    rw [hcount, BitVec.toNat_udiv]
    rfl
  have hbulk := @Copying.rep _ _ _ _ _ 8 hstart hapart hn (by omega)
  have hfour := @Copying.tail _ _ _ _ _ _ 2 length (by decide) hbulk hapart hn (by omega)
  have htwo := @Copying.tail _ _ _ _ _ _ 1 length (by decide) hfour hapart hn (by omega)
  have hone := @Copying.tail _ _ _ _ _ _ 0 length (by decide) htwo hapart hn (by omega)
  have htotal : 8 * c.cld.rcx.toNat + 2 ^ 2 * (length.toNat / 2 ^ 2 % 2) +
      2 ^ 1 * (length.toNat / 2 ^ 1 % 2) + 2 ^ 0 * (length.toNat / 2 ^ 0 % 2) = length.toNat := by
    omega
  rw [htotal] at hone
  exact hone

end Copy

/-! ## §3  The word of equal bytes -/

/-- `0x01…01` with a one in each of its `k` bytes -/
def ones : ℕ → ℕ
  | 0 => 0
  | k + 1 => 1 + 256 * ones k

theorem leBytes_mul_ones (b : Byte) {k j : ℕ} (h : k ≤ j) :
    leBytes k (b.toNat * ones j) = List.replicate k b := by
  induction k generalizing j with
  | zero => rfl
  | succ k ih =>
      rcases j with _ | j
      · exact absurd h (Nat.not_succ_le_zero k)
      · have hb := b.isLt
        have hsplit : b.toNat * ones (j + 1) = b.toNat + 256 * (b.toNat * ones j) := by
          rw [ones, Nat.mul_add, Nat.mul_one, Nat.mul_left_comm]
        have hlow : BitVec.ofNat 8 (b.toNat + 256 * (b.toNat * ones j)) = b := by
          apply BitVec.eq_of_toNat_eq
          rw [BitVec.toNat_ofNat]
          omega
        have hhigh : (b.toNat + 256 * (b.toNat * ones j)) / 256 = b.toNat * ones j := by omega
        rw [hsplit, leBytes, hlow, hhigh, ih (Nat.le_of_succ_le_succ h), List.replicate_succ]

/-- Every byte of the word that `memset` stores. -/
theorem leBytes_c64 (b : Byte) {k : ℕ} (hk : k ≤ 8) :
    leBytes k (b.setWidth 64 * 0x0101010101010101#64).toNat = List.replicate k b := by
  have hb := b.isLt
  have hproduct : (b.setWidth 64 * 0x0101010101010101#64).toNat = b.toNat * ones 8 := by
    rw [BitVec.toNat_mul, BitVec.toNat_setWidth]
    show b.toNat % 2 ^ 64 * 0x0101010101010101 % 2 ^ 64 = b.toNat * 0x0101010101010101
    omega
  rw [hproduct, leBytes_mul_ones b hk]

/-! ## §4  `memset` -/

section Fill

/-- `memset` when `k` bytes are filled with `b`. -/
structure Filling (m : Memory) (dest : Word) (b : Byte) (n : Word) (k : ℕ) (c : Cpu) : Prop where
  memory_eq : c.memory = write m dest (List.replicate k b)
  rdi_eq : c.rdi = dest + BitVec.ofNat 64 k
  rax_eq : ∀ width ≤ 8, leBytes width c.rax.toNat = List.replicate width b
  rdx_eq : c.rdx = n
  df_eq : c.df = false

variable {m : Memory} {dest n : Word} {b : Byte} {k : ℕ} {c : Cpu}

theorem Filling.stos {width : ℕ} (h : Filling m dest b n k c) (hwidth : width ≤ 8)
    (hroom : k + width ≤ n.toNat) : Filling m dest b n (k + width) (c.stos width) where
  memory_eq := by
    have hn := n.isLt
    show write c.memory c.rdi (leBytes width c.rax.toNat) = _
    rw [h.memory_eq, h.rdi_eq, h.rax_eq width hwidth, ← List.replicate_append_replicate,
      write_append m, List.length_replicate]
    rw [List.length_replicate, List.length_replicate]
    omega
  rdi_eq := by
    show c.advance width c.rdi = _
    rw [advance_of_df h.df_eq, h.rdi_eq, add_offset]
  rax_eq := h.rax_eq
  rdx_eq := h.rdx_eq
  df_eq := h.df_eq

theorem Filling.rep {width : ℕ} (h : Filling m dest b n k c) (hwidth : width ≤ 8)
    (hroom : k + width * c.rcx.toNat ≤ n.toNat) :
    Filling m dest b n (k + width * c.rcx.toNat) (c.rep (Cpu.stos width)) := by
  refine repeated_induct (P := fun j c => Filling m dest b n (k + width * j) c) ?_
    (Nat.zero_add _) h
  intro j c' hj h'
  have hnext := Nat.mul_le_mul_left width hj
  rw [Nat.mul_succ] at hnext
  have hstep := h'.stos hwidth (by omega)
  rw [Nat.mul_succ, ← Nat.add_assoc]
  exact ⟨hstep.memory_eq, hstep.rdi_eq, hstep.rax_eq, hstep.rdx_eq, hstep.df_eq⟩

/-- **All bytes are filled**: the quad words, then the remainder one by one. -/
theorem filling_memsetCode {c64 : Word} (hdest : c.rdi = dest) (hdf : c.df = false)
    (hc64 : ∀ width ≤ 8, leBytes width c64.toNat = List.replicate width b) :
    Filling c.memory dest b n n.toNat (memsetCode c64 n c) := by
  have hn := n.isLt
  unfold memsetCode
  extract_lets loaded counted kept bulk left
  have hquads : (kept.shrRcx 3).rcx.toNat = n.toNat / 8 := by
    show (n >>> 3).toNat = _
    rw [BitVec.toNat_ushiftRight, Nat.shiftRight_eq_div_pow]
  have hstart : Filling c.memory dest b n 0 (kept.shrRcx 3) :=
    ⟨rfl, hdest.trans (BitVec.add_zero _).symm, hc64, rfl, hdf⟩
  have hbulk : Filling c.memory dest b n (8 * (n.toNat / 8)) bulk := by
    have hrep := hstart.rep (show 8 ≤ 8 by decide) (by omega)
    rw [hquads, Nat.zero_add] at hrep
    show Filling _ _ _ _ _ ((kept.shrRcx 3).jeOver (Cpu.rep (Cpu.stos 8)))
    rw [jeOver_rep rfl]
    exact hrep
  have hbytes : (left.andRcx 7).rcx.toNat = n.toNat % 8 := by
    show (bulk.rdx &&& 7#64).toNat = _
    rw [hbulk.rdx_eq, BitVec.toNat_and]
    exact Nat.and_two_pow_sub_one_eq_mod n.toNat 3
  have htail : Filling c.memory dest b n (8 * (n.toNat / 8)) (left.andRcx 7) :=
    ⟨hbulk.memory_eq, hbulk.rdi_eq, hbulk.rax_eq, hbulk.rdx_eq, hbulk.df_eq⟩
  have hend := htail.rep (show 1 ≤ 8 by decide) (by omega)
  rw [hbytes, Nat.one_mul, Nat.div_add_mod] at hend
  rw [jeOver_rep rfl]
  exact hend

end Fill

/-! ## §5  The routines -/

section Routines

variable {m : Memory} {dest src n : Word} {b : Byte} {c : Cpu} {i : ℕ} {x : Word}

theorem Copying.byte (h : Copying m dest src n.toNat c) (hi : i < n.toNat) :
    c.memory (dest + BitVec.ofNat 64 i) = m (src + BitVec.ofNat 64 i) := by
  rw [h.memory_eq]
  exact write_inside m (hi.trans n.isLt) (getElem?_read hi)

theorem Copying.frame (h : Copying m dest src n.toNat c)
    (hx : ∀ i < n.toNat, x ≠ dest + BitVec.ofNat 64 i) : c.memory x = m x := by
  rw [h.memory_eq]
  apply write_frame
  rwa [length_read]

theorem Filling.byte (h : Filling m dest b n n.toNat c) (hi : i < n.toNat) :
    c.memory (dest + BitVec.ofNat 64 i) = b := by
  rw [h.memory_eq]
  apply write_inside m (hi.trans n.isLt)
  rw [List.getElem?_replicate, if_pos hi]

theorem Filling.frame (h : Filling m dest b n n.toNat c)
    (hx : ∀ i < n.toNat, x ≠ dest + BitVec.ofNat 64 i) : c.memory x = m x := by
  rw [h.memory_eq]
  apply write_frame
  rwa [List.length_replicate]

theorem copying_memcpy (c : Cpu) (hapart : Apart dest n.toNat src n.toNat) :
    Copying c.memory dest src n.toNat (memcpy dest src n c).2 :=
  @copying_memcpyCode dest src { c with rcx := n / 8, rdi := dest, rsi := src } n rfl rfl rfl hapart

theorem filling_memset (dest n : Word) (ch : BitVec 32) (hdf : c.df = false) :
    Filling c.memory dest (ch.setWidth 8) n n.toNat (memset dest ch n c).2 :=
  @filling_memsetCode dest n (ch.setWidth 8) { c with rdi := dest } _ rfl hdf fun _ =>
    leBytes_c64 (ch.setWidth 8)

/-- **No byte is missed and none overrun**, for every length and every address. -/
theorem memory_routines_exact (c : Cpu) (dest src n : Word) (ch : BitVec 32) :
    (Apart dest n.toNat src n.toNat →
      (memcpy dest src n c).1 = dest ∧
      (∀ i < n.toNat, (memcpy dest src n c).2.memory (dest + BitVec.ofNat 64 i) =
        c.memory (src + BitVec.ofNat 64 i)) ∧
      ∀ x, (∀ i < n.toNat, x ≠ dest + BitVec.ofNat 64 i) →
        (memcpy dest src n c).2.memory x = c.memory x) ∧
    (c.df = false →
      (memset dest ch n c).1 = dest ∧
      (∀ i < n.toNat, (memset dest ch n c).2.memory (dest + BitVec.ofNat 64 i) =
        ch.setWidth 8) ∧
      ∀ x, (∀ i < n.toNat, x ≠ dest + BitVec.ofNat 64 i) →
        (memset dest ch n c).2.memory x = c.memory x) := by
  constructor
  · intro hapart
    have hcopy := copying_memcpy c hapart
    exact ⟨rfl, fun i hi => hcopy.byte hi, fun x hx => hcopy.frame hx⟩
  · intro hdf
    have hfill := filling_memset dest n ch hdf
    exact ⟨rfl, fun i hi => hfill.byte hi, fun x hx => hfill.frame hx⟩

/-- Every address holds its low byte. -/
def countingState : Cpu where
  rax := 0
  rcx := 0
  rdx := 0
  rsi := 0
  rdi := 0
  df := false
  zf := false
  memory := fun x => x.setWidth 8

/-- Eleven bytes from the end of the memory on, and as many of a value above 255. -/
theorem memory_routines_exact_eleven :
    (memcpy 0x1001 0xfffffffffffffffd 11 countingState).2.memory (0x1001 + BitVec.ofNat 64 10) =
        7 ∧
      (memset 0x1001 0x1ff 11 countingState).2.memory (0x1001 + BitVec.ofNat 64 10) = 0xff ∧
      (memset 0x1001 0x1ff 11 countingState).2.memory 0x100c = 0x0c := by
  obtain ⟨hcopy, hfill⟩ :=
    memory_routines_exact countingState 0x1001 0xfffffffffffffffd 11 0x1ff
  have hapart : ∀ i < 11, ∀ j < 11,
      0x1001#64 + BitVec.ofNat 64 i ≠ 0xfffffffffffffffd#64 + BitVec.ofNat 64 j := by decide
  have hbeyond : ∀ i < 11, 0x100c#64 ≠ 0x1001#64 + BitVec.ofNat 64 i := by decide
  obtain ⟨-, hcopied, -⟩ := hcopy hapart
  obtain ⟨-, hfilled, hkept⟩ := hfill rfl
  exact ⟨hcopied 10 (by decide), hfilled 10 (by decide), hkept 0x100c hbeyond⟩

/-! ## §6  Tables of quad words -/

/-- An entry of a copied table is the entry of its source. -/
theorem load_memcpy (c : Cpu) (hapart : Apart dest n.toNat src n.toNat)
    (hi : 8 * (i + 1) ≤ n.toNat) :
    load (memcpy dest src n c).2.memory (dest + BitVec.ofNat 64 (8 * i)) =
      load c.memory (src + BitVec.ofNat 64 (8 * i)) := by
  have hbytes : bytesAt (memcpy dest src n c).2.memory (dest + BitVec.ofNat 64 (8 * i)) =
      bytesAt c.memory (src + BitVec.ofNat 64 (8 * i)) := by
    apply List.map_congr_left
    intro k hk
    have hlt := List.mem_range.mp hk
    rw [← add_offset, ← add_offset]
    exact (copying_memcpy c hapart).byte (by omega)
  unfold load
  rw [hbytes]

/-- The entries of a cleared table are zero, as `init_memory` expects of the bitmap, the pages
and the zones. -/
theorem load_memset_zero (dest : Word) (hdf : c.df = false) (hi : 8 * (i + 1) ≤ n.toNat) :
    load (memset dest 0 n c).2.memory (dest + BitVec.ofNat 64 (8 * i)) = 0 := by
  have hbytes : bytesAt (memset dest 0 n c).2.memory (dest + BitVec.ofNat 64 (8 * i)) =
      List.replicate 8 0 := by
    rw [List.eq_replicate_iff]
    refine ⟨by rw [bytesAt, List.length_map, List.length_range], fun x hx => ?_⟩
    obtain ⟨k, hk, rfl⟩ := List.mem_map.mp hx
    have hlt := List.mem_range.mp hk
    rw [← add_offset]
    exact (filling_memset dest n 0 hdf).byte (by omega)
  unfold load
  rw [hbytes]
  rfl

end Routines

end Knos.KernelLib
