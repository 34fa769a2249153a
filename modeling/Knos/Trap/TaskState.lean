import Knos.Trap.Gates

/-!
# `kernel/gdt.c` and the data of `head.S`

`setup_tss64` builds the descriptor of the task state from pieces of its address, writes it
into two entries of `GDT_Table` and loads the task register. The processor puts the pieces
together again, for every address (`setupTss64_eq`). The limit counts in pages, since the
granularity bit is set with it. The task state itself stays as `head.S` has left it, all zeros.
-/

namespace Knos.Trap

open Knos.Bytes Knos.Spans Knos.Stack

/-! ## §1  Descriptors -/

/-- `GDT_Table`; the last ten entries are kept for descriptors of task states. -/
def headGdt : List Word :=
  [0x0000000000000000, 0x0020980000000000, 0x0000920000000000, 0x0020f80000000000,
    0x0000f20000000000, 0x00cf9a000000ffff, 0x00cf92000000ffff] ++ List.replicate 10 0

/-- What `lgdt` loads. -/
def gdtr (s : Symbols) : TableRegister := ⟨s.gdtTable, 8 * 17 - 1⟩

/-- The base in a descriptor of 16 bytes. -/
def descriptorBase (n : ℕ) : ℕ := bits n 16 24 + 2 ^ 24 * bits n 56 40

/-- The last offset, in bytes or in pages. -/
def descriptorLimit (n : ℕ) : ℕ :=
  let limit := bits n 0 16 + 2 ^ 16 * bits n 48 4
  if n.testBit 55 then 4096 * limit + 4095 else limit

/-- `ltr`: the descriptor of a task state that is available becomes busy. -/
def ltr (gdtr : TableRegister) (selector : ℕ) (m : Memory) : Option (Memory × TableRegister) :=
  let a := gdtr.base + BitVec.ofNat 64 selector
  let n := leNat (read m a 16)
  if selector + 15 ≤ gdtr.limit ∧ bits n 40 5 = 9 ∧ n.testBit 47 then
    some (store m a (load m a ||| 1#64 <<< 41),
      ⟨BitVec.ofNat 64 (descriptorBase n), descriptorLimit n⟩)
  else none

/-! ## §2  `setup_tss64` -/

/-- The value of `low`. The first two terms have 32 bits, and are widened with the third. -/
def tssLow (base : Word) : Word :=
  let limit : BitVec 32 := 104 - 1
  let baseLow : BitVec 16 := ((base >>> 0) &&& 0xFFFF).setWidth 16
  let baseMid : BitVec 8 := ((base >>> 16) &&& 0xFF).setWidth 8
  let baseHigh : BitVec 8 := ((base >>> 24) &&& 0xFF).setWidth 8
  ((limit &&& 0xFFFF#32) ||| (baseLow.setWidth 32 <<< 16)).setWidth 64 |||
    (baseMid.setWidth 64 <<< 32) |||
    (0x9#64 <<< 40) |||
    (0#64 <<< 44) |||
    (1#64 <<< 47) |||
    (1#64 <<< 55) |||
    (baseHigh.setWidth 64 <<< 56)

/-- The value of `high`. -/
def tssHigh (base : Word) : Word :=
  let baseUpper : BitVec 32 := (base >>> 32).setWidth 32
  baseUpper.setWidth 64

def setupTss64 (s : Symbols) (m : Memory) : Option (Memory × TableRegister) :=
  let base := s.tss64Table
  let m := store m (s.gdtTable + 64) (tssLow base)
  let m := store m (s.gdtTable + 72) (tssHigh base)
  ltr (gdtr s) 0x40 m

/-! ## §3  The descriptor -/

section Descriptor

/-- A field that is put above another. -/
theorem toNat_or_shiftLeft {w k a b : ℕ} {x y : BitVec w} (hx : x.toNat = a) (hy : y.toNat = b)
    (ha : a < 2 ^ k) (hb : b * 2 ^ k < 2 ^ w) : (x ||| y <<< k).toNat = a + 2 ^ k * b := by
  rw [BitVec.toNat_or, BitVec.toNat_shiftLeft, hx, hy, Nat.shiftLeft_eq, Nat.mod_eq_of_lt hb,
    Nat.or_comm, ← Nat.shiftLeft_eq, ← Nat.shiftLeft_add_eq_or_of_lt ha, Nat.shiftLeft_eq]
  ring

/-- A field in a wider word. -/
theorem toNat_widened {v w a : ℕ} {x : BitVec v} (hx : x.toNat = a) (h : v ≤ w) :
    (x.setWidth w).toNat = a := by
  rw [BitVec.toNat_setWidth, hx, Nat.mod_eq_of_lt]
  rw [← hx]
  exact Nat.lt_of_lt_of_le x.isLt (Nat.pow_le_pow_right (by decide) h)

variable (base : Word)

/-- A piece of an address. -/
theorem toNat_piece (i w : ℕ) (hw : w < 64) :
    (((base >>> i) &&& BitVec.ofNat 64 (2 ^ w - 1)).setWidth w).toNat =
      base.toNat / 2 ^ i % 2 ^ w := by
  have hlt : 2 ^ w - 1 < 2 ^ 64 :=
    Nat.lt_of_le_of_lt (Nat.sub_le _ _) (Nat.pow_lt_pow_right (by decide) hw)
  rw [BitVec.toNat_setWidth, BitVec.toNat_and, BitVec.toNat_ushiftRight, BitVec.toNat_ofNat,
    Nat.mod_eq_of_lt hlt, Nat.and_two_pow_sub_one_eq_mod, Nat.mod_mod, Nat.shiftRight_eq_div_pow]

/-- The pieces, from the lowest up. -/
theorem toNat_tssLow : (tssLow base).toNat = 103 + 2 ^ 16 * (base.toNat % 2 ^ 16 +
    2 ^ 16 * (base.toNat / 2 ^ 16 % 2 ^ 8 + 2 ^ 8 * (0x89 + 2 ^ 8 * (0x80 +
      2 ^ 8 * (base.toNat / 2 ^ 24 % 2 ^ 8))))) := by
  have hlow : (((base >>> 0) &&& 0xFFFF).setWidth 16).toNat = base.toNat % 2 ^ 16 := by
    have hpiece := toNat_piece base 0 16 (by decide)
    rwa [Nat.pow_zero, Nat.div_one] at hpiece
  have hmid : (((base >>> 16) &&& 0xFF).setWidth 8).toNat = base.toNat / 2 ^ 16 % 2 ^ 8 :=
    toNat_piece base 16 8 (by decide)
  have hhigh : (((base >>> 24) &&& 0xFF).setWidth 8).toNat = base.toNat / 2 ^ 24 % 2 ^ 8 :=
    toNat_piece base 24 8 (by decide)
  have hlimit : ((104 - 1 : BitVec 32) &&& 0xFFFF#32).toNat = 103 := by decide
  unfold tssLow
  generalize ((base >>> 0) &&& 0xFFFF).setWidth 16 = baseLow at *
  generalize ((base >>> 16) &&& 0xFF).setWidth 8 = baseMid at *
  generalize ((base >>> 24) &&& 0xFF).setWidth 8 = baseHigh at *
  have hbaseLow := toNat_widened (toNat_or_shiftLeft (k := 16) hlimit
    (toNat_widened hlow (show 16 ≤ 32 by decide)) (by decide) (by omega)) (show 32 ≤ 64 by decide)
  have hbaseMid := toNat_or_shiftLeft (k := 32) hbaseLow
    (toNat_widened hmid (show 8 ≤ 64 by decide)) (by omega) (by omega)
  have htype := toNat_or_shiftLeft (k := 40) (b := 9) (y := 0x9#64) hbaseMid rfl (by omega) (by decide)
  have hsystem := toNat_or_shiftLeft (k := 44) (b := 0) (y := 0#64) htype rfl (by omega) (by decide)
  have hpresent := toNat_or_shiftLeft (k := 47) (b := 1) (y := 1#64) hsystem rfl (by omega) (by decide)
  have hgranularity := toNat_or_shiftLeft (k := 55) (b := 1) (y := 1#64) hpresent rfl
    (by omega) (by decide)
  have hbaseHigh := toNat_or_shiftLeft (k := 56) hgranularity
    (toNat_widened hhigh (show 8 ≤ 64 by decide)) (by omega) (by omega)
  refine hbaseHigh.trans ?_
  omega

theorem toNat_tssHigh : (tssHigh base).toNat = base.toNat / 2 ^ 32 := by
  have hlt := base.isLt
  unfold tssHigh
  simp only [BitVec.toNat_setWidth, BitVec.toNat_ushiftRight, Nat.shiftRight_eq_div_pow]
  omega

/-- The 16 bytes, as one number. -/
def tssDescriptor : ℕ := (tssLow base).toNat + 2 ^ 64 * (tssHigh base).toNat

theorem tssDescriptor_eq : tssDescriptor base = 103 + 2 ^ 16 * (base.toNat % 2 ^ 24 +
    2 ^ 24 * (0x89 + 2 ^ 8 * (0x80 + 2 ^ 8 * (base.toNat / 2 ^ 24)))) := by
  have hlt := base.isLt
  unfold tssDescriptor
  rw [toNat_tssLow, toNat_tssHigh]
  omega

/-- **A descriptor is put together again**, wherever the task state lies. -/
theorem tssDescriptor_fields : BitVec.ofNat 64 (descriptorBase (tssDescriptor base)) = base ∧
    descriptorLimit (tssDescriptor base) = 4096 * 103 + 4095 ∧
    bits (tssDescriptor base) 40 5 = 9 ∧ (tssDescriptor base).testBit 47 = true := by
  have hlow : base.toNat % 2 ^ 24 < 2 ^ 24 := Nat.mod_lt _ (by decide)
  have hhigh : base.toNat / 2 ^ 24 < 2 ^ 40 := by
    have hlt := base.isLt
    omega
  unfold descriptorBase descriptorLimit
  rw [testBit_eq_bits, testBit_eq_bits, tssDescriptor_eq]
  simp (disch := omega) only [bits_high, bits_low, Nat.reduceSub, bits_zero hlow, bits_zero hhigh]
  refine ⟨BitVec.eq_of_toNat_eq ?_, by decide, by decide, by decide⟩
  rw [BitVec.toNat_ofNat, Nat.mod_add_div, Nat.mod_eq_of_lt base.isLt]

end Descriptor

/-! ## §4  The task register -/

theorem ltr_eq {g : TableRegister} {selector n : ℕ} {m : Memory}
    (hread : leNat (read m (g.base + BitVec.ofNat 64 selector) 16) = n)
    (hfit : selector + 15 ≤ g.limit) (htype : bits n 40 5 = 9) (hpresent : n.testBit 47 = true) :
    ltr g selector m = some (store m (g.base + BitVec.ofNat 64 selector)
      (load m (g.base + BitVec.ofNat 64 selector) ||| 1#64 <<< 41),
        ⟨BitVec.ofNat 64 (descriptorBase n), descriptorLimit n⟩) := by
  subst hread
  exact if_pos ⟨hfit, htype, hpresent⟩

section Setup

variable (s : Symbols) (m : Memory)

/-- **The task register** after `setup_tss64`, and what it has changed. -/
theorem setupTss64_eq : ∃ m', setupTss64 s m = some (m', ⟨s.tss64Table, 4096 * 103 + 4095⟩) ∧
    ∀ x, 16 ≤ (x - (s.gdtTable + 64)).toNat → m' x = m x := by
  have hnext : s.gdtTable + 72 = s.gdtTable + 64 + 8 := by
    rw [BitVec.add_assoc]
    rfl
  have hapart : Apart (s.gdtTable + 64 + 8) 8 (s.gdtTable + 64) 8 := by
    have hparts := @apart_parts 64 (s.gdtTable + 64) 8 8 8 0 (by decide) (by decide)
      (Or.inr (Nat.le_refl 8))
    rwa [BitVec.ofNat_eq_ofNat, BitVec.add_zero] at hparts
  obtain ⟨hbase, hlimit, htype, hpresent⟩ := tssDescriptor_fields s.tss64Table
  have hread : leNat (read (store (store m (s.gdtTable + 64) (tssLow s.tss64Table))
      (s.gdtTable + 64 + 8) (tssHigh s.tss64Table)) (s.gdtTable + 64) 16) =
      tssDescriptor s.tss64Table := by
    rw [leNat_read_sixteen, load_store_self, load_store_of_apart _ hapart, load_store_self]
    rfl
  have hltr := @ltr_eq (gdtr s) 0x40 _ _ hread (show 64 + 15 ≤ 8 * 17 - 1 by decide) htype hpresent
  rw [hbase, hlimit] at hltr
  unfold setupTss64
  rw [hnext]
  refine ⟨_, hltr, fun x hx => ?_⟩
  have hafter := @distance_after 64 (s.gdtTable + 64) x 8 (by omega)
  have hbeyond : 8 ≤ (x - (s.gdtTable + 64)).toNat := by omega
  refine (store_outside _ hbeyond).trans ((store_outside _ ?_).trans (store_outside m hbeyond))
  show 8 ≤ (x - (s.gdtTable + 64 + BitVec.ofNat 64 8)).toNat
  omega

/-- What `head.S` has in its data, as far as exceptions depend on it. -/
structure HeadData : Prop where
  gdt : Holds m s.gdtTable headGdt
  tss : read m s.tss64Table 104 = List.replicate 104 0

/-- What exceptions depend on once both functions have run. -/
structure Prepared : Prop where
  gates : ∀ v < idtEntries, gateAt m (idtr s) v = some (gateFor s v)
  code : load m (s.gdtTable + 8) = 0x0020980000000000
  ist₁ : load m (s.tss64Table + 36) = 0
  ist₂ : load m (s.tss64Table + 44) = 0

variable {s m}

/-- `setup_idt` writes the table alone. -/
theorem read_setupIdt {o n : ℕ} (h : o + n ≤ 146 ∨ 4242 ≤ o) (hn : o + n ≤ 2 ^ 64) :
    read (setupIdt s m) (s.data + BitVec.ofNat 64 o) n = read m (s.data + BitVec.ofNat 64 o) n := by
  rw [setupIdt_eq]
  refine read_fillSlots_of_apart (fun c hc => contents_fit s hc) ?_
  exact @apart_parts 64 s.data (16 * idtEntries) n 146 o (by decide) hn
    (h.symm.imp (fun h => h) (fun h => h))

/-- `setup_tss64` writes two entries alone. -/
theorem read_setupTss64 {m' : Memory} (hframe : ∀ x, 16 ≤ (x - (s.gdtTable + 64)).toNat → m' x = m x)
    {o n : ℕ} (h : o + n ≤ 64 ∨ 80 ≤ o) (hn : o + n ≤ 2 ^ 63) :
    read m' (s.data + BitVec.ofNat 64 o) n = read m (s.data + BitVec.ofNat 64 o) n := by
  refine read_congr fun i hi => hframe _ ?_
  have hdist : (s.data + BitVec.ofNat 64 o + BitVec.ofNat 64 i - s.data).toNat = o + i := by
    rw [← add_offset, toNat_offset s.data (by omega)]
  show 16 ≤ (_ - (s.data + BitVec.ofNat 64 64)).toNat
  rcases h with h | h
  · rw [distance_before (by omega) (by decide), hdist]
    omega
  · rw [distance_after (by omega), hdist]
    omega

theorem load_setup {m' : Memory}
    (hframe : ∀ x, 16 ≤ (x - (s.gdtTable + 64)).toNat → m' x = setupIdt s m x) {o : ℕ}
    (h : o + 8 ≤ 64 ∨ 4242 ≤ o) (ho : o + 8 ≤ 2 ^ 63) :
    load m' (s.data + BitVec.ofNat 64 o) = load m (s.data + BitVec.ofNat 64 o) := by
  have hread := read_setupTss64 (n := 8) hframe (show o + 8 ≤ 64 ∨ 80 ≤ o by omega) ho
  rw [read_setupIdt (show o + 8 ≤ 146 ∨ 4242 ≤ o by omega) (by omega)] at hread
  exact congrArg (fun bytes => BitVec.ofNat 64 (leNat bytes)) hread

/-- The task state is full of zeros. -/
theorem HeadData.load_tss (h : HeadData s m) {o : ℕ} (ho : o + 8 ≤ 104) :
    load m (s.tss64Table + BitVec.ofNat 64 o) = 0 := by
  have hbytes : read m (s.tss64Table + BitVec.ofNat 64 o) 8 = List.replicate 8 0 := by
    apply List.ext_getElem?
    intro i
    rcases Nat.lt_or_ge i 8 with hi | hi
    · have hbyte : (read m s.tss64Table 104)[o + i]? = some 0 := by
        rw [h.tss, List.getElem?_replicate, if_pos (by omega)]
      rw [getElem?_read (by omega), add_offset] at hbyte
      rw [getElem?_read hi, hbyte, List.getElem?_replicate, if_pos hi]
    · rw [List.getElem?_eq_none (by rwa [length_read]),
        List.getElem?_eq_none (by rwa [List.length_replicate])]
  show BitVec.ofNat 64 (leNat (read m (s.tss64Table + BitVec.ofNat 64 o) 8)) = 0
  rw [hbytes]
  rfl

theorem HeadData.load_tss_setup (h : HeadData s m) {m' : Memory}
    (hframe : ∀ x, 16 ≤ (x - (s.gdtTable + 64)).toNat → m' x = setupIdt s m x) {o : ℕ}
    (ho : o + 8 ≤ 104) : load m' (s.tss64Table + BitVec.ofNat 64 o) = 0 := by
  rw [← h.load_tss ho]
  have hload := load_setup hframe (o := 4256 + o) (Or.inr (by omega)) (by omega)
  rwa [add_offset] at hload

/-- **After the setup** every gate is in place, the code segment is as it was, and the stacks of
the task state are null. -/
theorem prepared (h : HeadData s m) :
    ∃ m', setupTss64 s (setupIdt s m) = some (m', ⟨s.tss64Table, 4096 * 103 + 4095⟩) ∧
      Prepared s m' := by
  obtain ⟨m', hrun, hframe⟩ := setupTss64_eq s (setupIdt s m)
  refine ⟨m', hrun, ?_, ?_, ?_, ?_⟩
  · intro v hv
    rw [← gateAt_setupIdt s m hv]
    unfold idtEntries at hv
    have hread := read_setupTss64 (m := setupIdt s m) hframe (o := 146 + 16 * v) (n := 16)
      (by omega) (by omega)
    rw [add_offset] at hread
    have hslot : read m' (slot (idtr s).base 16 v) 16 =
        read (setupIdt s m) (slot (idtr s).base 16 v) 16 := hread
    unfold gateAt
    rw [hslot]
  · have hgdt : load m s.gdtTable = _ ∧ load m (s.gdtTable + 8) = 0x0020980000000000 ∧ _ := h.gdt
    rw [← hgdt.2.1]
    exact load_setup hframe (o := 8) (Or.inl (by decide)) (by decide)
  · exact h.load_tss_setup hframe (by decide)
  · exact h.load_tss_setup hframe (by decide)

end Setup

end Knos.Trap
