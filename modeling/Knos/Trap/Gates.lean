import Knos.Trap.Layout

/-!
# `kernel/idt.c`

`setup_idt` fills 256 gates by calls of `set_gate`: all of them with one handler, then
nineteen again. A gate keeps the address of its handler in three pieces; the processor puts
them together, and gets what the last call for the vector was given (`gate_leads`).

The table is the one of `head.S`: both files define `IDT_Table`, and the linker is told to take
the first.
-/

namespace Knos.Trap

open Knos.Bytes Knos.Spans Knos.Stack

/-! ## §1  Addresses -/

/-- What the linker decides: where the data of `head.S` lie, and the entries. -/
structure Symbols where
  data : Word
  exceptionEntry : ExceptionEntry → Word
  ignoreInterrupt : Word

namespace Symbols

variable (s : Symbols)

def gdtTable : Word := s.data

/-- Behind the 17 quad words of `GDT_Table` and the 10 bytes of `GDT_POINTER`. -/
def idtTable : Word := s.data + 146

/-- Behind 512 quad words and the 10 bytes of `IDT_POINTER`, with `.align 16`. -/
def tss64Table : Word := s.data + 4256

end Symbols

/-! ## §2  `set_gate` -/

def idtEntries : ℕ := 256

def gateTypeInterrupt : Byte := 0x8E

def gateTypeTrap : Byte := 0x8F

/-- The arguments of `set_gate`. -/
structure GateCall where
  vector : BitVec 8
  handler : Word
  selector : BitVec 16
  typeAttr : Byte
  ist : Byte

/-- The fields of `IDTEntry` one after the other, at their offsets in the packed structure. -/
def setGate (idtTable : Word) (m : Memory) (g : GateCall) : Memory :=
  let addr := g.handler
  let entry := idtTable + 16 * g.vector.setWidth 64
  let m := write m entry (leBytes 2 (addr &&& 0xFFFF).toNat)
  let m := write m (entry + 2) (leBytes 2 g.selector.toNat)
  let m := write m (entry + 4) (leBytes 1 (g.ist &&& 0x07).toNat)
  let m := write m (entry + 5) (leBytes 1 g.typeAttr.toNat)
  let m := write m (entry + 6) (leBytes 2 ((addr >>> 16) &&& 0xFFFF).toNat)
  let m := write m (entry + 8) (leBytes 4 ((addr >>> 32) &&& 0xFFFFFFFF).toNat)
  write m (entry + 12) (leBytes 4 0)

/-- The entry as it lies in memory. -/
def GateCall.bytes (g : GateCall) : List Byte :=
  leBytes 2 (g.handler &&& 0xFFFF).toNat ++ leBytes 2 g.selector.toNat ++
    leBytes 1 (g.ist &&& 0x07).toNat ++ leBytes 1 g.typeAttr.toNat ++
    leBytes 2 ((g.handler >>> 16) &&& 0xFFFF).toNat ++
    leBytes 4 ((g.handler >>> 32) &&& 0xFFFFFFFF).toNat ++ leBytes 4 0

theorem GateCall.length_bytes (g : GateCall) : g.bytes.length = 16 := by
  simp only [GateCall.bytes, List.length_append, length_leBytes]

theorem setGate_eq (idtTable : Word) (m : Memory) (g : GateCall) :
    setGate idtTable m g = write m (slot idtTable 16 g.vector.toNat) g.bytes := by
  have hentry : slot idtTable 16 g.vector.toNat = idtTable + 16 * g.vector.setWidth 64 := by
    unfold slot
    rw [BitVec.ofNat_mul, BitVec.ofNat_toNat]
    rfl
  rw [hentry]
  unfold GateCall.bytes setGate
  repeat rw [write_append m (by simp only [List.length_append, length_leBytes]; decide)]
  simp only [List.length_append, length_leBytes]
  rfl

/-! ## §3  What the processor reads -/

/-- Base and limit of a table, as `lidt` and `lgdt` load them. -/
structure TableRegister where
  base : Word
  limit : ℕ

structure Gate where
  offset : Word
  selector : BitVec 16
  ist : ℕ
  kind : ℕ
  dpl : ℕ
  present : Bool
deriving DecidableEq

/-- The gate in 16 bytes, read as one number. -/
def gateOf (n : ℕ) : Gate where
  offset := BitVec.ofNat 64 (bits n 0 16 + 2 ^ 16 * bits n 48 16 + 2 ^ 32 * bits n 64 32)
  selector := BitVec.ofNat 16 (bits n 16 16)
  ist := bits n 32 3
  kind := bits n 40 5
  dpl := bits n 45 2
  present := n.testBit 47

/-- The gate of a vector, if the table is that long. -/
def gateAt (m : Memory) (idtr : TableRegister) (vector : ℕ) : Option Gate :=
  if 16 * vector + 15 ≤ idtr.limit then
    some (gateOf (leNat (read m (slot idtr.base 16 vector) 16)))
  else none

/-- The gate that a call asks for. -/
def GateCall.gate (g : GateCall) : Gate where
  offset := g.handler
  selector := g.selector
  ist := g.ist.toNat % 8
  kind := g.typeAttr.toNat % 32
  dpl := g.typeAttr.toNat / 32 % 4
  present := g.typeAttr.msb

/-- **A gate is put together again**, wherever the handler lies. -/
theorem gateOf_leNat_bytes (g : GateCall) : gateOf (leNat g.bytes) = g.gate := by
  have haddr := g.handler.isLt
  have hselector := g.selector.isLt
  have htype := g.typeAttr.isLt
  have hlow : (g.handler &&& 0xFFFF).toNat = g.handler.toNat % 2 ^ 16 :=
    Nat.and_two_pow_sub_one_eq_mod _ 16
  have hmid : ((g.handler >>> 16) &&& 0xFFFF).toNat = g.handler.toNat / 2 ^ 16 % 2 ^ 16 := by
    rw [BitVec.toNat_and, BitVec.toNat_ushiftRight, Nat.shiftRight_eq_div_pow]
    exact Nat.and_two_pow_sub_one_eq_mod _ 16
  have hhigh : ((g.handler >>> 32) &&& 0xFFFFFFFF).toNat = g.handler.toNat / 2 ^ 32 := by
    rw [BitVec.toNat_and, BitVec.toNat_ushiftRight, Nat.shiftRight_eq_div_pow]
    refine (Nat.and_two_pow_sub_one_eq_mod _ 32).trans ?_
    omega
  have hist : (g.ist &&& 0x07).toNat = g.ist.toNat % 8 := Nat.and_two_pow_sub_one_eq_mod _ 3
  have hnum : leNat g.bytes = g.handler.toNat % 2 ^ 16 + 2 ^ 16 * (g.selector.toNat +
      2 ^ 16 * (g.ist.toNat % 8 + 2 ^ 8 * (g.typeAttr.toNat +
        2 ^ 8 * (g.handler.toNat / 2 ^ 16 % 2 ^ 16 + 2 ^ 16 * (g.handler.toNat / 2 ^ 32))))) := by
    unfold GateCall.bytes
    simp only [leNat_append, List.length_append, length_leBytes, leNat_leBytes, hlow, hmid, hhigh,
      hist]
    omega
  have hlow' : g.handler.toNat % 2 ^ 16 < 2 ^ 16 := Nat.mod_lt _ (by decide)
  have hmid' : g.handler.toNat / 2 ^ 16 % 2 ^ 16 < 2 ^ 16 := Nat.mod_lt _ (by decide)
  have hist' : g.ist.toNat % 8 < 2 ^ 8 := by omega
  unfold gateOf
  rw [hnum, testBit_eq_bits]
  simp (disch := omega) only [bits_high, bits_low, Nat.reduceSub]
  clear hnum
  unfold GateCall.gate bits
  simp only [Gate.mk.injEq]
  refine ⟨BitVec.eq_of_toNat_eq ?_, BitVec.eq_of_toNat_eq ?_, by omega, by omega, by omega, ?_⟩
  · rw [BitVec.toNat_ofNat]
    omega
  · rw [BitVec.toNat_ofNat]
    omega
  · rw [BitVec.msb_eq_decide, decide_eq_decide]
    omega

/-! ## §4  `setup_idt` -/

section Setup

variable (s : Symbols)

/-- The calls of the loop. -/
def defaultGates : List GateCall :=
  (List.range idtEntries).map fun i =>
    ⟨BitVec.ofNat 8 i, s.ignoreInterrupt, 0x08, gateTypeInterrupt, 0⟩

/-- The calls behind it. -/
def exceptionGates : List GateCall :=
  [⟨0, s.exceptionEntry .divideError, 0x08, gateTypeInterrupt, 0⟩,
    ⟨1, s.exceptionEntry .debug, 0x08, gateTypeTrap, 0⟩,
    ⟨2, s.exceptionEntry .nmi, 0x08, gateTypeInterrupt, 1⟩,
    ⟨3, s.exceptionEntry .breakpoint, 0x08, gateTypeTrap, 0⟩,
    ⟨4, s.exceptionEntry .overflow, 0x08, gateTypeTrap, 0⟩,
    ⟨5, s.exceptionEntry .boundRange, 0x08, gateTypeInterrupt, 0⟩,
    ⟨6, s.exceptionEntry .invalidOpcode, 0x08, gateTypeInterrupt, 0⟩,
    ⟨7, s.exceptionEntry .deviceNotAvailable, 0x08, gateTypeInterrupt, 0⟩,
    ⟨8, s.exceptionEntry .doubleFault, 0x08, gateTypeInterrupt, 2⟩,
    ⟨10, s.exceptionEntry .invalidTss, 0x08, gateTypeInterrupt, 0⟩,
    ⟨11, s.exceptionEntry .segmentNotPresent, 0x08, gateTypeInterrupt, 0⟩,
    ⟨12, s.exceptionEntry .stackSegment, 0x08, gateTypeInterrupt, 0⟩,
    ⟨13, s.exceptionEntry .generalProtection, 0x08, gateTypeInterrupt, 0⟩,
    ⟨14, s.exceptionEntry .pageFault, 0x08, gateTypeInterrupt, 0⟩,
    ⟨16, s.exceptionEntry .x87FpuError, 0x08, gateTypeInterrupt, 0⟩,
    ⟨17, s.exceptionEntry .alignmentCheck, 0x08, gateTypeInterrupt, 0⟩,
    ⟨18, s.exceptionEntry .machineCheck, 0x08, gateTypeInterrupt, 0⟩,
    ⟨19, s.exceptionEntry .simdException, 0x08, gateTypeInterrupt, 0⟩,
    ⟨20, s.exceptionEntry .virtualization, 0x08, gateTypeInterrupt, 0⟩]

/-- Memory after the calls. -/
def setupIdt (m : Memory) : Memory :=
  (exceptionGates s).foldl (setGate s.idtTable) ((defaultGates s).foldl (setGate s.idtTable) m)

/-- What `lidt` loads. -/
def idtr : TableRegister := ⟨s.idtTable, 16 * idtEntries - 1⟩

/-! ## §5  Where the gates lead -/

/-- The exceptions whose gates leave the interrupt flag as it is. -/
def ExceptionEntry.isTrap : ExceptionEntry → Bool
  | .debug | .breakpoint | .overflow => true
  | _ => false

/-- The slot in the task state that a gate takes the stack from; 0 is none. -/
def ExceptionEntry.ist : ExceptionEntry → ℕ
  | .nmi => 1
  | .doubleFault => 2
  | _ => 0

def exceptionEntries : List ExceptionEntry :=
  [.divideError, .debug, .nmi, .breakpoint, .overflow, .boundRange, .invalidOpcode,
    .deviceNotAvailable, .doubleFault, .invalidTss, .segmentNotPresent, .stackSegment,
    .generalProtection, .pageFault, .x87FpuError, .alignmentCheck, .machineCheck, .simdException,
    .virtualization]

/-- The entry of a vector. -/
def entryOf (vector : ℕ) : Option ExceptionEntry :=
  exceptionEntries.findRev? fun e => e.vector = vector

theorem entryOf_vector (e : ExceptionEntry) : entryOf e.vector = some e := by
  cases e <;> rfl

theorem vector_of_entryOf {v : ℕ} {e : ExceptionEntry} (h : entryOf v = some e) : e.vector = v := by
  unfold entryOf at h
  rw [List.findRev?_eq_find?_reverse] at h
  simpa using List.find?_some h

/-- The gate of a vector. -/
def gateFor (vector : ℕ) : Gate :=
  match entryOf vector with
  | some e => ⟨s.exceptionEntry e, 0x08, e.ist, if e.isTrap then 15 else 14, 0, true⟩
  | none => ⟨s.ignoreInterrupt, 0x08, 0, 14, 0, true⟩

/-- The call for an entry. -/
def entryCall (e : ExceptionEntry) : GateCall :=
  ⟨BitVec.ofNat 8 e.vector, s.exceptionEntry e, 0x08,
    if e.isTrap then gateTypeTrap else gateTypeInterrupt, BitVec.ofNat 8 e.ist⟩

theorem exceptionGates_eq : exceptionGates s = exceptionEntries.map (entryCall s) := rfl

theorem vector_entryCall (e : ExceptionEntry) : (entryCall s e).vector.toNat = e.vector := by
  cases e <;> rfl

theorem gate_present {vector : BitVec 8} (handler : Word) (trap : Bool) {ist : Byte}
    (h : ist.toNat < 8) :
    (⟨vector, handler, 0x08, if trap then gateTypeTrap else gateTypeInterrupt, ist⟩ : GateCall).gate =
      ⟨handler, 0x08, ist.toNat, if trap then 15 else 14, 0, true⟩ := by
  have htype : ∀ trap : Bool, (if trap then gateTypeTrap else gateTypeInterrupt).toNat % 32 =
      (if trap then 15 else 14) ∧
      (if trap then gateTypeTrap else gateTypeInterrupt).toNat / 32 % 4 = 0 ∧
      (if trap then gateTypeTrap else gateTypeInterrupt).msb = true := by decide
  obtain ⟨hkind, hdpl, hpresent⟩ := htype trap
  unfold GateCall.gate
  rw [Gate.mk.injEq]
  exact ⟨rfl, rfl, Nat.mod_eq_of_lt h, hkind, hdpl, hpresent⟩

theorem gate_entryCall (e : ExceptionEntry) : (entryCall s e).gate =
    ⟨s.exceptionEntry e, 0x08, e.ist, if e.isTrap then 15 else 14, 0, true⟩ := by
  have hist : (BitVec.ofNat 8 e.ist).toNat = e.ist ∧ e.ist < 8 := by
    cases e <;> decide
  unfold entryCall
  rw [gate_present _ _ (by rw [hist.1]; exact hist.2), hist.1]

/-- The calls of the loop differ in their vector alone. -/
theorem gate_default {g : GateCall} (h : g ∈ defaultGates s) :
    g.gate = ⟨s.ignoreInterrupt, 0x08, 0, 14, 0, true⟩ := by
  obtain ⟨i, -, rfl⟩ := List.mem_map.mp h
  exact gate_present _ false (show (0 : Byte).toNat < 8 by decide)

theorem exists_default {v : ℕ} (hv : v < idtEntries) :
    ∃ g, (defaultGates s).findRev? (fun g => g.vector.toNat = v) = some g ∧ g ∈ defaultGates s := by
  have hmem : (⟨BitVec.ofNat 8 v, s.ignoreInterrupt, 0x08, gateTypeInterrupt, 0⟩ : GateCall) ∈
      defaultGates s := List.mem_map.mpr ⟨v, List.mem_range.mpr hv, rfl⟩
  rw [List.findRev?_eq_find?_reverse]
  cases hfind : (defaultGates s).reverse.find? fun g => g.vector.toNat = v with
  | some g => exact ⟨g, rfl, List.mem_reverse.mp (List.mem_of_find?_eq_some hfind)⟩
  | none =>
      have habsent := List.find?_eq_none.mp hfind _ (List.mem_reverse.mpr hmem)
      have hself : (BitVec.ofNat 8 v).toNat = v := by
        rw [BitVec.toNat_ofNat]
        exact Nat.mod_eq_of_lt hv
      simp [hself] at habsent

/-- A call and the slot it fills. -/
def GateCall.content (g : GateCall) : ℕ × List Byte := (g.vector.toNat, g.bytes)

theorem setupIdt_eq (m : Memory) : setupIdt s m =
    fillSlots s.idtTable 16 m ((defaultGates s ++ exceptionGates s).map GateCall.content) := by
  unfold setupIdt fillSlots
  rw [← List.foldl_append, List.foldl_map]
  congr 1
  funext m g
  exact setGate_eq s.idtTable m g

theorem contents_fit {c : ℕ × List Byte}
    (h : c ∈ (defaultGates s ++ exceptionGates s).map GateCall.content) :
    c.1 < idtEntries ∧ c.2.length = 16 := by
  obtain ⟨g, -, rfl⟩ := List.mem_map.mp h
  exact ⟨g.vector.isLt, g.length_bytes⟩

/-- The last call for a vector. -/
theorem last_call {v : ℕ} (hv : v < idtEntries) :
    ∃ g : GateCall, lastIn ((defaultGates s ++ exceptionGates s).map GateCall.content) v =
      some g.bytes ∧ g.gate = gateFor s v := by
  have hentries : (exceptionEntries.findRev? fun e => (GateCall.content (entryCall s e)).1 = v) =
      entryOf v := by
    unfold entryOf GateCall.content
    simp only [vector_entryCall]
  rw [List.map_append, lastIn_append, exceptionGates_eq, List.map_map,
    lastIn_map (GateCall.content ∘ entryCall s)]
  unfold gateFor Function.comp
  rw [hentries]
  cases entryOf v with
  | some e => exact ⟨entryCall s e, rfl, gate_entryCall s e⟩
  | none =>
      obtain ⟨g, hfind, hmem⟩ := exists_default s hv
      have hlast : lastIn ((defaultGates s).map GateCall.content) v = some g.bytes := by
        rw [lastIn_map]
        exact congrArg (Option.map GateCall.bytes) hfind
      refine ⟨g, ?_, gate_default s hmem⟩
      rw [hlast]
      rfl

/-- **Every gate leads where it should**: behind each of the 256 vectors the processor finds the
last handler that was set for it, whatever the table held before. -/
theorem gateAt_setupIdt (m : Memory) {v : ℕ} (hv : v < idtEntries) :
    gateAt (setupIdt s m) (idtr s) v = some (gateFor s v) := by
  obtain ⟨g, hlast, hgate⟩ := last_call s hv
  have hread := @read_fillSlots _ _ m s.idtTable 16 idtEntries v _ (by decide)
    (fun c hc => contents_fit s hc) hv
  unfold idtEntries at hv
  unfold gateAt idtr
  rw [if_pos (show 16 * v + 15 ≤ 16 * idtEntries - 1 by unfold idtEntries; omega), setupIdt_eq, hread,
    hlast, Option.getD_some, gateOf_leNat_bytes, hgate]

end Setup

end Knos.Trap
