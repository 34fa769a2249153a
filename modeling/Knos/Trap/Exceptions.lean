import Knos.Paging.KernelMap
import Knos.Trap.Delivery

/-!
# How an exception of the kernel ends

What an exception comes to depends on tables that four files have filled: the gates of
`idt.c`, the descriptors of `gdt.c`, and the task state and the page tables of `head.S`.

On a stack with room every exception gets to its own entry, except for the two that are to have
stacks of their own (`exception_outcome`): the task state has null for both, the block would lie
at the end of the address space, and nothing is mapped there. So an NMI arrives as a page fault,
and a double fault never arrives. Without room on the stack no exception arrives at all.
-/

namespace Knos.Trap

open Knos.Bytes Knos.Spans Knos.Stack Knos.Loop Knos.PageTables Knos.Paging
open Knos.Memory (physToVirtBase)

/-! ## §1  The kernel -/

/-- The processor once `setup_tss64` has run, with the page tables of `head.S`. -/
def kernelProcessor (s : Symbols) (ram : Store Byte) : Processor where
  idtr := idtr s
  gdtr := gdtr s
  tr := ⟨s.tss64Table, 4096 * 103 + 4095⟩
  cr3 := headCr3
  ram := ram

/-- The linker has put all entries to addresses that exist. -/
def Symbols.EntriesCanonical (s : Symbols) : Prop :=
  (∀ e, Canonical (s.exceptionEntry e).toNat) ∧ Canonical s.ignoreInterrupt.toNat

/-- All words of a block can be pushed. -/
def Room (p : Processor) (stack : Word) (n : ℕ) : Prop := ∀ a ∈ pushes stack n, pushFault p a = none

instance (p : Processor) (stack : Word) (n : ℕ) : Decidable (Room p stack n) :=
  inferInstanceAs (Decidable (∀ a ∈ _, _))

/-- What an exception of the kernel is delivered with, on the interrupted stack. -/
def kernelDelivery (s : Symbols) (c : Cpu) (errorCode : Word) (vector : ℕ) : Delivery where
  stack := c.rsp
  errorCode := errorCode
  entry := (gateFor s vector).offset
  rflags := c.rflags &&& ~~~flagsCleared (gateFor s vector).kind
  cs := 0x08
  ss := c.ss

/-- The exception that arrives in place of another: an NMI has no stack. -/
def arriving (vector : ℕ) : ℕ := if vector = 2 then 14 else vector

section Kernel

variable {s : Symbols} {ram : Store Byte} {c : Cpu} {errorCode : ℕ → Word} {vector : ℕ}

theorem gateFor_fields (s : Symbols) (v : ℕ) : (gateFor s v).selector = 0x08 ∧
    (gateFor s v).present = true ∧ ((gateFor s v).kind = 14 ∨ (gateFor s v).kind = 15) := by
  unfold gateFor
  split
  · rename_i e _
    refine ⟨rfl, rfl, ?_⟩
    dsimp only
    split
    · exact Or.inr rfl
    · exact Or.inl rfl
  · exact ⟨rfl, rfl, Or.inl rfl⟩

/-- Two gates ask for a stack of their own. -/
theorem ist_gateFor (s : Symbols) (v : ℕ) :
    (gateFor s v).ist = if v = 2 then 1 else if v = 8 then 2 else 0 := by
  unfold gateFor
  split
  · rename_i e he
    have hv := vector_of_entryOf he
    subst hv
    cases e <;> rfl
  · rename_i hnone
    have hne : v ≠ 2 ∧ v ≠ 8 := by
      constructor
      · rintro rfl
        cases hnone
      · rintro rfl
        cases hnone
    rw [if_neg hne.1, if_neg hne.2]

theorem Symbols.EntriesCanonical.gateFor (h : s.EntriesCanonical) (v : ℕ) :
    Canonical (gateFor s v).offset.toNat := by
  unfold Knos.Trap.gateFor
  split
  · exact h.1 _
  · exact h.2

/-- The stack for a vector. -/
def stackFor (c : Cpu) (v : ℕ) : Word := if v = 2 ∨ v = 8 then 0 else c.rsp

theorem findGate_kernel (h : Prepared s c.memory) (hv : vector < idtEntries) :
    findGate (kernelProcessor s ram) c vector = .ok (gateFor s vector) := by
  obtain ⟨-, hpresent, hkind⟩ := gateFor_fields s vector
  have hgate : gateAt c.memory (kernelProcessor s ram).idtr vector = some (gateFor s vector) :=
    h.gates vector hv
  unfold findGate
  rw [hgate]
  dsimp only
  rw [if_neg (by omega), if_pos hpresent]

theorem checkCode_kernel (h : Prepared s c.memory) :
    checkCode (kernelProcessor s ram) c 0x08 = .ok () := by
  have hcode : load c.memory ((kernelProcessor s ram).gdtr.base + BitVec.ofNat 64 8) =
      0x0020980000000000 := h.code
  have hindex : (0x08 : BitVec 16).toNat / 8 * 8 = 8 := by decide
  have hlimit : (kernelProcessor s ram).gdtr.limit = 135 := rfl
  unfold checkCode
  simp only [hindex, hcode, hlimit]
  rw [if_neg (by decide), if_neg (by decide), if_pos (by decide)]

theorem findStack_kernel (h : Prepared s c.memory) :
    findStack (kernelProcessor s ram) c (gateFor s vector).ist = .ok (stackFor c vector) := by
  have hlimit : (kernelProcessor s ram).tr.limit = 4096 * 103 + 4095 := rfl
  rw [ist_gateFor]
  unfold stackFor findStack
  rw [hlimit]
  by_cases h2 : vector = 2
  · rw [if_pos h2, if_pos (Or.inl h2), if_neg (by decide), if_neg (by decide)]
    exact congrArg Except.ok h.ist₁
  · by_cases h8 : vector = 8
    · rw [if_neg h2, if_pos h8, if_pos (Or.inr h8), if_neg (by decide), if_neg (by decide)]
      exact congrArg Except.ok h.ist₂
    · rw [if_neg h2, if_neg h8, if_pos rfl, if_neg (by tauto)]

/-- With the tables in place an exception depends on its stack alone. -/
theorem attempt_kernel (h : Prepared s c.memory) (hentries : s.EntriesCanonical)
    (hv : vector < idtEntries) (code : Word) :
    attempt (kernelProcessor s ram) c code vector =
      (checkPushes (kernelProcessor s ram) (stackFor c vector) (wordsPushed vector)).map fun _ =>
        { kernelDelivery s c code vector with stack := stackFor c vector } := by
  obtain ⟨hselector, -, -⟩ := gateFor_fields s vector
  have hentry : checkEntry (gateFor s vector).offset = .ok () := if_pos (hentries.gateFor vector)
  unfold attempt
  rw [findGate_kernel h hv, ok_bind, hselector, checkCode_kernel h, ok_bind, findStack_kernel h,
    ok_bind, hentry, ok_bind]
  cases checkPushes (kernelProcessor s ram) (stackFor c vector) (wordsPushed vector) <;> rfl

end Kernel

/-! ## §2  Room on the stack -/

section Pushes

variable {p : Processor} {stack : Word} {n m : ℕ}

theorem checkPushes_of_room (h : Room p stack n) : checkPushes p stack n = .ok () := by
  unfold checkPushes
  rw [List.findSome?_eq_none_iff.mpr h]

theorem checkPushes_of_not_room (h : ¬ Room p stack n) :
    ∃ fault, checkPushes p stack n = .error fault ∧ (fault = 12 ∨ fault = 14) := by
  cases hcheck : checkPushes p stack n with
  | error fault => exact ⟨fault, rfl, checkPushes_cases hcheck⟩
  | ok _ =>
      refine absurd (List.findSome?_eq_none_iff.mp ?_) h
      unfold checkPushes at hcheck
      split at hcheck
      · cases hcheck
      · assumption

theorem Room.mono (h : Room p stack n) (hle : m ≤ n) : Room p stack m := by
  intro a ha
  obtain ⟨k, hk, rfl⟩ := List.mem_map.mp ha
  exact h _ (List.mem_map.mpr ⟨k, List.mem_range.mpr (Nat.lt_of_lt_of_le (List.mem_range.mp hk) hle), rfl⟩)

theorem wordsPushed_le (v : ℕ) : wordsPushed v ≤ 6 := by
  unfold wordsPushed
  split <;> decide

theorem wordsPushed_pos (v : ℕ) : 0 < wordsPushed v := by
  unfold wordsPushed
  split <;> decide

/-- Below null there is nothing. -/
theorem checkPushes_null {s : Symbols} {ram : Store Byte} (h : KernelTables ram) (hn : 0 < n) :
    checkPushes (kernelProcessor s ram) 0 n = .error 14 := by
  obtain ⟨k, rfl⟩ := Nat.exists_eq_succ_of_ne_zero (Nat.ne_of_gt hn)
  have hpush : pushFault (kernelProcessor s ram) (0xFFFFFFFFFFFFFFF8 : Word) = some 14 := by
    have hunmapped : translate ram headCr3 0xFFFFFFFFFFFFFFF8 = none := by
      rw [higher_map h.higherHalf (by decide) (by decide)]
      decide
    exact pushFault_unmapped (by decide) hunmapped
  have hfirst : pushes 0 (k + 1) =
      0xFFFFFFFFFFFFFFF8 :: ((List.range k).map Nat.succ).map fun k =>
        ((0 : Word) &&& ~~~15#64) - BitVec.ofNat 64 (8 * (k + 1)) := by
    unfold pushes
    rw [List.range_succ_eq_map]
    rfl
  unfold checkPushes
  rw [hfirst, List.findSome?_cons, hpush]

theorem toNat_aligned (x : Word) : (x &&& ~~~15#64).toNat = x.toNat / 16 * 16 := by
  have hlt := x.isLt
  have hsplit : x &&& ~~~15#64 = (x >>> 4) <<< 4 := by
    apply BitVec.eq_of_getLsbD_eq
    intro i hi
    rw [BitVec.getLsbD_and, BitVec.getLsbD_not, BitVec.getLsbD_shiftLeft, BitVec.getLsbD_ushiftRight]
    have hmask : (15#64).getLsbD i = decide (i < 4) := by
      show ((BitVec.allOnes 4).setWidth 64).getLsbD i = _
      rw [BitVec.getLsbD_setWidth, BitVec.getLsbD_allOnes, decide_eq_true hi, Bool.true_and]
    rw [hmask]
    rcases Nat.lt_or_ge i 4 with hlow | hhigh
    · simp [hlow]
    · simp [hi, Nat.not_lt.mpr hhigh, Nat.add_sub_cancel' hhigh]
  rw [hsplit, BitVec.toNat_shiftLeft, BitVec.toNat_ushiftRight, Nat.shiftLeft_eq,
    Nat.shiftRight_eq_div_pow, Nat.mod_eq_of_lt]
  omega

/-- A stack in the memory that the kernel maps has room for six words. -/
theorem kernelStack_room {s : Symbols} {ram : Store Byte} (h : KernelTables ram)
    (hlow : physToVirtBase + 64 ≤ stack.toNat) (hhigh : stack.toNat ≤ physToVirtBase + 0xa00000) :
    Room (kernelProcessor s ram) stack 6 := by
  intro a ha
  obtain ⟨k, hk, rfl⟩ := List.mem_map.mp ha
  have hk := List.mem_range.mp hk
  have haligned := toNat_aligned stack
  unfold physToVirtBase at hlow hhigh
  have haddr : ((stack &&& ~~~15#64) - BitVec.ofNat 64 (8 * (k + 1))).toNat =
      stack.toNat / 16 * 16 - 8 * (k + 1) := by
    rw [BitVec.toNat_sub, BitVec.toNat_ofNat, haligned]
    have hlt := stack.isLt
    omega
  have hmap := @higher_map _ (stack.toNat / 16 * 16 - 8 * (k + 1)) h.higherHalf
    (by unfold physToVirtBase; omega) (by have hlt := stack.isLt; omega)
  have hphysical : physicalOf (stack.toNat / 16 * 16 - 8 * (k + 1) - physToVirtBase) =
      some (stack.toNat / 16 * 16 - 8 * (k + 1) - physToVirtBase) :=
    if_pos (by unfold physToVirtBase; omega)
  rw [hphysical] at hmap
  have hcanon : Canonical (stack.toNat / 16 * 16 - 8 * (k + 1)) :=
    Or.inr ⟨by omega, by have hlt := stack.isLt; omega⟩
  apply pushFault_writable
  · rwa [haddr]
  · rw [haddr]
    exact hmap
  · rfl

end Pushes

/-! ## §3  The outcome -/

section Outcome

variable {s : Symbols} {ram : Store Byte} {c : Cpu} {errorCode : ℕ → Word} {vector fuel : ℕ}

/-- An exception on the interrupted stack. -/
theorem attempt_of_room (h : Prepared s c.memory) (hentries : s.EntriesCanonical)
    (hv : vector < idtEntries) (hown : ¬ (vector = 2 ∨ vector = 8)) (code : Word)
    (hroom : Room (kernelProcessor s ram) c.rsp (wordsPushed vector)) :
    attempt (kernelProcessor s ram) c code vector = .ok (kernelDelivery s c code vector) := by
  rw [attempt_kernel h hentries hv]
  unfold stackFor
  rw [if_neg hown, checkPushes_of_room hroom]
  rfl

theorem attempt_of_not_room (h : Prepared s c.memory) (hentries : s.EntriesCanonical)
    (hv : vector < idtEntries) (hown : ¬ (vector = 2 ∨ vector = 8)) (code : Word)
    (hroom : ¬ Room (kernelProcessor s ram) c.rsp (wordsPushed vector)) :
    ∃ fault, attempt (kernelProcessor s ram) c code vector = .error fault ∧
      (fault = 12 ∨ fault = 14) := by
  obtain ⟨fault, hcheck, hfault⟩ := checkPushes_of_not_room hroom
  refine ⟨fault, ?_, hfault⟩
  rw [attempt_kernel h hentries hv]
  unfold stackFor
  rw [if_neg hown, hcheck]
  rfl

/-- The two that are to have stacks of their own. -/
theorem attempt_own_stack (h : Prepared s c.memory) (hentries : s.EntriesCanonical)
    (htables : KernelTables ram) (hown : vector = 2 ∨ vector = 8) (code : Word) :
    attempt (kernelProcessor s ram) c code vector = .error 14 := by
  have hv : vector < idtEntries := by
    unfold idtEntries
    omega
  rw [attempt_kernel h hentries hv]
  unfold stackFor
  rw [if_pos hown, checkPushes_null htables (wordsPushed_pos vector)]
  rfl

/-- **A double fault shuts the processor down**: its stack is nowhere. -/
theorem double_fault_shuts_down (h : Prepared s c.memory) (hentries : s.EntriesCanonical)
    (htables : KernelTables ram) :
    takeException (kernelProcessor s ram) c errorCode (fuel + 1) 8 = .shutdown := by
  rw [takeException_error (attempt_own_stack h hentries htables (Or.inr rfl) _)]
  rfl

/-- What a failed push leads to. -/
theorem escalate_push {fault : ℕ} (hfault : fault = 12 ∨ fault = 14) (hv : vector ≠ 8) :
    escalate vector fault = some 8 ∨ escalate vector fault = some fault := by
  have hclass : faultClass vector ≠ .doubleFault := by
    unfold faultClass
    split <;> simp_all
  unfold escalate
  rcases hfault with rfl | rfl
  · cases hfirst : faultClass vector
    · exact Or.inr rfl
    · exact Or.inl rfl
    · exact Or.inl rfl
    · exact absurd hfirst hclass
  · cases hfirst : faultClass vector
    · exact Or.inr rfl
    · exact Or.inr rfl
    · exact Or.inl rfl
    · exact absurd hfirst hclass

/-- Without room for the six words of a page fault, nothing arrives any more. -/
theorem no_room_shuts_down (h : Prepared s c.memory) (hentries : s.EntriesCanonical)
    (htables : KernelTables ram) (hroom : ¬ Room (kernelProcessor s ram) c.rsp 6)
    (errorCode : ℕ → Word) (fuel : ℕ) :
    takeException (kernelProcessor s ram) c errorCode (fuel + 3) 14 = .shutdown ∧
      takeException (kernelProcessor s ram) c errorCode (fuel + 3) 12 = .shutdown := by
  have hpage (fuel : ℕ) :
      takeException (kernelProcessor s ram) c errorCode (fuel + 2) 14 = .shutdown := by
    obtain ⟨fault, hattempt, hfault⟩ := @attempt_of_not_room s ram c 14 h hentries (by decide)
      (by decide) (errorCode 14) hroom
    have hnext : escalate 14 fault = some 8 := by
      rcases hfault with rfl | rfl <;> rfl
    rw [takeException_error hattempt, hnext]
    exact double_fault_shuts_down h hentries htables
  refine ⟨hpage (fuel + 1), ?_⟩
  obtain ⟨fault, hattempt, hfault⟩ := @attempt_of_not_room s ram c 12 h hentries (by decide)
    (by decide) (errorCode 12) hroom
  rw [takeException_error hattempt]
  rcases hfault with rfl | rfl
  · exact double_fault_shuts_down h hentries htables
  · exact hpage fuel

/-- With room on the stack, an exception other than a double fault is delivered. -/
theorem outcome_of_room (h : Prepared s c.memory) (hentries : s.EntriesCanonical)
    (htables : KernelTables ram) (hv : vector < idtEntries) (h8 : vector ≠ 8)
    (hroom : Room (kernelProcessor s ram) c.rsp (wordsPushed (arriving vector))) :
    outcome (kernelProcessor s ram) c errorCode vector =
      .entered (arriving vector)
        (kernelDelivery s c (errorCode (arriving vector)) (arriving vector)) := by
  unfold outcome
  by_cases h2 : vector = 2
  · subst h2
    rw [takeException_error (attempt_own_stack h hentries htables (Or.inl rfl) _)]
    show takeException (kernelProcessor s ram) c errorCode 3 14 = _
    exact takeException_ok (attempt_of_room h hentries (by decide) (by decide) _ hroom)
  · have harriving : arriving vector = vector := if_neg h2
    rw [harriving] at hroom ⊢
    exact takeException_ok (attempt_of_room h hentries hv (not_or.mpr ⟨h2, h8⟩) _ hroom)

/-- Without room, no exception is. -/
theorem outcome_of_not_room (h : Prepared s c.memory) (hentries : s.EntriesCanonical)
    (htables : KernelTables ram) (hv : vector < idtEntries) (h8 : vector ≠ 8)
    (hroom : ¬ Room (kernelProcessor s ram) c.rsp (wordsPushed (arriving vector))) :
    outcome (kernelProcessor s ram) c errorCode vector = .shutdown := by
  unfold outcome
  by_cases h2 : vector = 2
  · subst h2
    rw [takeException_error (attempt_own_stack h hentries htables (Or.inl rfl) _)]
    show takeException (kernelProcessor s ram) c errorCode 3 14 = _
    exact (no_room_shuts_down h hentries htables hroom errorCode 0).1
  · have hown : ¬ (vector = 2 ∨ vector = 8) := not_or.mpr ⟨h2, h8⟩
    have harriving : arriving vector = vector := if_neg h2
    rw [harriving] at hroom
    have hsix : ¬ Room (kernelProcessor s ram) c.rsp 6 :=
      fun hsix => hroom (hsix.mono (wordsPushed_le vector))
    obtain ⟨fault, hattempt, hfault⟩ :=
      attempt_of_not_room h hentries hv hown (errorCode vector) hroom
    obtain ⟨hpage, hstack⟩ := no_room_shuts_down h hentries htables hsix errorCode 0
    rw [takeException_error hattempt]
    rcases escalate_push hfault h8 with hnext | hnext <;> rw [hnext]
    · exact double_fault_shuts_down h hentries htables
    · rcases hfault with rfl | rfl
      · exact hstack
      · exact hpage

/-- **The outcome of every exception**, for every state of the kernel: it is delivered to its own
entry if there is room for its block on the stack, except that an NMI comes as a page fault; a
double fault, and any exception without room, is the end. -/
theorem exception_outcome (h : Prepared s c.memory) (hentries : s.EntriesCanonical)
    (htables : KernelTables ram) (hv : vector < idtEntries) :
    outcome (kernelProcessor s ram) c errorCode vector =
      if vector ≠ 8 ∧ Room (kernelProcessor s ram) c.rsp (wordsPushed (arriving vector)) then
        .entered (arriving vector)
          (kernelDelivery s c (errorCode (arriving vector)) (arriving vector))
      else .shutdown := by
  by_cases h8 : vector = 8
  · subst h8
    rw [if_neg fun hand => hand.1 rfl]
    exact double_fault_shuts_down h hentries htables
  by_cases hroom : Room (kernelProcessor s ram) c.rsp (wordsPushed (arriving vector))
  · rw [if_pos ⟨h8, hroom⟩]
    exact outcome_of_room h hentries htables hv h8 hroom
  · rw [if_neg fun hand => hroom hand.2]
    exact outcome_of_not_room h hentries htables hv h8 hroom

/-! ## §4  From the setup to the handlers -/

/-- The tables of two memories are the same. -/
def SameTables (s : Symbols) (m m' : Memory) : Prop :=
  ∀ i < 4360, m' (s.data + BitVec.ofNat 64 i) = m (s.data + BitVec.ofNat 64 i)

theorem SameTables.read_eq {m m' : Memory} (h : SameTables s m m') {o n : ℕ} (hle : o + n ≤ 4360) :
    read m' (s.data + BitVec.ofNat 64 o) n = read m (s.data + BitVec.ofNat 64 o) n := by
  refine read_congr fun i hi => ?_
  rw [← add_offset]
  exact h (o + i) (by omega)

theorem SameTables.load_eq {m m' : Memory} (h : SameTables s m m') {o : ℕ} (hle : o + 8 ≤ 4360) :
    load m' (s.data + BitVec.ofNat 64 o) = load m (s.data + BitVec.ofNat 64 o) :=
  congrArg (fun bytes => BitVec.ofNat 64 (leNat bytes)) (h.read_eq hle)

theorem Prepared.congr {m m' : Memory} (h : Prepared s m) (hsame : SameTables s m m') :
    Prepared s m' where
  gates v hv := by
    rw [← h.gates v hv]
    unfold idtEntries at hv
    have hread := hsame.read_eq (show 146 + 16 * v + 16 ≤ 4360 by omega)
    rw [add_offset] at hread
    have hslot : read m' (slot (idtr s).base 16 v) 16 = read m (slot (idtr s).base 16 v) 16 := hread
    unfold gateAt
    rw [hslot]
  code := (hsame.load_eq (show 8 + 8 ≤ 4360 by decide)).trans h.code
  ist₁ := by
    have hload := hsame.load_eq (show 4256 + 36 + 8 ≤ 4360 by decide)
    rw [add_offset] at hload
    exact hload.trans h.ist₁
  ist₂ := by
    have hload := hsame.load_eq (show 4256 + 44 + 8 ≤ 4360 by decide)
    rw [add_offset] at hload
    exact hload.trans h.ist₂

/-- The entry at which an exception arrives. -/
def ExceptionEntry.arriving : ExceptionEntry → ExceptionEntry
  | .nmi => .pageFault
  | e => e

theorem vector_arriving (e : ExceptionEntry) : e.arriving.vector = Knos.Trap.arriving e.vector := by
  cases e <;> rfl

theorem vector_lt (e : ExceptionEntry) : e.vector < idtEntries := by
  cases e <;> decide

/-- **Exceptions reach their handlers.** From the data of `head.S`, whatever else is in memory:
`setup_idt` and `setup_tss64` succeed, and from then on, while nobody writes to the tables and
the stack is in the mapped part of memory, every exception other than a double fault gets to an
entry, and the entry to the handler that it is named after, with the vector and the error code
of that exception; for an NMI, to those of a page fault. -/
theorem exceptions_reach_handlers {m : Memory} (hdata : HeadData s m)
    (hentries : s.EntriesCanonical) (htables : KernelTables ram) :
    ∃ m', setupTss64 s (setupIdt s m) = some (m', (kernelProcessor s ram).tr) ∧
      ∀ (c : Cpu) (errorCode : ℕ → Word) (e : ExceptionEntry), SameTables s m' c.memory →
        physToVirtBase + 64 ≤ c.rsp.toNat → c.rsp.toNat ≤ physToVirtBase + 0xa00000 →
        e ≠ .doubleFault → ∃ d : Delivery,
          outcome (kernelProcessor s ram) c errorCode e.vector =
            .entered e.arriving.vector d ∧
          d.entry = s.exceptionEntry e.arriving ∧ d.errorCode = errorCode e.arriving.vector ∧
          ∀ returnAddress, dispatchException (receivedFrame c d returnAddress e.arriving) =
            .handled e.arriving.handler (errorDatum d e.arriving)
              (receivedFrame c d returnAddress e.arriving) := by
  obtain ⟨m', hrun, hprepared⟩ := prepared hdata
  refine ⟨m', hrun, fun c errorCode e hsame hlow hhigh hne => ?_⟩
  have hroom := (kernelStack_room htables hlow hhigh (s := s)).mono
    (wordsPushed_le e.arriving.vector)
  have h8 : e.vector ≠ 8 := by
    intro hv
    cases e <;> first | exact hne rfl | cases hv
  rw [vector_arriving] at hroom
  have houtcome := @outcome_of_room s ram c errorCode e.vector (hprepared.congr hsame) hentries
    htables (vector_lt e) h8 hroom
  rw [← vector_arriving] at houtcome
  refine ⟨_, houtcome, ?_, rfl, fun returnAddress => dispatch_of_entry c _ returnAddress e.arriving⟩
  show (gateFor s e.arriving.vector).offset = _
  unfold gateFor
  rw [entryOf_vector]

end Outcome

/-! ## §5  The kernel on its first stack -/

/-- An image with its data at 1152 KB. -/
def lowSymbols : Symbols where
  data := 0xffff800000120000
  exceptionEntry := fun e => 0xffff800000110000 + BitVec.ofNat 64 (64 * e.vector)
  ignoreInterrupt := 0xffff800000118000

theorem entriesCanonical_lowSymbols : lowSymbols.EntriesCanonical := by
  refine ⟨fun e => ?_, by decide⟩
  cases e <;> decide

/-- Memory with nothing but `GDT_Table` in it. -/
def gdtOnly (s : Symbols) : Memory :=
  write (fun _ => 0) s.gdtTable (headGdt.flatMap fun x => leBytes 8 x.toNat)

theorem headData_gdtOnly (s : Symbols) : HeadData s (gdtOnly s) where
  gdt := by
    have hlen : (headGdt.flatMap fun x => leBytes 8 x.toNat).length = 8 * headGdt.length := by
      simp [List.length_flatMap, Nat.mul_comm]
    apply holds_of_read
    rw [← hlen]
    exact read_write_self (by rw [hlen]; decide)
  tss := by
    have hapart : Apart (s.data + BitVec.ofNat 64 0) 136 (s.data + BitVec.ofNat 64 4256) 104 :=
      apart_parts (by decide) (by decide) (Or.inl (by decide))
    rw [BitVec.add_zero] at hapart
    refine (read_write_of_apart hapart).trans ?_
    unfold Spans.read
    rw [List.map_const', List.length_range]

/-- The state in which `Start_Kernel` begins. -/
def firstStack (m : Memory) : Cpu :=
  { r15State with rsp := 0xffff800000007E00, memory := m }

theorem firstStack_low : physToVirtBase + 64 ≤ (0xffff800000007E00 : Word).toNat := by decide

theorem firstStack_high : (0xffff800000007E00 : Word).toNat ≤ physToVirtBase + 0xa00000 := by decide

theorem exceptions_reach_handlers_firstStack :
    ∃ m', setupTss64 lowSymbols (setupIdt lowSymbols (gdtOnly lowSymbols)) =
        some (m', (kernelProcessor lowSymbols tablesOnly).tr) ∧
      ∃ d, outcome (kernelProcessor lowSymbols tablesOnly) (firstStack m') (fun _ => 2) 14 =
          .entered 14 d ∧ d.entry = 0xffff800000110380 := by
  obtain ⟨m', hrun, hall⟩ := exceptions_reach_handlers (headData_gdtOnly lowSymbols)
    entriesCanonical_lowSymbols kernelTables_tablesOnly
  obtain ⟨d, houtcome, hentry, -⟩ := hall (firstStack m') (fun _ => 2) .pageFault (fun _ _ => rfl)
    firstStack_low firstStack_high (by decide)
  exact ⟨m', hrun, d, houtcome, hentry⟩

/-- An NMI and a double fault. -/
theorem exception_outcome_firstStack : ∃ c : Cpu, c.rsp = 0xffff800000007E00 ∧
    outcome (kernelProcessor lowSymbols tablesOnly) c (fun _ => 2) 2 =
      .entered 14 (kernelDelivery lowSymbols c 2 14) ∧
    outcome (kernelProcessor lowSymbols tablesOnly) c (fun _ => 2) 8 = .shutdown := by
  obtain ⟨m', -, hprepared⟩ := prepared (headData_gdtOnly lowSymbols)
  have hroom : Room (kernelProcessor lowSymbols tablesOnly) (firstStack m').rsp 6 :=
    kernelStack_room kernelTables_tablesOnly firstStack_low firstStack_high
  have hnmi := @exception_outcome lowSymbols tablesOnly (firstStack m') (fun _ => 2) 2 hprepared
    entriesCanonical_lowSymbols kernelTables_tablesOnly (by decide)
  have hdouble := @exception_outcome lowSymbols tablesOnly (firstStack m') (fun _ => 2) 8 hprepared
    entriesCanonical_lowSymbols kernelTables_tablesOnly (by decide)
  rw [if_pos ⟨by decide, hroom⟩] at hnmi
  rw [if_neg fun hand => hand.1 rfl] at hdouble
  exact ⟨firstStack m', rfl, hnmi, hdouble⟩

end Knos.Trap
