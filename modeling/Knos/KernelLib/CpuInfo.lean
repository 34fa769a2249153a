import Knos.KernelLib.Coverage
import Knos.Lib.Loop

/-!
# `kernel/cpu.h`

What the kernel asks the processor about itself. `cpu_name` puts together the brand string out
of three leaves, and `cpu_physical_cores` walks over the levels of leaf 0Bh until one is
invalid. The loop has no other end: it returns exactly if there is an invalid level, and with a
topology that is listed in any order it counts the cores (`cores_of_topology`).
-/

namespace Knos.KernelLib

open Knos.Bytes Knos.Loop Knos.Spans Knos.Stack

/-! ## §1  `cpuid` -/

structure CpuidRegisters where
  eax : BitVec 32
  ebx : BitVec 32
  ecx : BitVec 32
  edx : BitVec 32

/-- What the processor answers: to a leaf, and to a leaf with a subleaf in ECX. -/
structure Answers where
  cpuid : BitVec 32 → CpuidRegisters
  cpuidCount : BitVec 32 → BitVec 32 → CpuidRegisters

/-! ## §2  `cpu_physical_cores` -/

/-- The variables of the loop. -/
structure Levels where
  subleaf : BitVec 32
  smtThreads : BitVec 32
  packageLogical : BitVec 32

inductive Unfinished where
  | fuel
deriving DecidableEq

/-- `(ecx >> 8) & 0xFF` of a subleaf -/
def Answers.levelType (cpu : Answers) (subleaf : BitVec 32) : BitVec 32 :=
  (cpu.cpuidCount 0x0B subleaf).ecx.sshiftRight 8 &&& 0xFF

def levelBody (cpu : Answers) (s : Levels) : Except Unfinished (Turn Levels Levels) :=
  let levelType := cpu.levelType s.subleaf
  let ebx := (cpu.cpuidCount 0x0B s.subleaf).ebx
  if levelType = 0 then .ok (.leave s)
  else
    .ok (.again {
      subleaf := s.subleaf + 1
      smtThreads := if levelType = 1 then ebx else s.smtThreads
      packageLogical := if levelType = 2 then ebx else s.packageLogical })

/-- The function with so many turns of the loop. -/
def cpuPhysicalCores (cpu : Answers) (fuel : ℕ) : Except Unfinished (BitVec 32) := do
  if (cpu.cpuid 0).eax.slt 0x0B then .ok (-1)
  else
    let s ← whileLoop (levelBody cpu) .fuel fuel ⟨0, 0, 0⟩
    let smtThreads := if s.smtThreads = 0 then 1 else s.smtThreads
    let packageLogical :=
      if s.packageLogical = 0 then (cpu.cpuid 1).ebx.sshiftRight 16 &&& 0xFF else s.packageLogical
    .ok (packageLogical / smtThreads)

section Loop

variable {cpu : Answers} {n fuel : ℕ}

/-- EBX of the last of the first `n` levels that has this type, and 0 if there is none. -/
def Answers.lastOf (cpu : Answers) (type : BitVec 32) : ℕ → BitVec 32
  | 0 => 0
  | n + 1 =>
      if cpu.levelType (BitVec.ofNat 32 n) = type then
        (cpu.cpuidCount 0x0B (BitVec.ofNat 32 n)).ebx
      else cpu.lastOf type n

/-- The variables before turn `n`. -/
def Answers.levels (cpu : Answers) (n : ℕ) : Levels :=
  ⟨BitVec.ofNat 32 n, cpu.lastOf 1 n, cpu.lastOf 2 n⟩

/-- **One turn** at a valid level goes on to the next. -/
theorem levelBody_levels (h : cpu.levelType (BitVec.ofNat 32 n) ≠ 0) :
    levelBody cpu (cpu.levels n) = .ok (.again (cpu.levels (n + 1))) := by
  have hnext : BitVec.ofNat 32 n + 1 = BitVec.ofNat 32 (n + 1) := by
    rw [BitVec.ofNat_add]
    rfl
  unfold levelBody
  refine (if_neg h).trans ?_
  simp only [Answers.levels, hnext, Answers.lastOf]
  rfl

theorem levelBody_end (h : cpu.levelType (BitVec.ofNat 32 n) = 0) :
    levelBody cpu (cpu.levels n) = .ok (.leave (cpu.levels n)) := by
  unfold levelBody
  exact if_pos h

/-- The loop ends at the first invalid level. -/
theorem whileLoop_levels {i : ℕ} (hin : i ≤ n) (hend : cpu.levelType (BitVec.ofNat 32 n) = 0)
    (hvalid : ∀ j, i ≤ j → j < n → cpu.levelType (BitVec.ofNat 32 j) ≠ 0) (hfuel : n - i < fuel) :
    whileLoop (levelBody cpu) .fuel fuel (cpu.levels i) = .ok (cpu.levels n) := by
  induction fuel generalizing i with
  | zero => omega
  | succ fuel ih =>
      unfold whileLoop
      rcases Nat.eq_or_lt_of_le hin with rfl | hlt
      · rw [levelBody_end hend]
      · rw [levelBody_levels (hvalid i (Nat.le_refl i) hlt)]
        apply ih hlt
        · intro j hij hjn
          exact hvalid j (Nat.le_of_succ_le hij) hjn
        · omega

/-- Without an invalid level it does not end. -/
theorem whileLoop_valid (hvalid : ∀ subleaf, cpu.levelType subleaf ≠ 0) (i : ℕ) :
    whileLoop (levelBody cpu) .fuel fuel (cpu.levels i) = .error .fuel := by
  induction fuel generalizing i with
  | zero => rfl
  | succ fuel ih =>
      unfold whileLoop
      rw [levelBody_levels (hvalid _)]
      exact ih (i + 1)

/-- Levels of a type that all say the same. -/
theorem lastOf_eq {type count : BitVec 32}
    (h : ∀ i < n, cpu.levelType (BitVec.ofNat 32 i) = type →
      (cpu.cpuidCount 0x0B (BitVec.ofNat 32 i)).ebx = count) :
    (∃ i < n, cpu.levelType (BitVec.ofNat 32 i) = type) ∧ cpu.lastOf type n = count ∨
      (∀ i < n, cpu.levelType (BitVec.ofNat 32 i) ≠ type) ∧ cpu.lastOf type n = 0 := by
  induction n with
  | zero => exact Or.inr ⟨nofun, rfl⟩
  | succ n ih =>
      by_cases hlast : cpu.levelType (BitVec.ofNat 32 n) = type
      · left
        refine ⟨⟨n, Nat.lt_succ_self n, hlast⟩, ?_⟩
        rw [Answers.lastOf, if_pos hlast]
        exact h n (Nat.lt_succ_self n) hlast
      · rw [Answers.lastOf, if_neg hlast]
        rcases ih fun i hi => h i (Nat.lt_succ_of_lt hi) with ⟨⟨i, hi, htype⟩, heq⟩ | ⟨hnone, heq⟩
        · exact Or.inl ⟨⟨i, Nat.lt_succ_of_lt hi, htype⟩, heq⟩
        · right
          refine ⟨fun i hi => ?_, heq⟩
          rcases Nat.lt_succ_iff_lt_or_eq.mp hi with hi | rfl
          · exact hnone i hi
          · exact hlast

end Loop

/-! ## §3  Counting cores -/

/-- A package of so many cores with so many threads each. Its levels are listed in any order,
and those of other types may be among them. -/
structure Topology (cpu : Answers) (n cores threads : ℕ) : Prop where
  leaf : (cpu.cpuid 0).eax.slt 0x0B = false
  last : cpu.levelType (BitVec.ofNat 32 n) = 0
  valid : ∀ i < n, cpu.levelType (BitVec.ofNat 32 i) ≠ 0
  smt : ∀ i < n, cpu.levelType (BitVec.ofNat 32 i) = 1 →
    (cpu.cpuidCount 0x0B (BitVec.ofNat 32 i)).ebx = BitVec.ofNat 32 threads
  core : ∀ i < n, cpu.levelType (BitVec.ofNat 32 i) = 2 →
    (cpu.cpuidCount 0x0B (BitVec.ofNat 32 i)).ebx = BitVec.ofNat 32 (cores * threads)
  /-- Without a level for them, a core has one thread. -/
  single : (∀ i < n, cpu.levelType (BitVec.ofNat 32 i) ≠ 1) → threads = 1
  /-- Without a level of cores, leaf 1 tells the number of threads. -/
  leafOne : (∀ i < n, cpu.levelType (BitVec.ofNat 32 i) ≠ 2) →
    (cpu.cpuid 1).ebx.sshiftRight 16 &&& 0xFF = BitVec.ofNat 32 (cores * threads)
  cores_pos : 0 < cores
  threads_pos : 0 < threads
  fits : cores * threads < 2 ^ 32

/-- **The cores are counted**, whatever the order of the levels. -/
theorem cores_of_topology {cpu : Answers} {n cores threads fuel : ℕ}
    (h : Topology cpu n cores threads) (hfuel : n < fuel) :
    cpuPhysicalCores cpu fuel = .ok (BitVec.ofNat 32 cores) := by
  have hpos : 0 < cores * threads := Nat.mul_pos h.cores_pos h.threads_pos
  have hthreads : threads < 2 ^ 32 :=
    Nat.lt_of_le_of_lt (Nat.le_mul_of_pos_left threads h.cores_pos) h.fits
  have hcores : cores < 2 ^ 32 :=
    Nat.lt_of_le_of_lt (Nat.le_mul_of_pos_right cores h.threads_pos) h.fits
  have hloop : whileLoop (levelBody cpu) .fuel fuel ⟨0, 0, 0⟩ = .ok (cpu.levels n) :=
    @whileLoop_levels cpu n fuel 0 (Nat.zero_le n) h.last (fun j _ hj => h.valid j hj) (by omega)
  have hnonzero : ∀ m, 0 < m → m < 2 ^ 32 → BitVec.ofNat 32 m ≠ 0 := by
    intro m hm hlt heq
    have hnat := congrArg BitVec.toNat heq
    rw [BitVec.toNat_ofNat, Nat.mod_eq_of_lt hlt] at hnat
    exact absurd hnat (Nat.ne_of_gt hm)
  -- what the function takes for the threads of a core
  have hsmt : (if cpu.lastOf 1 n = 0 then 1 else cpu.lastOf 1 n) = BitVec.ofNat 32 threads := by
    rcases lastOf_eq h.smt with ⟨-, heq⟩ | ⟨hnone, heq⟩
    · rw [heq, if_neg (hnonzero _ h.threads_pos hthreads)]
    · rw [heq, if_pos rfl, h.single hnone]
      rfl
  -- and for those of the package
  have hpackage : (if cpu.lastOf 2 n = 0 then (cpu.cpuid 1).ebx.sshiftRight 16 &&& 0xFF
      else cpu.lastOf 2 n) = BitVec.ofNat 32 (cores * threads) := by
    rcases lastOf_eq h.core with ⟨-, heq⟩ | ⟨hnone, heq⟩
    · rw [heq, if_neg (hnonzero _ hpos h.fits)]
    · rw [heq, if_pos rfl, h.leafOne hnone]
  have hdiv : BitVec.ofNat 32 (cores * threads) / BitVec.ofNat 32 threads =
      BitVec.ofNat 32 cores := by
    apply BitVec.eq_of_toNat_eq
    rw [BitVec.toNat_udiv, BitVec.toNat_ofNat, BitVec.toNat_ofNat, BitVec.toNat_ofNat,
      Nat.mod_eq_of_lt h.fits, Nat.mod_eq_of_lt hthreads, Nat.mod_eq_of_lt hcores,
      Nat.mul_div_cancel cores h.threads_pos]
  unfold cpuPhysicalCores
  rw [h.leaf]
  simp only [Bool.false_eq_true, if_false, hloop, Loop.ok_bind, Answers.levels, hsmt, hpackage, hdiv]

/-- **The function returns** exactly if the leaf is missing or one of its levels is invalid. -/
theorem cores_returned_iff (cpu : Answers) : (∃ fuel r, cpuPhysicalCores cpu fuel = .ok r) ↔
    (cpu.cpuid 0).eax.slt 0x0B = true ∨ ∃ subleaf, cpu.levelType subleaf = 0 := by
  constructor
  · rintro ⟨fuel, r, hrun⟩
    by_contra hnot
    obtain ⟨hleaf, hvalid⟩ := not_or.mp hnot
    have hloop : whileLoop (levelBody cpu) .fuel fuel ⟨0, 0, 0⟩ = .error .fuel :=
      whileLoop_valid (not_exists.mp hvalid) 0
    unfold cpuPhysicalCores at hrun
    rw [if_neg hleaf, hloop] at hrun
    cases hrun
  · rintro (hleaf | ⟨subleaf, hend⟩)
    · refine ⟨0, -1, ?_⟩
      unfold cpuPhysicalCores
      rw [if_pos hleaf]
    · -- the first invalid level
      have hexists : ∃ n, cpu.levelType (BitVec.ofNat 32 n) = 0 :=
        ⟨subleaf.toNat, by rwa [BitVec.ofNat_toNat, BitVec.setWidth_eq]⟩
      have hloop : whileLoop (levelBody cpu) .fuel (Nat.find hexists + 1) ⟨0, 0, 0⟩ =
          .ok (cpu.levels (Nat.find hexists)) :=
        @whileLoop_levels cpu (Nat.find hexists) _ 0 (Nat.zero_le _) (Nat.find_spec hexists)
          (fun j _ hj => Nat.find_min hexists hj) (by omega)
      by_cases hleaf : (cpu.cpuid 0).eax.slt 0x0B = true
      · refine ⟨0, -1, ?_⟩
        unfold cpuPhysicalCores
        rw [if_pos hleaf]
      · refine ⟨Nat.find hexists + 1, ?_⟩
        unfold cpuPhysicalCores
        rw [if_neg hleaf, hloop]
        exact ⟨_, rfl⟩

/-- Four cores with two threads each: `Virtual CPU with four cores at 2 GHz, 8 threads`. -/
def quadCore : Answers where
  cpuid := fun leaf =>
    if leaf = 0 then ⟨0x16, 0, 0, 0⟩
    else if leaf = 0x80000002 then ⟨0x74726956, 0x206c6175, 0x20555043, 0x68746977⟩
    else if leaf = 0x80000003 then ⟨0x756f6620, 0x6f632072, 0x20736572, 0x32207461⟩
    else if leaf = 0x80000004 then ⟨0x7a484720, 0x2038202c, 0x65726874, 0x00736461⟩
    else ⟨0, 0, 0, 0⟩
  cpuidCount := fun _ subleaf =>
    if subleaf = 0 then ⟨1, 2, 0x100, 0⟩
    else if subleaf = 1 then ⟨3, 8, 0x201, 0⟩
    else ⟨0, 0, subleaf &&& 0xFF, 0⟩

theorem cores_of_topology_quadCore : cpuPhysicalCores quadCore 3 = .ok (BitVec.ofNat 32 4) := by
  have hsmt : quadCore.levelType (BitVec.ofNat 32 0) = 1 := by decide
  have hcore : quadCore.levelType (BitVec.ofNat 32 1) = 2 := by decide
  refine @cores_of_topology quadCore 2 4 2 3 ?_ (by decide)
  refine ⟨by decide, by decide, by decide, by decide, by decide, fun hnone => ?_, fun hnone => ?_,
    by decide, by decide, by decide⟩
  · exact absurd hsmt (hnone 0 (by decide))
  · exact absurd hcore (hnone 1 (by decide))

/-! ## §4  `cpu_name` -/

/-- The outputs as they are stored in `cpu_info`. -/
def CpuidRegisters.bytes (r : CpuidRegisters) : List Byte :=
  leBytes 4 r.eax.toNat ++ leBytes 4 r.ebx.toNat ++ leBytes 4 r.ecx.toNat ++ leBytes 4 r.edx.toNat

/-- `cpuid(leaf, &cpu_info[0], …); memcpy(dest, cpu_info, sizeof(cpu_info))` -/
def copyLeaf (cpu : Answers) (dest info : Word) (leaf : BitVec 32) (c : Cpu) : Cpu :=
  let c := { c with memory := write c.memory info (cpu.cpuid leaf).bytes }
  (memcpy dest info 16 c).2

/-- `cpu_name`, with `cpu_info` at the address `info`. -/
def cpuName (cpu : Answers) (name info : Word) (c : Cpu) : Cpu :=
  let c := copyLeaf cpu name info 0x80000002 c
  let c := copyLeaf cpu (name + 16) info 0x80000003 c
  let c := copyLeaf cpu (name + 32) info 0x80000004 c
  { c with memory := write c.memory (name + 48) [0] }

/-- What the first `k` leaves of the name say. -/
def Answers.brand (cpu : Answers) (k : ℕ) : List Byte :=
  (List.range k).flatMap fun i => (cpu.cpuid (0x80000002 + BitVec.ofNat 32 i)).bytes

/-- `k` leaves of the name are copied, and nothing else has changed. -/
structure Naming (cpu : Answers) (m : Memory) (name info : Word) (k : ℕ) (c : Cpu) : Prop where
  text : read c.memory name (16 * k) = cpu.brand k
  frame : ∀ x, (∀ i < 49, x ≠ name + BitVec.ofNat 64 i) →
    (∀ i < 16, x ≠ info + BitVec.ofNat 64 i) → c.memory x = m x

section Name

variable {cpu : Answers} {m : Memory} {name info dest : Word} {k : ℕ} {c : Cpu} {leaf : BitVec 32}

theorem length_bytes (r : CpuidRegisters) : r.bytes.length = 16 := by
  simp [CpuidRegisters.bytes, length_leBytes]

theorem memory_copyLeaf (hapart : Apart dest 16 info 16) :
    (copyLeaf cpu dest info leaf c).memory =
      write (write c.memory info (cpu.cpuid leaf).bytes) dest (cpu.cpuid leaf).bytes := by
  have hlen := length_bytes (cpu.cpuid leaf)
  have hinfo := @read_write_self 64 Byte c.memory info (cpu.cpuid leaf).bytes
    (by rw [hlen]; decide)
  rw [hlen] at hinfo
  have hcopy := (@copying_memcpy dest info 16
    { c with memory := write c.memory info (cpu.cpuid leaf).bytes } hapart).memory_eq
  refine hcopy.trans ?_
  have hsixteen : (16 : Word).toNat = 16 := rfl
  rw [hsixteen]
  simp only [hinfo]

/-- **One leaf** goes behind those that are copied. -/
theorem Naming.copyLeaf (h : Naming cpu m name info k c) (hk : k < 3)
    (hapart : Apart name 49 info 16) :
    Naming cpu m name info (k + 1) (copyLeaf cpu (name + BitVec.ofNat 64 (16 * k)) info
      (0x80000002 + BitVec.ofNat 32 k) c) := by
  have hdest : Apart (name + BitVec.ofNat 64 (16 * k)) 16 info 16 := by
    intro i hi j hj
    rw [← add_offset]
    exact hapart (16 * k + i) (by omega) j hj
  have hmemory := @memory_copyLeaf cpu info _ c (0x80000002 + BitVec.ofNat 32 k) hdest
  have hlen := length_bytes (cpu.cpuid (0x80000002 + BitVec.ofNat 32 k))
  constructor
  · -- the new leaf is read where it was written, the others as before
    rw [Nat.mul_succ, read_add, hmemory]
    have hnew := @read_write_self 64 Byte
      (write c.memory info (cpu.cpuid (0x80000002 + BitVec.ofNat 32 k)).bytes)
      (name + BitVec.ofNat 64 (16 * k)) (cpu.cpuid (0x80000002 + BitVec.ofNat 32 k)).bytes
      (by rw [hlen]; decide)
    rw [hlen] at hnew
    rw [hnew, read_write_of_apart, read_write_of_apart, h.text]
    · simp [Answers.brand, List.range_succ]
    · rw [hlen]
      intro i hi j hj heq
      exact hapart j (by omega) i hi heq.symm
    · rw [hlen]
      have hparts := @apart_parts 64 name 16 (16 * k) (16 * k) 0 (by omega) (by omega)
        (Or.inr (by omega))
      simpa using hparts
  · intro x hname hinfo
    rw [hmemory, write_frame, write_frame]
    · exact h.frame x hname hinfo
    · rwa [hlen]
    · rw [hlen]
      intro i hi
      rw [← add_offset]
      exact hname (16 * k + i) (by omega)

/-- **The name** is the text of the three leaves with a NUL behind it, and no byte beyond the
49 and `cpu_info` is written. -/
theorem cpu_name_text (cpu : Answers) (c : Cpu) (hapart : Apart name 49 info 16) :
    read (cpuName cpu name info c).memory name 49 = cpu.brand 3 ++ [0] ∧
      ∀ x, (∀ i < 49, x ≠ name + BitVec.ofNat 64 i) →
        (∀ i < 16, x ≠ info + BitVec.ofNat 64 i) →
          (cpuName cpu name info c).memory x = c.memory x := by
  have hstart : Naming cpu c.memory name info 0 c := ⟨rfl, fun x _ _ => rfl⟩
  have hthree := ((hstart.copyLeaf (by decide) hapart).copyLeaf (by decide) hapart).copyLeaf
    (by decide) hapart
  have hname : name + BitVec.ofNat 64 (16 * 0) = name := by simp
  rw [hname] at hthree
  have hmemory : (cpuName cpu name info c).memory =
      write (KernelLib.copyLeaf cpu (name + 32) info 0x80000004
        (KernelLib.copyLeaf cpu (name + 16) info 0x80000003
          (KernelLib.copyLeaf cpu name info 0x80000002 c))).memory (name + 48) [0] := rfl
  constructor
  · have hend : read (cpuName cpu name info c).memory (name + BitVec.ofNat 64 48) 1 = [0] := by
      rw [hmemory]
      exact @read_write_self 64 Byte _ (name + 48) [0] (by decide)
    have htext : read (cpuName cpu name info c).memory name 48 = cpu.brand 3 := by
      rw [hmemory, read_write_of_apart]
      · exact hthree.text
      · have hparts := @apart_parts 64 name 1 48 48 0 (by decide) (by decide) (Or.inr (by decide))
        simpa using hparts
    rw [show 49 = 48 + 1 from rfl, read_add, htext, hend]
  · intro x hx hinfo
    rw [hmemory, write_frame]
    · exact hthree.frame x hx hinfo
    · intro i hi
      obtain rfl : i = 0 := Nat.lt_one_iff.mp hi
      have h48 := hx 48 (by decide)
      simpa using h48

theorem cpu_name_text_quadCore :
    read (cpuName quadCore 0x7000 0x8000 countingState).memory 0x7000 49 = quadCore.brand 3 ++ [0] ∧
      ∀ x, (∀ i < 49, x ≠ (0x7000 : Word) + BitVec.ofNat 64 i) →
        (∀ i < 16, x ≠ (0x8000 : Word) + BitVec.ofNat 64 i) →
          (cpuName quadCore 0x7000 0x8000 countingState).memory x = countingState.memory x :=
  cpu_name_text quadCore countingState (by unfold Apart; decide)

end Name

end Knos.KernelLib
