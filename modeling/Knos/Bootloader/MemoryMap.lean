import Knos.Bootloader.HandOver

/-!
# The memory map on its way to the kernel

The map grows upwards from `MemoryStructBufferAddr`, and the block with the graphics modes
lies 512 bytes behind that. Nothing that is written after the map reaches below the block,
so a map that ends before it arrives as it is (`Unchanged.table_eq`); the 26th entry of a
longer one lies across its beginning.
-/

namespace Knos.Bootloader

open Knos.Bytes Knos.Loop Knos.Memory

namespace HandOver

/-! ## §1  Entries as bytes -/

section Entries

variable {ram : Store Byte} {a : ℕ}

theorem dwordAt_of_peek {x : BitVec 32} (h : peek ram a 4 = leBytes 4 x.toNat) :
    dwordAt ram a = x := by
  have hlt : x.toNat < 256 ^ 4 := x.isLt
  unfold dwordAt
  rw [h, leNat_leBytes, Nat.mod_eq_of_lt hlt, BitVec.ofNat_toNat, BitVec.setWidth_eq]

/-- The lowest byte comes first. -/
theorem dwordAt_mod (ram : Store Byte) (a : ℕ) : (dwordAt ram a).toNat % 256 = (ram a).toNat := by
  have hbyte : (ram a).toNat < 256 := (ram a).isLt
  unfold dwordAt
  rw [peek_succ, BitVec.toNat_ofNat]
  show ((ram a).toNat + 256 * leNat (peek ram (a + 1) 3)) % 2 ^ 32 % 256 = (ram a).toNat
  omega

@[simp] theorem length_entryBytes (entry : E820Entry) : (entryBytes entry).length = 20 := rfl

theorem entryAt_of_peek {entry : E820Entry} (h : peek ram a 20 = entryBytes entry) :
    entryAt ram a = entry := by
  have hfield : ∀ k, k + 4 ≤ 20 → peek ram (a + k) 4 = ((entryBytes entry).drop k).take 4 := by
    intro k hk
    rw [← h, drop_peek (by omega), take_peek (by omega)]
  have h₀ : dwordAt ram a = entry.baseAddrLow := dwordAt_of_peek (hfield 0 (by decide))
  have h₁ : dwordAt ram (a + 4) = entry.baseAddrHigh := dwordAt_of_peek (hfield 4 (by decide))
  have h₂ : dwordAt ram (a + 8) = entry.lengthLow := dwordAt_of_peek (hfield 8 (by decide))
  have h₃ : dwordAt ram (a + 12) = entry.lengthHigh := dwordAt_of_peek (hfield 12 (by decide))
  have h₄ : dwordAt ram (a + 16) = entry.type := dwordAt_of_peek (hfield 16 (by decide))
  unfold entryAt
  rw [h₀, h₁, h₂, h₃, h₄]

end Entries

/-! ## §2  The loader, step by step -/

section Steps

variable {firmware : Firmware} {entries : List E820Entry} {ram ram' : Store Byte}

theorem getMemStruct_eq {di esi : ℕ} (hne : entries ≠ []) (hdi : di + 20 * entries.length < 65536)
    (hesi : esi + entries.length < 2 ^ 32) :
    getMemStruct entries di esi ram =
      .ok (esi + entries.length, poke ram di (entries.map entryBytes).flatten) := by
  induction entries generalizing di esi ram with
  | nil => exact absurd rfl hne
  | cons entry entries ih =>
      rw [List.length_cons] at hdi hesi
      have hdi' : (di + 20) % 65536 = di + 20 := Nat.mod_eq_of_lt (by omega)
      have hesi' : (esi + 1) % 2 ^ 32 = esi + 1 := Nat.mod_eq_of_lt (by omega)
      rw [getMemStruct, hdi', hesi', List.map_cons, List.flatten_cons, poke_append, length_entryBytes]
      cases entries with
      | nil =>
          rw [List.map_nil, List.flatten_nil, poke_nil]
          rfl
      | cons entry' entries =>
          have hrest := @ih (poke ram di (entryBytes entry)) (di + 20) (esi + 1) (List.cons_ne_nil _ _)
            (by omega) (by omega)
          rw [List.isEmpty_cons, if_neg Bool.false_ne_true, hrest, @List.length_cons _ entry,
            Nat.add_assoc esi, Nat.add_comm 1]

/-- Memory with the map and the number of its entries. -/
def collected (entries : List E820Entry) (ram : Store Byte) : Store Byte :=
  poke (poke ram (memoryStructBufferAddr + 4) (entries.map entryBytes).flatten)
    memoryStructBufferAddr (leBytes 4 entries.length)

theorem collectMemStruct_eq (hne : entries ≠ []) (hmax : entries.length ≤ e820MaxEntries) :
    collectMemStruct entries ram = .ok (collected entries ram) := by
  have hlen : entries.length ≤ 64 := hmax
  have hdi : memoryStructBufferAddr + 4 + 20 * entries.length < 65536 := by
    unfold memoryStructBufferAddr
    omega
  unfold collectMemStruct
  rw [getMemStruct_eq hne hdi (by omega), ok_bind, Nat.zero_add]
  rfl

/-- The signature is overwritten by the block. -/
theorem getVbeInfo_eq_ok (h : getVbeInfo firmware ram = .ok ram') :
    ∃ block, firmware.vbeInfo = some block ∧ ram' = poke ram vbeInfoBlock block.val := by
  unfold getVbeInfo at h
  cases hblock : firmware.vbeInfo with
  | none =>
      rw [hblock] at h
      cases h
  | some block =>
      rw [hblock] at h
      refine ⟨block, rfl, ?_⟩
      rw [← Except.ok.inj h]
      funext a
      by_cases hin : vbeInfoBlock ≤ a ∧ a < vbeInfoBlock + block.val.length
      · obtain ⟨x, hx, heq⟩ := poke_eq (poke ram vbeInfoBlock vbe2) hin.1 hin.2
        obtain ⟨y, hy, heq'⟩ := poke_eq ram hin.1 hin.2
        rw [heq, heq']
        exact Option.some.inj (hx.symm.trans hy)
      · have hlen : vbe2.length ≤ block.val.length := by
          rw [block.property]
          decide
        rw [poke_outside _ (by omega), poke_outside _ (by omega), poke_outside _ (by omega)]

/-- The loop writes to its own two blocks. -/
theorem getModeListLoop_frame (fuel : ℕ) {es si candidateMode : ℕ}
    (h : getModeListLoop firmware es fuel si ram = .ok (candidateMode, ram')) {a : ℕ}
    (ha : a < vbeModeInfoBlock ∨ vbeModeSelectedInfo + 512 ≤ a) : ram' a = ram a := by
  have hinfo (block : Block 256) :
      a < vbeModeInfoBlock ∨ vbeModeInfoBlock + block.val.length ≤ a := by
    rw [block.property]
    exact ha.imp_right fun h => Nat.le_trans (by decide) h
  have hselected (ram : Store Byte) : a < vbeModeSelectedInfo ∨
      vbeModeSelectedInfo + (peek ram vbeModeInfoBlock 512).length ≤ a := by
    rw [length_peek]
    exact ha.imp_left fun h => Nat.lt_trans h (by decide)
  induction fuel generalizing si ram with
  | zero => cases h
  | succ fuel ih =>
      rw [getModeListLoop] at h
      dsimp only at h
      split at h
      · cases h
        rfl
      · split at h
        · cases h
        · split at h
          · cases h
            rw [poke_outside _ (hselected _), poke_outside _ (hinfo _)]
          · rw [ih h, poke_outside _ (hinfo _)]

theorem foldl_poke_outside (dwords : List (ℕ × ℕ)) {a : ℕ} (h : ∀ p ∈ dwords, a < p.1) :
    dwords.foldl (fun ram p => poke ram p.1 (leBytes 4 p.2)) ram a = ram a := by
  induction dwords generalizing ram with
  | nil => rfl
  | cons p dwords ih =>
      rw [List.foldl_cons, ih fun q hq => h q (List.mem_cons_of_mem _ hq)]
      exact poke_outside ram (Or.inl (h p List.mem_cons_self))

theorem goToTmpProtect_frame (h : goToTmpProtect firmware ram = .ok ram') {a : ℕ}
    (ha : a < 0x90000) : ram' a = ram a := by
  unfold goToTmpProtect at h
  split at h
  · cases h
    have hlow : ∀ p ∈ pageTables, 0x90000 ≤ p.1 := by decide
    exact foldl_poke_outside pageTables fun p hp => Nat.lt_of_lt_of_le ha (hlow p hp)
  · cases h

/-- **What the loader leaves** below the block of the mode that it looked at last: the map,
with the block of the graphics modes over it. -/
theorem handOver_ram {fuel : ℕ} (hne : entries ≠ []) (hmax : entries.length ≤ e820MaxEntries)
    (h : handOver entries firmware fuel ram = .ok ram') :
    ∃ block, firmware.vbeInfo = some block ∧ ∀ a, a < vbeModeInfoBlock →
      ram' a = poke (collected entries ram) vbeInfoBlock block.val a := by
  unfold handOver at h
  rw [collectMemStruct_eq hne hmax, ok_bind, bind_eq_ok] at h
  obtain ⟨ram₁, hvbe, h⟩ := h
  obtain ⟨block, hblock, rfl⟩ := getVbeInfo_eq_ok hvbe
  rw [bind_eq_ok] at h
  obtain ⟨⟨candidateMode, ram₂⟩, hloop, h⟩ := h
  rw [bind_eq_ok] at h
  obtain ⟨-, -, hpages⟩ := h
  refine ⟨block, hblock, fun a ha => ?_⟩
  rw [goToTmpProtect_frame hpages (Nat.lt_trans ha (by decide)), getModeListLoop_frame fuel hloop (Or.inl ha)]

end Steps

/-! ## §3  The map that arrives -/

section Arrives

variable {entries : List E820Entry} {ram ram' : Store Byte}

/-- Where the map ends. -/
def mapEnd (entries : List E820Entry) : ℕ := memoryStructBufferAddr + 4 + 20 * entries.length

/-- Nothing has changed the map that was collected. -/
def Unchanged (entries : List E820Entry) (ram ram' : Store Byte) : Prop :=
  ∀ a, memoryStructBufferAddr ≤ a → a < mapEnd entries → ram' a = collected entries ram a

/-- The kernel looks where the loader has written. -/
theorem virtToPhys_kernelBufferAddr : virtToPhys kernelBufferAddr = memoryStructBufferAddr := by
  decide

theorem Unchanged.count_eq (h : Unchanged entries ram ram') (hmax : entries.length ≤ e820MaxEntries) :
    (memoryStructBuffer ram').count = entries.length := by
  have hlen : entries.length ≤ 64 := hmax
  have hsmall : (BitVec.ofNat 32 entries.length).toNat = entries.length := by
    rw [BitVec.toNat_ofNat]
    exact Nat.mod_eq_of_lt (by omega)
  have hcount : dwordAt ram' memoryStructBufferAddr = BitVec.ofNat 32 entries.length := by
    refine dwordAt_of_peek ?_
    rw [peek_congr fun a ha hlt => h a ha (Nat.lt_of_lt_of_le hlt (Nat.le_add_right _ _)), hsmall]
    exact peek_poke_self _ (leBytes 4 entries.length)
  unfold E820Buffer.count memoryStructBuffer
  rw [virtToPhys_kernelBufferAddr, hcount, hsmall, if_neg (Nat.not_lt.mpr hmax)]

theorem Unchanged.entry_eq (h : Unchanged entries ram ram') {i : ℕ} (hi : i < entries.length) :
    entryAt ram' (memoryStructBufferAddr + 4 + 20 * i) = entries[i] := by
  have hin : memoryStructBufferAddr + 4 + 20 * i + 20 ≤ mapEnd entries := by
    unfold mapEnd
    omega
  have hlow : memoryStructBufferAddr ≤ memoryStructBufferAddr + 4 + 20 * i := by omega
  refine entryAt_of_peek ?_
  rw [peek_congr fun a ha hlt => h a (Nat.le_trans hlow ha) (Nat.lt_of_lt_of_le hlt hin)]
  -- the number of entries lies below the entries
  unfold collected
  rw [peek_poke_of_disjoint (Or.inr (by rw [length_leBytes]; omega)),
    peek_poke_flatten ram _ (fun b hb => ?_), List.getElem?_map, List.getElem?_eq_getElem hi]
  · rfl
  · obtain ⟨entry, -, rfl⟩ := List.mem_map.mp hb
    exact length_entryBytes entry

/-- The kernel copies the map that was collected. -/
theorem Unchanged.table_eq (h : Unchanged entries ram ram') (hmax : entries.length ≤ e820MaxEntries) :
    (memoryStructBuffer ram').table = entries := by
  unfold E820Buffer.table
  rw [h.count_eq hmax]
  apply List.ext_getElem
  · rw [List.length_map, List.length_range]
  · intro i hi hi'
    rw [List.getElem_map, List.getElem_range]
    show entryAt ram' (virtToPhys kernelBufferAddr + 4 + 20 * i) = entries[i]
    rw [virtToPhys_kernelBufferAddr]
    exact h.entry_eq hi'

/-- What the two programs have agreed on: whatever the firmware answers about graphics, and
whatever was in memory before, the kernel copies the map. -/
def KeepsMap (entries : List E820Entry) : Prop :=
  ∀ (firmware : Firmware) (fuel : ℕ) (ram ram' : Store Byte),
    handOver entries firmware fuel ram = .ok ram' →
      (copyEntries (memoryStructBuffer ram')).gmm.e820Entry = entries

/-- Twenty-five entries end below the block with the graphics modes. -/
theorem keepsMap_of_short (hne : entries ≠ []) (hshort : entries.length ≤ 25) : KeepsMap entries := by
  intro firmware fuel ram ram' hrun
  have hmax : entries.length ≤ e820MaxEntries := Nat.le_trans hshort (by decide)
  obtain ⟨block, -, hram⟩ := handOver_ram hne hmax hrun
  refine @Unchanged.table_eq entries ram ram' (fun a _ hlt => ?_) hmax
  have hbelow : a < vbeInfoBlock := by
    refine Nat.lt_of_lt_of_le hlt ?_
    show 0x7E00 + 4 + 20 * entries.length ≤ 0x8000
    omega
  rw [hram a (Nat.lt_trans hbelow (by decide)), poke_outside _ (Or.inl hbelow)]

end Arrives

/-! ## §4  Firmware that lets the loader through -/

section Answering

variable {entries : List E820Entry}

/-- The block for VBE 3.0, with the mode list inside it, and the segment of the name of the
vendor in bytes 8 and 9. -/
def infoBlock (segment : Byte) : List Byte :=
  [0x56, 0x45, 0x53, 0x41, 0x00, 0x03, 0x00, 0x00, segment, 0xC0, 0x01, 0x00, 0x00, 0x00,
    0x22, 0x80, 0x00, 0x00, 0x00, 0x01] ++ List.replicate 14 0 ++
    [0x18, 0x01, 0xFF, 0xFF] ++ List.replicate 474 0

theorem length_infoBlock (segment : Byte) : (infoBlock segment).length = 512 := by
  unfold infoBlock
  rw [List.length_append, List.length_append, List.length_append, List.length_replicate,
    List.length_replicate]
  rfl

/-- 1024 by 768 pixels of 32 bits. -/
def modeBlock : List Byte :=
  List.replicate 18 0 ++ [0x00, 0x04, 0x00, 0x03, 0x08, 0x10, 0x01, 0x20] ++ List.replicate 230 0

theorem length_modeBlock : modeBlock.length = 256 := by
  unfold modeBlock
  rw [List.length_append, List.length_append, List.length_replicate, List.length_replicate]
  rfl

/-- Firmware with one mode, 118h. -/
def answering (segment : Byte) : Firmware where
  vbeInfo := some ⟨infoBlock segment, length_infoBlock segment⟩
  modeInfo := fun mode => if mode = 0x118 then some ⟨modeBlock, length_modeBlock⟩ else none
  setMode := fun mode => decide (mode = 0x4118)
  longMode := true

theorem wordAt_poke (ram : Store Byte) (base i : ℕ) {data : List Byte} {x y : Byte}
    (hx : data[i]? = some x) (hy : data[i + 1]? = some y) :
    wordAt (poke ram base data) (base + i) = x.toNat + 256 * y.toNat := by
  unfold wordAt
  rw [poke_inside ram hx, Nat.add_assoc, poke_inside ram hy]

/-- The loader takes the mode. -/
theorem getModeListLoop_answering (segment : Byte) {ram : Store Byte} {si : ℕ}
    (hlist : wordAt ram (0 * 16 + si) = 0x118) :
    ∃ ram', getModeListLoop (answering segment) 0 1 si ram = .ok (0x118, ram') := by
  let mode := poke ram vbeModeInfoBlock modeBlock
  have hinfo : (answering segment).modeInfo 0x118 = some ⟨modeBlock, length_modeBlock⟩ := by
    show (if 0x118 = 0x118 then some (⟨modeBlock, length_modeBlock⟩ : Block 256) else none) = _
    rw [if_pos rfl]
  have hmode : wordAt mode (vbeModeInfoBlock + 0x12) = defaultXRes ∧
      wordAt mode (vbeModeInfoBlock + 0x14) = defaultYRes ∧
      (mode (vbeModeInfoBlock + 0x19)).toNat = defaultBpp := by
    refine ⟨@wordAt_poke _ vbeModeInfoBlock 0x12 modeBlock 0x00 0x04 rfl rfl,
      @wordAt_poke _ vbeModeInfoBlock 0x14 modeBlock 0x00 0x03 rfl rfl, ?_⟩
    rw [show mode (vbeModeInfoBlock + 0x19) = 0x20 from poke_inside ram rfl]
    rfl
  have hmore : ¬ 0x118 = 0xFFFF := by decide
  refine ⟨poke mode vbeModeSelectedInfo (peek mode vbeModeInfoBlock 512), ?_⟩
  rw [getModeListLoop]
  simp only [hlist, if_neg hmore, hinfo]
  exact if_pos hmode

theorem handOver_answering (hne : entries ≠ []) (hmax : entries.length ≤ e820MaxEntries)
    (segment : Byte) (ram : Store Byte) :
    ∃ ram', handOver entries (answering segment) 1 ram = .ok ram' := by
  let vbe := poke (poke (collected entries ram) vbeInfoBlock vbe2) vbeInfoBlock (infoBlock segment)
  have hvbe : getVbeInfo (answering segment) (collected entries ram) = .ok vbe := rfl
  have hoff : wordAt vbe vbeModeListOff = 0x8022 :=
    @wordAt_poke _ vbeInfoBlock 14 (infoBlock segment) 0x22 0x80 rfl rfl
  have hseg : wordAt vbe vbeModeListSeg = 0 :=
    @wordAt_poke _ vbeInfoBlock 16 (infoBlock segment) 0 0 rfl rfl
  have hlist : wordAt vbe (0 * 16 + 0x8022) = 0x118 :=
    @wordAt_poke _ vbeInfoBlock 34 (infoBlock segment) 0x18 0x01 rfl rfl
  obtain ⟨ram₁, hloop⟩ := getModeListLoop_answering segment hlist
  have hset : endModeListLoop (answering segment) 0x118 = .ok () := by
    unfold endModeListLoop
    rw [if_neg (by decide)]
    rfl
  obtain ⟨ram', hpages⟩ : ∃ ram', goToTmpProtect (answering segment) ram₁ = .ok ram' :=
    ⟨_, if_pos rfl⟩
  refine ⟨ram', ?_⟩
  unfold handOver
  rw [collectMemStruct_eq hne hmax, ok_bind, hvbe, ok_bind, hoff, hseg]
  dsimp only
  rw [hloop, ok_bind]
  dsimp only
  rw [hset, ok_bind]
  exact hpages

/-- The 26th entry has its type in bytes 8 to 11 of the block, where the firmware reports the
name of its vendor. -/
theorem changed_of_long (hlong : 25 < entries.length) (hmax : entries.length ≤ e820MaxEntries)
    {segment : Byte} (hsegment : segment.toNat ≠ entries[25].type.toNat % 256) (ram : Store Byte) :
    ∃ ram', handOver entries (answering segment) 1 ram = .ok ram' ∧
      (copyEntries (memoryStructBuffer ram')).gmm.e820Entry ≠ entries := by
  have hne : entries ≠ [] := List.ne_nil_of_length_pos (by omega)
  obtain ⟨ram', hrun⟩ := handOver_answering hne hmax segment ram
  obtain ⟨block, hblock, hram⟩ := handOver_ram hne hmax hrun
  obtain rfl := Option.some.inj hblock
  refine ⟨ram', hrun, fun hsame => hsegment ?_⟩
  have htable : (memoryStructBuffer ram').table = entries := hsame
  have hcount : (memoryStructBuffer ram').count = entries.length := by
    rw [← htable, E820Buffer.table, List.length_map, List.length_range]
  have hentry : entryAt ram' (memoryStructBufferAddr + 4 + 20 * 25) = entries[25] := by
    have hget : (memoryStructBuffer ram').table[25]? = some ((memoryStructBuffer ram').entries 25) := by
      unfold E820Buffer.table
      rw [List.getElem?_map, List.getElem?_range (by rwa [hcount])]
      rfl
    rw [htable, List.getElem?_eq_getElem hlong] at hget
    exact (Option.some.inj hget).symm
  have htype : dwordAt ram' (vbeInfoBlock + 8) = entries[25].type := congrArg E820Entry.type hentry
  have hbyte : ram' (vbeInfoBlock + 8) = segment := by
    rw [hram _ (by decide)]
    exact poke_inside _ rfl
  rw [← htype, dwordAt_mod, hbyte]

theorem not_keepsMap_of_long (hlong : 25 < entries.length) (hmax : entries.length ≤ e820MaxEntries) :
    ¬ KeepsMap entries := by
  intro hkeeps
  have hsegment : (BitVec.ofNat 8 (entries[25].type.toNat + 1)).toNat ≠ entries[25].type.toNat % 256 := by
    rw [BitVec.toNat_ofNat]
    omega
  obtain ⟨ram', hrun, hchanged⟩ := changed_of_long hlong hmax hsegment fun _ => 0
  exact hchanged (hkeeps _ _ _ _ hrun)

end Answering

/-- **The kernel copies the map that the firmware has returned** exactly if it has at most 25
entries. -/
theorem keepsMap_iff (entries : List E820Entry) (hpos : 1 ≤ entries.length)
    (hmax : entries.length ≤ e820MaxEntries) : KeepsMap entries ↔ entries.length ≤ 25 := by
  constructor
  · intro hkeeps
    by_contra hlong
    exact not_keepsMap_of_long (Nat.lt_of_not_le hlong) hmax hkeeps
  · exact keepsMap_of_short (List.ne_nil_of_length_pos hpos)

/-- A map of one entry. -/
theorem keepsMap_iff_single : KeepsMap [entryOf 0x100000 0x3F00000 1] ↔ 1 ≤ 25 :=
  keepsMap_iff [entryOf 0x100000 0x3F00000 1] (by decide) (by decide)

/-- Megabytes that are usable and reserved in turn, one entry more than fits. -/
def longMap : List E820Entry :=
  (List.range 26).map fun i => entryOf (0x100000 * i) 0x100000 (if i % 2 = 0 then 1 else 2)

/-- The kernel copies another map, from firmware whose name lies in segment C003h. -/
theorem long_map_arrives_changed :
    longMap.length = 26 ∧ (∃ ram', handOver longMap (answering 0x03) 1 (fun _ => 0) = .ok ram' ∧
      (copyEntries (memoryStructBuffer ram')).gmm.e820Entry ≠ longMap) ∧ ¬ KeepsMap longMap := by
  have hlong : 25 < longMap.length := by decide
  have hmax : longMap.length ≤ e820MaxEntries := by decide
  exact ⟨rfl, changed_of_long hlong hmax (by decide +revert) _, not_keepsMap_of_long hlong hmax⟩

end HandOver

end Knos.Bootloader
