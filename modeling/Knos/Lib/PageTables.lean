import Knos.Lib.Blocks
import Mathlib.Data.Nat.Bitwise

/-!
# Four-level page tables

The address translation of a processor in 64-bit mode: tables of 512 entries in physical
memory, indexed by nine bits of the address each, down to a page of 4 KB, 2 MB or 1 GB.

Addresses are natural numbers below `2 ^ 64`. The bits by which the processor records that an
entry was used are left out, since no translation depends on them.
-/

namespace Knos.PageTables

open Knos.Bytes

/-! ## §1  Entries -/

/-- The quad word at an address. -/
def entryAt (ram : Store Byte) (a : ℕ) : ℕ := leNat (peek ram a 8)

/-- How many bits of an address are the offset into a page of this level; 0 is the lowest. -/
def pageBits (level : ℕ) : ℕ := 12 + 9 * level

/-- The number of the entry that an address selects. -/
def index (level va : ℕ) : ℕ := va / 2 ^ pageBits level % 512

/-- The physical address in an entry: bits up to 51, without the offset. -/
def frame (level entry : ℕ) : ℕ :=
  entry / 2 ^ pageBits level % 2 ^ (52 - pageBits level) * 2 ^ pageBits level

/-- Where an address leads, and what the entries on the way allow. -/
structure Mapping where
  address : ℕ
  writable : Bool
  user : Bool
deriving DecidableEq

/-- The page that an entry maps. -/
def leaf (level entry va : ℕ) : Mapping where
  address := frame level entry + va % 2 ^ pageBits level
  writable := entry.testBit 1
  user := entry.testBit 2

/-- What is not allowed by an entry further up is not allowed. -/
def Mapping.restrict (entry : ℕ) (m : Mapping) : Mapping :=
  { m with writable := entry.testBit 1 && m.writable, user := entry.testBit 2 && m.user }

/-- A large page is one of 2 MB or 1 GB, and its entry has no bits between the attributes and
the address of the page. -/
def LargeFits (level entry : ℕ) : Prop := level < 3 ∧ entry / 2 ^ 13 % 2 ^ (9 * level - 1) = 0

instance (level entry : ℕ) : Decidable (LargeFits level entry) :=
  inferInstanceAs (Decidable (_ ∧ _))

/-! ## §2  The walk -/

/-- From a table of this level down; `none` is a page fault. Bit 0 of an entry says that it is
present, bit 7 above the lowest level that it maps a large page. -/
def walk (ram : Store Byte) : ℕ → ℕ → ℕ → Option Mapping
  | 0, table, va =>
      let entry := entryAt ram (table + 8 * index 0 va)
      if entry.testBit 0 then some (leaf 0 entry va) else none
  | level + 1, table, va =>
      let entry := entryAt ram (table + 8 * index (level + 1) va)
      if entry.testBit 0 then
        if entry.testBit 7 then
          if LargeFits (level + 1) entry then some (leaf (level + 1) entry va) else none
        else (walk ram level (frame 0 entry) va).map (Mapping.restrict entry)
      else none

/-- The upper 17 bits of an address are equal. -/
def Canonical (va : ℕ) : Prop := va < 2 ^ 47 ∨ 2 ^ 64 - 2 ^ 47 ≤ va ∧ va < 2 ^ 64

instance (va : ℕ) : Decidable (Canonical va) := inferInstanceAs (Decidable (_ ∨ _))

/-- The translation with a value of CR3. -/
def translate (ram : Store Byte) (cr3 va : ℕ) : Option Mapping :=
  if Canonical va then walk ram 3 (frame 0 cr3) va else none

section Walk

variable {ram : Store Byte} {level table va entry : ℕ}

theorem index_lt (level va : ℕ) : index level va < 512 := Nat.mod_lt _ (by decide)

theorem walk_absent (hentry : entryAt ram (table + 8 * index level va) = entry)
    (habsent : entry.testBit 0 = false) : walk ram level table va = none := by
  cases level with
  | zero =>
      rw [walk, hentry, habsent]
      rfl
  | succ level =>
      rw [walk, hentry, habsent]
      rfl

theorem walk_large (hentry : entryAt ram (table + 8 * index (level + 1) va) = entry)
    (hpresent : entry.testBit 0 = true) (hlarge : entry.testBit 7 = true)
    (hfits : LargeFits (level + 1) entry) :
    walk ram (level + 1) table va = some (leaf (level + 1) entry va) := by
  rw [walk, hentry]
  rw [if_pos hpresent, if_pos hlarge, if_pos hfits]

theorem walk_next (hentry : entryAt ram (table + 8 * index (level + 1) va) = entry)
    (hpresent : entry.testBit 0 = true) (hlarge : entry.testBit 7 = false) :
    walk ram (level + 1) table va =
      (walk ram level (frame 0 entry) va).map (Mapping.restrict entry) := by
  rw [walk, hentry]
  rw [if_pos hpresent, hlarge, if_neg Bool.false_ne_true]

end Walk

/-! ## §3  Tables in memory -/

section Tables

variable {ram : Store Byte} {table : ℕ} {entries : List ℕ}

/-- The bytes of a table. -/
def tableBytes (entries : List ℕ) : List Byte := (entries.map (leBytes 8)).flatten

theorem length_tableBytes (entries : List ℕ) : (tableBytes entries).length = 8 * entries.length := by
  unfold tableBytes
  rw [length_flatten (n := 8), List.length_map]
  intro b hb
  obtain ⟨entry, -, rfl⟩ := List.mem_map.mp hb
  exact length_leBytes 8 entry

/-- A table lies at an address. -/
def HoldsTable (ram : Store Byte) (table : ℕ) (entries : List ℕ) : Prop :=
  peek ram table (8 * entries.length) = tableBytes entries

theorem entryAt_poke_of_disjoint {a b : ℕ} {data : List Byte}
    (h : a + 8 ≤ b ∨ b + data.length ≤ a) : entryAt (poke ram b data) a = entryAt ram a := by
  unfold entryAt
  rw [peek_poke_of_disjoint h]

/-- The entries of a table are read back. -/
theorem HoldsTable.entryAt_eq (h : HoldsTable ram table entries)
    (hlt : ∀ entry ∈ entries, entry < 2 ^ 64) {i : ℕ} {entry : ℕ} (hi : entries[i]? = some entry) :
    entryAt ram (table + 8 * i) = entry := by
  obtain ⟨hlen, -⟩ := List.getElem?_eq_some_iff.mp hi
  have hblocks : ∀ b ∈ entries.map (leBytes 8), b.length = 8 := by
    intro b hb
    obtain ⟨entry, -, rfl⟩ := List.mem_map.mp hb
    exact length_leBytes 8 entry
  have hread := peek_poke_flatten ram table hblocks i
  have hsame : poke ram table (entries.map (leBytes 8)).flatten = ram := by
    show poke ram table (tableBytes entries) = ram
    rw [← h]
    exact poke_peek ram table _
  rw [hsame, List.getElem?_map, hi] at hread
  unfold entryAt
  rw [hread]
  exact leNat_leBytes_of_lt (hlt entry (List.mem_of_getElem? hi))

/-- A table depends on its own bytes only. -/
theorem HoldsTable.congr {ram' : Store Byte} (h : HoldsTable ram table entries)
    (hsame : ∀ a, table ≤ a → a < table + 8 * entries.length → ram' a = ram a) :
    HoldsTable ram' table entries := by
  unfold HoldsTable
  rw [peek_congr hsame]
  exact h

theorem HoldsTable.poke_of_apart (h : HoldsTable ram table entries) {base : ℕ} {data : List Byte}
    (hapart : table + 8 * entries.length ≤ base ∨ base + data.length ≤ table) :
    HoldsTable (poke ram base data) table entries := by
  unfold HoldsTable
  rw [peek_poke_of_disjoint hapart]
  exact h

end Tables

/-! ## §4  Entries written one by one -/

section SetEntries

variable {ram : Store Byte} {entries : List (ℕ × ℕ)} {a : ℕ}

/-- An entry as a block. -/
def entryBlock (p : ℕ × ℕ) : Block Byte := (p.1, leBytes 8 p.2)

/-- Addresses of entries with what is written there, in this order. -/
def setEntries (ram : Store Byte) (entries : List (ℕ × ℕ)) : Store Byte :=
  pokes ram (entries.map entryBlock)

theorem setEntries_outside (h : ∀ p ∈ entries, a < p.1 ∨ p.1 + 8 ≤ a) :
    setEntries ram entries a = ram a := by
  refine pokes_outside fun b hb => ?_
  obtain ⟨p, hp, rfl⟩ := List.mem_map.mp hb
  exact h p hp

theorem entryAt_setEntries_of_apart (h : ∀ p ∈ entries, a + 8 ≤ p.1 ∨ p.1 + 8 ≤ a) :
    entryAt (setEntries ram entries) a = entryAt ram a := by
  unfold entryAt setEntries
  rw [peek_pokes_of_apart]
  intro b hb
  obtain ⟨p, hp, rfl⟩ := List.mem_map.mp hb
  exact h p hp

/-- An entry that the others are apart from is read back. -/
theorem entryAt_setEntries {entry : ℕ} (hmem : (a, entry) ∈ entries) (hlt : entry < 2 ^ 64)
    (h : ∀ p ∈ entries, p = (a, entry) ∨ a + 8 ≤ p.1 ∨ p.1 + 8 ≤ a) :
    entryAt (setEntries ram entries) a = entry := by
  have hmem' : (a, leBytes 8 entry) ∈ entries.map entryBlock := List.mem_map.mpr ⟨_, hmem, rfl⟩
  have hread := peek_pokes_of_mem (s := ram) hmem' fun b hb => by
    obtain ⟨p, hp, rfl⟩ := List.mem_map.mp hb
    rcases h p hp with rfl | hapart
    · exact Or.inl rfl
    · exact Or.inr hapart
  rw [length_leBytes] at hread
  unfold entryAt setEntries
  rw [hread]
  exact leNat_leBytes_of_lt hlt

/-- An entry written in two halves, of which the upper one is 0. -/
theorem poke_halves (ram : Store Byte) (a : ℕ) {entry : ℕ} (h : entry < 2 ^ 32) :
    poke (poke ram a (leBytes 4 entry)) (a + 4) (leBytes 4 0) = poke ram a (leBytes 8 entry) := by
  have hupper : entry / 256 / 256 / 256 / 256 = 0 := by omega
  have hbytes : leBytes 8 entry = leBytes 4 entry ++ leBytes 4 0 := by
    show leBytes 4 entry ++ leBytes 4 (entry / 256 / 256 / 256 / 256) = _
    rw [hupper]
  rw [hbytes, poke_append, length_leBytes]

/-- The halves of entries, each with its address. -/
def halves (entries : List (ℕ × ℕ)) : List (ℕ × ℕ) :=
  entries.flatMap fun p => [(p.1, p.2), (p.1 + 4, 0)]

theorem foldl_halves (h : ∀ p ∈ entries, p.2 < 2 ^ 32) :
    (halves entries).foldl (fun ram p => poke ram p.1 (leBytes 4 p.2)) ram =
      setEntries ram entries := by
  induction entries generalizing ram with
  | nil => rfl
  | cons p entries ih =>
      show (halves entries).foldl _ (poke (poke ram p.1 (leBytes 4 p.2)) (p.1 + 4) (leBytes 4 0)) = _
      rw [poke_halves ram p.1 (h p List.mem_cons_self)]
      exact ih fun q hq => h q (List.mem_cons_of_mem _ hq)

end SetEntries

/-! ## §5  Loads and stores -/

/-- What is read at an address; `none` is a page fault. -/
def fetch (ram : Store Byte) (cr3 va : ℕ) : Option Byte :=
  (translate ram cr3 va).map fun m => ram m.address

/-- A store, byte by byte. Each address is translated by the tables as the stores before it
have left them. -/
def storeBytes (cr3 : ℕ) : ℕ → List Byte → Store Byte → Option (Store Byte)
  | _, [], ram => some ram
  | va, b :: bs, ram =>
      match translate ram cr3 va with
      | none => none
      | some m =>
          if m.writable then storeBytes cr3 (va + 1) bs (poke ram m.address [b]) else none

section Stores

variable {ram : Store Byte} {cr3 va pa : ℕ} {data : List Byte}

/-- The tables in memory translate a range of addresses to a range of addresses, and go on to
do so while that range is written to. -/
structure Window (Tables : Store Byte → Prop) (cr3 va pa n : ℕ) : Prop where
  leads : ∀ ram, Tables ram → ∀ i, i < n →
    ∃ m, translate ram cr3 (va + i) = some m ∧ m.address = pa + i ∧ m.writable = true
  keeps : ∀ ram, Tables ram → ∀ i, i < n → ∀ b, Tables (poke ram (pa + i) [b])

variable {Tables : Store Byte → Prop} {n : ℕ}

theorem Window.drop (h : Window Tables cr3 va pa (n + 1)) : Window Tables cr3 (va + 1) (pa + 1) n where
  leads ram htables i hi := by
    obtain ⟨m, htranslate, haddress, hwritable⟩ := h.leads ram htables (i + 1) (by omega)
    refine ⟨m, ?_, ?_, hwritable⟩
    · rwa [Nat.add_assoc, Nat.add_comm 1]
    · rw [haddress]
      omega
  keeps ram htables i hi b := by
    rw [Nat.add_assoc, Nat.add_comm 1]
    exact h.keeps ram htables (i + 1) (by omega) b

/-- **A store into a window** is a store at the address behind it. -/
theorem Window.storeBytes_eq (h : Window Tables cr3 va pa data.length) (htables : Tables ram) :
    storeBytes cr3 va data ram = some (poke ram pa data) ∧ Tables (poke ram pa data) := by
  induction data generalizing va pa ram with
  | nil =>
      rw [poke_nil]
      exact ⟨rfl, htables⟩
  | cons b bs ih =>
      obtain ⟨m, htranslate, haddress, hwritable⟩ := h.leads ram htables 0 (Nat.succ_pos _)
      have hkeeps := h.keeps ram htables 0 (Nat.succ_pos _) b
      rw [Nat.add_zero] at htranslate haddress hkeeps
      have hrest := ih h.drop hkeeps
      have hsplit : poke ram pa (b :: bs) = poke (poke ram pa [b]) (pa + 1) bs :=
        poke_append ram [b] bs
      rw [hsplit]
      refine ⟨?_, hrest.2⟩
      rw [storeBytes, htranslate]
      dsimp only
      rw [if_pos hwritable, haddress]
      exact hrest.1

/-- Stores one after the other, each with its address. -/
def storeAll (cr3 : ℕ) : List (Block Byte) → Store Byte → Option (Store Byte)
  | [], ram => some ram
  | b :: blocks, ram => do
      let ram ← storeBytes cr3 b.1 b.2 ram
      storeAll cr3 blocks ram

/-- The part of a window that a block is written to. -/
theorem Window.slice (h : Window Tables cr3 va pa n) {k m : ℕ} (hle : k + m ≤ n) :
    Window Tables cr3 (va + k) (pa + k) m where
  leads ram htables i hi := by
    rw [Nat.add_assoc, Nat.add_assoc]
    exact h.leads ram htables (k + i) (by omega)
  keeps ram htables i hi b := by
    rw [Nat.add_assoc]
    exact h.keeps ram htables (k + i) (by omega) b

/-- **Stores into a window**, at offsets from its beginning. -/
theorem Window.storeAll_eq (h : Window Tables cr3 va pa n) (htables : Tables ram)
    {blocks : List (Block Byte)} (hle : ∀ b ∈ blocks, b.1 + b.2.length ≤ n) :
    storeAll cr3 (blocks.map (Block.shift va)) ram = some (pokes ram (blocks.map (Block.shift pa))) ∧
      Tables (pokes ram (blocks.map (Block.shift pa))) := by
  induction blocks generalizing ram with
  | nil => exact ⟨rfl, htables⟩
  | cons b blocks ih =>
      obtain ⟨hstore, hkeeps⟩ := (h.slice (hle b List.mem_cons_self)).storeBytes_eq htables
      obtain ⟨hrest, hend⟩ := ih hkeeps fun c hc => hle c (List.mem_cons_of_mem _ hc)
      refine ⟨?_, hend⟩
      rw [List.map_cons, storeAll]
      show (storeBytes cr3 (va + b.1) b.2 ram >>= _) = _
      rw [hstore]
      exact hrest

end Stores

end Knos.PageTables
