import Knos.Lib.Bytes
import Knos.Lib.Chains

/-!
# Tables of packed 12-bit entries

Two entries share three bytes: the even one has the first byte and the low half of the
second, the odd one the high half of the second and the third byte. `entry` reads one
entry out of a store and `packTable` lays out a whole table; what was laid out is read
back (`entry_packTable`). A reader that fetches the word at byte `3n/2` and shifts and
masks it reads the same entry (`entry_eq_word`).

On lists, `unpackTable` and `packTable` are inverse to each other: tables of an even number
of 12-bit entries are the same as lists of bytes in groups of three.
-/

namespace Knos.Fat12

open Knos.Bytes Knos.Chains

/-! ## §1  Two entries in three bytes -/

def lowEntry (b₀ b₁ : Byte) : ℕ := b₀.toNat + 256 * (b₁.toNat % 16)

def highEntry (b₁ b₂ : Byte) : ℕ := b₁.toNat / 16 + 16 * b₂.toNat

def packPair (n₁ n₂ : ℕ) : List Byte :=
  [BitVec.ofNat 8 n₁, BitVec.ofNat 8 (n₁ / 256 + 16 * (n₂ % 16)), BitVec.ofNat 8 (n₂ / 16)]

theorem lowEntry_lt (b₀ b₁ : Byte) : lowEntry b₀ b₁ < 4096 := by
  have h₀ : b₀.toNat < 256 := b₀.isLt
  unfold lowEntry
  omega

theorem highEntry_lt (b₁ b₂ : Byte) : highEntry b₁ b₂ < 4096 := by
  have h₁ : b₁.toNat < 256 := b₁.isLt
  have h₂ : b₂.toNat < 256 := b₂.isLt
  unfold highEntry
  omega

theorem toNat_ofNat_of_lt {k : ℕ} (h : k < 256) : (BitVec.ofNat 8 k).toNat = k := by
  rw [BitVec.toNat_ofNat]
  exact Nat.mod_eq_of_lt h

theorem lowEntry_packPair {n₁ n₂ : ℕ} (h₁ : n₁ < 4096) :
    lowEntry (BitVec.ofNat 8 n₁) (BitVec.ofNat 8 (n₁ / 256 + 16 * (n₂ % 16))) = n₁ := by
  unfold lowEntry
  rw [toNat_ofNat_of_lt (show n₁ / 256 + 16 * (n₂ % 16) < 256 by omega), BitVec.toNat_ofNat]
  show n₁ % 256 + _ = _
  omega

theorem highEntry_packPair {n₁ n₂ : ℕ} (h₁ : n₁ < 4096) (h₂ : n₂ < 4096) :
    highEntry (BitVec.ofNat 8 (n₁ / 256 + 16 * (n₂ % 16))) (BitVec.ofNat 8 (n₂ / 16)) = n₂ := by
  unfold highEntry
  rw [toNat_ofNat_of_lt (show n₁ / 256 + 16 * (n₂ % 16) < 256 by omega),
    toNat_ofNat_of_lt (show n₂ / 16 < 256 by omega)]
  omega

/-- The two entries of a group keep all its bits. -/
theorem packPair_entries (b₀ b₁ b₂ : Byte) :
    packPair (lowEntry b₀ b₁) (highEntry b₁ b₂) = [b₀, b₁, b₂] := by
  have h₀ : b₀.toNat < 256 := b₀.isLt
  have h₁ : b₁.toNat < 256 := b₁.isLt
  have h₂ : b₂.toNat < 256 := b₂.isLt
  have hlow : BitVec.ofNat 8 (lowEntry b₀ b₁) = b₀ := by
    apply BitVec.eq_of_toNat_eq
    rw [BitVec.toNat_ofNat]
    unfold lowEntry
    omega
  have hmid : lowEntry b₀ b₁ / 256 + 16 * (highEntry b₁ b₂ % 16) = b₁.toNat := by
    unfold lowEntry highEntry
    omega
  have hhigh : highEntry b₁ b₂ / 16 = b₂.toNat := by
    unfold highEntry
    omega
  unfold packPair
  rw [hlow, hmid, hhigh, BitVec.ofNat_toNat, BitVec.setWidth_eq, BitVec.ofNat_toNat,
    BitVec.setWidth_eq]

/-! ## §2  Tables in a store -/

/-- Entry `n` of the table at `base`. -/
def entry (s : Store Byte) (base n : ℕ) : ℕ :=
  if n % 2 = 0 then lowEntry (s (base + 3 * (n / 2))) (s (base + 3 * (n / 2) + 1))
  else highEntry (s (base + 3 * (n / 2) + 1)) (s (base + 3 * (n / 2) + 2))

/-- The bytes of a table; a last entry without a partner is left out. -/
def packTable : List ℕ → List Byte
  | n₁ :: n₂ :: ns => packPair n₁ n₂ ++ packTable ns
  | _ => []

section Entry

variable (s : Store Byte) (base n : ℕ)

theorem entry_lt : entry s base n < 4096 := by
  unfold entry
  split
  · exact lowEntry_lt _ _
  · exact highEntry_lt _ _

theorem entry_add_two : entry s base (n + 2) = entry s (base + 3) n := by
  unfold entry
  rw [Nat.add_mod_right, Nat.add_div_right n (by decide),
    show base + 3 * (n / 2 + 1) = base + 3 + 3 * (n / 2) by ring]

/-- An entry only depends on the bytes of its pair. -/
theorem entry_congr {s t : Store Byte} {base n : ℕ}
    (h : ∀ a, base + 3 * (n / 2) ≤ a → a < base + 3 * (n / 2) + 3 → s a = t a) :
    entry s base n = entry t base n := by
  unfold entry
  rw [h _ (by omega) (by omega), h (base + 3 * (n / 2) + 1) (by omega) (by omega),
    h (base + 3 * (n / 2) + 2) (by omega) (by omega)]

/-- The word at byte `3n/2`, shifted for an odd entry and masked. -/
theorem entry_eq_word : entry s base n =
    ((s (base + 3 * n / 2)).toNat + 256 * (s (base + 3 * n / 2 + 1)).toNat) /
      (if n % 2 = 0 then 1 else 16) % 4096 := by
  have h₀ : (s (base + 3 * n / 2)).toNat < 256 := (s _).isLt
  have h₁ : (s (base + 3 * n / 2 + 1)).toNat < 256 := (s _).isLt
  unfold entry lowEntry highEntry
  by_cases h : n % 2 = 0
  · rw [if_pos h, if_pos h, show 3 * (n / 2) = 3 * n / 2 by omega, Nat.div_one]
    omega
  · rw [if_neg h, if_neg h, show base + 3 * (n / 2) + 1 = base + 3 * n / 2 by omega,
      show base + 3 * (n / 2) + 2 = base + 3 * n / 2 + 1 by omega]
    omega

end Entry

/-- Entries in pairs. -/
theorem exists_pair {k : ℕ} {ns : List ℕ} (h : ns.length = 2 * (k + 1)) :
    ∃ n₁ n₂ rest, ns = n₁ :: n₂ :: rest ∧ rest.length = 2 * k := by
  match ns, h with
  | n₁ :: n₂ :: rest, h =>
      refine ⟨n₁, n₂, rest, rfl, ?_⟩
      simp only [List.length_cons] at h
      omega

theorem length_packTable (k : ℕ) (ns : List ℕ) (hlen : ns.length = 2 * k) :
    (packTable ns).length = 3 * k := by
  induction k generalizing ns with
  | zero =>
      obtain rfl : ns = [] := List.length_eq_zero_iff.mp hlen
      rfl
  | succ k ih =>
      obtain ⟨n₁, n₂, ns, rfl, hns⟩ := exists_pair hlen
      show (packPair n₁ n₂ ++ packTable ns).length = _
      rw [List.length_append, ih ns hns]
      show 3 + 3 * k = _
      omega

/-- **Round trip.** A table that was laid out is read back, entry by entry. -/
theorem entry_packTable (s : Store Byte) (base k : ℕ) (ns : List ℕ) (hlen : ns.length = 2 * k)
    (hlt : ∀ n ∈ ns, n < 4096) {i n : ℕ} (hi : ns[i]? = some n) :
    entry (poke s base (packTable ns)) base i = n := by
  induction k generalizing s base ns i with
  | zero =>
      obtain rfl : ns = [] := List.length_eq_zero_iff.mp hlen
      cases hi
  | succ k ih =>
      obtain ⟨n₁, n₂, ns, rfl, hns⟩ := exists_pair hlen
      have h₁ := hlt n₁ List.mem_cons_self
      have h₂ := hlt n₂ (List.mem_cons_of_mem _ List.mem_cons_self)
      have hsplit : poke s base (packTable (n₁ :: n₂ :: ns)) =
          poke (poke s base (packPair n₁ n₂)) (base + 3) (packTable ns) :=
        poke_append s (packPair n₁ n₂) (packTable ns)
      rw [hsplit]
      -- the bytes of the first pair are not touched by the rest
      have hpair : ∀ j (b : Byte), (packPair n₁ n₂)[j]? = some b →
          poke (poke s base (packPair n₁ n₂)) (base + 3) (packTable ns) (base + j) = b := by
        intro j b hb
        have hj : j < 3 := (List.getElem?_eq_some_iff.mp hb).1
        rw [poke_outside _ (Or.inl (by omega)), poke_inside s hb]
      have hb₁ := hpair 1 _ rfl
      match i, hi with
      | 0, hi =>
          cases hi
          have hb₀ := hpair 0 _ rfl
          show lowEntry _ _ = n
          rw [show base + 3 * (0 / 2) = base + 0 from rfl, hb₀, hb₁]
          exact lowEntry_packPair h₁
      | 1, hi =>
          cases hi
          have hb₂ := hpair 2 _ rfl
          show highEntry _ _ = n
          rw [show base + 3 * (1 / 2) = base from rfl, hb₁, hb₂]
          exact highEntry_packPair h₁ h₂
      | i + 2, hi =>
          rw [entry_add_two]
          refine ih _ (base + 3) ns hns (fun n hn => ?_) hi
          exact hlt n (List.mem_cons_of_mem _ (List.mem_cons_of_mem _ hn))

/-! ## §3  Tables as lists of bytes -/

/-- The entries in a list of bytes; a group that is not complete is left out. -/
def unpackTable : List Byte → List ℕ
  | b₀ :: b₁ :: b₂ :: data => lowEntry b₀ b₁ :: highEntry b₁ b₂ :: unpackTable data
  | _ => []

theorem unpackTable_peek (s : Store Byte) (base k : ℕ) :
    unpackTable (peek s base (3 * k)) = (List.range (2 * k)).map (entry s base) := by
  induction k generalizing base with
  | zero => rfl
  | succ k ih =>
      have hpeek : peek s base (3 * (k + 1)) =
          s base :: s (base + 1) :: s (base + 2) :: peek s (base + 3) (3 * k) := by
        rw [show 3 * (k + 1) = 3 + 3 * k by omega, peek_add]
        rfl
      have hrange : (List.range (2 * (k + 1))).map (entry s base) =
          entry s base 0 :: entry s base 1 ::
            (List.range (2 * k)).map (entry s (base + 3)) := by
        rw [show 2 * (k + 1) = 2 * k + 1 + 1 by omega, List.range_succ_eq_map,
          List.range_succ_eq_map]
        simp only [List.map_cons, List.map_map]
        congr 2
        apply List.map_congr_left
        intro i _
        exact entry_add_two s base i
      rw [hpeek, hrange, ← ih (base + 3)]
      rfl

theorem unpackTable_lt {data : List Byte} {n : ℕ} (h : n ∈ unpackTable data) : n < 4096 := by
  fun_induction unpackTable data with
  | case1 b₀ b₁ b₂ data ih =>
      rcases List.mem_cons.mp h with rfl | h
      · exact lowEntry_lt b₀ b₁
      rcases List.mem_cons.mp h with rfl | h
      · exact highEntry_lt b₁ b₂
      exact ih h
  | case2 => cases h

/-- Bytes in groups of three. -/
theorem exists_group {k : ℕ} {data : List Byte} (h : data.length = 3 * (k + 1)) :
    ∃ b₀ b₁ b₂ rest, data = b₀ :: b₁ :: b₂ :: rest ∧ rest.length = 3 * k := by
  match data, h with
  | b₀ :: b₁ :: b₂ :: rest, h =>
      refine ⟨b₀, b₁, b₂, rest, rfl, ?_⟩
      simp only [List.length_cons] at h
      omega

theorem length_unpackTable (k : ℕ) (data : List Byte) (hlen : data.length = 3 * k) :
    (unpackTable data).length = 2 * k := by
  induction k generalizing data with
  | zero =>
      obtain rfl : data = [] := List.length_eq_zero_iff.mp hlen
      rfl
  | succ k ih =>
      obtain ⟨b₀, b₁, b₂, rest, rfl, hrest⟩ := exists_group hlen
      show (unpackTable rest).length + 1 + 1 = _
      rw [ih rest hrest]
      omega

/-- **No bit is lost** in reading a table. -/
theorem packTable_unpackTable (k : ℕ) (data : List Byte) (hlen : data.length = 3 * k) :
    packTable (unpackTable data) = data := by
  induction k generalizing data with
  | zero =>
      obtain rfl : data = [] := List.length_eq_zero_iff.mp hlen
      rfl
  | succ k ih =>
      obtain ⟨b₀, b₁, b₂, rest, rfl, hrest⟩ := exists_group hlen
      show packPair (lowEntry b₀ b₁) (highEntry b₁ b₂) ++ packTable (unpackTable rest) = _
      rw [packPair_entries, ih rest hrest]
      rfl

/-- **No entry is lost** in laying out a table. -/
theorem unpackTable_packTable (k : ℕ) (ns : List ℕ) (hlen : ns.length = 2 * k)
    (hlt : ∀ n ∈ ns, n < 4096) : unpackTable (packTable ns) = ns := by
  induction k generalizing ns with
  | zero =>
      obtain rfl : ns = [] := List.length_eq_zero_iff.mp hlen
      rfl
  | succ k ih =>
      obtain ⟨n₁, n₂, rest, rfl, hrest⟩ := exists_pair hlen
      have h₁ := hlt n₁ List.mem_cons_self
      have h₂ := hlt n₂ (List.mem_cons_of_mem _ List.mem_cons_self)
      show lowEntry _ _ :: highEntry _ _ :: unpackTable (packTable rest) = _
      rw [lowEntry_packPair h₁, highEntry_packPair h₁ h₂, ih rest hrest fun n hn =>
        hlt n (List.mem_cons_of_mem _ (List.mem_cons_of_mem _ hn))]

end Knos.Fat12
