import Knos.Lib.Fat12
import Knos.Bootloader.Reading

/-!
# The FAT entry of a cluster

Cluster `c` has its entry at byte `3c/2` of the FAT. Both copies of the routine divide
that into a sector and an offset, read that sector and the next, fetch a word and keep the
12 bits of the entry (`fatEntry_eq`); everything else they use is restored (`Decoded`).
-/

namespace Knos.Bootloader

open Knos.Bytes Knos.Floppy Knos.Requests Knos.Requests.Prog Knos.Loop

/-- The first FAT. -/
def fatAddress : ℕ := sectorBytes * fat1StartSectors

/-- The machine that calls the read function for the entry of cluster `c`. -/
def Machine.fatRequest (m : Machine) (buffer c : ℕ) : Machine :=
  Machine.setCl { m with
    ax := 3 * c / 2 / bytesPreSector + fat1StartSectors
    bx := buffer
    dx := 3 * c / 2 % bytesPreSector
    es := 0
    odd := if 3 * c % 2 = 0 then 0 else 1
    stack := 3 * c / 2 % bytesPreSector :: m.bx :: m.es :: m.stack } 2

/-- The machine behind the read function, with the word fetched. -/
def Machine.fatResult (m : Machine) : Machine :=
  let word := m.wordAt ((m.bx + m.top) % 65536)
  { m with
    ax := (if m.odd = 1 then word >>> 4 else word) &&& 0x0fff
    bx := m.drop.top
    dx := m.top
    es := m.drop.drop.top
    stack := m.drop.drop.drop.stack }

/-- A dividend that fits AX. -/
theorem divBx_of_dx_eq_zero {m : Machine} {b : ℕ} (hdx : m.dx = 0) (hbx : m.bx = b) (hb : 0 < b)
    (hax : m.ax < 65536) : divBx m = .ret { m with ax := m.ax / b, dx := m.ax % b } := by
  have hquot : m.ax / b ≤ m.ax := Nat.div_le_self _ _
  have hfits : ¬ (b = 0 ∨ 65535 < m.ax / b) := by omega
  unfold divBx
  simp only [hdx, hbx, Nat.zero_mul, Nat.zero_add, if_neg hfits]

theorem fatEntry_eq (read : Machine → Exec Machine) (buffer : ℕ) {m : Machine}
    (hc : m.ax < 4096) :
    fatEntry read buffer m =
      (read (m.fatRequest buffer m.ax) >>= fun m => .ret m.fatResult) := by
  have hlow : m.ax * 3 % 65536 = 3 * m.ax := by omega
  have hhigh : m.ax * 3 / 65536 = 0 := by omega
  have hsector : (3 * m.ax / 2 / bytesPreSector + fat1StartSectors) % 65536 =
      3 * m.ax / 2 / bytesPreSector + fat1StartSectors := by
    unfold bytesPreSector fat1StartSectors
    omega
  unfold fatEntry mulBx
  simp only [Machine.push, hlow, hhigh]
  rw [divBx_of_dx_eq_zero (b := 2) rfl rfl (by decide) (show 3 * m.ax < 65536 by omega), ret_bind,
    divBx_of_dx_eq_zero (b := bytesPreSector) rfl rfl (by decide)
      (show 3 * m.ax / 2 < 65536 by omega), ret_bind]
  simp only [hsector]
  rfl

/-- The routine has returned with the entry of the cluster that was in AX. -/
structure Decoded (disk : Store Byte) (buffer : ℕ) (m m' : Machine) : Prop where
  ax_eq : m'.ax = Fat12.entry disk fatAddress m.ax
  bx_eq : m'.bx = m.bx
  es_eq : m'.es = m.es
  si_eq : m'.si = m.si
  stack_eq : m'.stack = m.stack
  count_eq : m'.offsetOfKernelFileCount = m.offsetOfKernelFileCount
  frame : ∀ a, a < buffer ∨ buffer + 2 * sectorBytes ≤ a → m'.ram a = m.ram a

section Decode

variable (disk : Store Byte) {m : Machine} {buffer c : ℕ}

theorem ram_fatRequest : (afterRead disk (m.fatRequest buffer c)).ram =
    poke m.ram buffer (readSectors disk (3 * c / 2 / bytesPreSector + fat1StartSectors) 2) := by
  have hcl : (m.cx / 256 * 256 + 2) % 256 = 2 := low_byte (by decide)
  show poke m.ram (0 * 16 + buffer) (readSectors disk _ ((m.cx / 256 * 256 + 2) % 256)) = _
  rw [hcl, Nat.zero_mul, Nat.zero_add]
  rfl

/-- The bytes at and behind the offset are those of the entry. -/
theorem byte_fatRequest {i : ℕ} (hi : i < 2) :
    (afterRead disk (m.fatRequest buffer c)).ram (buffer + 3 * c / 2 % bytesPreSector + i) =
      disk (fatAddress + 3 * c / 2 + i) := by
  have hlt : 3 * c / 2 % bytesPreSector < 512 := Nat.mod_lt _ (by decide)
  have hsplit : sectorBytes * (3 * c / 2 / bytesPreSector + fat1StartSectors) +
      (3 * c / 2 % bytesPreSector + i) = fatAddress + 3 * c / 2 + i := by
    have hdiv : sectorBytes * (3 * c / 2 / bytesPreSector) + 3 * c / 2 % bytesPreSector = 3 * c / 2 :=
      Nat.div_add_mod _ _
    unfold fatAddress
    rw [Nat.mul_add]
    omega
  rw [ram_fatRequest, Nat.add_assoc buffer]
  refine poke_inside m.ram ?_
  unfold readSectors
  rw [getElem?_peek (by show _ < 512 * 2; omega), hsplit]

theorem word_of_odd {x c : ℕ} : (if (if 3 * c % 2 = 0 then 0 else 1) = 1 then x >>> 4 else x) &&& 0x0fff =
    x / (if c % 2 = 0 then 1 else 16) % 4096 := by
  rw [show 0x0fff = 2 ^ 12 - 1 from rfl, Nat.and_two_pow_sub_one_eq_mod]
  by_cases h : c % 2 = 0
  · rw [if_pos (show 3 * c % 2 = 0 by omega), if_neg (by decide), if_pos h, Nat.div_one]
  · rw [if_neg (show ¬ 3 * c % 2 = 0 by omega), if_pos rfl, if_neg h, Nat.shiftRight_eq_div_pow]

/-- **The entry of a cluster** is decoded with one request. -/
theorem fatEntry_decodes {read : Machine → Exec Machine} (hread : Reads disk read)
    (hbuf : buffer + bytesPreSector ≤ 65536) (hc : m.ax < 4096) :
    ∃ m', calm 0 (fatEntry read buffer m) = .ok m' ∧ requests 0 (fatEntry read buffer m) = 1 ∧
      Decoded disk buffer m m' := by
  have hlba : (m.fatRequest buffer m.ax).ax < reachableSectors := by
    show 3 * m.ax / 2 / 512 + 1 < 4608
    omega
  have hcalm := hread.calm_eq _ hlba
  have hreq := hread.requests_eq _ hlba
  refine ⟨(afterRead disk (m.fatRequest buffer m.ax)).fatResult, ?_, ?_, ?_⟩
  · rw [fatEntry_eq read buffer hc, calm_bind, hcalm]
    rfl
  · rw [fatEntry_eq read buffer hc, requests_bind_of_ok 0 hcalm, hreq]
    rfl
  · have hoff : 3 * m.ax / 2 % bytesPreSector < bytesPreSector := Nat.mod_lt _ (by decide)
    have hbx : (buffer + 3 * m.ax / 2 % bytesPreSector) % 65536 =
        buffer + 3 * m.ax / 2 % bytesPreSector := Nat.mod_eq_of_lt (by omega)
    have hword : (afterRead disk (m.fatRequest buffer m.ax)).wordAt
        ((buffer + 3 * m.ax / 2 % bytesPreSector) % 65536) =
        (disk (fatAddress + 3 * m.ax / 2)).toNat + 256 * (disk (fatAddress + 3 * m.ax / 2 + 1)).toNat := by
      have h₀ := @byte_fatRequest disk m buffer m.ax 0 (by decide)
      have h₁ := @byte_fatRequest disk m buffer m.ax 1 (by decide)
      show ((afterRead disk (m.fatRequest buffer m.ax)).ram (0 * 16 + _)).toNat +
        256 * ((afterRead disk (m.fatRequest buffer m.ax)).ram (0 * 16 + (_ + 1))).toNat = _
      rw [Nat.add_zero, Nat.add_zero] at h₀
      rw [hbx, Nat.zero_mul, Nat.zero_add, Nat.zero_add, h₁, h₀]
    refine ⟨?_, rfl, rfl, rfl, rfl, rfl, fun a ha => ?_⟩
    · rw [Fat12.entry_eq_word, ← hword, ← word_of_odd]
      rfl
    · show (afterRead disk (m.fatRequest buffer m.ax)).ram a = m.ram a
      rw [ram_fatRequest]
      refine poke_outside m.ram ?_
      rw [length_readSectors]
      omega

end Decode

end Knos.Bootloader
