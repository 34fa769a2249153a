import Knos.Bootloader.BootSector
import Knos.Bootloader.KernelLoader

/-!
# Reading a sector

The division of AX by the sectors of a track gives the address of sector AX (`address_eq`),
so one call of either read function puts the sectors from AX on to ES:BX and leaves the
rest of the machine alone, if the drive answers (`Reads`).
-/

namespace Knos.Bootloader

open Knos.Bytes Knos.Floppy Knos.Requests Knos.Requests.Prog Knos.Loop

/-- The sectors that one byte of cylinders and heads reaches. -/
def reachableSectors : ℕ := sectorsPreTrack * 256

/-- AX, CX and DX with the address of sector `lba`. -/
def Machine.withAddress (m : Machine) (lba : ℕ) : Machine :=
  { m with
    ax := (lba % sectorsPreTrack + 1) * 256 + lba / sectorsPreTrack / 2
    cx := lba / sectorsPreTrack / 2 * 256 + (lba % sectorsPreTrack + 1)
    dx := lba / sectorsPreTrack % 2 * 256 + driveNumber }

/-- The machine that has read CL sectors from sector AX on. -/
def afterRead (disk : Store Byte) (m : Machine) : Machine :=
  { m.withAddress m.ax with
    ax := m.cx % 256
    ram := poke m.ram (m.es * 16 + m.bx) (readSectors disk m.ax (m.cx % 256)) }

/-- A read function that reads the sectors that it is asked for, with one request. -/
structure Reads (disk : Store Byte) (read : Machine → Exec Machine) : Prop where
  calm_eq : ∀ m, m.ax < reachableSectors → (read m).calm 0 = .ok (afterRead disk m)
  requests_eq : ∀ m, m.ax < reachableSectors → (read m).requests 0 = 1

/-! ## §1  Words of two bytes -/

theorem high_byte {h l : ℕ} (hl : l < 256) : (h * 256 + l) / 256 = h := by omega

theorem low_byte {h l : ℕ} (hl : l < 256) : (h * 256 + l) % 256 = l := by omega

theorem track_lt {lba : ℕ} (h : lba < reachableSectors) : lba / sectorsPreTrack < 256 :=
  Nat.div_lt_of_lt_mul h

theorem sector_le (lba : ℕ) : lba % sectorsPreTrack + 1 ≤ 18 := Nat.mod_lt lba (by decide)

/-! ## §2  The address -/

theorem setAddress_eq {m : Machine} (h : m.ax < reachableSectors) :
    setAddress m = .ret (m.withAddress m.ax) := by
  have hbl : (m.bx / 256 * 256 + sectorsPreTrack) % 256 = sectorsPreTrack := low_byte (by decide)
  have hfits : ¬ (sectorsPreTrack = 0 ∨ 255 < m.ax / sectorsPreTrack) := by
    rintro (h0 | hbig)
    · cases h0
    · exact absurd (track_lt h) (Nat.not_lt.mpr hbig)
  have hinc : (m.ax % sectorsPreTrack + 1) % 256 = m.ax % sectorsPreTrack + 1 :=
    Nat.mod_eq_of_lt (by have := sector_le m.ax; omega)
  unfold setAddress
  simp only [Machine.push, hbl]
  unfold div8
  simp only [if_neg hfits, ret_bind, high_byte (track_lt h), low_byte (track_lt h), hinc]
  rfl

/-- The address in CX and DX is the one of sector `lba`. -/
theorem address_eq (m : Machine) (lba : ℕ) :
    ({ cylinder := (m.withAddress lba).cx / 256 + 256 * ((m.withAddress lba).cx % 256 / 64)
       head := (m.withAddress lba).dx / 256
       sector := (m.withAddress lba).cx % 64 } : Chs) = floppy.chs lba := by
  have hsec := sector_le lba
  have hlow : lba % sectorsPreTrack + 1 < 256 := by omega
  have hzero : (lba % sectorsPreTrack + 1) / 64 = 0 := Nat.div_eq_of_lt (by omega)
  have hcyl : (m.withAddress lba).cx / 256 + 256 * ((m.withAddress lba).cx % 256 / 64) =
      lba / sectorsPreTrack / 2 := by
    show (lba / sectorsPreTrack / 2 * 256 + (lba % sectorsPreTrack + 1)) / 256 +
      256 * ((lba / sectorsPreTrack / 2 * 256 + (lba % sectorsPreTrack + 1)) % 256 / 64) = _
    rw [high_byte hlow, low_byte hlow, hzero, Nat.mul_zero, Nat.add_zero]
  have hhead : (m.withAddress lba).dx / 256 = lba / sectorsPreTrack % 2 :=
    high_byte (show driveNumber < 256 by decide)
  have hsector : (m.withAddress lba).cx % 64 = lba % sectorsPreTrack + 1 := by
    show (lba / sectorsPreTrack / 2 * 256 + (lba % sectorsPreTrack + 1)) % 64 = _
    omega
  rw [hcyl, hhead, hsector]
  rfl

/-! ## §3  One request -/

/-- The machine that asks INT 13h for `count` sectors from sector `lba` on. -/
def Machine.asking (m : Machine) (lba count : ℕ) : Machine :=
  { m.withAddress lba with ax := 0x0200 + count }

/-- The machine that has got them. -/
def Machine.served (disk : Store Byte) (m : Machine) (lba count : ℕ) : Machine :=
  { m.withAddress lba with
    ax := count
    ram := poke m.ram (m.es * 16 + m.bx) (readSectors disk lba count) }

theorem int13_asking (disk : Store Byte) (m : Machine) (lba : ℕ) {count : ℕ}
    (hcount : count < 256) :
    int13 disk (m.asking lba count) = .ask fun status =>
      if status = 0 then .ret (false, m.served disk lba count)
      else .ret (true, { m.asking lba count with ax := status.toNat * 256 }) := by
  have hal : (0x0200 + count) % 256 = count := by omega
  unfold int13
  congr 1
  funext status
  split
  · simp only [Machine.asking, hal, address_eq m lba, floppy.lba_chs]
    rfl
  · rfl

/-- What follows a request goes on from its answer. -/
theorem int13_asking_bind {α : Type} (disk : Store Byte) (m : Machine) (lba : ℕ) {count : ℕ}
    (hcount : count < 256) (rest : Bool × Machine → Exec α) :
    (int13 disk (m.asking lba count) >>= rest) = .ask fun status =>
      if status = 0 then rest (false, m.served disk lba count)
      else rest (true, { m.asking lba count with ax := status.toNat * 256 }) := by
  rw [int13_asking disk m lba hcount, ask_bind]
  congr 1
  funext status
  split
  · rfl
  · rfl

/-! ## §4  Both read functions -/

theorem readOneSector_eq (retry : ℕ → Machine → Exec Machine) {m : Machine}
    (h : m.ax < reachableSectors) :
    readOneSector retry m = retry (m.cx % 256) (m.withAddress m.ax) := by
  unfold readOneSector
  rw [setAddress_eq h, ret_bind]

/-- A loop that asks INT 13h, and returns as soon as it is served. -/
theorem reads_of_loop {disk : Store Byte} {retry : ℕ → Machine → Exec Machine}
    (h : ∀ (m : Machine) (lba count : ℕ), count < 256 → ∃ next,
      retry count (m.withAddress lba) = .ask next ∧ next 0 = .ret (m.served disk lba count)) :
    Reads disk (readOneSector retry) := by
  constructor
  · intro m hm
    obtain ⟨next, heq, hgood⟩ := h m m.ax (m.cx % 256) (Nat.mod_lt _ (by decide))
    rw [readOneSector_eq retry hm, heq]
    show calm 0 (next 0) = _
    rw [hgood]
    rfl
  · intro m hm
    obtain ⟨next, heq, hgood⟩ := h m m.ax (m.cx % 256) (Nat.mod_lt _ (by decide))
    rw [readOneSector_eq retry hm, heq]
    show requests 0 (next 0) + 1 = 1
    rw [hgood]
    rfl

namespace BootSector

/-- One turn of `ReRead`. -/
theorem reRead_succ (disk : Store Byte) (m : Machine) (lba turns : ℕ) {count : ℕ}
    (hcount : count < 256) :
    reRead disk count (turns + 1) (m.withAddress lba) = .ask fun status =>
      if status = 0 then .ret (m.served disk lba count)
      else
        let m' : Machine := { m.withAddress lba with
          ax := status.toNat * 256
          si := (m.si + 1) % 65536 }
        if 5 ≤ m'.si then .stop (.readError, m') else reRead disk count turns m' :=
  int13_asking_bind disk m lba hcount _

theorem reads (disk : Store Byte) : Reads disk (readOneSectorFunction disk) :=
  reads_of_loop fun m lba _ hcount => ⟨_, reRead_succ disk m lba 6 hcount, if_pos rfl⟩

end BootSector

namespace KernelLoader

theorem goOnReading_succ (disk : Store Byte) (m : Machine) (lba fuel : ℕ) {count : ℕ}
    (hcount : count < 256) :
    goOnReading disk count (fuel + 1) (m.withAddress lba) = .ask fun status =>
      if status = 0 then .ret (m.served disk lba count)
      else goOnReading disk count fuel { m.asking lba count with ax := status.toNat * 256 } :=
  int13_asking_bind disk m lba hcount _

theorem reads (disk : Store Byte) (fuel : ℕ) : Reads disk (funcReadOneSector disk (fuel + 1)) :=
  reads_of_loop fun m lba _ hcount => ⟨_, goOnReading_succ disk m lba fuel hcount, if_pos rfl⟩

end KernelLoader

end Knos.Bootloader
