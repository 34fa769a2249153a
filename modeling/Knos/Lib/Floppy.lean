import Knos.Lib.Bytes

/-!
# Sectors by number and by track

A disk numbers its sectors from 0 on, track after track; a controller is given cylinder,
head and sector, the sector counted from 1. The two addresses determine each other.
-/

namespace Knos.Floppy

open Knos.Bytes

structure Geometry where
  sectors : ℕ
  heads : ℕ
  sectors_pos : 0 < sectors
  heads_pos : 0 < heads

/-- The address that a controller is given. -/
structure Chs where
  cylinder : ℕ
  head : ℕ
  sector : ℕ
deriving DecidableEq

namespace Geometry

variable (g : Geometry)

def chs (lba : ℕ) : Chs where
  cylinder := lba / g.sectors / g.heads
  head := lba / g.sectors % g.heads
  sector := lba % g.sectors + 1

def lba (a : Chs) : ℕ := (a.cylinder * g.heads + a.head) * g.sectors + (a.sector - 1)

/-- The number of a sector is got back from its address. -/
theorem lba_chs (n : ℕ) : g.lba (g.chs n) = n := by
  show (n / g.sectors / g.heads * g.heads + n / g.sectors % g.heads) * g.sectors +
    (n % g.sectors + 1 - 1) = n
  rw [Nat.div_add_mod', Nat.add_sub_cancel, Nat.div_add_mod']

end Geometry

def sectorBytes : ℕ := 512

/-- `count` sectors from number `lba` on. -/
def readSectors (disk : Store Byte) (lba count : ℕ) : List Byte :=
  peek disk (sectorBytes * lba) (sectorBytes * count)

@[simp] theorem length_readSectors (disk : Store Byte) (lba count : ℕ) :
    (readSectors disk lba count).length = sectorBytes * count := length_peek

end Knos.Floppy
