import Knos.Bootloader.BootFile

/-!
# Loading the kernel

The loader reads a cluster into the staging buffer and copies it from there to a 32-bit
address that advances by a sector. Staging buffer and FAT buffer lie below 1 MB, so what
was copied stays, and at the end the whole file lies at `OffsetOfKernelFile`.
-/

namespace Knos.Bootloader

open Knos.Bytes Knos.Floppy Knos.Chains Knos.Requests Knos.Requests.Prog Knos.Loop

namespace KernelLoader

theorem searches (layout : Layout) (disk : Store Byte) (fuel : ℕ) :
    Searches disk (searchInRootDir layout disk (fuel + 1)) where
  reads := reads disk fuel
  length_name := rfl
  name_fits := layout.below
  buffer_aligned := show buffer % 32 = 0 by decide
  buffer_fits := show buffer + sectorBytes < 65536 by decide

/-! ## §1  Copying -/

/-- The loop copies upwards, from a range below the one it writes. -/
theorem movKernel_eq (n : ℕ) {esi edi : ℕ} (ram : Store Byte) (hbelow : esi + n ≤ edi)
    (hfits : edi + n < 2 ^ 32) :
    movKernel n esi edi ram = (edi + n, poke ram edi (peek ram esi n)) := by
  induction n generalizing esi edi ram with
  | zero =>
      rw [peek_zero, poke_nil]
      rfl
  | succ n ih =>
      have hesi : (esi + 1) % 2 ^ 32 = esi + 1 := Nat.mod_eq_of_lt (by omega)
      have hedi : (edi + 1) % 2 ^ 32 = edi + 1 := Nat.mod_eq_of_lt (by omega)
      have hrest : peek (poke ram edi [ram esi]) (esi + 1) n = peek ram (esi + 1) n :=
        peek_poke_of_disjoint (Or.inl (by omega))
      rw [movKernel, hesi, hedi, ih _ (by omega) (by omega), hrest, peek_succ,
        Nat.add_assoc, Nat.add_comm 1]
      congr 1
      exact (poke_append ram [ram esi] _).symm

/-- The staged sector is appended to what has been copied. -/
theorem copySector_eq {m : Machine} (hlow : offsetOfKernelFile ≤ m.offsetOfKernelFileCount)
    (hfits : m.offsetOfKernelFileCount + sectorBytes < 2 ^ 32) :
    copySector m = { m with
      ram := poke m.ram m.offsetOfKernelFileCount (peek m.ram offsetTmpOfKernelFile sectorBytes)
      offsetOfKernelFileCount := m.offsetOfKernelFileCount + sectorBytes } := by
  have hbelow : offsetTmpOfKernelFile + sectorBytes ≤ m.offsetOfKernelFileCount :=
    Nat.le_trans (by decide) hlow
  have hmov : movKernel 0x200 offsetTmpOfKernelFile m.offsetOfKernelFileCount m.ram = _ :=
    movKernel_eq sectorBytes m.ram hbelow hfits
  unfold copySector
  rw [hmov]

theorem copySector_ax (m : Machine) : (copySector m).ax = m.ax := by
  unfold copySector
  rfl

/-! ## §2  The loop -/

section Loop

variable {disk : Store Byte}

/-- A turn of the loop, up to its comparison. -/
def loadCluster (disk : Store Byte) (fuel : ℕ) (m : Machine) : Exec Machine :=
  funcReadOneSector disk (fuel + 1) (m.setCl 1) >>= fun m =>
    fatEntry (funcReadOneSector disk (fuel + 1)) buffer (copySector { m with ax := m.top }.drop)

theorem goOnLoadingFile_succ (disk : Store Byte) (fuel : ℕ) (m : Machine) :
    goOnLoadingFile disk (fuel + 1) m =
      (loadCluster disk fuel m >>= fun m =>
        if m.ax = 0x0fff then .ret m else goOnLoadingFile disk fuel (nextCluster m)) := by
  unfold loadCluster
  rw [bind_assoc]
  rfl

/-- What a turn does to the machine. -/
structure Copied (disk : Store Byte) (m m' : Machine) (c : ℕ) : Prop where
  ax_eq : m'.ax = Fat12.entry disk fatAddress c
  bx_eq : m'.bx = m.bx
  es_eq : m'.es = m.es
  count_eq : m'.offsetOfKernelFileCount = m.offsetOfKernelFileCount + sectorBytes
  ram_eq : ∀ a, offsetOfKernelFile ≤ a →
    m'.ram a = poke m.ram m.offsetOfKernelFileCount (clusterData disk c) a

theorem copied_of_decoded {m m' : Machine} {c : ℕ} {stack : List ℕ}
    (h : Decoded disk buffer (copySector (afterCluster disk m)) m') (hat : AtCluster m c stack)
    (hes : m.es = baseTmpOfKernelAddr) (hbx : m.bx = offsetTmpOfKernelFile)
    (hlow : offsetOfKernelFile ≤ m.offsetOfKernelFileCount)
    (hfits : m.offsetOfKernelFileCount + sectorBytes < 2 ^ 32) : Copied disk m m' c := by
  have hcopy := copySector_eq (m := afterCluster disk m) hlow hfits
  have hstaged : (afterCluster disk m).ram = poke m.ram offsetTmpOfKernelFile (clusterData disk c) := by
    rw [hat.ram_after, hes, hbx]
    rfl
  have hread : peek (afterCluster disk m).ram offsetTmpOfKernelFile sectorBytes =
      clusterData disk c := by
    rw [hstaged, ← length_clusterData disk c]
    exact peek_poke_self m.ram (clusterData disk c)
  rw [hread] at hcopy
  rw [hcopy] at h
  refine ⟨h.ax_eq.trans (congrArg (Fat12.entry disk fatAddress) hat.ax_after), h.bx_eq, h.es_eq,
    h.count_eq, fun a ha => ?_⟩
  have hbuf : buffer + 2 * sectorBytes ≤ a := Nat.le_trans (by decide) ha
  have hstage : offsetTmpOfKernelFile + sectorBytes ≤ a := Nat.le_trans (by decide) ha
  rw [h.frame a (Or.inr hbuf)]
  show poke (afterCluster disk m).ram m.offsetOfKernelFileCount (clusterData disk c) a = _
  apply poke_congr
  rw [hstaged]
  exact poke_outside m.ram (Or.inr (by rw [length_clusterData]; exact hstage))

/-- From `OffsetOfKernelFile` on, memory will be `target` when the clusters `cs` are loaded. -/
structure Loading (disk target : Store Byte) (cs : List ℕ) (m : Machine) : Prop where
  at_cluster : ∃ stack, AtCluster m (cs.headD 0) stack
  es_eq : m.es = baseTmpOfKernelAddr
  bx_eq : m.bx = offsetTmpOfKernelFile
  low : offsetOfKernelFile ≤ m.offsetOfKernelFileCount
  fits : m.offsetOfKernelFileCount + sectorBytes * cs.length < 2 ^ 32
  ram_eq : ∀ a, offsetOfKernelFile ≤ a →
    poke m.ram m.offsetOfKernelFileCount (fileData disk cs) a = target a

/-- From `OffsetOfKernelFile` on, memory is `target`. -/
def Loaded (target : Store Byte) (m : Machine) : Prop :=
  ∀ a, offsetOfKernelFile ≤ a → m.ram a = target a

theorem loadCluster_turns (disk target : Store Byte) (fuel : ℕ) :
    Turns disk (loadCluster disk fuel) nextCluster (Loading disk target) (Loaded target) := by
  intro m c cs hc hm
  obtain ⟨stack, hat⟩ := hm.at_cluster
  have hfits := hm.fits
  rw [List.length_cons, Nat.mul_add_one] at hfits
  obtain ⟨m₁, hok, hreq, hdec⟩ := turn_decodes (reads disk fuel)
    (show buffer + bytesPreSector ≤ 65536 by decide) copySector copySector_ax hat hc
  have hcop := copied_of_decoded hdec hat hm.es_eq hm.bx_eq hm.low (by omega)
  refine ⟨m₁, hok, hreq, hcop.ax_eq, ?_, ?_⟩
  · rintro rfl a ha
    rw [hcop.ram_eq a ha, ← hm.ram_eq a ha, fileData_cons]
    exact congrArg (fun data => poke m.ram _ data a) (List.append_nil _).symm
  · rintro d ds rfl hax
    -- the next turn starts with `d` on the stack and the destination behind the sector
    have hlt : m₁.ax < 4096 := by
      rw [hcop.ax_eq]
      exact Fat12.entry_lt _ _ _
    have hnext := atCluster_nextCluster hlt
    rw [hax] at hnext
    have hcount : (nextCluster m₁).offsetOfKernelFileCount =
        m.offsetOfKernelFileCount + sectorBytes := hcop.count_eq
    have hlow := hm.low
    refine ⟨⟨m₁.stack, hnext⟩, hcop.es_eq.trans hm.es_eq, hcop.bx_eq.trans hm.bx_eq, ?_, ?_,
      fun a ha => ?_⟩
    · rw [hcount]
      exact Nat.le_trans hlow (Nat.le_add_right _ _)
    · rw [hcount]
      omega
    · have hsame : (nextCluster m₁).ram = m₁.ram := rfl
      rw [hcount, hsame, ← hm.ram_eq a ha, fileData_cons disk c, poke_append, length_clusterData]
      exact poke_congr m₁.ram (hcop.ram_eq a ha)

end Loop

/-! ## §3  The whole search and load -/

/-- **The kernel is loaded**: on a disk with a kernel of any number of clusters the loader
ends, and the clusters lie one behind the other from `OffsetOfKernelFile` on. -/
theorem kernel_loaded (layout : Layout) (disk : Store Byte) (i : ℕ) (cs : List ℕ)
    (h : BootFile disk kernelName i cs) (m : Machine) (fuel : ℕ) (hfuel : cs.length ≤ fuel) :
    ∃ m', calm 0 (loadKernel layout disk fuel m) = .ok m' ∧
      peek m'.ram offsetOfKernelFile (sectorBytes * cs.length) = fileData disk cs := by
  have hpos : 0 < cs.length := List.length_pos_of_mem h.first_mem
  obtain ⟨fuel, rfl⟩ : ∃ k, fuel = k + 1 := Nat.exists_eq_succ_of_ne_zero (by omega)
  have hp := searches layout disk fuel
  obtain ⟨m₁, hok, -, hfound⟩ := hp.found rootDirSectors (Nat.zero_add _) (Nat.zero_le i)
    h.entry_lt h.named h.first (start m) rfl
  have hat := atCluster_fileFound hp hfound (Nat.lt_succ_of_lt (h.cluster_lt _ h.first_mem))
    baseTmpOfKernelAddr offsetTmpOfKernelFile
  have hcount : (fileNameFound m₁).offsetOfKernelFileCount = offsetOfKernelFile := hfound.count_eq
  have hfits : offsetOfKernelFile + sectorBytes * cs.length < 2 ^ 32 := by
    have hmul : sectorBytes * cs.length ≤ sectorBytes * 2847 := Nat.mul_le_mul_left _ h.length_le
    exact Nat.lt_of_le_of_lt (Nat.add_le_add_left hmul _) (by decide)
  rw [← h.headD_eq] at hat
  obtain ⟨m₂, hok', -, hram⟩ := loop_ends (loadCluster_turns disk _) (goOnLoadingFile_succ disk)
    h.chain h.cluster_lt hfuel (fileNameFound m₁)
    ⟨⟨_, hat⟩, rfl, rfl, Nat.le_of_eq hcount.symm, by rw [hcount]; exact hfits, fun _ _ => rfl⟩
  refine ⟨m₂, ?_, ?_⟩
  · show calm 0 ((searchInRootDir layout disk (fuel + 1)).searchSectors rootDirSectors (start m) >>= _) = _
    rw [calm_bind, hok, ok_bind]
    exact hok'
  · rw [hcount] at hram
    rw [peek_congr (t := poke (fileNameFound m₁).ram offsetOfKernelFile (fileData disk cs))
      fun a ha _ => hram a ha, ← length_fileData disk cs]
    exact peek_poke_self _ (fileData disk cs)

/-- A disk whose second directory entry is the kernel, with the clusters 4, 2 and 3 in this
order. -/
def scatteredDisk : Store Byte :=
  poke (poke (fun n => BitVec.ofNat 8 (n / 512)) fatAddress
      [0xF0, 0xFF, 0xFF, 0x03, 0xF0, 0xFF, 0x02, 0x00])
    (sectorBytes * rootDirStartSectors + 32) (kernelName ++ List.replicate 15 0 ++ [4, 0])

theorem bootFile_scattered : BootFile scatteredDisk kernelName 1 [4, 2, 3] where
  entry_lt := by decide
  named := by decide
  first := by decide
  head := by decide
  chain := ⟨by decide, by decide, (by decide : Fat12.entry scatteredDisk fatAddress 3 = 0xFFF)⟩
  clusters := by decide

theorem kernel_loaded_scattered : ∃ m',
    calm 0 (loadKernel ⟨0, by decide⟩ scatteredDisk 3 (filledWith 0)) = .ok m' ∧
      peek m'.ram offsetOfKernelFile (sectorBytes * 3) = fileData scatteredDisk [4, 2, 3] :=
  kernel_loaded _ _ 1 [4, 2, 3] bootFile_scattered _ 3 (Nat.le_refl 3)

end KernelLoader

end Knos.Bootloader
