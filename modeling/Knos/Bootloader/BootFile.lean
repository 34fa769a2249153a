import Knos.Lib.Chains
import Knos.Bootloader.DirectorySearch
import Knos.Bootloader.FatEntry

/-!
# A file on a disk

What the boot code is given: a disk whose first directory entry of some name heads a chain
of clusters that the disk has (`BootFile`). `fileData` is what the file consists of, and
what each of the two loaders shall leave in memory.
-/

namespace Knos.Bootloader

open Knos.Bytes Knos.Floppy Knos.Chains Knos.Requests Knos.Requests.Prog Knos.Loop

/-- The first cluster in entry `i` of the directory. -/
def entryCluster (disk : Store Byte) (i : ℕ) : ℕ :=
  (disk (sectorBytes * rootDirStartSectors + 32 * i + 0x1a)).toNat +
    256 * (disk (sectorBytes * rootDirStartSectors + 32 * i + 0x1a + 1)).toNat

/-- The sector of a cluster. -/
def clusterSector (c : ℕ) : ℕ := c + rootDirSectors + sectorBalance

def clusterData (disk : Store Byte) (c : ℕ) : List Byte := readSectors disk (clusterSector c) 1

def fileData (disk : Store Byte) (cs : List ℕ) : List Byte := (cs.map (clusterData disk)).flatten

/-- A machine whose memory is filled with one value. -/
def filledWith (x : Byte) : Machine where
  ax := 0
  bx := 0
  cx := 0
  dx := 0
  si := 0
  di := 0
  es := 0
  stack := []
  ram := fun _ => x
  sectorNumber := 0
  odd := 0
  offsetOfKernelFileCount := 0

/-- Entry `i` is the first with this name, and its chain consists of the clusters `cs`. -/
structure BootFile (disk : Store Byte) (name : List Byte) (i : ℕ) (cs : List ℕ) : Prop where
  entry_lt : i < 16 * rootDirSectors
  named : entryName disk i = name
  first : ∀ j, j < i → entryName disk j ≠ name
  head : cs.head? = some (entryCluster disk i)
  chain : IsChain (Fat12.entry disk fatAddress) 0xFFF cs
  clusters : ∀ c ∈ cs, 2 ≤ c ∧ c ≤ 2848

section

variable {disk : Store Byte} {name : List Byte} {i : ℕ} {cs : List ℕ}

theorem length_clusterData (disk : Store Byte) (c : ℕ) :
    (clusterData disk c).length = sectorBytes := length_readSectors _ _ _

theorem length_fileData (disk : Store Byte) (cs : List ℕ) :
    (fileData disk cs).length = sectorBytes * cs.length := by
  unfold fileData
  rw [length_flatten (n := sectorBytes), List.length_map]
  intro b hb
  obtain ⟨c, -, rfl⟩ := List.mem_map.mp hb
  exact length_clusterData disk c

theorem fileData_cons (disk : Store Byte) (c : ℕ) (cs : List ℕ) :
    fileData disk (c :: cs) = clusterData disk c ++ fileData disk cs := rfl

theorem BootFile.first_mem (h : BootFile disk name i cs) : entryCluster disk i ∈ cs :=
  List.mem_of_mem_head? h.head

theorem BootFile.headD_eq (h : BootFile disk name i cs) : cs.headD 0 = entryCluster disk i := by
  rw [List.headD_eq_head?_getD, h.head]
  rfl

/-- No cluster of the disk has the number of the end mark. -/
theorem BootFile.cluster_lt (h : BootFile disk name i cs) (c : ℕ) (hc : c ∈ cs) : c < 0xFFF :=
  Nat.lt_of_le_of_lt (h.clusters c hc).2 (by decide)

/-- A chain visits no cluster twice, so it is no longer than the disk. -/
theorem BootFile.length_le (h : BootFile disk name i cs) : cs.length ≤ 2847 := by
  have hnodup : cs.Nodup := h.chain.nodup fun hmem => by
    have := (h.clusters _ hmem).2
    omega
  have hsub : cs ⊆ List.range' 2 2847 := by
    intro c hc
    have := h.clusters c hc
    rw [List.mem_range'_1]
    omega
  have hle := (hnodup.subperm hsub).length_le
  rwa [List.length_range'] at hle

/-- A cluster that an entry of the FAT can name is one that an address can be given to. -/
theorem clusterSector_lt {c : ℕ} (hc : c < 4096) : clusterSector c < reachableSectors := by
  show c + 14 + 17 < 4608
  omega

/-- The entry that the search has stopped at holds the first cluster of the file. -/
theorem Found.cluster {p : DirSearch} {m m' : Machine} (h : Found disk p i m m') :
    m'.wordAt (p.buffer + 32 * (i % 16) + 0x1a) = entryCluster disk i := by
  have hbyte : ∀ k, k < 32 → m'.ram (p.buffer + 32 * (i % 16) + k) =
      disk (sectorBytes * rootDirStartSectors + 32 * i + k) := by
    intro k hk
    rw [Nat.add_assoc p.buffer, h.sector _ (by show _ < 512; omega)]
    congr 1
    show 512 * (19 + i / 16) + (32 * (i % 16) + k) = 512 * 19 + 32 * i + k
    omega
  unfold Machine.wordAt Machine.byteAt entryCluster
  rw [h.es_eq, Nat.zero_mul, Nat.zero_add, Nat.zero_add, hbyte 0x1a (by decide),
    Nat.add_assoc _ 0x1a 1, hbyte (0x1a + 1) (by decide)]

/-! ## §1  One turn of a loading loop -/

/-- AX has the sector of a cluster, which lies on the stack. -/
structure AtCluster (m : Machine) (c : ℕ) (stack : List ℕ) : Prop where
  ax_eq : m.ax = clusterSector c
  stack_eq : m.stack = c :: stack

theorem clusterSector_eq {c : ℕ} (hc : c < 4096) :
    ((c + rootDirSectors) % 65536 + sectorBalance) % 65536 = clusterSector c := by
  unfold clusterSector rootDirSectors sectorBalance
  omega

theorem atCluster_nextCluster {m : Machine} (hc : m.ax < 4096) :
    AtCluster (nextCluster m) m.ax m.stack := ⟨clusterSector_eq hc, rfl⟩

theorem atCluster_fileFound {p : DirSearch} (hp : Searches disk p) {m m' : Machine}
    (h : Found disk p i m m') (hc : entryCluster disk i < 4096) (base offset : ℕ) :
    AtCluster (fileFound base offset m') (entryCluster disk i) m.stack := by
  have hbuf : p.buffer + 512 < 65536 := hp.buffer_fits
  have halign := hp.buffer_aligned
  have hstart : (m'.di &&& 0xffe0) = p.buffer + 32 * (i % 16) := by
    rw [h.di_eq, entry_start (by omega) (by decide) (by omega)]
  have hdi : ((m'.di &&& 0xffe0) + 0x1a) % 65536 = p.buffer + 32 * (i % 16) + 0x1a := by
    rw [hstart, Nat.mod_eq_of_lt (by omega)]
  have hword := h.cluster
  have hsector := clusterSector_eq hc
  rw [← hdi] at hword
  unfold Machine.wordAt Machine.byteAt at hword
  constructor
  · simp only [fileFound, Machine.push, Machine.wordAt, Machine.byteAt, hword, hsector]
  · simp only [fileFound, Machine.push, Machine.wordAt, Machine.byteAt, hword, h.stack_eq]

/-- The machine that has read the cluster and taken it off the stack. -/
def afterCluster (disk : Store Byte) (m : Machine) : Machine :=
  let m := afterRead disk (m.setCl 1)
  { m with ax := m.top }.drop

theorem AtCluster.ax_after {m : Machine} {c : ℕ} {stack : List ℕ} (hm : AtCluster m c stack) :
    (afterCluster disk m).ax = c := by
  show m.stack.headD 0 = c
  rw [hm.stack_eq]
  rfl

theorem AtCluster.ram_after {m : Machine} {c : ℕ} {stack : List ℕ} (hm : AtCluster m c stack) :
    (afterCluster disk m).ram = poke m.ram (m.es * 16 + m.bx) (clusterData disk c) := by
  have hcl : (m.cx / 256 * 256 + 1) % 256 = 1 := low_byte (by decide)
  show poke m.ram (m.es * 16 + m.bx) (readSectors disk m.ax ((m.cx / 256 * 256 + 1) % 256)) = _
  rw [hcl, hm.ax_eq]
  rfl

/-- **One turn.** The sector of the cluster is read, something is done with it that leaves
AX alone, and the entry of the cluster is decoded. -/
theorem turn_decodes {read : Machine → Exec Machine} (hread : Reads disk read) {buffer : ℕ}
    (hbuf : buffer + bytesPreSector ≤ 65536) (use : Machine → Machine)
    (huse : ∀ m, (use m).ax = m.ax) {m : Machine} {c : ℕ} {stack : List ℕ}
    (hm : AtCluster m c stack) (hc : c < 4096) :
    ∃ m', calm 0 (read (m.setCl 1) >>= fun m =>
        fatEntry read buffer (use { m with ax := m.top }.drop)) = .ok m' ∧
      requests 0 (read (m.setCl 1) >>= fun m =>
        fatEntry read buffer (use { m with ax := m.top }.drop)) = 2 ∧
      Decoded disk buffer (use (afterCluster disk m)) m' := by
  have hlba : (m.setCl 1).ax < reachableSectors := by
    show m.ax < _
    rw [hm.ax_eq]
    exact clusterSector_lt hc
  have hcalm := hread.calm_eq _ hlba
  have hax : (use (afterCluster disk m)).ax = c := by
    rw [huse, hm.ax_after]
  obtain ⟨m', hok, hreq, hdec⟩ := fatEntry_decodes disk hread hbuf
    (show (use (afterCluster disk m)).ax < 4096 by omega)
  refine ⟨m', ?_, ?_, hdec⟩
  · rw [calm_bind, hcalm, ok_bind]
    exact hok
  · rw [requests_bind_of_ok 0 hcalm, hread.requests_eq _ hlba]
    show 1 + requests 0 (fatEntry read buffer (use (afterCluster disk m))) = 2
    rw [hreq]

/-! ## §2  The loop -/

/-- What one turn does, as seen from the clusters that are left: it ends with the entry of
the first, and then either all is done or the next turn can begin. -/
def Turns (disk : Store Byte) (turn : Machine → Exec Machine) (next : Machine → Machine)
    (Loading : List ℕ → Machine → Prop) (Done : Machine → Prop) : Prop :=
  ∀ (m : Machine) (c : ℕ) (cs : List ℕ), c < 4096 → Loading (c :: cs) m → ∃ m',
    calm 0 (turn m) = .ok m' ∧ requests 0 (turn m) = 2 ∧ m'.ax = Fat12.entry disk fatAddress c ∧
      (cs = [] → Done m') ∧ ∀ d ds, cs = d :: ds → m'.ax = d → Loading cs (next m')

/-- **A loop of such turns ends** when it has walked the chain, two requests a cluster. -/
theorem loop_ends {turn : ℕ → Machine → Exec Machine} {next : Machine → Machine}
    {loop : ℕ → Machine → Exec Machine} {Loading : List ℕ → Machine → Prop}
    {Done : Machine → Prop} (hturn : ∀ fuel, Turns disk (turn fuel) next Loading Done)
    (hloop : ∀ fuel m, loop (fuel + 1) m =
      (turn fuel m >>= fun m => if m.ax = 0x0fff then .ret m else loop fuel (next m)))
    (hchain : IsChain (Fat12.entry disk fatAddress) 0xFFF cs) (hcs : ∀ c ∈ cs, c < 0xFFF)
    {fuel : ℕ} (hfuel : cs.length ≤ fuel) :
    ∀ m : Machine, Loading cs m → ∃ m', calm 0 (loop fuel m) = .ok m' ∧
      requests 0 (loop fuel m) = 2 * cs.length ∧ Done m' := by
  induction cs generalizing fuel with
  | nil => exact absurd hchain id
  | cons c cs ih =>
      intro m hm
      obtain ⟨fuel, rfl⟩ : ∃ k, fuel = k + 1 := Nat.exists_eq_succ_of_ne_zero (by
        rw [List.length_cons] at hfuel
        omega)
      obtain ⟨m₁, hok, hreq, hax, hdone, hnext⟩ :=
        hturn fuel m c cs (Nat.lt_succ_of_lt (hcs c List.mem_cons_self)) hm
      rw [hloop, calm_bind, hok, ok_bind, requests_bind_of_ok 0 hok, hreq]
      cases cs with
      | nil =>
          rw [if_pos (hax.trans hchain)]
          exact ⟨m₁, rfl, rfl, hdone rfl⟩
      | cons d cs =>
          have hd := hcs d (List.mem_cons_of_mem _ List.mem_cons_self)
          have haxd : m₁.ax = d := hax.trans hchain.1
          rw [if_neg (show ¬ m₁.ax = 0x0fff by omega)]
          obtain ⟨m', hok', hreq', hdone'⟩ := ih hchain.2
            (fun e he => hcs e (List.mem_cons_of_mem _ he)) (Nat.le_of_succ_le_succ hfuel)
            (next m₁) (hnext d cs rfl haxd)
          refine ⟨m', hok', ?_, hdone'⟩
          rw [hreq', @List.length_cons _ c]
          ring

end

end Knos.Bootloader
