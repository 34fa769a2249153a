import Knos.Lib.Shelf
import Knos.Tools.Lookup
import Knos.Tools.Space

/-!
# The table of files

What the image tool is for: a table of 224 slots, each empty or with one file, where a file is a
name, its bytes and the time of saving, and all of them take at most the clusters of the data
area. `save` puts a file into the first empty slot and `del` takes the first one of a name. The
disk with its directory, its two FATs and its clusters is such a table: whatever calls of the
tool follow `format`, they succeed and fail as those of the table do, and reading the disk gives
the files of the table (`disk_refines_table`).
-/

namespace Knos.Fat12Img

open Knos.Bytes Knos.PyText Knos.Chains

/-! ## §1  Dates and times -/

/-- `get_date` -/
def FileInfo.getDate (info : FileInfo) : ℕ × ℕ × ℕ :=
  let date := info.date.toNat
  let year := ((date >>> 9) &&& 0x7F) + 1980
  let month := (date >>> 5) &&& 0x0F
  let day := date &&& 0x1F
  (year, month, day)

/-- `get_time` -/
def FileInfo.getTime (info : FileInfo) : ℕ × ℕ × ℕ :=
  let time := info.time.toNat
  let hour := (time >>> 11) &&& 0x1F
  let minute := (time >>> 5) &&& 0x3F
  let second := (time &&& 0x1F) * 2
  (hour, minute, second)

/-- Three fields side by side in one number. -/
theorem or_fields {a b c m k : ℕ} (hb : b < 2 ^ m) (hc : c < 2 ^ k) :
    (a <<< (m + k)) ||| (b <<< k) ||| c = (a * 2 ^ m + b) * 2 ^ k + c := by
  have hmid : b <<< k < 2 ^ (m + k) := by
    rw [Nat.shiftLeft_eq, Nat.pow_add]
    exact Nat.mul_lt_mul_of_pos_right hb (Nat.two_pow_pos k)
  have hhigh : (a <<< (m + k)) ||| (b <<< k) = (a * 2 ^ m + b) <<< k := by
    rw [← Nat.shiftLeft_add_eq_or_of_lt hmid]
    simp only [Nat.shiftLeft_eq, Nat.pow_add, Nat.add_mul, Nat.mul_assoc]
  rw [hhigh, ← Nat.shiftLeft_add_eq_or_of_lt hc, Nat.shiftLeft_eq]

section Timestamps

variable (name : List Char) (size cluster : ℕ) (now : DateTime)

theorem getDate_newFile :
    (newFile name size cluster now).getDate = (now.year, now.month, now.day) := by
  have hge := now.year_ge
  have hle := now.year_le
  have hmonth := now.month_le
  have hday := now.day_le
  have hdate : (newFile name size cluster now).date.toNat =
      ((now.year - 1980) * 16 + now.month) * 32 + now.day := by
    have hor := @or_fields (now.year - 1980) now.month now.day 4 5 (by omega) (by omega)
    simp only [newFile, calcTimestamp, BitVec.toNat_ofNat]
    rw [hor]
    omega
  unfold FileInfo.getDate
  rw [hdate]
  simp only [Nat.shiftRight_eq_div_pow, show (0x7F : ℕ) = 2 ^ 7 - 1 from rfl,
    show (0x0F : ℕ) = 2 ^ 4 - 1 from rfl, show (0x1F : ℕ) = 2 ^ 5 - 1 from rfl,
    Nat.and_two_pow_sub_one_eq_mod, Prod.mk.injEq]
  refine ⟨?_, ?_, ?_⟩
  · omega
  · omega
  · omega

/-- The seconds are kept to two. -/
theorem getTime_newFile :
    (newFile name size cluster now).getTime = (now.hour, now.minute, now.second / 2 * 2) := by
  have hhour := now.hour_lt
  have hminute := now.minute_lt
  have hsecond := now.second_lt
  have htime : (newFile name size cluster now).time.toNat =
      (now.hour * 64 + now.minute) * 32 + now.second / 2 := by
    have hor := @or_fields now.hour now.minute (now.second / 2) 6 5 (by omega) (by omega)
    simp only [newFile, calcTimestamp, BitVec.toNat_ofNat]
    rw [hor]
    omega
  unfold FileInfo.getTime
  rw [htime]
  simp only [Nat.shiftRight_eq_div_pow, show (0x3F : ℕ) = 2 ^ 6 - 1 from rfl,
    show (0x1F : ℕ) = 2 ^ 5 - 1 from rfl, Nat.and_two_pow_sub_one_eq_mod, Prod.mk.injEq]
  refine ⟨?_, ?_, ?_⟩
  · omega
  · omega
  · omega

end Timestamps

/-! ## §2  The table -/

/-- A file as its owner sees it. -/
structure StoredFile where
  name : List Char
  content : List Byte
  date : ℕ × ℕ × ℕ
  time : ℕ × ℕ × ℕ
deriving DecidableEq

def StoredFile.clusters (file : StoredFile) : ℕ := clustersOf file.content.length

/-- Even an empty file needs a free cluster to be saved. -/
def StoredFile.need (file : StoredFile) : ℕ := max 1 file.clusters

theorem StoredFile.clusters_le_need (file : StoredFile) : file.clusters ≤ file.need :=
  Nat.le_max_right 1 file.clusters

/-- The file that `save` is to store. -/
def storedFile (path : List Char) (content : List Byte) (now : DateTime) : StoredFile where
  name := rstrip (filename83 path)
  content := content
  date := (now.year, now.month, now.day)
  time := (now.hour, now.minute, now.second / 2 * 2)

/-- The entries of a FAT, less the two reserved ones. -/
def dataClusters : ℕ := fatBytes / 3 * 2 - 2

abbrev FileTable : Type := Shelf StoredFile StoredFile.clusters fileCount dataClusters

/-- The table after a command; none if the command is refused. A name is looked up with all
its blanks, but stored without those at its end. -/
def FileTable.next (table : FileTable) : Command → Option FileTable
  | .save target now =>
      match target.content with
      | none => none
      | some data =>
          let file := storedFile target.path data now
          table.put file file.need file.clusters_le_need
  | .del path => table.take fun file => file.name == filename83 path

theorem FileTable.next_save (table : FileTable) {target : TargetFile} {data : List Byte}
    (hcontent : target.content = some data) (now : DateTime) :
    table.next (.save target now) = table.put (storedFile target.path data now) _
      (storedFile target.path data now).clusters_le_need := by
  simp [FileTable.next, hcontent]

theorem FileTable.next_save_none (table : FileTable) {target : TargetFile}
    (hcontent : target.content = none) (now : DateTime) : table.next (.save target now) = none := by
  simp [FileTable.next, hcontent]

def FileTable.step (table : FileTable) (cmd : Command) : Bool × FileTable :=
  match table.next cmd with
  | some table => (true, table)
  | none => (false, table)

/-- A call of the tool that writes to the image. -/
inductive Call where
  | format
  | command (cmd : Command)
  | write (content : Option (List Byte)) (startSector : ℤ)

/-- What a call makes of the table: the boot sector does not belong to it. -/
def FileTable.call (table : FileTable) : Call → Bool × FileTable
  | .format => (true, Shelf.empty)
  | .command cmd => table.step cmd
  | .write content _ => (content.isSome, table)

/-- A list of calls: which of them succeed, and the table behind them. -/
def FileTable.run : FileTable → List Call → List Bool × FileTable
  | table, [] => ([], table)
  | table, call :: calls =>
      let (done, table) := table.call call
      let (rest, table) := FileTable.run table calls
      (done :: rest, table)

/-! ## §3  Reading the disk -/

/-- The file of a directory entry, its bytes read with the loop of `load`. -/
def readFile (img : Image) (fat : Fat) : Slot → Except PyError (Option StoredFile)
  | .file info => do
      let content ← loadLoop img fat info.cluster.toNat info.size.toNat []
      .ok (some ⟨info.filename, content, info.getDate, info.getTime⟩)
  | _ => .ok none

def readFiles (img : Image) (fat : Fat) : DirInfo → Except PyError (List (Option StoredFile))
  | [] => .ok []
  | slot :: slots => do
      let file ← readFile img fat slot
      let files ← readFiles img fat slots
      .ok (file :: files)

/-- The files on the disk, slot by slot. -/
def files (img : Image) : Except PyError (List (Option StoredFile)) := do
  let dir ← DirInfo.init img
  readFiles img (Fat.init img) dir

section Reading

variable {img : Image} {data : List Byte} {c : ℕ} {cs : List ℕ}

/-- The block of the first cluster. -/
theorem Holds.read_block (h : Holds img (c :: cs) data) :
    img.read (entityAddress + c * clusterBytes) (min data.length clusterBytes) =
      data.take clusterBytes := by
  have hfirst : ∀ j b, j < clusterBytes → data[j]? = some b →
      entityAddress + c * clusterBytes + j < img.size ∧
        img.byte (entityAddress + c * clusterBytes + j) = b := by
    intro j b hj hb
    obtain ⟨c', hc', hsize, hbyte⟩ := h j b hb
    rw [Nat.div_eq_of_lt hj, List.getElem?_cons_zero] at hc'
    cases hc'
    rw [Nat.mod_eq_of_lt hj] at hsize hbyte
    exact ⟨hsize, hbyte⟩
  have hcount : min (min data.length clusterBytes)
      (img.size - (entityAddress + c * clusterBytes)) = min data.length clusterBytes := by
    rcases Nat.eq_zero_or_pos (min data.length clusterBytes) with hzero | hpos
    · rw [hzero, Nat.zero_min]
    · -- the last byte of the block lies in the image
      have hlast : min data.length clusterBytes - 1 < data.length := by omega
      have := (hfirst _ _ (by omega) (List.getElem?_eq_getElem hlast)).1
      omega
  unfold Image.read
  rw [hcount, peek_eq_iff (by rw [List.length_take, Nat.min_comm])]
  intro j b hb
  rw [List.getElem?_take] at hb
  split at hb
  next hj => exact (hfirst j b hj hb).2
  next => cases hb

/-- The blocks behind the first hold the data behind the first block. -/
theorem Holds.tail (h : Holds img (c :: cs) data) : Holds img cs (data.drop clusterBytes) := by
  intro j b hb
  rw [List.getElem?_drop] at hb
  have hpos : 0 < clusterBytes := by decide
  obtain ⟨d, hd, hsize, hbyte⟩ := h _ b hb
  rw [Nat.add_mod_left] at hsize hbyte
  rw [Nat.add_div_left j hpos, List.getElem?_cons_succ] at hd
  exact ⟨d, hd, hsize, hbyte⟩

theorem getNext_init {c : ℕ} (hc : c < 3072) :
    (Fat.init img).getNext c = .ok (entryAt (Fat.init img) c) := by
  have hlt : c < (Fat.init img).length := by rwa [length_init]
  unfold Fat.getNext
  simp [entryAt, List.getD_eq_getElem?_getD, List.getElem?_eq_getElem hlt]

/-- The loop of `load` reads the blocks of a chain one after the other. -/
theorem loadLoop_chain (hchain : IsChain (entryAt (Fat.init img)) 0xFFF (c :: cs))
    (hcells : ∀ d ∈ c :: cs, d < 3072) (hlen : (c :: cs).length = clustersOf data.length)
    (hholds : Holds img (c :: cs) data) (acc : List Byte) :
    loadLoop img (Fat.init img) c data.length acc = .ok (acc ++ data) := by
  induction cs generalizing c data acc with
  | nil =>
      obtain ⟨hpos, hrest⟩ := pos_and_rest_of_cons hlen
      have hshort : data.drop clusterBytes = [] :=
        List.length_eq_zero_iff.mp (clustersOf_eq_zero.mp hrest.symm)
      have hle : data.length ≤ clusterBytes := List.drop_eq_nil_iff.mp hshort
      have hsize : data.length - min data.length clusterBytes = 0 := by omega
      unfold loadLoop
      rw [if_neg (by omega)]
      simp only [hholds.read_block, getNext_init (hcells c List.mem_cons_self), hsize]
      unfold loadLoop
      rw [if_pos rfl, List.take_of_length_le hle]
  | cons d cs ih =>
      obtain ⟨hpos, hrest⟩ := pos_and_rest_of_cons hlen
      have hsize : data.length - min data.length clusterBytes = (data.drop clusterBytes).length := by
        rw [List.length_drop]
        omega
      have hnext : entryAt (Fat.init img) c = d := hchain.1
      have htail := ih hchain.2 (fun e he => hcells e (List.mem_cons_of_mem c he)) hrest
        hholds.tail (acc ++ data.take clusterBytes)
      rw [List.append_assoc, List.take_append_drop] at htail
      unfold loadLoop
      rw [if_neg (by omega)]
      simp only [hholds.read_block, getNext_init (hcells c List.mem_cons_self), hsize, hnext]
      exact htail

theorem FileAt.loadLoop {info : FileInfo} (h : FileAt img info data cs) :
    loadLoop img (Fat.init img) info.cluster.toNat info.size.toNat [] = .ok data := by
  rw [h.size_eq]
  cases cs with
  | nil =>
      have hzero : data.length = 0 := clustersOf_eq_zero.mp h.count.symm
      unfold Fat12Img.loadLoop
      rw [if_pos hzero, List.length_eq_zero_iff.mp hzero]
  | cons c cs =>
      have hne : c :: cs ≠ [] := List.cons_ne_nil c cs
      have hfirst : c = info.cluster.toNat := Option.some.inj (h.first hne)
      rw [← hfirst]
      exact loadLoop_chain (h.linked hne) (fun d hd => (h.cells d hd).2) h.count h.data []

end Reading

/-! ## §4  The disk as a table -/

/-- The file in slot `i` of a volume. -/
def slotFile (saved : ℕ → List Byte) (i : ℕ) : Slot → Option StoredFile
  | .file info => some ⟨info.filename, saved i, info.getDate, info.getTime⟩
  | _ => none

/-- A volume that holds the files of the table, slot by slot. -/
def Represents (img : Image) (table : FileTable) : Prop :=
  ∃ saved dir chain, Volume img saved dir chain ∧ table.slots = dir.mapIdx (slotFile saved)

theorem readFiles_eq {img : Image} {fat : Fat} {dir : DirInfo} {f : ℕ → Slot → Option StoredFile}
    (h : ∀ i s, dir[i]? = some s → readFile img fat s = .ok (f i s)) :
    readFiles img fat dir = .ok (dir.mapIdx f) := by
  induction dir generalizing f with
  | nil => rfl
  | cons s dir ih =>
      have htail : readFiles img fat dir = .ok (dir.mapIdx fun i => f (i + 1)) := by
        apply ih
        intro i t ht
        exact h (i + 1) t (by simpa using ht)
      rw [List.mapIdx_cons, readFiles, h 0 s rfl, Loop.ok_bind, htail]
      rfl

section Slots

variable {saved : ℕ → List Byte}

@[simp] theorem isNone_slotFile (i : ℕ) (s : Slot) : (slotFile saved i s).isNone = s.isFree := by
  cases s with
  | unused => rfl
  | deleted => rfl
  | file info => rfl

@[simp] theorem any_slotFile (key : List Char) (i : ℕ) (s : Slot) :
    (slotFile saved i s).any (fun file => file.name == key) = s.hasName key := by
  cases s with
  | unused => rfl
  | deleted => rfl
  | file info => rfl

/-- The record of a new file, as it is read back. -/
theorem slotFile_newFile (saved : ℕ → List Byte) (i : ℕ) (path : List Char) (size cluster : ℕ)
    (now : DateTime) : slotFile saved i (.file (newFile (filename83 path) size cluster now).stored) =
      some (storedFile path (saved i) now) := by
  have hdate := getDate_newFile (filename83 path) size cluster now
  have htime := getTime_newFile (filename83 path) size cluster now
  simp only [storedFile, ← hdate, ← htime]
  rfl

/-- What the tool writes into a slot is what the table gets there. -/
theorem mapIdx_slotFile_set {dir : DirInfo} {i : ℕ} {s : Slot} {saved' : ℕ → List Byte}
    {file : Option StoredFile} (hself : slotFile saved' i s = file)
    (hothers : ∀ j, j ≠ i → saved' j = saved j) :
    (dir.mapIdx (slotFile saved)).set i file = (dir.set i s).mapIdx (slotFile saved') := by
  have hslot : ∀ j t, j ≠ i → slotFile saved j t = slotFile saved' j t := by
    intro j t hj
    unfold slotFile
    rw [hothers j hj]
  apply List.ext_getElem?
  intro j
  by_cases hj : j = i
  · subst hj
    by_cases hlt : j < dir.length
    · simp [hlt, hself]
    · simp [hlt]
  · simp only [List.getElem?_set_ne (Ne.symm hj), List.getElem?_mapIdx]
    cases dir[j]? with
    | none => rfl
    | some t => simp [hslot j t hj]

end Slots

section Represents

variable {img : Image} {saved : ℕ → List Byte} {dir : DirInfo} {chain : ℕ → List ℕ}
  {table : FileTable} {target : TargetFile} {now : DateTime} {path : List Char} {data : List Byte}

theorem Volume.files_eq (h : Volume img saved dir chain) :
    files img = .ok (dir.mapIdx (slotFile saved)) := by
  unfold files
  rw [h.dir_eq, Loop.ok_bind]
  apply readFiles_eq
  intro i s hs
  cases s with
  | unused => rfl
  | deleted => rfl
  | file info => simp [readFile, (h.fileAt hs).loadLoop, slotFile]

/-- **Reading the disk** gives the table. -/
theorem Represents.files (h : Represents img table) : files img = .ok table.slots := by
  obtain ⟨saved, dir, chain, hvol, hslots⟩ := h
  rw [hvol.files_eq, hslots]

theorem represents_format : Represents formatDisk Shelf.empty := by
  refine ⟨_, _, _, volume_format, ?_⟩
  apply List.ext_getElem?
  intro i
  by_cases hi : i < fileCount
  · simp [Shelf.empty, hi, slotFile]
  · simp [Shelf.empty, hi]

theorem totalWeight_eq_sum {α : Type*} {weight : α → ℕ} (slots : List (Option α)) :
    totalWeight weight slots = (slots.map (slotWeight weight)).sum := by
  induction slots with
  | nil => rfl
  | cons s slots ih => simp [ih]

/-- The table weighs what the files of the disk take. -/
theorem load_eq_used (hlen : dir.length = fileCount)
    (hslots : table.slots = dir.mapIdx (slotFile saved)) : table.load = used saved dir := by
  unfold Shelf.load used
  rw [totalWeight_eq_sum, hslots]
  apply congrArg List.sum
  apply List.ext_getElem?
  intro i
  by_cases hi : i < fileCount
  · have hlt : i < dir.length := by rwa [hlen]
    have hget := List.getElem?_eq_getElem hlt
    simp only [List.getElem?_map, List.getElem?_mapIdx, hget, List.getElem?_range hi, slotClusters,
      Option.map_some, Option.some.injEq]
    cases dir[i] with
    | unused => rfl
    | deleted => rfl
    | file info => rfl
  · have hle : fileCount ≤ i := Nat.le_of_not_lt hi
    simp [hlen, hle]

variable (h : Volume img saved dir chain) (hslots : table.slots = dir.mapIdx (slotFile saved))

include hslots

theorem firstFree_eq : table.firstFree = dir.findFreeIndex := by
  unfold Shelf.firstFree DirInfo.findFreeIndex
  rw [hslots]
  apply findIdx?_mapIdx
  simp

theorem firstWith_eq (key : List Char) :
    table.firstWith (fun file => file.name == key) = dir.find key := by
  unfold Shelf.firstWith DirInfo.find
  rw [hslots]
  apply findIdx?_mapIdx
  simp

include h

/-- The disk accepts a file exactly if the table does. -/
theorem Volume.accepts_iff (path : List Char) (data : List Byte) (now : DateTime) :
    (∃ img', saveCommand img ⟨path, some data⟩ now = .ok (true, img')) ↔
      (∃ i, table.firstFree = some i) ∧
        table.load + (storedFile path data now).need ≤ dataClusters := by
  have hspace := h.space_law
  have hdata : dataClusters = 3070 := by decide
  have hneed : (storedFile path data now).need = max 1 (clustersOf data.length) := rfl
  rw [saveCommand_true_iff h.dir_eq, firstFree_eq hslots, load_eq_used h.length_dir hslots, hneed,
    hdata]
  constructor
  · rintro ⟨hle, hne, hslot⟩
    have hpos := List.length_pos_iff.mpr hne
    exact ⟨hslot, by omega⟩
  · rintro ⟨hslot, hroom⟩
    exact ⟨by omega, List.ne_nil_of_length_pos (by omega), hslot⟩

/-- A refused `save` leaves the table alone. -/
theorem Volume.next_of_refused (hcontent : target.content = some data)
    (hrefused : saveCommand img target now = .ok (false, img)) :
    table.next (.save target now) = none := by
  rw [table.next_save hcontent, Shelf.put_eq_none_iff]
  obtain ⟨path, content⟩ := target
  cases hcontent
  by_contra hnot
  simp only [not_or, Nat.not_lt] at hnot
  obtain ⟨img', hrun⟩ := (h.accepts_iff hslots path data now).mpr
    ⟨Option.ne_none_iff_exists'.mp hnot.1, hnot.2⟩
  rw [hrefused] at hrun
  cases hrun

/-- A `save` that goes through puts the file into the table. -/
theorem Volume.next_of_saves {i : ℕ} {info : FileInfo} (hs : Saves img target now dir i info data) :
    ∃ table' : FileTable, table.next (.save target now) = some table' ∧
      table'.slots = (dir.set i (.file info.stored)).mapIdx
        (slotFile (Function.update saved i data)) := by
  have hrun := saveCommand_of_saves hs
  have hcontent := hs.content
  have hslot := hs.slot
  obtain ⟨start, -, rfl⟩ := hs.start
  have hput := table.next_save hcontent now
  obtain ⟨path, content⟩ := target
  cases hcontent
  obtain ⟨-, hroom⟩ := (h.accepts_iff hslots path data now).mp ⟨_, hrun⟩
  have hnew := slotFile_newFile (Function.update saved i data) i path data.length start now
  rw [Function.update_self] at hnew
  have hset := @mapIdx_slotFile_set saved dir i _ _ _ hnew
    fun j hj => Function.update_of_ne hj data saved
  rw [hput]
  cases hnext : table.put (storedFile path data now) _ (StoredFile.clusters_le_need _) with
  | none =>
      rcases Shelf.put_eq_none_iff.mp hnext with hfull | hheavy
      · rw [firstFree_eq hslots, hslot] at hfull
        cases hfull
      · exact absurd hroom (Nat.not_le_of_lt hheavy)
  | some table' =>
      obtain ⟨j, hj, -, hslots'⟩ := Shelf.put_eq_some_iff.mp hnext
      rw [firstFree_eq hslots, hslot] at hj
      cases hj
      refine ⟨table', rfl, ?_⟩
      rw [hslots', hslots, hset]

end Represents

/-! ## §5  Runs -/

/-- An exception of a command or of `seek`. -/
inductive CallError where
  | command (e : PyError)
  | write (e : SeekError)

def Call.run (img : Image) : Call → Except CallError (Bool × Image)
  | .format => .ok (true, formatDisk)
  | .command cmd => (cmd.run img).mapError .command
  | .write content startSector => (writeData img content startSector).mapError .write

/-- A list of calls: which of them succeed, and the image behind them. An exception ends it. -/
def runCalls : Image → List Call → Except CallError (List Bool × Image)
  | img, [] => .ok ([], img)
  | img, call :: calls => do
      let (done, img) ← call.run img
      let (rest, img) ← runCalls img calls
      .ok (done :: rest, img)

/-- The names that are saved are clean, and `write` only writes the boot sector. -/
def Call.Admitted : Call → Prop
  | .format => True
  | .command cmd => ∀ img, CleanSave img cmd
  | .write content startSector =>
      startSector = 0 ∧ ∀ data, content = some data → data.length ≤ sectorSize

section Runs

variable {img : Image} {table : FileTable}

/-- **A command on the disk is that command on the table.** -/
theorem Represents.step (h : Represents img table) {cmd : Command} (hclean : CleanSave img cmd) :
    ∃ img', cmd.run img = .ok ((table.step cmd).1, img') ∧ Represents img' (table.step cmd).2 := by
  obtain ⟨saved, dir, chain, hvol, hslots⟩ := id h
  cases cmd with
  | save target now =>
      rcases save_cases target now hvol.dir_eq with hrefused | ⟨i, info, data, hs⟩
      · have hrun : saveCommand img target now = .ok (false, img) := by
          unfold saveCommand
          rw [hvol.dir_eq, Loop.ok_bind, hrefused]
          rfl
        have hnone : table.next (.save target now) = none := by
          cases hcontent : target.content with
          | none => exact table.next_save_none hcontent now
          | some data => exact hvol.next_of_refused hslots hcontent hrun
        unfold FileTable.step
        rw [hnone]
        exact ⟨img, hrun, h⟩
      · obtain ⟨table', hnext, hslots'⟩ := hvol.next_of_saves hslots hs
        unfold FileTable.step
        rw [hnext]
        exact ⟨_, saveCommand_of_saves hs, _, _, _, hvol.save hclean hs, hslots'⟩
  | del path =>
      unfold FileTable.step
      cases hfind : dir.find (filename83 path) with
      | none =>
          have hnone : table.next (.del path) = none := by
            apply Shelf.take_eq_none_iff.mpr
            rw [firstWith_eq hslots, hfind]
          have hrun : delete img path = .ok (false, img) := by
            unfold delete DirInfo.delFile
            rw [hvol.dir_eq, Loop.ok_bind]
            simp only [hfind]
          rw [hnone]
          exact ⟨img, hrun, h⟩
      | some i =>
          obtain ⟨⟨info, hfile, -⟩, -⟩ := find_eq_some.mp hfind
          have hrun := delete_of_find hvol.dir_eq hfind hfile (hvol.delChain hfile)
          have hset := @mapIdx_slotFile_set saved dir i .deleted saved none rfl fun _ _ => rfl
          cases hnext : table.next (.del path) with
          | none =>
              have hnowhere := Shelf.take_eq_none_iff.mp hnext
              rw [firstWith_eq hslots, hfind] at hnowhere
              cases hnowhere
          | some table' =>
              obtain ⟨j, hj, hslots'⟩ := Shelf.take_eq_some_iff.mp hnext
              rw [firstWith_eq hslots, hfind] at hj
              cases hj
              refine ⟨_, hrun, saved, _, _, hvol.del hfile, ?_⟩
              rw [hslots', hslots, hset]

theorem Represents.write_front (h : Represents img table) {data : List Byte}
    (hlen : data.length ≤ sectorSize) : Represents (img.write 0 data) table := by
  obtain ⟨saved, dir, chain, hvol, hslots⟩ := h
  refine ⟨saved, dir, chain, hvol.write_front ?_, hslots⟩
  rwa [Nat.zero_add]

theorem Represents.call (h : Represents img table) {call : Call} (hadmitted : call.Admitted) :
    ∃ img', call.run img = .ok ((table.call call).1, img') ∧
      Represents img' (table.call call).2 := by
  cases call with
  | format => exact ⟨formatDisk, rfl, represents_format⟩
  | command cmd =>
      obtain ⟨img', hrun, h'⟩ := h.step (hadmitted img)
      refine ⟨img', ?_, h'⟩
      unfold Call.run
      simp only [hrun]
      rfl
  | write content startSector =>
      obtain ⟨rfl, hlen⟩ := hadmitted
      cases content with
      | none => exact ⟨img, rfl, h⟩
      | some data =>
          have hrun := writeData_eq img data 0
          rw [Nat.zero_mul] at hrun
          refine ⟨_, ?_, h.write_front (hlen data rfl)⟩
          unfold Call.run
          simp only [Nat.cast_zero] at hrun
          simp only [hrun]
          rfl

theorem Represents.run (h : Represents img table) {calls : List Call}
    (hadmitted : ∀ call ∈ calls, call.Admitted) :
    ∃ img', runCalls img calls = .ok ((table.run calls).1, img') ∧
      Represents img' (table.run calls).2 := by
  induction calls generalizing img table with
  | nil => exact ⟨img, rfl, h⟩
  | cons call calls ih =>
      obtain ⟨img', hrun, h'⟩ := h.call (hadmitted call List.mem_cons_self)
      obtain ⟨img'', hrest, h''⟩ := ih h' fun c hc => hadmitted c (List.mem_cons_of_mem call hc)
      refine ⟨img'', ?_, h''⟩
      rw [runCalls, hrun, Loop.ok_bind]
      simp only [hrest, Loop.ok_bind]
      rfl

/-- **The disk is a table of files.** Behind `format`, every list of admitted calls runs without
an exception, each call succeeds exactly if it does on the table, and the files that the directory
and the chains decode to are those of the table. -/
theorem disk_refines_table (calls : List Call) (hadmitted : ∀ call ∈ calls, call.Admitted) :
    ∃ img, runCalls formatDisk calls = .ok ((FileTable.run Shelf.empty calls).1, img) ∧
      files img = .ok (FileTable.run Shelf.empty calls).2.slots := by
  obtain ⟨img, hrun, h⟩ := represents_format.run hadmitted
  exact ⟨img, hrun, h.files⟩

theorem admitted_saveReadme : (Call.command saveReadme).Admitted := fun _ =>
  PrintableSave.cleanSave (show Printable ['R', 'E', 'A', 'D', 'M', 'E'] by decide)

/-- A boot sector and one file. -/
theorem disk_refines_table_readme :
    ∃ img, runCalls formatDisk [.write (some [0xEB]) 0, .command saveReadme] =
        .ok ((FileTable.run Shelf.empty [.write (some [0xEB]) 0, .command saveReadme]).1, img) ∧
      files img =
        .ok (FileTable.run Shelf.empty [.write (some [0xEB]) 0, .command saveReadme]).2.slots :=
  disk_refines_table [.write (some [0xEB]) 0, .command saveReadme] (by
    simp only [List.mem_cons, List.not_mem_nil, or_false, forall_eq_or_imp, forall_eq]
    refine ⟨⟨rfl, ?_⟩, admitted_saveReadme⟩
    rintro data ⟨⟩
    decide)

/-! ## §6  Files that stay -/

/-- The call does not remove files of this name. -/
def Call.Spares (name : List Char) : Call → Prop
  | .format => False
  | .command (.del path) => filename83 path ≠ name
  | _ => True

theorem FileTable.mem_step_of_mem {cmd : Command} {file : StoredFile} (hmem : some file ∈ table.slots)
    (hspares : (Call.command cmd).Spares file.name) : some file ∈ (table.step cmd).2.slots := by
  unfold FileTable.step
  cases hnext : table.next cmd with
  | none => exact hmem
  | some table' =>
      cases cmd with
      | save target now =>
          cases hcontent : target.content with
          | none =>
              rw [table.next_save_none hcontent] at hnext
              cases hnext
          | some data =>
              rw [table.next_save hcontent] at hnext
              exact Shelf.mem_put_of_mem hnext hmem
      | del path =>
          apply Shelf.mem_take_of_mem hnext hmem
          simpa using Ne.symm hspares

theorem FileTable.mem_run_of_mem {calls : List Call} {file : StoredFile}
    (hmem : some file ∈ table.slots) (hspares : ∀ call ∈ calls, call.Spares file.name) :
    some file ∈ (table.run calls).2.slots := by
  induction calls generalizing table with
  | nil => exact hmem
  | cons call calls ih =>
      apply ih
      · have hcall := hspares call List.mem_cons_self
        cases call with
        | format => exact absurd hcall id
        | command cmd => exact FileTable.mem_step_of_mem hmem hcall
        | write content startSector => exact hmem
      · intro c hc
        exact hspares c (List.mem_cons_of_mem call hc)

/-- **No file is lost.** A file that was saved at any point of a run of admitted calls is among the
files on the disk, with its bytes and its time, behind all admitted calls that neither format the
disk nor delete its name. -/
theorem saved_file_stays {before after : List Call} {target : TargetFile} {now : DateTime}
    {data : List Byte} {img' : Image} {results : List Bool}
    (hbefore : ∀ call ∈ before, call.Admitted) (hafter : ∀ call ∈ after, call.Admitted)
    (hclean : CleanName target.path) (hrun : runCalls formatDisk before = .ok (results, img))
    (hcontent : target.content = some data)
    (hsaved : saveCommand img target now = .ok (true, img'))
    (hspares : ∀ call ∈ after, call.Spares (rstrip (filename83 target.path))) :
    ∃ results' img'' slots, runCalls img' after = .ok (results', img'') ∧
      files img'' = .ok slots ∧ some (storedFile target.path data now) ∈ slots := by
  -- the table in front of the `save`
  obtain ⟨img₁, hrun₁, h₁⟩ := represents_format.run hbefore
  rw [hrun] at hrun₁
  cases hrun₁
  -- the table with the file
  obtain ⟨img₂, hrun₂, h₂⟩ := @Represents.step _ _ h₁ (.save target now) hclean
  obtain ⟨hdone, rfl⟩ := Prod.mk.inj (Except.ok.inj (hsaved.symm.trans hrun₂))
  have hmem : some (storedFile target.path data now) ∈
      ((FileTable.run Shelf.empty before).2.step (.save target now)).2.slots := by
    revert hdone
    unfold FileTable.step
    cases hnext : FileTable.next _ (.save target now) with
    | none => intro hdone; cases hdone
    | some table' =>
        intro _
        rw [FileTable.next_save _ hcontent] at hnext
        exact Shelf.mem_of_put hnext
  -- and behind the other calls
  obtain ⟨img₃, hrun₃, h₃⟩ := h₂.run hafter
  exact ⟨_, img₃, _, hrun₃, h₃.files, FileTable.mem_run_of_mem hmem hspares⟩

/-- A file that stays while another one is saved and the boot sector written. -/
theorem saved_file_stays_fileA : ∃ img', saveCommand formatDisk fileA noon = .ok (true, img') ∧
    ∃ results' img'' slots,
      runCalls img' [.command saveReadme, .write none 0] = .ok (results', img'') ∧
        files img'' = .ok slots ∧ some (storedFile pathA [0x4B] noon) ∈ slots := by
  have hsaved := saveCommand_of_saves (saves_on_formatted pathA)
  refine ⟨_, hsaved, @saved_file_stays formatDisk [] [.command saveReadme, .write none 0] fileA noon
    [0x4B] _ [] ?_ ?_ ?_ rfl rfl hsaved ?_⟩
  · simp
  · simp only [List.mem_cons, List.not_mem_nil, or_false, forall_eq_or_imp, forall_eq]
    exact ⟨admitted_saveReadme, rfl, nofun⟩
  · exact Printable.cleanName (show Printable pathA by decide)
  · simp [Call.Spares, saveReadme]

end Runs

end Knos.Fat12Img
