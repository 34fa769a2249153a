import Knos.Lib.Fat12
import Knos.Lib.PyText

/-!
# `tools/fat12img.py`

The commands of the image tool as the script computes them: `format`, `save`, `del` and
`load`. Each command but the first reads FAT and directory out of the image file, works
on the two lists and writes them back; `save` writes the data of a file on its way.

An image is a file of at least `FD_SIZE` bytes, which is what `format` leaves and no
command undoes. An exception ends a command before it has written anything, so it is an
error without an image. Usage messages and exit codes are left out.
-/

namespace Knos.Fat12Img

open Knos.Bytes Knos.PyText

/-! ## §1  Constants and names -/

def fdSize : ℕ := 1474560
def fat1Address : ℕ := 0x0200
def fatBytes : ℕ := 0x1200
def fat2Address : ℕ := 0x1400
def dirAddress : ℕ := 0x2600
def entityAddress : ℕ := 0x3e00
def fileinfoBytes : ℕ := 32
def fileCount : ℕ := 224
def clusterBytes : ℕ := 512
def fileNormal : Byte := 0x20

def setstrlen (s : List Char) (length : ℕ) (pad : Char) : List Char :=
  (ljust s length pad).take length

def filename83 (filename : List Char) : List Char :=
  let (name, ext) := splitext (basename filename)
  let fname := setstrlen name 8 ' '
  let ext := setstrlen (ext.drop 1) 3 ' '
  fname ++ ext

/-- A local time whose year fits the date field. -/
structure DateTime where
  year : ℕ
  month : ℕ
  day : ℕ
  hour : ℕ
  minute : ℕ
  second : ℕ
  year_ge : 1980 ≤ year
  year_le : year ≤ 2107
  month_le : month ≤ 12
  day_le : day ≤ 31
  hour_lt : hour < 24
  minute_lt : minute < 60
  second_lt : second < 60

/-- The date and the time as they are stored. -/
def calcTimestamp (time : DateTime) : BitVec 16 × BitVec 16 :=
  let d := ((time.year - 1980) <<< 9) ||| (time.month <<< 5) ||| time.day
  let t := (time.hour <<< 11) ||| (time.minute <<< 5) ||| (time.second / 2)
  (BitVec.ofNat 16 d, BitVec.ofNat 16 t)

/-- The exceptions that end a command. -/
inductive PyError where
  | unicodeDecodeError
  | indexError (index : ℕ)
  | attributeError
deriving DecidableEq, Repr

/-! ## §2  Image files -/

/-- The bytes of a file of `size` bytes; there is nothing behind its end. -/
structure Image where
  size : ℕ
  byte : Store Byte
  fits : fdSize ≤ size
  blank : ∀ a, size ≤ a → byte a = 0

/-- `f.seek(pos); f.read(count)` -/
def Image.read (img : Image) (pos count : ℕ) : List Byte :=
  peek img.byte pos (min count (img.size - pos))

/-- `f.seek(pos); f.write(data)`; a gap behind the end of the file reads as zeros. -/
def Image.write (img : Image) (pos : ℕ) (data : List Byte) : Image where
  size := if data = [] then img.size else max img.size (pos + data.length)
  byte := poke img.byte pos data
  fits := by
    have := img.fits
    split
    · exact this
    · omega
  blank := by
    intro a ha
    split at ha
    next h =>
      rw [h, poke_nil]
      exact img.blank a ha
    next h =>
      rw [poke_outside _ (Or.inr (by omega))]
      exact img.blank a (by omega)

/-- `f.seek(ENTITY_ADDRESS + cluster_no * CLUSTER_BYTES); f.write(data[:CLUSTER_BYTES])` -/
def Image.writeCluster (img : Image) (clusterNo : ℕ) (data : List Byte) : Image :=
  img.write (entityAddress + clusterNo * clusterBytes) (data.take clusterBytes)

def zeroImage : Image where
  size := fdSize
  byte := fun _ => 0
  fits := Nat.le_refl fdSize
  blank := fun _ _ => rfl

def formatDisk : Image :=
  (zeroImage.write fat1Address [0xF0, 0xFF, 0xFF]).write fat2Address [0xF0, 0xFF, 0xFF]

/-! ## §3  `Fat` -/

abbrev Fat : Type := List ℕ

def unpackFat : List Byte → Fat
  | b₀ :: b₁ :: b₂ :: data =>
      let n₁ := b₀.toNat ||| ((b₁.toNat &&& 0x0F) <<< 8)
      let n₂ := (b₁.toNat >>> 4) ||| (b₂.toNat <<< 4)
      n₁ :: n₂ :: unpackFat data
  | _ => []

/-- `Fat.__init__` -/
@[irreducible] def Fat.init (img : Image) : Fat := unpackFat (img.read fat1Address fatBytes)

/-- The `bytearray` that `Fat.write` fills; the entries have 12 bits. -/
def packFat : Fat → List Byte
  | n₁ :: n₂ :: fat =>
      BitVec.ofNat 8 (n₁ &&& 0xFF) ::
        BitVec.ofNat 8 (((n₂ &&& 0x0F) <<< 4) ||| (n₁ >>> 8)) ::
        BitVec.ofNat 8 (n₂ >>> 4) :: packFat fat
  | _ => []

/-- `Fat.write` -/
def Image.writeFat (img : Image) (fat : Fat) : Image :=
  (img.write fat1Address (packFat fat)).write fat2Address (packFat fat)

/-- The loop of `have_space` from index `i` on, with `start` and `n` as they are there. -/
def haveSpaceFrom (clusterCount : ℕ) : ℕ → Option ℕ → ℕ → Fat → Option ℕ
  | _, _, _, [] => none
  | i, start, n, x :: fat =>
      if x = 0 then
        let start := start.getD i
        if clusterCount ≤ n + 1 then some start
        else haveSpaceFrom clusterCount (i + 1) (some start) (n + 1) fat
      else haveSpaceFrom clusterCount (i + 1) start n fat

/-- `Fat.have_space`; none for `False`. -/
def Fat.haveSpace (fat : Fat) (clusterCount : ℕ) : Option ℕ :=
  haveSpaceFrom clusterCount 0 none 0 fat

/-- `Fat.find_free_cluster` -/
def Fat.findFreeCluster (fat : Fat) (start : ℕ) : Option ℕ :=
  (List.range' start (fat.length - start)).find? fun i => fat[i]? == some 0

/-- `Fat.put_next` -/
def Fat.putNext (fat : Fat) (cluster value : ℕ) : Fat := fat.set cluster value

/-- `Fat.get_next` -/
def Fat.getNext (fat : Fat) (cluster : ℕ) : Except PyError ℕ :=
  match fat[cluster]? with
  | some next => .ok next
  | none => .error (.indexError cluster)

/-- The loop of `del_chain`, `no` turns at most. -/
def delChainLoop : ℕ → ℕ → Fat → Except PyError Fat
  | 0, _, fat => .ok fat
  | no + 1, cluster, fat => do
      let nextCluster ← fat.getNext cluster
      let fat := fat.set cluster 0
      if 0xFF8 ≤ nextCluster then .ok fat else delChainLoop no nextCluster fat

/-- `(size + CLUSTER_BYTES - 1) // CLUSTER_BYTES` -/
def clustersOf (size : ℕ) : ℕ := (size + clusterBytes - 1) / clusterBytes

/-- `Fat.del_chain` -/
def Fat.delChain (fat : Fat) (cluster size : ℕ) : Except PyError Fat :=
  delChainLoop (clustersOf size) cluster fat

/-! ## §4  `FileInfo` and `DirInfo` -/

structure FileInfo where
  filename : List Char
  type : Byte
  time : BitVec 16
  date : BitVec 16
  cluster : BitVec 16
  size : BitVec 32
deriving DecidableEq

def FileInfo.pack (info : FileInfo) : List Byte :=
  encode (ljust info.filename 11 ' ') ++
    (info.type :: List.replicate 10 0 ++ leBytes 2 info.time.toNat ++
      leBytes 2 info.date.toNat ++ leBytes 2 info.cluster.toNat ++ leBytes 4 info.size.toNat)

/-- An element of `fileinfos`: `None`, `False` or a file. -/
inductive Slot where
  | unused
  | deleted
  | file (info : FileInfo)
deriving DecidableEq

/-- `not fileinfo` -/
def Slot.isFree : Slot → Bool
  | .file _ => false
  | _ => true

/-- The file of a slot has this name. -/
def Slot.hasName (filename : List Char) : Slot → Bool
  | .file info => info.filename == filename
  | _ => false

/-- One directory entry; `struct.unpack` skips the bytes 12 to 21. -/
def readSlot (bin : List Byte) : Except PyError Slot :=
  match bin with
  | [] => .ok .unused
  | b :: _ =>
      if b = 0 then .ok .unused
      else if b = 0xE5 then .ok .deleted
      else
        match decode (bin.take 11) with
        | none => .error .unicodeDecodeError
        | some filename =>
            .ok (.file {
              filename := rstrip filename
              type := bin.getD 11 0
              time := BitVec.ofNat 16 (leNat ((bin.drop 22).take 2))
              date := BitVec.ofNat 16 (leNat ((bin.drop 24).take 2))
              cluster := BitVec.ofNat 16 (leNat ((bin.drop 26).take 2))
              size := BitVec.ofNat 32 (leNat ((bin.drop 28).take 4)) })

abbrev DirInfo : Type := List Slot

/-- `count` entries, read one after the other from `pos` on. -/
def readSlots (img : Image) : ℕ → ℕ → Except PyError DirInfo
  | _, 0 => .ok []
  | pos, count + 1 => do
      let slot ← readSlot (img.read pos fileinfoBytes)
      let slots ← readSlots img (pos + fileinfoBytes) count
      .ok (slot :: slots)

/-- `DirInfo(image_fn, DIR_ADDRESS, FILE_COUNT)` -/
@[irreducible] def DirInfo.init (img : Image) : Except PyError DirInfo := readSlots img dirAddress fileCount

/-- The entries that `DirInfo.write` writes one after the other, up to the first `None`. -/
def writeSlots (img : Image) (pos : ℕ) : DirInfo → Image
  | [] => img
  | .unused :: _ => img
  | .deleted :: slots =>
      let bin := 0xE5 :: List.replicate (fileinfoBytes - 1) 0
      writeSlots (img.write pos bin) (pos + bin.length) slots
  | .file info :: slots =>
      let bin := info.pack
      writeSlots (img.write pos bin) (pos + bin.length) slots

/-- `DirInfo.write` -/
def Image.writeDir (img : Image) (dir : DirInfo) : Image := writeSlots img dirAddress dir

/-- `DirInfo.find_free_index` -/
def DirInfo.findFreeIndex (dir : DirInfo) : Option ℕ := dir.findIdx? Slot.isFree

/-- The entry that `DirInfo.add` puts into the directory. -/
def newFile (filename : List Char) (size cluster : ℕ) (now : DateTime) : FileInfo where
  filename := filename
  type := fileNormal
  time := (calcTimestamp now).2
  date := (calcTimestamp now).1
  cluster := BitVec.ofNat 16 cluster
  size := BitVec.ofNat 32 size

/-- `DirInfo.add` -/
def DirInfo.add (dir : DirInfo) (index : ℕ) (filename : List Char) (size cluster : ℕ)
    (now : DateTime) : DirInfo :=
  dir.set index (.file (newFile filename size cluster now))

/-- `DirInfo.find`: an index, none for `False`. -/
def DirInfo.find (dir : DirInfo) (filename : List Char) : Option ℕ :=
  dir.findIdx? (Slot.hasName filename)

/-- `DirInfo.del_file`: the cluster and the size, and the directory without the file. -/
def DirInfo.delFile (dir : DirInfo) (filename : List Char) : Option (ℕ × ℕ) × DirInfo :=
  match dir.find filename with
  | none => (none, dir)
  | some index =>
      match dir[index]? with
      | some (.file info) =>
          (some (info.cluster.toNat, info.size.toNat), dir.set index .deleted)
      | _ => (none, dir)

/-! ## §5  The commands -/

/-- The file that a command names, with its bytes if it exists. -/
structure TargetFile where
  path : List Char
  content : Option (List Byte)

/-- `if prev_cluster >= 0: fat.put_next(prev_cluster, cluster)` -/
def putAfter (prevCluster : Option ℕ) (fat : Fat) (cluster : ℕ) : Fat :=
  match prevCluster with
  | some prev => fat.putNext prev cluster
  | none => fat

/-- The loop of `save` with `size` bytes to go: whether it found a cluster for each
block, the FAT and the image. -/
def saveLoop (prevCluster : Option ℕ) (data : List Byte) (size : ℕ) (fat : Fat) (img : Image) :
    Bool × Fat × Image :=
  if size = 0 then (true, fat, img)
  else
    match fat.findFreeCluster (prevCluster.elim 0 (· + 1)) with
    | none => (false, fat, img)
    | some cluster =>
        let fat := putAfter prevCluster fat cluster
        let img := img.writeCluster cluster (data.take clusterBytes)
        let size' := size - clusterBytes
        let fat := if size' = 0 then fat.putNext cluster 0xFFF else fat
        saveLoop (some cluster) (data.drop clusterBytes) size' fat img
termination_by size
decreasing_by
  have : 0 < clusterBytes := by decide
  omega

/-- `save`; FAT and directory are the lists that the command has loaded. -/
def save (img : Image) (target : TargetFile) (now : DateTime) (fat : Fat) (dir : DirInfo) :
    Bool × Image × Fat × DirInfo :=
  match target.content with
  | none => (false, img, fat, dir)
  | some data =>
      let size := data.length
      match fat.haveSpace (clustersOf size) with
      | none => (false, img, fat, dir)
      | some startCluster =>
          match dir.findFreeIndex with
          | none => (false, img, fat, dir)
          | some fileIndex =>
              let dir := dir.add fileIndex (filename83 target.path) size startCluster now
              let (done, fat, img) := saveLoop none data size fat img
              (done, img, fat, dir)

/-- The command `save`: whether it succeeds, and the image. -/
def saveCommand (img : Image) (target : TargetFile) (now : DateTime) :
    Except PyError (Bool × Image) := do
  let fat := Fat.init img
  let dir ← DirInfo.init img
  let (done, img, fat, dir) := save img target now fat dir
  if done then .ok (true, (img.writeDir dir).writeFat fat) else .ok (false, img)

/-- `delete` -/
def delete (img : Image) (path : List Char) : Except PyError (Bool × Image) := do
  let dir ← DirInfo.init img
  match dir.delFile (filename83 path) with
  | (none, _) => .ok (false, img)
  | (some (cluster, size), dir) => do
      let fat ← (Fat.init img).delChain cluster size
      .ok (true, (img.writeDir dir).writeFat fat)

/-- The loop of `load` with `size` bytes to go. -/
def loadLoop (img : Image) (fat : Fat) (cluster size : ℕ) (data : List Byte) :
    Except PyError (List Byte) :=
  if size = 0 then .ok data
  else
    let readSize := min size clusterBytes
    let data := data ++ img.read (entityAddress + cluster * clusterBytes) readSize
    match fat.getNext cluster with
    | .error e => .error e
    | .ok next => loadLoop img fat next (size - readSize) data
termination_by size
decreasing_by
  have : 0 < clusterBytes := by decide
  omega

/-- An attribute of an `int`: there is none of that name. -/
def intAttribute (_index : ℕ) : Except PyError ℕ := .error .attributeError

/-- `load`: the bytes written to the target file, none if it returns `False`. What
`find` returns, and `load` takes for a `FileInfo`, is an index. -/
def load (img : Image) (path : List Char) (fat : Fat) : Except PyError (Option (List Byte)) := do
  let dir ← DirInfo.init img
  match dir.find (filename83 path) with
  | none => .ok none
  | some fileInfo => do
      let cluster ← intAttribute fileInfo
      let size ← intAttribute fileInfo
      let data ← loadLoop img fat cluster size []
      .ok (some data)

/-- The command `load`. -/
def loadCommand (img : Image) (path : List Char) : Except PyError (Option (List Byte)) :=
  load img path (Fat.init img)

end Knos.Fat12Img
