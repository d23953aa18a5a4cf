import FreeDos32.Fat.Buffer

namespace FreeDos32.Fat

abbrev SectorData := ℕ → UInt8

/-- The 32 bytes of a directory entry; indices from 32 on are not used. -/
abbrev Direntry := ℕ → UInt8

def get16 (de : Direntry) (o : ℕ) : ℕ := (de o).toNat + 256 * (de (o + 1)).toNat

def get32 (de : Direntry) (o : ℕ) : ℕ := get16 de o + 65536 * get16 de (o + 2)

def overlay (o : ℕ) (bytes : List UInt8) (d : ℕ → UInt8) : ℕ → UInt8 := fun i =>
  if o ≤ i ∧ i < o + bytes.length then bytes.getD (i - o) 0 else d i

def le16 (n : ℕ) : List UInt8 := [UInt8.ofNat n, UInt8.ofNat (n / 256)]

def le32 (n : ℕ) : List UInt8 := le16 n ++ le16 (n / 65536)

namespace Direntry

def ofBytes (bytes : List UInt8) : Direntry := fun i => bytes.getD i 0

def toBytes (de : Direntry) : List UInt8 := (List.range 32).map de

def name (de : Direntry) : List UInt8 := (List.range 11).map de

def attr (de : Direntry) : UInt8 := de 11

def firstCluster (de : Direntry) : ℕ := get16 de 20 * 65536 + get16 de 26

def fileSize (de : Direntry) : ℕ := get32 de 28

def setName (name : List UInt8) (de : Direntry) : Direntry := overlay 0 name de

def setAttr (a : UInt8) (de : Direntry) : Direntry := overlay 11 [a] de

def setNtCase (x : UInt8) (de : Direntry) : Direntry := overlay 12 [x] de

def setCreTimeHund (x : UInt8) (de : Direntry) : Direntry := overlay 13 [x] de

def setCreTime (x : ℕ) (de : Direntry) : Direntry := overlay 14 (le16 x) de

def setCreDate (x : ℕ) (de : Direntry) : Direntry := overlay 16 (le16 x) de

def setAccDate (x : ℕ) (de : Direntry) : Direntry := overlay 18 (le16 x) de

def setFirstCluster (x : ℕ) (de : Direntry) : Direntry :=
  overlay 26 (le16 x) (overlay 20 (le16 (x / 65536)) de)

def setModTime (x : ℕ) (de : Direntry) : Direntry := overlay 22 (le16 x) de

def setModDate (x : ℕ) (de : Direntry) : Direntry := overlay 24 (le16 x) de

def setFileSize (x : ℕ) (de : Direntry) : Direntry := overlay 28 (le32 x) de

end Direntry

def fatARdonly : UInt8 := 0x01
def fatAVolid : UInt8 := 0x08
def fatADir : UInt8 := 0x10
def fatAArchiv : UInt8 := 0x20
def fatALfn : UInt8 := 0x0F
def fatFreeent : UInt8 := 0xE5
def fatEndofdir : UInt8 := 0x00
def fatEoc : ℕ := 0x0FFFFFFF
def fatFsiNa : ℕ := 0xFFFFFFFF
def fatUnlinked : ℕ := 1
def fatSfnMax : ℕ := 12
def fatLfnMax : ℕ := 260

def oAccmode : ℕ := 3
def oRdonly : ℕ := 0
def oWronly : ℕ := 1
def oRdwr : ℕ := 2
def oNoatime : ℕ := 1 <<< 2
def oSync : ℕ := 1 <<< 14
def oFsync : ℕ := oSync
def oDirectory : ℕ := 1 <<< 16
def oCreat : ℕ := 1 <<< 18
def oExcl : ℕ := 1 <<< 19
def oTrunc : ℕ := 1 <<< 20
def oAppend : ℕ := 1 <<< 21

def hasFlag (flags bit : ℕ) : Bool := flags &&& bit != 0

def hasAttr (a bit : UInt8) : Bool := a &&& bit != 0

inductive FatType where
  | fat12 | fat16 | fat32
  deriving DecidableEq

/-- The precalculated data of a mounted volume. `loopBound` bounds the loops of the source that
have no bound of their own; a call that needs more rounds hangs. -/
structure Geometry where
  fatType : FatType
  numFats : ℕ
  logBytesPerSector : ℕ
  logSectorsPerCluster : ℕ
  activeFat : ℕ
  fatSize : ℕ
  fatStart : ℕ
  rootSector : ℕ
  rootSize : ℕ
  dataStart : ℕ
  rootCluster : ℕ
  dataClusters : ℕ
  loopBound : ℕ

def Geometry.bytesPerSector (g : Geometry) : ℕ := 2 ^ g.logBytesPerSector

def Geometry.sectorsPerCluster (g : Geometry) : ℕ := 2 ^ g.logSectorsPerCluster

/-- A node of the cached directory tree. -/
structure Dentry where
  parent : Option ℕ
  children : List ℕ
  references : ℕ
  deSector : ℕ
  deEntcnt : ℕ
  attr : UInt8
  lfnEntries : ℕ

structure File where
  de : Direntry
  deChanged : Bool
  deSector : ℕ
  deSecofs : ℕ
  firstCluster : ℕ
  references : ℕ

/-- `magic` is true while the channel carries `FAT_CHANNEL_MAGIC`. -/
structure Channel where
  filePointer : ℕ
  f : ℕ
  magic : Bool
  flags : ℕ
  references : ℕ
  clusterIndex : ℕ
  cluster : ℕ
  dentry : Option ℕ

/-- Of `lfn` only the first `lfn_length` characters are kept, of `sfn` the first `sfn_length`. -/
structure LookupData where
  sfn : List ℕ
  cde : ℕ → Direntry
  lfn : List ℕ
  cdePos : ℕ
  lfnEntries : ℕ
  deSector : ℕ
  deSecofs : ℕ
  deDirofs : ℕ

structure DosStamp where
  time : ℕ
  date : ℕ
  hund : UInt8

/-- What the driver gets from the rest of the system: `oom k` tells whether the `k`-th slab
allocation finds no memory, `clock k` is what the `k`-th look at the clock shows. -/
structure Env where
  oom : ℕ → Bool
  clock : ℕ → DosStamp

/-- A mounted volume. Objects are numbered as they are allocated and a number is not used again;
`dentriesSlab` lists the directory nodes in use, of which number 0, the root, is no part. -/
structure Volume where
  geo : Geometry
  cache : Cache SectorData
  freeClusters : ℕ
  nextFree : ℕ
  fsinfoChanged : Bool
  env : Env
  ticks : ℕ
  nextId : ℕ
  numDentries : ℕ
  dentries : ℕ → Dentry
  dentriesSlab : List ℕ
  files : ℕ → File
  filesOpen : List ℕ
  channels : ℕ → Channel
  channelsOpen : List ℕ
  lud : LookupData

abbrev FatM (α : Type) := Prog Volume Errno α

def rootDentry : ℕ := 0

namespace Volume

def setDentry (d : ℕ) (g : Dentry → Dentry) (v : Volume) : Volume :=
  { v with dentries := fun k => if k = d then g (v.dentries k) else v.dentries k }

def setFile (f : ℕ) (g : File → File) (v : Volume) : Volume :=
  { v with files := fun k => if k = f then g (v.files k) else v.files k }

def setChannel (c : ℕ) (g : Channel → Channel) (v : Volume) : Volume :=
  { v with channels := fun k => if k = c then g (v.channels k) else v.channels k }

def setCache (c : Cache SectorData) (v : Volume) : Volume := { v with cache := c }

def setLud (g : LookupData → LookupData) (v : Volume) : Volume := { v with lud := g v.lud }

@[simp] theorem setDentry_self (d : ℕ) (g : Dentry → Dentry) (v : Volume) :
    (v.setDentry d g).dentries d = g (v.dentries d) := if_pos rfl

@[simp] theorem setFile_self (f : ℕ) (g : File → File) (v : Volume) :
    (v.setFile f g).files f = g (v.files f) := if_pos rfl

@[simp] theorem setChannel_self (c : ℕ) (g : Channel → Channel) (v : Volume) :
    (v.setChannel c g).channels c = g (v.channels c) := if_pos rfl

theorem setFile_ne {f k : ℕ} (h : k ≠ f) (g : File → File) (v : Volume) :
    (v.setFile f g).files k = v.files k := if_neg h

theorem setChannel_ne {c k : ℕ} (h : k ≠ c) (g : Channel → Channel) (v : Volume) :
    (v.setChannel c g).channels k = v.channels k := if_neg h

end Volume

/-- A volume whose state structure has just been initialized, with the buffers of `fat_mount`. -/
def freshVolume (geo : Geometry) (env : Env) (device : ℕ → SectorData) (deviceEnd freeClusters : ℕ) : Volume where
  geo := geo
  cache := {
    device := device, deviceEnd := deviceEnd, fault := fun _ => false, transfers := 0,
    logBytesPerSector := geo.logBytesPerSector, sectorsPerBuffer := 8, numBuffers := 30,
    buffers := fun _ => { sector := 0, count := 0, valid := false, dirty := false, data := fun _ _ => 0 },
    buffersLru := List.range 30 }
  freeClusters := freeClusters
  nextFree := fatFsiNa
  fsinfoChanged := false
  env := env
  ticks := 0
  nextId := 1
  numDentries := 1
  dentries := fun _ => {
    parent := none, children := [], references := 1, deSector := 0, deEntcnt := 0, attr := fatADir,
    lfnEntries := 0 }
  dentriesSlab := []
  files := fun _ => {
    de := fun _ => 0, deChanged := false, deSector := 0, deSecofs := 0, firstCluster := 0, references := 0 }
  filesOpen := []
  channels := fun _ => {
    filePointer := 0, f := 0, magic := false, flags := 0, references := 0, clusterIndex := 0, cluster := 0,
    dentry := none }
  channelsOpen := []
  lud := {
    sfn := [], cde := fun _ _ => 0, lfn := [], cdePos := 0, lfnEntries := 0, deSector := 0, deSecofs := 0,
    deDirofs := 0 }

/-- A small FAT12 volume: a reserved sector, two copies of a FAT of one sector, a root directory of 16
entries and six clusters of one sector. -/
def floppyGeometry : Geometry where
  fatType := .fat12
  numFats := 2
  logBytesPerSector := 9
  logSectorsPerCluster := 0
  activeFat := 0
  fatSize := 1
  fatStart := 1
  rootSector := 3
  rootSize := 1
  dataStart := 4
  rootCluster := 0
  dataClusters := 6
  loopBound := 1000

def quietEnv : Env := { oom := fun _ => false, clock := fun _ => { time := 0x6000, date := 0x3421, hund := 0 } }

def emptyFloppy : Volume := freshVolume floppyGeometry quietEnv
  (fun s i => if s = 1 ∨ s = 2 then [0xF8, 0xFF, 0xFF].getD i 0 else 0) 10 6

def onCache {α : Type} (x : Prog (Cache SectorData) Errno α) : FatM α :=
  Prog.within Volume.cache Volume.setCache x

def fatReadbuf (sector : ℕ) (buffer : Option ℕ) : FatM (ℕ × ℕ) :=
  onCache (Cache.fatReadbuf sector buffer)

def fatDirtybuf (b : ℕ) (writeThrough : Bool) : FatM Unit := onCache (Cache.fatDirtybuf b writeThrough)

def bufByte (b i : ℕ) : FatM UInt8 := Prog.reads fun v =>
  (v.cache.buffers b).data (i / v.geo.bytesPerSector) (i % v.geo.bytesPerSector)

def bufBytes (b i n : ℕ) : FatM (List UInt8) := Prog.reads fun v =>
  (List.range n).map fun j =>
    (v.cache.buffers b).data (i / v.geo.bytesPerSector) (i % v.geo.bytesPerSector + j)

/-- Stores bytes at index `i` of `b->data`; no store of the driver leaves its sector. -/
def bufWrite (b i : ℕ) (bytes : List UInt8) : FatM Unit := do
  let v ← Prog.state
  onCache (Cache.pokeSector b (i / v.geo.bytesPerSector) (overlay (i % v.geo.bytesPerSector) bytes))

/-- Stores bytes at index `i` of `v->buffer_data`, the array that `b->data` points into; a store
past its end is not to the volume's memory. -/
def bufferDataWrite (i : ℕ) (bytes : List UInt8) : FatM Unit := do
  let v ← Prog.state
  let size := v.geo.bytesPerSector * v.cache.sectorsPerBuffer
  if i / size < v.cache.numBuffers then bufWrite (i / size) (i % size) bytes else pure ()

/-- `(struct fat_fsinfo *) b->data + res` is `512 * res` bytes from `b->data`. -/
def syncFsinfo : FatM Unit := do
  let v ← Prog.state
  let (b, res) ← fatReadbuf 1 none
  let fsi := b * (v.geo.bytesPerSector * v.cache.sectorsPerBuffer) + 512 * res
  bufferDataWrite (fsi + 488) (le32 v.freeClusters)
  bufferDataWrite (fsi + 492) (le32 v.nextFree)
  let _ ← (fatDirtybuf b false).attempt
  Prog.update fun v => { v with fsinfoChanged := false }

def fatSync : FatM Unit := do
  let v ← Prog.state
  Prog.when (v.geo.fatType = .fat32 ∧ v.fsinfoChanged = true) syncFsinfo
  onCache (Cache.flushBuffers 0 v.cache.numBuffers)

def fatTimestamps : FatM DosStamp := do
  let v ← Prog.state
  Prog.update fun v => { v with ticks := v.ticks + 1 }
  pure (v.env.clock v.ticks)

/-- A new object number, or none when there is no memory. -/
def slabmemAlloc : FatM (Option ℕ) := do
  let v ← Prog.state
  Prog.update fun v => { v with ticks := v.ticks + 1 }
  if v.env.oom v.ticks then pure none
  else
    Prog.update fun v => { v with nextId := v.nextId + 1 }
    pure (some v.nextId)

end FreeDos32.Fat
