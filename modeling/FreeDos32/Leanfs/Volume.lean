import FreeDos32.Fat.Volume
import FreeDos32.Library.Lru

namespace FreeDos32.Leanfs

open Fat (overlay le16 le32 get16 get32 hasFlag)

def oAccmode : ℕ := 3
def oRdonly : ℕ := 0
def oWronly : ℕ := 1
def oRdwr : ℕ := 2
def oCreat : ℕ := 1 <<< 6
def oExcl : ℕ := 1 <<< 7
def oTrunc : ℕ := 1 <<< 9
def oAppend : ℕ := 1 <<< 10
def oNoatime : ℕ := 1 <<< 30
def oDirectory : ℕ := 1 <<< 31

def leanfsIrusr : ℕ := 1 <<< 8
def leanfsIwusr : ℕ := 1 <<< 7
def leanfsIxusr : ℕ := 1 <<< 6
def leanfsIfmt : ℕ := 7 <<< 29
def leanfsIfreg : ℕ := 0
def leanfsFtDir : ℕ := 1
def leanfsIfdir : ℕ := leanfsFtDir <<< 29

def leanfsIfmtToFt (attr : ℕ) : ℕ := (attr &&& leanfsIfmt) >>> 29

def maxDirectCluster : ℕ := 15

def numBuffers : ℕ := 8

/-- The 32-bit word at index `k` of a cluster or an inode. -/
def word (m : ℕ → UInt8) (k : ℕ) : ℕ := get32 m (4 * k)

def setWord (k x : ℕ) (m : ℕ → UInt8) : ℕ → UInt8 := overlay (4 * k) (le32 x) m

/-- The 128 bytes of `struct Inode`; indices from 128 on are not used. -/
abbrev Inode := ℕ → UInt8

def inodeSize : ℕ := 128

namespace Inode

def fileSize (i : Inode) : ℕ := word i 0 + 2 ^ 32 * word i 1

def clustersCount (i : Inode) : ℕ := word i 2

def dcluster (k : ℕ) (i : Inode) : ℕ := word i (6 + k)

def iclustersHead (i : Inode) : ℕ := word i 21

def attributes (i : Inode) : ℕ := word i 22

def linksCount (i : Inode) : ℕ := word i 25

def setFileSize (n : ℕ) (i : Inode) : Inode := setWord 1 (n / 2 ^ 32) (setWord 0 n i)

def setClustersCount (n : ℕ) (i : Inode) : Inode := setWord 2 n i

def setAccTime (n : ℕ) (i : Inode) : Inode := setWord 3 n i

def setCreTime (n : ℕ) (i : Inode) : Inode := setWord 4 n i

def setModTime (n : ℕ) (i : Inode) : Inode := setWord 5 n i

def setDcluster (k n : ℕ) (i : Inode) : Inode := setWord (6 + k) n i

def setIclustersHead (n : ℕ) (i : Inode) : Inode := setWord 21 n i

def setAttributes (n : ℕ) (i : Inode) : Inode := setWord 22 n i

def setLinksCount (n : ℕ) (i : Inode) : Inode := setWord 25 n i

def isDir (i : Inode) : Bool := i.attributes &&& leanfsIfmt == leanfsIfdir

/-- Copies an inode to the beginning of its cluster. -/
def store (i : Inode) (m : ℕ → UInt8) : ℕ → UInt8 := fun j => if j < inodeSize then i j else m j

end Inode

structure PFile where
  inode : Inode
  firstCluster : ℕ
  references : ℕ

structure File where
  pf : ℕ
  flags : ℕ
  references : ℕ
  filePointer : ℕ
  icluster : ℕ
  iclusterFirst : ℕ

/-- What the driver gets from outside: whether there is memory, and the time. -/
structure Env where
  oom : ℕ → Bool
  time : ℕ → ℕ

/-- A mounted volume and the tables of open files. `lru` are the buffers, the last used first, and `held` the cluster
in each that is valid; `clusters` are the clusters as the buffers show them: every valid buffer is written back before
it is used for another cluster. -/
structure Volume where
  logClusterBytes : ℕ
  clustersCount : ℕ
  bitmapStartCluster : ℕ
  backupSuper : ℕ
  rootStartCluster : ℕ
  freeClustersCount : ℕ
  lru : List ℕ
  held : ℕ → Option ℕ
  clusters : ℕ → ℕ → UInt8
  deviceEnd : ℕ
  pfiles : ℕ → PFile
  numPFiles : ℕ
  files : ℕ → File
  numFiles : ℕ
  env : Env
  ticks : ℕ

abbrev LeanM (α : Type) := Prog Volume Errno α

namespace Volume

def clusterBytes (v : Volume) : ℕ := 2 ^ v.logClusterBytes

/-- The addresses in an indirect cluster, which the one of the next indirect cluster follows. -/
def iclusterCount (v : Volume) : ℕ := v.clusterBytes / 4 - 1

/-- Buffer `b` has been asked for the given cluster. -/
def useBuffer (b cluster : ℕ) (v : Volume) : Volume :=
  { v with lru := Lru.use b v.lru, held := Function.update v.held b (some cluster) }

def dropBuffer (b : ℕ) (v : Volume) : Volume := { v with held := Function.update v.held b none }

def setCluster (b : ℕ) (g : (ℕ → UInt8) → ℕ → UInt8) (v : Volume) : Volume :=
  { v with clusters := fun k => if k = b then g (v.clusters k) else v.clusters k }

def setPFile (pf : ℕ) (g : PFile → PFile) (v : Volume) : Volume :=
  { v with pfiles := fun k => if k = pf then g (v.pfiles k) else v.pfiles k }

def setFile (f : ℕ) (g : File → File) (v : Volume) : Volume :=
  { v with files := fun k => if k = f then g (v.files k) else v.files k }

/-- The inode of an open file. -/
def inode (v : Volume) (f : ℕ) : Inode := (v.pfiles (v.files f).pf).inode

def setInode (f : ℕ) (g : Inode → Inode) (v : Volume) : Volume :=
  v.setPFile (v.files f).pf fun x => { x with inode := g x.inode }

def setCursor (f icluster iclusterFirst : ℕ) (v : Volume) : Volume :=
  v.setFile f fun x => { x with icluster := icluster, iclusterFirst := iclusterFirst }

def setPointer (f pos : ℕ) (v : Volume) : Volume := v.setFile f fun x => { x with filePointer := pos }

end Volume

/-- A `struct Buffer *`: null, a buffer, or a variable that nothing has been stored in. -/
inductive BufPtr where
  | null
  | buf (b : ℕ)
  | unset
  deriving DecidableEq

namespace Volume

def searchForBuffer (v : Volume) (cluster : ℕ) : Option ℕ :=
  (List.range numBuffers).find? fun b => v.held b == some cluster

/-- The buffer that is given up for a cluster that is in none: the one that the caller passes, or the least recently
used one for a null pointer. There is no telling which if the pointer has not been set. -/
def given (v : Volume) : BufPtr → Option ℕ
  | .null => v.lru.getLast?
  | .buf b => some b
  | .unset => none

def bufferFor (v : Volume) (cluster : ℕ) (buffer : BufPtr) : Option ℕ := (v.searchForBuffer cluster).or (v.given buffer)

/-- `b->data`. -/
def data (v : Volume) (b : ℕ) : ℕ → UInt8 := (v.held b).elim (fun _ => 0) v.clusters

end Volume

def leanfsReadbuf (cluster : ℕ) (buffer : BufPtr) : LeanM ℕ := do
  let v ← Prog.state
  match v.bufferFor cluster buffer with
  | none => Prog.diverge
  | some b =>
    if v.held b = some cluster ∨ cluster < v.deviceEnd then
      Prog.update (Volume.useBuffer b cluster)
      pure b
    else
      Prog.update (Volume.dropBuffer b)
      Prog.fail .eio

/-- Stores through a pointer into buffer `b`. -/
def poke (b : ℕ) (g : (ℕ → UInt8) → ℕ → UInt8) : LeanM Unit := do
  let v ← Prog.state
  match v.held b with
  | some cluster => Prog.update (Volume.setCluster cluster g)
  | none => Prog.diverge

/-- `time(NULL)` as the 32 bits that an inode has for it. -/
def time : LeanM ℕ := do
  let v ← Prog.state
  Prog.update fun v => { v with ticks := v.ticks + 1 }
  pure (v.env.time v.ticks)

/-- Whether there is memory for a further table. -/
def malloc : LeanM Bool := do
  let v ← Prog.state
  Prog.update fun v => { v with ticks := v.ticks + 1 }
  pure !(v.env.oom v.ticks)

end FreeDos32.Leanfs
