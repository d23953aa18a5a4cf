import FreeDos32.Leanfs.Volume

namespace FreeDos32.Leanfs

open Fat (overlay le16 le32 get16 get32 hasFlag)

/-- Where the search for the address of a cluster starts: an indirect cluster and the index of its first address. -/
def Volume.searchStart (v : Volume) (f clusterIndex : ℕ) : ℕ × ℕ :=
  let x := v.files f
  if x.iclusterFirst = 0 ∨ clusterIndex < x.iclusterFirst
    then ((v.inode f).iclustersHead, maxDirectCluster + 1) else (x.icluster, x.iclusterFirst)

/-- The loop of `leanfs_fetch_indirect`: indirect cluster, index of its first address and buffer. A call hangs
where an assertion fails or the driver would follow a pointer that leads nowhere. -/
def fetchLoop (f clusterIndex : ℕ) : ℕ → ℕ → ℕ → BufPtr → LeanM (ℕ × ℕ × BufPtr)
  | 0, _, _, _ => Prog.diverge
  | fuel + 1, icluster, iclusterFirst, b => do
    let v ← Prog.state
    if iclusterFirst < (v.inode f).clustersCount then
      match ← (leanfsReadbuf icluster b).attempt with
      | .error e =>
        Prog.update (Volume.setCursor f 0 0)
        Prog.fail e
      | .ok b =>
        let v ← Prog.state
        if iclusterFirst ≤ clusterIndex ∧ clusterIndex < iclusterFirst + v.iclusterCount then
          pure (icluster, iclusterFirst, .buf b)
        else
          fetchLoop f clusterIndex fuel (word (v.data b) v.iclusterCount) (iclusterFirst + v.iclusterCount) (.buf b)
    else pure (icluster, iclusterFirst, b)

/-- The index of the address in the buffer, and the buffer. -/
def leanfsFetchIndirect (f clusterIndex : ℕ) (b : BufPtr) : LeanM (ℕ × BufPtr) := do
  let v ← Prog.state
  let start := v.searchStart f clusterIndex
  let (icluster, iclusterFirst, b) ← fetchLoop f clusterIndex ((v.inode f).clustersCount + 1) start.1 start.2 b
  Prog.update (Volume.setCursor f icluster iclusterFirst)
  pure (clusterIndex - iclusterFirst, b)

/-- The buffer that `leanfs_fetch_indirect` is called with is a variable that has not been set. -/
def leanfsGetFileCluster (f clusterIndex : ℕ) : LeanM ℕ := do
  let v ← Prog.state
  if clusterIndex = 0 then pure (v.pfiles (v.files f).pf).firstCluster
  else if clusterIndex ≤ maxDirectCluster then pure ((v.inode f).dcluster (clusterIndex - 1))
  else
    let (res, b) ← leanfsFetchIndirect f clusterIndex .unset
    let v ← Prog.state
    match b with
    | .buf b => if res < v.clusterBytes / 4 then pure (word (v.data b) res) else Prog.diverge
    | _ => Prog.diverge

/-- The loop over the bits of a word of the bitmap, from bit `bit`, which `cluster` stands for; the cluster that it
has got to if there is no free one. -/
def findFreeBit (map clustersCount : ℕ) : ℕ → ℕ → ℕ → Except ℕ ℕ
  | 0, _, cluster => .error cluster
  | n + 1, bit, cluster =>
    if cluster < clustersCount then
      if map.testBit bit then findFreeBit map clustersCount n (bit + 1) (cluster + 1) else .ok cluster
    else .error cluster

/-- The loop over the words of one cluster of the bitmap. -/
def findFreeWord (map : ℕ → ℕ) (clustersCount : ℕ) : ℕ → ℕ → ℕ → Except ℕ ℕ
  | 0, _, cluster => .error cluster
  | n + 1, k, cluster =>
    if cluster < clustersCount then
      if map k ≠ 0xFFFFFFFF then
        match findFreeBit (map k) clustersCount 32 0 cluster with
        | .ok free => .ok free
        | .error cluster => findFreeWord map clustersCount n (k + 1) (cluster + 32)
      else findFreeWord map clustersCount n (k + 1) (cluster + 32)
    else .error cluster

/-- The end is not to be reached while the volume's count says that there is a free cluster. -/
def findFreeLoop : ℕ → ℕ → ℕ → BufPtr → LeanM ℕ
  | 0, _, _, _ => Prog.diverge
  | fuel + 1, bitmapCluster, cluster, b => do
    let v ← Prog.state
    if cluster < v.clustersCount then
      let b ← leanfsReadbuf bitmapCluster b
      let v ← Prog.state
      match findFreeWord (word (v.data b)) v.clustersCount (v.clusterBytes / 4) 0 cluster with
      | .ok free => pure free
      | .error cluster => findFreeLoop fuel (bitmapCluster + 1) cluster (.buf b)
    else if v.freeClustersCount = 0 then Prog.fail .enospc
    else Prog.diverge

def leanfsBitmapFindFree : LeanM ℕ := do
  let v ← Prog.state
  if v.freeClustersCount = 0 then Prog.fail .enospc
  else findFreeLoop (v.clustersCount + 1) v.bitmapStartCluster 0 .null

def leanfsBitmapSet (cluster : ℕ) (allocate : Bool) : LeanM Unit := do
  let v ← Prog.state
  let bitOfCluster := cluster % (v.clusterBytes * 8)
  let intOfCluster := bitOfCluster / 32
  let bitOfInt := bitOfCluster % 32
  let b ← leanfsReadbuf (cluster / (v.clusterBytes * 8) + v.bitmapStartCluster) .null
  let v ← Prog.state
  let map := word (v.data b) intOfCluster
  if allocate then
    Prog.when (map.testBit bitOfInt = false) <|
      if v.freeClustersCount = 0 then Prog.diverge
      else do
        poke b (setWord intOfCluster (map ||| 1 <<< bitOfInt))
        Prog.update fun v => { v with freeClustersCount := v.freeClustersCount - 1 }
  else
    Prog.when (map.testBit bitOfInt = true) <|
      if v.clustersCount ≤ v.freeClustersCount then Prog.diverge
      else do
        poke b (setWord intOfCluster (map &&& (0xFFFFFFFF ^^^ 1 <<< bitOfInt)))
        Prog.update fun v => { v with freeClustersCount := v.freeClustersCount + 1 }

/-- Where the address of a new cluster is to be put: in the inode or in an indirect cluster. -/
inductive Pointer where
  | direct (k : ℕ)
  | indirect (b k : ℕ)

/-- Links a new indirect cluster; `b` is the buffer of the last one. -/
def storeIndirect (f index free : ℕ) : BufPtr → LeanM Unit
  | .null =>
    if index = maxDirectCluster + 1 then Prog.update (Volume.setInode f (Inode.setIclustersHead free)) else Prog.diverge
  | .buf b => do
    let v ← Prog.state
    if index = maxDirectCluster + 1 then Prog.diverge else poke b (setWord v.iclusterCount free)
  | .unset => Prog.diverge

def linkIndirect (f index : ℕ) (b : BufPtr) : LeanM ℕ := do
  let free ← leanfsBitmapFindFree
  leanfsBitmapSet free true
  storeIndirect f index free b
  let b ← leanfsReadbuf free b
  Prog.update (Volume.setFile f fun x => { x with icluster := free })
  pure b

/-- The first address of a new indirect cluster is to be written with offset 0. -/
def appendPointer (f index : ℕ) : LeanM Pointer := do
  if index ≤ maxDirectCluster then pure (.direct (index - 1))
  else
    let (res, b) ← leanfsFetchIndirect f index .null
    let v ← Prog.state
    if (v.files f).iclusterFirst = index then
      let b ← linkIndirect f index b
      pure (.indirect b 0)
    else
      match b with
      | .buf b => pure (.indirect b res)
      | _ => Prog.diverge

def storePointer (f cluster : ℕ) : Pointer → LeanM Unit
  | .direct k => Prog.update (Volume.setInode f (Inode.setDcluster k cluster))
  | .indirect b k => poke b (setWord k cluster)

def leanfsAppendCluster (f : ℕ) : LeanM ℕ := do
  let v ← Prog.state
  let pointer ← appendPointer f (v.inode f).clustersCount
  let free ← leanfsBitmapFindFree
  leanfsBitmapSet free true
  Prog.update (Volume.setInode f (Inode.setClustersCount ((v.inode f).clustersCount + 1)))
  storePointer f free pointer
  pure free

def deleteLoop (f : ℕ) : ℕ → ℕ → LeanM Unit
  | 0, _ => pure ()
  | n + 1, index => do
    let cluster ← leanfsGetFileCluster f index
    let v ← Prog.state
    if (v.files f).iclusterFirst ≠ 0 ∧ (v.files f).iclusterFirst ≤ maxDirectCluster then Prog.diverge
    else
      leanfsBitmapSet cluster false
      let v ← Prog.state
      Prog.when (index ≠ 0 ∧ index = (v.files f).iclusterFirst) (leanfsBitmapSet (v.files f).icluster false)
      deleteLoop f n (index + 1)

def leanfsDeleteClusters (f newClustersCount : ℕ) : LeanM Unit := do
  let v ← Prog.state
  deleteLoop f ((v.inode f).clustersCount - newClustersCount) newClustersCount
  Prog.update (Volume.setInode f (Inode.setClustersCount newClustersCount))

end FreeDos32.Leanfs
