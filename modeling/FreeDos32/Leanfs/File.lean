import FreeDos32.Leanfs.Alloc

namespace FreeDos32.Leanfs

open Fat (overlay le16 le32 get16 get32 hasFlag)

def File.isReadable (x : File) : Bool := x.flags &&& oAccmode == oRdonly || x.flags &&& oAccmode == oRdwr

def File.isWriteable (x : File) : Bool := x.flags &&& oAccmode == oWronly || x.flags &&& oAccmode == oRdwr

/-- The loop of `leanfs_read`; each of its rounds reads a byte at least. -/
def readLoop (f size : ℕ) : ℕ → ℕ → ℕ → BufPtr → LeanM (List UInt8)
  | 0, _, _, _ => pure []
  | fuel + 1, k, offset, b => do
    let v ← Prog.state
    let fileSize := (v.inode f).fileSize
    if k < size ∧ offset < fileSize then
      let cluster ← leanfsGetFileCluster f ((offset + inodeSize) / v.clusterBytes)
      let byteInCluster := (offset + inodeSize) % v.clusterBytes
      let count := v.clusterBytes - byteInCluster
      let count := if offset + count ≥ fileSize then fileSize - offset else count
      let count := if k + count > size then size - k else count
      let b ← leanfsReadbuf cluster b
      let v ← Prog.state
      let rest ← readLoop f size fuel (k + count) (offset + count) (.buf b)
      pure ((List.range count).map (fun j => v.data b (byteInCluster + j)) ++ rest)
    else pure []

def leanfsRead (f size : ℕ) : LeanM (List UInt8) := do
  let v ← Prog.state
  if (v.files f).isReadable = false then Prog.fail .ebadf
  else
    let bytes ← readLoop f size size 0 (v.files f).filePointer .null
    Prog.when (hasFlag (v.files f).flags oNoatime = false) do
      let now ← time
      Prog.update (Volume.setInode f (Inode.setAccTime now))
    Prog.update (Volume.setPointer f ((v.files f).filePointer + bytes.length))
    pure bytes

/-- `n` bytes to store, from index `k` of the buffer on; zeroes if there is none. -/
def slice (buffer : Option (List UInt8)) (k n : ℕ) : List UInt8 :=
  (List.range n).map fun j => buffer.elim 0 fun bytes => bytes.getD (k + j) 0

/-- The loop of `do_write`; each of its rounds stores a byte at least. -/
def doWriteLoop (f : ℕ) (buffer : Option (List UInt8)) (size : ℕ) : ℕ → ℕ → ℕ → BufPtr → LeanM Unit
  | 0, _, _, _ => pure ()
  | fuel + 1, k, offset, b => do
    let v ← Prog.state
    if k < size then
      let clusterIndex := (offset + inodeSize) / v.clusterBytes
      if (v.inode f).clustersCount < clusterIndex then Prog.diverge
      else
        let cluster ← if clusterIndex < (v.inode f).clustersCount then leanfsGetFileCluster f clusterIndex
          else leanfsAppendCluster f
        let byteInCluster := (offset + inodeSize) % v.clusterBytes
        let count := v.clusterBytes - byteInCluster
        let count := if k + count > size then size - k else count
        let v ← Prog.state
        Prog.when (offset + count ≥ (v.inode f).fileSize)
          (Prog.update (Volume.setInode f (Inode.setFileSize (offset + count))))
        let b ← leanfsReadbuf cluster b
        poke b (overlay byteInCluster (slice buffer k count))
        doWriteLoop f buffer size fuel (k + count) (offset + count) (.buf b)
    else pure ()

def doWrite (f : ℕ) (buffer : Option (List UInt8)) (size offset : ℕ) : LeanM ℕ := do
  let v ← Prog.state
  if size = 0 then pure 0
  else if (v.inode f).fileSize < offset then Prog.diverge
  else
    doWriteLoop f buffer size size 0 offset .null
    let now ← time
    Prog.update (Volume.setInode f (Inode.setAccTime now ∘ Inode.setModTime now))
    pure size

/-- The second half of `leanfs_write`; `numWritten` is what the padding has returned. -/
def writeAtPointer (f : ℕ) (buffer : List UInt8) (numWritten : ℕ) : LeanM ℕ := do
  let v ← Prog.state
  let res ← doWrite f (some buffer) buffer.length (v.files f).filePointer
  Prog.update (Volume.setPointer f ((v.files f).filePointer + res))
  pure (numWritten + res)

/-- The result of the padding is compared as an unsigned number, which an error code is not below, with what is left
to pad by then. -/
def leanfsWrite (f : ℕ) (buffer : List UInt8) : LeanM ℕ := do
  let v ← Prog.state
  if (v.files f).isWriteable = false then Prog.fail .ebadf
  else if buffer = [] then pure 0
  else
    let fileSize := (v.inode f).fileSize
    let pointer := if hasFlag (v.files f).flags oAppend then fileSize else (v.files f).filePointer
    Prog.update (Volume.setPointer f pointer)
    if fileSize < pointer then
      match ← (doWrite f none (pointer - fileSize) fileSize).attempt with
      | .error _ => writeAtPointer f buffer 0
      | .ok res =>
        let v ← Prog.state
        if res < pointer - (v.inode f).fileSize then pure res else writeAtPointer f buffer res
    else writeAtPointer f buffer 0

/-- Takes back the cached positions of a file's open instances that are past its clusters. -/
def leanfsValidatePos (pf : ℕ) : LeanM Unit := Prog.update fun v => { v with files := fun k =>
  let x := v.files k
  if k < v.numFiles ∧ x.references ≠ 0 ∧ x.pf = pf ∧ (v.pfiles pf).inode.clustersCount ≤ x.iclusterFirst
  then { x with icluster := 0, iclusterFirst := 0 } else x }

/-- Extending a file returns what `do_write` returns. -/
def leanfsFtruncate (f : ℕ) (length : Int) : LeanM ℕ := do
  let v ← Prog.state
  if length < 0 then Prog.fail .einval
  else if (v.files f).isWriteable = false then Prog.fail .ebadf
  else
    let length := length.toNat
    let fileSize := (v.inode f).fileSize
    if length < fileSize then
      leanfsDeleteClusters f ((length + inodeSize + v.clusterBytes - 1) / v.clusterBytes)
      Prog.update (Volume.setInode f (Inode.setFileSize length))
      leanfsValidatePos (v.files f).pf
      pure 0
    else if fileSize < length then doWrite f none (length - fileSize) fileSize
    else pure 0

end FreeDos32.Leanfs
