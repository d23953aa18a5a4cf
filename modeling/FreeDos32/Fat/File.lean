import FreeDos32.Fat.Alloc

namespace FreeDos32.Fat

def Channel.isNotReadable (c : Channel) : Bool :=
  c.flags &&& oAccmode != oRdonly && c.flags &&& oAccmode != oRdwr

def Channel.isNotWriteable (c : Channel) : Bool :=
  c.flags &&& oAccmode != oRdwr && c.flags &&& oAccmode != oWronly

inductive Whence where
  | seekSet | seekCur | seekEnd
  deriving DecidableEq

def fatLseek (c : ℕ) (offset : Int) (whence : Whence) : FatM ℕ := do
  let v ← Prog.state
  let x := v.channels c
  if x.magic = false then Prog.fail .ebadf
  else
    let res : Int := match whence with
      | .seekSet => offset
      | .seekCur => offset + x.filePointer
      | .seekEnd => if hasAttr (v.files x.f).de.attr fatADir then -1
        else offset + (v.files x.f).de.fileSize
    if res < 0 then Prog.fail .einval
    else
      Prog.update (Volume.setChannel c fun x => { x with filePointer := res.toNat })
      pure res.toNat

/-- The loop of `fat_read`; `k` bytes of the request have been read and `offset` is the next one.
Every round reads a byte at least, so `fuel` rounds do when it starts at `size`. -/
def readLoop (c size : ℕ) : ℕ → ℕ → ℕ → Option ℕ → FatM (List UInt8)
  | 0, _, _, _ => pure []
  | fuel + 1, k, offset, b => do
    let v ← Prog.state
    let f := v.files (v.channels c).f
    let isDir := hasAttr f.de.attr fatADir
    if k ≥ size ∨ (isDir = false ∧ offset ≥ f.de.fileSize) then pure []
    else
      match ← fatGetFileSector c (offset / v.geo.bytesPerSector) with
      | none => pure []
      | some sector =>
        let byteInSector := offset % v.geo.bytesPerSector
        let count := v.geo.bytesPerSector - byteInSector
        let count := if isDir = false ∧ offset + count ≥ f.de.fileSize then f.de.fileSize - offset
          else count
        let count := if k + count > size then size - k else count
        let (b, res) ← fatReadbuf sector b
        let bytes ← bufBytes b (res + byteInSector) count
        let rest ← readLoop c size fuel (k + count) (offset + count) (some b)
        pure (bytes ++ rest)

def stampAccessed (fid : ℕ) : FatM Unit := do
  let now ← fatTimestamps
  Prog.update (Volume.setFile fid fun f => { f with de := f.de.setAccDate now.date, deChanged := true })

def fatRead (c size : ℕ) : FatM (List UInt8) := do
  let v ← Prog.state
  let x := v.channels c
  if x.magic = false ∨ x.isNotReadable = true then Prog.fail .ebadf
  else
    let bytes ← readLoop c size size 0 x.filePointer none
    let v ← Prog.state
    Prog.when (hasFlag x.flags oNoatime = false ∧ hasAttr (v.files x.f).de.attr fatADir = false)
      (stampAccessed x.f)
    Prog.update (Volume.setChannel c fun y => { y with filePointer := x.filePointer + bytes.length })
    pure bytes

def writeSlice (buffer : Option (List UInt8)) (k count : ℕ) : List UInt8 :=
  match buffer with
  | some bytes => (List.range count).map fun i => bytes.getD (k + i) 0
  | none => List.replicate count 0

def doWriteLoop (c : ℕ) (buffer : Option (List UInt8)) (size : ℕ) :
    ℕ → ℕ → ℕ → Option ℕ → FatM ℕ
  | 0, _, _, _ => Prog.diverge
  | fuel + 1, k, offset, b => do
    if k ≥ size then pure k
    else
      let v ← Prog.state
      match ← fatGetFileSector c (offset / v.geo.bytesPerSector) with
      | none =>
        match ← (fatAppendCluster c).attempt with
        | .ok _ => doWriteLoop c buffer size fuel k offset b
        | .error e => if e = .enospc ∧ k ≠ 0 then pure k else Prog.fail e
      | some sector =>
        let byteInSector := offset % v.geo.bytesPerSector
        let count := v.geo.bytesPerSector - byteInSector
        let count := if k + count > size then size - k else count
        Prog.update fun v =>
          let fid := (v.channels c).f
          if hasAttr (v.files fid).de.attr fatADir = false ∧ offset + count ≥ (v.files fid).de.fileSize
          then v.setFile fid fun f => { f with de := f.de.setFileSize (offset + count) }
          else v
        let (b, res) ← fatReadbuf sector b
        bufWrite b (res + byteInSector) (writeSlice buffer k count)
        fatDirtybuf b (hasFlag (v.channels c).flags oFsync)
        doWriteLoop c buffer size fuel (k + count) (offset + count) (some b)

def File.stampModified (now : DosStamp) (f : File) : File := { f with
  de := ((f.de.setModTime now.time).setModDate now.date).setAccDate now.date |> fun de =>
    de.setAttr (de.attr ||| fatAArchiv)
  deChanged := true }

def fatDoWrite (c : ℕ) (buffer : Option (List UInt8)) (size offset : ℕ) : FatM ℕ := do
  let v ← Prog.state
  let x := v.channels c
  let isDir := hasAttr (v.files x.f).de.attr fatADir
  if size = 0 then pure 0
  else if isDir = true ∧ offset + size > 65535 * 32 then Prog.fail .efbig
  else if isDir = false ∧ offset + size > 0xFFFFFFFF then Prog.fail .efbig
  else
    let k ← doWriteLoop c buffer size v.geo.loopBound 0 offset none
    Prog.when (isDir = false) do
      let now ← fatTimestamps
      Prog.update (Volume.setFile x.f (File.stampModified now))
    Prog.when (hasFlag x.flags oSync = true) fatSync
    pure k

/-- A byte count converted to `ssize_t`. -/
def ssize (k : ℕ) : Int := if k < 2 ^ 31 then k else (k : Int) - 2 ^ 32

/-- The second half of `fat_write`; `numWritten` bytes of padding have been written. -/
def writeAtPointer (c : ℕ) (buffer : List UInt8) (pointer : ℕ) (numWritten : Int) : FatM Int := do
  let res ← fatDoWrite c (some buffer) buffer.length pointer
  if ssize res < 0 then pure (ssize res)
  else
    Prog.update (Volume.setChannel c fun x => { x with filePointer := pointer + res })
    pure (numWritten + res)

def fatWrite (c : ℕ) (buffer : List UInt8) : FatM Int := do
  let v ← Prog.state
  let x := v.channels c
  let f := v.files x.f
  if x.magic = false ∨ x.isNotWriteable = true ∨ hasAttr f.de.attr fatADir = true then Prog.fail .ebadf
  else if buffer = [] then pure 0
  else
    let pointer := if hasFlag x.flags oAppend then f.de.fileSize else x.filePointer
    Prog.update (Volume.setChannel c fun x => { x with filePointer := pointer })
    if pointer > f.de.fileSize then
      -- the size of the padding is converted to 32 bits
      let res ← fatDoWrite c none ((pointer - f.de.fileSize) % 2 ^ 32) f.de.fileSize
      let v ← Prog.state
      -- compared with the file size that the padding has left
      if ssize res < (pointer : Int) - (v.files x.f).de.fileSize then pure (ssize res)
      else writeAtPointer c buffer pointer (ssize res)
    else writeAtPointer c buffer pointer 0

/-- Forgets the cached cluster address of all open instances of a file. -/
def Volume.resetCursors (fid : ℕ) (v : Volume) : Volume :=
  { v with channels := fun k =>
      if k ∈ v.channelsOpen ∧ (v.channels k).f = fid then { v.channels k with clusterIndex := 0 }
      else v.channels k }

def lastClusterFor (c length : ℕ) : FatM ℕ := do
  if length = 0 then pure 0
  else
    let v ← Prog.state
    match ← fatGetFileSector c ((length - 1) / v.geo.bytesPerSector) with
    | none => Prog.fail .eio
    | some _ => Prog.reads fun v => (v.channels c).cluster

/-- Extending a file returns what `fat_do_write` returns. -/
def fatFtruncate (c : ℕ) (length : Int) : FatM Int := do
  let v ← Prog.state
  let x := v.channels c
  let f := v.files x.f
  if length < 0 then Prog.fail .einval
  else if x.isNotWriteable = true ∨ hasAttr f.de.attr fatADir = true then Prog.fail .ebadf
  else
    let length := length.toNat
    if length < f.de.fileSize then
      let last ← lastClusterFor c length
      fatDeleteFileClusters x.f last
      let now ← fatTimestamps
      Prog.update (Volume.setFile x.f fun f =>
        { f.stampModified now with de := (f.stampModified now).de.setFileSize length })
      Prog.when (hasFlag x.flags oSync = true) fatSync
      Prog.update (Volume.resetCursors x.f)
      pure 0
    else if length > f.de.fileSize then
      let res ← fatDoWrite c none ((length - f.de.fileSize) % 2 ^ 32) f.de.fileSize
      pure (ssize res)
    else pure 0

end FreeDos32.Fat
