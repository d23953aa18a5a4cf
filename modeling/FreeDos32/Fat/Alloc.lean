import FreeDos32.Fat.Volume

namespace FreeDos32.Fat

def entryOffset : FatType → ℕ → ℕ
  | .fat12, n => n + n / 2
  | .fat16, n => 2 * n
  | .fat32, n => 4 * n

/-- `fat12_seek`, `fat16_seek` and `fat32_seek`: the sector of an entry and the entry's offset in it. -/
def fatSeek (t : FatType) (n fatNum : ℕ) : FatM (ℕ × ℕ) := do
  let v ← Prog.state
  if n > (v.geo.dataClusters + 1) % 2 ^ 32 then Prog.fail .enxio
  else
    let offset := entryOffset t n % 2 ^ 32
    pure ((fatNum * v.geo.fatSize + v.geo.fatStart + offset / v.geo.bytesPerSector) % 2 ^ 32,
      offset % v.geo.bytesPerSector)

def unpack12 (n : ℕ) (lsb msb : UInt8) : ℕ :=
  let c := lsb.toNat + 256 * msb.toNat
  let c := if n % 2 = 1 then c / 16 else c % 4096
  if c ≥ 0x0FF8 then fatEoc else c

def fat12Read (n fatNum : ℕ) : FatM ℕ := do
  let (sector, offset) ← fatSeek .fat12 n fatNum
  let v ← Prog.state
  let (b, res) ← fatReadbuf sector none
  if offset < v.geo.bytesPerSector - 1 then
    let lsb ← bufByte b (offset + res)
    let msb ← bufByte b (offset + res + 1)
    pure (unpack12 n lsb msb)
  else
    -- the entry spans across two sectors
    let (b2, res2) ← fatReadbuf (sector + 1) none
    let lsb ← bufByte b (offset + res)
    let msb ← bufByte b2 res2
    pure (unpack12 n lsb msb)

def fat16Read (n fatNum : ℕ) : FatM ℕ := do
  let (sector, offset) ← fatSeek .fat16 n fatNum
  let (b, res) ← fatReadbuf sector none
  let lsb ← bufByte b (offset + res)
  let msb ← bufByte b (offset + res + 1)
  let c := lsb.toNat + 256 * msb.toNat
  pure (if c ≥ 0xFFF8 then fatEoc else c)

def fat32Read (n fatNum : ℕ) : FatM ℕ := do
  let (sector, offset) ← fatSeek .fat32 n fatNum
  let (b, res) ← fatReadbuf sector none
  let bytes ← bufBytes b (offset + res) 4
  let c := get32 (Direntry.ofBytes bytes) 0 % 0x10000000
  pure (if c ≥ 0x0FFFFFF8 then fatEoc else c)

def vFatRead (n fatNum : ℕ) : FatM ℕ := do
  let v ← Prog.state
  match v.geo.fatType with
  | .fat12 => fat12Read n fatNum
  | .fat16 => fat16Read n fatNum
  | .fat32 => fat32Read n fatNum

def readFatEntry (n : ℕ) : FatM ℕ := do
  let v ← Prog.state
  vFatRead n v.geo.activeFat

def pack12 (n value : ℕ) (lsb msb : UInt8) : UInt8 × UInt8 :=
  if n % 2 = 1 then
    ((lsb &&& 0x0F) ||| UInt8.ofNat (value * 16), UInt8.ofNat (value * 16 / 256))
  else (UInt8.ofNat (value % 4096), (msb &&& 0xF0) ||| UInt8.ofNat (value % 4096 / 256))

def fat12Write (n fatNum value : ℕ) : FatM Unit := do
  let (sector, offset) ← fatSeek .fat12 n fatNum
  let v ← Prog.state
  let (b1, res) ← fatReadbuf sector none
  let value := if value = fatEoc then 0x0FFF else value
  if offset < v.geo.bytesPerSector - 1 then
    let lsb ← bufByte b1 (offset + res)
    let msb ← bufByte b1 (offset + res + 1)
    bufWrite b1 (offset + res) [(pack12 n value lsb msb).1, (pack12 n value lsb msb).2]
    fatDirtybuf b1 false
  else
    -- the entry spans across two sectors
    let (b2, res2) ← fatReadbuf (sector + 1) none
    let lsb ← bufByte b1 (offset + res)
    let msb ← bufByte b2 res2
    bufWrite b1 (offset + res) [(pack12 n value lsb msb).1]
    bufWrite b2 res2 [(pack12 n value lsb msb).2]
    fatDirtybuf b1 false
    fatDirtybuf b2 false

def fat16Write (n fatNum value : ℕ) : FatM Unit := do
  let (sector, offset) ← fatSeek .fat16 n fatNum
  let (b, res) ← fatReadbuf sector none
  let value := if value = fatEoc then 0xFFFF else value
  bufWrite b (offset + res) (le16 value)
  fatDirtybuf b false

def fat32Write (n fatNum value : ℕ) : FatM Unit := do
  let (sector, offset) ← fatSeek .fat32 n fatNum
  let (b, res) ← fatReadbuf sector none
  let bytes ← bufBytes b (offset + res) 4
  let old := get32 (Direntry.ofBytes bytes) 0
  bufWrite b (offset + res) (le32 (old / 0x10000000 * 0x10000000 + value % 0x10000000))
  fatDirtybuf b false

def vFatWrite (n fatNum value : ℕ) : FatM Unit := do
  let v ← Prog.state
  match v.geo.fatType with
  | .fat12 => fat12Write n fatNum value
  | .fat16 => fat16Write n fatNum value
  | .fat32 => fat32Write n fatNum value

def writeFatCopies (n value : ℕ) : ℕ → ℕ → FatM Unit
  | _, 0 => pure ()
  | k, m + 1 => do
    vFatWrite n k value
    writeFatCopies n value (k + 1) m

def writeFatEntry (n value : ℕ) : FatM Unit := do
  let v ← Prog.state
  writeFatCopies n value 0 v.geo.numFats

def Geometry.clusterSector (g : Geometry) (cluster : ℕ) : ℕ :=
  (cluster - 2) * g.sectorsPerCluster + g.dataStart

/-- Moves the cached cluster position `k` links on; false at the end of the chain. -/
def walkChain (c : ℕ) : ℕ → FatM Bool
  | 0 => pure true
  | k + 1 => do
    let v ← Prog.state
    let nc ← readFatEntry (v.channels c).cluster
    if nc = fatEoc then pure false
    else if nc < 2 ∨ nc > v.geo.dataClusters + 1 then Prog.fail .eio
    else
      Prog.update (Volume.setChannel c fun x => { x with clusterIndex := x.clusterIndex + 1, cluster := nc })
      walkChain c k

/-- A FAT12 or FAT16 root directory: no directory entry and no clusters. -/
def File.isFixedRoot (f : File) : Bool := f.deSector == 0 && f.firstCluster == 0

def fatGetFileSector (c sectorIndex : ℕ) : FatM (Option ℕ) := do
  let v ← Prog.state
  let f := v.files (v.channels c).f
  if f.isFixedRoot then
    if sectorIndex ≥ v.geo.rootSize then pure none else pure (some (sectorIndex + v.geo.rootSector))
  else if f.firstCluster = 0 then pure none
  else
    let clusterIndex := sectorIndex / v.geo.sectorsPerCluster
    Prog.when ((v.channels c).clusterIndex = 0 ∨ clusterIndex < (v.channels c).clusterIndex) do
      Prog.update (Volume.setChannel c fun x => { x with clusterIndex := 0, cluster := f.firstCluster })
    let v ← Prog.state
    if ← walkChain c (clusterIndex - (v.channels c).clusterIndex) then
      let v ← Prog.state
      pure (some (v.geo.clusterSector (v.channels c).cluster + sectorIndex % v.geo.sectorsPerCluster))
    else pure none

def findFreeClusterInRange : ℕ → ℕ → FatM ℕ
  | _, 0 => Prog.fail .enospc
  | k, m + 1 => do
    let res ← readFatEntry k
    if res = 0 then
      Prog.update fun v => { v with nextFree := k, fsinfoChanged := true }
      pure k
    else findFreeClusterInRange (k + 1) m

def findFreeCluster : FatM ℕ := do
  let v ← Prog.state
  let hint := if v.nextFree = fatFsiNa ∨ v.nextFree < 2 ∨ v.nextFree > v.geo.dataClusters + 1 then 2
    else v.nextFree
  match ← (findFreeClusterInRange hint (v.geo.dataClusters + 2 - hint)).attempt with
  | .ok k => pure k
  | .error .enospc =>
    match ← (findFreeClusterInRange 2 (hint - 2)).attempt with
    | .ok k => pure k
    | .error .enospc =>
      Prog.update fun v => { v with nextFree := fatFsiNa, fsinfoChanged := true }
      Prog.fail .enospc
    | .error e => Prog.fail e
  | .error e => Prog.fail e

def linkCluster (fid last cluster : ℕ) : FatM Unit := do
  let v ← Prog.state
  if (v.files fid).firstCluster = 0 then
    Prog.update (Volume.setFile fid fun f => { f with
      firstCluster := cluster
      de := f.de.setFirstCluster cluster
      deChanged := true })
  else writeFatEntry last cluster

def fatAppendCluster (c : ℕ) : FatM ℕ := do
  let v ← Prog.state
  let fid := (v.channels c).f
  if (v.files fid).isFixedRoot then Prog.fail .efbig
  else
    let cluster ← findFreeCluster
    linkCluster fid (v.channels c).cluster cluster
    Prog.update fun v => { v with
      freeClusters := (v.freeClusters + (2 ^ 32 - 1)) % 2 ^ 32
      fsinfoChanged := true }
    writeFatEntry cluster fatEoc
    pure cluster

def deleteClustersLoop : ℕ → ℕ → FatM Unit
  | 0, _ => Prog.diverge
  | fuel + 1, start => do
    let next ← readFatEntry start
    writeFatEntry start 0
    Prog.update fun v => { v with
      freeClusters := (v.freeClusters + 1) % 2 ^ 32
      fsinfoChanged := true }
    if next = fatEoc then pure () else deleteClustersLoop fuel next

def fatDeleteClusters (start : ℕ) : FatM Unit := do
  let v ← Prog.state
  deleteClustersLoop v.geo.loopBound start

def fatDeleteFileClusters (fid newLastCluster : ℕ) : FatM Unit := do
  let v ← Prog.state
  if newLastCluster ≠ 0 then
    let next ← readFatEntry newLastCluster
    writeFatEntry newLastCluster fatEoc
    fatDeleteClusters next
  else
    Prog.update (Volume.setFile fid fun f => { f with
      firstCluster := 0
      de := f.de.setFirstCluster 0
      deChanged := true })
    fatDeleteClusters (v.files fid).firstCluster

end FreeDos32.Fat
