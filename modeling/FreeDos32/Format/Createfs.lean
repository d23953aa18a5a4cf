import FreeDos32.Fat.Volume

namespace FreeDos32.Format

open Prog Fat

structure StdBpb where
  bytesPerSector : UInt16
  sectorsPerCluster : UInt8
  reservedSectors : UInt16
  numberOfFats : UInt8
  rootDirectoryEntries : UInt16
  totalSectors : UInt16
  mediaDescriptor : UInt8
  sectorsPerFat : UInt16
  sectorsPerCylinder : UInt16
  numberOfHeads : UInt16
  hiddenSectorsLow : UInt16
  hiddenSectorsHigh : UInt16
  largeSectorCountLow : UInt16
  largeSectorCountHigh : UInt16

structure Fat32Bpb where
  fatSizeLow : UInt16
  fatSizeHigh : UInt16
  extFlags : UInt16
  fileSystemVersion : UInt16
  rootDirStartLow : UInt16
  rootDirStartHigh : UInt16
  infoSectorNumber : UInt16
  backupBootSector : UInt16
  reserved1 : Vector UInt8 12

def StdBpb.bytes (b : StdBpb) : List UInt8 :=
  le16 b.bytesPerSector.toNat ++ [b.sectorsPerCluster] ++ le16 b.reservedSectors.toNat ++ [b.numberOfFats] ++
    le16 b.rootDirectoryEntries.toNat ++ le16 b.totalSectors.toNat ++ [b.mediaDescriptor] ++
    le16 b.sectorsPerFat.toNat ++ le16 b.sectorsPerCylinder.toNat ++ le16 b.numberOfHeads.toNat ++
    le16 b.hiddenSectorsLow.toNat ++ le16 b.hiddenSectorsHigh.toNat ++ le16 b.largeSectorCountLow.toNat ++
    le16 b.largeSectorCountHigh.toNat

def Fat32Bpb.bytes (x : Fat32Bpb) : List UInt8 :=
  le16 x.fatSizeLow.toNat ++ le16 x.fatSizeHigh.toNat ++ le16 x.extFlags.toNat ++ le16 x.fileSystemVersion.toNat ++
    le16 x.rootDirStartLow.toNat ++ le16 x.rootDirStartHigh.toNat ++ le16 x.infoSectorNumber.toNat ++
    le16 x.backupBootSector.toNat ++ x.reserved1.toList

inductive DriveType where
  | hard | floppy

/-- The volume label without its terminating null character, of 11 characters at most; `v` tells whether it is given. -/
structure FormatParam where
  driveType : DriveType
  fatType : FatType
  v : Bool
  volumeLabel : List UInt8

structure Clock where
  year : ℕ
  month : ℕ
  day : ℕ
  hour : ℕ
  minute : ℕ
  second : ℕ
  hundredth : ℕ

structure FsInfo where
  startFatSector : ℕ
  numberFatSectors : ℕ
  startRootDirSect : ℕ
  numberRootDirSect : ℕ
  totalClusters : ℕ

/-- The program's variables and the drive, whose writes succeed. `bootCode` is the boot code with its message. -/
structure Drive where
  bpb : StdBpb
  xbpb : Fat32Bpb
  param : FormatParam
  clock : Clock
  bootCode : List UInt8
  fileSysInfo : FsInfo
  sectorBuffer : SectorData
  hugeSectorBuffer : ℕ → SectorData
  sectors : ℕ → SectorData

inductive Abort where
  | exit (mserror fderror : ℕ)
  | divideError
  deriving DecidableEq

abbrev FormatM (α : Type) := Prog Drive Abort α

def clearSectorBuffer : FormatM Unit := Prog.update fun d => { d with sectorBuffer := fun _ => 0 }

def clearHugeSectorBuffer : FormatM Unit := Prog.update fun d => { d with hugeSectorBuffer := fun _ _ => 0 }

/-- `dosmemput` into the sector buffer. -/
def dosmemput (bytes : List UInt8) (o : ℕ) : FormatM Unit :=
  Prog.update fun d => { d with sectorBuffer := overlay o bytes d.sectorBuffer }

/-- `Drive_IO` for writing. -/
def driveIo (sector count : ℕ) : FormatM Unit := Prog.update fun d =>
  { d with sectors := fun s =>
      if sector ≤ s ∧ s < sector + count then
        (if count = 1 then d.sectorBuffer else d.hugeSectorBuffer (s - sector))
      else d.sectors s }

def totalSectors (b : StdBpb) : ℕ :=
  if b.totalSectors = 0 then b.largeSectorCountHigh.toNat * 65536 + b.largeSectorCountLow.toNat
  else b.totalSectors.toNat

def clusterCount : FormatM ℕ := do
  let d ← Prog.state
  let totalsect := (totalSectors d.bpb + (2 ^ 32 - d.fileSysInfo.startRootDirSect)) % 2 ^ 32
  let totalsect := if d.param.fatType ≠ .fat32 then
    (totalsect + (2 ^ 32 - d.fileSysInfo.numberRootDirSect)) % 2 ^ 32 else totalsect
  if d.bpb.sectorsPerCluster = 0 then Prog.fail (.exit 4 20)
  else pure (totalsect / d.bpb.sectorsPerCluster.toNat)

/-- The sectors of a FAT and whether their number stands in the FAT32 fields. -/
def fatSectors (b : StdBpb) (x : Fat32Bpb) : ℕ :=
  if b.sectorsPerFat = 0 then x.fatSizeHigh.toNat * 65536 + x.fatSizeLow.toNat else b.sectorsPerFat.toNat

/-- The number of root entries becomes a multiple of those in a sector. -/
def roundRootEntries (b : StdBpb) : StdBpb :=
  let entriesPerSector := b.bytesPerSector / 32
  if b.rootDirectoryEntries &&& (entriesPerSector - 1) ≠ 0 then
    { b with rootDirectoryEntries := (b.rootDirectoryEntries ||| (entriesPerSector - 1)) + 1 }
  else b

def sizeRootDirectory : FormatM Unit := do
  let d ← Prog.state
  if d.param.fatType ≠ .fat32 then
    let bpb := roundRootEntries d.bpb
    if bpb.bytesPerSector / 32 = 0 then Prog.fail .divideError
    else Prog.update fun d => { d with
      bpb := bpb
      fileSysInfo := { d.fileSysInfo with
        numberRootDirSect := bpb.rootDirectoryEntries.toNat / (bpb.bytesPerSector.toNat / 32) } }
  else
    let rdent := max 512 (d.bpb.bytesPerSector.toNat / 32 * d.bpb.sectorsPerCluster.toNat)
    if d.bpb.bytesPerSector = 0 then Prog.fail .divideError
    else Prog.update fun d => { d with
      bpb := { d.bpb with rootDirectoryEntries := 0 }
      fileSysInfo := { d.fileSysInfo with numberRootDirSect := 32 * rdent / d.bpb.bytesPerSector.toNat } }

def getFsInfo : FormatM Unit := do
  Prog.update fun d =>
    let start := d.bpb.reservedSectors.toNat
    let size := fatSectors d.bpb d.xbpb
    { d with
      param := if d.bpb.sectorsPerFat = 0 then { d.param with fatType := .fat32 } else d.param
      fileSysInfo := { d.fileSysInfo with
        startFatSector := start
        numberFatSectors := size
        startRootDirSect := (size * d.bpb.numberOfFats.toNat + start) % 2 ^ 32 } }
  sizeRootDirectory
  let clusters ← clusterCount
  Prog.update fun d => { d with fileSysInfo := { d.fileSysInfo with totalClusters := clusters } }
  let d ← Prog.state
  if d.bpb.bytesPerSector ≠ 512 ∨ d.bpb.numberOfFats < 1 ∨ d.bpb.numberOfFats > 2 then Prog.fail (.exit 4 21)
  else pure ()

/-- The jump and the OEM name. -/
def createBootSectStart (t : FatType) : List UInt8 :=
  (if t = .fat32 then [0xEB, 0x58, 0x90] else [0xEB, 0x3C, 0x90]) ++
    [0x46, 0x52, 0x44, 0x4F, 0x53, 0x34, 0x2E, 0x31]

def createSerialNumber (c : Clock) : ℕ :=
  let low := c.hour * 256 + c.minute + c.year
  let high := c.second * 256 + c.hundredth + (c.month * 256 + c.day)
  (high * 65536 + low) % 2 ^ 32

/-- The label, filled with spaces. -/
def FormatParam.label (p : FormatParam) : List UInt8 :=
  p.volumeLabel.take 11 ++ List.replicate (11 - p.volumeLabel.length) 0x20

def driveNumber : DriveType → UInt8
  | .floppy => 0x00
  | .hard => 0x80

def fileSystemType : FatType → List UInt8
  | .fat12 => [0x46, 0x41, 0x54, 0x31, 0x32, 0x20, 0x20, 0x20]
  | .fat16 => [0x46, 0x41, 0x54, 0x31, 0x36, 0x20, 0x20, 0x20]
  | .fat32 => [0x46, 0x41, 0x54, 0x33, 0x32, 0x20, 0x20, 0x20]

def createBootSectExt (p : FormatParam) (c : Clock) : List UInt8 :=
  [driveNumber p.driveType, 0x00, 0x29] ++ le32 (createSerialNumber c) ++
    (if p.v then p.label else [0x4E, 0x4F, 0x20, 0x4E, 0x41, 0x4D, 0x45, 0x20, 0x20, 0x20, 0x20]) ++
    fileSystemType p.fatType

/-- The places of the FSInfo sector and of the copy of the boot sector, where they are not given or turned off. -/
def infoPlaces (b : StdBpb) (x : Fat32Bpb) : Fat32Bpb :=
  if x.infoSectorNumber = 0 ∨ x.backupBootSector = 0 ∨ x.infoSectorNumber = 0xFFFF ∨ x.backupBootSector = 0xFFFF then
    if b.reservedSectors ≥ 16 then { x with infoSectorNumber := 1, backupBootSector := 6 }
    else { x with infoSectorNumber := 0xFFFF, backupBootSector := 0xFFFF }
  else x

def chooseInfoSector : FormatM Unit := Prog.update fun d => { d with xbpb := infoPlaces d.bpb d.xbpb }

/-- The root directory uses up clusters of a FAT32 volume. -/
def rootClusters (d : Drive) : ℕ := d.fileSysInfo.numberRootDirSect / d.bpb.sectorsPerCluster.toNat

def createFsInfoSector : FormatM Unit := Prog.update fun d =>
  { d with sectorBuffer :=
      overlay 508 (le32 0xAA550000) (overlay 492 (le32 2)
        (overlay 488 (le32 ((d.fileSysInfo.totalClusters + (2 ^ 32 - rootClusters d)) % 2 ^ 32))
          (overlay 484 (le32 0x61417272) (overlay 0 (le32 0x41615252) fun _ => 0)))) }

/-- The copy of the boot sector has to lie behind what it is a copy of and before the FATs. -/
def useBackups (d : Drive) : ℕ :=
  let backup := d.xbpb.backupBootSector.toNat
  if backup < 3 ∨ (backup : Int) > (d.bpb.reservedSectors.toNat : Int) - 3 ∨ backup = 0xFFFF then 0 else backup

/-- The FSInfo sector can be written. -/
def infoActive (d : Drive) : Bool :=
  let info := d.xbpb.infoSectorNumber.toNat
  !decide (info + useBackups d ≥ d.bpb.reservedSectors.toNat ∨ info = 0xFFFF ∨ info = 0 ∨ info = 2)

def writeInfoSectors : FormatM Unit := do
  let d ← Prog.state
  let info := d.xbpb.infoSectorNumber.toNat
  Prog.when (infoActive d = true) do
    createFsInfoSector
    driveIo info 1
    Prog.when (useBackups d ≠ 0) do
      dosmemput [0xFF, 0xFF, 0xFF, 0xFF] 488
      driveIo (useBackups d + info) 1

def writeBootSectors : FormatM Unit := do
  driveIo 0 1
  let d ← Prog.state
  Prog.when (d.param.fatType = .fat32) do
    Prog.when (useBackups d ≠ 0) (driveIo (useBackups d) 1)
    writeInfoSectors
    clearSectorBuffer
    dosmemput [0x55, 0xAA] 510
    driveIo 2 1
    Prog.when (useBackups d ≠ 0) (driveIo (useBackups d + 2) 1)

/-- A reserved sector that `Clear_Reserved_Sectors` spares. -/
def spared (d : Drive) (index : ℕ) : Bool :=
  let reserved := d.bpb.reservedSectors.toNat
  let fsinfo := if d.xbpb.infoSectorNumber.toNat > reserved then 0 else d.xbpb.infoSectorNumber.toNat
  let backup := if d.xbpb.backupBootSector.toNat > reserved then 0 else d.xbpb.backupBootSector.toNat
  decide (d.param.fatType = .fat32 ∧
    (index = fsinfo ∨ index ≥ backup ∧ (index - backup < 3 ∨ index - backup = fsinfo)))

def clearReservedLoop : ℕ → ℕ → FormatM Unit
  | _, 0 => pure ()
  | index, n + 1 => do
    let d ← Prog.state
    Prog.when (spared d index = false) (driveIo index 1)
    clearReservedLoop (index + 1) n

/-- The loop looks at its condition after the first sector only. -/
def clearReservedSectors : FormatM Unit := do
  clearSectorBuffer
  let d ← Prog.state
  let index := if d.param.fatType = .fat32 then 3 else 1
  clearReservedLoop index (max 1 (d.bpb.reservedSectors.toNat - index))

/-- The FATs are filled with zeros, 21 sectors at a time until few are left. -/
def clearFatLoop (start last : ℕ) : ℕ → ℕ → FormatM Unit
  | _, 0 => Prog.diverge
  | sector, fuel + 1 =>
    if (last + (2 ^ 32 - start)) % 2 ^ 32 = 0 then Prog.fail .divideError
    else do
      let count := if (sector + 21) % 2 ^ 32 < last then 21 else 1
      driveIo sector count
      if (sector + count) % 2 ^ 32 ≤ last then clearFatLoop start last ((sector + count) % 2 ^ 32) fuel
      else pure ()

/-- The entries of the root directory's clusters, from byte `sbp` and cluster `cnum` on. -/
def rootChainLoop : ℕ → ℕ → ℕ → FormatM Unit
  | 0, _, _ => pure ()
  | nclust + 1, sbp, cnum =>
    if sbp ≤ 508 then do
      if nclust = 0 then dosmemput [0xFF, 0xFF, 0xFF, 0x0F] sbp
      else do
        dosmemput [UInt8.ofNat (cnum + 1)] sbp
        dosmemput [0, 0, 0] (sbp + 1)
      rootChainLoop nclust (sbp + 4) (cnum + 1)
    else pure ()

/-- The entries at the start of a FAT. -/
def putFatMarks : FormatM Unit := do
  let d ← Prog.state
  dosmemput [d.bpb.mediaDescriptor] 0
  dosmemput [0xFF, 0xFF] 1
  Prog.when (d.param.fatType = .fat16) (dosmemput [0xFF] 3)
  Prog.when (d.param.fatType = .fat32) do
    dosmemput [0x0F, 0xFF, 0xFF, 0xFF, 0x0F] 3
    rootChainLoop (rootClusters d) 8 2

def writeFatTables (loopBound : ℕ) : FormatM Unit := do
  clearSectorBuffer
  clearHugeSectorBuffer
  let d ← Prog.state
  let start := d.fileSysInfo.startFatSector
  let size := d.fileSysInfo.numberFatSectors
  let last := (size * d.bpb.numberOfFats.toNat + start + (2 ^ 32 - 1)) % 2 ^ 32
  if d.bpb.numberOfFats ≠ 1 ∧ d.bpb.numberOfFats ≠ 2 then Prog.fail (.exit 4 22)
  else do
    clearFatLoop start last start loopBound
    putFatMarks
    driveIo start 1
    Prog.when (d.bpb.numberOfFats = 2) (driveIo ((start + size) % 2 ^ 32) 1)

def clearRootLoop : ℕ → ℕ → FormatM Unit
  | _, 0 => pure ()
  | sector, n + 1 => do
    driveIo sector 1
    clearRootLoop (sector + 1) n

/-- The time and the date of the label. -/
def labelStamp (c : Clock) : List UInt8 :=
  le16 (c.second / 2 ||| c.minute * 32 ||| c.hour * 2048) ++
    le16 (c.day ||| c.month * 32 ||| (c.year + (65536 - 1980)) % 65536 * 512)

def writeRootDirectory : FormatM Unit := do
  clearSectorBuffer
  let d ← Prog.state
  let sector := d.fileSysInfo.startRootDirSect
  clearRootLoop sector (max 1 d.fileSysInfo.numberRootDirSect)
  Prog.when (d.param.v = true) do
    clearSectorBuffer
    dosmemput d.param.label 0
    dosmemput [0x08] 11
    dosmemput (labelStamp d.clock) 22
    driveIo sector 1

/-- The boot sector comes together in the sector buffer. -/
def createBootSector : FormatM Unit := do
  let d ← Prog.state
  clearSectorBuffer
  dosmemput (createBootSectStart d.param.fatType) 0
  dosmemput d.bpb.bytes 11
  Prog.when (d.param.fatType = .fat32) chooseInfoSector
  let d ← Prog.state
  Prog.when (d.param.fatType = .fat32) (dosmemput d.xbpb.bytes 36)
  let place := if d.param.fatType = .fat32 then 64 else 36
  dosmemput (createBootSectExt d.param d.clock) place
  dosmemput d.bootCode (place + 26)
  dosmemput [0x55, 0xAA] 510

def createFileSystem (loopBound : ℕ) : FormatM Unit := do
  getFsInfo
  createBootSector
  writeBootSectors
  let d ← Prog.state
  Prog.when (d.bpb.reservedSectors > 1) clearReservedSectors
  writeFatTables loopBound
  writeRootDirectory

end FreeDos32.Format
