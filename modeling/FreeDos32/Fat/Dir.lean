import FreeDos32.Fat.Name
import FreeDos32.Fat.Open

namespace FreeDos32.Fat

def seek (c pos : ℕ) : FatM Unit := Prog.update (Volume.setChannel c fun x => { x with filePointer := pos })

def collides (c : ℕ) (aux : List UInt8) : ℕ → FatM Bool
  | 0 => Prog.diverge
  | fuel + 1 => do
    let de ← fatRead c 32
    if de = [] ∨ de.head? = some fatEndofdir then pure false
    else if de.length ≠ 32 then Prog.fail .eio
    else
      let de := Direntry.ofBytes de
      if de 0 ≠ fatFreeent ∧ hasAttr de.attr fatAVolid = false ∧ de.name = aux then pure true
      else collides c aux fuel

/-- Tries the numeric tails from `counter` on. -/
def tryTails (c : ℕ) (dest : List UInt8) : ℕ → ℕ → FatM (List UInt8)
  | 0, _ => Prog.fail .eexist
  | n + 1, counter => do
    seek c 0
    let v ← Prog.state
    if ← collides c (withTail dest counter) v.geo.loopBound then tryTails c dest n (counter + 1)
    else pure (withTail dest counter)

def setShortFname (dest : List UInt8) : FatM Unit :=
  Prog.update (Volume.setLud (LookupData.setCde (lfnFetchSlots - 1) (Direntry.setName dest)))

def genShortFname (c : ℕ) (src : List UInt8) (hint : ℕ) : FatM Bool := do
  setShortFname (genShortFname1 src).1
  let res ← Prog.ofExcept (genShortFname1 src).2
  if res ≤ 1 then pure (res == 1)
  else
    let dest ← tryTails c (genShortFname1 src).1 (65536 - hint) hint
    setShortFname dest
    pure true

def direntryLocation (c : ℕ) (v : Volume) : Volume :=
  let x := v.channels c
  let dirofs := x.filePointer - 32
  let index := dirofs / v.geo.bytesPerSector
  let sector := if (v.files x.f).isFixedRoot then index + v.geo.rootSector
    else index % v.geo.sectorsPerCluster + v.geo.clusterSector x.cluster
  v.setLud fun lud => { lud with
    deDirofs := dirofs, deSector := sector, deSecofs := dirofs % v.geo.bytesPerSector }

def Direntry.isShort (de : Direntry) : Bool :=
  de 0 != fatFreeent && (!hasAttr de.attr fatAVolid || de.attr == fatAVolid)

/-- What `fat_do_readdir` does with the short entry that it has read last. -/
def readShort (c : ℕ) : FatM Unit := do
  let v ← Prog.state
  match fetchLfn (v.channels c).filePointer v.lud with
  | .error e =>
    Prog.update (Volume.setLud fun lud => { lud with lfnEntries := 0, lfn := [] })
    Prog.fail e
  | .ok (entries, lfn) =>
    Prog.update (Volume.setLud fun lud => { lud with lfnEntries := entries, lfn := lfn })
    let sfn ← Prog.ofExcept (expandFcbName (v.lud.cde v.lud.cdePos).name)
    Prog.update (Volume.setLud fun lud => { lud with sfn := sfn })
    Prog.update (direntryLocation c)

def readdirLoop (c : ℕ) : ℕ → FatM Unit
  | 0 => Prog.diverge
  | fuel + 1 => do
    let bytes ← fatRead c 32
    Prog.update (Volume.setLud fun lud => lud.setCde lud.cdePos (overlay 0 bytes))
    if bytes = [] then Prog.fail .enmfile
    else if bytes.length ≠ 32 then Prog.fail .eftype
    else if bytes.head? = some fatEndofdir then Prog.fail .enmfile
    else if (Direntry.ofBytes bytes).isShort then readShort c
    else
      Prog.update (Volume.setLud fun lud => { lud with
        cdePos := if lud.cdePos + 1 = lfnFetchSlots then 0 else lud.cdePos + 1 })
      readdirLoop c fuel

def fatDoReaddir (c : ℕ) : FatM Unit := do
  let v ← Prog.state
  if hasAttr (v.files (v.channels c).f).de.attr fatADir = false then Prog.fail .ebadf
  else
    Prog.update (Volume.setLud fun lud => { lud with cdePos := 0 })
    readdirLoop c v.geo.loopBound

def writeAll (c : ℕ) (buffer : Option (List UInt8)) (size offset : ℕ) : FatM Unit := do
  let res ← fatDoWrite c buffer size offset
  if res ≠ size then Prog.fail .eio else pure ()

def deleteEntries (c : ℕ) : ℕ → ℕ → FatM Unit
  | _, 0 => pure ()
  | entry, count + 1 => do
    writeAll c (some [fatFreeent]) 1 (entry * 32)
    deleteEntries c (entry + 1) count

/-- The search of `find_free_entries`: `found` free entries precede the file pointer, the first of them
at `entryOffset`. None at the end of the directory. -/
def findFreeLoop (c numEntries : ℕ) : ℕ → ℕ → ℕ → FatM (Option ℕ)
  | 0, _, _ => Prog.diverge
  | fuel + 1, found, entryOffset => do
    let bytes ← fatRead c 32
    if bytes = [] then pure none
    else if bytes.length ≠ 32 then Prog.fail .eio
    else
      let v ← Prog.state
      let free : Bool := bytes.head? == some fatFreeent || bytes.head? == some fatEndofdir
      let entryOffset := if free ∧ found = 0 then (v.channels c).filePointer - 32 else entryOffset
      let found := if free then found + 1 else 0
      if found = numEntries then pure (some entryOffset)
      else findFreeLoop c numEntries fuel found entryOffset

def Geometry.bytesPerCluster (g : Geometry) : ℕ := 2 ^ (g.logBytesPerSector + g.logSectorsPerCluster)

def findFreeEntries (c numEntries : ℕ) : FatM ℕ := do
  seek c 0
  let v ← Prog.state
  match ← findFreeLoop c numEntries v.geo.loopBound 0 0 with
  | some entryOffset => pure entryOffset
  | none =>
    let v ← Prog.state
    writeAll c none v.geo.bytesPerCluster (v.channels c).filePointer
    pure (v.channels c).filePointer

def Direntry.fresh (attr : UInt8) (now : DosStamp) (de : Direntry) : Direntry :=
  ((((((((de.setAttr attr).setNtCase 0).setCreTime now.time).setCreDate now.date).setCreTimeHund
    now.hund).setAccDate now.date).setModTime now.time).setModDate now.date).setFirstCluster 0
    |>.setFileSize 0

def linkEntries (c : ℕ) : ℕ → ℕ → FatM Unit
  | _, 0 => pure ()
  | k, n + 1 => do
    let v ← Prog.state
    let pos := (v.channels c).filePointer
    writeAll c (some (v.lud.cde k).toBytes) 32 pos
    seek c (pos + 32)
    linkEntries c (k + 1) n

def splitName (fn : List UInt8) : FatM Unit := do
  let v ← Prog.state
  let split := splitLfn fn (lfnChecksum (v.lud.cde (lfnFetchSlots - 1)).name) v.lud
  Prog.update (Volume.setLud fun _ => split.2)
  Prog.ofExcept split.1

def fatLink (c : ℕ) (fn : List UInt8) (attr : UInt8) (hint : ℕ) : FatM Unit := do
  Prog.update (Volume.setLud fun lud => { lud with cdePos := lfnFetchSlots - 1, lfnEntries := 0 })
  let long ← genShortFname c fn hint
  Prog.when (long = true) (splitName fn)
  let v ← Prog.state
  let entryOffset ← findFreeEntries c (v.lud.lfnEntries + 1)
  let now ← fatTimestamps
  Prog.update (Volume.setLud (LookupData.setCde (lfnFetchSlots - 1) (Direntry.fresh attr now)))
  seek c entryOffset
  let v ← Prog.state
  linkEntries c (lfnFetchSlots - 1 - v.lud.lfnEntries) (v.lud.lfnEntries + 1)
  Prog.update (direntryLocation c)

def dotName : List UInt8 := padded 11 [0x2E]

def dotdotName : List UInt8 := padded 11 [0x2E, 0x2E]

def expectEntry (c : ℕ) (name : List UInt8) : FatM Unit := do
  let bytes ← fatRead c 32
  if bytes.length ≠ 32 ∨ (Direntry.ofBytes bytes).name ≠ name then Prog.fail .eio else pure ()

def expectFree (c : ℕ) : ℕ → FatM Unit
  | 0 => Prog.diverge
  | fuel + 1 => do
    let bytes ← fatRead c 32
    if bytes.length ≠ 32 then Prog.fail .eio
    else
      let de := Direntry.ofBytes bytes
      if de 0 = fatEndofdir then pure ()
      else if hasAttr de.attr fatAVolid = false ∧ de 0 ≠ fatFreeent then Prog.fail .enotempty
      else expectFree c fuel

def directoryIsEmpty (c : ℕ) : FatM Unit := do
  expectEntry c dotName
  expectEntry c dotdotName
  let v ← Prog.state
  expectFree c v.geo.loopBound

end FreeDos32.Fat
