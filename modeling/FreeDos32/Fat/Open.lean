import FreeDos32.Fat.File

namespace FreeDos32.Fat

def fileInit (f : ℕ) (de : Direntry) (deSector deSecofs : ℕ) (v : Volume) : Volume :=
  { v.setFile f fun _ =>
      { de := de, deChanged := false, deSector := deSector, deSecofs := deSecofs,
        firstCluster := de.firstCluster, references := 0 } with
    filesOpen := f :: v.filesOpen }

/-- The open file that `file_get` takes for the entry. -/
def Volume.findFile (v : Volume) (de : Direntry) (deSector deSecofs : ℕ) : Option ℕ :=
  v.filesOpen.find? fun k =>
    if de.firstCluster ≠ 0 then (v.files k).firstCluster == de.firstCluster
    else (v.files k).deSector == deSector && (v.files k).deSecofs == deSecofs

/-- The source does not look whether there was memory for the new file. -/
def fileGet (de : Direntry) (deSector deSecofs : ℕ) : FatM ℕ := do
  let v ← Prog.state
  let f := (v.findFile de deSector deSecofs).getD v.nextId
  Prog.when ((v.findFile de deSector deSecofs).isNone = true) do
    Prog.update fun v => fileInit f de deSector deSecofs { v with nextId := v.nextId + 1 }
  Prog.update (Volume.setFile f fun x => { x with references := x.references + 1 })
  pure f

def filePut (f : ℕ) : FatM Unit := do
  Prog.update (Volume.setFile f fun x => { x with references := x.references - 1 })
  Prog.update fun v => if (v.files f).references = 0 then { v with filesOpen := v.filesOpen.erase f } else v

def dget (d : ℕ) (v : Volume) : Volume :=
  { v.setDentry d fun x => { x with references := x.references + 1 } with
    numDentries := v.numDentries + 1 }

def fatDget (d : ℕ) : FatM Unit := Prog.update (dget d)

def dentryInit (d parent deEntcnt deSector : ℕ) (attr : UInt8) (lfnEntries : ℕ) (v : Volume) : Volume :=
  let v := { v.setDentry d fun _ =>
      { parent := some parent, children := [], references := 0, deSector := deSector,
        deEntcnt := deEntcnt % 65536, attr := attr, lfnEntries := lfnEntries % 256 } with
    dentriesSlab := d :: v.dentriesSlab }
  (dget parent v).setDentry parent fun x => { x with children := d :: x.children }

def dentryGet (parent deEntcnt deSector : ℕ) (attr : UInt8) (lfnEntries : ℕ) : FatM (Option ℕ) := do
  let v ← Prog.state
  match (v.dentries parent).children.find? fun k => deEntcnt == (v.dentries k).deEntcnt with
  | some d =>
    fatDget d
    pure (some d)
  | none =>
    match ← slabmemAlloc with
    | none => pure none
    | some d =>
      Prog.update (dentryInit d parent deEntcnt deSector attr lfnEntries)
      fatDget d
      pure (some d)

def dput (d : ℕ) (v : Volume) : Volume :=
  { v.setDentry d fun x => { x with references := x.references - 1 } with
    numDentries := v.numDentries - 1 }

def freeDentry (d parent : ℕ) (v : Volume) : Volume :=
  { v.setDentry parent fun x => { x with children := x.children.erase d } with
    dentriesSlab := v.dentriesSlab.erase d }

def dputLoop : ℕ → ℕ → FatM Unit
  | 0, _ => Prog.diverge
  | fuel + 1, d => do
    Prog.update (dput d)
    let v ← Prog.state
    if (v.dentries d).references ≠ 0 then pure ()
    else
      match (v.dentries d).parent with
      | none => pure ()
      | some parent =>
        Prog.update (freeDentry d parent)
        dputLoop fuel parent

def fatDput (d : ℕ) : FatM Unit := do
  let v ← Prog.state
  dputLoop (v.dentriesSlab.length + 1) d

def channelInit (c f : ℕ) (d : Option ℕ) (flags : ℕ) (v : Volume) : Volume :=
  { v.setChannel c fun _ =>
      { filePointer := 0, f := f, magic := true, flags := flags, references := 1,
        clusterIndex := 0, cluster := 0, dentry := d } with
    channelsOpen := c :: v.channelsOpen }

def channelGet (f : ℕ) (d : Option ℕ) (flags : ℕ) : FatM (Option ℕ) := do
  match ← slabmemAlloc with
  | none => pure none
  | some c =>
    Prog.update (channelInit c f d flags)
    d.elim (pure ()) fatDget
    pure (some c)

/-- The checks of the opening flags that `fat_open` starts with. -/
def Dentry.denies (d : Dentry) (flags : ℕ) : Option Errno :=
  let writes := hasFlag flags oWronly || hasFlag flags oRdwr || hasFlag flags oTrunc
  if writes && hasAttr d.attr fatARdonly then some .eacces
  else if writes && !hasFlag flags oDirectory && hasAttr d.attr fatADir then some .eisdir
  else if hasFlag flags oDirectory && !hasAttr d.attr fatADir then some .enotdir
  else none

/-- The directory entry synthesized for the root directory. -/
def rootDirentry (g : Geometry) : Direntry :=
  Direntry.setFirstCluster g.rootCluster (Direntry.setAttr fatADir fun _ => 0)

def Dentry.secofs (d : Dentry) (g : Geometry) : ℕ := d.deEntcnt * 32 % g.bytesPerSector

def fetchDirentry (dentry : ℕ) : FatM Direntry := do
  let v ← Prog.state
  match (v.dentries dentry).parent with
  | some _ =>
    let (b, res) ← fatReadbuf (v.dentries dentry).deSector none
    let bytes ← bufBytes b (res + (v.dentries dentry).secofs v.geo) 32
    pure (Direntry.ofBytes bytes)
  | none => pure (rootDirentry v.geo)

def fatOpen (dentry flags : ℕ) : FatM ℕ := do
  let v ← Prog.state
  match (v.dentries dentry).denies flags with
  | some e => Prog.fail e
  | none =>
    let de ← fetchDirentry dentry
    let f ← fileGet de (v.dentries dentry).deSector ((v.dentries dentry).secofs v.geo)
    match ← channelGet f (some dentry) flags with
    | some c => pure c
    | none =>
      filePut f
      Prog.fail .enomem

/-- Writes the cached directory entry of a file back. -/
def writeDirentry (fid : ℕ) : FatM Unit := do
  let v ← Prog.state
  let f := v.files fid
  let (b, res) ← fatReadbuf f.deSector none
  bufWrite b (res + f.deSecofs) f.de.toBytes
  Prog.update (Volume.setFile fid fun f => { f with deChanged := false })
  fatDirtybuf b false

def fatFsync (c : ℕ) (datasync : Bool) : FatM Unit := do
  let v ← Prog.state
  if (v.channels c).magic = false then Prog.fail .ebadf
  else
    let f := v.files (v.channels c).f
    Prog.when (datasync = false ∧ f.deChanged = true ∧ f.deSector ≠ 0 ∧ f.deSector ≠ fatUnlinked)
      (writeDirentry (v.channels c).f)
    fatSync

def freeChannel (c : ℕ) (v : Volume) : Volume :=
  { v.setChannel c fun x => { x with magic := false } with channelsOpen := v.channelsOpen.erase c }

/-- `fat_close` from where the last reference to the open instance is gone. -/
def channelPut (c : ℕ) : FatM Unit := do
  let v ← Prog.state
  (v.channels c).dentry.elim (pure ()) fatDput
  filePut (v.channels c).f
  Prog.update (freeChannel c)

def fatClose (c : ℕ) : FatM Unit := do
  let v ← Prog.state
  if (v.channels c).magic = false ∨ (v.channels c).references = 0 then Prog.fail .ebadf
  else
    let f := v.files (v.channels c).f
    let last : Bool := (v.channels c).references == 1
    Prog.update (Volume.setChannel c fun x => { x with references := x.references - 1 })
    let res ← (do
      Prog.when (last = true ∧ f.deSector = fatUnlinked) (fatDeleteClusters f.firstCluster)
      fatFsync c false).attempt
    Prog.when (last = true) (channelPut c)
    Prog.ofExcept res

def fatAddref (c : ℕ) : FatM ℕ := do
  let v ← Prog.state
  if (v.channels c).magic = false then Prog.fail .ebadf
  else
    Prog.update (Volume.setChannel c fun x => { x with references := x.references + 1 })
    pure ((v.channels c).references + 1)

def closeAll : List ℕ → FatM Unit
  | [] => pure ()
  | c :: cs => do
    let _ ← (fatClose c).attempt
    closeAll cs

/-- The `goto error` exits: when the call fails, closes open instances whatever that returns. -/
def orClose {α : Type} (cs : List ℕ) (x : FatM α) : FatM α := do
  match ← x.attempt with
  | .ok a => pure a
  | .error e =>
    closeAll cs
    Prog.fail e

end FreeDos32.Fat
