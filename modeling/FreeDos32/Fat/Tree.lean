import FreeDos32.Fat.Dir

namespace FreeDos32.Fat

/-- The loop of `fat_lookup` over the entries of the open directory. -/
def lookupLoop (c : ℕ) (fn : List UInt8) : ℕ → FatM Unit
  | 0 => Prog.diverge
  | fuel + 1 => do
    fatDoReaddir c
    let v ← Prog.state
    if hasAttr (v.lud.cde v.lud.cdePos).attr fatAVolid then lookupLoop c fn fuel
    else
      let res ← Prog.ofExcept (compareWithoutWildcards v.lud.lfn fn)
      if res then pure ()
      else
        let res ← Prog.ofExcept (compareWithoutWildcards v.lud.sfn fn)
        if res then pure () else lookupLoop c fn fuel

/-- The node of the entry that the loop has stopped at, in exchange for the node of the directory. -/
def lookupFound (dentry : ℕ) : FatM ℕ := do
  let v ← Prog.state
  let lud := v.lud
  match ← dentryGet dentry (lud.deDirofs / 32) lud.deSector (lud.cde lud.cdePos).attr lud.lfnEntries with
  | none => Prog.fail .enomem
  | some d =>
    fatDput dentry
    pure d

def lookupName (c dentry : ℕ) (fn : List UInt8) : FatM ℕ := do
  let v ← Prog.state
  match ← (lookupLoop c fn v.geo.loopBound).attempt with
  | .ok () => lookupFound dentry
  | .error e => Prog.fail (if e = Errno.enmfile then .enoent else e)

def fatLookup (dentry : ℕ) (fn : List UInt8) : FatM ℕ := do
  let v ← Prog.state
  if fn = [] ∨ fn = [0x2E] then
    if hasAttr (v.dentries dentry).attr fatADir then pure dentry else Prog.fail .enotdir
  else if fn = [0x2E, 0x2E] then
    match (v.dentries dentry).parent with
    | none => pure dentry
    | some d =>
      fatDget d
      fatDput dentry
      pure d
  else
    let c ← fatOpen dentry (oRdonly ||| oDirectory)
    let res ← (lookupName c dentry fn).attempt
    let _ ← (fatClose c).attempt
    Prog.ofExcept res

def createObjects (dparent f d c flags : ℕ) : FatM Unit := do
  let v ← Prog.state
  let lud := v.lud
  let de := lud.cde lud.cdePos
  Prog.update (fileInit f de lud.deSector lud.deSecofs)
  Prog.update (Volume.setFile f fun x => { x with references := 1 })
  Prog.update (dentryInit d dparent (lud.deDirofs / 32) lud.deSector de.attr lud.lfnEntries)
  fatDget d
  Prog.update (channelInit c f (some d) flags)

def fatCreate (dparent : ℕ) (fn : List UInt8) (flags : ℕ) (mode : UInt8) : FatM ℕ := do
  let mode := if hasFlag flags oDirectory then mode ||| fatADir else mode
  let cparent ← fatOpen dparent (oRdwr ||| oDirectory)
  let f ← slabmemAlloc
  let d ← slabmemAlloc
  let c ← slabmemAlloc
  match f, d, c with
  | some f, some d, some c =>
    orClose [cparent] do
      fatLink cparent fn mode 1
      fatClose cparent
    createObjects dparent f d c flags
    pure c
  | _, _, _ => orClose [cparent] (Prog.fail .enomem)

def removeCheck (c : ℕ) (dir : Bool) : FatM Unit := do
  let v ← Prog.state
  let isDir := hasAttr (v.files (v.channels c).f).de.attr fatADir
  if dir then
    if isDir then directoryIsEmpty c else Prog.fail .enotdir
  else if isDir then Prog.fail .eperm else pure ()

def deleteLink (cparent d : ℕ) : FatM Unit := do
  let v ← Prog.state
  let x := v.dentries d
  deleteEntries cparent (x.deEntcnt - x.lfnEntries) (x.lfnEntries + 1)

/-- Marks a file and its node as unlinked. -/
def Volume.markUnlinked (f d : ℕ) (v : Volume) : Volume :=
  (v.setFile f fun x => { x with deSector := fatUnlinked }).setDentry d fun x =>
    { x with deSector := fatUnlinked }

def fatRemove (d : ℕ) (dir : Bool) : FatM Unit := do
  let v ← Prog.state
  match (v.dentries d).parent with
  | none => Prog.fail (if dir then .ebusy else .eperm)
  | some dparent =>
    let cparent ← fatOpen dparent (oWronly ||| oDirectory)
    let c ← orClose [cparent] (fatOpen d 0)
    orClose [cparent, c] do
      removeCheck c dir
      deleteLink cparent d
      Prog.update fun v => v.markUnlinked (v.channels c).f d
      fatClose c
    fatClose cparent

def fatUnlink (d : ℕ) : FatM Unit := fatRemove d false

def fatRmdir (d : ℕ) : FatM Unit := fatRemove d true

/-- Whether a node is in the path prefix of another: `fuel` nodes are looked at. -/
def Volume.isPrefix (v : Volume) (od : ℕ) : ℕ → ℕ → Bool
  | 0, _ => false
  | fuel + 1, d => d == od ||
    match (v.dentries d).parent with
    | none => false
    | some parent => v.isPrefix od fuel parent

structure RenameChannels where
  ocparent : ℕ
  ncparent : ℕ
  oc : ℕ

def RenameChannels.toList (cs : RenameChannels) : List ℕ := [cs.ocparent, cs.ncparent, cs.oc]

def renameOpen (od odparent ndparent : ℕ) : FatM RenameChannels := do
  let ocparent ← fatOpen odparent (oWronly ||| oDirectory)
  let ncparent ← orClose [ocparent] (fatOpen ndparent (oRdwr ||| oDirectory))
  let oc ← orClose [ocparent, ncparent] (fatOpen od 0)
  pure ⟨ocparent, ncparent, oc⟩

/-- Makes a new link or opens the file that has the name already, as the lookup of the new name says.
The node that was taken for it is not released after another error than `-ENOENT`. -/
def renameTarget (ncparent ndparent : ℕ) (nn : List UInt8) : Except Errno ℕ → FatM (Option ℕ)
  | .error .enoent => do
    fatDput ndparent
    fatLink ncparent nn 0 1
    pure none
  | .error e => Prog.fail e
  | .ok d => do
    let res ← (fatOpen d 0).attempt
    fatDput d
    let nc ← Prog.ofExcept res
    pure (some nc)

def renameCheck (oc : ℕ) : Option ℕ → FatM Unit
  | none => pure ()
  | some nc => do
    let v ← Prog.state
    let isDir := fun c => hasAttr (v.files (v.channels c).f).de.attr fatADir
    if isDir oc then
      if isDir nc then directoryIsEmpty nc else Prog.fail .enotdir
    else if isDir nc then Prog.fail .eisdir else pure ()

def renameWrite (cs : RenameChannels) : FatM Unit := do
  let v ← Prog.state
  let old := (v.files (v.channels cs.oc).f).de
  Prog.update (Volume.setLud fun lud => lud.setCde lud.cdePos (overlay 11 (old.toBytes.drop 11)))
  let v ← Prog.state
  writeAll cs.ncparent (some (v.lud.cde v.lud.cdePos).toBytes) 32 v.lud.deDirofs

def renameReplaced (nc : ℕ) : FatM Unit := do
  Prog.update fun v =>
    match (v.channels nc).dentry with
    | none => v
    | some d => v.markUnlinked (v.channels nc).f d
  fatClose nc

/-- The cached file and node of the renamed file follow its new entry. -/
def Volume.relocate (od oc : ℕ) (v : Volume) : Volume :=
  (v.setFile (v.channels oc).f fun f => { f with deSector := v.lud.deSector, deSecofs := v.lud.deSecofs }).setDentry
    od fun d => { d with
      deSector := v.lud.deSector
      deEntcnt := v.lud.deDirofs / 32 % 65536
      lfnEntries := v.lud.lfnEntries % 256 }

def renameUnlink (od : ℕ) (cs : RenameChannels) : FatM Unit := do
  deleteLink cs.ocparent od
  Prog.update (Volume.relocate od cs.oc)

def eraseChild (d parent : ℕ) (v : Volume) : Volume :=
  v.setDentry parent fun x => { x with children := x.children.erase d }

def pushChild (d parent : ℕ) (v : Volume) : Volume :=
  (dget parent (v.setDentry parent fun x => { x with children := d :: x.children })).setDentry d fun x =>
    { x with parent := some parent }

def moveDentry (od odparent ndparent : ℕ) : FatM Unit := do
  Prog.update (eraseChild od odparent)
  fatDput odparent
  Prog.update (pushChild od ndparent)

/-- The update of the ".." entry through the open directory `nc`. -/
def updateDotdot (nc ncparent : ℕ) : FatM Unit := do
  seek nc 32
  let bytes ← fatRead nc 32
  if bytes.length ≠ 32 ∨ (Direntry.ofBytes bytes).name ≠ dotdotName then Prog.fail .eio
  else
    let v ← Prog.state
    let dotdot := (Direntry.ofBytes bytes).setFirstCluster (v.files (v.channels ncparent).f).firstCluster
    writeAll nc (some dotdot.toBytes) 32 32
    fatClose nc

/-- Moves the renamed node if needed; returns the open instance that the ".." entry of a directory has
been updated through. -/
def renameMove (od odparent ndparent : ℕ) (cs : RenameChannels) : FatM (Option ℕ) := do
  if ndparent = odparent then pure none
  else
    moveDentry od odparent ndparent
    let v ← Prog.state
    if hasAttr (v.dentries od).attr fatADir then
      let nc ← orClose cs.toList (fatOpen od (oRdwr ||| oDirectory))
      orClose (cs.toList ++ [nc]) (updateDotdot nc cs.ncparent)
      pure (some nc)
    else pure none

def renameClose (cs : RenameChannels) : FatM Unit := do
  fatClose cs.oc
  fatClose cs.ocparent
  fatClose cs.ncparent

def renameLookup (od ndparent : ℕ) (nn : List UInt8) : FatM (ℕ × RenameChannels × Except Errno ℕ) := do
  let v ← Prog.state
  match (v.dentries od).parent with
  | none => Prog.fail .ebusy
  | some odparent =>
    if v.isPrefix od (v.dentriesSlab.length + 1) ndparent then Prog.fail .einval
    else
      let cs ← renameOpen od odparent ndparent
      fatDget ndparent
      let res ← (fatLookup ndparent nn).attempt
      pure (odparent, cs, res)

def fatRename (od ndparent : ℕ) (nn : List UInt8) : FatM Unit := do
  let (odparent, cs, res) ← renameLookup od ndparent nn
  let nc ← orClose cs.toList (renameTarget cs.ncparent ndparent nn res)
  orClose (cs.toList ++ nc.toList) do
    renameCheck cs.oc nc
    renameWrite cs
  nc.elim (pure ()) fun nc => orClose cs.toList (renameReplaced nc)
  orClose cs.toList (renameUnlink od cs)
  let nc ← renameMove od odparent ndparent cs
  orClose (cs.toList ++ nc.toList) (renameClose cs)

/-- The first cluster for the ".." entry of a directory in `dparent`. -/
def dotdotCluster (dparent : ℕ) : FatM ℕ := do
  let v ← Prog.state
  match (v.dentries dparent).parent with
  | none => pure 0
  | some _ =>
    let (b, res) ← fatReadbuf (v.dentries dparent).deSector none
    let bytes ← bufBytes b (res + (v.dentries dparent).secofs v.geo) 32
    pure (Direntry.ofBytes bytes).firstCluster

def mkdirDots (c dparent : ℕ) : FatM Unit := do
  let v ← Prog.state
  writeAll c none v.geo.bytesPerCluster 0
  let v ← Prog.state
  let dot := ((v.files (v.channels c).f).de).setName dotName
  writeAll c (some dot.toBytes) 32 0
  let parentCluster ← dotdotCluster dparent
  let dotdot := (dot.setFirstCluster parentCluster).setName dotdotName
  writeAll c (some dotdot.toBytes) 32 32

def fatMkdir (dparent : ℕ) (fn : List UInt8) (mode : UInt8) : FatM Unit := do
  let c ← fatCreate dparent fn (oWronly ||| oDirectory ||| oCreat ||| oExcl) mode
  orClose [c] (mkdirDots c dparent)
  fatClose c

end FreeDos32.Fat
