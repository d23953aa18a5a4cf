import FreeDos32.Leanfs.Dir

namespace FreeDos32.Leanfs

open Fat (overlay le16 le32 get16 get32 hasFlag)

def pfilesPerTable : ℕ := 29

def filesPerTable : ℕ := 146

/-- The open inode with the given first cluster. -/
def Volume.isOpen (v : Volume) (firstCluster : ℕ) : Option ℕ :=
  (List.range v.numPFiles).find? fun k =>
    decide ((v.pfiles k).references ≠ 0 ∧ (v.pfiles k).firstCluster = firstCluster)

/-- Appends a table of unused inodes. -/
def Volume.extendPFiles (v : Volume) : Volume := { v with
  numPFiles := v.numPFiles + pfilesPerTable
  pfiles := fun k => if v.numPFiles ≤ k ∧ k < v.numPFiles + pfilesPerTable
    then { inode := fun _ => 0, firstCluster := 0, references := 0 } else v.pfiles k }

def Volume.extendFiles (v : Volume) : Volume := { v with
  numFiles := v.numFiles + filesPerTable
  files := fun k => if v.numFiles ≤ k ∧ k < v.numFiles + filesPerTable
    then { pf := 0, flags := 0, references := 0, filePointer := 0, icluster := 0, iclusterFirst := 0 } else v.files k }

/-- An unused inode of the tables. -/
def freePFile : LeanM ℕ := do
  let v ← Prog.state
  match ((List.range v.numPFiles).filter fun k => decide ((v.pfiles k).references = 0)).getLast? with
  | some k => pure k
  | none =>
    if ← malloc then
      Prog.update Volume.extendPFiles
      pure v.numPFiles
    else Prog.fail .enomem

def takePFile (firstCluster : ℕ) : LeanM ℕ := do
  let v ← Prog.state
  match v.isOpen firstCluster with
  | some pf =>
    Prog.update (Volume.setPFile pf fun x => { x with references := x.references + 1 })
    pure pf
  | none =>
    let pf ← freePFile
    let b ← leanfsReadbuf firstCluster .null
    let v ← Prog.state
    Prog.update (Volume.setPFile pf fun _ => { inode := v.data b, firstCluster := firstCluster, references := 1 })
    pure pf

/-- The inode goes to disk with the last reference. -/
def releasePFile (pf : ℕ) : LeanM Unit := do
  let v ← Prog.state
  if (v.pfiles pf).references = 0 then Prog.fail .ebadf
  else
    Prog.update (Volume.setPFile pf fun x => { x with references := x.references - 1 })
    Prog.when ((v.pfiles pf).references = 1) do
      let b ← leanfsReadbuf (v.pfiles pf).firstCluster .null
      poke b (v.pfiles pf).inode.store

/-- None when there is no memory. -/
def takeFile (pf flags : ℕ) : LeanM (Option ℕ) := do
  let v ← Prog.state
  let free := ((List.range v.numFiles).filter fun k => decide ((v.files k).references = 0)).getLast?
  let f ← match free with
    | some k => pure (some k)
    | none =>
      if ← malloc then
        Prog.update Volume.extendFiles
        pure (some v.numFiles)
      else pure none
  f.elim (pure ()) fun f => Prog.update (Volume.setFile f fun _ =>
    { pf := pf, flags := flags, references := 1, filePointer := 0, icluster := 0, iclusterFirst := 0 })
  pure f

/-- The checks of `leanfs_open` on the inode; O_RDONLY is no bit. -/
def openDenied (i : Inode) (flags : ℕ) (create : Bool) : Option Errno :=
  let writes := hasFlag flags oWronly || hasFlag flags oRdwr || hasFlag flags oTrunc
  if !create && !hasFlag i.attributes leanfsIrusr && hasFlag flags oRdwr then some .eacces
  else if !create && !hasFlag i.attributes leanfsIwusr && writes then some .eacces
  else if i.isDir && !hasFlag flags oDirectory && writes then some .eisdir
  else if hasFlag flags oDirectory && !i.isDir then some .enotdir
  else none

/-- The second half of `leanfs_open`. -/
def openInode (firstCluster flags : ℕ) (create : Bool) : LeanM ℕ := do
  let pf ← takePFile firstCluster
  let v ← Prog.state
  match openDenied (v.pfiles pf).inode flags create with
  | some e =>
    let _ ← (releasePFile pf).attempt
    Prog.fail e
  | none =>
    match ← takeFile pf flags with
    | some f => pure f
    | none =>
      let _ ← (releasePFile pf).attempt
      Prog.fail .enomem

def leanfsOpen (parent : ℕ) (name : List UInt8) (flags mode : ℕ) : LeanM ℕ := do
  match ← (leanfsFind parent name).attempt with
  | .ok de =>
    if hasFlag flags oCreat && hasFlag flags oExcl then Prog.fail .eexist
    else openInode de.inode flags false
  | .error e =>
    if e = Errno.enoent ∧ hasFlag flags oCreat = true then
      leanfsCreateInode parent mode name
      let de ← leanfsFind parent name
      openInode de.inode flags true
    else Prog.fail e

/-- Of writing the buffers and the superblock back nothing shows but that the backup of the superblock is read. -/
def leanfsSync : LeanM Unit := do
  let v ← Prog.state
  let _ ← leanfsReadbuf v.backupSuper .null

def leanfsClose (f : ℕ) : LeanM Unit := do
  let v ← Prog.state
  if (v.files f).references = 0 then Prog.fail .ebadf
  else
    Prog.update (Volume.setFile f fun x => { x with references := x.references - 1 })
    if (v.files f).references = 1 then
      let _ ← (releasePFile (v.files f).pf).attempt
    let v ← Prog.state
    Prog.when ((v.pfiles (v.files f).pf).references = 0) do
      Prog.when ((v.inode f).linksCount = 0) (leanfsDeleteClusters f 0)
      leanfsSync

def leanfsLink (oldFile newDir : ℕ) (newName : List UInt8) : LeanM Unit := do
  let v ← Prog.state
  leanfsDoLink newDir (v.pfiles (v.files oldFile).pf).firstCluster (leanfsIfmtToFt (v.inode oldFile).attributes) newName
  let v ← Prog.state
  Prog.update (Volume.setInode oldFile (Inode.setLinksCount ((v.inode oldFile).linksCount + 1)))

/-- Takes one from the links of the file that an entry names; through an open instance of its own where it is not
open. It is not looked whether that could be opened. -/
def dropLink (parent inode : ℕ) (name : List UInt8) : LeanM Unit := do
  let v ← Prog.state
  match v.isOpen inode with
  | none =>
    match ← (leanfsOpen parent name oWronly 0).attempt with
    | .error _ => Prog.diverge
    | .ok f =>
      let v ← Prog.state
      if (v.inode f).linksCount = 0 then Prog.fail .eio
      else
        Prog.update (Volume.setInode f (Inode.setLinksCount ((v.inode f).linksCount - 1)))
        let _ ← (leanfsClose f).attempt
  | some pf =>
    if (v.pfiles pf).inode.linksCount = 0 then Prog.fail .eio
    else
      Prog.update (Volume.setPFile pf fun x => { x with
        inode := x.inode.setLinksCount ((v.pfiles pf).inode.linksCount - 1) })

def leanfsUnlink (parent : ℕ) (name : List UInt8) : LeanM Unit := do
  let de ← leanfsFind parent name
  dropLink parent de.inode name
  let v ← Prog.state
  Prog.update (Volume.setPointer parent ((v.files parent).filePointer - de.recLen))
  let res ← leanfsWrite parent (headerBytes 0 de.recLen de.nameLen de.type)
  if res ≠ headerSize then Prog.fail .eio else pure ()

/-- The entries "." and ".." of a new directory. -/
def dotEntries (self parent : ℕ) : List UInt8 :=
  headerBytes self 12 1 leanfsFtDir ++ [0x2E, 0, 0, 0] ++ headerBytes parent 12 2 leanfsFtDir ++ [0x2E, 0x2E, 0, 0]

def leanfsMkdir (parent : ℕ) (name : List UInt8) (mode : ℕ) : LeanM Unit := do
  let f ← leanfsOpen parent name (oWronly ||| oCreat ||| oExcl ||| oDirectory) mode
  let v ← Prog.state
  let e := dotEntries (v.pfiles (v.files f).pf).firstCluster (v.pfiles (v.files parent).pf).firstCluster
  let res ← leanfsWrite f e
  if res < e.length then Prog.fail .enospc
  else
    let v ← Prog.state
    Prog.update (Volume.setInode f (Inode.setLinksCount ((v.inode f).linksCount + 2)))
    leanfsClose f

/-- Opens the root directory the way `fs_open` begins. -/
def openRoot (flags : ℕ) : LeanM ℕ := do
  let v ← Prog.state
  let pf ← takePFile v.rootStartCluster
  match ← takeFile pf flags with
  | some f => pure f
  | none => Prog.diverge

end FreeDos32.Leanfs
