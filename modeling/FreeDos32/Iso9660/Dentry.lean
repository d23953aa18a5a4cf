import FreeDos32.Iso9660.Find
import FreeDos32.Library.RefTree

namespace FreeDos32.Iso9660

open RefTree (Counts)

def oWronly : ℕ := 1

def oRdwr : ℕ := 2

def oDirectory : ℕ := 2 ^ 16

def oCreat : ℕ := 2 ^ 18

def oExcl : ℕ := 2 ^ 19

def oTrunc : ℕ := 2 ^ 20

def flRec : ℕ := 8

def flMe : ℕ := 128

abbrev Key := ℕ × ℕ

/-- A cached directory node by the records on the way to it, its own first; the root has none. -/
abbrev Path := List Key

/-- `struct File`, with the members of the reads in `file`. -/
structure OpenFile where
  id : ℕ
  dentry : Path
  file : File
  references : ℕ
  fileFlags : ℕ
  timestamp : Timestamp

structure Root where
  extent : ℕ
  lenEar : ℕ
  dataLength : ℕ
  recordingTime : Timestamp

structure System where
  dev : Device
  root : Root
  memory : ℕ → Bool

/-- `counts` has the references of the nodes and `num_dentries`, `allocs` the number of allocations. -/
structure State where
  volume : Volume
  counts : Counts Key
  flags : Path → ℕ
  filesOpen : List OpenFile
  allocs : ℕ

def dget (d : Path) (s : State) : State := { s with counts := RefTree.get d s.counts }

def dput (d : Path) (s : State) : State := { s with counts := RefTree.put d s.counts }

/-- A child is in the list of its parent as long as it is referred to. -/
def dentryGet (sys : System) (parent : Path) (key : Key) (flags : ℕ) (s : State) : Option Path × State :=
  if s.counts.references (key :: parent) = 0 then
    if sys.memory s.allocs then
      let s := { s with allocs := s.allocs + 1, flags := Function.update s.flags (key :: parent) flags }
      (some (key :: parent), dget (key :: parent) (dget parent s))
    else (none, { s with allocs := s.allocs + 1 })
  else (some (key :: parent), dget (key :: parent) s)

/-- `take_file` and the members that `iso9660_open` sets. -/
def takeFile (sys : System) (d : Path) (file : File) (fileFlags : ℕ) (timestamp : Timestamp) (s : State) :
    Except Errno OpenFile × State :=
  if sys.memory s.allocs then
    let f : OpenFile := ⟨s.allocs, d, file, 1, fileFlags, timestamp⟩
    (.ok f, dget d { s with allocs := s.allocs + 1, filesOpen := f :: s.filesOpen })
  else (.error .enomem, { s with allocs := s.allocs + 1 })

def fileOf (dr : DirRecord) (flags : ℕ) : File := ⟨dr.extent, dr.dataLength, dr.lenEar, 0, true, flags⟩

def rootFile (root : Root) (flags : ℕ) : File := ⟨root.extent, root.dataLength, root.lenEar, 0, true, flags⟩

/-- `none` when the directory record is outside of the buffer. -/
def open_ (sys : System) (d : Path) (flags : ℕ) (s : State) : Option (Except Errno OpenFile × State) :=
  let res := flags &&& oAccmode
  if flags &&& oCreat ≠ 0 ∨ flags &&& oTrunc ≠ 0 ∨ res = oWronly ∨ res = oRdwr then some (.error .erofs, s)
  else if flags &&& oDirectory ≠ 0 ∧ s.flags d &&& flDir = 0 then some (.error .enotdir, s)
  else if s.flags d &&& (flMe ||| flRec) ≠ 0 then some (.error .enotsup, s)
  else match d with
    | [] => some (takeFile sys [] (rootFile sys.root flags) flDir sys.root.recordingTime s)
    | (deBlock, deBlkofs) :: parent =>
      match readbuf sys.dev deBlock s.volume with
      | (.error e, v) => some (.error e, { s with volume := v })
      | (.ok res, v) =>
        if bytesPerSector < res + deBlkofs + 26 then none
        else
          let dr := record v.buffer.data (res + deBlkofs)
          some (takeFile sys ((deBlock, deBlkofs) :: parent) (fileOf dr flags) dr.flags dr.recordingTime
            { s with volume := v })

/-- `none` when the node of the file is gone before `f->dentry->v` is read. -/
def close (f : OpenFile) (s : State) : Option (Except Errno Unit × State) :=
  if ¬f.file.magic ∨ f.references = 0 then some (.error .ebadf, s)
  else if f.references - 1 = 0 then
    let s := dput f.dentry s
    if s.counts.references f.dentry = 0 ∧ f.dentry ≠ [] then none
    else some (.ok (), { s with filesOpen := s.filesOpen.eraseP (·.id = f.id) })
  else some (.ok (), { s with
    filesOpen := s.filesOpen.map fun g => if g.id = f.id then { g with references := g.references - 1 } else g })

def memchr (src : ℕ → Byte) (c : Byte) (n : ℕ) : Option ℕ := (List.range n).find? fun i => src i = c

def isNamed (fn : ℕ → Byte) (fnsize : ℕ) (fnfcb : List Byte) (dr : DirRecord) : Bool :=
  let lenFi := (memchr dr.fileId 0x3B dr.lenFi).getD dr.lenFi
  (fnsize == lenFi && (List.range fnsize).all fun i => dr.fileId i == fn i) ||
    match buildFcbName dr.fileId lenFi false with
    | .error _ => false
    | .ok rnfcb => fnfcb == rnfcb

/-- The loop of `iso9660_lookup`, with the flags of the record. -/
def lookupLoop (dev : Device) (fn : ℕ → Byte) (fnsize : ℕ) (fnfcb : List Byte) :
    ℕ → File → Volume → Option (Except Errno (Key × ℕ) × Volume)
  | 0, _, _ => none
  | fuel + 1, f, v =>
    match doReaddir dev f v with
    | none => none
    | some (.error e, _, v) => some (.error (if e = .enmfile then .enoent else e), v)
    | some (.ok entry, f, v) =>
      let dr := record v.buffer.data (entry.res + entry.deBlkofs)
      if isNamed fn fnsize fnfcb dr then some (.ok ((entry.deBlock, entry.deBlkofs), dr.flags), v)
      else lookupLoop dev fn fnsize fnfcb fuel f v

def quit (res : Except Errno Unit) (f : OpenFile) (d : Path) (s : State) : Option (Except Errno Unit × Path × State) :=
  (close f s).map fun r => (res, d, r.2)

/-- Returns the node as well; `none` when memory is used that must not be. -/
def lookup (sys : System) (d : Path) (fn : ℕ → Byte) (fnsize : ℕ) (s : State) : Option (Except Errno Unit × Path × State) :=
  if fnsize = 0 ∨ fnsize = 1 ∧ fn 0 = 0x2E then
    some (if s.flags d &&& flDir ≠ 0 then .ok () else .error .enotdir, d, s)
  else if fnsize = 2 ∧ fn 0 = 0x2E ∧ fn 1 = 0x2E then
    match d with
    | [] => some (.ok (), [], s)
    | key :: parent => some (.ok (), parent, dput (key :: parent) (dget parent s))
  else match open_ sys d (oRdonly ||| oDirectory) s with
    | none => none
    | some (.error e, s) => some (.error e, d, s)
    | some (.ok f, s) =>
      match buildFcbName fn fnsize false with
      | .error e => quit (.error e) f d s
      | .ok fnfcb =>
        match lookupLoop sys.dev fn fnsize fnfcb (f.file.dataLength + 1) f.file s.volume with
        | none => none
        | some (.error e, v) => quit (.error e) f d { s with volume := v }
        | some (.ok (key, flags), v) =>
          match dentryGet sys d key flags { s with volume := v } with
          | (none, s) => quit (.error .enomem) f d s
          | (some child, s) => quit (.ok ()) f child (dput d s)

end FreeDos32.Iso9660
