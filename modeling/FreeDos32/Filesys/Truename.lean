import FreeDos32.Filesys.Drives

namespace FreeDos32.Filesys

def enotdir : ℕ := 20

structure Cds where
  drive : List Char
  curDir : List Char

structure Subst where
  driveAlias : List Char
  target : List Char

/-- What `fd32_truename` finds outside of the list of current directories. -/
structure Env where
  defaultDrive : Option (Fin driveMaxNum)
  substList : List Subst

structure Flags where
  tnSubst : Bool
  tnDots : Bool

def strcaseEq (s t : List Char) : Bool := s.map FsLayer.toupper = t.map FsLayer.toupper

def isSlash (c : Char) : Bool := c = '\\' || c = '/'

/-- As in C, an absent drive is the empty string. -/
def Env.defaultLetter (env : Env) : List Char :=
  match env.defaultDrive with
  | some d => [Char.ofNat (d + 'A'.toNat)]
  | none => []

/-- The drive of a path and what is behind the colon. -/
def splitDrive (env : Env) (source : List Char) : List Char × List Char :=
  match source.dropWhile fun c => c ≠ ':' with
  | [] => (env.defaultLetter, source)
  | _ :: rest => (source.takeWhile fun c => c ≠ ':', rest)

def getcwd (cds : List Cds) (drive : List Char) : List Char :=
  match cds.find? fun c => strcaseEq c.drive drive with
  | some c => c.curDir
  | none => ['\\']

/-- The parts between slashes, empty ones included; `cur` is what has been read of the first one, backwards. -/
def components : List Char → List Char → List (List Char)
  | [], cur => [cur.reverse]
  | c :: s, cur => if isSlash c then cur.reverse :: components s [] else components s (c :: cur)

/-- The loop that goes back over components. `aux` is, backwards, what the buffer has from `RootStart` on; `none` when
`RootStart` is come to. -/
def rewind : ℕ → List Char → Option (List Char)
  | _, [] => none
  | dots, c :: aux =>
    let dots := if c = '\\' then dots - 1 else dots
    if dots = 0 then some (c :: aux) else if aux = [] then none else rewind dots aux

/-- One turn of the loop over the components, with the buffer backwards; `none` stands for `-ENOTDIR`. -/
def appendComp (flags : Flags) (aux comp : List Char) : Option (List Char) :=
  let dots := if comp.all fun c => c = '.' then comp.length else 0
  if comp = [] then some aux
  else if dots = 0 then some ('\\' :: (comp.reverse ++ aux))
  else if flags.tnDots then if dots > 1 then rewind dots aux else some aux
  else some ((List.replicate (dots - 1) ['\\', '.', '.']).flatten ++ aux)

/-- The trailing backslash of the buffer, which is backwards, is removed unless it stands behind a colon. -/
def stripSlash : List Char → List Char
  | '\\' :: c :: aux => if c = ':' then '\\' :: c :: aux else c :: aux
  | aux => aux

/-- The part of the buffer before `RootStart`, backwards. -/
def rootPrefix (flags : Flags) (env : Env) (drive : List Char) : List Char :=
  match if flags.tnSubst then env.substList.find? fun s => strcaseEq s.driveAlias drive else none with
  | some s =>
    match s.target.reverse with
    | '\\' :: t => t
    | t => t
  | none => ':' :: drive.reverse

/-- What the buffer has from `RootStart` on before the first component, backwards, and the rest of the path. -/
def rootStart (cds : List Cds) (drive rest : List Char) : List Char × List Char :=
  match rest with
  | [] => (closeDir (getcwd cds drive).reverse, [])
  | c :: s => if isSlash c then (['\\'], s) else (closeDir (getcwd cds drive).reverse, c :: s)
where
  closeDir : List Char → List Char
    | '\\' :: aux => '\\' :: aux
    | aux => '\\' :: aux

/-- The buffers are taken to be long enough. -/
def truename (flags : Flags) (env : Env) (cds : List Cds) (source : List Char) : Except ℕ (List Char) :=
  let (drive, rest) := splitDrive env source
  let (start, rest) := rootStart cds drive rest
  match (components rest []).foldlM (appendComp flags) start with
  | none => .error enotdir
  | some aux => .ok (stripSlash (aux ++ rootPrefix flags env drive)).reverse

def setCurDir (drive path : List Char) : List Cds → List Cds
  | [] => []
  | c :: cds => if strcaseEq c.drive drive then { c with curDir := path } :: cds else c :: setCurDir drive path cds

/-- `valid` is whether a driver opens the directory with that name, `memory` whether there is memory for an entry. -/
def chdir (env : Env) (valid : List Char → Except ℕ Unit) (memory : Bool) (dirName : List Char) (cds : List Cds) :
    Except ℕ Unit × List Cds :=
  match truename ⟨true, false⟩ env cds dirName with
  | .error e => (.error e, cds)
  | .ok aux =>
    match valid aux with
    | .error e => (.error e, cds)
    | .ok () =>
      match truename ⟨false, true⟩ env cds dirName with
      | .error e => (.error e, cds)
      | .ok aux =>
        let drive := aux.takeWhile fun c => c ≠ ':'
        let path := (aux.dropWhile fun c => c ≠ ':').tail
        let cds := setCurDir drive path cds
        if memory then (.ok (), ⟨drive, path⟩ :: cds) else (.error enomem, cds)

structure Chdir where
  env : Env
  valid : List Char → Except ℕ Unit
  memory : Bool
  dirName : List Char

def Chdir.step (c : Chdir) (cds : List Cds) : Option (List Cds) := some (chdir c.env c.valid c.memory c.dirName cds).2

end FreeDos32.Filesys
