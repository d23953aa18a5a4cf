import FreeDos32.Fat.Tree

namespace FreeDos32.Fat

def fatPathSep : UInt8 := 0x5C

def baseNamePos (pn : List UInt8) : ℕ :=
  ((List.range pn.length).filter fun i => pn.getD i 0 == fatPathSep).getLast?.elim 0 (· + 1)

def resolveLoop : ℕ → ℕ → List UInt8 → FatM (ℕ × Option Errno)
  | 0, dentry, _ => pure (dentry, none)
  | fuel + 1, dentry, pn =>
    if pn = [] then pure (dentry, none)
    else do
      let comp := (pn.dropWhile (· == fatPathSep)).takeWhile (· != fatPathSep)
      let rest := (pn.dropWhile (· == fatPathSep)).dropWhile (· != fatPathSep)
      match ← (fatLookup dentry comp).attempt with
      | .ok d => resolveLoop fuel d rest
      | .error e => pure (dentry, some e)

/-- Every component takes a byte of the pathname at least. -/
def resolvePath (dentry : ℕ) (pn : List UInt8) : FatM (ℕ × Option Errno) :=
  resolveLoop pn.length dentry pn

inductive OpenResult where
  | open | trunc | creat
  deriving DecidableEq

def openFound (dentry flags : ℕ) : FatM (ℕ × OpenResult) := do
  if hasFlag flags oCreat ∧ hasFlag flags oExcl then Prog.fail .eexist
  else
    let c ← fatOpen dentry flags
    if hasFlag flags oTrunc then
      let _ ← orClose [c] (fatFtruncate c 0)
      pure (c, .trunc)
    else pure (c, .open)

/-- Opens or creates the file once the directory of its last component is known. -/
def openLast (dentry : ℕ) (res : Option Errno) (bn : List UInt8) (flags : ℕ) (mode : UInt8) :
    FatM (ℕ × OpenResult) :=
  match res with
  | none => openFound dentry flags
  | some e =>
    if e = .enoent ∧ hasFlag flags oCreat then do
      let c ← fatCreate dentry bn flags mode
      pure (c, .creat)
    else Prog.fail e

/-- Calls with the node that a pathname leads to, which is released afterwards. -/
def thenDput {α : Type} (dentry : ℕ) (x : FatM α) : FatM α := do
  let res ← x.attempt
  fatDput dentry
  Prog.ofExcept res

def fatOpenPr (dentry : ℕ) (pn : List UInt8) (flags : ℕ) (mode : UInt8) : FatM (ℕ × OpenResult) := do
  if pn = [] then Prog.fail .einval
  else
    let bn := pn.drop (baseNamePos pn)
    fatDget dentry
    match ← resolvePath dentry (pn.take (baseNamePos pn)) with
    | (d, some e) => thenDput d (Prog.fail e)
    | (d, none) =>
      let (d, res) ← resolvePath d bn
      thenDput d (openLast d res bn flags mode)

/-- `fat_unlink_pr` and `fat_rmdir_pr`. -/
def removePr (dir : Bool) (dentry : ℕ) (pn : List UInt8) : FatM Unit := do
  if pn = [] then Prog.fail .einval
  else
    fatDget dentry
    match ← resolvePath dentry pn with
    | (d, some e) => thenDput d (Prog.fail e)
    | (d, none) => thenDput d (fatRemove d dir)

def fatUnlinkPr (dentry : ℕ) (pn : List UInt8) : FatM Unit := removePr false dentry pn

def fatRmdirPr (dentry : ℕ) (pn : List UInt8) : FatM Unit := removePr true dentry pn

/-- The part of `fat_rename_pr` on the new pathname. -/
def renameTo (od ndentry : ℕ) (nn : List UInt8) : FatM Unit := do
  fatDget ndentry
  match ← resolvePath ndentry (nn.take (baseNamePos nn)) with
  | (d, some e) => thenDput d (Prog.fail e)
  | (d, none) => thenDput d (fatRename od d (nn.drop (baseNamePos nn)))

def fatRenamePr (odentry : ℕ) (on : List UInt8) (ndentry : ℕ) (nn : List UInt8) : FatM Unit := do
  if on = [] ∨ nn = [] then Prog.fail .einval
  else
    fatDget odentry
    match ← resolvePath odentry on with
    | (d, some e) => thenDput d (Prog.fail e)
    | (d, none) => thenDput d (renameTo d ndentry nn)

def fatMkdirPr (dentry : ℕ) (pn : List UInt8) (mode : UInt8) : FatM Unit := do
  if pn = [] then Prog.fail .einval
  else
    let bn := pn.drop (baseNamePos pn)
    fatDget dentry
    match ← resolvePath dentry (pn.take (baseNamePos pn)) with
    | (d, some e) => thenDput d (Prog.fail e)
    | (d, none) =>
      match ← resolvePath d bn with
      | (d, none) => thenDput d (Prog.fail .eexist)
      | (d, some e) => thenDput d (if e = .enoent then fatMkdir d bn mode else Prog.fail e)

end FreeDos32.Fat
