import FreeDos32.Iso9660.Dentry

namespace FreeDos32.Iso9660

def pathSep : Byte := 0x5C

def orOpen : ℕ := 1

/-- The number `EROFS` -/
def eRofs : ℕ := 30

/-- The pathnames are the memory from `pn` on. -/
def getBaseName (pn : ℕ → Byte) (pnsize : ℕ) : ℕ :=
  match memrchr pn pathSep pnsize with
  | none => 0
  | some i => i + 1

def span (sep : Bool) (pn : ℕ → Byte) : ℕ → ℕ
  | 0 => 0
  | n + 1 => if (pn 0 = pathSep) = sep then span sep (fun i => pn (i + 1)) n + 1 else 0

/-- The loop of `resolve_path`; each turn takes a byte at least. -/
def resolveLoop (sys : System) : ℕ → (ℕ → Byte) → ℕ → Path → State → Option (Except Errno Unit × Path × State)
  | 0, _, _, _, _ => none
  | fuel + 1, pn, pnsize, d, s =>
    if pnsize = 0 then some (.ok (), d, s)
    else
      let skipped := span true pn pnsize
      let comp := fun i => pn (skipped + i)
      let size := span false comp (pnsize - skipped)
      match lookup sys d comp size s with
      | none => none
      | some (.error e, d, s) => some (.error e, d, s)
      | some (.ok (), d, s) => resolveLoop sys fuel (fun i => comp (size + i)) (pnsize - skipped - size) d s

def resolvePath (sys : System) (pn : ℕ → Byte) (pnsize : ℕ) (d : Path) (s : State) :
    Option (Except Errno Unit × Path × State) :=
  resolveLoop sys (pnsize + 1) pn pnsize d s

/-- Returns what is stored in `file` as well. -/
def openPr (sys : System) (dentry : Path) (pn : ℕ → Byte) (pnsize flags : ℕ) (s : State) :
    Option (Except Errno ℕ × Option OpenFile × State) :=
  if pnsize = 0 then some (.error .einval, none, s)
  else
    let bn := getBaseName pn pnsize
    match resolvePath sys pn bn dentry (dget dentry s) with
    | none => none
    | some (.error e, d, s) => some (.error e, none, dput d s)
    | some (.ok (), d, s) =>
      match resolvePath sys (fun i => pn (bn + i)) (pnsize - bn) d s with
      | none => none
      | some (.ok (), d, s) =>
        if flags &&& oCreat ≠ 0 ∧ flags &&& oExcl ≠ 0 then some (.error .eexist, none, dput d s)
        else match open_ sys d flags s with
          | none => none
          | some (.error e, s) => some (.error e, none, dput d s)
          | some (.ok f, s) =>
            if flags &&& oTrunc ≠ 0 then (close f s).map fun r => (.ok eRofs, some f, dput d r.2)
            else some (.ok orOpen, some f, dput d s)
      | some (.error e, d, s) =>
        -- the result is not negated
        if e = .enoent ∧ flags &&& oCreat ≠ 0 then some (.ok eRofs, none, dput d s)
        else some (.error e, none, dput d s)

/-- What `fs_open` stores in `file` from the answer to `FD32_OPENFILE`, if it does: nothing is in `of.FileId` that the driver
has not stored there. -/
def fsOpen (answer : Except Errno ℕ × Option OpenFile × State) : Option (Option OpenFile) :=
  match answer.1 with
  | .ok _ => some answer.2.1
  | .error _ => none

end FreeDos32.Iso9660
