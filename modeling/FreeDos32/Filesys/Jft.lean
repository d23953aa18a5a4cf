import FreeDos32.Filesys.Drives

namespace FreeDos32.Filesys

def ebadf : ℕ := 9

def emfile : ℕ := 24

def enoent : ℕ := 2

def enmfile : ℕ := 89

/-- The request functions: that of the FAT driver, and those of devices, which do not count references. -/
inductive Request where
  | fat
  | device
  deriving DecidableEq

/-- A free entry has no request function; `file` is a channel of the driver. -/
structure JftEntry where
  request : Option Request
  file : ℕ
  search : Option ℕ
  deriving DecidableEq

structure Search where
  flags : ℕ
  name : List Char

/-- The job file table of a process, the `references` of each channel of the driver, 0 where none is open, and the
`Search` records that are not in the slab. -/
structure Jft where
  entries : List JftEntry
  references : ℕ → ℕ
  searchesOpen : List ℕ
  search : ℕ → Search

/-- How the driver answers `FD32_CLOSE`: before it does anything, or after it has dropped the reference. -/
inductive Closing where
  | notReady (e : ℕ)
  | closed
  | failed (e : ℕ)
  deriving DecidableEq

namespace Closing

def result : Closing → Except ℕ Unit
  | notReady e => .error e
  | closed => .ok ()
  | failed e => .error e

def drops : Closing → Bool
  | notReady _ => false
  | closed => true
  | failed _ => true

end Closing

namespace Jft

/-- `fd32_init_jft` with the files of the devices `con`, `aux` and `prn`. -/
def init (jftSize con aux prn : ℕ) (search : ℕ → Search) : Option Jft :=
  if jftSize < 5 then none else some
    { entries := [⟨some .device, con, none⟩, ⟨some .device, con, none⟩, ⟨some .device, con, none⟩,
        ⟨some .device, aux, none⟩, ⟨some .device, prn, none⟩] ++ List.replicate (jftSize - 5) ⟨none, 0, none⟩
      references := fun _ => 0, searchesOpen := [], search }

def setEntry (fd : ℕ) (e : JftEntry) (j : Jft) : Jft := { j with entries := j.entries.set fd e }

def entry (fd : ℤ) (j : Jft) : Option JftEntry :=
  if fd < 0 ∨ (j.entries.length : ℤ) ≤ fd then none else (j.entries[fd.toNat]?).filter fun e => e.request.isSome

def validateFileHandle (fd : ℤ) (j : Jft) : Option JftEntry := (j.entry fd).filter fun e => e.search.isNone

def validateSearchHandle (fd : ℤ) (j : Jft) : Option JftEntry := (j.entry fd).filter fun e => e.search.isSome

/-- `FD32_CLOSE`; for the FAT driver the reference is counted down even when the call fails. -/
def fsClose (request : Request) (file : ℕ) (answer : Closing) (j : Jft) : Except ℕ Unit × Jft :=
  match request with
  | .device => (answer.result, j)
  | .fat =>
    if answer.drops then
      if j.references file = 0 then (.error ebadf, j)
      else (answer.result, { j with references := Function.update j.references file (j.references file - 1) })
    else (answer.result, j)

/-- `FD32_OPEN`; its result is not looked at. -/
def addReference (request : Request) (file : ℕ) (j : Jft) : Jft :=
  match request with
  | .device => j
  | .fat =>
    if j.references file = 0 then j
    else { j with references := Function.update j.references file (j.references file + 1) }

def freeEntry (j : Jft) : Option ℕ := j.entries.findIdx? fun e => e.request.isNone

def fd32Close (fd : ℤ) (answer : Closing) (j : Jft) : Except ℕ Unit × Jft :=
  match j.validateFileHandle fd with
  | none => (.error ebadf, j)
  | some e =>
    match j.fsClose (e.request.getD .device) e.file answer with
    | (.error err, j) => (.error err, j)
    | (.ok (), j) => (.ok (), j.setEntry fd.toNat { e with request := none })

def fd32Dup (oldfd : ℤ) (j : Jft) : Except ℕ ℕ × Jft :=
  match j.entry oldfd with
  | none => (.error ebadf, j)
  | some e =>
    match j.freeEntry with
    | none => (.error emfile, j)
    | some h => (.ok h, (j.setEntry h e).addReference (e.request.getD .device) e.file)

def fd32Forcedup (oldfd newfd : ℤ) (answer : Closing) (j : Jft) : Except ℕ Unit × Jft :=
  match j.entry oldfd with
  | none => (.error ebadf, j)
  | some e =>
    if newfd = oldfd then (.ok (), j)
    else if newfd < 0 ∨ (j.entries.length : ℤ) ≤ newfd then (.error ebadf, j)
    else
      match if (j.entry newfd).isSome then j.fd32Close newfd answer else (.ok (), j) with
      | (.error err, j) => (.error err, j)
      | (.ok (), j) => (.ok (), (j.setEntry newfd.toNat e).addReference (e.request.getD .device) e.file)

/-- `answer` is the channel that `fs_open` gets from the driver. -/
def fd32Open (answer : Except ℕ ℕ) (j : Jft) : Except ℕ ℕ × Jft :=
  match j.freeEntry with
  | none => (.error emfile, j)
  | some fd =>
    match answer with
    | .error e => (.error e, j)
    | .ok file =>
      (.ok fd, { j with references := Function.update j.references file 1 }.setEntry fd ⟨some .fat, file, none⟩)

def splitPath (fullPath : List Char) : List Char × List Char :=
  let name := (fullPath.reverse.takeWhile fun c => c ≠ '\\').reverse
  (fullPath.take (fullPath.length - name.length), name)

def searchPut (p : ℕ) (j : Jft) : Jft := { j with searchesOpen := j.searchesOpen.erase p }

/-- `record` is what the slab yields, `answer` what `fs_open` gets, `found` what `FD32_FINDFILE` answers. -/
def fd32LfnFindfirst (fileSpec : List Char) (flags : ℕ) (record : Option ℕ) (answer : Except ℕ ℕ) (found : Except ℕ Unit)
    (closing : Closing) (j : Jft) : Except ℕ ℕ × Jft :=
  match j.freeEntry with
  | none => (.error emfile, j)
  | some fd =>
    match record with
    | none => (.error enomem, j)
    | some search =>
      let j := { j with searchesOpen := search :: j.searchesOpen }
      match answer with
      | .error e => (.error e, j.searchPut search)
      | .ok file =>
        let j := { j with references := Function.update j.references file 1 }
        match found with
        | .error e =>
          (.error (if e = enmfile then enoent else e), ((j.searchPut search).fsClose .fat file closing).2)
        | .ok () =>
          (.ok fd, { j with search := Function.update j.search search ⟨flags, (splitPath fileSpec).2⟩ }.setEntry fd
            ⟨some .fat, file, some search⟩)

/-- What the driver is asked with `FD32_FINDFILE`, and what it answers. -/
def fd32LfnFindnext (fd : ℤ) (findFile : ℕ → Search → Except ℕ Unit) (j : Jft) : Except ℕ Unit :=
  match j.validateSearchHandle fd with
  | none => .error ebadf
  | some e => findFile e.file (j.search (e.search.getD 0))

def fd32LfnFindclose (fd : ℤ) (answer : Closing) (j : Jft) : Except ℕ Unit × Jft :=
  match j.validateSearchHandle fd with
  | none => (.error ebadf, j)
  | some e =>
    match j.fsClose (e.request.getD .device) e.file answer with
    | (.error err, j) => (.error err, j)
    | (.ok (), j) => (.ok (), (j.searchPut (e.search.getD 0)).setEntry fd.toNat ⟨none, e.file, none⟩)

inductive Call where
  | open_ (answer : Except ℕ ℕ)
  | dup (oldfd : ℤ)
  | forcedup (oldfd newfd : ℤ) (answer : Closing)
  | close (fd : ℤ) (answer : Closing)
  | findfirst (fileSpec : List Char) (flags : ℕ) (record : Option ℕ) (answer : Except ℕ ℕ) (found : Except ℕ Unit)
      (closing : Closing)
  | findnext (fd : ℤ) (findFile : ℕ → Search → Except ℕ Unit)
  | findclose (fd : ℤ) (answer : Closing)

def OnFree (j : Jft) : Except ℕ ℕ → Prop
  | .ok file => j.references file = 0
  | .error _ => True

instance (j : Jft) (answer : Except ℕ ℕ) : Decidable (j.OnFree answer) :=
  match answer with
  | .ok file => inferInstanceAs (Decidable (j.references file = 0))
  | .error _ => inferInstanceAs (Decidable True)

/-- What the driver opens was free, and the slab yields a record that it has. -/
def Possible (j : Jft) : Call → Prop
  | .open_ answer => j.OnFree answer
  | .findfirst _ _ record answer _ _ => (∀ search ∈ record, search ∉ j.searchesOpen) ∧ j.OnFree answer
  | _ => True

instance (j : Jft) (c : Call) : Decidable (j.Possible c) := by
  unfold Possible
  split <;> infer_instance

def step (c : Call) (j : Jft) : Option Jft :=
  if j.Possible c then some (match c with
    | .open_ answer => (j.fd32Open answer).2
    | .dup oldfd => (j.fd32Dup oldfd).2
    | .forcedup oldfd newfd answer => (j.fd32Forcedup oldfd newfd answer).2
    | .close fd answer => (j.fd32Close fd answer).2
    | .findfirst fileSpec flags record answer found closing =>
      (j.fd32LfnFindfirst fileSpec flags record answer found closing).2
    | .findnext _ _ => j
    | .findclose fd answer => (j.fd32LfnFindclose fd answer).2)
  else none

end Jft

end FreeDos32.Filesys
