import FreeDos32.Library.Memory
import FreeDos32.Library.Wp
import Mathlib.Tactic.Simps.Basic

namespace FreeDos32.Dynalink

open Prog

abbrev Byte := BitVec 8

abbrev Word := BitVec 16

abbrev Dword := BitVec 32

/-- The value of an `int` that is -1. -/
def minusOne : Dword := 0xFFFFFFFF#32

def externSymbol : Word := 0xFF00#16

def commonSymbol : Word := 0xFF01#16

def nullSymbol : Word := 0xFFFF#16

def relTypeElfAbsolute : Dword := 1

def relTypeCoffAbsolute : Dword := 2

def relTypeRelative : Dword := 4

def needImageRelocation : Word := 1

def needSectionRelocation : Word := 2

def needLoadRelocatable : Word := 4

def elfObject : Word := 8

def noEntry : Word := 16

def dllWithStdcall : Word := 32

structure SymbolInfo where
  name : Dword
  offset : Dword
  sect : Word
  deriving DecidableEq

structure RelocInfo where
  offset : Dword
  symbol : Dword
  type : Dword
  deriving DecidableEq

structure PeRelocInfo where
  offset : Dword
  addr : Dword
  size : Dword
  deriving DecidableEq

structure TableInfo where
  sectionHeader : Dword
  numSections : Word
  sectionHeaderSize : Word
  flags : Word
  symbol : Dword
  numSymbols : Dword
  symbolSize : Dword
  string : Dword
  stringSize : Dword
  stringBuffer : Dword
  sectionNames : Dword
  sectionNamesSize : Dword
  imageBase : Dword
  localBss : Dword
  localBssSize : Dword
  privateInfo : Dword
  deriving DecidableEq

namespace TableInfo

variable (t : TableInfo)

@[simps] def setLocalBss (localBss : Dword) : TableInfo := { t with localBss }

/-- Room for one more common symbol. -/
@[simps] def growLocalBss (n : Dword) : TableInfo := { t with localBssSize := t.localBssSize + n }

end TableInfo

/-- `reloc` is the pointer; what it points to is `relocs` for an object file and `peReloc` for a PE image. -/
structure SectionInfo where
  base : Dword
  size : Dword
  fileptr : Dword
  filesize : Dword
  numReloc : Dword
  reloc : Dword
  relocs : List RelocInfo
  peReloc : PeRelocInfo
  deriving DecidableEq

namespace SectionInfo

variable (x : SectionInfo)

@[simps] def clear : SectionInfo := { x with numReloc := 0, base := 0, size := 0, fileptr := 0, filesize := 0 }

@[simps] def setBase (base : Dword) : SectionInfo := { x with base }

@[simps] def setNumReloc (n : Dword) : SectionInfo := { x with numReloc := n }

/-- A table of relocations with nothing in it yet. -/
@[simps] def setReloc (reloc : Dword) : SectionInfo := { x with reloc, relocs := [] }

@[simps] def addReloc (r : RelocInfo) : SectionInfo := { x with relocs := x.relocs ++ [r] }

end SectionInfo

def sizeofSectionInfo : Dword := 24

def sizeofSymbolInfo : Dword := 12

def sizeofRelocInfo : Dword := 12

/-- `seek_set` and `seek_cur` -/
inductive Whence where
  | set
  | cur
  deriving DecidableEq

/-- The functions of `struct kern_funcs` over what stands behind them. A read gives its result and the bytes
that it has put into the buffer. -/
structure KernFuncs (ω : Type) where
  fileRead : Dword → ω → (Dword × List Byte) × ω
  fileSeek : Dword → Whence → ω → Dword × ω
  memAlloc : Dword → ω → Dword × ω
  memAllocRegion : Dword → Dword → ω → Dword × ω
  memFree : Dword → Dword → ω → ω
  fileOffset : Dword
  -- the two tables of `fd32_get_call`, one behind the other
  syscalls : List (List Byte × Dword)

/-- What variables and tables hold before anything is stored in them. -/
structure Junk where
  tables : TableInfo
  sections : ℕ → SectionInfo
  symbols : ℕ → SymbolInfo
  header : List Byte
  optHeader : List Byte
  sectionHeader : List Byte
  relInfo : List Byte
  symbol : List Byte
  size : Dword

structure Block where
  addr : Dword
  size : Dword
  deriving DecidableEq

/-- An access to what is not there: an index that is not below the size of its table, or a division by zero. -/
inductive Fault where
  | sectionIndex
  | symbolIndex
  | nameIndex
  | stringIndex
  | imageAccess
  | division
  deriving DecidableEq

/-- What a load works on. The program does not keep the last four: `image` is the block that the module is loaded
to, `obtained` and `released` tell the calls that give and take memory, and `strays` the accesses outside their
block that memory answers all the same; the last one is the first of its list. -/
structure Load (ω : Type) where
  world : ω
  ram : Memory
  tables : TableInfo
  sections : List SectionInfo
  symbols : List SymbolInfo
  image : Block
  obtained : List Block
  released : List Block
  strays : List Fault

namespace Load

variable {ω : Type} (s : Load ω)

@[simps] def setWorld (w : ω) : Load ω := { s with world := w }

@[simps] def setRam (m : Memory) : Load ω := { s with ram := m }

@[simps] def setTables (t : TableInfo) : Load ω := { s with tables := t }

@[simps] def setSections (l : List SectionInfo) : Load ω := { s with sections := l }

@[simps] def setSymbols (l : List SymbolInfo) : Load ω := { s with symbols := l }

@[simps] def setImage (b : Block) : Load ω := { s with image := b }

@[simps] def obtain (b : Block) : Load ω := { s with obtained := b :: s.obtained }

@[simps] def release (b : Block) : Load ω := { s with released := b :: s.released }

@[simps] def setStrays (l : List Fault) : Load ω := { s with strays := l }

@[simps] def astray (f : Fault) : Load ω := { s with strays := f :: s.strays }

@[simp] theorem setWorld_setWorld (w w' : ω) : (s.setWorld w).setWorld w' = s.setWorld w' := rfl

@[simp] theorem setRam_setRam (m m' : Memory) : (s.setRam m).setRam m' = s.setRam m' := rfl

@[simp] theorem setTables_setTables (t t' : TableInfo) : (s.setTables t).setTables t' = s.setTables t' := rfl

@[simp] theorem setSections_setSections (l l' : List SectionInfo) :
    (s.setSections l).setSections l' = s.setSections l' := rfl

end Load

def dwordAt (bs : List Byte) (k : ℕ) : Dword :=
  bs.getD (k + 3) 0 ++ bs.getD (k + 2) 0 ++ bs.getD (k + 1) 0 ++ bs.getD k 0

def wordAt (bs : List Byte) (k : ℕ) : Word := bs.getD (k + 1) 0 ++ bs.getD k 0

/-- The body of a function that returns a `DWORD` or an `int`. -/
abbrev Body (ω α : Type) := Prog (Load ω) (Exit Dword Fault) α

/-- Whether the string at `s` is the given one, and how many of its bytes are looked at. -/
def strcmp (s : ℕ → Byte) : List Byte → Bool × ℕ
  | [] => (s 0 = 0, 1)
  | c :: cs =>
    if s 0 = c then
      let r := strcmp (fun k => s (k + 1)) cs
      (r.1, r.2 + 1)
    else (false, 1)

section Primitives

variable {ω ε α : Type} (kf : KernFuncs ω)

def ret (r : Dword) : Body ω α := .fail (.returns r)

def goWrong (f : Fault) : Body ω α := .fail (.fault f)

def fileSeek (pos : Dword) (whence : Whence) : Prog (Load ω) ε Dword := do
  let s ← .state
  let r := kf.fileSeek pos whence s.world
  .update fun s => s.setWorld r.2
  pure r.1

/-- `file_read` into a variable of `n` bytes that holds `old`. -/
def fileRead (old : List Byte) (n : Dword) : Prog (Load ω) ε (Dword × List Byte) := do
  let s ← .state
  let r := kf.fileRead n s.world
  let got := r.1.2.take n.toNat
  .update fun s => s.setWorld r.2
  pure (r.1.1, (got ++ old.drop got.length).take n.toNat)

/-- `file_read` into memory. -/
def fileReadTo (addr n : Dword) : Prog (Load ω) ε Dword := do
  let s ← .state
  let r := kf.fileRead n s.world
  .update fun s => (s.setWorld r.2).setRam (s.ram.put addr (r.1.2.take n.toNat))
  pure r.1.1

def memAlloc (size : Dword) : Prog (Load ω) ε Dword := do
  let s ← .state
  let r := kf.memAlloc size s.world
  .update fun s => s.setWorld r.2
  .when (r.1 ≠ 0) (.update fun s => s.obtain ⟨r.1, size⟩)
  pure r.1

def memAllocRegion (addr size : Dword) : Prog (Load ω) ε Dword := do
  let s ← .state
  let r := kf.memAllocRegion addr size s.world
  .update fun s => s.setWorld r.2
  .when (r.1 ≠ minusOne) (.update fun s => s.obtain ⟨addr, size⟩)
  pure r.1

def memFree (addr size : Dword) : Prog (Load ω) ε Unit :=
  .update fun s => (s.setWorld (kf.memFree addr size s.world)).release ⟨addr, size⟩

def memset (addr n : Dword) : Prog (Load ω) ε Unit := .update fun s => s.setRam (s.ram.fill addr n.toNat 0)

def setTables (f : TableInfo → TableInfo) : Prog (Load ω) ε Unit := .update fun s => s.setTables (f s.tables)

def stray (f : Fault) : Prog (Load ω) ε Unit := .update fun s => s.astray f

def getSection (i : ℕ) : Body ω SectionInfo := do
  let s ← .state
  match s.sections[i]? with
  | some x => pure x
  | none => goWrong .sectionIndex

def setSection (i : ℕ) (f : SectionInfo → SectionInfo) : Body ω Unit := do
  let x ← getSection i
  .update fun s => s.setSections (s.sections.set i (f x))

def getSymbol (i : ℕ) : Body ω SymbolInfo := do
  let s ← .state
  match s.symbols[i]? with
  | some x => pure x
  | none => goWrong .symbolIndex

def setSymbol (i : ℕ) (f : SymbolInfo → SymbolInfo) : Body ω Unit := do
  let x ← getSymbol i
  .update fun s => s.setSymbols (s.symbols.set i (f x))

section Rules

variable {Q : α → Load ω → Prop} {E : ε → Load ω → Prop} {F : Exit Dword Fault → Load ω → Prop} {s : Load ω} {i : ℕ}

@[simp] theorem ends_ret (r : Dword) : (ret r : Body ω α).Ends s Q F ↔ F (.returns r) s := Iff.rfl

@[simp] theorem ends_goWrong (f : Fault) : (goWrong f : Body ω α).Ends s Q F ↔ F (.fault f) s := Iff.rfl

@[simp] theorem ends_fileSeek (pos : Dword) (whence : Whence) {Q : Dword → Load ω → Prop} :
    (fileSeek kf pos whence).Ends s Q E ↔
      Q (kf.fileSeek pos whence s.world).1 (s.setWorld (kf.fileSeek pos whence s.world).2) := Iff.rfl

@[simp] theorem ends_fileRead (old : List Byte) (n : Dword) {Q : Dword × List Byte → Load ω → Prop} :
    (fileRead kf old n).Ends s Q E ↔
      Q ((kf.fileRead n s.world).1.1, ((kf.fileRead n s.world).1.2.take n.toNat ++
          old.drop ((kf.fileRead n s.world).1.2.take n.toNat).length).take n.toNat)
        (s.setWorld (kf.fileRead n s.world).2) := Iff.rfl

@[simp] theorem ends_fileReadTo (addr n : Dword) {Q : Dword → Load ω → Prop} :
    (fileReadTo kf addr n).Ends s Q E ↔
      Q (kf.fileRead n s.world).1.1 ((s.setWorld (kf.fileRead n s.world).2).setRam
        (s.ram.put addr ((kf.fileRead n s.world).1.2.take n.toNat))) := Iff.rfl

@[simp] theorem ends_memAlloc (size : Dword) {Q : Dword → Load ω → Prop} :
    (memAlloc kf size).Ends s Q E ↔
      ((kf.memAlloc size s.world).1 ≠ 0 → Q (kf.memAlloc size s.world).1
        ((s.setWorld (kf.memAlloc size s.world).2).obtain ⟨(kf.memAlloc size s.world).1, size⟩)) ∧
      ((kf.memAlloc size s.world).1 = 0 → Q 0 (s.setWorld (kf.memAlloc size s.world).2)) := by
  unfold memAlloc
  simp only [ends_bind, ends_state, ends_update, ends_when, ends_pure, not_not]
  grind

@[simp] theorem ends_memAllocRegion (addr size : Dword) {Q : Dword → Load ω → Prop} :
    (memAllocRegion kf addr size).Ends s Q E ↔
      ((kf.memAllocRegion addr size s.world).1 ≠ minusOne → Q (kf.memAllocRegion addr size s.world).1
        ((s.setWorld (kf.memAllocRegion addr size s.world).2).obtain ⟨addr, size⟩)) ∧
      ((kf.memAllocRegion addr size s.world).1 = minusOne →
        Q minusOne (s.setWorld (kf.memAllocRegion addr size s.world).2)) := by
  unfold memAllocRegion
  simp only [ends_bind, ends_state, ends_update, ends_when, ends_pure, not_not]
  grind

@[simp] theorem ends_memFree (addr size : Dword) {Q : Unit → Load ω → Prop} :
    (memFree kf addr size).Ends s Q E ↔
      Q () ((s.setWorld (kf.memFree addr size s.world)).release ⟨addr, size⟩) := Iff.rfl

@[simp] theorem ends_memset (addr n : Dword) {Q : Unit → Load ω → Prop} :
    (memset addr n).Ends s Q E ↔ Q () (s.setRam (s.ram.fill addr n.toNat 0)) := Iff.rfl

@[simp] theorem ends_setTables (f : TableInfo → TableInfo) {Q : Unit → Load ω → Prop} :
    (setTables f).Ends s Q E ↔ Q () (s.setTables (f s.tables)) := Iff.rfl

@[simp] theorem ends_stray (f : Fault) {Q : Unit → Load ω → Prop} :
    (stray f).Ends s Q E ↔ Q () (s.astray f) := Iff.rfl

theorem ends_getSection {x : SectionInfo} (h : s.sections[i]? = some x) {Q : SectionInfo → Load ω → Prop} :
    (getSection i).Ends s Q F ↔ Q x s := by
  unfold getSection
  simp [h]

theorem ends_setSection {x : SectionInfo} (h : s.sections[i]? = some x) (f : SectionInfo → SectionInfo)
    {Q : Unit → Load ω → Prop} :
    (setSection i f).Ends s Q F ↔ Q () (s.setSections (s.sections.set i (f x))) := by
  unfold setSection
  simp [ends_getSection h]

theorem ends_getSymbol {x : SymbolInfo} (h : s.symbols[i]? = some x) {Q : SymbolInfo → Load ω → Prop} :
    (getSymbol i).Ends s Q F ↔ Q x s := by
  unfold getSymbol
  simp [h]

theorem ends_setSymbol {x : SymbolInfo} (h : s.symbols[i]? = some x) (f : SymbolInfo → SymbolInfo)
    {Q : Unit → Load ω → Prop} :
    (setSymbol i f).Ends s Q F ↔ Q () (s.setSymbols (s.symbols.set i (f x))) := by
  unfold setSymbol
  simp [ends_getSymbol h]

end Rules

end Primitives

section Files

/-- A file that can be read to its end, and what the calls for memory answer in turn. -/
structure Disk where
  contents : List Byte
  pos : ℕ
  blocks : ℕ → Dword
  regions : ℕ → Dword
  turn : ℕ

def bytesAt (contents : List Byte) (pos n : ℕ) : List Byte := (contents.drop pos).take n

@[simps] def Disk.seek (d : Disk) (pos : ℕ) : Disk := { d with pos }

@[simps] def Disk.next (d : Disk) : Disk := { d with turn := d.turn + 1 }

/-- The functions that read such a file. -/
def diskFuncs (fileOffset : Dword) (syscalls : List (List Byte × Dword)) : KernFuncs Disk where
  fileRead n d :=
    let got := bytesAt d.contents d.pos n.toNat
    ((BitVec.ofNat 32 got.length, got), d.seek (d.pos + got.length))
  fileSeek pos whence d := match whence with
    | .set => (pos, d.seek pos.toNat)
    | .cur => (BitVec.ofNat 32 d.pos + pos, d.seek (d.pos + pos.toNat))
  memAlloc _ d := (d.blocks d.turn, d.next)
  memAllocRegion _ _ d := (d.regions d.turn, d.next)
  memFree _ _ d := d
  fileOffset
  syscalls

theorem length_bytesAt {contents : List Byte} {pos n : ℕ} (h : pos + n ≤ contents.length) :
    (bytesAt contents pos n).length = n := by
  simp only [bytesAt, List.length_take, List.length_drop]
  omega

variable {ε α : Type} {off : Dword} {calls : List (List Byte × Dword)} {contents : List Byte} {s : Load Disk}

theorem ends_fetch {p n : Dword} {old : List Byte} {g : Dword × List Byte → Prog (Load Disk) ε α}
    {Q : α → Load Disk → Prop} {E : ε → Load Disk → Prop} (hfile : s.world.contents = contents)
    (hlen : p.toNat + n.toNat ≤ contents.length)
    (hg : ∀ r (d : Disk), d.contents = contents → d.blocks = s.world.blocks →
      Ends (g (r, bytesAt contents p.toNat n.toNat)) (s.setWorld d) Q E) :
    Ends (fileSeek (diskFuncs off calls) p .set >>= fun _ => fileRead (diskFuncs off calls) old n >>= g) s Q E := by
  have hgot := length_bytesAt hlen
  subst hfile
  have hread : ((diskFuncs off calls).fileRead n (s.world.seek p.toNat)).1.2.take n.toNat =
      bytesAt s.world.contents p.toNat n.toNat := List.take_of_length_le (Nat.le_of_eq hgot)
  simp only [ends_bind, ends_fileSeek, ends_fileRead]
  show Ends (g (_, (((diskFuncs off calls).fileRead n (s.world.seek p.toNat)).1.2.take n.toNat ++ _).take n.toNat)) _ Q E
  rw [hread, List.take_append_of_le_length (Nat.le_of_eq hgot.symm), List.take_of_length_le (Nat.le_of_eq hgot)]
  exact hg _ _ rfl rfl

end Files

end FreeDos32.Dynalink
