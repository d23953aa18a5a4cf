import FreeDos32.Dynalink.Coff
import FreeDos32.Dynalink.Elf

namespace FreeDos32.Dynalink

/-- `struct read_funcs` -/
structure ReadFuncs (ω : Type) where
  readHeaders : Prog (Load ω) Fault Dword
  readSectionHeaders : Prog (Load ω) Fault Dword
  readSymbols : Prog (Load ω) Fault Dword
  loadRelocatable : Word → Prog (Load ω) Fault Dword
  loadExecutable : Word → Prog (Load ω) Fault Dword
  relocateSection : Dword → Word → ℕ → Prog (Load ω) Fault Dword
  importSymbol : Dword → List Byte → Body ω (Dword × Dword)
  freeTables : Dword → Dword → Body ω Unit

variable {ω : Type} (kf : KernFuncs ω) (junk : Junk) (coffType : CoffType)

/-- The functions that `isELF` stores. -/
def elfFuncs : ReadFuncs ω where
  readHeaders := elfReadHeaders kf junk
  readSectionHeaders := elfReadSectionHeaders kf junk
  readSymbols := elfReadSymbols kf junk
  loadRelocatable := commonLoadRelocatable kf
  loadExecutable := commonLoadExecutable kf
  relocateSection := commonRelocateSection kf coffType
  importSymbol := commonImportSymbol
  freeTables := commonFreeTables kf

/-- The functions that `isCOFF` stores. -/
def coffFuncs : ReadFuncs ω where
  readHeaders := coffReadHeaders kf junk
  readSectionHeaders := coffReadSectionHeaders kf junk
  readSymbols := coffReadSymbols kf junk
  loadRelocatable := commonLoadRelocatable kf
  loadExecutable := commonLoadExecutable kf
  relocateSection := commonRelocateSection kf coffType
  importSymbol := commonImportSymbol
  freeTables := commonFreeTables kf

variable (rf : ReadFuncs ω)

/-- Frees the tables and the image, if there is one yet, and gives up. -/
def failLoad {α : Type} (syms scndata : Dword) (image : Option Block) : Body ω α := do
  rf.freeTables syms scndata
  match image with
  | some b => memFree kf b.addr b.size
  | none => pure ()
  ret minusOne

/-- The address of the table of symbols, if there are any. -/
def loadSymbols (scndata : Dword) : Body ω Dword := do
  let t ← .reads Load.tables
  if t.numSymbols ≠ 0 then do
    let symbols ← memAlloc kf (t.numSymbols * sizeofSymbolInfo)
    .when (symbols = 0) (failLoad kf rf 0 scndata none)
    .update fun s => s.setSymbols ((List.range t.numSymbols.toNat).map junk.symbols)
    let _ ← .call rf.readSymbols
    pure symbols
  else pure 0

def loadImage (n : Word) : Body ω Dword := do
  let t ← .reads Load.tables
  if t.flags &&& needLoadRelocatable ≠ 0 then .call (rf.loadRelocatable n) else .call (rf.loadExecutable n)

/-- Relocates `count` sections from section `i` on, and tells whether all of them could be. -/
def relocateSections (execSpace : Dword) (n : Word) : ℕ → ℕ → Body ω Bool
  | 0, _ => pure true
  | count + 1, i => do
    let res ← .call (rf.relocateSection execSpace n i)
    if res.slt 0 then pure false else relocateSections execSpace n count (i + 1)

def relocateImage (execSpace bss : Dword) (symbols scndata : Dword) (image : Block) : Body ω Unit := do
  let t ← .reads Load.tables
  let sectionwise := t.flags &&& needSectionRelocation ≠ 0
  .when (t.flags &&& (needSectionRelocation ||| needImageRelocation) ≠ 0) do
    .when (sectionwise ∧ (bss.slt 0 ∨ (t.numSections.setWidth 32).slt bss))
      (failLoad kf rf symbols scndata (some image))
    let ok ← relocateSections rf execSpace t.numSections (if sectionwise then t.numSections.toNat else 1) 0
    .when (ok = false) (failLoad kf rf symbols scndata (some image))

/-- `"_init"` -/
def initName : List Byte := [0x5f, 0x69, 0x6e, 0x69, 0x74]

/-- `executable_info_t` -/
structure ExecutableInfo where
  imageBase : Dword
  execSpace : Dword
  size : Dword
  deriving DecidableEq

/-- The end of `fd32_load_executable`: the entry point and what is stored in `execinfo`. -/
def finishLoad (entry execSpace symbols scndata : Dword) (image : Block) : Body ω (Dword × ExecutableInfo) := do
  let t ← .reads Load.tables
  if t.flags &&& noEntry ≠ 0 then do
    .when (symbols = 0) (failLoad kf rf symbols scndata (some image))
    let (init, initSect) ← rf.importSymbol t.numSymbols initName
    -- nothing is released when there is no initialization function
    .when (initSect = minusOne) (ret minusOne)
    let s ← getSection initSect.toNat
    rf.freeTables symbols scndata
    pure (init + (s.base + execSpace), ⟨execSpace, 0, image.size⟩)
  else if t.flags &&& dllWithStdcall ≠ 0 then do
    rf.freeTables symbols scndata
    pure (entry + execSpace, ⟨execSpace, minusOne, image.size⟩)
  else do
    let first ← getSection 0
    let entry := if t.flags &&& needImageRelocation ≠ 0 then entry + first.peReloc.offset else entry
    rf.freeTables symbols scndata
    pure (entry, ⟨t.imageBase, execSpace, image.size⟩)

/-- The entry point with the `execinfo` of a load that has one. -/
def loadExecutableBody : Body ω (Dword × ExecutableInfo) := do
  setTables fun _ => { junk.tables with sectionNamesSize := 0, localBssSize := 0, privateInfo := 0 }
  let entry ← .call rf.readHeaders
  let t ← .reads Load.tables
  let n := t.numSections
  let scndata ← memAlloc kf (sizeofSectionInfo * n.setWidth 32)
  .when (scndata = 0) (ret minusOne)
  .update fun s => s.setSections ((List.range n.toNat).map junk.sections)
  let bss ← .call rf.readSectionHeaders
  let symbols ← loadSymbols kf junk rf scndata
  let t ← .reads Load.tables
  let execSpace ← loadImage rf t.numSections
  .when (execSpace = 0) (failLoad kf rf symbols scndata none)
  let image ← .reads Load.image
  relocateImage kf rf execSpace bss symbols scndata image
  finishLoad kf rf entry execSpace symbols scndata image

def fd32LoadExecutable : Prog (Load ω) Fault Dword := .function do
  let r ← loadExecutableBody kf junk rf
  pure r.1

end FreeDos32.Dynalink
