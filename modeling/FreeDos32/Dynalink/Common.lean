import FreeDos32.Dynalink.Format

namespace FreeDos32.Dynalink

/-- `coff_type` -/
inductive CoffType where
  | djCoff
  | peCoff
  | other
  deriving DecidableEq

/-- The address found in the tables, and how many bytes of the name are looked at. -/
def searchCall (name : ℕ → Byte) : List (List Byte × Dword) → Dword × ℕ
  | [] => (0, 0)
  | call :: calls =>
    let r := strcmp name call.1
    if r.1 then (call.2, r.2)
    else
      let q := searchCall name calls
      (q.1, max r.2 q.2)

variable {ω : Type} (kf : KernFuncs ω)

def fd32GetCall (name : Dword) : Body ω Dword := do
  let s ← .state
  let r := searchCall (fun k => s.ram (name + BitVec.ofNat 32 k)) kf.syscalls
  .when (s.tables.stringSize.toNat < (name - s.tables.stringBuffer).toNat + r.2) (stray .stringIndex)
  pure r.1

/-- A round of the loop that sets the symbols outside of the sections. -/
def setupSymbol (i : ℕ) (localBss : Dword) : Body ω Dword := do
  let sym ← getSymbol i
  if sym.sect = commonSymbol then do
    setSymbol i fun x => { x with offset := localBss }
    pure (localBss + sym.offset)
  else if sym.sect = externSymbol then do
    let address ← fd32GetCall kf sym.name
    setSymbol i fun x => { x with offset := address }
    .when (address = 0) (ret minusOne)
    pure localBss
  else pure localBss

/-- Done at the first section only. -/
def setupSymbols (sect : ℕ) (t : TableInfo) : Body ω Unit :=
  if sect = 0 then do
    let _ ← .loop (setupSymbol kf) t.numSymbols.toNat 0 t.localBss
    pure ()
  else pure ()

/-- `rel[i]`: from a table that has not been filled it is what memory holds. -/
def getReloc (s : SectionInfo) (i : ℕ) : Body ω RelocInfo := .reads fun x =>
  let p := s.reloc + BitVec.ofNat 32 i * sizeofRelocInfo
  s.relocs.getD i ⟨x.ram.word p, x.ram.word (p + 4), x.ram.word (p + 8)⟩

/-- Looks at the word at `p` or stores it, and tells whether it is in the image. -/
def touchImage (p : Dword) : Body ω Unit := do
  let s ← .state
  .when (s.image.size.toNat < (p - s.image.addr).toNat + 4) (stray .imageAccess)

def readImage (p : Dword) : Body ω Dword := do
  touchImage p
  .reads fun s => s.ram.word p

def writeImage (p v : Dword) : Body ω Unit := do
  touchImage p
  .update fun s => s.setRam (s.ram.putWord p v)

/-- The switch over the types: the place to relocate and what is there. -/
def destination (base : Dword) (s : SectionInfo) (rel : RelocInfo) : Body ω (Dword × Dword) :=
  if rel.type = relTypeElfAbsolute then do
    let address ← readImage (s.base + rel.offset + base)
    pure (s.base + rel.offset + base, address)
  else if rel.type = relTypeCoffAbsolute then do
    let address ← readImage (rel.offset + base)
    pure (rel.offset + base, address)
  else if rel.type = relTypeRelative then pure (s.base + rel.offset + base, 0)
  else ret minusOne

def relocated (coffType : CoffType) (base : Dword) (n : Word) (s : SectionInfo) (rel : RelocInfo) (sym : SymbolInfo)
    (dest address : Dword) : Body ω Dword :=
  if sym.sect = commonSymbol ∨ sym.sect = externSymbol then
    if rel.type = relTypeRelative then pure (sym.offset - dest - 4) else pure (address + sym.offset)
  else if n ≤ sym.sect then ret minusOne
  else do
    let home ← getSection sym.sect.toNat
    if rel.type = relTypeCoffAbsolute then
      match coffType with
      | .djCoff => pure (address + base)
      | .peCoff => pure (address + (sym.offset + home.base + base))
      | .other => pure (address + base)
    else if rel.type = relTypeElfAbsolute then pure (address + (base + home.base + sym.offset))
    else pure (home.base + sym.offset - (s.base + rel.offset) - 4)

/-- A round of the loop over the relocations. -/
def relocate (coffType : CoffType) (base : Dword) (n : Word) (s : SectionInfo) (i : ℕ) : Body ω Unit := do
  let rel ← getReloc s i
  let (dest, address) ← destination base s rel
  let sym ← getSymbol rel.symbol.toNat
  let value ← relocated coffType base n s rel sym dest address
  writeImage dest value

def commonRelocateSection (coffType : CoffType) (base : Dword) (n : Word) (sect : ℕ) : Prog (Load ω) Fault Dword :=
  .function do
    let t ← .reads Load.tables
    let s ← getSection sect
    setupSymbols kf sect t
    .loop (fun i _ => relocate coffType base n s i) s.numReloc.toNat 0 ()
    pure 1

/-- `s[n - 1]` -/
def lastSection (n : Word) : Body ω SectionInfo :=
  if n = 0 then goWrong .sectionIndex else getSection (n.toNat - 1)

/-- A round of the loop of `common_load_executable`. -/
def placeSection (loadOffset : Dword) (i : ℕ) : Body ω Unit := do
  let s ← getSection i
  if s.filesize = 0 ∨ s.fileptr = 0 then memset (loadOffset + s.base) s.size
  else do
    let _ ← fileSeek kf (kf.fileOffset + s.fileptr) .set
    let _ ← fileReadTo kf (loadOffset + s.base) s.filesize
    pure ()

/-- Memory for an executable, at its own base if that is to be had, and what has to be added to its addresses. -/
def placeExecutable (imageBase neededMem : Dword) : Body ω (Dword × Dword) := do
  let res ← memAllocRegion kf imageBase neededMem
  if res = minusOne then do
    let execSpace ← memAlloc kf neededMem
    pure (execSpace, execSpace - imageBase)
  else pure (imageBase, 0)

/-- The result and what is stored in `size`. -/
def commonLoadExecutable (n : Word) : Prog (Load ω) Fault Dword := .function do
  let t ← .reads Load.tables
  let last ← lastSection n
  let neededMem := last.base + last.size - t.imageBase
  let (execSpace, loadOffset) ← placeExecutable kf t.imageBase neededMem
  .when (execSpace = 0) (ret 0)
  .loop (fun i _ => placeSection kf loadOffset i) n.toNat 0 ()
  .update fun s => s.setImage ⟨execSpace, neededMem⟩
  pure execSpace

/-- A round of the last loop of `common_load_relocatable`. -/
def loadSection (memSpace : Dword) (i : ℕ) (localOffset : Dword) : Body ω Dword := do
  let s ← getSection i
  if s.size ≠ 0 then do
    setSection i fun x => x.setBase localOffset
    let _ ← fileSeek kf (kf.fileOffset + s.fileptr) .set
    .when (0 < s.filesize) (fileReadTo kf (memSpace + localOffset) s.filesize >>= fun _ => pure ())
    pure (localOffset + s.size)
  else pure localOffset

/-- A round of the first loop of `common_load_relocatable`. -/
def addSize (i : ℕ) (neededMem : Dword) : Body ω Dword := do
  let s ← getSection i
  pure (neededMem + s.size)

def commonLoadRelocatable (n : Word) : Prog (Load ω) Fault Dword := .function do
  let sizes ← .loop addSize n.toNat 0 0
  let t ← .reads Load.tables
  let neededMem := sizes + t.localBssSize
  let memSpace ← memAlloc kf neededMem
  setTables fun t => t.setLocalBss (if t.localBssSize ≠ 0 then memSpace + neededMem - t.localBssSize else 0)
  .when (memSpace = 0) (ret 0)
  memset memSpace neededMem
  let _ ← .loop (loadSection kf memSpace) n.toNat 0 0
  .update fun s => s.setImage ⟨memSpace, neededMem⟩
  pure memSpace

/-- A round of the loop of `common_free_tables`. -/
def freeRelocs (i : ℕ) : Body ω Unit := do
  let s ← getSection i
  .when (s.numReloc ≠ 0) (memFree kf s.reloc (sizeofRelocInfo * s.numReloc))

/-- `syms` and `scndata` are the addresses of the two tables. -/
def commonFreeTables (syms scndata : Dword) : Body ω Unit := do
  let t ← .reads Load.tables
  .loop (fun i _ => freeRelocs kf i) t.numSections.toNat 0 ()
  memFree kf scndata (sizeofSectionInfo * t.numSections.setWidth 32)
  .when (syms ≠ 0) (memFree kf syms (sizeofSymbolInfo * t.numSymbols))
  .when (t.stringSize ≠ 0) (memFree kf t.stringBuffer t.stringSize)
  .when (t.sectionNamesSize ≠ 0) (memFree kf t.sectionNames t.sectionNamesSize)

/-- `strlen`, if the string ends within `fuel` bytes. -/
def strlen (s : ℕ → Byte) : ℕ → Option ℕ
  | 0 => none
  | fuel + 1 => if s 0 = 0 then some 0 else (strlen (fun k => s (k + 1)) fuel).map (· + 1)

/-- Whether the symbol can be imported by its suffix `name`. A string that fills the address space has no end. -/
def endsWith (name : List Byte) (sym : SymbolInfo) : Body ω Bool := do
  let s ← .state
  let str := fun k => s.ram (sym.name + BitVec.ofNat 32 k)
  if sym.sect = externSymbol ∨ sym.sect = commonSymbol ∨ sym.sect = nullSymbol ∨ str 0 = 0x5f then pure false
  else match strlen str (2 ^ 32) with
    | some len => pure (name.length ≤ len ∧ (strcmp (fun k => str (len - name.length + k)) name).1)
    | none => .diverge

/-- The result and what is stored in `sect`. -/
def importLoop (name : List Byte) : ℕ → ℕ → Body ω (Dword × Dword)
  | 0, _ => pure (0, minusOne)
  | n + 1, i => do
    let sym ← getSymbol i
    let found ← endsWith name sym
    if found then pure (sym.offset, sym.sect.setWidth 32) else importLoop name n (i + 1)

def commonImportSymbol (n : Dword) (name : List Byte) : Body ω (Dword × Dword) :=
  importLoop name (if n.slt 0 then 0 else n.toNat) 0

end FreeDos32.Dynalink
