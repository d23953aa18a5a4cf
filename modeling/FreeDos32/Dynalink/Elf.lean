import FreeDos32.Dynalink.Format

namespace FreeDos32.Dynalink

def elfSignature : List Byte := [0x7f, 0x45, 0x4c, 0x46]

def elfclass32 : Byte := 1

def elfdata2lsb : Byte := 1

def shtNull : Dword := 0

def shtSymtab : Dword := 2

def shtRela : Dword := 4

def shtNobits : Dword := 8

def shtRel : Dword := 9

def shtDynsym : Dword := 11

def r386_32 : Byte := 1

def r386_pc32 : Byte := 2

def shnUndef : Word := 0

def shnCommon : Word := 0xFFF2#16

/-- `".bss"` -/
def bssName : List Byte := [0x2e, 0x62, 0x73, 0x73]

structure ElfHeader where
  eEntry : Dword
  eShoff : Dword
  eShentsize : Word
  eShnum : Word
  eShstrndx : Word
  deriving DecidableEq

def elfHeader (bs : List Byte) : ElfHeader where
  eEntry := dwordAt bs 24
  eShoff := dwordAt bs 32
  eShentsize := wordAt bs 46
  eShnum := wordAt bs 48
  eShstrndx := wordAt bs 50

structure ElfSectionHeader where
  shName : Dword
  shType : Dword
  shAddr : Dword
  shOffset : Dword
  shSize : Dword
  shLink : Dword
  shInfo : Dword
  shEntsize : Dword
  deriving DecidableEq

def elfSectionHeader (bs : List Byte) : ElfSectionHeader where
  shName := dwordAt bs 0
  shType := dwordAt bs 4
  shAddr := dwordAt bs 12
  shOffset := dwordAt bs 16
  shSize := dwordAt bs 20
  shLink := dwordAt bs 24
  shInfo := dwordAt bs 28
  shEntsize := dwordAt bs 36

structure ElfRelInfo where
  rOffset : Dword
  rInfo : Dword
  deriving DecidableEq

def elfRelInfo (bs : List Byte) : ElfRelInfo where
  rOffset := dwordAt bs 0
  rInfo := dwordAt bs 4

structure ElfSymbolInfo where
  stName : Dword
  stValue : Dword
  stSize : Dword
  stShndx : Word
  deriving DecidableEq

def elfSymbolInfo (bs : List Byte) : ElfSymbolInfo where
  stName := dwordAt bs 0
  stValue := dwordAt bs 4
  stSize := dwordAt bs 8
  stShndx := wordAt bs 14

variable {ω : Type} (kf : KernFuncs ω) (junk : Junk)

/-- The part of `ELF_read_headers` that loads the section names; `h` is their section header. -/
def elfReadNames (h : ElfSectionHeader) : Body ω Unit :=
  if h.shSize ≠ 0 then do
    let names ← memAlloc kf h.shSize
    setTables fun t => { t with sectionNames := names }
    .when (names = 0) (ret 0)
    let res ← fileSeek kf (kf.fileOffset + h.shOffset) .set
    .when (res.slt 0) (ret 0)
    let res ← fileReadTo kf names h.shSize
    .when (res.slt 0) (ret 0)
    setTables fun t => { t with sectionNamesSize := h.shSize }
  else setTables fun t => { t with sectionNamesSize := 0 }

def elfReadHeaders : Prog (Load ω) Fault Dword := .function do
  let _ ← fileSeek kf (kf.fileOffset + 0) .set
  let (_, header) ← fileRead kf junk.header 52
  .when (header.take 4 ≠ elfSignature) (ret 0)
  setTables fun t => { t with flags := elfObject }
  .when (header.getD 4 0 ≠ elfclass32) (ret 0)
  .when (header.getD 5 0 ≠ elfdata2lsb) (ret 0)
  let e := elfHeader header
  .when (e.eShoff ≠ 0) (setTables fun t =>
    { t with sectionHeader := e.eShoff, sectionHeaderSize := e.eShentsize, numSections := e.eShnum })
  let t ← .reads Load.tables
  .when (t.numSections < e.eShstrndx) (ret 0)
  -- the section headers are numbered from 0
  .when (t.numSections ≤ e.eShstrndx) (stray .sectionIndex)
  let res ← fileSeek kf
    (kf.fileOffset + t.sectionHeader + e.eShstrndx.setWidth 32 * t.sectionHeaderSize.setWidth 32) .set
  .when (res.slt 0) (ret 0)
  let (res, h) ← fileRead kf junk.sectionHeader 40
  .when (res.slt 0) (ret 0)
  setTables fun t => { t with sectionNames := 0 }
  elfReadNames kf (elfSectionHeader h)
  .when (e.eEntry = 0) (setTables fun t =>
    { t with flags := t.flags ||| noEntry ||| needLoadRelocatable ||| needSectionRelocation })
  pure e.eEntry

def relocInfo (r : ElfRelInfo) : RelocInfo where
  offset := r.rOffset
  symbol := r.rInfo >>> 8
  type :=
    if r.rInfo.setWidth 8 = r386_32 then relTypeElfAbsolute
    else if r.rInfo.setWidth 8 = r386_pc32 then relTypeRelative
    else (r.rInfo.setWidth 8).setWidth 32

/-- The variables of `ELF_read_section_headers` that outlive a round of its loop. -/
structure SectionVars where
  bss : Dword
  stringtable : Dword
  h : List Byte
  r : List Byte

/-- A round of the loop that reads the relocations of the section header `h`. -/
def elfReadReloc (h : ElfSectionHeader) (j : ℕ) (r : List Byte) : Body ω (List Byte) := do
  let _ ← fileSeek kf (kf.fileOffset + h.shOffset + BitVec.ofNat 32 j * h.shEntsize) .set
  let (_, r) ← fileRead kf r 8
  setSection h.shInfo.toNat fun x => x.addReloc (relocInfo (elfRelInfo r))
  pure r

def elfReadRel (h : ElfSectionHeader) (v : SectionVars) : Body ω SectionVars := do
  let target ← getSection h.shInfo.toNat
  .when (target.numReloc ≠ 0) (ret 0)
  .when (h.shEntsize = 0) (goWrong .division)
  let n := h.shSize / h.shEntsize
  setSection h.shInfo.toNat fun x => x.setNumReloc n
  let reloc ← memAlloc kf (n * sizeofRelocInfo)
  setSection h.shInfo.toNat fun x => x.setReloc reloc
  .when (reloc = 0) (ret 0)
  let r ← .loop (elfReadReloc kf h) n.toNat 0 v.r
  pure { v with r }

def elfReadSymtab (i : ℕ) (h : ElfSectionHeader) (v : SectionVars) : Body ω SectionVars := do
  setTables fun t => { t with symbol := h.shOffset }
  .when (h.shEntsize = 0) (goWrong .division)
  setTables fun t => { t with numSymbols := h.shSize / h.shEntsize, symbolSize := h.shSize }
  .when (v.stringtable ≠ minusOne) (ret 0)
  .when (h.shLink.slt (BitVec.ofNat 32 i)) (ret 0)
  pure { v with stringtable := h.shLink }

def elfReadStrtab (h : ElfSectionHeader) (v : SectionVars) : Body ω SectionVars := do
  setTables fun t => { t with string := h.shOffset, stringSize := h.shSize }
  pure { v with stringtable := minusOne }

def elfReadProgbits (i : ℕ) (h : ElfSectionHeader) (v : SectionVars) : Body ω SectionVars := do
  setSection i fun x => { x with
    base := h.shAddr
    size := h.shSize
    fileptr := h.shOffset
    filesize := if h.shType ≠ shtNobits then h.shSize else x.filesize }
  pure v

/-- Whether the section has the name `.bss`. -/
def elfIsBss (h : ElfSectionHeader) : Body ω Bool := do
  let s ← .state
  let r := strcmp (fun k => s.ram (s.tables.sectionNames + h.shName + BitVec.ofNat 32 k)) bssName
  .when (s.tables.sectionNames ≠ 0 ∧ s.tables.sectionNamesSize.toNat < h.shName.toNat + r.2) (stray .nameIndex)
  pure (s.tables.sectionNames ≠ 0 ∧ r.1)

def elfReadSection (i : ℕ) (h : ElfSectionHeader) (v : SectionVars) : Body ω SectionVars := do
  let isBss ← elfIsBss h
  let v := if isBss then { v with bss := BitVec.ofNat 32 i } else v
  if h.shType = shtRel then elfReadRel kf h v
  else if h.shType = shtRela then ret 0
  else if h.shType = shtSymtab ∨ h.shType = shtDynsym then elfReadSymtab i h v
  else if BitVec.ofNat 32 i = v.stringtable then elfReadStrtab h v
  else elfReadProgbits i h v

/-- A round of the loop over the section headers. -/
def elfReadSectionHeader (i : ℕ) (v : SectionVars) : Body ω SectionVars := do
  let t ← .reads Load.tables
  let _ ← fileSeek kf
    (kf.fileOffset + t.sectionHeader + BitVec.ofNat 32 i * t.sectionHeaderSize.setWidth 32) .set
  let (_, bs) ← fileRead kf v.h 40
  setSection i SectionInfo.clear
  let v := { v with h := bs }
  if (elfSectionHeader bs).shType ≠ shtNull then elfReadSection kf i (elfSectionHeader bs) v else pure v

def elfReadSectionHeaders : Prog (Load ω) Fault Dword := .function do
  let t ← .reads Load.tables
  let v ← .loop (elfReadSectionHeader kf) t.numSections.toNat 0
    { bss := minusOne, stringtable := minusOne, h := junk.sectionHeader, r := junk.relInfo }
  let first ← getSection 0
  setTables fun t => { t with imageBase := first.base }
  pure v.bss

/-- What `ELF_read_symbols` makes of a symbol; `s` is where the strings are. -/
def symbolInfo (s : Dword) (symbol : ElfSymbolInfo) : SymbolInfo :=
  let sect :=
    if symbol.stShndx = shnUndef then if symbol.stName ≠ 0 then externSymbol else nullSymbol else symbol.stShndx
  if sect = shnCommon then { name := s + symbol.stName, offset := symbol.stSize, sect := commonSymbol }
  else { name := s + symbol.stName, offset := symbol.stValue, sect }

/-- A round of the loop over the symbols. -/
def elfReadSymbol (s entsize : Dword) (i : ℕ) (symbol : List Byte) : Body ω (List Byte) := do
  let t ← .reads Load.tables
  let _ ← fileSeek kf (kf.fileOffset + t.symbol + BitVec.ofNat 32 i * entsize) .set
  let (_, symbol) ← fileRead kf symbol 16
  let x := elfSymbolInfo symbol
  .when (t.stringSize ≤ x.stName) (stray .stringIndex)
  setSymbol i fun _ => symbolInfo s x
  .when (x.stShndx = shnCommon) (setTables fun t => t.growLocalBss x.stSize)
  pure symbol

def elfReadSymbols : Prog (Load ω) Fault Dword := .function do
  let t ← .reads Load.tables
  let s ← memAlloc kf t.stringSize
  .when (s = 0) (ret 0)
  setTables fun t => { t with stringBuffer := s }
  let _ ← fileSeek kf (kf.fileOffset + t.string) .set
  let _ ← fileReadTo kf s t.stringSize
  .when (t.numSymbols = 0) (goWrong .division)
  let _ ← .loop (elfReadSymbol kf s (t.symbolSize / t.numSymbols)) t.numSymbols.toNat 0 junk.symbol
  pure 1

end FreeDos32.Dynalink
