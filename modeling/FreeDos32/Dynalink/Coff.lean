import FreeDos32.Dynalink.Common

namespace FreeDos32.Dynalink

def i386Magic : Word := 0x014c#16

def aoutMagic : Word := 0x010b#16

def sectUninitData : Dword := 0x80

/-- `r_type` of a relocation that is absolute. -/
def coffDir32 : Word := 6

/-- `r_type` of a relocation that is relative to the next instruction. -/
def coffRel32 : Word := 20

def sizeofCoffSymbolInfo : Dword := 18

structure ExternalFilehdr where
  fMagic : Word
  fNscns : Word
  fSymptr : Dword
  fNsyms : Dword
  fOpthdr : Word
  deriving DecidableEq

def externalFilehdr (bs : List Byte) : ExternalFilehdr where
  fMagic := wordAt bs 0
  fNscns := wordAt bs 2
  fSymptr := dwordAt bs 8
  fNsyms := dwordAt bs 12
  fOpthdr := wordAt bs 16

structure AoutHdr where
  magic : Word
  entry : Dword
  textStart : Dword
  deriving DecidableEq

def aoutHdr (bs : List Byte) : AoutHdr where
  magic := wordAt bs 0
  entry := dwordAt bs 16
  textStart := dwordAt bs 20

structure ExternalScnhdr where
  sPaddr : Dword
  sVaddr : Dword
  sSize : Dword
  sScnptr : Dword
  sRelptr : Dword
  sNreloc : Word
  sFlags : Dword
  deriving DecidableEq

def externalScnhdr (bs : List Byte) : ExternalScnhdr where
  sPaddr := dwordAt bs 8
  sVaddr := dwordAt bs 12
  sSize := dwordAt bs 16
  sScnptr := dwordAt bs 20
  sRelptr := dwordAt bs 24
  sNreloc := wordAt bs 32
  sFlags := dwordAt bs 36

/-- A `struct coff_reloc_info` as the loader keeps it. -/
def coffRelocInfo (bs : List Byte) : RelocInfo where
  offset := dwordAt bs 0
  symbol := dwordAt bs 4
  type :=
    if wordAt bs 8 = coffDir32 then relTypeCoffAbsolute
    else if wordAt bs 8 = coffRel32 then relTypeRelative
    else (wordAt bs 8).setWidth 32

structure CoffSymbolInfo where
  eZeroes : Dword
  eOffset : Dword
  eValue : Dword
  eScnum : Word
  eSclass : Byte
  deriving DecidableEq

/-- The symbol that memory holds at `p`. -/
def coffSymbolAt (m : Memory) (p : Dword) : CoffSymbolInfo where
  eZeroes := m.word p
  eOffset := m.word (p + 4)
  eValue := m.word (p + 8)
  eScnum := m (p + 13) ++ m (p + 12)
  eSclass := m (p + 16)

variable {ω : Type} (kf : KernFuncs ω) (junk : Junk)

/-- The part of `COFF_read_headers` that reads the optional header, whose bytes behind the structure are dropped. -/
def coffReadOpthdr (fOpthdr : Word) : Body ω Dword :=
  if fOpthdr ≠ 0 then do
    let (_, bs) ← fileRead kf junk.optHeader (fOpthdr.setWidth 32)
    let o := aoutHdr bs
    if o.magic ≠ aoutMagic then pure 0
    else do
      setTables fun t => { t with imageBase := o.textStart }
      pure o.entry
  else pure 0

def coffReadHeaders : Prog (Load ω) Fault Dword := .function do
  let _ ← fileSeek kf (kf.fileOffset + 0) .set
  let (_, bs) ← fileRead kf junk.header 20
  let h := externalFilehdr bs
  .when (h.fMagic ≠ i386Magic) (ret 0)
  setTables fun t => { t with flags := 0, numSections := h.fNscns, stringSize := 0 }
  setTables fun t =>
    if h.fSymptr ≠ 0 ∧ h.fNsyms ≠ 0 then { t with symbol := h.fSymptr, numSymbols := h.fNsyms }
    else { t with symbol := 0, numSymbols := 0 }
  let entry ← coffReadOpthdr kf junk h.fOpthdr
  let pos ← fileSeek kf 0 .cur
  setTables fun t => { t with sectionHeader := pos }
  .when (entry = 0) (setTables fun t =>
    { t with flags := t.flags ||| noEntry ||| needLoadRelocatable ||| needSectionRelocation })
  pure entry

/-- The variables of `COFF_read_section_headers` that outlive a round of its loop. -/
structure ScnVars where
  bss : Dword
  tmp : Dword
  h : List Byte
  rel : List Byte

/-- A round of the loop that reads the relocations of section `i`. -/
def coffReadReloc (i : ℕ) (rel : List Byte) : Body ω (List Byte) := do
  let (_, rel) ← fileRead kf rel 10
  setSection i fun x => x.addReloc (coffRelocInfo rel)
  pure rel

def coffReadRelocs (i : ℕ) (h : ExternalScnhdr) (v : ScnVars) : Body ω ScnVars :=
  if h.sNreloc ≠ 0 then do
    setSection i fun x => x.setNumReloc (h.sNreloc.setWidth 32)
    let reloc ← memAlloc kf (sizeofRelocInfo * h.sNreloc.setWidth 32)
    setSection i fun x => x.setReloc reloc
    let pos ← fileSeek kf 0 .cur
    let _ ← fileSeek kf (kf.fileOffset + h.sRelptr) .set
    let rel ← .loop (fun _ rel => coffReadReloc kf i rel) h.sNreloc.toNat 0 v.rel
    let _ ← fileSeek kf pos .set
    pure { v with rel }
  else do
    setSection i fun x => x.setNumReloc 0
    pure v

/-- A round of the loop over the section headers. -/
def coffReadSectionHeader (i : ℕ) (v : ScnVars) : Body ω ScnVars := do
  let (_, bs) ← fileRead kf v.h 40
  let h := externalScnhdr bs
  let t ← .reads Load.tables
  setSection i fun x => { x with size := h.sSize }
  -- an executable's section reaches up to the next one
  .when (t.flags &&& noEntry = 0 ∧ i ≠ 0) (setSection (i - 1) fun x => { x with size := h.sPaddr - v.tmp })
  setSection i fun x => { x with base := h.sVaddr, fileptr := h.sScnptr, filesize := h.sSize }
  let uninit := h.sFlags &&& sectUninitData ≠ 0
  let v ← coffReadRelocs kf i h { v with
    bss := if uninit then BitVec.ofNat 32 i else v.bss
    tmp := h.sPaddr
    h := bs }
  .when uninit (setSection i fun x => { x with filesize := 0 })
  pure v

def coffReadSectionHeaders : Prog (Load ω) Fault Dword := .function do
  let t ← .reads Load.tables
  let _ ← fileSeek kf t.sectionHeader .set
  let v ← .loop (coffReadSectionHeader kf) t.numSections.toNat 0
    { bss := minusOne, tmp := 0, h := junk.sectionHeader, rel := junk.relInfo }
  pure v.bss

/-- The section that a symbol is given, from `e_scnum` and `e_value`. -/
def coffSection (x : CoffSymbolInfo) : Word :=
  if x.eScnum = 0 then if x.eValue = 0 then externSymbol else commonSymbol
  else if x.eScnum = 0xFFFF#16 ∨ x.eScnum = 0xFFFE#16 then x.eScnum
  else x.eScnum - 1

/-- A symbol whose name is in its entry: the name is copied behind the strings. -/
def coffInlineName (symbol inlined : Dword) : Body ω Dword := do
  .update fun s => s.setRam ((s.ram.put inlined ((List.range 8).map fun k => s.ram (symbol + BitVec.ofNat 32 k))).put
    (inlined + 8) [0])
  pure (inlined + 1)

/-- A round of the last loop of `COFF_read_symbols`; `inlined` is where the next name goes to. -/
def coffReadSymbol (symbol s size : Dword) (i : ℕ) (inlined : Dword) : Body ω Dword := do
  let p := symbol + BitVec.ofNat 32 i * sizeofCoffSymbolInfo
  let x ← .reads fun u => coffSymbolAt u.ram p
  if x.eSclass = 0 then do
    setSymbol i fun y => { y with sect := nullSymbol }
    pure inlined
  else do
    let (name, inlined) ← if x.eZeroes ≠ 0 then do
        let name ← coffInlineName p inlined
        pure (name, inlined + 9)
      else pure (if size < x.eOffset then 0 else s + x.eOffset + 1, inlined)
    setSymbol i fun _ => { name, offset := x.eValue, sect := coffSection x }
    .when (x.eScnum = 0 ∧ x.eValue ≠ 0) (setTables fun t => t.growLocalBss x.eValue)
    pure inlined

def coffReadSymbols : Prog (Load ω) Fault Dword := .function do
  let t ← .reads Load.tables
  let n := t.numSymbols
  let symbol ← memAlloc kf (n * sizeofCoffSymbolInfo)
  let _ ← fileSeek kf (kf.fileOffset + t.symbol) .set
  let _ ← fileReadTo kf symbol (n * sizeofCoffSymbolInfo)
  let (_, bs) ← fileRead kf (Memory.bytesOf junk.size) 4
  let size := dwordAt bs 0
  let u ← .state
  let inlines := (List.range n.toNat).countP fun i =>
    (coffSymbolAt u.ram (symbol + BitVec.ofNat 32 i * sizeofCoffSymbolInfo)).eZeroes ≠ 0
  let total := size + BitVec.ofNat 32 inlines * 9
  let s ← memAlloc kf total
  let _ ← fileReadTo kf (s + 4) (size - 4)
  let _ ← .loop (coffReadSymbol symbol s size) n.toNat 0 (s + size)
  setTables fun t => { t with stringBuffer := s, stringSize := total }
  memFree kf symbol (n * sizeofCoffSymbolInfo)
  pure 1

end FreeDos32.Dynalink
