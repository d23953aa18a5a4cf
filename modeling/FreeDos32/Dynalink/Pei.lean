import FreeDos32.Dynalink.Common

namespace FreeDos32.Dynalink

def imageSizeofBaseRelocation : Dword := 8

def imageRelBasedAbsolute : BitVec 4 := 0

def imageRelBasedHigh : BitVec 4 := 1

def imageRelBasedLow : BitVec 4 := 2

def imageRelBasedHighlow : BitVec 4 := 3

/-- The part of `struct pei_extra_info` that loading and relocating look at. -/
structure PeiExtraInfo where
  exportSymbol : Dword
  exportSymbolSize : Dword
  baseReloc : Dword
  baseRelocSize : Dword
  deriving DecidableEq

structure PeScnhdr where
  sVsize : Dword
  sVaddr : Dword
  sPsize : Dword
  sPaddr : Dword
  deriving DecidableEq

def peScnhdr (bs : List Byte) : PeScnhdr where
  sVsize := dwordAt bs 8
  sVaddr := dwordAt bs 12
  sPsize := dwordAt bs 16
  sPaddr := dwordAt bs 20

variable {ω : Type} (kf : KernFuncs ω) (junk : Junk)

/-- The variables of `pei_read_section_headers` that outlive a round of its loop. -/
structure PeiVars where
  eSection : Option ℕ
  h : List Byte

/-- A round of the loop over the section headers. -/
def peiReadSectionHeader (pee : PeiExtraInfo) (i : ℕ) (v : PeiVars) : Body ω PeiVars := do
  let (_, bs) ← fileRead kf v.h 40
  let h := peScnhdr bs
  setSection i fun x => { x with
    base := h.sVaddr
    size := h.sVsize
    fileptr := h.sPaddr
    filesize := h.sPsize
    reloc := 0
    numReloc := 0 }
  pure {
    eSection := if h.sVaddr ≤ pee.exportSymbol ∧ pee.exportSymbol < h.sVaddr + h.sVsize then some i else v.eSection
    h := bs }

/-- `func_num` of the directory of exports in section `i`. -/
def peiFuncNum (pee : PeiExtraInfo) (i : ℕ) : Body ω Unit := do
  let s ← getSection i
  let _ ← fileSeek kf (s.fileptr + pee.exportSymbol - s.base) .set
  let (_, bs) ← fileRead kf junk.header 40
  setTables fun t => { t with numSymbols := dwordAt bs 20 }

def peiReadSectionHeaders (pee : PeiExtraInfo) : Prog (Load ω) Fault Dword := .function do
  let t ← .reads Load.tables
  let _ ← fileSeek kf t.sectionHeader .set
  let v ← .loop (peiReadSectionHeader kf pee) t.numSections.toNat 0 { eSection := none, h := junk.sectionHeader }
  setTables fun t => { t with numSymbols := 0 }
  match v.eSection with
  | some i => .when (pee.exportSymbolSize ≠ 0) (peiFuncNum kf junk pee i)
  | none => pure ()
  pure minusOne

/-- Memory for an image: where it wants to be if it cannot be relocated, else wherever there is some. -/
def placeImage (pee : PeiExtraInfo) (imageBase size : Dword) : Body ω Dword :=
  if pee.baseRelocSize ≠ 0 then memAlloc kf size
  else do
    let res ← memAllocRegion kf imageBase size
    .when (res = minusOne) (ret minusOne)
    pure imageBase

/-- The one entry for all relocations of an image that is not where it wants to be. -/
def setPeReloc (pee : PeiExtraInfo) (imageBase relocOffset : Dword) : Body ω Unit := do
  setTables fun t => { t with flags := t.flags ||| needImageRelocation }
  setSection 0 fun x => x.setNumReloc 1
  let r ← memAlloc kf 12
  setSection 0 fun x => { x with
    reloc := r
    peReloc := { offset := relocOffset, addr := pee.baseReloc + imageBase, size := pee.baseRelocSize } }

/-- A round of the loop of `pei_load` over the sections. -/
def peiLoadSection (imageBase : Dword) (i : ℕ) : Body ω Unit := do
  let s ← getSection i
  .when (s.fileptr ≠ 0) (fileSeek kf s.fileptr .set >>= fun _ =>
    fileReadTo kf (imageBase + s.base) s.filesize >>= fun _ => pure ())

/-- `pei_load` up to the import symbols. -/
def peiLoadImage (pee : PeiExtraInfo) (n : Word) : Prog (Load ω) Fault Dword := .function do
  let t ← .reads Load.tables
  let last ← lastSection n
  let size := last.base + last.filesize
  let imageBase ← placeImage kf pee t.imageBase size
  .when (imageBase = 0) (ret minusOne)
  setTables fun u => { u with imageBase }
  .when (imageBase - t.imageBase ≠ 0) (setPeReloc kf pee imageBase (imageBase - t.imageBase))
  memset imageBase size
  .loop (fun i _ => peiLoadSection kf imageBase i) n.toNat 0 ()
  .update fun s => s.setImage ⟨imageBase, size⟩
  pure imageBase

/-- `type_offset[i]` of the block at `block`. -/
def typeOffset (m : Memory) (block : Dword) (i : ℕ) : Word :=
  let p := block + imageSizeofBaseRelocation + BitVec.ofNat 32 (2 * i)
  m (p + 1) ++ m p

def relocType (e : Word) : BitVec 4 := e.extractLsb' 12 4

def relocOffsetOf (e : Word) : Dword := (e.extractLsb' 0 12).setWidth 32

def addToWord (p v : Dword) : Body ω Unit := .update fun s => s.setRam (s.ram.putWord p (s.ram.word p + v))

/-- A round of the loop over the entries of a block. -/
def peiRelocate (delta start block : Dword) (i : ℕ) : Body ω Unit := do
  let e ← .reads fun s => typeOffset s.ram block i
  .when (relocOffsetOf e ≠ 0) <|
    if relocType e = imageRelBasedAbsolute then pure ()
    else if relocType e = imageRelBasedHigh then addToWord (start + relocOffsetOf e) (delta &&& 0xffff0000)
    else if relocType e = imageRelBasedLow then addToWord (start + relocOffsetOf e) (delta &&& 0x0000ffff)
    else if relocType e = imageRelBasedHighlow then addToWord (start + relocOffsetOf e) delta
    else ret 0

/-- The loop over the blocks of the directory from `at` on; `first` is where the block that came first belongs. It has no
bound of its own and hangs when `fuel` is used up. -/
def peiRelocateBlocks (imageBase : Dword) (r : PeRelocInfo) : ℕ → Dword → Option Dword → Body ω Unit
  | 0, _, _ => .diverge
  | fuel + 1, baseRelocAt, first =>
    if r.size ≤ baseRelocAt then pure ()
    else do
      let block := r.addr + baseRelocAt
      let s ← .state
      let start := imageBase + s.ram.word block
      let number := (s.ram.word (block + 4) - imageSizeofBaseRelocation) >>> 1
      if first = some start then pure ()
      else do
        .loop (fun i _ => peiRelocate r.offset start block i) number.toNat 0 ()
        let blockSize ← .reads fun s => s.ram.word (block + 4)
        peiRelocateBlocks imageBase r fuel (baseRelocAt + blockSize) (some (first.getD start))

def peiRelocateSection (imageBase : Dword) (fuel : ℕ) : Prog (Load ω) Fault Dword := .function do
  let s ← getSection 0
  .when (s.reloc = 0) (ret 0)
  peiRelocateBlocks imageBase s.peReloc fuel 0 none
  pure 1

end FreeDos32.Dynalink
