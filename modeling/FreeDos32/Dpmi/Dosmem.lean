import FreeDos32.Errno
import FreeDos32.Kernel.Mem
import FreeDos32.Library.Runs

namespace FreeDos32.Dpmi

open Kernel Span

def word (x : ℕ) : ℕ := x % 2 ^ 16

/-- `sizeof(dosmem_track_t)` -/
def trackSize : ℕ := 16

structure DosmemTrack where
  addr : ℕ
  base : ℕ
  size : ℕ
  alignmentFix : ℕ
  dosSeg : ℕ
  deriving DecidableEq

/-- `tracks` is the list that starts at `dmtrack_top.next`. -/
structure Dosmem where
  memory : Kernel.Memory
  tracks : List DosmemTrack
  deriving DecidableEq

/-- The part of `dos_alloc` after the memory has been taken. -/
def keepTrack (p base size fix : ℕ) (d : Dosmem) : Option (ℕ × Dosmem) :=
  if 0 < base then
    let seg := word (base / 16 + if base % 16 = 0 then 0 else 1)
    -- `mem_get` is not checked: a track at the null pointer ends the list
    some (seg, { d with tracks := if p = 0 then [] else ⟨p, base, size, fix, seg⟩ :: d.tracks })
  else (memFree p trackSize d.memory).map fun memory => (0, { d with memory })

/-- Returns the segment; `none` stands for `fd32_abort`. -/
def dosAlloc (size : ℕ) (d : Dosmem) : Option (ℕ × Dosmem) :=
  let (p, memory) := memGet trackSize d.memory
  let psize := size * 16
  let (base, memory) := dosmemGet psize memory
  if 0 < base ∧ base % 16 ≠ 0 then
    (dosmemFree base psize memory).bind fun memory =>
      let (base, memory) := dosmemGet (psize + 16) memory
      keepTrack p base (psize + 16) 16 { d with memory }
  else keepTrack p base psize 0 { d with memory }

def Dosmem.find (d : Dosmem) (seg : ℕ) : Option DosmemTrack := d.tracks.find? (seg == ·.dosSeg)

def dosFree (seg : ℕ) (d : Dosmem) : Option (Except Errno Unit × Dosmem) :=
  match d.find seg with
  | some p =>
    -- `dosmem_free` returns 0 whenever it returns
    (dosmemFree p.base p.size d.memory).bind fun memory =>
      (memFree p.addr trackSize memory).map fun memory =>
        (.ok (), { memory, tracks := d.tracks.eraseP (seg == ·.dosSeg) })
  | none => some (.error .efault, d)

def setSize (seg size : ℕ) : List DosmemTrack → List DosmemTrack
  | [] => []
  | p :: rest => if seg == p.dosSeg then { p with size } :: rest else p :: setSize seg size rest

def dosResize (seg newsize : ℕ) (d : Dosmem) : Except Errno Unit × Dosmem :=
  match d.find seg with
  | some p =>
    let newsize := word (word (newsize * 16) + p.alignmentFix)
    let (res, memory) := dosmemResize p.base p.size newsize d.memory
    if res = newsize then (.ok (), { memory, tracks := setSize seg newsize d.tracks })
    else (.error .enomem, { d with memory })
  | none => (.error .efault, d)

/-- What a caller knows of a block that it has. -/
structure Block where
  seg : ℕ
  paragraphs : ℕ
  deriving DecidableEq

structure Blocks where
  dosmem : Dosmem
  blocks : List Block
  deriving DecidableEq

inductive DosRequest where
  | alloc (size : ℕ)
  | resize (seg newsize : ℕ)
  | free (seg : ℕ)
  deriving DecidableEq

def setParagraphs (seg n : ℕ) : List Block → List Block
  | [] => []
  | b :: rest => if seg == b.seg then { b with paragraphs := n } :: rest else b :: setParagraphs seg n rest

namespace Blocks

def step : DosRequest → Blocks → Option Blocks
  | .alloc size, s =>
    (dosAlloc size s.dosmem).map fun r =>
      { dosmem := r.2, blocks := if r.1 = 0 then s.blocks else ⟨r.1, size⟩ :: s.blocks }
  | .resize seg newsize, s =>
    let r := dosResize seg newsize s.dosmem
    some { dosmem := r.2, blocks := if r.1.isOk then setParagraphs seg newsize s.blocks else s.blocks }
  | .free seg, s =>
    (dosFree seg s.dosmem).map fun r =>
      { dosmem := r.2, blocks := if r.1.isOk then s.blocks.eraseP (seg == ·.seg) else s.blocks }

end Blocks

def DosmemTrack.region (t : DosmemTrack) : Span := ⟨t.base, t.size⟩

def DosmemTrack.header (t : DosmemTrack) : Span := ⟨t.addr, trackSize⟩

def Block.range (b : Block) : Span := ⟨16 * b.seg, 16 * b.paragraphs⟩

/-- The memory that the pools are started with. -/
structure DosGiven where
  high : List Chunk
  dos : List Chunk
  givenHigh : Given high
  givenDos : Given dos
  /-- DOS memory is below 1 MiB. -/
  low : ∀ r ∈ dos, r.stop ≤ 2 ^ 20

/-- The arguments are `WORD`s. -/
def DosRequest.Words : DosRequest → Prop
  | .alloc size => size < 2 ^ 16
  | .resize seg newsize => seg < 2 ^ 16 ∧ newsize < 2 ^ 16
  | .free seg => seg < 2 ^ 16

instance (req : DosRequest) : Decidable req.Words :=
  match req with
  | .alloc size => inferInstanceAs (Decidable (size < 2 ^ 16))
  | .resize _ _ => inferInstanceAs (Decidable (_ ∧ _))
  | .free seg => inferInstanceAs (Decidable (seg < 2 ^ 16))

/-- Both pools have been started, and no block has been allocated. -/
def DosGiven.Starts (g : DosGiven) (s : Blocks) : Prop :=
  ∃ high dos, giveAll pmmInit g.high = some high ∧ giveAll pmmInit g.dos = some dos ∧
    s = { dosmem := { memory := { highMemPool := high, dosMemPool := dos }, tracks := [] }, blocks := [] }

/-- Every block lies in memory that is reserved for it, apart from the others, and freeing it releases that memory. -/
structure Blocks.Safe (g : DosGiven) (s : Blocks) : Prop where
  reserved : ∀ b ∈ s.blocks, ∃ t, s.dosmem.find b.seg = some t ∧ (∀ x, b.range.Has x → t.region.Has x) ∧
    ∀ x, t.region.Has x → Covers g.dos x ∧ ¬Covers s.dosmem.memory.dosMemPool.chunks x
  disjoint : s.blocks.Pairwise fun b c => Apart b.range c.range
  distinct : (s.blocks.map Block.seg).Nodup
  frees : ∀ b ∈ s.blocks, ∀ t, s.dosmem.find b.seg = some t → ∃ d, dosFree b.seg s.dosmem = some (.ok (), d) ∧
    ∀ x, Covers d.memory.dosMemPool.chunks x ↔ Covers s.dosmem.memory.dosMemPool.chunks x ∨ t.region.Has x

/-- A block has paragraphs, there is memory for its track, no size is cut to 16 bits or resized to nothing, and a block grows
only over what is free. -/
def DosRequest.Fits (s : Blocks) : DosRequest → Prop
  | .alloc size => size ≠ 0 ∧ ∃ p ∈ s.dosmem.memory.highMemPool.chunks, trackSize ≤ p.size
  | .resize seg newsize => ∀ t ∈ s.dosmem.find seg, 0 < 16 * newsize + t.alignmentFix ∧
    16 * newsize + t.alignmentFix < 2 ^ 16 ∧
      ∀ q ∈ s.dosmem.memory.dosMemPool.chunks, q.start = t.base + t.size → 16 * newsize + t.alignmentFix ≤ t.size + q.size
  | .free _ => True

end FreeDos32.Dpmi
