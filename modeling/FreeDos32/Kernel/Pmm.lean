import FreeDos32.Library.Spans

namespace FreeDos32.Kernel

def dword (x : ℕ) : ℕ := x % 2 ^ 32

/-- The difference of two `DWORD`s. -/
def dsub (x y : ℕ) : ℕ := dword (x + (2 ^ 32 - y))

/-- A `memheader` on the free list: its address and its `size` field. -/
abbrev Chunk := Span

/-- `sizeof(struct memheader)` -/
def headerSize : ℕ := 8

/-- `size` is the field `top.size`, `chunks` the list that starts at `top.next`. -/
structure Mempool where
  size : ℕ
  chunks : List Chunk
  deriving DecidableEq

def pmmInit : Mempool := { size := 0, chunks := [] }

def chunkEnd (p : Chunk) : ℕ := dword (p.start + p.size)

/-- Storing the address `start` in a `next` field: the null pointer ends the list. -/
def link (start size : ℕ) (rest : List Chunk) : List Chunk :=
  if start = 0 then [] else ⟨start, size⟩ :: rest

/-- What is left of a chunk stays on the list when it can hold a header. -/
def remainder (start lsize : ℕ) (rest : List Chunk) : List Chunk :=
  if lsize < headerSize then rest else link start lsize rest

def lost (lsize : ℕ) : ℕ := if lsize < headerSize then lsize else 0

/-- The allocation loops: the first chunk that passes the test is replaced, and the loop ends. -/
def splice (test : Chunk → Bool) (repl : Chunk → List Chunk → List Chunk) : List Chunk → Option (Chunk × List Chunk)
  | [] => none
  | p :: rest =>
    if test p then some (p, repl p rest)
    else (splice test repl rest).map fun r => (r.1, p :: r.2)

def addressTest (base size : ℕ) (p : Chunk) : Bool := base ≤ dsub (chunkEnd p) size ∧ p.start ≤ base

def pmmAllocAddress (mp : Mempool) (base size : ℕ) : ℤ × Mempool :=
  let left := fun p : Chunk => base - p.start
  let right := fun p : Chunk => dsub (chunkEnd p) (dword (base + size))
  let repl := fun p rest => remainder p.start (left p) (remainder (dword (base + size)) (right p) rest)
  match splice (addressTest base size) repl mp.chunks with
  | some (p, chunks) => (1, { size := dsub (dsub (dsub mp.size (lost (left p))) (lost (right p))) size, chunks })
  | none => (-1, mp)

def fromTest (base size : ℕ) (p : Chunk) : Bool :=
  p.start ≤ dsub (chunkEnd p) size ∧ base ≤ dsub (chunkEnd p) size

def pmmAllocFrom (mp : Mempool) (base size : ℕ) : ℕ × Mempool :=
  let repl := fun (p : Chunk) rest =>
    if base ≤ p.start then
      let pnew := dword (p.start + size)
      remainder pnew (dsub (chunkEnd p) pnew) rest
    else remainder p.start (dsub (chunkEnd p) size - p.start) rest
  match splice (fromTest base size) repl mp.chunks with
  -- top.size is left as it is
  | some (p, chunks) => (if base ≤ p.start then p.start else dsub (chunkEnd p) size, { mp with chunks })
  | none => (0, mp)

def pmmResizeLoop (base oldsize newsize : ℕ) : List Chunk → Option (List Chunk)
  | [] => none
  | p :: rest =>
    if dword (base + oldsize) = p.start then
      let asize := dsub newsize oldsize
      let lsize := dsub p.size asize
      -- `sizeof` is unsigned, so that a negative lsize is a large one in this comparison
      if headerSize ≤ lsize then some (link (dword (p.start + asize)) lsize rest)
      else if 2 ^ 31 ≤ lsize then none
      else some rest
    else if dword (base + oldsize) < p.start then none
    else (pmmResizeLoop base oldsize newsize rest).map (p :: ·)

def pmmResize (mp : Mempool) (base oldsize newsize : ℕ) : ℕ × Mempool :=
  match pmmResizeLoop base oldsize newsize mp.chunks with
  -- top.size is left as it is
  | some chunks => (newsize, { mp with chunks })
  | none => (0, mp)

def pmmAlloc (mp : Mempool) (size : ℕ) : ℕ × Mempool :=
  let repl := fun (p : Chunk) rest => remainder (dword (p.start + size)) (p.size - size) rest
  match splice (fun p => size ≤ p.size) repl mp.chunks with
  | some (p, chunks) => (p.start, { size := dsub (dsub mp.size (lost (p.size - size))) size, chunks })
  | none => (0, mp)

/-- The list after the loop of `pmm_free` and the value of the variable `size`; `none` stands for `fd32_abort`. -/
def pmmFreeLoop (base size : ℕ) : List Chunk → Option (List Chunk × ℕ)
  | [] => some (link base size [], size)
  | p :: rest =>
    if base = chunkEnd p then
      match rest with
      | [] => some ([⟨p.start, dword (p.size + size)⟩], size)
      | pnew :: rest' =>
        if dword (base + size) = pnew.start then
          some (⟨p.start, dword (p.size + (size + pnew.size))⟩ :: rest', size)
        else if dword (base + size) < pnew.start then some (⟨p.start, dword (p.size + size)⟩ :: rest, size)
        else none
    else if base < chunkEnd p then
      if dword (base + size) ≤ p.start then
        if dword (base + size) = p.start then
          some (link base (dword (size + p.size)) rest, dword (size + p.size))
        else some (link base size (p :: rest), size)
      else none
    else (pmmFreeLoop base size rest).map fun r => (p :: r.1, r.2)

def pmmFree (mp : Mempool) (base size : ℕ) : Option Mempool :=
  (pmmFreeLoop base size mp.chunks).map fun r => { size := dword (mp.size + r.2), chunks := r.1 }

end FreeDos32.Kernel
