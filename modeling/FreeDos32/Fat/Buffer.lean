import Mathlib.Algebra.Ring.Int.Defs
import Mathlib.Algebra.Ring.Nat
import FreeDos32.Errno
import FreeDos32.Library.Prog

namespace FreeDos32.Fat

structure Buffer (α : Type) where
  sector : ℕ
  count : ℕ
  valid : Bool
  dirty : Bool
  data : ℕ → α

/-- The buffers of a volume over its block device; `data` and `device` are arrays of sectors.
`fault k` tells whether the `k`-th transfer fails. -/
structure Cache (α : Type) where
  device : ℕ → α
  deviceEnd : ℕ
  fault : ℕ → Bool
  transfers : ℕ
  logBytesPerSector : ℕ
  sectorsPerBuffer : ℕ
  numBuffers : ℕ
  buffers : ℕ → Buffer α
  buffersLru : List ℕ

def Buffer.Covers {α : Type} (b : Buffer α) (sector : ℕ) : Prop :=
  b.valid = true ∧ b.sector ≤ sector ∧ sector < b.sector + b.count

instance {α : Type} (b : Buffer α) (sector : ℕ) : Decidable (b.Covers sector) :=
  inferInstanceAs (Decidable (_ ∧ _ ∧ _))

namespace Cache

variable {α : Type}

def setBuffer (b : ℕ) (x : Buffer α) (c : Cache α) : Cache α :=
  { c with buffers := fun k => if k = b then x else c.buffers k }

def fatBlockdevRead (b count start : ℕ) : Prog (Cache α) Errno ℕ := do
  let c ← Prog.state
  Prog.update (fun c => { c with transfers := c.transfers + 1 })
  if c.fault c.transfers then Prog.fail .eio
  else
    let res := min count (c.deviceEnd - start)
    let data := fun k => if k < res then c.device (start + k) else (c.buffers b).data k
    Prog.update (setBuffer b { c.buffers b with data := data })
    pure res

def fatBlockdevWrite (b count start : ℕ) : Prog (Cache α) Errno ℕ := do
  let c ← Prog.state
  Prog.update (fun c => { c with transfers := c.transfers + 1 })
  if c.fault c.transfers then Prog.fail .eio
  else
    let res := min count (c.deviceEnd - start)
    let device := fun s =>
      if start ≤ s ∧ s < start + res then (c.buffers b).data (s - start) else c.device s
    Prog.update (fun c => { c with device := device })
    pure res

def findBuffer (c : Cache α) (sector : ℕ) : Option ℕ :=
  (List.range c.numBuffers).find? (fun k => decide ((c.buffers k).Covers sector))

def flushBuffer (b : ℕ) : Prog (Cache α) Errno Unit := do
  let c ← Prog.state
  let x := c.buffers b
  if x.valid && x.dirty then
    let res ← fatBlockdevWrite b x.count x.sector
    if res ≠ x.count then Prog.fail .eio
    else Prog.update (setBuffer b { x with dirty := false })
  else pure ()

def flushBuffers : ℕ → ℕ → Prog (Cache α) Errno Unit
  | _, 0 => pure ()
  | k, n + 1 => do
    flushBuffer k
    flushBuffers (k + 1) n

def fatDirtybuf (b : ℕ) (writeThrough : Bool) : Prog (Cache α) Errno Unit := do
  let c ← Prog.state
  if (c.buffers b).valid then
    Prog.update (setBuffer b { c.buffers b with dirty := true })
    if writeThrough then flushBuffer b else pure ()
  else Prog.fail .einval

def invalidate (b base : ℕ) (c : Cache α) : Cache α :=
  c.setBuffer b { c.buffers b with valid := false, dirty := false, sector := base }

def validate (b count : ℕ) (c : Cache α) : Cache α :=
  c.setBuffer b { c.buffers b with count := count, valid := true }

def touch (b : ℕ) (c : Cache α) : Cache α :=
  { c with buffersLru := c.buffersLru.erase b ++ [b] }

/-- The branch of `fat_readbuf` that gives buffer `b` to a sector found in no buffer.
`sector & ~(sectors_per_buffer - 1)` is written as the multiple below the sector. -/
def loadBuffer (sector b : ℕ) : Prog (Cache α) Errno Unit := do
  flushBuffer b
  let c ← Prog.state
  let base := sector / c.sectorsPerBuffer * c.sectorsPerBuffer
  Prog.update (invalidate b base)
  let res ← fatBlockdevRead b c.sectorsPerBuffer base
  if sector ≥ base + res then Prog.fail .eio
  else Prog.update (validate b res)

/-- The buffer that holds the sector and the byte offset of the sector in its data. -/
def fatReadbuf (sector : ℕ) (buffer : Option ℕ) : Prog (Cache α) Errno (ℕ × ℕ) := do
  let c ← Prog.state
  let b := (c.findBuffer sector).getD (buffer.getD (c.buffersLru.headD 0))
  if (c.findBuffer sector).isNone then loadBuffer sector b
  Prog.update (touch b)
  Prog.reads (fun c => (b, (sector - (c.buffers b).sector) <<< c.logBytesPerSector))

/-- Changes one sector of a buffer's data in place. -/
def pokeSector (b k : ℕ) (g : α → α) : Prog (Cache α) Errno Unit :=
  Prog.update (fun c => c.setBuffer b
    { c.buffers b with data := fun j => if j = k then g ((c.buffers b).data j) else (c.buffers b).data j })

end Cache

end FreeDos32.Fat
