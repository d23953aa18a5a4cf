import FreeDos32.Floppy.Fdc
import FreeDos32.Kernel.Pmm

namespace FreeDos32

open Fdc
open Kernel (dword)

/-- `start` is the first sector of the cached cylinder; `valid` and `bad` are the bits of its flags. -/
structure Floppy where
  fdd : Fdd
  locked : Bool
  cylinderSize : ℕ
  data : ℕ → Sector
  start : ℕ
  valid : Bool
  bad : Bool

namespace Floppy

def lbaToChs (lba : ℕ) (f : Floppy) : Option Chs :=
  if f.fdd.fmt.size ≤ lba then none
  else some ⟨lba / f.cylinderSize, lba % f.cylinderSize / f.fdd.fmt.secPerTrk, lba % f.cylinderSize % f.fdd.fmt.secPerTrk + 1⟩

def floppyOpen (f : Floppy) : Except Error Unit × Floppy :=
  if f.locked then (.error (.errno .ebusy), f)
  else
    match f.fdd.fdcLogDisk with
    | (.error e, fdd) => (.error (.sense e), { f with fdd, valid := false, bad := false })
    | (.ok (), fdd) =>
      (.ok (), { f with fdd, valid := false, bad := false, cylinderSize := fdd.fmt.secPerTrk * fdd.fmt.heads, locked := true })

def floppyRevalidate (f : Floppy) : Except Error Unit × Floppy :=
  if ¬f.locked then (.error (.errno .einval), f)
  else
    match f.fdd.fdcLogDisk with
    | (.error e, fdd) => (.error (.sense e), { f with fdd })
    | (.ok (), fdd) => (.ok (), { f with fdd })

/-- A sector is read without the cache. -/
def readSector (start : ℕ) (f : Floppy) : Except Error Sector :=
  match f.lbaToChs (dword start) with
  | none => .error (.errno .enxio)
  | some chs => (f.fdd.fdcRead chs).mapError .sense

def readUncached : ℕ → ℕ → Floppy → Except Error (List Sector)
  | 0, _, _ => .ok []
  | n + 1, start, f => do
    let sector ← f.readSector start
    let rest ← readUncached n (start + 1) f
    return sector :: rest

/-- The cached cylinder holds the sector. -/
def Hit (start : ℕ) (f : Floppy) : Prop := f.valid = true ∧ f.start ≤ start ∧ start < f.start + f.cylinderSize

instance (start : ℕ) (f : Floppy) : Decidable (f.Hit start) := inferInstanceAs (Decidable (_ ∧ _))

/-- A whole cylinder is read; if this fails, the cylinder has bad sectors. -/
def fill (start : ℕ) (f : Floppy) : Except Error Floppy :=
  match f.lbaToChs (dword start) with
  | none => .error (.errno .enxio)
  | some chs =>
    match f.fdd.fdcReadCylinder chs.c f.data with
    | .error .attention => .error (.sense .attention)
    | .error _ => .ok { f with valid := true, bad := true, start := chs.c * f.cylinderSize }
    | .ok data => .ok { f with valid := true, bad := false, start := chs.c * f.cylinderSize, data }

/-- As many sectors as possible come from the cache; each round reads one at least. -/
def readCached : ℕ → ℕ → ℕ → Floppy → Option (Except Error (List Sector) × Floppy)
  | 0, n, _, f => if n = 0 then some (.ok [], f) else none
  | bound + 1, n, start, f =>
    if n = 0 then some (.ok [], f)
    else
      match (if f.Hit start then .ok f else f.fill start) with
      | .error e => some (.error e, f)
      | .ok f =>
        if f.bad then
          match f.readSector start with
          | .error e => some (.error e, f)
          | .ok sector => (readCached bound (n - 1) (start + 1) f).map fun r => (r.1.map (sector :: ·), r.2)
        else if f.fdd.fdcDiskChanged then some (.error (.sense .attention), f)
        else
          let k := if n < f.start + f.cylinderSize - start then n else f.start + f.cylinderSize - start
          let sectors := (List.range k).map fun i => f.data (start - f.start + i)
          (readCached bound (n - k) (start + k) f).map fun r => (r.1.map (sectors ++ ·), r.2)

def floppyRead (count start : ℕ) (nocache : Bool) (f : Floppy) : Option (Except Error (List Sector) × Floppy) :=
  if nocache then some (readUncached count start f, f) else readCached count count start f

/-- `memcpy` to the cache, if the sector is in it. -/
def cacheWrite (nocache : Bool) (start : ℕ) (sector : Sector) (f : Floppy) : Floppy :=
  if nocache = false ∧ f.Hit start then { f with data := Function.update f.data (start - f.start) sector } else f

def floppyWrite (nocache : Bool) : List Sector → ℕ → Floppy → Except Error Unit × Floppy
  | [], _, f => (.ok (), f)
  | sector :: rest, start, f =>
    let f := f.cacheWrite nocache start sector
    match f.lbaToChs (dword start) with
    | none => (.error (.errno .enxio), f)
    | some chs =>
      match f.fdd.fdcWrite chs sector with
      | .error e => (.error (.sense e), f)
      | .ok fdd => floppyWrite nocache rest (start + 1) { f with fdd }

/-- What happens between two calls, or a call; the disk in the drive is exchanged for another one, or taken out. -/
inductive Event where
  | read (count start : ℕ) (nocache : Bool)
  | write (sectors : List Sector) (start : ℕ) (nocache : Bool)
  | revalidate
  | exchange (medium : Option Medium)

def step : Event → Floppy → Floppy
  | .read count start nocache, f => ((f.floppyRead count start nocache).map (·.2)).getD f
  | .write sectors start nocache, f => (f.floppyWrite nocache sectors start).2
  | .revalidate, f => f.floppyRevalidate.2
  | .exchange medium, f => { f with fdd := f.fdd.exchange medium }

def run (events : List Event) (f : Floppy) : Floppy := events.foldl (fun f e => f.step e) f

end Floppy

end FreeDos32
