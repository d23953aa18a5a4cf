import Mathlib.Logic.Function.Basic
import Mathlib.Algebra.Ring.Nat
import FreeDos32.Errno

namespace FreeDos32.Fdc

/-- The sense keys of the errors of the controller; it never times out. -/
inductive Sense where
  | notready
  | medium
  | attention
  deriving DecidableEq

inductive Error where
  | errno (e : Errno)
  | sense (s : Sense)
  deriving DecidableEq

abbrev Sector := Fin 512 → BitVec 8

structure Chs where
  c : ℕ
  h : ℕ
  s : ℕ
  deriving DecidableEq

structure FloppyFormat where
  size : ℕ
  secPerTrk : ℕ
  heads : ℕ
  tracks : ℕ
  deriving DecidableEq

namespace FloppyFormat

def cylinderSize (fmt : FloppyFormat) : ℕ := fmt.secPerTrk * fmt.heads

/-- The disk has whole cylinders of one or two tracks. -/
def Ok (fmt : FloppyFormat) : Prop :=
  fmt.size = fmt.cylinderSize * fmt.tracks ∧ 0 < fmt.secPerTrk ∧ (fmt.heads = 1 ∨ fmt.heads = 2) ∧ fmt.size < 2 ^ 32

instance (fmt : FloppyFormat) : Decidable fmt.Ok := inferInstanceAs (Decidable (_ ∧ _))

/-- Where a sector is on the disk. -/
def chs (fmt : FloppyFormat) (lba : ℕ) : Chs :=
  ⟨lba / fmt.cylinderSize, lba % fmt.cylinderSize / fmt.secPerTrk, lba % fmt.cylinderSize % fmt.secPerTrk + 1⟩

end FloppyFormat

/-- The formats that are probed, but for the first one, which stands for no format. -/
def floppyFormats : List FloppyFormat :=
  [⟨720, 9, 2, 40⟩, ⟨2400, 15, 2, 80⟩, ⟨720, 9, 1, 80⟩, ⟨1440, 9, 2, 80⟩, ⟨720, 9, 2, 40⟩, ⟨1440, 9, 2, 80⟩, ⟨2880, 18, 2, 80⟩,
   ⟨5760, 36, 2, 80⟩, ⟨6240, 39, 2, 80⟩, ⟨2880, 18, 2, 80⟩, ⟨3360, 21, 2, 80⟩, ⟨820, 10, 2, 41⟩, ⟨1640, 10, 2, 82⟩,
   ⟨2952, 18, 2, 82⟩, ⟨3444, 21, 2, 82⟩, ⟨840, 10, 2, 42⟩, ⟨1660, 10, 2, 83⟩, ⟨2988, 18, 2, 83⟩, ⟨3486, 21, 2, 83⟩,
   ⟨1760, 11, 2, 80⟩, ⟨2080, 13, 2, 80⟩, ⟨2240, 14, 2, 80⟩, ⟨3200, 20, 2, 80⟩, ⟨3520, 22, 2, 80⟩, ⟨3840, 24, 2, 80⟩,
   ⟨6400, 40, 2, 80⟩, ⟨7040, 44, 2, 80⟩, ⟨7680, 48, 2, 80⟩, ⟨3680, 23, 2, 80⟩, ⟨1600, 10, 2, 80⟩, ⟨3200, 20, 2, 80⟩]

theorem floppyFormats_ok : ∀ fmt ∈ floppyFormats, fmt.Ok := by decide

/-- A disk with its format and the contents of its sectors. -/
structure Medium where
  fmt : FloppyFormat
  ok : fmt.Ok
  data : Chs → Sector

namespace Medium

def Has (chs : Chs) (m : Medium) : Prop :=
  chs.c < m.fmt.tracks ∧ chs.h < m.fmt.heads ∧ 1 ≤ chs.s ∧ chs.s ≤ m.fmt.secPerTrk

instance (chs : Chs) (m : Medium) : Decidable (m.Has chs) := inferInstanceAs (Decidable (_ ∧ _))

def write (chs : Chs) (sector : Sector) (m : Medium) : Medium := { m with data := Function.update m.data chs sector }

def sector (m : Medium) (lba : ℕ) : Sector := m.data (m.fmt.chs lba)

end Medium

/-- The drive and what is in it. `changeline` is bit 7 of the Digital Input Register, which stays set until the heads are moved
with a disk in the drive; `changed` is `DF_CHANGED` of the flags. -/
structure Fdd where
  medium : Option Medium
  changeline : Bool
  changed : Bool
  fmt : FloppyFormat
  nativeFmt : FloppyFormat

namespace Fdd

def fdcDiskChanged (fdd : Fdd) : Bool := fdd.changeline || fdd.changed

def fdcRead (chs : Chs) (fdd : Fdd) : Except Sense Sector :=
  if fdd.changeline then .error .attention
  else
    match fdd.medium with
    | none => .error .notready
    | some m => if m.Has chs then .ok (m.data chs) else .error .medium

def fdcWrite (chs : Chs) (sector : Sector) (fdd : Fdd) : Except Sense Fdd :=
  if fdd.changeline then .error .attention
  else
    match fdd.medium with
    | none => .error .notready
    | some m => if m.Has chs then .ok { fdd with medium := some (m.write chs sector) } else .error .medium

/-- Both tracks of a cylinder come to the buffer, whatever the number of heads is. -/
def fdcReadCylinder (cyl : ℕ) (buffer : ℕ → Sector) (fdd : Fdd) : Except Sense (ℕ → Sector) :=
  if fdd.changeline then .error .attention
  else
    match fdd.medium with
    | none => .error .notready
    | some m =>
      let spt := fdd.fmt.secPerTrk
      if ∀ i < spt * 2, m.Has ⟨cyl, i / spt, i % spt + 1⟩ then
        .ok fun i => if i < spt * 2 then m.data ⟨cyl, i / spt, i % spt + 1⟩ else buffer i
      else .error .medium

/-- The reset moves the heads; then the format of the disk is found. -/
def fdcLogDisk (fdd : Fdd) : Except Sense Unit × Fdd :=
  match fdd.medium with
  | none => (.error .notready, { fdd with fmt := fdd.nativeFmt, changed := true })
  | some m => (.ok (), { fdd with fmt := m.fmt, changeline := false, changed := false })

/-- Another disk, or none, comes into the drive. -/
def exchange (medium : Option Medium) (fdd : Fdd) : Fdd := { fdd with medium, changeline := true }

end Fdd

end FreeDos32.Fdc
