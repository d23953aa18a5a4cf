import FreeDos32.Kernel.FreeList

namespace FreeDos32.Ata

open Kernel (dword dsub)

/-- The 512 bytes of a sector, as the words that go through the data register. -/
abbrev Sector := Fin 256 → BitVec 16

/-- A register that remembers the byte written before the last one. -/
structure Latch where
  cur : ℕ
  prev : ℕ
  deriving DecidableEq

def Latch.outb (v : ℕ) (r : Latch) : Latch := ⟨v % 256, r.cur⟩

inductive Command where
  | readSectors
  | readMultiple
  | readSectorsExt
  | readMultipleExt
  | writeSectors
  | writeMultiple
  | writeSectorsExt
  | writeMultipleExt
  deriving DecidableEq

def Command.ext : Command → Bool
  | .readSectorsExt | .readMultipleExt | .writeSectorsExt | .writeMultipleExt => true
  | .readSectors | .readMultiple | .writeSectors | .writeMultiple => false

/-- The drive; a command is under way while there are sectors left to be transferred. -/
structure Drive where
  disk : ℕ → Sector
  heads : ℕ
  sectors : ℕ
  cnt : Latch
  sect : Latch
  cylL : Latch
  cylH : Latch
  devhead : ℕ
  address : ℕ
  left : ℕ

namespace Drive

def outbCnt (v : ℕ) (s : Drive) : Drive := { s with cnt := s.cnt.outb v }

def outbSect (v : ℕ) (s : Drive) : Drive := { s with sect := s.sect.outb v }

def outbCylL (v : ℕ) (s : Drive) : Drive := { s with cylL := s.cylL.outb v }

def outbCylH (v : ℕ) (s : Drive) : Drive := { s with cylH := s.cylH.outb v }

def outbDevhead (v : ℕ) (s : Drive) : Drive := { s with devhead := v % 256 }

/-- The address that the registers encode: 48 bits, or 28 bits if the LBA bit is set, or cylinder, head and sector. -/
def target (ext : Bool) (s : Drive) : ℕ :=
  if ext then
    s.sect.cur + s.cylL.cur * 2 ^ 8 + s.cylH.cur * 2 ^ 16 + s.sect.prev * 2 ^ 24 + s.cylL.prev * 2 ^ 32 + s.cylH.prev * 2 ^ 40
  else if s.devhead / 64 % 2 = 1 then
    s.sect.cur + s.cylL.cur * 2 ^ 8 + s.cylH.cur * 2 ^ 16 + s.devhead % 16 * 2 ^ 24
  else ((s.cylL.cur + s.cylH.cur * 2 ^ 8) * s.heads + s.devhead % 16) * s.sectors + (s.sect.cur - 1)

/-- A count of zero is the largest one. -/
def quantity (ext : Bool) (s : Drive) : ℕ :=
  if ext then if s.cnt.prev * 256 + s.cnt.cur = 0 then 65536 else s.cnt.prev * 256 + s.cnt.cur
  else if s.cnt.cur = 0 then 256 else s.cnt.cur

def outbCommand (command : Command) (s : Drive) : Drive :=
  { s with address := s.target command.ext, left := s.quantity command.ext }

/-- `DRQ` in the status register; neither `BSY` nor `ERR` is ever set. -/
def drq (s : Drive) : Prop := 0 < s.left

instance (s : Drive) : Decidable s.drq := inferInstanceAs (Decidable (_ < _))

/-- The words of the next sector are read from the data register. -/
def insw (s : Drive) : Sector × Drive :=
  if s.drq then (s.disk s.address, { s with address := s.address + 1, left := s.left - 1 }) else (fun _ => 0, s)

/-- The words of the next sector are written to the data register. -/
def outsw (sector : Sector) (s : Drive) : Drive :=
  if s.drq then
    { s with disk := Function.update s.disk s.address sector, address := s.address + 1, left := s.left - 1 }
  else s

end Drive

end FreeDos32.Ata
