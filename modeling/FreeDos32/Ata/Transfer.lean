import FreeDos32.Ata.Drive

namespace FreeDos32.Ata

open Kernel (dword dsub)

def ataEdrqClear : ℤ := -4

def ataEsleep : ℤ := -12

def ataDrqSet : ℤ := -13

def ataErange : ℤ := -14

/-- What the functions read of `struct ata_device`; `lba` is a bit of `capabilities`, and `sleep`, `standby` and `lba48` are bits
of `flags`. -/
structure AtaDevice where
  totalBlocks : ℕ
  firstSector : ℕ
  heads : ℕ
  sectors : ℕ
  lba : Bool
  slave : Bool
  sectorsPerBlock : ℕ
  sleep : Bool
  standby : Bool
  lba48 : Bool
  deriving DecidableEq

def AtaDevice.devBit (d : AtaDevice) : ℕ := if d.slave then 0x10 else 0

/-- The drive, what the driver keeps of it, and the caller's buffer, one sector after the other. -/
structure Host where
  drive : Drive
  currentDevBit : ℕ
  buffer : ℕ → Sector

def deviceSelect (d : AtaDevice) (h : Host) : ℤ × Host :=
  if d.sleep then (ataEsleep, h)
  -- the wait for the end of the last command times out
  else if h.drive.drq then (ataDrqSet, h)
  else if h.currentDevBit ≠ d.devBit then
    (0, { h with drive := h.drive.outbDevhead d.devBit, currentDevBit := d.devBit })
  else (0, h)

def writeRegStartCount (start count : ℕ) (use48 : Bool) (d : AtaDevice) (s : Drive) : Drive :=
  let s :=
    if d.lba then
      let s :=
        if use48 then
          (((s.outbSect (start / 2 ^ 24)).outbCylL (start / 2 ^ 32)).outbCylH (start / 2 ^ 40)).outbCnt (count / 2 ^ 8)
        else s.outbDevhead (start / 2 ^ 24 % 16 ||| d.devBit ||| 0x40 ||| 0xA0)
      ((s.outbSect start).outbCylL (start / 2 ^ 8)).outbCylH (start / 2 ^ 16)
    else
      let s := s.outbSect (start % d.sectors + 1)
      let start := start / d.sectors
      let s := s.outbDevhead (start % d.heads ||| d.devBit ||| 0xA0)
      let start := start / d.heads
      (s.outbCylL start).outbCylH (start / 2 ^ 8)
  s.outbCnt count

def moveIn (b : ℕ) (h : Host) : Host :=
  let (sector, drive) := h.drive.insw
  { h with drive, buffer := Function.update h.buffer b sector }

def moveOut (b : ℕ) (h : Host) : Host := { h with drive := h.drive.outsw (h.buffer b) }

/-- The sectors of a block, for a counter that wraps around at `m`. -/
def moveBlock (move : ℕ → Host → Host) (m : ℕ) : ℕ → ℕ → ℕ → Host → ℕ × ℕ × Host
  | 0, count, b, h => (count, b, h)
  | k + 1, count, b, h =>
    let count := (count + (m - 1)) % m
    if count = 0 then (0, b + 1, move b h) else moveBlock move m k count (b + 1) (move b h)

/-- Block after block; `none` stands for more blocks than `bound`. -/
def moveBlocks (move : ℕ → Host → Host) (m k : ℕ) : ℕ → ℕ → ℕ → Host → Option (ℤ × Host)
  | 0, _, _, _ => none
  | bound + 1, count, b, h =>
    if ¬h.drive.drq then some (ataEdrqClear, h)
    else
      let (count, b, h) := moveBlock move m k count b h
      if count = 0 then some (0, h) else moveBlocks move m k bound count b h

/-- Without the block mode each sector is a block of its own. -/
def AtaDevice.blockLength (d : AtaDevice) : ℕ := if d.sectorsPerBlock = 0 then 1 else d.sectorsPerBlock

/-- Here `count` is a `BYTE`. -/
def pioDataIn (d : AtaDevice) (count start b : ℕ) (command : Command) (use48 : Bool) (h : Host) : Option (ℤ × Host) :=
  let (res, h) := deviceSelect d h
  if res ≠ 0 then some (res, h)
  else
    let count := count % 2 ^ 8
    let s := writeRegStartCount start count use48 d h.drive
    moveBlocks moveIn (2 ^ 8) d.blockLength (2 ^ 8) count b { h with drive := s.outbCommand command }

/-- Here `count` is a `WORD`, and the count register is written once more. -/
def pioDataOut (d : AtaDevice) (count start b : ℕ) (command : Command) (use48 : Bool) (h : Host) : Option (ℤ × Host) :=
  let (res, h) := deviceSelect d h
  if res ≠ 0 then some (res, h)
  else
    let count := count % 2 ^ 16
    let s := (writeRegStartCount start count use48 d h.drive).outbCnt count
    moveBlocks moveOut (2 ^ 16) d.blockLength (2 ^ 16) count b { h with drive := s.outbCommand command }

/-- The loop over the commands; `pio` is given the count and the place in the buffer. There are at most as many rounds as
sectors. -/
def commandLoop (pio : ℕ → ℕ → Host → Option (ℤ × Host)) (maxPerCmd : ℕ) : ℕ → ℕ → ℕ → Host → Option (ℤ × Host)
  | 0, count, _, h => if count = 0 then some (0, h) else none
  | bound + 1, count, b, h =>
    if count = 0 then some (0, h)
    else if maxPerCmd ≤ count then
      (pio 0 b h).bind fun r =>
        if r.1 ≠ 0 then some (-1, r.2) else commandLoop pio maxPerCmd bound (count - maxPerCmd) (b + maxPerCmd) r.2
    else (pio (count % 2 ^ 8) b h).map fun r => (if r.1 ≠ 0 then -1 else 0, r.2)

/-- A `DWORD` as an `int`. -/
def int (x : ℕ) : ℤ := if x < 2 ^ 31 then x else x - 2 ^ 32

abbrev Pio := ℕ → ℕ → ℕ → Command → Bool → Host → Option (ℤ × Host)

/-- The commands for `count` sectors; all of them are given the same `start`. -/
def ataCommands (pio : Pio) (command : Command) (maxPerCmd : ℕ) (use48 : Bool) (start count : ℕ) (d : AtaDevice) (h : Host) :
    Option (ℤ × AtaDevice × Host) :=
  (commandLoop (fun c b => pio c start b command use48) maxPerCmd count count 0 h).map fun r =>
    if r.1 ≠ 0 then (r.1, d, r.2) else (int count, { d with standby := false }, r.2)

/-- What `ata_read` and `ata_write` have in common. -/
def ataTransfer (pio : Pio) (single multiple singleExt multipleExt : Command) (start count : ℕ) (d : AtaDevice) (h : Host) :
    Option (ℤ × AtaDevice × Host) :=
  if d.totalBlocks ≤ start then some (0, d, h)
  else
    let count := if d.totalBlocks < dword (start + count) then dsub d.totalBlocks start else count
    let start := dword (start + d.firstSector)
    -- `& 0xF0000000`
    if 2 ^ 28 ≤ dsub (dword (start + count)) 1 then
      if d.lba48 then ataCommands pio (if d.sectorsPerBlock ≠ 0 then multipleExt else singleExt) 65536 true start count d h
      else some (ataErange, d, h)
    else ataCommands pio (if d.sectorsPerBlock ≠ 0 then multiple else single) 256 false start count d h

def ataRead (start count : ℕ) (d : AtaDevice) (h : Host) : Option (ℤ × AtaDevice × Host) :=
  ataTransfer (pioDataIn d) .readSectors .readMultiple .readSectorsExt .readMultipleExt start count d h

def ataWrite (start count : ℕ) (d : AtaDevice) (h : Host) : Option (ℤ × AtaDevice × Host) :=
  ataTransfer (pioDataOut d) .writeSectors .writeMultiple .writeSectorsExt .writeMultipleExt start count d h

end FreeDos32.Ata
