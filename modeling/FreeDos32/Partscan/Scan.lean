import FreeDos32.Errno
import FreeDos32.Filesys.Truename

namespace FreeDos32.Partscan

open Filesys (strcaseEq)

abbrev Byte := BitVec 8

abbrev Dword := BitVec 32

abbrev Block := ℕ → Byte

def partEmpty : Byte := 0x00

def partExtDos : Byte := 0x05

def partExtWin : Byte := 0x0F

def partExtLinux : Byte := 0x85

/-- The values of `BLOCK_DEVICE_INFO_TACTIVE` and of the two others, shifted already. -/
def tActive : Dword := 1#32 <<< 8

def tLogical : Dword := 2#32 <<< 8

def tPrimary : Dword := 3#32 <<< 8

structure PartTabl where
  active : Byte
  startH : Byte
  startS : Byte
  startC : Byte
  type : Byte
  endH : Byte
  endS : Byte
  endC : Byte
  lbaStart : Dword
  lbaSize : Dword
  deriving DecidableEq

namespace PartTabl

def isExtended (p : PartTabl) : Bool := p.type = partExtDos || p.type = partExtWin || p.type = partExtLinux

def isData (p : PartTabl) : Bool := p.type ≠ partEmpty && !p.isExtended

end PartTabl

/-- The fields of `PS_DEVICE` that the scan reads or writes. -/
structure Device where
  openCount : ℕ
  firstSector : Dword
  totalBlocks : Dword
  type : Dword
  multibootId : Dword
  heads : Dword
  sects : Dword
  deriving DecidableEq

structure BlockDevice where
  name : List Char
  handle : Device
  deriving DecidableEq

/-- The registered block devices, and what the requests for memory from here on are answered. -/
structure Env where
  granted : ℕ → Bool
  list : List BlockDevice

def Env.get (env : Env) : Bool × Env := (env.granted 0, { env with granted := fun n => env.granted (n + 1) })

def blockRegister (b : BlockDevice) (env : Env) : Except Errno Unit × Env :=
  if env.list.any fun c => strcaseEq c.name b.name then (.error .eexist, env)
  else
    let (granted, env) := env.get
    if granted then (.ok (), { env with list := env.list ++ [b] }) else (.error .enomem, env)

def dwordAt (b : Block) (i : ℕ) : Dword := b (i + 3) ++ b (i + 2) ++ b (i + 1) ++ b i

def entryAt (b : Block) (i : ℕ) : PartTabl where
  active := b i
  startH := b (i + 1)
  startS := b (i + 2)
  startC := b (i + 3)
  type := b (i + 4)
  endH := b (i + 5)
  endS := b (i + 6)
  endC := b (i + 7)
  lbaStart := dwordAt b (i + 8)
  lbaSize := dwordAt b (i + 12)

/-- The 64 bytes from 446 on. -/
def tableOf (b : Block) : List PartTabl := [entryAt b 446, entryAt b 462, entryAt b 478, entryAt b 494]

def chsToLba (c h s numH numS : Dword) : Dword := (c * numH + h) * numS + s - 1

def cylinder (c s : Byte) : Dword := c.setWidth 32 + (s &&& 0xC0).setWidth 32 <<< 2

def chsStart (p : PartTabl) (d : Device) : Dword :=
  chsToLba (cylinder p.startC p.startS) (p.startH.setWidth 32) ((p.startS &&& 0x3F).setWidth 32) d.heads d.sects

def chsSize (p : PartTabl) (d : Device) : Dword :=
  chsToLba (cylinder p.endC p.endS) (p.endH.setWidth 32) ((p.endS &&& 0x3F).setWidth 32) d.heads d.sects -
    chsStart p d + 1

def trusted (d : Device) : Bool := 1024 < d.totalBlocks / (d.heads * d.sects)

def checkLba (p : PartTabl) (d : Device) : PartTabl :=
  if trusted d then p else { p with lbaStart := chsStart p d, lbaSize := chsSize p d }

/-- The string `"%s%u"` -/
def partName (name : List Char) (part : ℕ) : List Char := name ++ Nat.toDigits 10 part

def partType (part : ℕ) (p : PartTabl) : Dword :=
  (if part < 5 then if p.active ≠ 0 then tActive else tPrimary else tLogical) ||| p.type.setWidth 32

/-- The entry comes back as `check_lba` leaves it. -/
def addPartition (d : Device) (name : List Char) (part : ℕ) (p : PartTabl) (env : Env) :
    Except Errno Unit × PartTabl × Env :=
  let lbaStart := p.lbaStart
  let lbaEnd := p.lbaStart + p.lbaSize - 1
  if p.isData then
    let type := partType part p
    let p := checkLba p d
    let (granted, env) := env.get
    if granted then
      let newD := { d with
        openCount := 0
        firstSector := lbaStart
        totalBlocks := lbaEnd - lbaStart + 1
        type
        multibootId := (d.multibootId &&& 0xFF00FFFF) ||| BitVec.ofNat 32 (part - 1) <<< 16 }
      let (granted, env) := env.get
      if granted then
        let (res, env) := blockRegister ⟨partName name part, newD⟩ env
        (res, p, env)
      else (.error .enomem, p, env)
    else (.error .enomem, p, env)
  else (.ok (), p, env)

def markFirst : List PartTabl → List PartTabl
  | [] => []
  | p :: tbl => if p.isData then { p with active := 0x80 } :: tbl else p :: markFirst tbl

def markActive (tbl : List PartTabl) : List PartTabl :=
  if tbl.any fun p => p.active ≠ 0 then tbl else markFirst tbl

/-- The results of `add_partition` are not looked at. -/
def addPrimaries (d : Device) (name : List Char) : ℕ → List PartTabl → Env → List PartTabl × Env
  | _, [], env => ([], env)
  | partNum, p :: tbl, env =>
    let (_, p, env) := addPartition d name (partNum + 1) p env
    let (tbl, env) := addPrimaries d name (partNum + 1) tbl env
    (p :: tbl, env)

def addLogicals (d : Device) (name : List Char) (origin : Dword) :
    ℕ → List PartTabl → Env → ℕ × List PartTabl × Env
  | partNum, [], env => (partNum, [], env)
  | partNum, p :: tbl, env =>
    let (partNum, p) := if p.isData then (partNum + 1, { p with lbaStart := p.lbaStart + origin }) else (partNum, p)
    let (_, p, env) := addPartition d name partNum p env
    let (partNum, tbl, env) := addLogicals d name origin partNum tbl env
    (partNum, p :: tbl, env)

/-- The loop over the extended partition with the table of the sector that has been read; `none` when it has not ended
within `fuel` turns. -/
def extLoop (d : Device) (read : Dword → Except Errno Block) (name : List Char) (extStart : Dword) :
    ℕ → Dword → ℕ → List PartTabl → Env → Option (Except Errno Unit × Env)
  | 0, _, _, _, _ => none
  | fuel + 1, extStart1, partNum, tbl, env =>
    let (partNum, tbl, env) := addLogicals d name (extStart + extStart1) partNum tbl env
    match tbl.find? PartTabl.isExtended with
    | none => some (.ok (), env)
    | some p => match read (extStart + p.lbaStart) with
      | .error e => some (.error e, env)
      | .ok buffer => extLoop d read name extStart fuel p.lbaStart partNum (tableOf buffer) env

/-- `none` when the scan does not return: the first statement divides by the product of heads and sectors, and the loop
may go on for ever. -/
def psScanpart (fuel : ℕ) (d : Device) (read : Dword → Except Errno Block) (name : List Char) (env : Env) :
    Option (Except Errno Unit × Env) :=
  if d.heads * d.sects = 0 then none
  else match read 0 with
    | .error e => some (.error e, env)
    | .ok buffer =>
      let (tbl, env) := addPrimaries d name 0 (markActive (tableOf buffer)) env
      match tbl.find? PartTabl.isExtended with
      | none => some (.ok (), env)
      | some p =>
        let extStart := (checkLba p d).lbaStart
        match read extStart with
        | .error e => some (.error e, env)
        | .ok buffer =>
          if extStart = 0 then some (.ok (), env) else extLoop d read name extStart fuel 0 4 (tableOf buffer) env

end FreeDos32.Partscan
