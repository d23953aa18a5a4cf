import FreeDos32.Library.Runs
import Mathlib.Algebra.Ring.Int.Defs
import Mathlib.Algebra.Ring.Nat
import Mathlib.Logic.Function.Basic

namespace FreeDos32.Filesys

def enomem : ℕ := 12

def enodev : ℕ := 19

def enotmount : ℕ := 200

def driveMaxNum : ℕ := 26

def numFSReq : ℕ := 20

def nulBootDev : ℕ := 0xFFFFFFFF

structure BlockDeviceInfo where
  flags : ℕ
  multibootId : ℕ

def BlockDeviceInfo.partId (bdi : BlockDeviceInfo) : ℕ := bdi.flags % 2 ^ 8

def BlockDeviceInfo.type (bdi : BlockDeviceInfo) : ℕ := bdi.flags / 2 ^ 8 % 2 ^ 4

def tActive : ℕ := 1

def tLogical : ℕ := 2

def tPrimary : ℕ := 3

def tFloppy : ℕ := 4

def tCddvd : ℕ := 5

/-- What the manager of block devices answers for a device; no info where `block_get` or `get_device_info` fails. -/
structure BlockDevice where
  name : String
  handle : ℕ
  info : Option BlockDeviceInfo

/-- The devices as `block_enumerate` yields them; `block_register` refuses a name that is there. -/
structure BlockDevices where
  list : List BlockDevice
  distinct : (list.map BlockDevice.name).Nodup

structure FsDriver where
  request : ℕ
  partcheck : ℕ → Bool

structure Drive where
  blkName : Option String
  req : Option ℕ
  handle : ℕ
  devInfo : ℕ

/-- The variables of `drives.c`. The places of `drives` outside of the table are what is there in memory.
`mounts` records the block devices that drivers have mounted, and the volumes. -/
structure FsLayer where
  drives : ℤ → Drive
  bootDevice : ℕ
  defaultDrive : ℕ
  fsreq : List FsDriver
  mounts : List (String × ℕ)

namespace FsLayer

/-- From the drive `d` on. -/
def nextDrive (fs : FsLayer) (d : ℕ) : Option ℕ :=
  (List.range' d (driveMaxNum - d)).find? fun d => (fs.drives d).blkName.isNone

/-- The loop of `dynamic_assign`; the caller does not use its result. -/
def dynamicAssign (type : ℕ) : List BlockDevice → ℕ → FsLayer → FsLayer
  | [], _, fs => fs
  | b :: rest, d, fs =>
    match b.info with
    | none => dynamicAssign type rest d fs
    | some bdi =>
      if (List.range driveMaxNum).any fun k => (fs.drives k).handle = b.handle then dynamicAssign type rest d fs
      else if bdi.type ≠ type then dynamicAssign type rest d fs
      else if bdi.partId ≠ 0 ∧ ¬fs.fsreq.any (fun f => f.partcheck bdi.partId) then dynamicAssign type rest d fs
      else match fs.nextDrive d with
        | none => fs
        | some d => dynamicAssign type rest d { fs with
            drives := Function.update fs.drives d ⟨some b.name, none, 0, bdi.flags⟩
            defaultDrive :=
              if fs.defaultDrive = 0 ∧ (fs.bootDevice = nulBootDev ∨ fs.bootDevice = bdi.multibootId)
              then d + 'A'.toNat else fs.defaultDrive }

def clearDrives (fs : FsLayer) : FsLayer :=
  { fs with drives := fun k => if 0 ≤ k ∧ k < driveMaxNum then ⟨none, none, 0, 0⟩ else fs.drives k }

def assignDriveLetters (devices : BlockDevices) (fs : FsLayer) : FsLayer :=
  let fs := fs.clearDrives
  let fs := fs.dynamicAssign tActive devices.list 2
  let fs := fs.dynamicAssign tLogical devices.list 2
  let fs := fs.dynamicAssign tPrimary devices.list 2
  let fs := fs.dynamicAssign tFloppy devices.list 0
  fs.dynamicAssign tCddvd devices.list 3

def addFs (devices : BlockDevices) (f : FsDriver) (fs : FsLayer) : Except ℕ Unit × FsLayer :=
  if fs.fsreq.length < numFSReq then (.ok (), { fs with fsreq := fs.fsreq ++ [f] }.assignDriveLetters devices)
  else (.error enomem, fs)

def toupper (c : Char) : ℕ := if 'a' ≤ c ∧ c ≤ 'z' then c.toNat - 32 else c.toNat

/-- The drive letter that a path gives, 0 when there is none and no default. -/
def letterOf (fileSpec : List Char) (fs : FsLayer) : Except ℕ ℕ :=
  match fileSpec with
  | ':' :: _ => .error enodev
  | c :: ':' :: _ => if toupper c < 'A'.toNat ∨ 'Z'.toNat < toupper c then .error enodev else .ok (toupper c)
  | _ => if ':' ∈ fileSpec then .error enodev else .ok fs.defaultDrive

/-- The drivers are asked in turn to mount a device; `answer` is what each of them answers. -/
def mountLoop (answer : ℕ → Except ℕ ℕ) : List FsDriver → ℕ → Except ℕ (ℕ × ℕ)
  | [], _ => .error enodev
  | f :: rest, k =>
    match answer k with
    | .ok fsDev => .ok (f.request, fsDev)
    | .error e => if e = enodev then mountLoop answer rest (k + 1) else .error e

/-- The drive letter, the driver and the volume. -/
def getDrive (answer : ℕ → Except ℕ ℕ) (fileSpec : List Char) (fs : FsLayer) : Except ℕ (ℕ × ℕ × ℕ) × FsLayer :=
  match fs.letterOf fileSpec with
  | .error e => (.error e, fs)
  | .ok letter =>
    let d : ℤ := letter - 'A'.toNat
    match (fs.drives d).blkName with
    | none => (.error enodev, fs)
    | some name =>
      match (fs.drives d).req with
      | some req => (.ok (letter, req, (fs.drives d).handle), fs)
      | none =>
        match mountLoop answer fs.fsreq 0 with
        | .error e => (.error e, fs)
        | .ok (req, fsDev) =>
          (.ok (letter, req, fsDev), { fs with
            drives := Function.update fs.drives d { fs.drives d with req := some req, handle := fsDev }
            mounts := (name, fsDev) :: fs.mounts })

end FsLayer

/-- `files` has the block device and the volume of each open file. -/
structure Mounting where
  fs : FsLayer
  files : List (String × ℕ)

namespace Mounting

/-- `fs_open` with a name that `fd32_truename` has expanded: `rounds` has what the drivers answer to `FD32_MOUNT` and
then to `FD32_OPENFILE` in each turn of its loop. -/
def fsOpen (auxName : List Char) : List ((ℕ → Except ℕ ℕ) × Except ℕ Unit) → Mounting → Mounting
  | [], m => m
  | (answer, opened) :: rounds, m =>
    match m.fs.getDrive answer auxName with
    | (.error _, fs) => { m with fs }
    | (.ok (letter, _, volume), fs) =>
      match opened with
      | .ok () => ⟨fs, (((fs.drives (letter - 'A'.toNat)).blkName).getD "", volume) :: m.files⟩
      | .error e => if e = enotmount then fsOpen auxName rounds { m with fs } else { m with fs }

inductive Call where
  | addFs (devices : BlockDevices) (f : FsDriver)
  | getDrive (answer : ℕ → Except ℕ ℕ) (fileSpec : List Char)
  | fsOpen (auxName : List Char) (rounds : List ((ℕ → Except ℕ ℕ) × Except ℕ Unit))

def step : Call → Mounting → Option Mounting
  | .addFs devices f, m => some { m with fs := (m.fs.addFs devices f).2 }
  | .getDrive answer fileSpec, m => some { m with fs := (m.fs.getDrive answer fileSpec).2 }
  | .fsOpen auxName rounds, m => some (m.fsOpen auxName rounds)

/-- Before any driver is registered; `outside` is what is in memory around the table of drives. -/
def start (outside : ℤ → Drive) (bootDevice : ℕ) : Mounting where
  fs := { drives := fun k => if 0 ≤ k ∧ k < driveMaxNum then ⟨none, none, 0, 0⟩ else outside k
          bootDevice, defaultDrive := 0, fsreq := [], mounts := [] }
  files := []

end Mounting

end FreeDos32.Filesys
