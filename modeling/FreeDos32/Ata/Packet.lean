import FreeDos32.Ata.Transfer

namespace FreeDos32.Ata

open Kernel (dword dsub)

def ataEtoirq : ℤ := -3

def ataEpiprecmd : ℤ := -8

def ataEpipostcmd : ℤ := -9

def ataEowrfl : ℤ := -10

def ataEpifatal : ℤ := -11

def ataEtobusy : ℤ := -15

/-- What the device presents when the driver has waited for it: the registers, and the words of the data register. `busy` stands
for a wait that times out. -/
structure Answer where
  busy : Bool
  status : BitVec 8
  error : BitVec 8
  ir : BitVec 8
  countL : BitVec 8
  countH : BitVec 8
  data : ℕ → BitVec 16

namespace Answer

def drq (a : Answer) : Bool := a.status.getLsbD 3

def check (a : Answer) : Bool := a.status.getLsbD 0

def io (a : Answer) : Bool := a.ir.getLsbD 1

def count (a : Answer) : ℕ := a.countH.toNat * 2 ^ 8 + a.countL.toNat

/-- How a wait fails, in the polled mode and in the other. -/
def late (polled : Bool) (a : Answer) : Option ℤ :=
  if polled then if a.busy then some ataEtobusy else none else if a.status = 0xFF then some ataEtoirq else none

end Answer

/-- The error information that is left in the command packet: status, error and interrupt reason for some errors, and the code. -/
structure ErrorInfo where
  registers : Option (BitVec 8 × BitVec 8 × BitVec 8)
  code : ℤ
  deriving DecidableEq

structure Ending where
  res : ℤ
  info : Option ErrorInfo
  deriving DecidableEq

def success : Ending := ⟨0, none⟩

def fail (code : ℤ) : Ending := ⟨code, some ⟨none, code⟩⟩

def failRegisters (code : ℤ) (a : Answer) : Ending := ⟨code, some ⟨some (a.status, a.error, a.ir), code⟩⟩

/-- `place` is how many words the pointer `buffer` has moved, and `touched` are the places it has been used at. -/
structure Packet where
  totalBytes : ℕ
  overflow : Bool
  place : ℕ
  buffer : ℕ → BitVec 16
  sent : List (BitVec 16)
  touched : List ℕ

/-- `*buffer++ = word` -/
def Packet.store (word : BitVec 16) (t : Packet) : Packet :=
  { t with buffer := Function.update t.buffer t.place word, place := t.place + 1, touched := t.place :: t.touched }

/-- `*buffer++` is sent. -/
def Packet.send (t : Packet) : Packet :=
  { t with sent := t.sent ++ [t.buffer t.place], place := t.place + 1, touched := t.place :: t.touched }

def readWords (data : ℕ → BitVec 16) : ℕ → ℕ → Packet → Packet
  | 0, _, t => t
  | n + 1, i, t => readWords data n (i + 1) (t.store (data i))

/-- The words that are too many are read and dropped; `n` is `count - i`. -/
def readSome (bufferSize : ℕ) (data : ℕ → BitVec 16) : ℕ → ℕ → Packet → Packet
  | 0, _, t => t
  | n + 1, i, t =>
    readSome bufferSize data n (i + 1) (if dsub t.totalBytes ((n + 1) * 2) < bufferSize then t.store (data i) else t)

def writeWords : ℕ → Packet → Packet
  | 0, t => t
  | n + 1, t => writeWords n t.send

def moveBurst (bufferSize : ℕ) (a : Answer) (t : Packet) : Option Ending × Packet :=
  let t := { t with totalBytes := dword (t.totalBytes + a.count) }
  let count := (a.count + 1) / 2
  if bufferSize < t.totalBytes then
    let t := { t with overflow := true }
    if a.io then
      if dword (bufferSize + 1024 * 1024 * 16) < t.totalBytes then (some (fail ataEpifatal), t)
      else (none, readSome bufferSize a.data count 0 t)
    else (some (fail ataEpifatal), t)
  else if a.io then (none, readWords a.data count 0 t)
  else (none, writeWords count t)

/-- No more data, or an error. -/
def finish (a : Answer) (t : Packet) : Ending :=
  if a.check then failRegisters ataEpipostcmd a else if t.overflow then fail ataEowrfl else success

/-- One round of `while(1)`. -/
def packetRound (polled : Bool) (bufferSize : ℕ) (a : Answer) (t : Packet) : Option Ending × Packet :=
  match a.late polled with
  | some code => (some (fail code), t)
  | none => if a.drq then moveBurst bufferSize a t else (some (finish a t), t)

/-- The loop has not ended as long as the device has not presented more. -/
def packetLoop (polled : Bool) (bufferSize : ℕ) : List Answer → Packet → Option Ending × Packet
  | [], t => (none, t)
  | a :: rest, t =>
    match packetRound polled bufferSize a t with
    | (some ending, t) => (some ending, t)
    | (none, t) => packetLoop polled bufferSize rest t

/-- What the function reads of `struct ata_device`; `irqOnPcmd` is a bit of `flags`. -/
structure AtapiDevice where
  polledMode : Bool
  irqOnPcmd : Bool
  deriving DecidableEq

/-- `select` is the result of `device_select`, and `a` is the answer to the command; `none` stands for a device that takes the
packet. -/
def packetCommand (d : AtapiDevice) (select : ℤ) (a : Answer) : Option Ending :=
  if select ≠ 0 then some (fail select)
  else
    match a.late (d.polledMode || !d.irqOnPcmd) with
    | some code => some (fail code)
    | none => if a.ir &&& 0x07 ≠ 0x01 ∨ a.drq = false then some (failRegisters ataEpiprecmd a) else none

def ataPacketPio (d : AtapiDevice) (packet : List (BitVec 16)) (buffer : ℕ → BitVec 16) (bufferSize : ℕ) (select : ℤ)
    (first : Answer) (answers : List Answer) : Option Ending × Packet :=
  match packetCommand d select first with
  | some ending => (some ending, ⟨0, false, 0, buffer, [], []⟩)
  | none => packetLoop d.polledMode bufferSize answers ⟨0, false, 0, buffer, packet, []⟩

end FreeDos32.Ata
