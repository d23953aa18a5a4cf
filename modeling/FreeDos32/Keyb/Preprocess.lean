import FreeDos32.Library.Runs
import Mathlib.Logic.Function.Basic

namespace FreeDos32.Keyb

section Constants

def mkCtrl : BitVec 8 := 0x1D
def mkLshift : BitVec 8 := 0x2A
def mkRshift : BitVec 8 := 0x36
def mkAlt : BitVec 8 := 0x38
def mkCaps : BitVec 8 := 0x3A
def mkNumlk : BitVec 8 := 0x45
def mkScrlk : BitVec 8 := 0x46
def mkSysrq : BitVec 8 := 0x54
def mkInsert : BitVec 8 := 0x52

def breakBit : BitVec 8 := 0x80

def actScrlk : BitVec 16 := 0x0010
def actNumlk : BitVec 16 := 0x0020
def actCapslk : BitVec 16 := 0x0040
def actInsert : BitVec 16 := 0x0080
def flagRshift : BitVec 16 := 0x0001
def flagLshift : BitVec 16 := 0x0002
def flagCtrl : BitVec 16 := 0x0004
def flagAlt : BitVec 16 := 0x0008
def flagLctrl : BitVec 16 := 0x0100
def flagLalt : BitVec 16 := 0x0200
def flagSysrq : BitVec 16 := 0x0400
def flagScrlk : BitVec 16 := 0x1000
def flagNumlk : BitVec 16 := 0x2000
def flagCaps : BitVec 16 := 0x4000

def modeRctrl : BitVec 8 := 0x04
def modeRalt : BitVec 8 := 0x08

def legsMask : BitVec 8 := 0x07
def ledScrlk : BitVec 8 := 0x01
def ledNumlk : BitVec 8 := 0x02
def ledCapslk : BitVec 8 := 0x04

def keybCmdSetLeds : BitVec 8 := 0xED

end Constants

/-- The bit-field `keyb_std_status_t`. -/
structure StdStatus where
  rshift : Bool
  lshift : Bool
  ctrl : Bool
  alt : Bool
  scrlkActive : Bool
  numlkActive : Bool
  capslkActive : Bool
  lctrl : Bool
  lalt : Bool
  rctrl : Bool
  ralt : Bool
  e0Prefix : Bool
  shift : Bool
  deriving DecidableEq

/-- The variables of the driver and those of `bios_da`; `sent` are the bytes that the controller has been given, and
`waits` counts how often it has been waited for. -/
structure Driver where
  keybFlag : BitVec 16
  keybMode : BitVec 8
  keybLed : BitVec 8
  stdst : StdStatus
  e0Keycode : Bool
  ackLeft : ℕ
  ackCmd : BitVec 8
  ledState : BitVec 8
  sent : List (BitVec 8)
  waits : ℕ
  deriving DecidableEq

namespace Driver

/-- `ready` tells which of the waits for the controller end in time. -/
def keybWrite (ready : ℕ → Bool) (data : BitVec 8) (s : Driver) : Bool × Driver :=
  if ready s.waits then (true, { s with waits := s.waits + 1, sent := s.sent ++ [data] })
  else (false, { s with waits := s.waits + 1 })

def keybSendCmd (ready : ℕ → Bool) (cmd : BitVec 8) (s : Driver) : Driver :=
  if s.ackLeft = 0 then
    match s.keybWrite ready cmd with
    | (true, s) => { s with ackLeft := 2, ackCmd := cmd }
    | (false, s) => s
  else s

/-- An acknowledgement that is not expected is only reported. -/
def keybAckHandler (ready : ℕ → Bool) (s : Driver) : Driver :=
  if s.ackLeft = 2 then
    let s := if s.ackCmd = keybCmdSetLeds then (s.keybWrite ready s.ledState).2 else s
    { s with ackLeft := s.ackLeft - 1 }
  else if s.ackLeft = 1 then { s with ackLeft := s.ackLeft - 1 }
  else s

section Controller

variable (ready : ℕ → Bool) (cmd data : BitVec 8) (s : Driver)

@[simp] theorem keybWrite_keybFlag : (s.keybWrite ready data).2.keybFlag = s.keybFlag := by
  unfold keybWrite; split <;> rfl

@[simp] theorem keybWrite_stdst : (s.keybWrite ready data).2.stdst = s.stdst := by
  unfold keybWrite; split <;> rfl

@[simp] theorem keybWrite_e0Keycode : (s.keybWrite ready data).2.e0Keycode = s.e0Keycode := by
  unfold keybWrite; split <;> rfl

theorem keybSendCmd_eq : s.keybSendCmd ready cmd = s ∨
    ∃ left c, s.keybSendCmd ready cmd = { (s.keybWrite ready cmd).2 with ackLeft := left, ackCmd := c } := by
  unfold keybSendCmd
  by_cases h : s.ackLeft = 0
  · right
    rw [if_pos h]
    cases (s.keybWrite ready cmd) with
    | mk ok t =>
      cases ok with
      | true => exact ⟨_, _, rfl⟩
      | false => exact ⟨t.ackLeft, t.ackCmd, rfl⟩
  · left
    rw [if_neg h]

@[simp] theorem keybSendCmd_keybFlag : (s.keybSendCmd ready cmd).keybFlag = s.keybFlag := by
  obtain h | ⟨_, _, h⟩ := s.keybSendCmd_eq ready cmd <;> simp [h]

@[simp] theorem keybSendCmd_stdst : (s.keybSendCmd ready cmd).stdst = s.stdst := by
  obtain h | ⟨_, _, h⟩ := s.keybSendCmd_eq ready cmd <;> simp [h]

@[simp] theorem keybSendCmd_e0Keycode : (s.keybSendCmd ready cmd).e0Keycode = s.e0Keycode := by
  obtain h | ⟨_, _, h⟩ := s.keybSendCmd_eq ready cmd <;> simp [h]

@[simp] theorem keybAckHandler_keybFlag : (s.keybAckHandler ready).keybFlag = s.keybFlag := by
  unfold keybAckHandler; split_ifs <;> simp

@[simp] theorem keybAckHandler_stdst : (s.keybAckHandler ready).stdst = s.stdst := by
  unfold keybAckHandler; split_ifs <;> simp

@[simp] theorem keybAckHandler_e0Keycode : (s.keybAckHandler ready).e0Keycode = s.e0Keycode := by
  unfold keybAckHandler; split_ifs <;> simp

end Controller

/-- A lock key is pressed; its bit of `stdst` has been flipped. -/
def pressLock (ready : ℕ → Bool) (flag act : BitVec 16) (led : BitVec 8) (s : Driver) : Driver :=
  let led := s.keybLed ^^^ led
  keybSendCmd ready keybCmdSetLeds { s with
    keybFlag := (s.keybFlag ||| flag) ^^^ act
    keybLed := led
    ledState := led &&& legsMask }

def pressCaps (ready : ℕ → Bool) (s : Driver) : Driver :=
  pressLock ready flagCaps actCapslk ledCapslk { s with stdst := { s.stdst with capslkActive := !s.stdst.capslkActive } }

def pressNumlk (ready : ℕ → Bool) (s : Driver) : Driver :=
  pressLock ready flagNumlk actNumlk ledNumlk { s with stdst := { s.stdst with numlkActive := !s.stdst.numlkActive } }

def pressScrlk (ready : ℕ → Bool) (s : Driver) : Driver :=
  pressLock ready flagScrlk actScrlk ledScrlk { s with stdst := { s.stdst with scrlkActive := !s.stdst.scrlkActive } }

def pressCtrl (e0 : Bool) (s : Driver) : Driver :=
  if e0 then { s with
    stdst := { s.stdst with ctrl := true, rctrl := true }
    keybFlag := s.keybFlag ||| flagCtrl
    keybMode := s.keybMode ||| modeRctrl }
  else { s with
    stdst := { s.stdst with ctrl := true, lctrl := true }
    keybFlag := s.keybFlag ||| flagCtrl ||| flagLctrl }

def pressAlt (e0 : Bool) (s : Driver) : Driver :=
  if e0 then { s with
    stdst := { s.stdst with alt := true, ralt := true }
    keybFlag := s.keybFlag ||| flagAlt
    keybMode := s.keybMode ||| modeRalt }
  else { s with
    stdst := { s.stdst with alt := true, lalt := true }
    keybFlag := s.keybFlag ||| flagAlt ||| flagLalt }

/-- `~(flag * ~bit)` as an `int`, of which the `&=` keeps 16 bits; the bit-field `bit` is 0 or 1 before the complement. -/
def releaseMask (flag : BitVec 16) (bit : Bool) : BitVec 16 := ~~~(flag * ~~~(BitVec.ofBool bit).setWidth 16)

def releaseCtrl (e0 : Bool) (s : Driver) : Driver :=
  let s := if e0 then { s with
      stdst := { s.stdst with rctrl := false }
      keybMode := s.keybMode &&& ~~~modeRctrl }
    else { s with
      stdst := { s.stdst with lctrl := false }
      keybFlag := s.keybFlag &&& ~~~flagLctrl }
  let ctrl := s.stdst.lctrl || s.stdst.rctrl
  { s with stdst := { s.stdst with ctrl }, keybFlag := s.keybFlag &&& releaseMask flagCtrl ctrl }

def releaseAlt (e0 : Bool) (s : Driver) : Driver :=
  let s := if e0 then { s with
      stdst := { s.stdst with ralt := false }
      keybMode := s.keybMode &&& ~~~modeRalt }
    else { s with
      stdst := { s.stdst with lalt := false }
      keybFlag := s.keybFlag &&& ~~~flagLalt }
  let alt := s.stdst.lalt || s.stdst.ralt
  { s with stdst := { s.stdst with alt }, keybFlag := s.keybFlag &&& releaseMask flagAlt alt }

def releaseLshift (s : Driver) : Driver := { s with
  stdst := { s.stdst with lshift := false, shift := s.stdst.rshift }
  keybFlag := s.keybFlag &&& ~~~flagLshift }

def releaseRshift (s : Driver) : Driver := { s with
  stdst := { s.stdst with rshift := false, shift := s.stdst.lshift }
  keybFlag := s.keybFlag &&& ~~~flagRshift }

def setFlag (flag : BitVec 16) (s : Driver) : Driver := { s with keybFlag := s.keybFlag ||| flag }

def clearFlag (flag : BitVec 16) (s : Driver) : Driver := { s with keybFlag := s.keybFlag &&& ~~~flag }

/-- The `switch` of `preprocess`, `e0` being what the local `e0_keycode_1` tells; true if the result is to be 0. -/
def switch (ready : ℕ → Bool) (code : BitVec 8) (e0 : Bool) (s : Driver) : Bool × Driver :=
  if code = 0xE0 then (false, { s with e0Keycode := true })
  else if code = 0xFA then (false, s.keybAckHandler ready)
  else if code = mkInsert then (true, { s with keybFlag := s.keybFlag ^^^ actInsert })
  else if code = mkCtrl then (false, s.pressCtrl e0)
  else if code = mkLshift then
    (false, setFlag flagLshift { s with stdst := { s.stdst with shift := true, lshift := true } })
  else if code = mkRshift then
    (false, setFlag flagRshift { s with stdst := { s.stdst with shift := true, rshift := true } })
  else if code = mkAlt then (false, s.pressAlt e0)
  else if code = mkCaps then (false, s.pressCaps ready)
  else if code = mkNumlk then (false, s.pressNumlk ready)
  else if code = mkScrlk then (false, s.pressScrlk ready)
  else if code = mkSysrq then (false, s.setFlag flagSysrq)
  else if code = breakBit ||| mkCtrl then (false, s.releaseCtrl e0)
  else if code = breakBit ||| mkLshift then (false, s.releaseLshift)
  else if code = breakBit ||| mkRshift then (false, s.releaseRshift)
  else if code = breakBit ||| mkAlt then (false, s.releaseAlt e0)
  else if code = breakBit ||| mkCaps then (false, s.clearFlag flagCaps)
  else if code = breakBit ||| mkNumlk then (false, s.clearFlag flagNumlk)
  else if code = breakBit ||| mkScrlk then (false, s.clearFlag flagScrlk)
  else if code = breakBit ||| mkSysrq then (false, s.clearFlag flagSysrq)
  else (breakBit &&& code = 0, s)

/-- Returns the code that is put into the raw queue, if one is. -/
def preprocess (ready : ℕ → Bool) (code : BitVec 8) (s : Driver) : Option (BitVec 8) × Driver :=
  let e0 := s.e0Keycode
  let (put, s) := switch ready code e0 { s with e0Keycode := false }
  (if put then some (code ||| if e0 then 0x80 else 0) else none, s)

end Driver

end FreeDos32.Keyb
