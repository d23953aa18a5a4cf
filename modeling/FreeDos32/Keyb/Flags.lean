import FreeDos32.Keyb.Preprocess

namespace FreeDos32.Keyb

inductive Key where
  | lctrl
  | rctrl
  | lshift
  | rshift
  | lalt
  | ralt
  | caps
  | numlk
  | scrlk
  | sysrq
  | insert
  | other
  deriving DecidableEq

def ctrlKey (e0 : Bool) : Key := if e0 then .rctrl else .lctrl

def altKey (e0 : Bool) : Key := if e0 then .ralt else .lalt

/-- The key with a press code. The prefix tells the right keys from the left ones for Ctrl and Alt; the driver looks at it
for no other key. -/
def keyOf (e0 : Bool) (code : BitVec 8) : Key :=
  if code = mkInsert then .insert
  else if code = mkCtrl then ctrlKey e0
  else if code = mkLshift then .lshift
  else if code = mkRshift then .rshift
  else if code = mkAlt then altKey e0
  else if code = mkCaps then .caps
  else if code = mkNumlk then .numlk
  else if code = mkScrlk then .scrlk
  else if code = mkSysrq then .sysrq
  else .other

/-- The keys themselves: which are held, and how often each has been pressed. -/
structure Keyboard where
  e0 : Bool
  held : Key → Bool
  presses : Key → ℕ

namespace Keyboard

def idle : Keyboard := ⟨false, fun _ => false, fun _ => 0⟩

def press (key : Key) (k : Keyboard) : Keyboard :=
  ⟨false, Function.update k.held key true, Function.update k.presses key (k.presses key + 1)⟩

def release (key : Key) (k : Keyboard) : Keyboard := ⟨false, Function.update k.held key false, k.presses⟩

/-- The key that a scan code is about, as the press code of it. -/
def key (k : Keyboard) (code : BitVec 8) : Key := keyOf k.e0 (code &&& 0x7F)

def scan (code : BitVec 8) (k : Keyboard) : Keyboard :=
  if code = 0xE0 then { k with e0 := true }
  else if breakBit &&& code = 0 then k.press (k.key code)
  else k.release (k.key code)

end Keyboard

/-- The bits of `bios_da.keyb_flag` that are looked at. -/
inductive FlagBit where
  | rshift
  | lshift
  | ctrl
  | alt
  | scrlk
  | numlk
  | capslk
  | insert
  | lctrl
  | lalt

namespace FlagBit

def mask : FlagBit → BitVec 16
  | rshift => flagRshift
  | lshift => flagLshift
  | ctrl => flagCtrl
  | alt => flagAlt
  | scrlk => actScrlk
  | numlk => actNumlk
  | capslk => actCapslk
  | insert => actInsert
  | lctrl => flagLctrl
  | lalt => flagLalt

def isSet (b : FlagBit) (flag : BitVec 16) : Bool := flag &&& b.mask ≠ 0

def odd (n : ℕ) : Bool := n % 2 = 1

/-- What the bit has to be: whether a key is held, or the initial value flipped once for each press. -/
def value (start : BitVec 16) (k : Keyboard) : FlagBit → Bool
  | rshift => k.held .rshift
  | lshift => k.held .lshift
  | ctrl => k.held .lctrl || k.held .rctrl
  | alt => k.held .lalt || k.held .ralt
  | scrlk => scrlk.isSet start ^^ odd (k.presses .scrlk)
  | numlk => numlk.isSet start ^^ odd (k.presses .numlk)
  | capslk => capslk.isSet start ^^ odd (k.presses .caps)
  | insert => insert.isSet start ^^ odd (k.presses .insert)
  | lctrl => k.held .lctrl
  | lalt => k.held .lalt

def index : FlagBit → ℕ
  | rshift => 0
  | lshift => 1
  | ctrl => 2
  | alt => 3
  | scrlk => 4
  | numlk => 5
  | capslk => 6
  | insert => 7
  | lctrl => 8
  | lalt => 9

theorem mask_eq (b : FlagBit) : b.mask = BitVec.twoPow 16 b.index := by
  cases b <;> rfl

theorem isSet_eq (b : FlagBit) (flag : BitVec 16) : b.isSet flag = flag.getLsbD b.index := by
  rw [isSet, mask_eq, BitVec.and_twoPow]
  have hne : BitVec.twoPow 16 b.index ≠ 0 := by cases b <;> decide
  cases flag.getLsbD b.index with
  | true => simpa using hne
  | false => simp

@[simp] theorem odd_succ (n : ℕ) : odd (n + 1) = !odd n := by
  unfold odd
  by_cases h : n % 2 = 1
  · have h' : (n + 1) % 2 = 0 := by omega
    simp [h, h']
  · have h' : (n + 1) % 2 = 1 := by omega
    simp [h, h']

end FlagBit

def FlagsRight (start : BitVec 16) (k : Keyboard) (flag : BitVec 16) : Prop := ∀ b : FlagBit, b.isSet flag = b.value start k

/-- The bits of a key in `keyb_flag`. -/
def ownBits : Key → BitVec 16
  | .lctrl => flagCtrl ||| flagLctrl
  | .rctrl => flagCtrl
  | .lshift => flagLshift
  | .rshift => flagRshift
  | .lalt => flagAlt ||| flagLalt
  | .ralt => flagAlt
  | .caps => flagCaps
  | .numlk => flagNumlk
  | .scrlk => flagScrlk
  | .sysrq => flagSysrq
  | .insert => 0
  | .other => 0

def Keyboard.modifiers (k : Keyboard) : List Bool := [k.held .lctrl, k.held .rctrl, k.held .lalt, k.held .ralt]

def Driver.modifiers (s : Driver) : List Bool := [s.stdst.lctrl, s.stdst.rctrl, s.stdst.lalt, s.stdst.ralt]

/-- What the driver and the keys have in common. -/
structure Inv (start : BitVec 16) (k : Keyboard) (s : Driver) : Prop where
  e0 : s.e0Keycode = k.e0
  modifiers : s.modifiers = k.modifiers
  flags : FlagsRight start k s.keybFlag

section Keys

variable {start flag : BitVec 16} {k : Keyboard} {s : Driver} {ready : ℕ → Bool} {e0 : Bool} {code c m : BitVec 8} {key : Key}

theorem FlagsRight.bit (h : FlagsRight start k flag) (b : FlagBit) : flag.getLsbD b.index = b.value start k := by
  rw [← b.isSet_eq]
  exact h b

/-- What the press of a key does to the flags. -/
def pressFlag (flag : BitVec 16) : Key → BitVec 16
  | .lctrl => flag ||| flagCtrl ||| flagLctrl
  | .rctrl => flag ||| flagCtrl
  | .lshift => flag ||| flagLshift
  | .rshift => flag ||| flagRshift
  | .lalt => flag ||| flagAlt ||| flagLalt
  | .ralt => flag ||| flagAlt
  | .caps => (flag ||| flagCaps) ^^^ actCapslk
  | .numlk => (flag ||| flagNumlk) ^^^ actNumlk
  | .scrlk => (flag ||| flagScrlk) ^^^ actScrlk
  | .sysrq => flag ||| flagSysrq
  | .insert => flag ^^^ actInsert
  | .other => flag

theorem FlagsRight.press (h : FlagsRight start k flag) (key : Key) :
    FlagsRight start (k.press key) (pressFlag flag key) := by
  intro b
  have hb := h.bit b
  rw [b.isSet_eq]
  cases key
  all_goals
    cases b
    all_goals
      simp [FlagBit.value, FlagBit.index] at hb
      simp [pressFlag, Keyboard.press, FlagBit.value, FlagBit.index, hb, flagCtrl, flagLctrl, flagLshift, flagRshift, flagAlt,
        flagLalt, flagCaps, actCapslk, flagNumlk, actNumlk, flagScrlk, actScrlk, flagSysrq, actInsert]

def otherHeld (mods : List Bool) : Key → Bool
  | .lctrl => mods.getD 1 false
  | .rctrl => mods.getD 0 false
  | .lalt => mods.getD 3 false
  | .ralt => mods.getD 2 false
  | _ => false

/-- What the release of a key does to the flags, `other` telling if the other Ctrl or Alt key is held. -/
def releaseFlag (flag : BitVec 16) (other : Bool) : Key → BitVec 16
  | .lctrl => flag &&& ~~~flagLctrl &&& Driver.releaseMask flagCtrl other
  | .rctrl => flag &&& Driver.releaseMask flagCtrl other
  | .lshift => flag &&& ~~~flagLshift
  | .rshift => flag &&& ~~~flagRshift
  | .lalt => flag &&& ~~~flagLalt &&& Driver.releaseMask flagAlt other
  | .ralt => flag &&& Driver.releaseMask flagAlt other
  | .caps => flag &&& ~~~flagCaps
  | .numlk => flag &&& ~~~flagNumlk
  | .scrlk => flag &&& ~~~flagScrlk
  | .sysrq => flag &&& ~~~flagSysrq
  | .insert => flag
  | .other => flag

/-- The bits that survive the release of a Ctrl or Alt key. -/
def keptBits : Key → BitVec 16
  | .lctrl => flagRshift ||| flagLshift
  | .rctrl => flagRshift ||| flagLshift
  | .lalt => flagRshift ||| flagLshift ||| flagCtrl
  | .ralt => flagRshift ||| flagLshift ||| flagCtrl
  | _ => BitVec.allOnes 16

/-- Outside the key's own bits, nothing is set that its release would clear. -/
def Harmless (key : Key) (flag : BitVec 16) : Prop := flag &&& ~~~(keptBits key ||| ownBits key) = 0

theorem and_mask_unchanged_iff {flag mask kept own : BitVec 16} (hmask : mask &&& ~~~own = kept &&& ~~~own) :
    flag &&& mask &&& ~~~own = flag &&& ~~~own ↔ flag &&& ~~~(kept ||| own) = 0 := by
  rw [BitVec.and_assoc, hmask]
  constructor
  · intro h
    ext i hi
    have hbit : (flag &&& (kept &&& ~~~own))[i] = (flag &&& ~~~own)[i] := by rw [h]
    simp at hbit ⊢
    grind
  · intro h
    ext i hi
    have hbit : (flag &&& ~~~(kept ||| own))[i] = (0 : BitVec 16)[i] := by rw [h]
    simp at hbit ⊢
    grind

/-- The release of a key leaves the bits of the others alone exactly when it is harmless. -/
theorem releaseFlag_unchanged_iff (flag : BitVec 16) (other : Bool) (key : Key) :
    releaseFlag flag other key &&& ~~~ownBits key = flag &&& ~~~ownBits key ↔ Harmless key flag := by
  unfold Harmless
  cases key
  case insert => simp [releaseFlag, keptBits, ownBits]
  case other => simp [releaseFlag, keptBits, ownBits]
  case lctrl =>
    rw [releaseFlag, BitVec.and_assoc flag]
    apply and_mask_unchanged_iff
    cases other <;> rfl
  case lalt =>
    rw [releaseFlag, BitVec.and_assoc flag]
    apply and_mask_unchanged_iff
    cases other <;> rfl
  all_goals
    apply and_mask_unchanged_iff
    cases other <;> rfl

/-- A bit that the key owns no part of keeps its value. -/
theorem Harmless.getLsbD (h : Harmless key flag) (other : Bool) (i : ℕ) (hi : (ownBits key).getLsbD i = false) :
    (releaseFlag flag other key).getLsbD i = flag.getLsbD i := by
  have hsame := congrArg (fun x => x.getLsbD i) ((releaseFlag_unchanged_iff flag other key).2 h)
  by_cases hw : i < 16
  · simpa only [BitVec.getLsbD_and, BitVec.getLsbD_not, hi, hw, decide_true, Bool.not_false, Bool.and_true] using hsame
  · rw [BitVec.getLsbD_of_ge _ _ (by omega), BitVec.getLsbD_of_ge _ _ (by omega)]

theorem releaseMask_ctrl (other : Bool) :
    (Driver.releaseMask flagCtrl other).getLsbD 2 = other ∧ (Driver.releaseMask flagCtrl other).getLsbD 8 = false := by
  cases other <;> decide

theorem releaseMask_alt (other : Bool) :
    (Driver.releaseMask flagAlt other).getLsbD 3 = other ∧ (Driver.releaseMask flagAlt other).getLsbD 9 = false := by
  cases other <;> decide

theorem FlagsRight.release (h : FlagsRight start k flag) (key : Key) (hh : Harmless key flag) :
    FlagsRight start (k.release key) (releaseFlag flag (otherHeld k.modifiers key) key) := by
  intro b
  have hb := h.bit b
  rw [b.isSet_eq]
  by_cases hown : (ownBits key).getLsbD b.index = false
  · rw [hh.getLsbD _ _ hown, hb]
    cases key
    all_goals
      cases b
      all_goals
        first
        | exact absurd hown (by decide)
        | simp [FlagBit.value, Keyboard.release]
  · obtain ⟨hctrl, hlctrl⟩ := releaseMask_ctrl (otherHeld k.modifiers key)
    obtain ⟨halt, hlalt⟩ := releaseMask_alt (otherHeld k.modifiers key)
    cases key
    all_goals
      cases b
      all_goals
        first
        | exact absurd (by decide) hown
        | simp [FlagBit.value, FlagBit.index] at hb
          simp [otherHeld, Keyboard.modifiers] at hctrl hlctrl halt hlalt
          simp [releaseFlag, otherHeld, Keyboard.modifiers, Keyboard.release, FlagBit.value, FlagBit.index, hb, hctrl, hlctrl, halt,
            hlalt, flagLctrl, flagLshift, flagRshift, flagLalt]
    all_goals grind

theorem ne_break (hc : breakBit &&& c = 0) (m : BitVec 8) : c ≠ breakBit ||| m := by
  rintro rfl
  have hbit := congrArg (fun x => x.getLsbD 7) hc
  simp [breakBit] at hbit

theorem break_inj (hc : breakBit &&& c = 0) (hm : breakBit &&& m = 0) : breakBit ||| c = breakBit ||| m ↔ c = m := by
  constructor
  · intro h
    ext i hi
    have hbit := congrArg (fun x => x.getLsbD i) h
    have hci := congrArg (fun x => x.getLsbD i) hc
    have hmi := congrArg (fun x => x.getLsbD i) hm
    simp [hi] at hbit hci hmi
    grind
  · rintro rfl
    rfl

theorem press_or_break (code : BitVec 8) :
    breakBit &&& code = 0 ∨ breakBit &&& (code &&& 0x7F) = 0 ∧ code = breakBit ||| (code &&& 0x7F) := by
  revert code
  decide +kernel

namespace Driver

def pressKey (ready : ℕ → Bool) (s : Driver) : Key → Driver
  | .lctrl => s.pressCtrl false
  | .rctrl => s.pressCtrl true
  | .lshift => setFlag flagLshift { s with stdst := { s.stdst with shift := true, lshift := true } }
  | .rshift => setFlag flagRshift { s with stdst := { s.stdst with shift := true, rshift := true } }
  | .lalt => s.pressAlt false
  | .ralt => s.pressAlt true
  | .caps => s.pressCaps ready
  | .numlk => s.pressNumlk ready
  | .scrlk => s.pressScrlk ready
  | .sysrq => s.setFlag flagSysrq
  | .insert => { s with keybFlag := s.keybFlag ^^^ actInsert }
  | .other => s

def releaseKey (s : Driver) : Key → Driver
  | .lctrl => s.releaseCtrl false
  | .rctrl => s.releaseCtrl true
  | .lshift => s.releaseLshift
  | .rshift => s.releaseRshift
  | .lalt => s.releaseAlt false
  | .ralt => s.releaseAlt true
  | .caps => s.clearFlag flagCaps
  | .numlk => s.clearFlag flagNumlk
  | .scrlk => s.clearFlag flagScrlk
  | .sysrq => s.clearFlag flagSysrq
  | .insert => s
  | .other => s

section Switch

variable (ready : ℕ → Bool) (hc : breakBit &&& c = 0) (e0 : Bool) (s : Driver)

theorem pressKey_ctrlKey : s.pressKey ready (ctrlKey e0) = s.pressCtrl e0 := by
  cases e0 <;> rfl

theorem pressKey_altKey : s.pressKey ready (altKey e0) = s.pressAlt e0 := by
  cases e0 <;> rfl

theorem releaseKey_ctrlKey : s.releaseKey (ctrlKey e0) = s.releaseCtrl e0 := by
  cases e0 <;> rfl

theorem releaseKey_altKey : s.releaseKey (altKey e0) = s.releaseAlt e0 := by
  cases e0 <;> rfl

include hc in
theorem switch_press : (switch ready c e0 s).2 = s.pressKey ready (keyOf e0 c) := by
  have he0 : c ≠ 0xE0 := ne_break hc 0x60
  have hfa : c ≠ 0xFA := ne_break hc 0x7A
  -- the same conditions decide on both sides
  simp only [switch, he0, hfa, ne_break hc, if_false, keyOf, apply_ite Prod.snd, apply_ite (s.pressKey ready),
    pressKey_ctrlKey, pressKey_altKey]
  rfl

include hc in
/-- The acknowledgement of the controller arrives as the release of a key that does not exist. -/
theorem switch_release (hc0 : c ≠ 0x60) : (switch ready (breakBit ||| c) e0 s).2 =
    if c = 0x7A then s.keybAckHandler ready else s.releaseKey (keyOf e0 c) := by
  have he0 : breakBit ||| c ≠ 0xE0 := fun h => hc0 ((break_inj hc (by decide)).1 h)
  have hfa : breakBit ||| c = 0xFA ↔ c = 0x7A := break_inj (m := 0x7A) hc (by decide)
  have hne (m : BitVec 8) (hm : breakBit &&& m = 0) : breakBit ||| c ≠ m := (ne_break hm c).symm
  unfold switch
  rw [if_neg he0]
  by_cases hack : c = 0x7A
  · rw [if_pos (hfa.2 hack), if_pos hack]
  · rw [if_neg (hack ∘ hfa.1), if_neg hack]
    by_cases hins : c = mkInsert
    · subst hins
      rfl
    · rw [if_neg (hne _ (by decide)), if_neg (hne _ (by decide)), if_neg (hne _ (by decide)), if_neg (hne _ (by decide)),
        if_neg (hne _ (by decide)), if_neg (hne _ (by decide)), if_neg (hne _ (by decide)), if_neg (hne _ (by decide)),
        if_neg (hne _ (by decide))]
      simp only [keyOf, hins, if_false, break_inj hc (show breakBit &&& mkCtrl = 0 by decide),
        break_inj hc (show breakBit &&& mkLshift = 0 by decide), break_inj hc (show breakBit &&& mkRshift = 0 by decide),
        break_inj hc (show breakBit &&& mkAlt = 0 by decide), break_inj hc (show breakBit &&& mkCaps = 0 by decide),
        break_inj hc (show breakBit &&& mkNumlk = 0 by decide), break_inj hc (show breakBit &&& mkScrlk = 0 by decide),
        break_inj hc (show breakBit &&& mkSysrq = 0 by decide), apply_ite Prod.snd, apply_ite s.releaseKey,
        releaseKey_ctrlKey, releaseKey_altKey]
      rfl

theorem pressKey_e0Keycode (key : Key) : (s.pressKey ready key).e0Keycode = s.e0Keycode := by
  cases key <;> simp [pressKey, pressCtrl, pressAlt, pressCaps, pressNumlk, pressScrlk, pressLock, setFlag]

theorem pressKey_keybFlag (key : Key) : (s.pressKey ready key).keybFlag = pressFlag s.keybFlag key := by
  cases key <;> simp [pressKey, pressFlag, pressCtrl, pressAlt, pressCaps, pressNumlk, pressScrlk, pressLock, setFlag]

theorem pressKey_modifiers (hmods : s.modifiers = k.modifiers) (key : Key) :
    (s.pressKey ready key).modifiers = (k.press key).modifiers := by
  simp [modifiers, Keyboard.modifiers] at hmods
  cases key <;> simp [pressKey, modifiers, Keyboard.modifiers, Keyboard.press, hmods, pressCtrl, pressAlt, pressCaps, pressNumlk,
    pressScrlk, pressLock, setFlag]

theorem releaseKey_e0Keycode (key : Key) : (s.releaseKey key).e0Keycode = s.e0Keycode := by
  cases key <;> rfl

theorem releaseKey_keybFlag (key : Key) :
    (s.releaseKey key).keybFlag = releaseFlag s.keybFlag (otherHeld s.modifiers key) key := by
  cases key <;> simp [releaseKey, releaseFlag, otherHeld, modifiers, releaseCtrl, releaseAlt, releaseLshift, releaseRshift,
    clearFlag]

theorem releaseKey_modifiers (hmods : s.modifiers = k.modifiers) (key : Key) :
    (s.releaseKey key).modifiers = (k.release key).modifiers := by
  simp [modifiers, Keyboard.modifiers] at hmods
  cases key <;> simp [releaseKey, modifiers, Keyboard.modifiers, Keyboard.release, hmods, releaseCtrl, releaseAlt, releaseLshift,
    releaseRshift, clearFlag]

end Switch

end Driver

section Scan

variable (ready : ℕ → Bool) {start₀ : Driver} {p : Keyboard × Driver}

def scan (code : BitVec 8) (p : Keyboard × Driver) : Keyboard × Driver := (p.1.scan code, (p.2.preprocess ready code).2)

def IsRelease (code : BitVec 8) : Prop := code ≠ 0xE0 ∧ breakBit &&& code ≠ 0

instance : DecidablePred IsRelease := fun _ => inferInstanceAs (Decidable (_ ∧ _))

/-- The code does not release a Ctrl or Alt key while a bit is set that the driver would clear with the key's own. -/
def HarmlessCode (s : Driver) (code : BitVec 8) : Prop :=
  IsRelease code → Harmless (keyOf s.e0Keycode (code &&& 0x7F)) s.keybFlag

instance (s : Driver) : DecidablePred (HarmlessCode s) := fun _ => inferInstanceAs (Decidable (_ → (_ = _)))

/-- After the code the flags are right, and if it releases a key, then the bits of all others are as they were. -/
def StepRight (start : BitVec 16) (p : Keyboard × Driver) (code : BitVec 8) : Prop :=
  FlagsRight start (scan ready code p).1 (scan ready code p).2.keybFlag ∧
    (IsRelease code →
      let own := ownBits (p.1.key code)
      (scan ready code p).2.keybFlag &&& ~~~own = p.2.keybFlag &&& ~~~own)

/-- No key is held, and neither the driver nor the flags say that one is. -/
structure Unpressed (s : Driver) : Prop where
  e0 : s.e0Keycode = false
  modifiers : s.modifiers = [false, false, false, false]
  flags : s.keybFlag &&& (flagRshift ||| flagLshift ||| flagCtrl ||| flagAlt ||| flagLctrl ||| flagLalt) = 0

theorem Unpressed.inv (h : Unpressed s) : Inv s.keybFlag .idle s := by
  refine ⟨h.e0, h.modifiers, ?_⟩
  intro b
  have hflags := h.flags
  have hclear (i : ℕ) (hi : (flagRshift ||| flagLshift ||| flagCtrl ||| flagAlt ||| flagLctrl ||| flagLalt).getLsbD i = true) :
      s.keybFlag.getLsbD i = false := by
    have hbit := congrArg (fun x => x.getLsbD i) hflags
    simpa only [BitVec.getLsbD_and, hi, Bool.and_true, BitVec.ofNat_eq_ofNat, BitVec.getLsbD_zero] using hbit
  rw [b.isSet_eq]
  cases b
  all_goals
    first
    | exact hclear _ (by decide)
    | simp [FlagBit.value, Keyboard.idle, FlagBit.odd, FlagBit.isSet_eq]

variable {ready}

theorem Inv.prefixed (h : Inv start p.1 p.2) : Inv start (scan ready 0xE0 p).1 (scan ready 0xE0 p).2 :=
  ⟨rfl, h.modifiers, h.flags⟩

theorem and_low (hc : breakBit &&& c = 0) : c &&& 0x7F = c := by
  revert c
  decide +kernel

theorem Inv.press (h : Inv start p.1 p.2) (hc : breakBit &&& c = 0) : Inv start (scan ready c p).1 (scan ready c p).2 := by
  have hne : c ≠ 0xE0 := ne_break hc 0x60
  have hdriver : (p.2.preprocess ready c).2 =
      Driver.pressKey ready { p.2 with e0Keycode := false } (keyOf p.2.e0Keycode c) := Driver.switch_press ready hc _ _
  have hkeys : p.1.scan c = p.1.press (keyOf p.2.e0Keycode c) := by
    rw [Keyboard.scan, if_neg hne, if_pos hc, Keyboard.key, and_low hc, h.e0]
  rw [scan, hkeys, hdriver]
  constructor
  · exact Driver.pressKey_e0Keycode _ _ _
  · apply Driver.pressKey_modifiers
    exact h.modifiers
  · rw [Driver.pressKey_keybFlag]
    exact h.flags.press _

/-- What a release code does, whatever is set. -/
structure Released (p q : Keyboard × Driver) (key : Key) : Prop where
  keys : q.1 = p.1.release key
  e0 : q.2.e0Keycode = false
  modifiers : q.2.modifiers = (p.1.release key).modifiers
  flags : q.2.keybFlag = releaseFlag p.2.keybFlag (otherHeld p.1.modifiers key) key

theorem scan_release (ready : ℕ → Bool) (h : Inv start p.1 p.2) (hc : IsRelease code) : Released p (scan ready code p) (p.1.key code) := by
  obtain hpress | ⟨hlow, hcode⟩ := press_or_break code
  · exact absurd hpress hc.2
  have h60 : code &&& 0x7F ≠ 0x60 := by
    intro h0
    rw [h0] at hcode
    exact hc.1 hcode
  have hkey : p.1.key code = keyOf p.2.e0Keycode (code &&& 0x7F) := by rw [Keyboard.key, h.e0]
  have hdriver : (p.2.preprocess ready code).2 = _ :=
    (congrArg (fun c => (Driver.switch ready c _ _).2) hcode).trans (Driver.switch_release ready hlow p.2.e0Keycode _ h60)
  have hkeys : (scan ready code p).1 = p.1.release (p.1.key code) := by
    rw [scan, Keyboard.scan, if_neg hc.1, if_neg hc.2]
  by_cases hack : code &&& 0x7F = 0x7A
  · rw [if_pos hack] at hdriver
    have hother : p.1.key code = .other := by rw [Keyboard.key, hack]; rfl
    refine ⟨hkeys, ?_, ?_, ?_⟩
    · simp [scan, hdriver]
    · have hmods := h.modifiers
      simp [scan, hdriver, hother, Driver.modifiers, Keyboard.modifiers, Keyboard.release] at hmods ⊢
      exact hmods
    · simp [scan, hdriver, hother, releaseFlag]
  · rw [if_neg hack] at hdriver
    rw [hkey] at hkeys ⊢
    refine ⟨hkeys, ?_, ?_, ?_⟩
    · simp [scan, hdriver, Driver.releaseKey_e0Keycode]
    · rw [scan, hdriver]
      apply Driver.releaseKey_modifiers
      exact h.modifiers
    · rw [scan, hdriver, Driver.releaseKey_keybFlag, ← h.modifiers]
      rfl

theorem Inv.release (h : Inv start p.1 p.2) (hc : IsRelease code) (hh : HarmlessCode p.2 code) :
    Inv start (scan ready code p).1 (scan ready code p).2 := by
  have hr := scan_release ready h hc
  have hkey : p.1.key code = keyOf p.2.e0Keycode (code &&& 0x7F) := by rw [Keyboard.key, h.e0]
  rw [hr.keys]
  constructor
  · rw [hr.e0]
    rfl
  · exact hr.modifiers
  · rw [hr.flags]
    apply h.flags.release
    rw [hkey]
    exact hh hc

theorem Inv.scan (h : Inv start p.1 p.2) (hh : HarmlessCode p.2 code) :
    Inv start (scan ready code p).1 (scan ready code p).2 := by
  by_cases he0 : code = 0xE0
  · subst he0
    exact h.prefixed
  · by_cases hc : breakBit &&& code = 0
    · exact h.press hc
    · exact h.release ⟨he0, hc⟩ hh

theorem Inv.stepRight_iff (h : Inv start p.1 p.2) : StepRight ready start p code ↔ HarmlessCode p.2 code := by
  constructor
  · intro hright hc
    have hr := scan_release ready h hc
    have hsame := hright.2 hc
    rw [hr.flags, releaseFlag_unchanged_iff] at hsame
    rwa [Keyboard.key, ← h.e0] at hsame
  · intro hh
    refine ⟨(h.scan hh).flags, ?_⟩
    intro hc
    have hr := scan_release ready h hc
    show (Keyb.scan ready code p).2.keybFlag &&& _ = _
    rw [hr.flags, releaseFlag_unchanged_iff, Keyboard.key, ← h.e0]
    exact hh hc

end Scan

/-- In a run of scan codes from a driver that has no key held, each harmless where it arrives, the flags are right in every
state, and the next code keeps them right and the bits of other keys unchanged exactly when it is harmless as well. -/
theorem reach_flags_right (ready : ℕ → Bool) {s₀ : Driver} (h₀ : Unpressed s₀) {p : Keyboard × Driver}
    (h : Reach (fun code p => some (scan ready code p)) (fun p code => HarmlessCode p.2 code) (.idle, s₀) p) :
    FlagsRight s₀.keybFlag p.1 p.2.keybFlag ∧ ∀ code, StepRight ready s₀.keybFlag p code ↔ HarmlessCode p.2 code := by
  have hinv : Inv s₀.keybFlag p.1 p.2 := by
    apply h.invariant (fun p => Inv s₀.keybFlag p.1 p.2)
    · exact h₀.inv
    · intro q code q' hq hh hstep
      cases hstep
      exact hq.scan hh
  exact ⟨hinv.flags, fun _ => hinv.stepRight_iff⟩

def atRest : Driver :=
  ⟨0, 0, 0, ⟨false, false, false, false, false, false, false, false, false, false, false, false, false⟩, false, 0, 0, 0, [], 0⟩

/-- Each Ctrl key is pressed and released, then one under Shift, and then Caps Lock. -/
theorem reach_flags_right_ctrl : ∃ p, p.2.keybFlag = actCapslk ∧
    FlagsRight 0 p.1 p.2.keybFlag ∧ ∀ code, StepRight (fun _ => true) 0 p code ↔ HarmlessCode p.2 code := by
  have hrest : Unpressed atRest := ⟨rfl, rfl, rfl⟩
  have hmap : (runSteps (fun code p => some (scan (fun _ => true) code p)) (fun p code => HarmlessCode p.2 code)
      [0xE0, 0x1D, 0xE0, 0x9D, 0x1D, 0x9D, 0x2A, 0x1D, 0x9D, 0xAA, 0x3A, 0xBA] (.idle, atRest)).map (fun p => p.2.keybFlag) =
      some actCapslk := by decide +kernel
  obtain ⟨p, hrun, hflag⟩ := Option.map_eq_some_iff.mp hmap
  exact ⟨p, hflag, reach_flags_right _ hrest (runSteps_reach _ _ hrun)⟩

/-- Caps Lock is pressed and released and then Ctrl, which clears the state of Caps Lock. -/
theorem ctrl_clears_capslk : ¬ ∀ (ready : ℕ → Bool) (codes : List (BitVec 8)) (s₀ : Driver), Unpressed s₀ →
    let p := codes.foldl (fun p code => scan ready code p) (.idle, s₀)
    FlagsRight s₀.keybFlag p.1 p.2.keybFlag := by
  intro h
  have hbit := h (fun _ => true) [0x3A, 0xBA, 0x1D, 0x9D] atRest ⟨rfl, rfl, rfl⟩ .capslk
  exact absurd hbit (by decide)

end Keys

end FreeDos32.Keyb
