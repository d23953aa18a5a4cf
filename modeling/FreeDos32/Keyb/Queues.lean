import FreeDos32.Keyb.Preprocess
import FreeDos32.Library.Ring

namespace FreeDos32.Keyb

def queueMaxSize : ℕ := 32

/-- The offset of `keyb_buf` in the data area of the BIOS, which the key queue's variables count from. -/
def bdaOffset : ℕ := 0x1E

/-- The two queues in `bios_da.keyb_buf`. Keys have two bytes, at an even offset and the next; a raw code has an odd byte. -/
structure Queues where
  keybBuf : ℕ → BitVec 8
  keybBufhead : ℕ
  keybBuftail : ℕ
  rawqueueHead : ℕ
  rawqueueTail : ℕ
  scancode : BitVec 8

namespace Queues

def keybQueueClear (s : Queues) : Queues :=
  { s with rawqueueHead := 1, rawqueueTail := 1, keybBufhead := bdaOffset, keybBuftail := bdaOffset }

def rawqueuePut (code : BitVec 8) (s : Queues) : Queues :=
  let tail := (s.rawqueueTail + 2) % queueMaxSize
  { s with
    keybBuf := Function.update s.keybBuf s.rawqueueTail code
    rawqueueTail := tail
    rawqueueHead := if tail = s.rawqueueHead then (s.rawqueueHead + 2) % queueMaxSize else s.rawqueueHead }

def rawqueueRead (s : Queues) : BitVec 8 :=
  let rawIndex := (s.keybBuftail - bdaOffset + 1) % queueMaxSize
  if s.rawqueueTail = rawIndex then 0 else s.keybBuf rawIndex

def keyqueuePut (code : BitVec 16) (s : Queues) : Queues :=
  let keyIndex := s.keybBuftail - bdaOffset
  let rawIndex := (keyIndex + 1) % queueMaxSize
  { s with
    keybBuf := Function.update (Function.update s.keybBuf keyIndex (code.setWidth 8)) rawIndex ((code >>> 8).setWidth 8)
    keybBuftail := (keyIndex + 2) % queueMaxSize + bdaOffset }

def keyqueueEmpty (s : Queues) : Bool := s.keybBuftail = s.keybBufhead

def keyqueueGet (s : Queues) : BitVec 8 × Queues :=
  if s.keybBuftail = s.keybBufhead then (0, { s with scancode := 0 })
  else
    let i := s.keybBufhead - bdaOffset
    (s.keybBuf i, { s with keybBufhead := (i + 2) % queueMaxSize + bdaOffset, scancode := s.keybBuf (i + 1) })

def rawqueueGet (s : Queues) : BitVec 8 := s.scancode

/-- A key as `keyb_dev_get_keycode` has it, the character below the scan code. -/
def keyAt (buf : ℕ → BitVec 8) (slot : ℕ) : BitVec 16 := buf (2 * slot + 1) ++ buf (2 * slot)

def rawAt (buf : ℕ → BitVec 8) (slot : ℕ) : BitVec 8 := buf (2 * slot + 1)

/-- The keys from the head of the key queue to its tail. -/
def keys (s : Queues) : List (BitVec 16) :=
  ring (keyAt s.keybBuf) 16 ((s.keybBufhead - bdaOffset) / 2) ((s.keybBuftail + 32 - s.keybBufhead) % 32 / 2)

/-- The raw codes that have not been replaced by a key, up to the tail of the raw queue. -/
def raws (s : Queues) : List (BitVec 8) :=
  ring (rawAt s.keybBuf) 16 ((s.keybBuftail - bdaOffset) / 2)
    ((s.rawqueueTail + 32 - (s.keybBuftail - bdaOffset + 1)) % 32 / 2)

/-- The slots of the buffer: `q` keys after the first `h` ones that have been in it, and then `p` raw codes. -/
structure Window (s : Queues) (h q p : ℕ) : Prop where
  head : s.keybBufhead = bdaOffset + 2 * (h % 16)
  tail : s.keybBuftail = bdaOffset + 2 * ((h + q) % 16)
  rawTail : s.rawqueueTail = 2 * ((h + q + p) % 16) + 1
  fewKeys : q < 16
  fewRaws : p < 16
  fits : q + p ≤ 16

section Operations

variable {s : Queues} {h q p : ℕ} {code : BitVec 8} {key : BitVec 16}

theorem Window.keys_eq (w : Window s h q p) : s.keys = ring (keyAt s.keybBuf) 16 h q := by
  have hq := w.fewKeys
  have hcount : (s.keybBuftail + 32 - s.keybBufhead) % 32 / 2 = q := by
    rw [w.head, w.tail]
    omega
  have hstart : (s.keybBufhead - bdaOffset) / 2 = h % 16 := by
    rw [w.head]
    omega
  rw [keys, hcount, hstart, ring_mod]

theorem Window.raws_eq (w : Window s h q p) : s.raws = ring (rawAt s.keybBuf) 16 (h + q) p := by
  have hp := w.fewRaws
  have hcount : (s.rawqueueTail + 32 - (s.keybBuftail - bdaOffset + 1)) % 32 / 2 = p := by
    rw [w.rawTail, w.tail]
    omega
  have hstart : (s.keybBuftail - bdaOffset) / 2 = (h + q) % 16 := by
    rw [w.tail]
    omega
  rw [raws, hcount, hstart, ring_mod]

theorem keybQueueClear_window (s : Queues) : Window s.keybQueueClear 0 0 0 :=
  ⟨rfl, rfl, rfl, by decide, by decide, by decide⟩

theorem keyqueueEmpty_iff (w : Window s h q p) : s.keyqueueEmpty ↔ q = 0 := by
  have hq := w.fewKeys
  rw [keyqueueEmpty, decide_eq_true_iff, w.head, w.tail]
  omega

theorem rawqueueRead_eq (w : Window s h q p) : s.rawqueueRead = if p = 0 then 0 else rawAt s.keybBuf ((h + q) % 16) := by
  have hp := w.fewRaws
  have hindex : (s.keybBuftail - bdaOffset + 1) % queueMaxSize = 2 * ((h + q) % 16) + 1 := by
    rw [w.tail, queueMaxSize]
    omega
  have htail : s.rawqueueTail = 2 * ((h + q) % 16) + 1 ↔ p = 0 := by
    rw [w.rawTail]
    omega
  unfold rawqueueRead
  rw [hindex]
  simp only [htail]
  rfl

theorem Window.rawqueuePut (w : Window s h q p) (hp : p < 15) (hfits : q + p < 16) (code : BitVec 8) :
    Window (s.rawqueuePut code) h q (p + 1) := by
  refine ⟨w.head, w.tail, ?_, w.fewKeys, by omega, by omega⟩
  have hraw := w.rawTail
  simp only [Queues.rawqueuePut, hraw, queueMaxSize]
  omega

theorem keys_rawqueuePut (w : Window s h q p) (hp : p < 15) (hfits : q + p < 16) (code : BitVec 8) :
    (s.rawqueuePut code).keys = s.keys := by
  rw [w.keys_eq, (w.rawqueuePut hp hfits code).keys_eq]
  apply ring_congr
  intro i hi
  have hne : (h + i) % 16 ≠ (h + q + p) % 16 := ring_index_ne (by omega) (by omega)
  simp only [keyAt, Queues.rawqueuePut, w.rawTail]
  rw [Function.update_of_ne (by omega), Function.update_of_ne (by omega)]

theorem raws_rawqueuePut (w : Window s h q p) (hp : p < 15) (hfits : q + p < 16) (code : BitVec 8) :
    (s.rawqueuePut code).raws = s.raws ++ [code] := by
  have hold : ring (rawAt (s.rawqueuePut code).keybBuf) 16 (h + q) p = ring (rawAt s.keybBuf) 16 (h + q) p := by
    apply ring_congr
    intro i hi
    have hne : (h + q + i) % 16 ≠ (h + q + p) % 16 := ring_index_ne (by omega) (by omega)
    simp only [rawAt, Queues.rawqueuePut, w.rawTail]
    rw [Function.update_of_ne (by omega)]
  have hnew : rawAt (s.rawqueuePut code).keybBuf ((h + q + p) % 16) = code := by
    simp only [rawAt, Queues.rawqueuePut, w.rawTail, Function.update_self]
  rw [w.raws_eq, (w.rawqueuePut hp hfits code).raws_eq, ring_snoc, hold, hnew]

theorem Window.keyqueuePut (w : Window s h q (p + 1)) (hq : q < 15) (key : BitVec 16) :
    Window (s.keyqueuePut key) h (q + 1) p := by
  have hp := w.fewRaws
  have hfits := w.fits
  refine ⟨w.head, ?_, ?_, by omega, by omega, by omega⟩
  · have htail := w.tail
    simp only [Queues.keyqueuePut, htail, queueMaxSize]
    omega
  · have hraw := w.rawTail
    simp only [Queues.keyqueuePut, hraw]
    omega

theorem keyqueuePut_buf (w : Window s h q p) (key : BitVec 16) (i : ℕ) :
    (s.keyqueuePut key).keybBuf i =
      if i = 2 * ((h + q) % 16) + 1 then (key >>> 8).setWidth 8
      else if i = 2 * ((h + q) % 16) then key.setWidth 8
      else s.keybBuf i := by
  have hkey : s.keybBuftail - bdaOffset = 2 * ((h + q) % 16) := by
    rw [w.tail]
    omega
  have hraw : (2 * ((h + q) % 16) + 1) % queueMaxSize = 2 * ((h + q) % 16) + 1 := by
    rw [queueMaxSize]
    omega
  simp only [Queues.keyqueuePut, hkey, hraw, Function.update_apply]

theorem append_bytes (key : BitVec 16) : ((key >>> 8).setWidth 8 ++ key.setWidth 8 : BitVec (8 + 8)) = key := by
  apply BitVec.eq_of_getLsbD_eq
  intro i hi
  rw [BitVec.getLsbD_append]
  by_cases hlow : i < 8
  · simp [hlow]
  · have hhigh : i - 8 < 8 := by omega
    have hindex : 8 + (i - 8) = i := by omega
    simp [hlow, hhigh, hindex]

theorem keys_keyqueuePut (w : Window s h q (p + 1)) (hq : q < 15) (key : BitVec 16) :
    (s.keyqueuePut key).keys = s.keys ++ [key] := by
  have hold : ring (keyAt (s.keyqueuePut key).keybBuf) 16 h q = ring (keyAt s.keybBuf) 16 h q := by
    apply ring_congr
    intro i hi
    have hne : (h + i) % 16 ≠ (h + q) % 16 := ring_index_ne (by omega) (by omega)
    simp only [keyAt, keyqueuePut_buf w]
    rw [if_neg (by omega), if_neg (by omega), if_neg (by omega), if_neg (by omega)]
  have hnew : keyAt (s.keyqueuePut key).keybBuf ((h + q) % 16) = key := by
    simp only [keyAt, keyqueuePut_buf w]
    rw [if_pos trivial, if_neg (by omega), if_pos trivial]
    exact append_bytes key
  rw [w.keys_eq, (w.keyqueuePut hq key).keys_eq, ring_snoc, hold, hnew]

theorem raws_keyqueuePut (w : Window s h q (p + 1)) (hq : q < 15) (key : BitVec 16) :
    s.raws = rawAt s.keybBuf ((h + q) % 16) :: (s.keyqueuePut key).raws := by
  have hp := w.fewRaws
  have hrest : ring (rawAt (s.keyqueuePut key).keybBuf) 16 (h + q + 1) p = ring (rawAt s.keybBuf) 16 (h + q + 1) p := by
    apply ring_congr
    intro i hi
    have hne : (h + q) % 16 ≠ (h + q + 1 + i) % 16 := ring_index_ne (by omega) (by omega)
    simp only [rawAt, keyqueuePut_buf w]
    rw [if_neg (by omega), if_neg (by omega)]
  rw [w.raws_eq, (w.keyqueuePut hq key).raws_eq, ring_cons, ← Nat.add_assoc, hrest]

theorem keyqueueGet_of_empty (w : Window s h 0 p) : s.keyqueueGet = (0, { s with scancode := 0 }) := by
  rw [keyqueueGet, if_pos]
  rw [w.head, w.tail]
  rfl

theorem Window.keyqueueGet (w : Window s h (q + 1) p) : Window s.keyqueueGet.2 (h + 1) q p := by
  have hq := w.fewKeys
  have hfits := w.fits
  have hne : s.keybBuftail ≠ s.keybBufhead := by
    rw [w.head, w.tail]
    omega
  rw [Queues.keyqueueGet, if_neg hne]
  refine ⟨?_, ?_, ?_, by omega, w.fewRaws, by omega⟩
  · simp only [w.head, queueMaxSize]
    omega
  · simp only [w.tail]
    omega
  · simp only [w.rawTail]
    omega

theorem keys_keyqueueGet (w : Window s h (q + 1) p) :
    s.keys = (s.keyqueueGet.2.rawqueueGet ++ s.keyqueueGet.1) :: s.keyqueueGet.2.keys ∧ s.keyqueueGet.2.raws = s.raws := by
  have hq := w.fewKeys
  have hne : s.keybBuftail ≠ s.keybBufhead := by
    rw [w.head, w.tail]
    omega
  have hi : s.keybBufhead - bdaOffset = 2 * (h % 16) := by
    rw [w.head]
    omega
  rw [w.keys_eq, w.raws_eq, w.keyqueueGet.keys_eq, w.keyqueueGet.raws_eq, ring_cons]
  rw [Queues.keyqueueGet, if_neg hne]
  simp only [hi, rawqueueGet]
  constructor
  · rfl
  · rw [show h + 1 + q = h + (q + 1) by omega]

end Operations

end Queues

end FreeDos32.Keyb
