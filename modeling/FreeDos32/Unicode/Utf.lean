import Mathlib.Algebra.Ring.Int.Defs
import Mathlib.Algebra.Ring.Nat
import FreeDos32.Errno

namespace FreeDos32.Unicode

/-- Bit mask and bit values of a lead byte. -/
def leadTable : List (ℕ × ℕ) := [(0x80, 0x00), (0xE0, 0xC0), (0xF0, 0xE0), (0xF8, 0xF0)]

def unicodeUtf8Len (leadByte : UInt8) : Except Errno ℕ :=
  match leadTable.findIdx? (fun t => leadByte.toNat &&& t.1 == t.2) with
  | some k => .ok (k + 1)
  | none => .error .eilseq

/-- Appends the low six bits of `k` continuation bytes to `wc`. -/
def continuation : ℕ → ℕ → List UInt8 → Except Errno ℕ
  | 0, wc, _ => .ok wc
  | _ + 1, _, [] => .error .enametoolong
  | k + 1, wc, b :: bs =>
    if b.toNat &&& 0xC0 ≠ 0x80 then .error .eilseq
    else continuation k ((wc <<< 6) ||| (b.toNat &&& 0x3F)) bs

/-- The wide character at the head of a string and the number of bytes it takes. -/
def unicodeUtf8ToWchar : List UInt8 → Except Errno (ℕ × ℕ)
  | [] => .error .enametoolong
  | b :: bs =>
    match leadTable.findIdx? (fun t => b.toNat &&& t.1 == t.2) with
    | none => .error .eilseq
    | some k =>
      if bs.length < k then .error .enametoolong
      else (continuation k (b.toNat &&& (0xFF - (leadTable.getD k (0, 0)).1)) bs).map (·, k + 1)

/-- The bytes of a wide character; `size` is the room for them. -/
def unicodeWcharToUtf8 (wc : Int) (size : ℕ) : Except Errno (List UInt8) :=
  if 0 ≤ wc then
    let wc := wc.toNat
    if wc < 0x000080 then
      if size < 1 then .error .enametoolong else .ok [UInt8.ofNat wc]
    else if wc < 0x000800 then
      if size < 2 then .error .enametoolong
      else .ok [UInt8.ofNat (0xC0 ||| (wc >>> 6)), UInt8.ofNat (0x80 ||| (wc &&& 0x3F))]
    else if wc < 0x010000 then
      if size < 3 then .error .enametoolong
      else .ok [UInt8.ofNat (0xE0 ||| (wc >>> 6 >>> 6)), UInt8.ofNat (0x80 ||| ((wc >>> 6) &&& 0x3F)),
        UInt8.ofNat (0x80 ||| (wc &&& 0x3F))]
    else if wc < 0x200000 then
      if size < 4 then .error .enametoolong
      else .ok [UInt8.ofNat (0xF0 ||| (wc >>> 6 >>> 6 >>> 6)), UInt8.ofNat (0x80 ||| ((wc >>> 6 >>> 6) &&& 0x3F)),
        UInt8.ofNat (0x80 ||| ((wc >>> 6) &&& 0x3F)), UInt8.ofNat (0x80 ||| (wc &&& 0x3F))]
    else .error .einval
  else .error .einval

/-- The UTF-16 units of a wide character. -/
def unicodeWcharToUtf16le (wc : ℕ) : Except Errno (List ℕ) :=
  if wc < 0x10000 then .ok [wc]
  else if wc < 0x200000 then
    .ok [(0xD800 + (((wc >>> 16) - 1) <<< 6) + ((wc &&& 0x00FC00) >>> 2)) % 0x10000,
      (0xDC00 + (wc &&& 0x0003FF)) % 0x10000]
  else .error .einval

def littleEndian16 (v : ℕ) : ℕ := v

def bigEndian16 (v : ℕ) : ℕ := ((v <<< 8) ||| (v >>> 8)) % 0x10000

def unicodeWcharToUtf16be (wc : ℕ) : Except Errno (List ℕ) :=
  if wc < 0x10000 then .ok [bigEndian16 wc]
  else if wc < 0x200000 then
    .ok [bigEndian16 ((0xD800 + (((wc >>> 16) - 1) <<< 6) + ((wc &&& 0x00FC00) >>> 2)) % 0x10000),
      bigEndian16 ((0xDC00 + (wc &&& 0x0003FF)) % 0x10000)]
  else .error .einval

/-- The length of a character from its first unit. -/
def utf16Len (endian : ℕ → ℕ) (leadWord : ℕ) : ℕ := if endian leadWord &&& 0xFC00 = 0xD800 then 2 else 1

def unicodeUtf16leLen (leadWord : ℕ) : ℕ := utf16Len littleEndian16 leadWord

def unicodeUtf16beLen (leadWord : ℕ) : ℕ := utf16Len bigEndian16 leadWord

/-- The wide character at the head of a string of 16-bit units and the number of units it takes. -/
def utf16ToWchar (endian : ℕ → ℕ) : List ℕ → Except Errno (ℕ × ℕ)
  | [] => .error .enametoolong
  | u :: us =>
    let v := endian u
    if v &&& 0xFC00 ≠ 0xD800 then .ok (v, 1)
    else
      match us with
      | [] => .error .enametoolong
      | u' :: _ =>
        let v' := endian u'
        if v' &&& 0xFC00 ≠ 0xDC00 then .error .eilseq
        else .ok ((((v &&& 0x03FF) <<< 10) + 0x010000) ||| (v' &&& 0x03FF), 2)

def unicodeUtf16leToWchar (string : List ℕ) : Except Errno (ℕ × ℕ) := utf16ToWchar littleEndian16 string

def unicodeUtf16beToWchar (string : List ℕ) : Except Errno (ℕ × ℕ) := utf16ToWchar bigEndian16 string

end FreeDos32.Unicode
