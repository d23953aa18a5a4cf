import FreeDos32.Fat.Volume
import FreeDos32.Unicode.Utf
import FreeDos32.Unicode.SimpleFold

namespace FreeDos32.Fat

/-- `toupper` of the default code page, which has one byte for each of the characters up to 255. -/
def nlsToupper (c : ℕ) : ℕ :=
  if (0x61 ≤ c ∧ c ≤ 0x7A) ∨ (0xE8 ≤ c ∧ c ≤ 0xFE ∧ c ≠ 0xF7) then c - 0x20 else c

def invalidSfnCharacters : List ℕ :=
  [0x22, 0x2B, 0x2C, 0x2E, 0x2F, 0x3A, 0x3B, 0x3C, 0x3D, 0x3E, 0x5B, 0x5C, 0x5D, 0x7C, 0x2A, 0x3F]

def validLfnCharacters : List ℕ := [0x2B, 0x2C, 0x3B, 0x3D, 0x5B, 0x5D]

def unpadded (s : List UInt8) : List UInt8 := (s.reverse.dropWhile (· == 0x20)).reverse

/-- The result is never longer than `FAT_SFN_MAX`. -/
def expandFcbName (source : List UInt8) : Except Errno (List ℕ) :=
  match unpadded (source.take 8), unpadded (source.drop 8) with
  | [], _ => .error .einval
  | c :: name, ext =>
    let first := if c = 0x05 then fatFreeent else c
    let aux := first :: name ++ (if ext = [] then [] else 0x2E :: ext)
    .ok ((aux.takeWhile (· != 0)).map UInt8.toNat)

def lfnFetchSlots : ℕ := 21

/-- Byte offsets of the UTF-16 units in a LFN entry. -/
def lfnChars : List ℕ := [1, 3, 5, 7, 9, 14, 16, 18, 20, 22, 24, 28, 30]

def lfnCharsPerSlot : ℕ := 13

/-- Only the lowest 8 bits of the result are used. -/
def lfnChecksum (name : List UInt8) : ℕ :=
  name.foldl (fun sum x => (sum % 2 * 128 ||| (sum &&& 0xFE) / 2) + x.toNat) 0

/-- Appends the characters of the units of one slot to `lfn`; `semi` holds what the first half of a
surrogate pair has given. -/
def fetchUnits : List ℕ → Option ℕ → List ℕ → Except Errno (Option ℕ × List ℕ)
  | [], semi, lfn => .ok (semi, lfn)
  | u :: us, none, lfn =>
    if u &&& 0xFC00 = 0xD800 then fetchUnits us (some (((u &&& 0x03FF) <<< 10) + 0x010000)) lfn
    else if u = 0 then .ok (none, lfn)
    else if lfn.length + 1 = fatLfnMax then .error .enametoolong
    else fetchUnits us none (lfn ++ [u])
  | u :: us, some wc, lfn =>
    if u &&& 0xFC00 ≠ 0xDC00 then .error .eilseq
    else if lfn.length + 1 = fatLfnMax then .error .enametoolong
    else fetchUnits us none (lfn ++ [wc ||| (u &&& 0x03FF)])

/-- The loop of `fetch_lfn` over the slots before the short entry, which gives the number of slots and
the name. No slot has an order above 31. -/
def fetchSlots (filePointer checksum : ℕ) (cde : ℕ → Direntry) :
    ℕ → ℕ → ℕ → Option ℕ → List ℕ → Except Errno (ℕ × List ℕ)
  | 0, _, _, _, _ => .ok (0, [])
  | fuel + 1, order, k, semi, lfn =>
    if k = 0 ∧ filePointer < lfnFetchSlots * 32 then .ok (0, [])
    else
      let k := (if k = 0 then lfnFetchSlots else k) - 1
      let slot := cde k
      if slot.attr ≠ fatALfn ∨ order ≠ (slot 0).toNat &&& 0x1F ∨ checksum ≠ (slot 13).toNat then .ok (0, [])
      else
        match fetchUnits (lfnChars.map (get16 slot)) semi lfn with
        | .error e => .error e
        | .ok (semi, lfn) =>
          if (slot 0).toNat &&& 0x40 ≠ 0 then .ok (order, lfn)
          else fetchSlots filePointer checksum cde fuel (order + 1) k semi lfn

def fetchLfn (filePointer : ℕ) (lud : LookupData) : Except Errno (ℕ × List ℕ) :=
  fetchSlots filePointer (lfnChecksum (lud.cde lud.cdePos).name % 256) lud.cde 32 1 lud.cdePos none []

def LookupData.setCde (k : ℕ) (g : Direntry → Direntry) (lud : LookupData) : LookupData :=
  { lud with cde := fun j => if j = k then g (lud.cde j) else lud.cde j }

/-- Where `split_lfn` stands: `order` slots have been begun, the last at index 20 less `order`, and
`slotPos` units put into it. -/
structure SplitState where
  lud : LookupData
  slotPos : ℕ
  order : ℕ
  namePos : ℕ

namespace SplitState

def slot (s : SplitState) : ℕ := lfnFetchSlots - 1 - s.order

def putUnit (checksum unit : ℕ) (s : SplitState) : SplitState :=
  let s := if s.slotPos = lfnCharsPerSlot then { s with slotPos := 0 } else s
  let s := if s.slotPos = 0 then
      { s with
        order := s.order + 1
        lud := s.lud.setCde (lfnFetchSlots - 1 - (s.order + 1)) fun slot =>
          overlay 26 [0, 0] (overlay 11 [fatALfn, 0, UInt8.ofNat checksum]
            (overlay 0 [UInt8.ofNat (s.order + 1)] slot)) }
    else s
  { s with
    lud := s.lud.setCde s.slot (overlay (lfnChars.getD s.slotPos 0) (le16 unit))
    slotPos := s.slotPos + 1
    namePos := s.namePos + 1 }

/-- False when the name has become too long. -/
def putUnits (checksum : ℕ) : List ℕ → SplitState → Bool × SplitState
  | [], s => (true, s)
  | u :: us, s =>
    let s := s.putUnit checksum u
    if s.namePos = fatLfnMax then (false, s) else putUnits checksum us s

def close (s : SplitState) : LookupData :=
  let k := if s.order = 0 then lfnFetchSlots - 2 else s.slot
  let pad := (lfnChars.drop s.slotPos).mapIdx fun i o => (o, if i = 0 then 0 else 0xFFFF)
  { s.lud.setCde k (fun slot => pad.foldl (fun slot p => overlay p.1 (le16 p.2) slot)
      (overlay 0 [slot 0 ||| 0x40] slot)) with
    lfnEntries := s.order }

end SplitState

def splitChars (checksum : ℕ) : ℕ → List UInt8 → SplitState → Except Errno Unit × SplitState
  | 0, _, s => (.ok (), s)
  | fuel + 1, fn, s =>
    if fn = [] then (.ok (), s)
    else
      match Unicode.unicodeUtf8ToWchar fn with
      | .error e => (.error e, s)
      | .ok (wc, res) =>
        match Unicode.unicodeWcharToUtf16le wc with
        | .error e => (.error e, s)
        | .ok units =>
          match s.putUnits checksum units with
          | (false, s) => (.error .enametoolong, s)
          | (true, s) => splitChars checksum fuel (fn.drop res) s

def splitLfn (fn : List UInt8) (checksum : ℕ) (lud : LookupData) : Except Errno Unit × LookupData :=
  match splitChars checksum fn.length fn ⟨lud, 0, 0, 0⟩ with
  | (.error e, s) => (.error e, s.lud)
  | (.ok (), s) => (.ok (), s.close)

/-- Puts the character into the part; the error code, or the bit that `res` gets. -/
def shortChar (wc : ℕ) : Except Errno (UInt8 × ℕ) :=
  if wc > 255 then .ok (0x5F, 2)
  else
    let up := nlsToupper wc
    if up < 0x20 ∨ up ∈ invalidSfnCharacters then .error .einval
    else .ok (UInt8.ofNat up, if up ≠ wc then 1 else 0)

/-- The loop of `gen_short_fname_part`: `dest` is what has been written so far of at most `size` bytes. -/
def shortChars (size : ℕ) : ℕ → List UInt8 → List UInt8 → ℕ → List UInt8 × Except Errno ℕ
  | 0, _, dest, res => (dest, .ok res)
  | fuel + 1, src, dest, res =>
    if src = [] then (dest, .ok res)
    else
      match Unicode.unicodeUtf8ToWchar src with
      | .error e => (dest, .error e)
      | .ok (wc, skip) =>
        let src := src.drop skip
        if wc = 0x20 ∨ wc = 0x2E then shortChars size fuel src dest (res ||| 2)
        else
          let (wc, res) := if wc ∈ validLfnCharacters then (0x5F, res ||| 2) else (wc, res)
          if dest.length = size then (dest, .ok 2)
          else
            match shortChar wc with
            | .error e => (dest ++ [UInt8.ofNat wc], .error e)
            | .ok (c, bit) => shortChars size fuel src (dest ++ [c]) (res ||| bit)

def genShortFnamePart (size : ℕ) (src : List UInt8) : List UInt8 × Except Errno ℕ :=
  shortChars size src.length src [] 0

def padded (size : ℕ) (s : List UInt8) : List UInt8 := s ++ List.replicate (size - s.length) 0x20

def isDot (s : List UInt8) (i : ℕ) : Bool := s.getD i 0 == 0x2E

/-- At least two bytes must follow the dot. -/
def lastEmbeddedDot (s : List UInt8) : Option ℕ :=
  ((List.range s.length).filter fun i =>
    decide (1 ≤ i) && isDot s i && !isDot s (i - 1) && decide (i + 2 < s.length) && !isDot s (i + 1)).getLast?

/-- The last two checks on the generated name. -/
def checkShortFname (dest : List UInt8) (res : ℕ) : List UInt8 × Except Errno ℕ :=
  match dest with
  | [] => (dest, .ok res)
  | c :: rest =>
    if c = 0x20 then (dest, .error .einval)
    else if c = fatFreeent then (0x05 :: rest, .ok res)
    else (dest, .ok res)

/-- The eleven bytes as far as they have been generated, and the return code. -/
def genShortFname1 (src : List UInt8) : List UInt8 × Except Errno ℕ :=
  if src = [0x2E] ∨ src = [0x2E, 0x2E] then (padded 11 src, .ok 0)
  else
    match lastEmbeddedDot src with
    | some dot =>
      match genShortFnamePart 8 (src.take dot) with
      | (name, .error e) => (padded 11 name, .error e)
      | (name, .ok res1) =>
        match genShortFnamePart 3 (src.drop (dot + 1)) with
        | (ext, .error e) => (padded 8 name ++ padded 3 ext, .error e)
        | (ext, .ok res2) => checkShortFname (padded 8 name ++ padded 3 ext) (res1 ||| res2)
    | none =>
      match genShortFnamePart 8 src with
      | (name, .error e) => (padded 11 name, .error e)
      | (name, .ok res1) => checkShortFname (padded 11 name) res1

def strcounter (counter : ℕ) : List UInt8 :=
  0x7E :: (Nat.toDigits 10 counter).map fun d => UInt8.ofNat d.toNat

/-- The name with a numeric tail put after its first characters. -/
def withTail (dest : List UInt8) (counter : ℕ) : List UInt8 :=
  let tail := strcounter counter
  let stem := (dest.take (8 - tail.length)).takeWhile (· != 0x20)
  stem ++ tail ++ dest.drop (stem.length + tail.length)

/-- Compares a UTF-8 name with a wide character name: whether they match, or the error. -/
def compareWithoutWildcards : List ℕ → List UInt8 → Except Errno Bool
  | [], s1 => .ok (s1 == [])
  | wc2 :: s2, s1 =>
    if s1 = [] then .ok false
    else
      match Unicode.unicodeUtf8ToWchar s1 with
      | .error e => .error e
      | .ok (wc, skip) =>
        if Unicode.unicodeSimpleFold wc ≠ Unicode.unicodeSimpleFold wc2 then .ok false
        else compareWithoutWildcards s2 (s1.drop skip)

end FreeDos32.Fat
