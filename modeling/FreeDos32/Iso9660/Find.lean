import FreeDos32.Iso9660.Directory

namespace FreeDos32.Iso9660

open Kernel (dword)

def flEx : ℕ := 1

def flDir : ℕ := 2

def aReadonly : ℕ := 1

def aHidden : ℕ := 2

def aVolid : ℕ := 8

def aDir : ℕ := 16

def u16 (x : ℕ) : ℕ := x % 2 ^ 16

section Names

def toupper (c : Byte) : Byte := if 0x61 ≤ c.toNat ∧ c.toNat ≤ 0x7A then c - 0x20 else c

def memrchr (src : ℕ → Byte) (c : Byte) : ℕ → Option ℕ
  | 0 => none
  | n + 1 => if src n = c then some n else memrchr src c n

/-- The bytes are the memory from `src` on; `char` is signed. -/
def buildFcbNamePart (wildcards : Bool) (destSize : ℕ) (src : ℕ → Byte) (srcSize : ℕ) : Except Errno (List Byte) :=
  if src 0 = 0 ∨ srcSize = 0 then .ok (List.replicate destSize 0x20)
  else if wildcards ∧ src 0 = 0x2A then .ok (List.replicate destSize 0x3F)
  else if (src 0).toInt < 0x20 then .error .einval
  else match destSize with
    | 0 => .ok []
    | destSize + 1 =>
      (buildFcbNamePart wildcards destSize (fun i => src (i + 1)) (srcSize - 1)).map (toupper (src 0) :: ·)

def buildFcbName (src : ℕ → Byte) (srcSize : ℕ) (wildcards : Bool) : Except Errno (List Byte) :=
  if srcSize = 1 ∧ (src 0 = 0x2E ∨ src 0 = 0) then .ok (0x2E :: List.replicate 10 0x20)
  else if srcSize = 2 ∧ src 0 = 0x2E ∧ src 1 = 0x2E ∨ srcSize = 1 ∧ src 0 = 1 then
    .ok (0x2E :: 0x2E :: List.replicate 9 0x20)
  else do
    let sep1 := memrchr src 0x2E srcSize
    let sep2 := memrchr src 0x3B srcSize
    let srcSize := sep2.getD srcSize
    let dest ← match sep1 with
      | some dot => do
        let name ← buildFcbNamePart wildcards 8 src dot
        -- the size wraps around when the semicolon comes first
        let extension ← buildFcbNamePart wildcards 3 (fun i => src (dot + 1 + i)) (dword (srcSize + 2 ^ 32 - (dot + 1)))
        pure (name ++ extension)
      | none => do
        let name ← buildFcbNamePart wildcards 8 src srcSize
        pure (name ++ List.replicate 3 0x20)
    if dest.headD 0 = 0x20 then .error .einval else pure dest

def rtrim (s : List Byte) : List Byte := (s.reverse.dropWhile (· = 0x20)).reverse

/-- The name ends with a zero. -/
def expandFcbName (src : List Byte) : List Byte :=
  let extension := rtrim (src.drop 8)
  rtrim (src.take 8) ++ (if extension = [] then [] else 0x2E :: extension) ++ [0]

def compareFcbNames (s sw : List Byte) : Bool := (s.zip sw).all fun c => c.2 = 0x3F ∨ c.1 = c.2

end Names

section Dates

def packDosDate (t : Timestamp) : ℕ :=
  if 80 ≤ t.year ∧ t.year ≤ 207 ∧ 1 ≤ t.month ∧ t.month ≤ 12 ∧ 1 ≤ t.day ∧ t.day ≤ 31
  then t.day ||| t.month <<< 5 ||| (t.year - 80) <<< 9 else 0

def packDosTime (t : Timestamp) : ℕ :=
  if t.seconds ≤ 60 ∧ t.minutes ≤ 59 ∧ t.hour ≤ 23 then t.seconds >>> 1 ||| t.minutes <<< 5 ||| t.hour <<< 11 else 0

end Dates

/-- `PrivateFindData` and the fields of the result. -/
structure FindData where
  searchTemplate : List Byte
  searchAttr : ℕ
  currSecofs : ℕ
  currSector : ℕ
  sectorsLeft : ℕ
  attr : ℕ
  mTime : ℕ
  mDate : ℕ
  size : ℕ
  name : List Byte

def unallowedAttr (searchAttr : ℕ) : ℕ :=
  (if searchAttr &&& aHidden = 0 then flEx else 0) ||| (if searchAttr &&& aDir = 0 then flDir else 0)

/-- The name of a record that matches. -/
def selects (template : List Byte) (searchAttr : ℕ) (dr : DirRecord) : Except Errno (Option (List Byte)) :=
  if dr.flags &&& unallowedAttr searchAttr ≠ 0 then .ok none
  else (buildFcbName dr.fileId dr.lenFi false).map fun fcbname =>
    if compareFcbNames fcbname template then some fcbname else none

def FindData.found (df : FindData) (dr : DirRecord) (fcbname : List Byte) : FindData :=
  { df with
    attr := aReadonly ||| (if dr.flags &&& flDir ≠ 0 then aDir else 0) ||| (if dr.flags &&& flEx ≠ 0 then aHidden else 0)
    mTime := packDosTime dr.recordingTime
    mDate := packDosDate dr.recordingTime
    size := dr.dataLength
    name := expandFcbName fcbname }

def FindData.endTurn (df : FindData) (last : Bool) : FindData :=
  if bytesPerSector ≤ df.currSecofs ∨ last then
    { df with currSecofs := 0, currSector := dword (df.currSector + 1), sectorsLeft := df.sectorsLeft - 1 }
  else df

/-- The loop of `iso9660_findnext`, and where on the disc the records are that it has looked at. -/
def findnextLoop (dev : Device) : ℕ → FindData → Volume → Option (Except Errno Unit × List ℕ × FindData × Volume)
  | 0, _, _ => none
  | fuel + 1, df, v =>
    if df.sectorsLeft = 0 then some (.error .enmfile, [], df, v)
    else match readbuf dev (dword (df.currSector * 2 ^ v.logBlocksPerSector)) v with
      | (.error e, v) => some (.error e, [], df, v)
      | (.ok res, v) =>
        if bytesPerSector ≤ res + df.currSecofs then none
        else if v.buffer.data (res + df.currSecofs) = 0 then findnextLoop dev fuel (df.endTurn true) v
        else
          let dr := record v.buffer.data (res + df.currSecofs)
          let place := df.currSector * bytesPerSector + df.currSecofs
          if ¬dr.Fits (res + df.currSecofs) 100 then none
          else
            let df := { df with currSecofs := u16 (df.currSecofs + dr.lenDr) }
            match selects df.searchTemplate df.searchAttr dr with
            | .error e => some (.error e, [place], df, v)
            | .ok (some fcbname) => some (.ok (), [place], df.found dr fcbname, v)
            | .ok none => (findnextLoop dev fuel (df.endTurn false) v).map fun r => (r.1, place :: r.2.1, r.2.2)

/-- A call has fewer turns than 65535 sectors have bytes. -/
def findnext (dev : Device) (df : FindData) (v : Volume) : Option (Except Errno Unit × List ℕ × FindData × Volume) :=
  findnextLoop dev (2 ^ 28) df v

structure Label where
  volId : List Byte
  rootRecordingTime : Timestamp

def FindData.begin (df : FindData) (f : File) (v : Volume) (searchTemplate : List Byte) (attr : ℕ) : FindData :=
  { df with
    searchTemplate
    searchAttr := attr % 2 ^ 8
    currSecofs := 0
    currSector := f.extent / 2 ^ v.logBlocksPerSector
    sectorsLeft := u16 (dword (f.dataLength + bytesPerSector - 1) / 2 ^ logBytesPerSector) }

/-- The directory is given as `iso9660_open` leaves it. -/
def findfirst (dev : Device) (label : Label) (f : File) (fn : ℕ → Byte) (fnsize attr : ℕ) (df : FindData) (v : Volume) :
    Option (Except Errno Unit × List ℕ × FindData × Volume) :=
  if attr = aVolid then
    some (.ok (), [], { df with
      attr := aVolid
      mTime := packDosTime label.rootRecordingTime
      mDate := packDosDate label.rootRecordingTime
      size := 0
      name := label.volId.take 12 ++ [0] }, v)
  else match buildFcbName fn fnsize true with
    | .error e => some (.error e, [], df, v)
    | .ok searchTemplate =>
      match findnext dev (df.begin f v searchTemplate attr) v with
      | none => none
      | some (res, places, df, v) => some (if res = .error .enmfile then .error .enoent else res, places, df, v)

/-- Calls of `iso9660_findnext` until `-ENMFILE`: where on the disc the records are that they have looked at. -/
def findnexts (dev : Device) : ℕ → FindData → Volume → Option (List ℕ)
  | 0, _, _ => none
  | fuel + 1, df, v =>
    match findnext dev df v with
    | none => none
    | some (res, places, df, v) =>
      if res = .error .enmfile then some places else (findnexts dev fuel df v).map (places ++ ·)

/-- A call of `iso9660_findfirst` and those of `iso9660_findnext` after it. -/
def findAll (dev : Device) (label : Label) (f : File) (fn : ℕ → Byte) (fnsize attr : ℕ) (df : FindData) (v : Volume) :
    Option (List ℕ) :=
  match findfirst dev label f fn fnsize attr df v with
  | none => none
  | some (_, places, df, v) => (findnexts dev (f.dataLength + 1) df v).map (places ++ ·)

end FreeDos32.Iso9660
