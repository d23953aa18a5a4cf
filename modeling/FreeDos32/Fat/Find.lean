import FreeDos32.Fat.Dir

namespace FreeDos32.Fat

/-- The record that the caller of a search keeps: what it is for, where it has come to and what it has found. -/
structure FindData where
  searchTemplate : List UInt8
  searchAttr : UInt8
  entryCount : ℕ
  firstDirCluster : ℕ
  attr : UInt8
  mTime : ℕ
  mDate : ℕ
  size : ℕ
  name : List UInt8
  deriving DecidableEq

/-- The loop of `build_fcb_name_part`: `dest` is what has been written so far of at most `size` bytes. -/
def fcbChars (wildcards : Bool) (size : ℕ) : ℕ → List UInt8 → List UInt8 → ℕ → Except Errno (List UInt8 × ℕ)
  | 0, _, dest, res => .ok (dest, res)
  | fuel + 1, src, dest, res =>
    if src.headD 0 = 0 then .ok (dest, res)
    else
      match Unicode.unicodeUtf8ToWchar src with
      | .error e => .error e
      | .ok (wc, skip) =>
        let src := src.drop skip
        if wildcards = true ∧ wc = 0x2A then .ok (dest ++ List.replicate (size - dest.length) 0x3F, res)
        else if dest.length = size then .ok (dest, 1)
        else if wc > 255 then fcbChars wildcards size fuel src (dest ++ [0x5F]) 1
        else if wc < 0x20 then .error .einval
        else if ¬(wildcards = true ∧ wc = 0x3F) ∧ wc ∈ invalidSfnCharacters then .error .einval
        else fcbChars wildcards size fuel src (dest ++ [UInt8.ofNat (nlsToupper wc)]) res

def buildFcbNamePart (size : ℕ) (src : List UInt8) (wildcards : Bool) : Except Errno (List UInt8 × ℕ) :=
  fcbChars wildcards size src.length src [] 0

/-- The last check on the built name, and the character that stands for a deleted entry. -/
def checkFcbName (dest : List UInt8) (res : ℕ) : Except Errno (List UInt8 × ℕ) :=
  match dest with
  | [] => .ok (dest, res)
  | c :: rest =>
    if c = 0x20 then .error .einval
    else if c = fatFreeent then .ok (0x05 :: rest, res)
    else .ok (dest, res)

/-- The name in FCB format, with 0 or 1; `past` is what follows the name in memory. The size of the name is
not reduced by what precedes the dot, so that the extension may be taken from beyond the name. -/
def fatBuildFcbName (src past : List UInt8) (wildcards : Bool) : Except Errno (List UInt8 × ℕ) :=
  if src = [0x2E] ∨ src = [0x2E, 0x2E] then .ok (padded 11 src, 0)
  else
    match src.findIdx? (· == 0x2E) with
    | some dot => do
      let (name, res1) ← buildFcbNamePart 8 (src.take dot) wildcards
      let (ext, res2) ← buildFcbNamePart 3 (((src ++ past).drop (dot + 1)).take src.length) wildcards
      checkFcbName (padded 8 name ++ padded 3 ext) (if res1 ≠ 0 ∨ res2 ≠ 0 then 1 else 0)
    | none => do
      let (name, res1) ← buildFcbNamePart 8 src wildcards
      checkFcbName (padded 11 name) (if res1 ≠ 0 then 1 else 0)

/-- True when the names match; the second may contain question marks. -/
def compareFcbNames (s sw : List UInt8) : Bool :=
  (List.range 11).all fun k => sw.getD k 0 == 0x3F || s.getD k 0 == sw.getD k 0

def expandFcbNameMb (source : List UInt8) : Except Errno (List UInt8) :=
  match unpadded (source.take 8), unpadded (source.drop 8) with
  | [], _ => .error .einval
  | c :: name, ext =>
    let first := if c = 0x05 then fatFreeent else c
    .ok (first :: name ++ (if ext = [] then [] else 0x2E :: ext))

namespace FindData

def excludes (df : FindData) (attr : UInt8) : Bool :=
  if df.searchAttr ≠ fatAVolid then hasAttr attr (~~~(df.searchAttr ||| fatAArchiv ||| fatARdonly))
  else attr != fatAVolid

def wants (df : FindData) (de : Direntry) : Bool :=
  !df.excludes de.attr && compareFcbNames de.name df.searchTemplate

def found (df : FindData) (de : Direntry) (name : List UInt8) (count first : ℕ) : FindData := { df with
  attr := de.attr, mTime := get16 de 22, mDate := get16 de 24, size := de.fileSize, name := name
  entryCount := count % 65536, firstDirCluster := first }

end FindData

def dosFindLoop (c : ℕ) (df : FindData) : ℕ → FatM FindData
  | 0 => Prog.diverge
  | fuel + 1 => do
    fatDoReaddir c
    let v ← Prog.state
    let de := v.lud.cde v.lud.cdePos
    if df.excludes de.attr = true then dosFindLoop c df fuel
    else if compareFcbNames de.name df.searchTemplate = true then
      let name ← Prog.ofExcept (expandFcbNameMb de.name)
      pure (df.found de name ((v.channels c).filePointer / 32) (v.files (v.channels c).f).firstCluster)
    else dosFindLoop c df fuel

/-- The directory is closed whatever has been found. -/
def dosFind (c : ℕ) (df : FindData) : FatM FindData := do
  let v ← Prog.state
  let res ← (dosFindLoop c df v.geo.loopBound).attempt
  let _ ← (fatClose c).attempt
  Prog.ofExcept res

def fatFindfirst (dparent : ℕ) (fn past : List UInt8) (attr : UInt8) (df : FindData) : FatM FindData := do
  let (template, res) ← Prog.ofExcept (fatBuildFcbName fn past true)
  if res > 0 then Prog.fail .enoent
  else
    let c ← fatOpen dparent (oRdonly ||| oDirectory)
    match ← (dosFind c { df with searchTemplate := template, searchAttr := attr }).attempt with
    | .ok df => pure df
    | .error .enmfile => Prog.fail .enoent
    | .error e => Prog.fail e

/-- The directory entry that `fat_reopen_dir` makes up. -/
def reopenDirentry (firstCluster : ℕ) : Direntry :=
  Direntry.setFirstCluster firstCluster (Direntry.setAttr fatADir fun _ => 0)

def fatReopenDir (firstCluster entryCount : ℕ) : FatM ℕ := do
  let f ← fileGet (reopenDirentry firstCluster) 0 0
  match ← channelGet f none (oRdonly ||| oDirectory) with
  | none =>
    filePut f
    Prog.fail .enomem
  | some c =>
    Prog.update (Volume.setChannel c fun x => { x with filePointer := entryCount * 32 })
    pure c

def fatFindnext (df : FindData) : FatM FindData := do
  let c ← fatReopenDir df.firstDirCluster df.entryCount
  dosFind c df

/-- Continues a search until an error, which is the second component. -/
def findRest : ℕ → FindData → FatM (List FindData × Errno)
  | 0, _ => Prog.diverge
  | fuel + 1, df => do
    match ← (fatFindnext df).attempt with
    | .error e => pure ([], e)
    | .ok df =>
      let (rest, e) ← findRest fuel df
      pure (df :: rest, e)

def findAll (dparent : ℕ) (fn past : List UInt8) (attr : UInt8) (df : FindData) : FatM (List FindData × Errno) := do
  let v ← Prog.state
  match ← (fatFindfirst dparent fn past attr df).attempt with
  | .error e => pure ([], e)
  | .ok df =>
    let (rest, e) ← findRest v.geo.loopBound df
    pure (df :: rest, e)

end FreeDos32.Fat
