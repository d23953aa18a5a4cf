import FreeDos32.Leanfs.File

namespace FreeDos32.Leanfs

open Fat (overlay le16 le32 get16 get32 hasFlag)

def nameMax : ℕ := 255

/-- A directory entry header followed by the name, and `recLen` bytes in all. -/
structure DirEntry where
  inode : ℕ
  recLen : ℕ
  nameLen : ℕ
  type : ℕ
  name : List UInt8
  deriving DecidableEq

def headerSize : ℕ := 8

def headerBytes (inode recLen nameLen type : ℕ) : List UInt8 :=
  le32 inode ++ le16 recLen ++ [UInt8.ofNat nameLen, UInt8.ofNat type]

/-- The entry in a header and the bytes that follow it; the name ends at a null character. -/
def DirEntry.ofBytes (header body : List UInt8) : DirEntry :=
  let m : ℕ → UInt8 := fun j => header.getD j 0
  { inode := get32 m 0, recLen := get16 m 4, nameLen := (m 6).toNat, type := (m 7).toNat,
    name := (body.take (m 6).toNat).takeWhile (· ≠ 0) }

/-- Reads the next entry that is not free. An entry shorter than its header, or one with a name of more than 256
bytes, is not read into the memory that is there for it. -/
def doReaddir (dir : ℕ) : ℕ → LeanM DirEntry
  | 0 => Prog.diverge
  | fuel + 1 => do
    let header ← leanfsRead dir headerSize
    if header = [] then Prog.fail .enoent
    else if header.length ≠ headerSize then Prog.fail .eio
    else
      let recLen := (DirEntry.ofBytes header []).recLen
      if recLen < headerSize then Prog.diverge
      else
        let body ← leanfsRead dir (recLen - headerSize)
        if 256 < body.length then Prog.diverge
        else if body.length ≠ recLen - headerSize then Prog.fail .eio
        else
          let de := DirEntry.ofBytes header body
          if de.inode = 0 then doReaddir dir fuel else pure de

/-- Every entry that has been read takes a byte of the directory at least. -/
def findLoop (dir : ℕ) (name : List UInt8) : ℕ → LeanM DirEntry
  | 0 => Prog.diverge
  | fuel + 1 => do
    let v ← Prog.state
    let de ← doReaddir dir ((v.inode dir).fileSize + 1)
    if de.name = name then pure de else findLoop dir name fuel

def leanfsFind (dir : ℕ) (name : List UInt8) : LeanM DirEntry := do
  let v ← Prog.state
  if (v.inode dir).isDir = false then Prog.fail .enotdir
  else
    Prog.update (Volume.setPointer dir 0)
    findLoop dir name ((v.inode dir).fileSize + 1)

/-- The search of `leanfs_do_link` for free space: where the last entry looked at is, and how much has been found. -/
def linkLoop (dir recLen : ℕ) : ℕ → ℕ → LeanM (ℕ × ℕ)
  | 0, _ => Prog.diverge
  | fuel + 1, found => do
    let v ← Prog.state
    let lastPos := (v.files dir).filePointer
    let header ← leanfsRead dir headerSize
    if header = [] then pure (lastPos, recLen)
    else if header.length ≠ headerSize then Prog.fail .eio
    else
      let de := DirEntry.ofBytes header []
      let found := if de.inode = 0 then found + de.recLen else 0
      if recLen ≤ found then pure (lastPos, found)
      else
        Prog.update (Volume.setPointer dir (lastPos + de.recLen))
        linkLoop dir recLen fuel found

/-- Writes bytes to a directory; fewer written than asked for is an error. -/
def writeAll (dir : ℕ) (bytes : List UInt8) : LeanM Unit := do
  let res ← leanfsWrite dir bytes
  if res < bytes.length then Prog.fail .enospc else pure ()

/-- The length of the entry for a name: a multiple of 4. -/
def recLenFor (name : List UInt8) : ℕ := (headerSize + name.length + 3) / 4 * 4

def leanfsDoLink (dir firstCluster ftype : ℕ) (name : List UInt8) : LeanM Unit := do
  let v ← Prog.state
  let recLen := recLenFor name
  if name.length > nameMax then Prog.fail .enametoolong
  else if (v.inode dir).isDir = false then Prog.fail .enotdir
  else
    let (lastPos, found) ← linkLoop dir recLen ((v.inode dir).fileSize + 1) 0
    Prog.update (Volume.setPointer dir lastPos)
    let split := headerSize + 4 ≤ found - recLen
    writeAll dir (headerBytes firstCluster (if split then recLen else found) name.length ftype)
    writeAll dir name
    writeAll dir (List.replicate (recLen - name.length - headerSize) 0)
    Prog.when split (writeAll dir (headerBytes 0 (found - recLen) 0 0))
    Prog.update (Volume.setPointer dir lastPos)

/-- A new inode with one link and one cluster. -/
def newInode (attributes now : ℕ) : Inode :=
  (((((Inode.setCreTime now fun _ => 0).setModTime now).setAccTime now).setAttributes attributes).setClustersCount 1)
    |>.setLinksCount 1

def leanfsCreateInode (parent attributes : ℕ) (name : List UInt8) : LeanM Unit := do
  let free ← leanfsBitmapFindFree
  leanfsBitmapSet free true
  let b ← leanfsReadbuf free .null
  let now ← time
  poke b (newInode attributes now).store
  leanfsDoLink parent free (leanfsIfmtToFt attributes) name

end FreeDos32.Leanfs
