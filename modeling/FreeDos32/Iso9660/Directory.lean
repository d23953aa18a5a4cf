import FreeDos32.Iso9660.File

namespace FreeDos32.Iso9660

structure Timestamp where
  year : ℕ
  month : ℕ
  day : ℕ
  hour : ℕ
  minutes : ℕ
  seconds : ℕ

/-- A directory record; `fileId` is the memory from its identifier on. -/
structure DirRecord where
  lenDr : ℕ
  lenEar : ℕ
  extent : ℕ
  dataLength : ℕ
  recordingTime : Timestamp
  flags : ℕ
  lenFi : ℕ
  fileId : ℕ → Byte

def u32 (data : ℕ → Byte) (p : ℕ) : ℕ :=
  (data p).toNat + (data (p + 1)).toNat * 2 ^ 8 + (data (p + 2)).toNat * 2 ^ 16 + (data (p + 3)).toNat * 2 ^ 24

def timestamp (data : ℕ → Byte) (p : ℕ) : Timestamp where
  year := (data p).toNat
  month := (data (p + 1)).toNat
  day := (data (p + 2)).toNat
  hour := (data (p + 3)).toNat
  minutes := (data (p + 4)).toNat
  seconds := (data (p + 5)).toNat

def record (data : ℕ → Byte) (p : ℕ) : DirRecord where
  lenDr := (data p).toNat
  lenEar := (data (p + 1)).toNat
  extent := u32 data (p + 2)
  dataLength := u32 data (p + 10)
  recordingTime := timestamp data (p + 18)
  flags := (data (p + 25)).toNat
  lenFi := (data (p + 32)).toNat
  fileId := fun i => data (p + 33 + i)

/-- The record is inside of the buffer, and its identifier and a final zero fit an array of `room` bytes. -/
def DirRecord.Fits (dr : DirRecord) (p room : ℕ) : Prop := p + 33 + dr.lenFi ≤ bytesPerSector ∧ dr.lenFi < room

instance (dr : DirRecord) (p room : ℕ) : Decidable (dr.Fits p room) := inferInstanceAs (Decidable (_ ∧ _))

/-- What `iso9660_do_readdir` finds: the place of the block in the buffer, the block, the byte in the block, and the offset
of what follows. -/
structure Entry where
  res : ℕ
  deBlock : ℕ
  deBlkofs : ℕ
  next : ℤ

/-- The loop of `iso9660_do_readdir`. -/
def readdirLoop (dev : Device) (f : File) : ℕ → ℤ → Volume → Option (Except Errno Entry × Volume)
  | 0, _, _ => none
  | fuel + 1, offset, v =>
    if f.dataLength ≤ offset then some (.error .enmfile, v)
    else match readbuf dev (blockAt f v offset) v with
      | (.error e, v) => some (.error e, v)
      | (.ok res, v) =>
        let byteInBlock := (offset % v.blockSize).toNat
        if bytesPerSector ≤ res + byteInBlock then none
        else if v.buffer.data (res + byteInBlock) = 0 then
          readdirLoop dev f fuel (offset + (bytesPerSector - (res + byteInBlock) : ℕ)) v
        else
          let dr := record v.buffer.data (res + byteInBlock)
          -- the identifier is copied for the log
          if dr.Fits (res + byteInBlock) 60 then some (.ok ⟨res, blockAt f v offset, byteInBlock, offset + dr.lenDr⟩, v)
          else none

/-- `none` when it reads outside of the buffer, writes outside of its array or does not end. -/
def doReaddir (dev : Device) (f : File) (v : Volume) : Option (Except Errno Entry × File × Volume) :=
  match readdirLoop dev f (f.dataLength + 1) f.filePointer v with
  | none => none
  | some (.error e, v) => some (.error e, f, v)
  | some (.ok entry, v) => some (.ok entry, { f with filePointer := entry.next }, v)

/-- Calls of `iso9660_do_readdir` until `-ENMFILE`: where on the disc the records are. -/
def readdirs (dev : Device) : ℕ → File → Volume → Option (List ℕ)
  | 0, _, _ => none
  | fuel + 1, f, v =>
    match doReaddir dev f v with
    | none => none
    | some (.error e, _, _) => if e = .enmfile then some [] else none
    | some (.ok entry, f, v) => 
      (readdirs dev fuel f v).map fun places => (entry.deBlock * v.blockSize + entry.deBlkofs) :: places

end FreeDos32.Iso9660
