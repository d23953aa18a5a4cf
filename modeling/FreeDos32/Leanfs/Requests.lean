import FreeDos32.Leanfs.Open

namespace FreeDos32.Leanfs

/-- The calls of a program on a mounted volume. -/
inductive Request where
  | open_ (parent : ℕ) (name : List UInt8) (flags mode : ℕ)
  | link (oldFile newDir : ℕ) (newName : List UInt8)
  | unlink (parent : ℕ) (name : List UInt8)
  | mkdir (parent : ℕ) (name : List UInt8) (mode : ℕ)
  | write (f : ℕ) (buffer : List UInt8)
  | ftruncate (f : ℕ) (length : Int)
  | close (f : ℕ)

namespace Request

def exec : Request → LeanM Unit
  | open_ parent name flags mode => do let _ ← leanfsOpen parent name flags mode
  | link oldFile newDir newName => leanfsLink oldFile newDir newName
  | unlink parent name => leanfsUnlink parent name
  | mkdir parent name mode => leanfsMkdir parent name mode
  | write f buffer => do let _ ← leanfsWrite f buffer
  | ftruncate f length => do let _ ← leanfsFtruncate f length
  | close f => leanfsClose f

end Request
end FreeDos32.Leanfs
