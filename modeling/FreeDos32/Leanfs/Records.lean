import FreeDos32.Leanfs.Dir

namespace FreeDos32.Leanfs

variable {body rest tail : List UInt8} {i l n t : ℕ}

/-- A directory record: a header and the bytes up to the length that the header says. -/
structure DirRecord where
  inode : ℕ
  nameLen : ℕ
  type : ℕ
  body : List UInt8
  inode_lt : inode < 2 ^ 32
  recLen_lt : headerSize + body.length < 2 ^ 16
  nameLen_lt : nameLen < 2 ^ 8
  type_lt : type < 2 ^ 8

theorem length_headerBytes (i n l t : ℕ) : (headerBytes i n l t).length = headerSize := rfl

theorem ofBytes_inode (hi : i < 2 ^ 32) (body : List UInt8) : (DirEntry.ofBytes (headerBytes i n l t) body).inode = i := by
  change (UInt8.ofNat i).toNat + 256 * (UInt8.ofNat (i / 256)).toNat +
    65536 * ((UInt8.ofNat (i / 65536)).toNat + 256 * (UInt8.ofNat (i / 65536 / 256)).toNat) = i
  simp only [UInt8.toNat_ofNat']
  omega

theorem ofBytes_recLen (hn : n < 2 ^ 16) (body : List UInt8) : (DirEntry.ofBytes (headerBytes i n l t) body).recLen = n := by
  change (UInt8.ofNat n).toNat + 256 * (UInt8.ofNat (n / 256)).toNat = n
  simp only [UInt8.toNat_ofNat']
  omega

theorem ofBytes_nameLen (hl : l < 2 ^ 8) (body : List UInt8) : (DirEntry.ofBytes (headerBytes i n l t) body).nameLen = l := by
  change (UInt8.ofNat l).toNat = l
  rw [UInt8.toNat_ofNat', Nat.mod_eq_of_lt hl]

theorem ofBytes_type (ht : t < 2 ^ 8) (body : List UInt8) : (DirEntry.ofBytes (headerBytes i n l t) body).type = t := by
  change (UInt8.ofNat t).toNat = t
  rw [UInt8.toNat_ofNat', Nat.mod_eq_of_lt ht]

theorem ofBytes_name (hl : l < 2 ^ 8) (body : List UInt8) :
    (DirEntry.ofBytes (headerBytes i n l t) body).name = (body.take l).takeWhile (· ≠ 0) := by
  change (body.take (UInt8.ofNat l).toNat).takeWhile (· ≠ 0) = _
  rw [UInt8.toNat_ofNat', Nat.mod_eq_of_lt hl]

namespace DirRecord

variable {r r' : DirRecord}

def recLen (r : DirRecord) : ℕ := headerSize + r.body.length

def header (r : DirRecord) : List UInt8 := headerBytes r.inode r.recLen r.nameLen r.type

def bytes (r : DirRecord) : List UInt8 := r.header ++ r.body

def entry (r : DirRecord) : DirEntry := DirEntry.ofBytes r.header r.body

/-- The record can be read into the memory that `do_readdir` has for one. -/
def Short (r : DirRecord) : Prop := r.body.length ≤ 256

instance (r : DirRecord) : Decidable r.Short := Nat.decLe _ _

theorem length_header (r : DirRecord) : r.header.length = headerSize := rfl

theorem length_bytes (r : DirRecord) : r.bytes.length = r.recLen := by
  rw [bytes, List.length_append, length_header, recLen]

theorem header_inode (r : DirRecord) (body : List UInt8) : (DirEntry.ofBytes r.header body).inode = r.inode :=
  ofBytes_inode r.inode_lt _

theorem header_recLen (r : DirRecord) (body : List UInt8) : (DirEntry.ofBytes r.header body).recLen = r.recLen :=
  ofBytes_recLen r.recLen_lt _

/-- The header says what the record is but for its bytes. -/
theorem header_inj (h : r.header = r'.header) :
    r.inode = r'.inode ∧ r.nameLen = r'.nameLen ∧ r.type = r'.type ∧ r.body.length = r'.body.length := by
  have hof : ∀ s : DirRecord, (DirEntry.ofBytes s.header []).nameLen = s.nameLen ∧ (DirEntry.ofBytes s.header []).type = s.type :=
    fun s => ⟨ofBytes_nameLen s.nameLen_lt _, ofBytes_type s.type_lt _⟩
  refine ⟨?_, ?_, ?_, ?_⟩
  · rw [← r.header_inode [], h, header_inode]
  · rw [← (hof r).1, h, (hof r').1]
  · rw [← (hof r).2, h, (hof r').2]
  · have hlen : r.recLen = r'.recLen := by rw [← r.header_recLen [], h, header_recLen]
    unfold recLen at hlen
    omega

theorem bytes_append_inj (h : r.bytes ++ rest = r'.bytes ++ tail) : r = r' ∧ rest = tail := by
  rw [bytes, bytes, List.append_assoc, List.append_assoc] at h
  obtain ⟨hheader, hbody⟩ := List.append_inj h rfl
  obtain ⟨hi, hn, ht, hl⟩ := header_inj hheader
  obtain ⟨hb, hrest⟩ := List.append_inj hbody hl
  cases r
  cases r'
  subst hi hn ht hb
  exact ⟨rfl, hrest⟩

end DirRecord

/-- The bytes of a directory with the given records. -/
def dirBytes (rs : List DirRecord) : List UInt8 := rs.flatMap DirRecord.bytes

/-- The entries of a directory: the records that are not free. -/
def entries (rs : List DirRecord) : List DirEntry := (rs.filter fun r => r.inode ≠ 0).map DirRecord.entry

variable {rs xs : List DirRecord} {r : DirRecord} {found recLen : ℕ}

@[simp] theorem dirBytes_nil : dirBytes [] = [] := rfl

@[simp] theorem dirBytes_cons (r : DirRecord) (rs : List DirRecord) : dirBytes (r :: rs) = r.bytes ++ dirBytes rs :=
  List.flatMap_cons

@[simp] theorem dirBytes_append (xs ys : List DirRecord) : dirBytes (xs ++ ys) = dirBytes xs ++ dirBytes ys :=
  List.flatMap_append

@[simp] theorem entries_append (xs ys : List DirRecord) : entries (xs ++ ys) = entries xs ++ entries ys := by
  simp [entries]

theorem entries_free (h : r.inode = 0) (rs : List DirRecord) : entries (r :: rs) = entries rs := by
  simp [entries, h]

theorem entries_live (h : r.inode ≠ 0) (rs : List DirRecord) : entries (r :: rs) = r.entry :: entries rs := by
  simp [entries, h]

theorem length_le_dirBytes (rs : List DirRecord) : rs.length ≤ (dirBytes rs).length := by
  induction rs with
  | nil => exact Nat.le_refl 0
  | cons r rs ih =>
    rw [dirBytes_cons, List.length_append, List.length_cons, DirRecord.length_bytes, DirRecord.recLen, headerSize]
    omega

theorem bytes_ne_nil (r : DirRecord) (rest : List UInt8) : r.bytes ++ rest ≠ [] := fun h => by
  have hlen := congrArg List.length h
  rw [List.length_append, DirRecord.length_bytes, DirRecord.recLen, headerSize, List.length_nil] at hlen
  omega

/-- Bytes are records in one way only. -/
theorem dirBytes_split (h : dirBytes xs ++ rest = dirBytes rs) : ∃ ys, rs = xs ++ ys ∧ rest = dirBytes ys := by
  induction xs generalizing rs with
  | nil => exact ⟨rs, rfl, h⟩
  | cons x xs ih =>
    rw [dirBytes_cons, List.append_assoc] at h
    cases rs with
    | nil => exact absurd h (bytes_ne_nil _ _)
    | cons r rs =>
      rw [dirBytes_cons] at h
      obtain ⟨rfl, hrest⟩ := DirRecord.bytes_append_inj h
      obtain ⟨ys, rfl, hys⟩ := ih hrest
      exact ⟨ys, rfl, hys⟩

/-- Where the search for `recLen` free bytes ends, `found` having been counted so far: the records before the last one
looked at, and the number of bytes. At the end of the directory there are as many as are needed. -/
def freeSpace (recLen : ℕ) : ℕ → List DirRecord → List DirRecord × ℕ
  | _, [] => ([], recLen)
  | found, r :: rs =>
    let found := if r.inode = 0 then found + r.recLen else 0
    if recLen ≤ found then ([], found)
    else
      let (before, n) := freeSpace recLen found rs
      (r :: before, n)

theorem prefix_freeSpace (recLen found : ℕ) (rs : List DirRecord) : (freeSpace recLen found rs).1 <+: rs := by
  induction rs generalizing found with
  | nil => exact List.prefix_refl _
  | cons r rs ih =>
    rw [freeSpace]
    dsimp only
    by_cases hle : recLen ≤ if r.inode = 0 then found + r.recLen else 0
    · rw [if_pos hle]
      exact List.nil_prefix
    · rw [if_neg hle]
      exact List.cons_prefix_cons.mpr ⟨rfl, ih _⟩

/-- What is left over is shorter than the last record looked at. -/
theorem freeSpace_bounds (hfound : found < recLen) (hrec : recLen < 2 ^ 16) (rs : List DirRecord) :
    recLen ≤ (freeSpace recLen found rs).2 ∧ (freeSpace recLen found rs).2 - recLen < 2 ^ 16 := by
  induction rs generalizing found with
  | nil =>
    change recLen ≤ recLen ∧ recLen - recLen < 2 ^ 16
    omega
  | cons r rs ih =>
    have hlt := r.recLen_lt
    rw [freeSpace]
    dsimp only
    by_cases hle : recLen ≤ if r.inode = 0 then found + r.recLen else 0
    · rw [if_pos hle]
      refine ⟨hle, ?_⟩
      unfold DirRecord.recLen
      split <;> omega
    · rw [if_neg hle]
      exact ih (Nat.lt_of_not_le hle)

theorem ofBytes_eq (hi : i < 2 ^ 32) (hn : n < 2 ^ 16) (hl : l < 2 ^ 8) (ht : t < 2 ^ 8) (body : List UInt8) :
    DirEntry.ofBytes (headerBytes i n l t) body = ⟨i, n, l, t, (body.take l).takeWhile (· ≠ 0)⟩ := by
  have hinode := ofBytes_inode (n := n) (l := l) (t := t) hi body
  have hrecLen := ofBytes_recLen (i := i) (l := l) (t := t) hn body
  have hnameLen := ofBytes_nameLen (i := i) (n := n) (t := t) hl body
  have htype := ofBytes_type (i := i) (n := n) (l := l) ht body
  have hname := ofBytes_name (i := i) (n := n) (t := t) hl body
  generalize DirEntry.ofBytes (headerBytes i n l t) body = e at *
  cases e
  exact DirEntry.mk.injEq .. ▸ ⟨hinode, hrecLen, hnameLen, htype, hname⟩

/-- The first record of a directory is the one that its first bytes are the header of. -/
theorem dirBytes_header (h : headerBytes i n l t ++ rest = dirBytes rs) :
    ∃ r ys, rs = r :: ys ∧ r.header = headerBytes i n l t ∧ rest = r.body ++ dirBytes ys := by
  cases rs with
  | nil => cases congrArg List.length h
  | cons r ys =>
    rw [dirBytes_cons, DirRecord.bytes, List.append_assoc] at h
    obtain ⟨hheader, hrest⟩ := List.append_inj h rfl
    exact ⟨r, ys, rfl, hheader.symm, hrest⟩

theorem exists_record (body : List UInt8) (hi : i < 2 ^ 32) (hn : headerSize + body.length < 2 ^ 16) (hl : l < 2 ^ 8) (ht : t < 2 ^ 8) :
    ∃ r : DirRecord, r.header = headerBytes i (headerSize + body.length) l t ∧ r.body = body :=
  ⟨⟨i, l, t, body, hi, hn, hl, ht⟩, rfl, rfl⟩

theorem recLen_of_header (h : r.header = headerBytes i n l t) (hn : n < 2 ^ 16) : r.recLen = n := by
  rw [← r.header_recLen [], h, ofBytes_recLen hn]

theorem inode_of_header (h : r.header = headerBytes i n l t) (hi : i < 2 ^ 32) : r.inode = i := by
  rw [← r.header_inode [], h, ofBytes_inode hi]

end FreeDos32.Leanfs
