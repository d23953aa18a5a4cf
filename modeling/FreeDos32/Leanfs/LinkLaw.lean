import FreeDos32.Leanfs.Walking
import FreeDos32.Leanfs.WriteLaw
import Mathlib.Data.List.TakeWhile

namespace FreeDos32.Leanfs

open Prog
open Fat (spliced spliced_inside length_spliced hasFlag overlay)

variable {v w u : Volume} {x y z : Node} {before rs after zs : List DirRecord} {r : DirRecord}
  {bytes name new rest : List UInt8} {c f found n pos recLen t : ℕ}

theorem Reading.setPointer (h : Reading f x v (bytes ++ rest)) (hpos : pos = (v.files f).filePointer + bytes.length) :
    Reading f x (v.setPointer f pos) rest := by
  have hst := Stamped.setPointer f pos v
  refine ⟨hst.fileOk h.ok, isReadable_of_framed hst.framed h.readable, ?_⟩
  rw [hst.contents, setPointer_pointer, hpos, ← List.drop_drop, h.bytes, List.drop_left]

/-- The search for free space ends where `freeSpace` says. -/
theorem linkLoop_ok (h : Reading f x v (dirBytes rs)) {fuel : ℕ}
    (hrun : (linkLoop f recLen fuel found).run v = (.ok (pos, n), w)) :
    pos = (v.files f).filePointer + (dirBytes (freeSpace recLen found rs).1).length ∧
      n = (freeSpace recLen found rs).2 ∧ Looked f x v w := by
  induction fuel generalizing v rs found with
  | zero => cases congrArg Prod.fst hrun
  | succ fuel ih =>
    rw [linkLoop, run_bind_state] at hrun
    by_cases hp : v.ReadPassable f headerSize
    · cases rs with
      | nil =>
        obtain ⟨w', hread, hl⟩ := h.read_end (by decide) hp
        rw [run_bind_ok hread, if_pos rfl] at hrun
        obtain rfl : w' = w := congrArg Prod.snd hrun
        have hres := Outcome.ok.inj (congrArg Prod.fst hrun)
        exact ⟨(congrArg Prod.fst hres).symm, (congrArg Prod.snd hres).symm, hl⟩
      | cons r rs =>
        rw [dirBytes_cons] at h
        have h' := h
        rw [DirRecord.bytes, List.append_assoc] at h'
        obtain ⟨w', hread, hl, hbody, hpointer⟩ := h'.read (.inl r.length_header) hp
        have hne : r.header ≠ [] := fun h0 => by
          have := r.length_header
          rw [h0] at this
          cases this
        rw [run_bind_ok hread, if_neg hne, if_neg (not_not.mpr r.length_header)] at hrun
        dsimp only at hrun
        rw [r.header_inode, r.header_recLen] at hrun
        rw [freeSpace]
        dsimp only
        by_cases hle : recLen ≤ if r.inode = 0 then found + r.recLen else 0
        · rw [if_pos hle] at hrun ⊢
          obtain rfl : w' = w := congrArg Prod.snd hrun
          have hres := Outcome.ok.inj (congrArg Prod.fst hrun)
          exact ⟨(congrArg Prod.fst hres).symm, (congrArg Prod.snd hres).symm, hl⟩
        · rw [if_neg hle] at hrun ⊢
          have hpos : (v.files f).filePointer + r.recLen = (w'.files f).filePointer + r.body.length := by
            rw [hpointer, r.length_header, DirRecord.recLen, Nat.add_assoc]
          obtain ⟨hpos', hn, hl'⟩ := ih (hbody.setPointer hpos) (by exact hrun)
          have hst := Looked.of_stamped hl.ok (Stamped.setPointer f ((v.files f).filePointer + r.recLen) w')
          refine ⟨?_, hn, hl.trans (hst.trans hl')⟩
          rw [hpos', setPointer_pointer, dirBytes_cons, List.length_append, r.length_bytes, Nat.add_assoc]
    · obtain ⟨u, hhang⟩ := h.hang hp
      rw [run_bind_hang hhang] at hrun
      cases congrArg Prod.fst hrun

/-- Bytes have been written from `pos` on, and the next ones go after them. -/
structure Ahead (v : Volume) (f : ℕ) (x : Node) (pos : ℕ) (bytes : List UInt8) (w : Volume) (y : Node) : Prop
    extends Wrote v f x pos bytes w y where
  start : w.writeStart f = pos + bytes.length

theorem Ahead.nil (h : FileOk v f x) (hstart : v.writeStart f = pos) (hpos : pos ≤ (v.inode f).fileSize) :
    Ahead v f x pos [] v x := ⟨.nil h hpos, hstart⟩

theorem writeStart_le (h : Ahead v f x pos bytes w y) : w.writeStart f ≤ (w.inode f).fileSize := by
  rw [h.start, h.size]
  exact Nat.le_max_right ..

/-- Whether there are clusters for `n` bytes from `pos` on. -/
def Volume.SpaceFor (v : Volume) (x : Node) (pos n : ℕ) : Prop :=
  v.Spacious x (max x.cells.length (v.clusterIndex (pos + n - 1) + 1))

instance (v : Volume) (x : Node) (pos n : ℕ) : Decidable (v.SpaceFor x pos n) := inferInstanceAs (Decidable (v.Spacious ..))

theorem Ahead.writeAll (h : Ahead v f x pos bytes w y) (hg : Geo v) (hspace : v.SpaceFor x pos n)
    (hn : bytes.length + new.length ≤ n) (hrun : (writeAll f new).run w = (.ok (), u)) :
    ∃ z, Ahead v f x pos (bytes ++ new) u z := by
  have hfits : w.Spacious y (max y.cells.length (w.clusterIndex (w.writeStart f + new.length - 1) + 1)) := by
    rw [h.spacious, h.frame.clusterIndex, h.length, h.start]
    apply hspace.mono hg
    have hmono : v.clusterIndex (pos + bytes.length - 1) ≤ v.clusterIndex (pos + n - 1) := clusterIndex_mono (by omega)
    have hmono' : v.clusterIndex (pos + bytes.length + new.length - 1) ≤ v.clusterIndex (pos + n - 1) :=
      clusterIndex_mono (by omega)
    omega
  by_cases hw : (w.files f).isWriteable = true
  · by_cases hne : new = []
    · subst hne
      rw [Leanfs.writeAll, run_bind_ok (leanfsWrite_nil hw)] at hrun
      obtain rfl : w = u := congrArg Prod.snd hrun
      exact ⟨y, by rwa [List.append_nil]⟩
    · by_cases hp : w.WritePassable f (w.writeStart f) new.length
      · obtain ⟨u', z, hwrite, hz⟩ := leanfsWrite_run h.ok hw hne (writeStart_le h) hp hfits
        rw [Leanfs.writeAll, run_bind_ok hwrite, if_neg (Nat.lt_irrefl _)] at hrun
        obtain rfl : u' = u := congrArg Prod.snd hrun
        rw [h.start] at hz
        have hall := h.toWrote.trans hz.toWrote
        refine ⟨z, hall, ?_⟩
        have hflags : (u'.files f).flags = (w.files f).flags := hz.frame.flags
        have hstart := h.start
        unfold Volume.writeStart at hstart ⊢
        rw [hflags, hz.pointer, hz.size, List.length_append]
        split at hstart
        · next happ =>
          rw [if_pos happ]
          omega
        · next happ =>
          rw [if_neg happ]
          omega
      · obtain ⟨u', hhang⟩ := leanfsWrite_hang h.ok hw hne (writeStart_le h) hp
        rw [Leanfs.writeAll, run_bind_hang hhang] at hrun
        cases congrArg Prod.fst hrun
  · have hfail : (leanfsWrite f new).run w = (.error .ebadf, w) := by
      rw [leanfsWrite, run_bind_state, if_pos (Bool.eq_false_iff.mpr hw)]
      rfl
    rw [Leanfs.writeAll, run_bind_error hfail] at hrun
    cases congrArg Prod.fst hrun

/-- Whether a free record is made of what is left over. -/
def Splits (recLen found : ℕ) : Prop := headerSize + 4 ≤ found - recLen

instance (recLen found : ℕ) : Decidable (Splits recLen found) := Nat.decLe _ _

/-- The bytes of the new record, as far as they are written. -/
def recordBytes (c t recLen found : ℕ) (name : List UInt8) : List UInt8 :=
  headerBytes c (if Splits recLen found then recLen else found) name.length t ++ name ++
    List.replicate (recLen - name.length - headerSize) 0

/-- What `leanfs_do_link` writes. -/
def linkBytes (c t recLen found : ℕ) (name : List UInt8) : List UInt8 :=
  recordBytes c t recLen found name ++ if Splits recLen found then headerBytes 0 (found - recLen) 0 0 else []

theorem linkBytes_split (h : Splits recLen found) :
    linkBytes c t recLen found name = recordBytes c t recLen found name ++ headerBytes 0 (found - recLen) 0 0 := by
  rw [linkBytes, if_pos h]

theorem linkBytes_whole (h : ¬Splits recLen found) : linkBytes c t recLen found name = recordBytes c t recLen found name := by
  rw [linkBytes, if_neg h, List.append_nil]

/-- The records before what is written: those that the search has passed, or all if the directory is open for appending. -/
def recordsBefore (v : Volume) (f recLen : ℕ) (pre rs : List DirRecord) : List DirRecord :=
  if hasFlag (v.files f).flags oAppend then pre ++ rs else pre ++ (freeSpace recLen 0 rs).1

theorem Looked.spaceFor (h : Looked f x v w) (hspace : v.SpaceFor x pos n) : w.SpaceFor x pos n := by
  unfold Volume.SpaceFor Volume.Spacious at hspace ⊢
  rwa [h.frame.clusterIndex, h.frame.iclusterCount, h.numFree]

theorem readable_of_linkLoop {fuel : ℕ} (h : (linkLoop f recLen fuel found).run v = (.ok (pos, n), w)) :
    (v.files f).isReadable = true := by
  by_contra hno
  cases fuel with
  | zero => cases congrArg Prod.fst h
  | succ fuel =>
    have hfail : (leanfsRead f headerSize).run v = (.error .ebadf, v) := by
      rw [leanfsRead, run_bind_state, if_pos (Bool.eq_false_iff.mpr hno)]
      rfl
    rw [linkLoop, run_bind_state, run_bind_error hfail] at h
    cases congrArg Prod.fst h

/-- What `leanfs_do_link` writes where when it returns 0. -/
theorem leanfsDoLink_ok {pre : List DirRecord} (h : FileOk v f x) (hdir : contents v f x = dirBytes (pre ++ rs))
    (hpointer : (v.files f).filePointer = (dirBytes pre).length)
    (hspace : v.SpaceFor x (dirBytes (recordsBefore v f (recLenFor name) pre rs)).length
      (linkBytes c t (recLenFor name) (freeSpace (recLenFor name) 0 rs).2 name).length)
    (hrun : (leanfsDoLink f c t name).run v = (.ok (), w)) :
    ∃ y, FileOk w f y ∧ (w.files f).isReadable = true ∧ name.length ≤ nameMax ∧
      contents w f y = spliced (dirBytes (pre ++ rs)) (dirBytes (recordsBefore v f (recLenFor name) pre rs)).length
        (linkBytes c t (recLenFor name) (freeSpace (recLenFor name) 0 rs).2 name) := by
  rw [leanfsDoLink, run_bind_state] at hrun
  by_cases hlen : name.length > nameMax
  · rw [if_pos hlen] at hrun
    cases congrArg Prod.fst hrun
  rw [if_neg hlen] at hrun
  by_cases hdirectory : (v.inode f).isDir = false
  · rw [if_pos hdirectory] at hrun
    cases congrArg Prod.fst hrun
  rw [if_neg hdirectory] at hrun
  obtain ⟨⟨lastPos, found⟩, u, hloop, hrun⟩ := exists_of_bind_ok hrun
  have hread : Reading f x v (dirBytes rs) := by
    refine ⟨h, readable_of_linkLoop hloop, ?_⟩
    rw [hdir, hpointer, dirBytes_append, List.drop_left]
  obtain ⟨hpos, rfl, hl⟩ := linkLoop_ok hread hloop
  have hlook := hl.trans (Looked.of_stamped hl.ok (Stamped.setPointer f lastPos u))
  have hsize : (v.inode f).fileSize = (dirBytes (pre ++ rs)).length := by rw [← hdir, length_contents]
  obtain ⟨after, hafter⟩ := prefix_freeSpace (recLenFor name) 0 rs
  have hstart : (u.setPointer f lastPos).writeStart f = (dirBytes (recordsBefore v f (recLenFor name) pre rs)).length := by
    unfold Volume.writeStart recordsBefore
    rw [hlook.frame.flags, setPointer_pointer, hlook.inode.fileSize, hsize, hpos, hpointer]
    split
    · rfl
    · rw [dirBytes_append, List.length_append]
  have hle : (dirBytes (recordsBefore v f (recLenFor name) pre rs)).length ≤ ((u.setPointer f lastPos).inode f).fileSize := by
    rw [hlook.inode.fileSize, hsize]
    unfold recordsBefore
    split
    · exact Nat.le_refl _
    · nth_rewrite 2 [← hafter]
      simp only [dirBytes_append, List.length_append]
      omega
  have hspace := hlook.spaceFor hspace
  have hg := hlook.ok.sound.geo
  dsimp only at hrun
  rw [run_bind_update] at hrun
  obtain ⟨⟨⟩, w1, hw1, hrun⟩ := exists_of_bind_ok hrun
  obtain ⟨⟨⟩, w2, hw2, hrun⟩ := exists_of_bind_ok hrun
  obtain ⟨⟨⟩, w3, hw3, hrun⟩ := exists_of_bind_ok hrun
  obtain ⟨⟨⟩, w4, hw4, hrun⟩ := exists_of_bind_ok hrun
  obtain ⟨y1, h1⟩ := (Ahead.nil hlook.ok hstart hle).writeAll hg hspace (by
    simp only [linkBytes, recordBytes, List.length_append, List.length_nil, length_headerBytes]
    omega) hw1
  obtain ⟨y2, h2⟩ := h1.writeAll hg hspace (by
    simp only [linkBytes, recordBytes, List.length_append, List.length_nil, length_headerBytes]
    omega) hw2
  obtain ⟨y3, h3⟩ := h2.writeAll hg hspace (by
    simp only [linkBytes, recordBytes, List.length_append, List.length_nil, length_headerBytes]
    omega) hw3
  have hlast : ∃ y, Ahead (u.setPointer f lastPos) f x (dirBytes (recordsBefore v f (recLenFor name) pre rs)).length
      (linkBytes c t (recLenFor name) (freeSpace (recLenFor name) 0 rs).2 name) w4 y := by
    by_cases hsplit : Splits (recLenFor name) (freeSpace (recLenFor name) 0 rs).2
    · rw [when_pos (by exact hsplit)] at hw4
      have h4 := h3.writeAll hg hspace (by
        simp only [linkBytes, recordBytes, List.length_append, List.length_nil, length_headerBytes, if_pos hsplit]
        omega) hw4
      rw [linkBytes_split hsplit]
      exact h4
    · rw [when_neg (by exact hsplit)] at hw4
      obtain rfl : w3 = w4 := congrArg Prod.snd hw4
      rw [linkBytes_whole hsplit]
      exact ⟨y3, h3⟩
  obtain ⟨y, hy⟩ := hlast
  obtain rfl : w4.setPointer f lastPos = w := congrArg Prod.snd hrun
  have hst := Stamped.setPointer f lastPos w4
  refine ⟨y, hst.fileOk hy.ok, ?_, Nat.le_of_not_lt hlen, ?_⟩
  · exact isReadable_of_framed ((hlook.frame.trans hy.frame).trans hst.framed) hread.readable
  · rw [hst.contents, hy.toWrote.contents hlook.ok hle, hlook.contents, hdir]

/-- The new entry. -/
def newEntry (c t recLen found : ℕ) (name : List UInt8) : DirEntry where
  inode := c
  recLen := if Splits recLen found then recLen else found
  nameLen := name.length
  type := t
  name := name

/-- The length of the free record that is made of what is left over, or else of the new record. -/
def lastLength (recLen found : ℕ) : ℕ := if Splits recLen found then found - recLen else found

/-- What a name and its directory record are to be. -/
structure NameOk (c t : ℕ) (name : List UInt8) : Prop where
  cluster : 0 < c ∧ c < 2 ^ 32
  type : t < 2 ^ 8
  length : name.length ≤ nameMax
  chars : 0 ∉ name

theorem recLenFor_bounds (h : name.length ≤ nameMax) :
    headerSize + name.length ≤ recLenFor name ∧ recLenFor name ≤ headerSize + 256 := by
  unfold recLenFor
  unfold nameMax at h
  unfold headerSize
  omega

theorem length_recordBytes (c t found : ℕ) (hrec : headerSize + name.length ≤ recLen) :
    (recordBytes c t recLen found name).length = recLen := by
  simp only [recordBytes, List.length_append, length_headerBytes, List.length_replicate]
  omega

theorem entry_new {d : ℕ} (h : NameOk c t name) (hd : d < 2 ^ 16) (hheader : r.header = headerBytes c d name.length t)
    (hbody : name <+: r.body) : r.inode ≠ 0 ∧ r.entry = ⟨c, d, name.length, t, name⟩ := by
  obtain ⟨rest, hrest⟩ := hbody
  have hlen : name.length < 2 ^ 8 := Nat.lt_succ_of_le h.length
  constructor
  · rw [inode_of_header hheader h.cluster.2]
    exact Nat.ne_of_gt h.cluster.1
  · rw [DirRecord.entry, hheader, ofBytes_eq h.cluster.2 hd hlen h.type, ← hrest, List.take_left]
    rw [List.takeWhile_eq_self_iff.mpr fun b hb => ?_]
    have : b ≠ 0 := fun h0 => h.chars (h0 ▸ hb)
    simpa using this

/-- The new record, with the free one after it if there is one. -/
structure New (c t recLen found : ℕ) (name : List UInt8) (news : List DirRecord) : Prop where
  entries : entries news = [newEntry c t recLen found name]
  length : (dirBytes news).length = found
  short : (∀ r ∈ news, r.Short) ↔ lastLength recLen found ≤ headerSize + 256

theorem New.eq_take {news : List DirRecord} (h : New c t recLen found name news) (hpre : dirBytes news <+: bytes) :
    dirBytes news = bytes.take found := by
  rw [← h.length]
  exact List.prefix_iff_eq_take.mp hpre

theorem new_whole {d : ℕ} (h : NameOk c t name) (hd : d < 2 ^ 16) (hno : ¬Splits recLen d)
    (hheader : r.header = headerBytes c d name.length t) (hbody : name <+: r.body) : New c t recLen d name [r] := by
  obtain ⟨hinode, hentry⟩ := entry_new h hd hheader hbody
  have hrec := recLen_of_header hheader hd
  refine ⟨?_, ?_, ?_⟩
  · rw [entries_live hinode, hentry, newEntry, if_neg hno]
    rfl
  · rw [dirBytes_cons, dirBytes_nil, List.append_nil, r.length_bytes, hrec]
  · rw [List.forall_mem_singleton, lastLength, if_neg hno, ← hrec, DirRecord.Short, DirRecord.recLen]
    exact (Nat.add_le_add_iff_left ..).symm

theorem new_split {s : DirRecord} (h : NameOk c t name) (hrec : headerSize + name.length ≤ recLen ∧ recLen ≤ headerSize + 256)
    (hyes : Splits recLen found) (hlt : found - recLen < 2 ^ 16) (hheader : r.header = headerBytes c recLen name.length t)
    (hbody : name <+: r.body) (hfree : s.header = headerBytes 0 (found - recLen) 0 0) :
    New c t recLen found name [r, s] := by
  have hle : recLen < 2 ^ 16 := by
    unfold headerSize at hrec
    omega
  obtain ⟨hinode, hentry⟩ := entry_new h hle hheader hbody
  have hr := recLen_of_header hheader hle
  have hs := recLen_of_header hfree hlt
  have hge : recLen ≤ found := by
    unfold Splits headerSize at hyes
    omega
  refine ⟨?_, ?_, ?_⟩
  · rw [entries_live hinode, entries_free (inode_of_header hfree (by decide)), hentry, newEntry, if_pos hyes]
    rfl
  · rw [dirBytes_cons, dirBytes_cons, dirBytes_nil, List.append_nil, List.length_append, r.length_bytes, s.length_bytes, hr, hs]
    omega
  · rw [lastLength, if_pos hyes, ← hs]
    have hshort : r.Short := by
      unfold DirRecord.recLen at hr
      unfold DirRecord.Short
      omega
    rw [List.forall_mem_cons, List.forall_mem_singleton, DirRecord.recLen, Nat.add_le_add_iff_left]
    exact and_iff_right hshort

/-- The space that the search has found and the name that goes there. -/
structure Found (c t recLen found : ℕ) (name : List UInt8) : Prop extends NameOk c t name where
  recLen_ge : headerSize + name.length ≤ recLen
  recLen_le : recLen ≤ headerSize + 256
  found_ge : recLen ≤ found
  found_lt : found - recLen < 2 ^ 16

theorem Found.whole_lt (h : Found c t recLen found name) (hno : ¬Splits recLen found) : found < 2 ^ 16 := by
  have := h.recLen_le
  unfold Splits headerSize at *
  omega

theorem recordBytes_split (h : Splits recLen found) : recordBytes c t recLen found name ++ bytes =
    headerBytes c recLen name.length t ++ (name ++ List.replicate (recLen - name.length - headerSize) 0 ++ bytes) := by
  rw [recordBytes, if_pos h, List.append_assoc, List.append_assoc, List.append_assoc]

theorem recordBytes_whole (h : ¬Splits recLen found) : recordBytes c t recLen found name ++ bytes =
    headerBytes c found name.length t ++ (name ++ List.replicate (recLen - name.length - headerSize) 0 ++ bytes) := by
  rw [recordBytes, if_neg h, List.append_assoc, List.append_assoc, List.append_assoc]

/-- What has been written is read as the new record, and as the free one after it. -/
theorem Found.written (h : Found c t recLen found name) (htile : linkBytes c t recLen found name ++ rest = dirBytes zs) :
    ∃ news ys, zs = news ++ ys ∧ New c t recLen found name news := by
  have hge := h.recLen_ge
  by_cases hsplit : Splits recLen found
  · rw [linkBytes_split hsplit, List.append_assoc, recordBytes_split hsplit] at htile
    obtain ⟨r, ys, rfl, hheader, hrest⟩ := dirBytes_header htile
    have hle : recLen < 2 ^ 16 := by
      have := h.recLen_le
      unfold headerSize at this
      omega
    have hr := recLen_of_header hheader hle
    unfold DirRecord.recLen at hr
    obtain ⟨hbody, hfree⟩ := List.append_inj hrest (by
      rw [List.length_append, List.length_replicate]
      omega)
    obtain ⟨s, zs, rfl, hs, -⟩ := dirBytes_header hfree
    exact ⟨[r, s], zs, rfl, new_split h.toNameOk ⟨hge, h.recLen_le⟩ hsplit h.found_lt hheader ⟨_, hbody⟩ hs⟩
  · rw [linkBytes_whole hsplit, recordBytes_whole hsplit] at htile
    obtain ⟨r, ys, rfl, hheader, hrest⟩ := dirBytes_header htile
    have hlt := h.whole_lt hsplit
    have hr := recLen_of_header hheader hlt
    unfold DirRecord.recLen at hr
    have hbody : name <+: r.body := by
      apply List.prefix_of_prefix_length_le _ (List.prefix_append r.body (dirBytes ys))
      · have := h.found_ge
        omega
      · rw [← hrest, List.append_assoc]
        exact List.prefix_append ..
    exact ⟨[r], ys, rfl, new_whole h.toNameOk hlt hsplit hheader hbody⟩

/-- If the directory is long enough, what has been written begins the new record, and the free one after it. -/
theorem Found.exists_new (h : Found c t recLen found name)
    (hlen : found ≤ (linkBytes c t recLen found name ++ rest).length) :
    ∃ news, New c t recLen found name news ∧ dirBytes news = (linkBytes c t recLen found name ++ rest).take found := by
  have hge := h.recLen_ge
  have hfound := h.found_ge
  have hname : name.length < 2 ^ 8 := Nat.lt_succ_of_le h.length
  have hpad : (name ++ List.replicate (recLen - name.length - headerSize) (0 : UInt8)).length = recLen - headerSize := by
    rw [List.length_append, List.length_replicate]
    omega
  by_cases hsplit : Splits recLen found
  · rw [linkBytes_split hsplit, List.append_assoc, recordBytes_split hsplit] at hlen ⊢
    have hle : headerSize + (name ++ List.replicate (recLen - name.length - headerSize) (0 : UInt8)).length = recLen := by omega
    have hrest : headerSize + (rest.take (found - recLen - headerSize)).length = found - recLen := by
      simp only [List.length_append, length_headerBytes, List.length_take] at hlen hpad ⊢
      unfold Splits headerSize at *
      omega
    obtain ⟨r, hheader, hbody⟩ := exists_record (name ++ List.replicate (recLen - name.length - headerSize) (0 : UInt8))
      h.cluster.2 (by
        have := h.recLen_le
        unfold headerSize at *
        omega) hname h.type
    obtain ⟨s, hfree, hbody'⟩ := exists_record (i := 0) (l := 0) (t := 0) (rest.take (found - recLen - headerSize))
      (by decide) (by
        rw [hrest]
        exact h.found_lt) (by decide) (by decide)
    rw [hle] at hheader
    rw [hrest] at hfree
    have hnew := new_split h.toNameOk ⟨hge, h.recLen_le⟩ hsplit h.found_lt hheader ⟨_, hbody.symm⟩ hfree
    refine ⟨[r, s], hnew, hnew.eq_take ⟨rest.drop (found - recLen - headerSize), ?_⟩⟩
    simp only [dirBytes_cons, dirBytes_nil, DirRecord.bytes, hheader, hbody, hfree, hbody', List.append_assoc, List.nil_append,
      List.take_append_drop]
  · rw [linkBytes_whole hsplit, recordBytes_whole hsplit] at hlen ⊢
    have hbody := List.length_take_of_le (show found - headerSize ≤
        (name ++ List.replicate (recLen - name.length - headerSize) 0 ++ rest).length by
      rw [List.length_append, length_headerBytes] at hlen
      omega)
    have hle : headerSize + ((name ++ List.replicate (recLen - name.length - headerSize) 0 ++ rest).take
        (found - headerSize)).length = found := by omega
    have hlt := h.whole_lt hsplit
    obtain ⟨r, hheader, hbody'⟩ := exists_record _ h.cluster.2 (by rwa [hle]) hname h.type
    rw [hle] at hheader
    have hprefix : name <+: r.body := by
      rw [hbody']
      apply List.prefix_of_prefix_length_le _ (List.take_prefix ..) (by omega)
      rw [List.append_assoc]
      exact List.prefix_append ..
    have hnew := new_whole h.toNameOk hlt hsplit hheader hprefix
    refine ⟨[r], hnew, hnew.eq_take ⟨(name ++ List.replicate (recLen - name.length - headerSize) 0 ++ rest).drop
      (found - headerSize), ?_⟩⟩
    simp only [dirBytes_cons, dirBytes_nil, DirRecord.bytes, hheader, hbody', List.append_nil, List.append_assoc,
      List.take_append_drop]

/-- The entries are as before but for one more, of the given file. -/
def Gains (c t : ℕ) (name : List UInt8) (es es' : List DirEntry) : Prop :=
  ∃ e l l', e.inode = c ∧ e.type = t ∧ e.name = name ∧ es = l ++ l' ∧ es' = l ++ e :: l'

/-- The space that the search has found is free where the new record is written, after the records `before` and in
place of the first of `after`: it is in the directory, or just as long as is needed, and what comes after it are the
records of the entries that are to be there. All of them can be read by `do_readdir`. -/
structure Fits (before after : List DirRecord) (c t recLen found : ℕ) (name : List UInt8) : Prop where
  short : ∀ r ∈ before, r.Short
  last : lastLength recLen found ≤ headerSize + 256
  inside : found ≤ (dirBytes after).length ∨ found = recLen
  rest : ∃ ys, (∀ r ∈ ys, r.Short) ∧ (dirBytes after).drop found = dirBytes ys ∧
    Gains c t name (entries (before ++ after)) (entries before ++ newEntry c t recLen found name :: entries ys)

theorem spliced_dirBytes (before after : List DirRecord) (bytes : List UInt8) :
    spliced (dirBytes (before ++ after)) (dirBytes before).length bytes =
      dirBytes before ++ (bytes ++ (dirBytes after).drop bytes.length) := by
  rw [spliced_inside (by rw [dirBytes_append, List.length_append]; exact Nat.le_add_right ..), dirBytes_append, List.take_left,
    ← List.drop_drop, List.drop_left, List.append_assoc]

theorem Found.length_linkBytes (h : Found c t recLen found name) : (linkBytes c t recLen found name).length ≤ found ∧
    (found ≤ (linkBytes c t recLen found name).length ↔ found = recLen) := by
  have hlen := length_recordBytes c t found h.recLen_ge
  have hge := h.found_ge
  by_cases hsplit : Splits recLen found
  · rw [linkBytes_split hsplit, List.length_append, hlen, length_headerBytes]
    unfold Splits headerSize at *
    omega
  · rw [linkBytes_whole hsplit, hlen]
    omega

/-- A directory can be read with the new entry exactly if the space that has been found fits. -/
theorem Found.tiles_iff (h : Found c t recLen found name) (before after : List DirRecord) :
    (∃ rs', spliced (dirBytes (before ++ after)) (dirBytes before).length (linkBytes c t recLen found name) = dirBytes rs' ∧
      (∀ r ∈ rs', r.Short) ∧ Gains c t name (entries (before ++ after)) (entries rs')) ↔
    Fits before after c t recLen found name := by
  obtain ⟨hle, hge⟩ := h.length_linkBytes
  rw [spliced_dirBytes]
  have hdrop : (linkBytes c t recLen found name ++ (dirBytes after).drop (linkBytes c t recLen found name).length).drop found =
      (dirBytes after).drop found := by
    rw [List.drop_append, List.drop_eq_nil_of_le hle, List.nil_append, List.drop_drop, Nat.add_sub_of_le hle]
  have hinside : found ≤ (linkBytes c t recLen found name ++
      (dirBytes after).drop (linkBytes c t recLen found name).length).length ↔
      found ≤ (dirBytes after).length ∨ found = recLen := by
    rw [List.length_append, List.length_drop, ← hge]
    omega
  constructor
  · rintro ⟨rs', htile, hshort, hgains⟩
    obtain ⟨zs, rfl, hzs⟩ := dirBytes_split htile
    obtain ⟨news, ys, rfl, hnew⟩ := h.written hzs
    rw [List.forall_mem_append, List.forall_mem_append] at hshort
    rw [dirBytes_append] at hzs
    have hlen : (linkBytes c t recLen found name ++ (dirBytes after).drop (linkBytes c t recLen found name).length).length =
        found + (dirBytes ys).length := by
      rw [hzs, List.length_append, hnew.length]
    have hys : (dirBytes after).drop found = dirBytes ys := by
      rw [← hdrop, hzs]
      exact List.drop_left' hnew.length
    refine ⟨hshort.1, hnew.short.mp hshort.2.1, hinside.mp (by omega), ys, hshort.2.2, hys, ?_⟩
    rwa [entries_append before (news ++ ys), entries_append news, hnew.entries] at hgains
  · intro hfits
    obtain ⟨ys, hshort, hys, hgains⟩ := hfits.rest
    obtain ⟨news, hnew, hnews⟩ := h.exists_new (hinside.mpr hfits.inside)
    refine ⟨before ++ (news ++ ys), ?_, ?_, ?_⟩
    · rw [dirBytes_append, dirBytes_append, hnews, ← hys, ← hdrop, List.take_append_drop]
    · rw [List.forall_mem_append, List.forall_mem_append]
      exact ⟨hfits.short, hnew.short.mpr hfits.last, hshort⟩
    · rwa [entries_append before (news ++ ys), entries_append news, hnew.entries]

theorem Gains.length {es es' : List DirEntry} (h : Gains c t name es es') : es'.length = es.length + 1 := by
  obtain ⟨e, l, l', -, -, -, rfl, rfl⟩ := h
  simp only [List.length_append, List.length_cons]
  omega

/-- A free record that is long enough by itself fits. -/
theorem fits_alone (hbefore : ∀ r ∈ before, r.Short) (hafter : ∀ r ∈ after, r.Short)
    (hfree : r.inode = 0) (hlast : lastLength recLen r.recLen ≤ headerSize + 256) :
    Fits before (r :: after) c t recLen r.recLen name where
  short := hbefore
  last := hlast
  inside := .inl (by
    rw [dirBytes_cons, List.length_append, r.length_bytes]
    exact Nat.le_add_right ..)
  rest := by
    refine ⟨after, hafter, ?_, newEntry c t recLen r.recLen name, entries before, entries after, rfl, rfl, rfl, ?_, rfl⟩
    · rw [dirBytes_cons]
      exact List.drop_left' r.length_bytes
    · rw [entries_append, entries_free hfree]

/-- What an insertion is to do: records still tile the directory, the entries are those from before and the new one, and
a walk over the directory finds them, as far as its reads can be made. -/
def Inserted (w : Volume) (f c t : ℕ) (name : List UInt8) (es : List DirEntry) : Prop :=
  ∃ y rs, FileOk w f y ∧ contents w f y = dirBytes rs ∧ (∀ r ∈ rs, r.Short) ∧ Gains c t name es (entries rs) ∧
    ∀ es', (∃ u, (readdirs f ((w.inode f).fileSize + 1)).run (w.setPointer f 0) = (.ok es', u)) ↔
      (w.setPointer f 0).ReadsPassable f (readSizes rs) ∧ es' = entries rs

theorem prefix_recordsBefore (v : Volume) (f recLen : ℕ) (pre rs : List DirRecord) :
    recordsBefore v f recLen pre rs <+: pre ++ rs := by
  unfold recordsBefore
  split
  · exact List.prefix_refl _
  · exact (List.prefix_append_right_inj pre).mpr (prefix_freeSpace ..)

/-- The records in whose place `leanfs_do_link` writes. -/
def recordsAfter (v : Volume) (f recLen : ℕ) (pre rs : List DirRecord) : List DirRecord :=
  (pre ++ rs).drop (recordsBefore v f recLen pre rs).length

theorem recordsBefore_append (v : Volume) (f recLen : ℕ) (pre rs : List DirRecord) :
    recordsBefore v f recLen pre rs ++ recordsAfter v f recLen pre rs = pre ++ rs :=
  List.prefix_iff_eq_append.mp (prefix_recordsBefore v f recLen pre rs)

theorem found_freeSpace (h : NameOk c t name) (rs : List DirRecord) :
    Found c t (recLenFor name) (freeSpace (recLenFor name) 0 rs).2 name := by
  obtain ⟨hge, hle⟩ := recLenFor_bounds h.length
  unfold headerSize at hge hle
  obtain ⟨hfound, hlt⟩ := freeSpace_bounds (show 0 < recLenFor name by omega) (by omega) rs
  exact ⟨h, hge, hle, hfound, hlt⟩

theorem fits_of_inserted {pre : List DirRecord} (h : FileOk v f x) (hdir : contents v f x = dirBytes (pre ++ rs))
    (hpointer : (v.files f).filePointer = (dirBytes pre).length) (hname : NameOk c t name)
    (hspace : v.SpaceFor x (dirBytes (recordsBefore v f (recLenFor name) pre rs)).length
      (linkBytes c t (recLenFor name) (freeSpace (recLenFor name) 0 rs).2 name).length)
    (hrun : (leanfsDoLink f c t name).run v = (.ok (), w)) (hin : Inserted w f c t name (entries (pre ++ rs))) :
    Fits (recordsBefore v f (recLenFor name) pre rs) (recordsAfter v f (recLenFor name) pre rs) c t (recLenFor name)
      (freeSpace (recLenFor name) 0 rs).2 name := by
  obtain ⟨y, hok, -, -, hcontents⟩ := leanfsDoLink_ok h hdir hpointer hspace hrun
  obtain ⟨z, rs', hz, hbytes, hshort, hgains, -⟩ := hin
  obtain rfl := hok.laid.unique hz.laid hok.sound.geo.iclusterCount_pos
  rw [← (found_freeSpace hname rs).tiles_iff, recordsBefore_append, ← hcontents]
  exact ⟨rs', hbytes, hshort, hgains⟩

/-- When `leanfs_do_link` returns 0, it has done what it is to do exactly if the space that it has found fits. -/
theorem leanfsDoLink_inserted_iff {pre : List DirRecord} (h : FileOk v f x) (hdir : contents v f x = dirBytes (pre ++ rs))
    (hpointer : (v.files f).filePointer = (dirBytes pre).length) (hname : NameOk c t name)
    (hspace : v.SpaceFor x (dirBytes (recordsBefore v f (recLenFor name) pre rs)).length
      (linkBytes c t (recLenFor name) (freeSpace (recLenFor name) 0 rs).2 name).length)
    (hrun : (leanfsDoLink f c t name).run v = (.ok (), w)) :
    Inserted w f c t name (entries (pre ++ rs)) ↔ Fits (recordsBefore v f (recLenFor name) pre rs)
      (recordsAfter v f (recLenFor name) pre rs) c t (recLenFor name) (freeSpace (recLenFor name) 0 rs).2 name := by
  constructor
  · exact fits_of_inserted h hdir hpointer hname hspace hrun
  · intro hfits
    obtain ⟨y, hok, hr, -, hcontents⟩ := leanfsDoLink_ok h hdir hpointer hspace hrun
    obtain ⟨rs', hbytes, hshort, hgains⟩ := ((found_freeSpace hname rs).tiles_iff _ _).mpr hfits
    rw [recordsBefore_append, ← hcontents] at hbytes
    rw [recordsBefore_append] at hgains
    refine ⟨y, rs', hok, hbytes, hshort, hgains, fun es' => ?_⟩
    have hst := Stamped.setPointer f 0 w
    have hread : Reading f y (w.setPointer f 0) (dirBytes rs') := by
      refine ⟨hst.fileOk hok, isReadable_of_framed hst.framed hr, ?_⟩
      rw [hst.contents, setPointer_pointer, List.drop_zero, hbytes]
    have hlen := hread.length_lt
    rw [setPointer_inode] at hlen
    exact readdirs_iff hread hshort hlen es'

/-- A live record of one file and free ones before it: one of 24 bytes, or two of 12 bytes. -/
def sampleRecords (adjacent : Bool) : List DirRecord :=
  let live : DirRecord := ⟨7, 1, 1, [98, 0, 0, 0], by decide, by decide, by decide, by decide⟩
  let free (k : ℕ) (hk : headerSize + (List.replicate k (0 : UInt8)).length < 2 ^ 16) : DirRecord :=
    ⟨0, 0, 0, List.replicate k 0, by decide, hk, by decide, by decide⟩
  if adjacent then [free 4 (by decide), free 4 (by decide), live] else [free 16 (by decide), live]

/-- The volume of `sampleVolume` with a directory of one cluster for its file. -/
def sampleDir (adjacent : Bool) : Volume :=
  let v := sampleVolume false
  { v with
    freeClustersCount := 26
    clusters := fun c => if c = 2 then setWord 0 63 fun _ => 0 else overlay inodeSize (dirBytes (sampleRecords adjacent)) fun _ => 0
    pfiles := fun _ => { v.pfiles 0 with
      inode := fun j => if j = 0 then 36 else if j = 8 then 1 else if j = 91 then 0x20 else 0 } }

def sampleDirNode : Node := { cells := [5], ptrs := [] }

theorem sampleDir_laid (adjacent : Bool) : Laid (sampleDir adjacent) 0 sampleDirNode where
  count := by
    revert adjacent
    decide
  first := rfl
  direct n k hn hk := by
    have hlt : n + 1 < 1 := (List.getElem?_eq_some_iff.mp hk).1
    omega
  head k hk := by
    cases hk
  next j k k' hk hk' := by
    cases hk
  indirect j n k k' hk hn hk' := by
    cases hk
  numPtrs j := by
    change j < 0 ↔ 16 + _ < 1
    omega

theorem sampleDir_fileOk (adjacent : Bool) : FileOk (sampleDir adjacent) 0 sampleDirNode where
  sound := by
    constructor
    · constructor
      · revert adjacent
        decide
      · revert adjacent
        decide
      · intro k hk
        have hk : k < 32 := hk
        change k / (2 ^ 9 * 8) + 2 < 4
        omega
      · revert adjacent
        decide
      · revert adjacent
        decide
    · exact List.reverse_perm _
    · revert adjacent
      decide +kernel
    · revert adjacent
      decide +kernel
  laid := sampleDir_laid adjacent
  owned := by
    constructor
    · decide
    · revert adjacent
      decide
    · revert adjacent
      decide +kernel
  cursor := .inl rfl
  room := by
    revert adjacent
    decide

def sampleName : List UInt8 := [110, 101, 119, 46, 116, 101, 120, 116]

theorem sampleName_ok : NameOk 9 0 sampleName := by
  constructor <;> decide

theorem sampleDir_run (adjacent : Bool) :
    (leanfsDoLink 0 9 0 sampleName).run (sampleDir adjacent) =
      (.ok (), ((leanfsDoLink 0 9 0 sampleName).run (sampleDir adjacent)).2) := by
  have hok : ((leanfsDoLink 0 9 0 sampleName).run (sampleDir adjacent)).1 = .ok () := by
    revert adjacent
    decide +kernel
  rw [← hok]

/-- In a free record that is long enough a new one is made, and a free one of what is left over. -/
theorem leanfsDoLink_inserted_sample : Inserted ((leanfsDoLink 0 9 0 sampleName).run (sampleDir false)).2 0 9 0 sampleName
    (entries (sampleRecords false)) :=
  (leanfsDoLink_inserted_iff (sampleDir_fileOk false)
    (show contents (sampleDir false) 0 sampleDirNode = dirBytes ([] ++ sampleRecords false) by decide +kernel) (by decide)
    sampleName_ok (by decide +kernel) (sampleDir_run false)).mpr
    (fits_alone (List.forall_mem_nil DirRecord.Short) (by decide) (by decide) (by decide))

/-- Of two free records that are long enough together, the second one is written to, and the live record after them. -/
theorem leanfsDoLink_not_inserted : ¬∀ (v w : Volume) (f : ℕ) (x : Node) (pre rs : List DirRecord) (c t : ℕ) (name : List UInt8),
    FileOk v f x → contents v f x = dirBytes (pre ++ rs) → (v.files f).filePointer = (dirBytes pre).length →
    NameOk c t name → v.SpaceFor x (dirBytes (recordsBefore v f (recLenFor name) pre rs)).length
      (linkBytes c t (recLenFor name) (freeSpace (recLenFor name) 0 rs).2 name).length →
    (leanfsDoLink f c t name).run v = (.ok (), w) → Inserted w f c t name (entries (pre ++ rs)) := by
  intro h
  have hspace : (sampleDir true).SpaceFor sampleDirNode
      (dirBytes (recordsBefore (sampleDir true) 0 (recLenFor sampleName) [] (sampleRecords true))).length
      (linkBytes 9 0 (recLenFor sampleName) (freeSpace (recLenFor sampleName) 0 (sampleRecords true)).2 sampleName).length := by
    decide +kernel
  have hdir : contents (sampleDir true) 0 sampleDirNode = dirBytes ([] ++ sampleRecords true) := by decide +kernel
  have hin := h _ _ 0 sampleDirNode [] (sampleRecords true) 9 0 sampleName (sampleDir_fileOk true) hdir (by decide) sampleName_ok
    hspace (sampleDir_run true)
  obtain ⟨-, -, -, ys, -, hdrop, hgains⟩ :=
    fits_of_inserted (sampleDir_fileOk true) hdir (by decide) sampleName_ok hspace (sampleDir_run true) hin
  -- nothing of the old directory follows what has been written, so the live record is lost
  have hys : ys = [] := by
    have hle := length_le_dirBytes ys
    rw [← hdrop] at hle
    exact List.length_eq_zero_iff.mp (Nat.le_zero.mp hle)
  have hlen := hgains.length
  subst hys
  revert hlen
  decide

end FreeDos32.Leanfs
