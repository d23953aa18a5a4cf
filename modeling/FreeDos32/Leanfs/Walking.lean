import FreeDos32.Leanfs.Records
import FreeDos32.Leanfs.Writing

namespace FreeDos32.Leanfs

open Prog

variable {v w u : Volume} {x : Node} {rs : List DirRecord} {r : DirRecord} {bytes rest : List UInt8} {f n pos : ℕ}

/-- A file has been looked at: its bytes are the same, and so is whatever else a write depends on. -/
structure Looked (f : ℕ) (x : Node) (v w : Volume) : Prop where
  ok : FileOk w f x
  contents : contents w f x = contents v f x
  frame : Framed f v w
  inode : (w.inode f).Alike (v.inode f)
  numFree : w.numFree = v.numFree

theorem Looked.trans (h : Looked f x v w) (h' : Looked f x w u) : Looked f x v u where
  ok := h'.ok
  contents := h'.contents.trans h.contents
  frame := h.frame.trans h'.frame
  inode := h'.inode.trans h.inode
  numFree := h'.numFree.trans h.numFree

theorem Looked.of_stamped (h : FileOk v f x) (hs : Stamped f v w) : Looked f x v w :=
  ⟨hs.fileOk h, hs.contents x, hs.framed, hs.inode, hs.numFree⟩

theorem ReadTo.looked (h : ReadTo v f x pos w) : Looked f x v w := by
  obtain ⟨u, hm, hs⟩ := h.step
  refine ⟨h.ok, (hs.contents x).trans (hm.contents x), (Framed.of_moved hm).trans hs.framed, ?_, hs.numFree.trans hm.numFree⟩
  have := hs.inode
  rwa [hm.inode] at this

/-- An open file that can be read, with the bytes from the file pointer on. -/
structure Reading (f : ℕ) (x : Node) (v : Volume) (bytes : List UInt8) : Prop where
  ok : FileOk v f x
  readable : (v.files f).isReadable = true
  bytes : (contents v f x).drop (v.files f).filePointer = bytes

theorem Reading.length (h : Reading f x v bytes) : (v.inode f).fileSize - (v.files f).filePointer = bytes.length := by
  rw [← h.bytes, List.length_drop, length_contents]

/-- Reads bytes that there are, or all if there are not so many. -/
theorem Reading.read (h : Reading f x v (bytes ++ rest)) (hn : bytes.length = n ∨ bytes.length < n ∧ rest = [])
    (hp : v.ReadPassable f n) : ∃ w, (leanfsRead f n).run v = (.ok bytes, w) ∧ Looked f x v w ∧ Reading f x w rest ∧
      (w.files f).filePointer = (v.files f).filePointer + bytes.length := by
  obtain ⟨w, hrun, hw⟩ := leanfsRead_run h.ok h.readable hp
  have hlen := h.length
  rw [List.length_append] at hlen
  have htake : (bytes ++ rest).take n = bytes := by
    rcases hn with rfl | ⟨hlt, rfl⟩
    · exact List.take_left
    · rw [List.append_nil, List.take_of_length_le (Nat.le_of_lt hlt)]
  have hmin : min ((v.inode f).fileSize - (v.files f).filePointer) n = bytes.length := by
    rcases hn with rfl | ⟨hlt, rfl⟩
    · omega
    · rw [List.length_nil] at hlen
      omega
  have hpointer := hw.pointer
  rw [hmin] at hpointer
  rw [h.bytes, htake] at hrun
  refine ⟨w, hrun, hw.looked, ⟨hw.ok, isReadable_of_framed hw.looked.frame h.readable, ?_⟩, hpointer⟩
  rw [hw.looked.contents, hpointer, ← List.drop_drop, h.bytes, List.drop_left]

/-- At the end of the file no bytes are read. -/
theorem Reading.read_end (h : Reading f x v []) (hn : 0 < n) (hp : v.ReadPassable f n) :
    ∃ w, (leanfsRead f n).run v = (.ok [], w) ∧ Looked f x v w := by
  have hnil : Reading f x v ([] ++ []) := h
  obtain ⟨w, hrun, hl, -⟩ := hnil.read (.inr ⟨hn, rfl⟩) hp
  exact ⟨w, hrun, hl⟩

/-- Whether reads of the given sizes can be made one after the other. -/
def Volume.ReadsPassable (f : ℕ) : List ℕ → Volume → Prop
  | [], _ => True
  | n :: ns, v => v.ReadPassable f n ∧ ((leanfsRead f n).run v).2.ReadsPassable f ns

instance instDecidableReadsPassable (f : ℕ) : ∀ ns v, Decidable (Volume.ReadsPassable f ns v)
  | [], _ => inferInstanceAs (Decidable True)
  | _ :: ns, v =>
    have := instDecidableReadsPassable f ns
    inferInstanceAs (Decidable (v.ReadPassable f _ ∧ Volume.ReadsPassable f ns _))

/-- The sizes of the reads that a walk over a directory makes. -/
def readSizes (rs : List DirRecord) : List ℕ := rs.flatMap (fun r => [headerSize, r.body.length]) ++ [headerSize]

theorem readSizes_cons (r : DirRecord) (rs : List DirRecord) :
    readSizes (r :: rs) = headerSize :: r.body.length :: readSizes rs := rfl

/-- Calls `do_readdir` up to the end of the directory. -/
def readdirs (dir : ℕ) : ℕ → LeanM (List DirEntry)
  | 0 => Prog.diverge
  | fuel + 1 => do
    let v ← Prog.state
    match ← (doReaddir dir ((v.inode dir).fileSize + 1)).attempt with
    | .ok de =>
      let rest ← readdirs dir fuel
      pure (de :: rest)
    | .error .enoent => pure []
    | .error e => Prog.fail e

/-- What `do_readdir` does in a directory that goes on with the given records. -/
inductive Readdir (f : ℕ) (x : Node) (rs : List DirRecord) (v : Volume) : Outcome Errno DirEntry × Volume → Prop
  | hang (w : Volume) (hno : ¬v.ReadsPassable f (readSizes rs)) : Readdir f x rs v (.hang, w)
  | last (w : Volume) (hnil : entries rs = []) (hp : v.ReadsPassable f (readSizes rs)) : Readdir f x rs v (.error .enoent, w)
  | next (w : Volume) (r : DirRecord) (ys : List DirRecord) (hcons : entries rs = r.entry :: entries ys)
      (hsuffix : ys <:+ rs) (hlt : ys.length < rs.length) (hread : Reading f x w (dirBytes ys))
      (hp : v.ReadsPassable f (readSizes rs) ↔ w.ReadsPassable f (readSizes ys)) : Readdir f x rs v (.ok r.entry, w)

theorem Reading.hang (h : Reading f x v bytes) (hp : ¬v.ReadPassable f n) : ∃ w, (leanfsRead f n).run v = (.hang, w) :=
  leanfsRead_hang h.ok h.readable hp

theorem Reading.passable_nil (h : Reading f x v []) (n : ℕ) : v.ReadPassable f n := by
  intro hne
  rw [h.length, List.length_nil, Nat.zero_min] at hne
  exact absurd rfl hne

/-- The two reads of a record. -/
theorem Reading.record (h : Reading f x v (r.bytes ++ rest)) (hp : v.ReadPassable f headerSize) :
    ∃ w, (leanfsRead f headerSize).run v = (.ok r.header, w) ∧ (w.ReadPassable f r.body.length →
      ∃ u, (leanfsRead f r.body.length).run w = (.ok r.body, u) ∧ Reading f x u rest) ∧
      (¬w.ReadPassable f r.body.length → ∃ u, (leanfsRead f r.body.length).run w = (.hang, u)) := by
  rw [DirRecord.bytes, List.append_assoc] at h
  obtain ⟨w, hrun, -, hw, -⟩ := h.read (.inl r.length_header) hp
  refine ⟨w, hrun, fun hp' => ?_, fun hno => hw.hang hno⟩
  obtain ⟨u, hrun', -, hu, -⟩ := hw.read (.inl rfl) hp'
  exact ⟨u, hrun', hu⟩

/-- A free record is passed over. -/
theorem Readdir.free {o : Outcome Errno DirEntry × Volume} (h : Readdir f x rs w o) (hfree : r.inode = 0)
    (hp : v.ReadsPassable f (readSizes (r :: rs)) ↔ w.ReadsPassable f (readSizes rs)) : Readdir f x (r :: rs) v o := by
  cases h with
  | hang u hno => exact .hang u (mt hp.mp hno)
  | last u hnil hpass =>
    apply Readdir.last u _ (hp.mpr hpass)
    rwa [entries_free hfree]
  | next u s ys hcons hsuffix hlt hread hpass =>
    apply Readdir.next u s ys _ (hsuffix.trans (List.suffix_cons ..)) (Nat.lt_succ_of_lt hlt) hread (hp.trans hpass)
    rwa [entries_free hfree]

theorem doReaddir_readdir (h : Reading f x v (dirBytes rs)) (hshort : ∀ r ∈ rs, r.Short) {fuel : ℕ} (hfuel : rs.length < fuel) :
    Readdir f x rs v ((doReaddir f fuel).run v) := by
  induction rs generalizing v fuel with
  | nil =>
    obtain ⟨fuel, rfl⟩ := Nat.exists_eq_succ_of_ne_zero (Nat.ne_of_gt hfuel)
    have hp := h.passable_nil headerSize
    obtain ⟨w, hrun, -⟩ := h.read_end (by decide) hp
    have hlast : (doReaddir f (fuel + 1)).run v = (.error .enoent, w) := by
      rw [doReaddir, run_bind_ok hrun]
      rfl
    rw [hlast]
    exact .last w rfl ⟨hp, trivial⟩
  | cons r rs ih =>
    obtain ⟨fuel, rfl⟩ := Nat.exists_eq_succ_of_ne_zero (Nat.ne_of_gt (Nat.zero_lt_of_lt hfuel))
    rw [dirBytes_cons] at h
    have hne : r.header ≠ [] := fun h0 => by
      have := r.length_header
      rw [h0] at this
      cases this
    have hlen : (DirEntry.ofBytes r.header []).recLen - headerSize = r.body.length := by
      rw [r.header_recLen, DirRecord.recLen, Nat.add_sub_cancel_left]
    have hge : ¬(DirEntry.ofBytes r.header []).recLen < headerSize := by
      rw [r.header_recLen, DirRecord.recLen]
      omega
    by_cases hp : v.ReadPassable f headerSize
    · obtain ⟨w, hrun, hbody, hstuck⟩ := h.record hp
      have hiff : v.ReadsPassable f (readSizes (r :: rs)) ↔
          w.ReadPassable f r.body.length ∧ ((leanfsRead f r.body.length).run w).2.ReadsPassable f (readSizes rs) := by
        rw [readSizes_cons, Volume.ReadsPassable, Volume.ReadsPassable, hrun]
        exact and_iff_right hp
      have hstart : (doReaddir f (fuel + 1)).run v = (do
          let body ← leanfsRead f r.body.length
          if 256 < body.length then Prog.diverge
          else if body.length ≠ r.body.length then Prog.fail .eio
          else
            let de := DirEntry.ofBytes r.header body
            if de.inode = 0 then doReaddir f fuel else pure de : LeanM DirEntry).run w := by
        rw [doReaddir, run_bind_ok hrun, if_neg hne, if_neg (not_not.mpr r.length_header)]
        dsimp only
        rw [if_neg hge, hlen]
      rw [hstart]
      by_cases hp' : w.ReadPassable f r.body.length
      · obtain ⟨u, hrun', hu⟩ := hbody hp'
        rw [hrun', and_iff_right hp'] at hiff
        rw [run_bind_ok hrun', if_neg (Nat.not_lt.mpr (hshort r List.mem_cons_self)), if_neg (not_not.mpr rfl)]
        dsimp only
        rw [r.header_inode]
        by_cases hfree : r.inode = 0
        · rw [if_pos hfree]
          exact (ih hu (fun s hs => hshort s (.tail r hs)) (Nat.lt_of_succ_lt_succ hfuel)).free hfree hiff
        · rw [if_neg hfree]
          exact .next u r rs (entries_live hfree rs) (List.suffix_cons r rs) (Nat.lt_succ_self _) hu hiff
      · obtain ⟨u, hrun'⟩ := hstuck hp'
        rw [run_bind_hang hrun']
        exact .hang u fun hpass => hp' (hiff.mp hpass).1
    · obtain ⟨w, hrun⟩ := h.hang hp
      rw [doReaddir, run_bind_hang hrun]
      exact .hang w fun hpass => hp hpass.1

theorem Reading.length_lt (h : Reading f x v (dirBytes rs)) : rs.length < (v.inode f).fileSize + 1 := by
  have hle := length_le_dirBytes rs
  rw [← h.length] at hle
  omega

/-- A walk over a directory finds its entries one after the other, as long as its reads can be made. -/
theorem readdirs_iff (h : Reading f x v (dirBytes rs)) (hshort : ∀ r ∈ rs, r.Short) {fuel : ℕ} (hfuel : rs.length < fuel)
    (es : List DirEntry) : (∃ w, (readdirs f fuel).run v = (.ok es, w)) ↔ v.ReadsPassable f (readSizes rs) ∧ es = entries rs := by
  induction fuel generalizing v rs es with
  | zero => omega
  | succ fuel ih =>
    have hout := doReaddir_readdir h hshort h.length_lt
    have hstart : (readdirs f (fuel + 1)).run v = ((doReaddir f ((v.inode f).fileSize + 1)).attempt >>= fun res => match res with
        | .ok de => readdirs f fuel >>= fun rest => pure (de :: rest)
        | .error .enoent => pure []
        | .error e => Prog.fail e).run v := rfl
    rw [hstart]
    generalize hrun : (doReaddir f ((v.inode f).fileSize + 1)).run v = o at hout
    cases hout with
    | hang w hno =>
      rw [run_bind_hang (t := w) (by simp only [attempt, hrun])]
      constructor
      · rintro ⟨u, hu⟩
        cases congrArg Prod.fst hu
      · exact fun hp => absurd hp.1 hno
    | last w hnil hp =>
      rw [run_bind_ok (run_attempt_error hrun), hnil]
      constructor
      · rintro ⟨u, hu⟩
        exact ⟨hp, (Outcome.ok.inj (congrArg Prod.fst hu)).symm⟩
      · rintro ⟨-, rfl⟩
        exact ⟨w, rfl⟩
    | next w r ys hcons hsuffix hlt hread hp =>
      have hys := ih hread (fun s hs => hshort s (hsuffix.mem hs)) (by omega)
      rw [run_bind_ok (run_attempt_ok hrun), hcons, hp]
      dsimp only
      constructor
      · rintro ⟨u, hu⟩
        obtain ⟨rest, t, hrest, hu⟩ := exists_of_bind_ok hu
        obtain ⟨hpass, rfl⟩ := (hys rest).mp ⟨t, hrest⟩
        exact ⟨hpass, (Outcome.ok.inj (congrArg Prod.fst hu)).symm⟩
      · rintro ⟨hpass, rfl⟩
        obtain ⟨u, hu⟩ := (hys _).mpr ⟨hpass, rfl⟩
        exact ⟨u, by rw [run_bind_ok hu]; rfl⟩

end FreeDos32.Leanfs
