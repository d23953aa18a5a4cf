import FreeDos32.Leanfs.Append
import FreeDos32.Leanfs.Contents

namespace FreeDos32.Leanfs

open Prog
open Fat (overlay overlay_of_lt overlay_of_ge overlay_at)

variable {v w u : Volume} {x y z : Node} {b : BufPtr} {bytes bytes' : List UInt8} {c d f i k m n s lo hi pos size : ℕ}

/-- The file with its size at least `n`. -/
def Volume.grow (f n : ℕ) (v : Volume) : Volume :=
  if (v.inode f).fileSize ≤ n then v.setInode f (Inode.setFileSize n) else v

theorem fileSize_setFileSize (hn : n < 2 ^ 64) (i : Inode) : (i.setFileSize n).fileSize = n := by
  have hhigh : n / 2 ^ 32 < 2 ^ 32 := Nat.div_lt_of_lt_mul (by omega)
  rw [Inode.fileSize, Inode.setFileSize, word_setWord_ne (by decide), word_setWord_self, word_setWord_of_lt hhigh]
  exact Nat.mod_add_div ..

theorem setFileSize_word (hk : 2 ≤ k) (n : ℕ) (i : Inode) : word (i.setFileSize n) k = word i k := by
  rw [Inode.setFileSize, word_setWord_ne (by omega), word_setWord_ne (by omega)]

theorem grow_cases (v : Volume) (f n : ℕ) : v.grow f n = v ∧ n < (v.inode f).fileSize ∨
    v.grow f n = v.setInode f (Inode.setFileSize n) ∧ (v.inode f).fileSize ≤ n := by
  by_cases h : (v.inode f).fileSize ≤ n
  · exact .inr ⟨if_pos h, h⟩
  · exact .inl ⟨if_neg h, Nat.lt_of_not_le h⟩

theorem grow_fileSize (hn : n < 2 ^ 64) : ((v.grow f n).inode f).fileSize = max (v.inode f).fileSize n := by
  rcases grow_cases v f n with ⟨he, hlt⟩ | ⟨he, hle⟩
  · rw [he]
    omega
  · rw [he, setInode_inode, fileSize_setFileSize hn]
    omega

theorem grow_word (hk : 2 ≤ k) (v : Volume) (f n : ℕ) : word ((v.grow f n).inode f) k = word (v.inode f) k := by
  rcases grow_cases v f n with ⟨he, -⟩ | ⟨he, -⟩
  · rw [he]
  · rw [he, setInode_inode]
    exact setFileSize_word hk ..

theorem grow_eq (v : Volume) (f n : ℕ) : ∃ pfiles, v.grow f n = { v with pfiles := pfiles } ∧
    ∀ k, (pfiles k).firstCluster = (v.pfiles k).firstCluster := by
  rcases grow_cases v f n with ⟨he, -⟩ | ⟨he, -⟩
  · exact ⟨v.pfiles, he, fun _ => rfl⟩
  · exact ⟨_, he, setInode_firstCluster v f _⟩

theorem FileOk.grow (h : FileOk v f x) (hn : n + inodeSize ≤ x.cells.length * v.clusterBytes) (hlt : n < 2 ^ 64) :
    FileOk (v.grow f n) f x := by
  have hsize := grow_fileSize (v := v) (f := f) hlt
  have hword := fun k (hk : 2 ≤ k) => grow_word hk v f n
  obtain ⟨p, he, hfirst⟩ := grow_eq v f n
  rw [he] at hsize hword ⊢
  have hs := h.sound
  have hl : Links ({ v with pfiles := p } : Volume) f x := by
    apply h.laid.toLinks.congr
    · exact fun k _ => hword _ (by omega)
    · exact hword _ (by decide)
    · exact hfirst _
    · rfl
    · exact fun _ _ => rfl
  refine ⟨⟨⟨hs.geo.log, hs.geo.count, hs.geo.bitmap, hs.geo.root, hs.geo.device⟩, hs.buffers, hs.system, hs.accounted⟩,
    ⟨hl, (hword 2 (Nat.le_refl 2)).trans h.laid.count, h.laid.numPtrs⟩, ⟨h.owned.nodup, h.owned.area, h.owned.allocated⟩,
    h.cursor, ?_⟩
  have hroom := h.room
  rw [hsize]
  change max _ n + inodeSize ≤ x.cells.length * v.clusterBytes
  omega

/-- Bytes are stored in a cluster of the file. -/
theorem FileOk.setCluster (h : FileOk v f x) (hc : x.cells[i]? = some c) (g : (ℕ → UInt8) → ℕ → UInt8) :
    FileOk (v.setCluster c g) f x := by
  have hroot := (h.owned.area c (List.mem_append_left _ (List.mem_of_getElem? hc))).1
  refine ⟨h.sound.setCluster hroot g, ⟨?_, h.laid.count, h.laid.numPtrs⟩, h.owned.setCluster h.sound.geo hroot g, h.cursor,
    h.room⟩
  apply Links.congr (w := v.setCluster c g) h.laid.toLinks (fun _ _ => rfl) rfl rfl rfl
  intro k hk
  apply setCluster_clusters_ne
  rintro rfl
  exact h.owned.not_ptr hc hk

theorem FileOk.size_lt (h : FileOk v f x) (hn : n + inodeSize ≤ x.cells.length * v.clusterBytes) : n < 2 ^ 64 := by
  have hcells := h.owned.length_cells_lt h.sound
  have hmul := Nat.mul_le_mul_right v.clusterBytes (Nat.le_of_lt hcells)
  have := h.sound.geo.clusterBytes
  omega

/-- The bytes of a file from `pos` on have been replaced, and the file is long enough for them. -/
structure Wrote (v : Volume) (f : ℕ) (x : Node) (pos : ℕ) (bytes : List UInt8) (w : Volume) (y : Node) : Prop where
  ok : FileOk w f y
  frame : Framed f v w
  grown : ∃ l, y.cells = x.cells ++ l
  length : y.cells.length = max x.cells.length (v.clusterIndex (pos + bytes.length - 1) + 1)
  size : (w.inode f).fileSize = max (v.inode f).fileSize (pos + bytes.length)
  inside : ∀ j < bytes.length, w.fileByte y (pos + j) = bytes.getD j 0
  outside : ∀ p, p + inodeSize < x.cells.length * v.clusterBytes → p < pos ∨ pos + bytes.length ≤ p →
    w.fileByte y p = v.fileByte x p
  numFree : w.numFree + y.all.length = v.numFree + x.all.length

theorem Framed.clusterIndex (h : Framed f v w) (pos : ℕ) : w.clusterIndex pos = v.clusterIndex pos := by
  rw [Volume.clusterIndex, h.clusterBytes]
  rfl

theorem isReadable_of_framed (h : Framed f v w) (hr : (v.files f).isReadable = true) : (w.files f).isReadable = true := by
  rw [File.isReadable, h.flags]
  exact hr

theorem Wrote.trans (h : Wrote v f x pos bytes w y) (h' : Wrote w f y (pos + bytes.length) bytes' u z) :
    Wrote v f x pos (bytes ++ bytes') u z where
  ok := h'.ok
  frame := h.frame.trans h'.frame
  grown := by
    obtain ⟨l, hl⟩ := h.grown
    obtain ⟨l', hl'⟩ := h'.grown
    exact ⟨l ++ l', by rw [hl', hl, List.append_assoc]⟩
  length := by
    have hmono : v.clusterIndex (pos + bytes.length - 1) ≤ v.clusterIndex (pos + (bytes.length + bytes'.length) - 1) :=
      clusterIndex_mono (by omega)
    rw [h'.length, h.length, h.frame.clusterIndex, List.length_append, ← Nat.add_assoc]
    rw [← Nat.add_assoc] at hmono
    omega
  size := by
    rw [h'.size, h.size, List.length_append]
    omega
  inside j hj := by
    rw [List.length_append] at hj
    have hroom := h.ok.room
    rw [h.size] at hroom
    by_cases hlt : j < bytes.length
    · rw [h'.outside (pos + j) (by omega) (.inl (by omega)), h.inside j hlt, List.getD_append _ _ _ _ hlt]
    · have hge := Nat.le_of_not_lt hlt
      have := h'.inside (j - bytes.length) (by omega)
      rw [show pos + bytes.length + (j - bytes.length) = pos + j by omega] at this
      rw [this, List.getD_append_right _ _ _ _ hge]
  outside p hp hout := by
    rw [List.length_append] at hout
    have hle : x.cells.length ≤ y.cells.length := by
      rw [h.length]
      exact Nat.le_max_left ..
    have hp' : p + inodeSize < y.cells.length * w.clusterBytes := by
      rw [h.frame.clusterBytes]
      exact Nat.lt_of_lt_of_le hp (Nat.mul_le_mul_right _ hle)
    rw [h'.outside p hp' (by omega), h.outside p hp (by omega)]
  numFree := by rw [h'.numFree, h.numFree]

/-- The volume after bytes have been stored in the cluster at `c`, which is in buffer `s`. -/
def Volume.stored (v : Volume) (f pos : ℕ) (bytes : List UInt8) (s c : ℕ) : Volume :=
  ((v.grow f (pos + bytes.length)).useBuffer s c).setCluster c (overlay ((pos + inodeSize) % v.clusterBytes) bytes)

theorem stored_eq (v : Volume) (f pos : ℕ) (bytes : List UInt8) (s c : ℕ) : ∃ pfiles, v.stored f pos bytes s c =
    ({ v with pfiles := pfiles }.useBuffer s c).setCluster c (overlay ((pos + inodeSize) % v.clusterBytes) bytes) := by
  obtain ⟨p, he, -⟩ := grow_eq v f (pos + bytes.length)
  exact ⟨p, by rw [Volume.stored, he]⟩

theorem stored_inode (v : Volume) (f pos : ℕ) (bytes : List UInt8) (s c : ℕ) :
    (v.stored f pos bytes s c).inode f = (v.grow f (pos + bytes.length)).inode f := by
  simp only [Volume.inode, Volume.stored, Volume.setCluster, Volume.useBuffer]

theorem stored_fileByte (x : Node) (k : ℕ) : (v.stored f pos bytes s c).fileByte x k =
    if x.cells.getD (v.clusterIndex k) 0 = c
    then overlay ((pos + inodeSize) % v.clusterBytes) bytes (v.clusters c) ((k + inodeSize) % v.clusterBytes)
    else v.fileByte x k := by
  obtain ⟨p, he⟩ := stored_eq v f pos bytes s c
  have hcb : (v.stored f pos bytes s c).clusterBytes = v.clusterBytes := by
    rw [he]
    rfl
  have hcl : ∀ d, (v.stored f pos bytes s c).clusters d =
      if d = c then overlay ((pos + inodeSize) % v.clusterBytes) bytes (v.clusters d) else v.clusters d := by
    rw [he]
    exact fun _ => rfl
  rw [Volume.fileByte, Volume.clusterIndex, hcb, hcl]
  change (if x.cells.getD (v.clusterIndex k) 0 = c then overlay _ bytes _ else v.clusters _ : ℕ → UInt8) _ = _
  by_cases hd : x.cells.getD (v.clusterIndex k) 0 = c
  · rw [if_pos hd, if_pos hd]
    exact congrArg (fun d => overlay _ bytes (v.clusters d) _) hd
  · rw [if_neg hd, if_neg hd]
    rfl

/-- The last byte of those to store is in the same cluster as the first. -/
theorem stored_end (hc : v.clusterIndex pos < x.cells.length)
    (hin : (pos + inodeSize) % v.clusterBytes + n ≤ v.clusterBytes) : pos + n + inodeSize ≤ x.cells.length * v.clusterBytes := by
  have hdiv := Nat.div_add_mod' (pos + inodeSize) v.clusterBytes
  have hmul := Nat.mul_le_mul_right v.clusterBytes (Nat.succ_le_of_lt hc)
  rw [Nat.succ_mul, Volume.clusterIndex] at hmul
  omega

theorem stored_wrote (h : FileOk v f x) (hc : x.cells[v.clusterIndex pos]? = some c) (hn : 0 < bytes.length)
    (hin : (pos + inodeSize) % v.clusterBytes + bytes.length ≤ v.clusterBytes) (hs : s < numBuffers) :
    Wrote v f x pos bytes (v.stored f pos bytes s c) x := by
  have hpos := h.sound.geo.clusterBytes_pos
  have hlt := (List.getElem?_eq_some_iff.mp hc).1
  have hend := stored_end hlt hin
  have hsize := h.size_lt hend
  have hgrow := h.grow hend hsize
  obtain ⟨p, he, -⟩ := grow_eq v f (pos + bytes.length)
  have hcell : x.cells.getD (v.clusterIndex pos) 0 = c := by rw [List.getD_eq_getElem?_getD, hc, Option.getD_some]
  have hplace : ∀ j < bytes.length, v.clusterIndex (pos + j) = v.clusterIndex pos ∧
      (pos + j + inodeSize) % v.clusterBytes = (pos + inodeSize) % v.clusterBytes + j := fun j hj => by
    have := chunk_place (o := pos + inodeSize) (j := j) hpos (by omega)
    rwa [Nat.add_right_comm] at this
  refine ⟨?_, ?_, ⟨[], (List.append_nil _).symm⟩, ?_, ?_, fun j hj => ?_, fun q hq hout => ?_, ?_⟩
  · apply FileOk.setCluster _ hc
    exact hgrow.moved (Moved.useBuffer ..) (hgrow.sound.buffers.useBuffer hs c) hgrow.cursor
  · unfold Volume.stored
    rw [he]
    exact .of_files rfl ⟨rfl, rfl, rfl, rfl⟩
  · have hlast := (hplace (bytes.length - 1) (by omega)).1
    rw [Nat.add_sub_assoc hn, hlast]
    omega
  · rw [stored_inode]
    exact grow_fileSize hsize
  · obtain ⟨hidx, hmod⟩ := hplace j hj
    rw [stored_fileByte, if_pos (by rw [hidx, hcell]), hmod]
    exact overlay_at hj
  · rw [stored_fileByte]
    split
    · next hd =>
      have hidx : v.clusterIndex q = v.clusterIndex pos := by
        have hqlt : v.clusterIndex q < x.cells.length := (Nat.div_lt_iff_lt_mul hpos).mpr hq
        rw [List.getD_eq_getElem?_getD, List.getElem?_eq_getElem hqlt, Option.getD_some] at hd
        exact h.owned.cells_inj (List.getElem?_eq_some_iff.mpr ⟨hqlt, hd⟩) hc
      have hdivq := Nat.div_add_mod' (q + inodeSize) v.clusterBytes
      have hdiv := Nat.div_add_mod' (pos + inodeSize) v.clusterBytes
      unfold Volume.clusterIndex at hidx
      rw [hidx] at hdivq
      rw [Volume.fileByte, hd]
      rcases hout with hout | hout
      · exact overlay_of_lt (by omega)
      · exact overlay_of_ge (by omega)
    · rfl
  · have hroot := (h.owned.area c (List.mem_append_left _ (List.mem_of_getElem? hc))).1
    have hfree : (v.stored f pos bytes s c).numFree = v.numFree := by
      unfold Volume.stored
      rw [he]
      exact numFree_setCluster h.sound.geo hroot (v := v) _
    rw [hfree]

theorem stored_sameWay (v : Volume) (f pos : ℕ) (bytes : List UInt8) (s c : ℕ) :
    SameWay f (v.useBuffer s c) (v.stored f pos bytes s c) := by
  have hhead : ((v.grow f (pos + bytes.length)).inode f).iclustersHead = (v.inode f).iclustersHead :=
    grow_word (by decide) ..
  obtain ⟨p, he, -⟩ := grow_eq v f (pos + bytes.length)
  unfold Volume.stored
  rw [he] at hhead ⊢
  refine ⟨⟨?_, rfl⟩, ⟨rfl, rfl⟩, hhead⟩
  rfl

theorem length_slice (buffer : Option (List UInt8)) (k n : ℕ) : (slice buffer k n).length = n := by
  simp [slice]

theorem slice_add (buffer : Option (List UInt8)) (k m n : ℕ) :
    slice buffer k (m + n) = slice buffer k m ++ slice buffer (k + m) n := by
  simp only [slice, List.range_add, List.map_append, List.map_map, Nat.add_assoc]
  rfl

/-- A round of `do_write`, when the cluster has been found. -/
theorem doWriteLoop_round {buffer : Option (List UInt8)} (hk : k < size) (hle : v.clusterIndex pos ≤ (v.inode f).clustersCount)
    (hfind : v.clusterIndex pos < (v.inode f).clustersCount ∧
        (leanfsGetFileCluster f (v.clusterIndex pos)).run v = (.ok c, u) ∨
      ¬v.clusterIndex pos < (v.inode f).clustersCount ∧ (leanfsAppendCluster f).run v = (.ok c, u)) (hcb : u.clusterBytes = v.clusterBytes) (hc : c < u.deviceEnd)
    (hch : Chosen u c b s) (fuel : ℕ) : (doWriteLoop f buffer size (fuel + 1) k pos b).run v =
      (doWriteLoop f buffer size fuel (k + v.chunk pos (size - k)) (pos + v.chunk pos (size - k)) (.buf s)).run
        (u.stored f pos (slice buffer k (v.chunk pos (size - k))) s c) := by
  have hcount : (if k + (v.clusterBytes - (pos + inodeSize) % v.clusterBytes) > size then size - k
      else v.clusterBytes - (pos + inodeSize) % v.clusterBytes) = v.chunk pos (size - k) := by
    unfold Volume.chunk
    split_ifs <;> omega
  have hgrow : (Prog.when (pos + v.chunk pos (size - k) ≥ (u.inode f).fileSize)
      (Prog.update (Volume.setInode f (Inode.setFileSize (pos + v.chunk pos (size - k))))) : LeanM Unit).run u =
      (.ok (), u.grow f (pos + v.chunk pos (size - k))) := by
    unfold Prog.when Volume.grow
    split <;> rfl
  obtain ⟨p, he, -⟩ := grow_eq u f (pos + v.chunk pos (size - k))
  have hread : (leanfsReadbuf c b).run (u.grow f (pos + v.chunk pos (size - k))) =
      (.ok s, (u.grow f (pos + v.chunk pos (size - k))).useBuffer s c) := by
    rw [he, leanfsReadbuf, run_bind_state]
    have heq : ({ u with pfiles := p } : Volume).bufferFor c b = some s := hch.eq
    rw [heq]
    dsimp only
    rw [if_pos (Or.inr hc)]
    rfl
  rw [doWriteLoop, run_bind_state, if_pos hk]
  dsimp only
  have hpoke := poke_run (useBuffer_held_self (u.grow f (pos + v.chunk pos (size - k))) s c)
    (overlay ((pos + inodeSize) % v.clusterBytes) (slice buffer k (v.chunk pos (size - k))))
  rw [if_neg (by exact Nat.not_lt.mpr hle), hcount, Volume.stored, length_slice, hcb]
  rcases hfind with ⟨hlt, hrun⟩ | ⟨hge, hrun⟩
  · rw [if_pos (by exact hlt)]
    refine (run_bind_ok hrun).trans ?_
    rw [run_bind_state, run_bind_ok hgrow, run_bind_ok hread, run_bind_ok hpoke]
  · rw [if_neg (by exact hge), run_bind_ok hrun, run_bind_state, run_bind_ok hgrow, run_bind_ok hread, run_bind_ok hpoke]

theorem Moved.numFree (h : Moved f v w) : w.numFree = v.numFree := by
  obtain ⟨l, t, c, n, rfl⟩ := h
  rfl

theorem Wrote.of_moved (h : Wrote u f x pos bytes w y) (hm : Moved f v u) : Wrote v f x pos bytes w y where
  ok := h.ok
  frame := (Framed.of_moved hm).trans h.frame
  grown := h.grown
  length := by rw [h.length, hm.clusterIndex]
  size := by rw [h.size, hm.inode]
  inside := h.inside
  outside p hp hout := by
    rw [← hm.clusterBytes] at hp
    rw [h.outside p hp hout, hm.fileByte]
  numFree := by rw [h.numFree, hm.numFree]

theorem Wrote.nil (h : FileOk v f x) (hpos : pos ≤ (v.inode f).fileSize) : Wrote v f x pos [] v x where
  ok := h
  frame := .of_files rfl ⟨rfl, rfl, rfl, rfl⟩
  grown := ⟨[], (List.append_nil _).symm⟩
  length := by
    have hcb := h.sound.geo.clusterBytes
    have hroom := h.room
    have hmul := Nat.mul_le_mul_right v.clusterBytes (Nat.succ_le_of_lt h.laid.cells_pos)
    unfold inodeSize at hroom
    have hlt : v.clusterIndex (pos + 0 - 1) < x.cells.length := by
      rw [Volume.clusterIndex, Nat.div_lt_iff_lt_mul h.sound.geo.clusterBytes_pos, inodeSize]
      omega
    exact (Nat.max_eq_left hlt).symm
  size := by
    rw [List.length_nil]
    omega
  inside j hj := absurd hj (Nat.not_lt_zero j)
  outside _ _ _ := rfl
  numFree := rfl

theorem FileOk.clusterIndex_le (h : FileOk v f x) (hpos : pos ≤ (v.inode f).fileSize) :
    v.clusterIndex pos ≤ x.cells.length := by
  apply Nat.div_le_of_le_mul
  have := h.room
  rw [Nat.mul_comm]
  omega

/-- A round in a cluster that the file has. -/
theorem doWriteLoop_inside (buffer : Option (List UInt8)) (h : FileOk v f x) (ha : Aside v x b) (hn : 0 < n)
    (heq : n = size - k) (hc : x.cells[v.clusterIndex pos]? = some c) (hf : v.Fetchable f (v.clusterIndex pos)) :
    ∃ s w, (∀ fuel, (doWriteLoop f buffer size (fuel + 1) k pos b).run v =
        (doWriteLoop f buffer size fuel (k + v.chunk pos n) (pos + v.chunk pos n) (.buf s)).run w) ∧
      Wrote v f x pos (slice buffer k (v.chunk pos n)) w x ∧ Aside w x (.buf s) ∧
      ∀ d hi, v.chunk pos n < n → hi < x.cells.length → x.cells[w.clusterIndex (pos + v.chunk pos n)]? = some d →
        (w.Reaches f d (w.clusterIndex (pos + v.chunk pos n)) hi (.buf s) ↔ v.Reaches f c (v.clusterIndex pos) hi b) := by
  obtain ⟨s, u, hr⟩ := exists_round h ha hf hc
  have hm := hr.located.moved
  have hlt := (List.getElem?_eq_some_iff.mp hc).1
  have hu : FileOk u f x := h.moved hm hr.located.buffers hr.located.cursor
  have hin := h.sound.geo.chunk_inside hn pos
  have hc' := hc
  rw [← hm.clusterIndex] at hc'
  have hlen : 0 < (slice buffer k (v.chunk pos n)).length := by
    rw [length_slice]
    exact h.sound.geo.chunk_pos hn pos
  have hw := (stored_wrote hu hc' hlen (by rwa [length_slice, hm.clusterBytes]) hr.chosen.lt).of_moved hm
  have hsame := stored_sameWay u f pos (slice buffer k (v.chunk pos n)) s c
  refine ⟨s, _, fun fuel => ?_, hw, hr.aside h.owned hc hsame, fun d hi hlt hhi hd => ?_⟩
  · subst heq
    have hcount := h.laid.count
    exact doWriteLoop_round (by omega) (by omega) (.inl ⟨by omega, hr.get⟩) hm.clusterBytes
      (by
        rw [hm.deviceEnd]
        exact h.cells_lt hc)
      hr.chosen fuel
  · exact hr.advance h ha hf hc hlt hhi hsame hw.frame.clusterBytes hd

theorem Appended.fileOk (h : Appended v f x c w y) (hx : FileOk v f x) : FileOk w f y where
  sound := h.sound
  laid := h.laid
  owned := h.owned
  cursor := h.cursor
  room := by
    have hroom := hx.room
    rw [h.fileSize, h.frame.clusterBytes, h.cells, List.length_append, Nat.add_mul]
    omega

theorem Appended.wrote (h : Appended v f x c w y) (hx : FileOk v f x) (hidx : v.clusterIndex pos = x.cells.length)
    (hn : 0 < bytes.length) (hw : Wrote w f y pos bytes u y) : Wrote v f x pos bytes u y where
  ok := hw.ok
  frame := h.frame.trans hw.frame
  grown := ⟨[c], h.cells⟩
  length := by
    have hlen : y.cells.length = x.cells.length + 1 := by rw [h.cells, List.length_append, List.length_singleton]
    have hmax := hw.length
    rw [h.frame.clusterIndex] at hmax
    have hmono : v.clusterIndex pos ≤ v.clusterIndex (pos + bytes.length - 1) := clusterIndex_mono (by omega)
    omega
  size := by rw [hw.size, h.fileSize]
  inside := hw.inside
  outside p hp hout := by
    have hcb := h.frame.clusterBytes
    have hp' : p + inodeSize < y.cells.length * w.clusterBytes := by
      rw [h.cells, List.length_append, hcb, Nat.add_mul]
      omega
    have hlt : v.clusterIndex p < x.cells.length := (Nat.div_lt_iff_lt_mul hx.sound.geo.clusterBytes_pos).mpr hp
    have hcell : y.cells.getD (v.clusterIndex p) 0 = x.cells.getD (v.clusterIndex p) 0 := by
      rw [h.cells, List.getD_append _ _ _ _ hlt]
    have hmem : x.cells.getD (v.clusterIndex p) 0 ∈ x.cells := by
      rw [List.getD_eq_getElem?_getD, List.getElem?_eq_getElem hlt]
      exact List.getElem_mem hlt
    rw [hw.outside p hp' hout, Volume.fileByte, h.frame.clusterIndex, hcell, h.clusters _ hmem, hcb]
    rfl
  numFree := by rw [hw.numFree, h.numFree]

/-- A round in a cluster that is appended to the file. -/
theorem doWriteLoop_append (buffer : Option (List UInt8)) (h : FileOk v f x) (hb : b.Valid ∧ b ≠ .unset) (hn : 0 < n)
    (heq : n = size - k) (hidx : v.clusterIndex pos = x.cells.length)
    (hfree : x.cells.length + 1 + ptrsFor v.iclusterCount (x.cells.length + 1) ≤ v.numFree + x.all.length) :
    ∃ s w y, (∀ fuel, (doWriteLoop f buffer size (fuel + 1) k pos b).run v =
        (doWriteLoop f buffer size fuel (k + v.chunk pos n) (pos + v.chunk pos n) (.buf s)).run w) ∧
      Wrote v f x pos (slice buffer k (v.chunk pos n)) w y ∧ s < numBuffers := by
  obtain ⟨u, c, y, hrun, hu⟩ := appendCluster_run h.sound h.laid h.owned h.cursor (by
    unfold Node.all at hfree
    rw [List.length_append] at hfree
    omega)
  have hok := hu.fileOk h
  have hcb := hu.frame.clusterBytes
  have hin := h.sound.geo.chunk_inside hn pos
  have hc : y.cells[v.clusterIndex pos]? = some c := by
    rw [hidx, hu.cells]
    exact List.getElem?_concat_length
  obtain ⟨s, hs⟩ := exists_chosen (c := c) hok.sound.buffers hb.1 (.inl hb.2)
  have hc' := hc
  rw [← hu.frame.clusterIndex] at hc'
  have hlen : 0 < (slice buffer k (v.chunk pos n)).length := by
    rw [length_slice]
    exact h.sound.geo.chunk_pos hn pos
  have hw := hu.wrote h hidx hlen (stored_wrote hok hc' hlen (by rwa [length_slice, hcb]) hs.lt)
  refine ⟨s, _, y, fun fuel => ?_, hw, hs.lt⟩
  subst heq
  have hcount := h.laid.count
  exact doWriteLoop_round (by omega) (by omega) (.inr ⟨by omega, hrun⟩) hcb (hok.cells_lt hc) hs fuel

/-- Whether a volume has the clusters that a file with `n` clusters takes. -/
def Volume.Spacious (v : Volume) (x : Node) (n : ℕ) : Prop := n + ptrsFor v.iclusterCount n ≤ v.numFree + x.all.length

theorem Wrote.spacious (h : Wrote v f x pos bytes w y) : w.Spacious y n ↔ v.Spacious x n := by
  rw [Volume.Spacious, Volume.Spacious, h.frame.iclusterCount, h.numFree]

theorem Volume.Spacious.mono (h : v.Spacious x n) (hg : Geo v) (hle : m ≤ n) : v.Spacious x m :=
  Nat.le_trans (Nat.add_le_add hle (ptrsFor_mono hg.iclusterCount_pos hle)) h

/-- What is stored in a first round and in those after it. -/
theorem Wrote.slices {buffer : Option (List UInt8)} (h : Wrote v f x pos (slice buffer k m) w y)
    (h' : Wrote w f y (pos + m) (slice buffer (k + m) (n - m)) u z) (hle : m ≤ n) :
    Wrote v f x pos (slice buffer k n) u z := by
  have hslice := slice_add buffer k m (n - m)
  rw [Nat.add_sub_of_le hle] at hslice
  rw [hslice]
  apply h.trans
  rwa [length_slice]

theorem doWriteLoop_run (buffer : Option (List UInt8)) (h : FileOk v f x) (hpos : pos ≤ (v.inode f).fileSize)
    (hb : b.Valid ∧ b ≠ .unset) {fuel : ℕ} (hfuel : size - k ≤ fuel) (heq : n = size - k)
    (hreach : 0 < n → ∀ c, x.cells[v.clusterIndex pos]? = some c → Aside v x b ∧
      v.Reaches f c (v.clusterIndex pos) (min (v.clusterIndex (pos + n - 1)) (x.cells.length - 1)) b)
    (hspace : v.Spacious x (max x.cells.length (v.clusterIndex (pos + n - 1) + 1))) :
    ∃ w y, (doWriteLoop f buffer size fuel k pos b).run v = (.ok (), w) ∧ Wrote v f x pos (slice buffer k n) w y := by
  induction fuel generalizing v x k pos n b with
  | zero =>
    obtain rfl : n = 0 := by omega
    exact ⟨v, x, rfl, .nil h hpos⟩
  | succ fuel ih =>
    rcases Nat.eq_zero_or_pos n with rfl | hn
    · refine ⟨v, x, ?_, .nil h hpos⟩
      rw [doWriteLoop, run_bind_state, if_neg (by omega)]
      rfl
    · have hg := h.sound.geo
      have hle := v.chunk_le pos n
      have hchunk := hg.chunk_pos hn pos
      have hend : pos + v.chunk pos n + (n - v.chunk pos n) - 1 = pos + n - 1 := by omega
      have hsize : ∀ {w y}, Wrote v f x pos (slice buffer k (v.chunk pos n)) w y →
          pos + v.chunk pos n ≤ (w.inode f).fileSize := fun hw => by
        rw [hw.size, length_slice]
        omega
      by_cases hlt : v.clusterIndex pos < x.cells.length
      · have hc := List.getElem?_eq_getElem hlt
        obtain ⟨ha, hreach⟩ := hreach hn _ hc
        have hlo : v.clusterIndex pos ≤ v.clusterIndex (pos + n - 1) := clusterIndex_mono (by omega)
        have hf := hreach.fetchable (Nat.le_min.mpr ⟨hlo, by omega⟩)
        obtain ⟨s, w, hround, hw, hs, hnext⟩ := doWriteLoop_inside buffer h ha hn heq hc hf
        obtain ⟨u, y, hrun, hu⟩ := ih hw.ok (hsize hw) hs.valid (k := k + v.chunk pos n) (by omega) (n := n - v.chunk pos n)
          (by omega)
          (fun hrest d hd => ⟨hs, by
            rw [hend, hw.frame.clusterIndex (pos + n - 1), hnext d _ (by omega) (by omega) hd]
            exact hreach⟩)
          (by
            rw [hend, hw.frame.clusterIndex, hw.spacious]
            exact hspace)
        exact ⟨u, y, (hround fuel).trans hrun, hw.slices hu hle⟩
      · have hidx : v.clusterIndex pos = x.cells.length :=
          Nat.le_antisymm (h.clusterIndex_le hpos) (Nat.le_of_not_lt hlt)
        have hlast : x.cells.length ≤ v.clusterIndex (pos + n - 1) := by
          rw [← hidx]
          exact clusterIndex_mono (by omega)
        obtain ⟨s, w, y, hround, hw, hs⟩ := doWriteLoop_append buffer h hb hn heq hidx
          (hspace.mono hg (by omega))
        have hlen : y.cells.length = x.cells.length + 1 := by
          rw [hw.length, length_slice, hg.chunk_last hn, hidx]
          omega
        obtain ⟨u, z, hrun, hu⟩ := ih hw.ok (hsize hw) (b := .buf s) ⟨hs, nofun⟩ (k := k + v.chunk pos n) (by omega)
          (n := n - v.chunk pos n) (by omega)
          (fun hrest d hd => by
            have hin := (List.getElem?_eq_some_iff.mp hd).1
            rw [hw.frame.clusterIndex, hg.chunk_succ (by omega), hidx, hlen] at hin
            exact absurd hin (Nat.lt_irrefl _))
          (by
            rw [hend, hw.frame.clusterIndex, hw.spacious]
            exact hspace.mono hg (by omega))
        exact ⟨u, z, (hround fuel).trans hrun, hw.slices hu hle⟩

theorem doWriteLoop_hang (buffer : Option (List UInt8)) (h : FileOk v f x) (ha : Aside v x b) {fuel : ℕ}
    (hfuel : size - k ≤ fuel) (heq : n = size - k) (hn : 0 < n) (hc : x.cells[v.clusterIndex pos]? = some c)
    (hno : ¬v.Reaches f c (v.clusterIndex pos) (min (v.clusterIndex (pos + n - 1)) (x.cells.length - 1)) b) :
    ∃ w, (doWriteLoop f buffer size fuel k pos b).run v = (.hang, w) := by
  induction fuel generalizing v k pos n b c with
  | zero => omega
  | succ fuel ih =>
    have hidx := (List.getElem?_eq_some_iff.mp hc).1
    have hlo : v.clusterIndex pos ≤ v.clusterIndex (pos + n - 1) := clusterIndex_mono (by omega)
    by_cases hf : v.Fetchable f (v.clusterIndex pos)
    · have hlt := chunk_lt_of_not_reaches h.sound.geo hf hn (Nat.le_min.mpr ⟨hlo, by omega⟩) (Nat.min_le_left ..) hno
      have hchunk := h.sound.geo.chunk_pos hn pos
      have hend : pos + v.chunk pos n + (n - v.chunk pos n) - 1 = pos + n - 1 := by omega
      obtain ⟨s, w, hround, hw, hs, hnext⟩ := doWriteLoop_inside buffer h ha hn heq hc hf
      have hmore : w.clusterIndex (pos + v.chunk pos n) < x.cells.length := by
        rw [hw.frame.clusterIndex, h.sound.geo.chunk_succ hlt]
        apply Nat.lt_of_not_le
        intro hle
        have hmin : min (v.clusterIndex (pos + n - 1)) (x.cells.length - 1) = v.clusterIndex pos := by omega
        rw [hmin] at hno
        exact hno (hf.reaches c b)
      have hd := List.getElem?_eq_getElem hmore
      obtain ⟨u, hrun⟩ := ih hw.ok hs (k := k + v.chunk pos n) (by omega) (n := n - v.chunk pos n) (by omega) (by omega) hd (by
        rw [hend, hw.frame.clusterIndex (pos + n - 1), hnext _ _ hlt (by omega) hd]
        exact hno)
      exact ⟨u, (hround fuel).trans hrun⟩
    · obtain ⟨w, hhang⟩ := getFileCluster_hang h.laid h.cursor hf hidx
      refine ⟨w, ?_⟩
      have hcount := h.laid.count
      rw [doWriteLoop, run_bind_state, if_pos (by omega)]
      dsimp only
      rw [if_neg (by
        change ¬(v.inode f).clustersCount < v.clusterIndex pos
        omega), if_pos (by
        change v.clusterIndex pos < (v.inode f).clustersCount
        omega)]
      exact run_bind_hang hhang

/-- Whether the clusters that a file has already where `n` bytes are to be written can be gone through. -/
def Volume.WritePassable (v : Volume) (f pos n : ℕ) : Prop := n ≠ 0 → v.clusterIndex pos < (v.inode f).clustersCount →
  v.Passable f (v.clusterIndex pos) (min (v.clusterIndex (pos + n - 1)) ((v.inode f).clustersCount - 1))

instance (v : Volume) (f pos n : ℕ) : Decidable (v.WritePassable f pos n) := inferInstanceAs (Decidable (_ → _))

theorem Stamped.framed (h : Stamped f v w) : Framed f v w where
  geometry := by
    obtain ⟨p, t, n, rfl⟩ := h.frame
    exact ⟨rfl, rfl, rfl, rfl⟩
  pf := by
    obtain ⟨pos, hfile⟩ := h.file
    rw [hfile]
  flags := by
    obtain ⟨pos, hfile⟩ := h.file
    rw [hfile]

theorem Stamped.fileByte (h : Stamped f v w) (x : Node) (pos : ℕ) : w.fileByte x pos = v.fileByte x pos := by
  obtain ⟨p, t, n, rfl⟩ := h.frame
  rfl

theorem Stamped.numFree (h : Stamped f v w) : w.numFree = v.numFree := by
  obtain ⟨p, t, n, rfl⟩ := h.frame
  rfl

theorem Wrote.stamped (h : Wrote v f x pos bytes w y) (hs : Stamped f w u) : Wrote v f x pos bytes u y where
  ok := hs.fileOk h.ok
  frame := h.frame.trans hs.framed
  grown := h.grown
  length := h.length
  size := by rw [hs.inode.fileSize, h.size]
  inside j hj := by rw [hs.fileByte, h.inside j hj]
  outside p hp hout := by rw [hs.fileByte, h.outside p hp hout]
  numFree := by rw [hs.numFree, h.numFree]

theorem Wrote.of_stamped (h : Wrote u f x pos bytes w y) (hs : Stamped f v u) : Wrote v f x pos bytes w y where
  ok := h.ok
  frame := hs.framed.trans h.frame
  grown := h.grown
  length := by rw [h.length, hs.framed.clusterIndex]
  size := by rw [h.size, hs.inode.fileSize]
  inside := h.inside
  outside p hp hout := by
    rw [← hs.framed.clusterBytes] at hp
    rw [h.outside p hp hout, hs.fileByte]
  numFree := by rw [h.numFree, hs.numFree]

theorem doWrite_run (buffer : Option (List UInt8)) (h : FileOk v f x) (hpos : pos ≤ (v.inode f).fileSize)
    (hpass : v.WritePassable f pos n)
    (hspace : v.Spacious x (max x.cells.length (v.clusterIndex (pos + n - 1) + 1))) :
    ∃ w y, (doWrite f buffer n pos).run v = (.ok n, w) ∧ Wrote v f x pos (slice buffer 0 n) w y := by
  rw [doWrite, run_bind_state]
  by_cases hn : n = 0
  · subst hn
    exact ⟨v, x, rfl, .nil h hpos⟩
  · have hcount := h.laid.count
    obtain ⟨w, y, hrun, hw⟩ := doWriteLoop_run buffer (k := 0) h hpos (b := .null) ⟨trivial, nofun⟩
      (Nat.le_refl n) rfl (fun _ c hc => ⟨trivial, by
        have hlt := (List.getElem?_eq_some_iff.mp hc).1
        rw [← passable_iff h.laid hc, ← hcount]
        exact hpass hn (by omega)⟩) hspace
    refine ⟨_, y, ?_, hw.stamped ((Stamped.ticks f (w.ticks + 1) w).trans (Stamped.setInode _ f fun i =>
      (setAccTime_alike (w.env.time w.ticks) _).trans (setModTime_alike (w.env.time w.ticks) i)))⟩
    rw [if_neg hn, if_neg (Nat.not_lt.mpr hpos), run_bind_ok hrun]
    rfl

theorem doWrite_hang (buffer : Option (List UInt8)) (h : FileOk v f x) (hpos : pos ≤ (v.inode f).fileSize)
    (hno : ¬v.WritePassable f pos n) : ∃ w, (doWrite f buffer n pos).run v = (.hang, w) := by
  obtain ⟨hn, hno⟩ := Classical.not_imp.mp hno
  obtain ⟨hlt, hno⟩ := Classical.not_imp.mp hno
  rw [h.laid.count] at hlt hno
  have hc := List.getElem?_eq_getElem hlt
  rw [passable_iff h.laid hc] at hno
  obtain ⟨w, hrun⟩ := doWriteLoop_hang buffer (k := 0) h (b := .null) trivial (Nat.le_refl n) rfl
    (Nat.pos_of_ne_zero hn) hc hno
  refine ⟨w, ?_⟩
  rw [doWrite, run_bind_state, if_neg hn, if_neg (Nat.not_lt.mpr hpos)]
  exact run_bind_hang hrun

end FreeDos32.Leanfs
