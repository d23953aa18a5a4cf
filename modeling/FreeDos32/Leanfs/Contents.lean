import FreeDos32.Leanfs.File
import FreeDos32.Leanfs.Node

namespace FreeDos32.Leanfs

open Prog

variable {v w u : Volume} {x y : Node} {b : BufPtr} {c d f i j k m n o s t lo hi pos size : ℕ}

/-- The index of the cluster with a byte of a file. -/
def Volume.clusterIndex (v : Volume) (pos : ℕ) : ℕ := (pos + inodeSize) / v.clusterBytes

def Volume.fileByte (v : Volume) (x : Node) (pos : ℕ) : UInt8 :=
  v.clusters (x.cells.getD (v.clusterIndex pos) 0) ((pos + inodeSize) % v.clusterBytes)

/-- The bytes of a file. -/
def contents (v : Volume) (f : ℕ) (x : Node) : List UInt8 := (List.range (v.inode f).fileSize).map (v.fileByte x)

/-- An open file with clusters of its own that have room for its bytes. -/
structure FileOk (v : Volume) (f : ℕ) (x : Node) : Prop where
  sound : Sound v
  laid : Laid v f x
  owned : Owned v x
  cursor : CursorOk v f x
  room : (v.inode f).fileSize + inodeSize ≤ x.cells.length * v.clusterBytes

theorem length_contents (v : Volume) (f : ℕ) (x : Node) : (contents v f x).length = (v.inode f).fileSize := by
  simp [contents]

theorem FileOk.moved (h : FileOk v f x) (hm : Moved f v w) (hb : BuffersOk w) (hcur : CursorOk w f x) : FileOk w f x where
  sound := hm.sound hb h.sound
  laid := hm.laid h.laid
  owned := hm.owned h.owned
  cursor := hcur
  room := by
    rw [hm.inode, hm.clusterBytes]
    exact h.room

theorem Moved.fileByte (h : Moved f v w) (x : Node) (pos : ℕ) : w.fileByte x pos = v.fileByte x pos := by
  rw [Volume.fileByte, Volume.clusterIndex, h.clusters, h.clusterBytes]
  rfl

theorem Moved.contents (h : Moved f v w) (x : Node) : contents w f x = contents v f x := by
  unfold Leanfs.contents
  rw [h.inode]
  apply List.map_congr_left
  intro pos _
  exact h.fileByte x pos

theorem FileOk.cells_lt (h : FileOk v f x) (hk : x.cells[i]? = some c) : c < v.deviceEnd :=
  Nat.lt_of_lt_of_le (h.owned.area c (List.mem_append_left _ (List.mem_of_getElem? hk))).2 h.sound.geo.device

theorem Owned.not_ptr (h : Owned v x) (hk : x.cells[i]? = some c) : c ∉ x.ptrs := fun hc => by
  obtain ⟨t, ht⟩ := List.mem_iff_getElem?.mp hc
  exact h.apart hk ht

theorem Laid.ptrs_eq (h : Laid v f x) (h' : Laid v f y) : x.ptrs = y.ptrs := by
  have hlt : ∀ j, j < x.ptrs.length ↔ j < y.ptrs.length := fun j => by
    rw [h.numPtrs, h'.numPtrs, ← h.count, ← h'.count]
  have hlen : x.ptrs.length = y.ptrs.length := eq_of_forall_lt_iff hlt
  apply List.ext_getElem hlen
  intro j hj hj'
  induction j with
  | zero => rw [← h.head _ (List.getElem?_eq_getElem hj), ← h'.head _ (List.getElem?_eq_getElem hj')]
  | succ j ih =>
    have hpred := ih (Nat.lt_of_succ_lt hj) (Nat.lt_of_succ_lt hj')
    rw [← h.next j _ _ (List.getElem?_eq_getElem (Nat.lt_of_succ_lt hj)) (List.getElem?_eq_getElem hj), hpred,
      h'.next j _ _ (List.getElem?_eq_getElem (Nat.lt_of_succ_lt hj')) (List.getElem?_eq_getElem hj')]

/-- An inode leads to the clusters of one file only. -/
theorem Laid.unique (h : Laid v f x) (h' : Laid v f y) (hpos : 0 < v.iclusterCount) : x = y := by
  have hptrs := h.ptrs_eq h'
  have hlen : x.cells.length = y.cells.length := by rw [← h.count, ← h'.count]
  have hcells : x.cells = y.cells := by
    apply List.ext_getElem hlen
    intro i hi hi'
    have hx := List.getElem?_eq_getElem hi
    have hy := List.getElem?_eq_getElem hi'
    by_cases hlt : i < 16
    · rw [← h.directCluster hlt hx, ← h'.directCluster hlt hy]
    · -- the indirect cluster with the address
      have hdiv := Nat.div_add_mod' (i - 16) v.iclusterCount
      have hmod := Nat.mod_lt (i - 16) hpos
      have hj : (i - 16) / v.iclusterCount < x.ptrs.length := (h.numPtrs _).mpr (by omega)
      obtain ⟨p, hptr⟩ : ∃ p, x.ptrs[(i - 16) / v.iclusterCount]? = some p := ⟨_, List.getElem?_eq_getElem hj⟩
      have hidx : 16 + (i - 16) / v.iclusterCount * v.iclusterCount + (i - 16) % v.iclusterCount = i := by omega
      have hword := h.indirect _ _ _ x.cells[i] hptr hmod (by rw [hidx, hx])
      rw [hptrs] at hptr
      exact hword.symm.trans (h'.indirect _ _ _ y.cells[i] hptr hmod (by rw [hidx, hy]))
  cases x
  cases y
  exact Node.mk.injEq .. ▸ ⟨hcells, hptrs⟩

/-- The pointer leads to no indirect cluster of the file. -/
def Aside (v : Volume) (x : Node) : BufPtr → Prop
  | .null => True
  | .buf s => s < numBuffers ∧ ∃ c, v.held s = some c ∧ c ∉ x.ptrs
  | .unset => False

theorem Aside.valid (h : Aside v x b) : b.Valid ∧ b ≠ .unset := by
  cases b with
  | null => exact ⟨trivial, nofun⟩
  | buf s => exact ⟨h.1, nofun⟩
  | unset => exact h.elim

/-- Whether the clusters with the indices from `lo` to `hi` can be looked up and read one after the other, the first of
them, at `c`, into the buffer that `b` is for. -/
def Volume.Reaches (v : Volume) (f c lo hi : ℕ) (b : BufPtr) : Prop :=
  16 ≤ hi → if lo < 16 then (v.useBuffer ((v.bufferFor c b).getD 0) c).Buffered (v.searchStart f 16).1
    else v.Fetchable f lo

instance (v : Volume) (f c lo hi : ℕ) (b : BufPtr) : Decidable (v.Reaches f c lo hi b) := inferInstanceAs (Decidable (_ → _))

/-- The same buffers are in use and a search starts at the same place. -/
structure SameWay (f : ℕ) (v w : Volume) : Prop where
  buffers : SameBuffers v w
  files : (w.files f).icluster = (v.files f).icluster ∧ (w.files f).iclusterFirst = (v.files f).iclusterFirst
  head : (w.inode f).iclustersHead = (v.inode f).iclustersHead

theorem SameWay.refl (f : ℕ) (v : Volume) : SameWay f v v := ⟨⟨rfl, rfl⟩, ⟨rfl, rfl⟩, rfl⟩

theorem SameWay.searchStart (h : SameWay f v w) (i : ℕ) : w.searchStart f i = v.searchStart f i := by
  unfold Volume.searchStart
  dsimp only
  rw [h.files.1, h.files.2, h.head]

theorem SameWay.fetchable (h : SameWay f v w) : w.Fetchable f i ↔ v.Fetchable f i := by
  unfold Volume.Fetchable
  rw [h.searchStart, h.buffers.buffered]

/-- A search for the address of the first cluster in an indirect one starts with the first of these. -/
theorem searchStart_mem (h : FileOk v f x) (hlen : 16 < x.cells.length) : (v.searchStart f 16).1 ∈ x.ptrs := by
  have hpos := h.sound.geo.iclusterCount_pos
  obtain ⟨j, -, hle, hptr, -⟩ := searchStart_eq h.laid h.cursor (Nat.le_refl 16)
  have hj : j * v.iclusterCount = 0 := by omega
  obtain rfl : j = 0 := (Nat.mul_eq_zero.mp hj).resolve_right (Nat.ne_of_gt hpos)
  have hlt : 0 < x.ptrs.length := (h.laid.numPtrs 0).mpr (by rwa [Nat.zero_mul])
  rw [hptr _ (List.getElem?_eq_getElem hlt)]
  exact List.getElem_mem hlt

/-- A buffer that is aside may be given up. -/
theorem buffered_useBuffer (hch : Chosen v c (.buf s) t) (hheld : v.held s = some d) (hd : d ∉ x.ptrs) (hc : c ∉ x.ptrs)
    (hk : k ∈ x.ptrs) : (v.useBuffer t c).Buffered k ↔ v.Buffered k := by
  constructor
  · intro h
    apply buffered_of_useBuffer h
    rintro rfl
    exact hc hk
  · intro h
    apply hch.buffered h
    intro n hn hk'
    obtain rfl := Option.some.inj hn
    rw [hheld] at hk'
    exact hd (Option.some.inj hk' ▸ hk)

/-- After a cluster whose address is in the inode the way on is as clear as before. -/
theorem reaches_succ (h : FileOk v f x) (hi16 : i < 16) (hch : Chosen v c b s) (hc : x.cells[i]? = some c)
    (hd : x.cells[i + 1]? = some d) (hhi : hi < x.cells.length) (hs : SameWay f (v.useBuffer s c) w) :
    w.Reaches f d (i + 1) hi (.buf s) ↔ v.Reaches f c i hi b := by
  unfold Volume.Reaches
  apply imp_congr_right
  intro h16
  have hmem := searchStart_mem h (by omega)
  have hheld : w.held s = some c := by
    rw [hs.buffers.2]
    exact useBuffer_held_self ..
  have hstart : (w.searchStart f 16).1 = (v.searchStart f 16).1 := congrArg Prod.fst (hs.searchStart 16)
  rw [if_pos hi16, hch.eq, Option.getD_some, ← hs.buffers.buffered]
  by_cases hlt : i + 1 < 16
  · have hbuf : BuffersOk w := by
      have := h.sound.buffers.useBuffer hch.lt c
      unfold BuffersOk at this ⊢
      rwa [hs.buffers.1]
    obtain ⟨t, ht⟩ := exists_chosen (c := d) hbuf (p := .buf s) hch.lt (.inl nofun)
    rw [if_pos hlt, ht.eq, Option.getD_some, hstart]
    exact buffered_useBuffer ht hheld (h.owned.not_ptr hc) (h.owned.not_ptr hd) hmem
  · obtain rfl : i = 15 := by omega
    rw [if_neg hlt, Volume.Fetchable, hstart]
    exact forall_prop_of_true (Nat.le_refl 16)

theorem At.searchStart (h : At w f x i j s) (hle : i ≤ k) : w.searchStart f k = ((w.files f).icluster, (w.files f).iclusterFirst) := by
  have hfirst := h.first
  have := h.le
  exact if_neg (by omega)

/-- The buffer with the indirect cluster is not the one that is given up for the cluster. -/
theorem Located.given_ne (h : Located v f x i w) (ha : Aside v x b) (hat : At w f x i j s) : w.given b ≠ some s := by
  cases b with
  | null => exact given_null_ne h.buffers hat.recent (by decide)
  | buf k =>
    obtain ⟨-, c, hheld, hc⟩ := ha
    intro he
    obtain rfl := Option.some.inj he
    have := h.keeps k c hheld hc
    rw [hat.held] at this
    exact hc (Option.some.inj this ▸ List.mem_of_getElem? hat.ptr)
  | unset => exact ha.elim

/-- After a cluster whose address is in an indirect one the way on is clear. -/
theorem reaches_indirect (hloc : Located v f x i w) (ha : Aside v x b) (h16 : 16 ≤ i) (hch : Chosen w c b s)
    (hs : SameWay f (w.useBuffer s c) u) (d : ℕ) : u.Reaches f d (i + 1) hi (.buf s) := by
  obtain ⟨j, t, hat⟩ := hloc.at_ h16
  have hheld : (w.useBuffer s c).held t = some (w.files f).icluster := hch.keeps hat.held (hloc.given_ne ha hat)
  intro _
  rw [if_neg (by omega), hs.fetchable]
  intro _
  have hstart : (w.useBuffer s c).searchStart f (i + 1) = w.searchStart f (i + 1) := rfl
  rw [hstart, hat.searchStart (Nat.le_succ i)]
  exact ⟨t, hat.lt, hheld⟩

/-- The clusters of a part of a file, with the bytes that are in the first of them. -/
theorem chunk_bounds {cb : ℕ} (hpos : 0 < cb) (hn : 0 < n) (o : ℕ) : 0 < min (cb - o % cb) n ∧ min (cb - o % cb) n ≤ n ∧
    o % cb + min (cb - o % cb) n ≤ cb := by
  have := Nat.mod_lt o hpos
  omega

theorem chunk_place {cb : ℕ} (hpos : 0 < cb) (hj : o % cb + j < cb) : (o + j) / cb = o / cb ∧ (o + j) % cb = o % cb + j := by
  have hsplit : o + j = o % cb + j + o / cb * cb := by
    have := Nat.div_add_mod' o cb
    omega
  rw [hsplit, Nat.add_mul_div_right _ _ hpos, Nat.add_mul_mod_self_right, Nat.div_eq_of_lt hj, Nat.mod_eq_of_lt hj, Nat.zero_add]
  exact ⟨rfl, rfl⟩

theorem chunk_next {cb : ℕ} (hpos : 0 < cb) (o : ℕ) : (o + (cb - o % cb)) / cb = o / cb + 1 := by
  have hsplit : o + (cb - o % cb) = (o / cb + 1) * cb := by
    have := Nat.div_add_mod' o cb
    have := Nat.mod_lt o hpos
    rw [Nat.succ_mul]
    omega
  rw [hsplit, Nat.mul_div_cancel _ hpos]

theorem Volume.Reaches.fetchable (h : v.Reaches f c lo hi b) (hle : lo ≤ hi) : v.Fetchable f lo := fun h16 => by
  have := h (Nat.le_trans h16 hle)
  rw [if_neg (by omega)] at this
  exact this h16

theorem Volume.Fetchable.reaches (h : v.Fetchable f hi) (c : ℕ) (b : BufPtr) : v.Reaches f c hi hi b := fun h16 => by
  rwa [if_neg (by omega)]

/-- A cluster of a file has been looked up and read. -/
structure Round (v : Volume) (f : ℕ) (x : Node) (c i : ℕ) (b : BufPtr) (s : ℕ) (w : Volume) : Prop where
  get : (leanfsGetFileCluster f i).run v = (.ok c, w)
  located : Located v f x i w
  chosen : Chosen w c b s

theorem exists_round (h : FileOk v f x) (ha : Aside v x b) (hf : v.Fetchable f i) (hc : x.cells[i]? = some c) :
    ∃ s w, Round v f x c i b s w := by
  obtain ⟨w, hget, hloc⟩ := getFileCluster_run h.sound.geo (h.owned.ptrs_lt h.sound.geo) h.laid h.sound.buffers h.cursor hf hc
  obtain ⟨s, hs⟩ := exists_chosen (c := c) hloc.buffers ha.valid.1 (.inl ha.valid.2)
  exact ⟨s, w, hget, hloc, hs⟩

namespace Round

variable (h : Round v f x c i b s w)
include h

theorem read (hc : c < v.deviceEnd) : (leanfsReadbuf c b).run w = (.ok s, w.useBuffer s c) := by
  rw [leanfsReadbuf, run_bind_state, h.chosen.eq]
  dsimp only
  rw [if_pos (.inr (h.located.moved.deviceEnd.symm ▸ hc))]
  rfl

theorem moved : Moved f v (w.useBuffer s c) := h.located.moved.trans (Moved.useBuffer ..)

theorem aside (ho : Owned v x) (hc : x.cells[i]? = some c) (hs : SameWay f (w.useBuffer s c) u) : Aside u x (.buf s) := by
  refine ⟨h.chosen.lt, c, ?_, ho.not_ptr hc⟩
  rw [hs.buffers.2]
  exact useBuffer_held_self ..

/-- The way on is as clear as it was before. -/
theorem reaches_iff (hx : FileOk v f x) (ha : Aside v x b) (hf : v.Fetchable f i) (hc : x.cells[i]? = some c)
    (hd : x.cells[i + 1]? = some d) (hhi : hi < x.cells.length) (hs : SameWay f (w.useBuffer s c) u) :
    u.Reaches f d (i + 1) hi (.buf s) ↔ v.Reaches f c i hi b := by
  by_cases hi16 : i < 16
  · have hch := h.chosen
    rw [h.located.still hi16] at hs hch
    exact reaches_succ hx hi16 hch hc hd hhi hs
  · apply iff_of_true
    · exact reaches_indirect h.located ha (Nat.le_of_not_lt hi16) h.chosen hs d
    · intro _
      rwa [if_neg hi16]

end Round

theorem FileOk.round (h : FileOk v f x) (hr : Round v f x c i b s w) : FileOk (w.useBuffer s c) f x := by
  apply h.moved hr.moved
  · exact hr.located.buffers.useBuffer hr.chosen.lt c
  · exact hr.located.cursor

theorem FileOk.clusterIndex_lt (h : FileOk v f x) (hpos : pos < (v.inode f).fileSize) : v.clusterIndex pos < x.cells.length := by
  rw [Volume.clusterIndex, Nat.div_lt_iff_lt_mul h.sound.geo.clusterBytes_pos]
  have := h.room
  omega

/-- What a round reads. -/
theorem chunk_bytes (h : FileOk v f x) (hc : x.cells[v.clusterIndex pos]? = some c)
    (hn : (pos + inodeSize) % v.clusterBytes + n ≤ v.clusterBytes) :
    ((List.range n).map fun j => v.clusters c ((pos + inodeSize) % v.clusterBytes + j)) =
      (List.range n).map fun j => v.fileByte x (pos + j) := by
  apply List.map_congr_left
  intro j hj
  have hj := List.mem_range.mp hj
  obtain ⟨hdiv, hmod⟩ := chunk_place (o := pos + inodeSize) (j := j) h.sound.geo.clusterBytes_pos (by omega)
  rw [Nat.add_right_comm] at hdiv hmod
  have hcell : x.cells.getD (v.clusterIndex pos) 0 = c := by rw [List.getD_eq_getElem?_getD, hc, Option.getD_some]
  rw [Volume.fileByte, Volume.clusterIndex, hdiv, hmod]
  exact congrArg (fun d => v.clusters d _) hcell.symm

/-- How many bytes a round transfers of the `n` that are left. -/
def Volume.chunk (v : Volume) (pos n : ℕ) : ℕ := min (v.clusterBytes - (pos + inodeSize) % v.clusterBytes) n

theorem Volume.chunk_le (v : Volume) (pos n : ℕ) : v.chunk pos n ≤ n := Nat.min_le_right ..

theorem Geo.chunk_pos (h : Geo v) (hn : 0 < n) (pos : ℕ) : 0 < v.chunk pos n :=
  (chunk_bounds h.clusterBytes_pos hn (pos + inodeSize)).1

theorem Geo.chunk_inside (h : Geo v) (hn : 0 < n) (pos : ℕ) :
    (pos + inodeSize) % v.clusterBytes + v.chunk pos n ≤ v.clusterBytes :=
  (chunk_bounds h.clusterBytes_pos hn (pos + inodeSize)).2.2

/-- When there is something left, it goes on with the next cluster. -/
theorem Geo.chunk_succ (h : Geo v) (hlt : v.chunk pos n < n) : v.clusterIndex (pos + v.chunk pos n) = v.clusterIndex pos + 1 := by
  have heq : v.chunk pos n = v.clusterBytes - (pos + inodeSize) % v.clusterBytes := by
    unfold Volume.chunk at hlt ⊢
    omega
  have := chunk_next h.clusterBytes_pos (pos + inodeSize)
  rw [heq, Volume.clusterIndex, Nat.add_right_comm]
  exact this

/-- The last byte of those that a round transfers is in the same cluster as the first. -/
theorem Geo.chunk_last (h : Geo v) (hn : 0 < n) (pos : ℕ) :
    v.clusterIndex (pos + v.chunk pos n - 1) = v.clusterIndex pos := by
  have hin := h.chunk_inside hn pos
  have hchunk := h.chunk_pos hn pos
  have hplace := chunk_place (o := pos + inodeSize) (j := v.chunk pos n - 1) h.clusterBytes_pos (by omega)
  rw [Volume.clusterIndex, show pos + v.chunk pos n - 1 + inodeSize = pos + inodeSize + (v.chunk pos n - 1) by omega]
  exact hplace.1

theorem clusterIndex_mono (hle : pos ≤ k) : v.clusterIndex pos ≤ v.clusterIndex k :=
  Nat.div_le_div_right (Nat.add_le_add_right hle _)

theorem Moved.clusterIndex (h : Moved f v w) (pos : ℕ) : w.clusterIndex pos = v.clusterIndex pos := by
  rw [Volume.clusterIndex, h.clusterBytes]
  rfl

theorem read_count {a e : ℕ} (hk : k < size) (hpos : pos < e) : (if k + (if pos + a ≥ e then e - pos else a) > size
    then size - k else if pos + a ≥ e then e - pos else a) = min a (min (e - pos) (size - k)) := by
  split_ifs <;> omega

theorem readLoop_round (h : FileOk v f x) (hn : 0 < n) (heq : n = min ((v.inode f).fileSize - pos) (size - k))
    (hc : x.cells[v.clusterIndex pos]? = some c) (hr : Round v f x c (v.clusterIndex pos) b s w) (fuel : ℕ) :
    (readLoop f size (fuel + 1) k pos b).run v =
      (readLoop f size fuel (k + v.chunk pos n) (pos + v.chunk pos n) (.buf s) >>= fun rest =>
        pure (((List.range (v.chunk pos n)).map fun j => v.fileByte x (pos + j)) ++ rest)).run (w.useBuffer s c) := by
  have hk : k < size := by omega
  have hpos : pos < (v.inode f).fileSize := by omega
  have hbytes := chunk_bytes h hc (h.sound.geo.chunk_inside hn pos)
  rw [readLoop, run_bind_state, if_pos ⟨hk, hpos⟩]
  refine (run_bind_ok hr.get).trans ?_
  dsimp only
  rw [read_count hk hpos, ← heq, run_bind_ok (hr.read (h.cells_lt hc)), run_bind_state, ← hbytes, useBuffer_data,
    hr.located.moved.clusters]
  rfl

theorem Round.advance (hr : Round v f x c (v.clusterIndex pos) b s w) (h : FileOk v f x) (ha : Aside v x b)
    (hf : v.Fetchable f (v.clusterIndex pos)) (hc : x.cells[v.clusterIndex pos]? = some c) (hlt : v.chunk pos n < n)
    (hhi : hi < x.cells.length) (hs : SameWay f (w.useBuffer s c) u) (hcb : u.clusterBytes = v.clusterBytes)
    (hd : x.cells[u.clusterIndex (pos + v.chunk pos n)]? = some d) :
    u.Reaches f d (u.clusterIndex (pos + v.chunk pos n)) hi (.buf s) ↔ v.Reaches f c (v.clusterIndex pos) hi b := by
  have hidx : u.clusterIndex (pos + v.chunk pos n) = v.clusterIndex pos + 1 := by
    rw [Volume.clusterIndex, hcb]
    exact h.sound.geo.chunk_succ hlt
  rw [hidx] at hd ⊢
  exact hr.reaches_iff h ha hf hc hd hhi hs

/-- What cannot be reached is not in the first cluster. -/
theorem chunk_lt_of_not_reaches (hg : Geo v) (hf : v.Fetchable f (v.clusterIndex pos)) (hn : 0 < n)
    (hlo : v.clusterIndex pos ≤ hi) (hhi : hi ≤ v.clusterIndex (pos + n - 1))
    (hno : ¬v.Reaches f c (v.clusterIndex pos) hi b) : v.chunk pos n < n := by
  apply Nat.lt_of_le_of_ne (v.chunk_le pos n)
  intro heq
  have hlast := hg.chunk_last hn pos
  rw [heq] at hlast
  rw [hlast] at hhi
  obtain rfl := Nat.le_antisymm hlo hhi
  exact hno (hf.reaches c b)

theorem readLoop_run (h : FileOk v f x) (ha : Aside v x b) {fuel : ℕ} (hfuel : size - k ≤ fuel)
    (hn : n = min ((v.inode f).fileSize - pos) (size - k))
    (hreach : 0 < n → ∀ c, x.cells[v.clusterIndex pos]? = some c →
      v.Reaches f c (v.clusterIndex pos) (v.clusterIndex (pos + n - 1)) b) :
    ∃ w, (readLoop f size fuel k pos b).run v = (.ok ((List.range n).map fun j => v.fileByte x (pos + j)), w) ∧
      Moved f v w ∧ BuffersOk w ∧ CursorOk w f x := by
  induction fuel generalizing v k pos n b with
  | zero =>
    obtain rfl : n = 0 := by omega
    exact ⟨v, rfl, Moved.refl f v, h.sound.buffers, h.cursor⟩
  | succ fuel ih =>
    rcases Nat.eq_zero_or_pos n with rfl | hpos
    · refine ⟨v, ?_, Moved.refl f v, h.sound.buffers, h.cursor⟩
      have hstop : ¬(k < size ∧ pos < (v.inode f).fileSize) := by omega
      rw [readLoop, run_bind_state, if_neg hstop]
      rfl
    · have hc := List.getElem?_eq_getElem (h.clusterIndex_lt (show pos < (v.inode f).fileSize by omega))
      have hlast := h.clusterIndex_lt (show pos + n - 1 < (v.inode f).fileSize by omega)
      have hreach := hreach hpos _ hc
      have hf := hreach.fetchable (clusterIndex_mono (by omega))
      obtain ⟨s, u, hr⟩ := exists_round h ha hf hc
      have hm := hr.moved
      have hle := v.chunk_le pos n
      have hchunk := h.sound.geo.chunk_pos hpos pos
      have hend : pos + v.chunk pos n + (n - v.chunk pos n) - 1 = pos + n - 1 := by omega
      have hrest : n - v.chunk pos n = min ((v.inode f).fileSize - (pos + v.chunk pos n)) (size - (k + v.chunk pos n)) := by
        omega
      rw [← hm.inode] at hrest
      obtain ⟨w, hrun, hmw, hb, hcur⟩ := ih (h.round hr) (hr.aside h.owned hc (SameWay.refl ..)) (by omega) hrest
        (fun hlt d hd => by
          rw [hend, hm.clusterIndex (pos + n - 1), hr.advance h ha hf hc (by omega) hlast (SameWay.refl ..) hm.clusterBytes hd]
          exact hreach)
      refine ⟨w, ?_, hm.trans hmw, hb, hcur⟩
      rw [readLoop_round h hpos hn hc hr, run_bind_ok hrun]
      have hsplit := List.range_add (n := v.chunk pos n) (m := n - v.chunk pos n)
      rw [Nat.add_sub_of_le hle] at hsplit
      rw [hsplit, List.map_append, List.map_map]
      simp only [hm.fileByte, Nat.add_assoc]
      rfl

theorem readLoop_hang (h : FileOk v f x) (ha : Aside v x b) {fuel : ℕ} (hfuel : size - k ≤ fuel)
    (hn : n = min ((v.inode f).fileSize - pos) (size - k)) (hpos : 0 < n) (hc : x.cells[v.clusterIndex pos]? = some c)
    (hno : ¬v.Reaches f c (v.clusterIndex pos) (v.clusterIndex (pos + n - 1)) b) :
    ∃ w, (readLoop f size fuel k pos b).run v = (.hang, w) := by
  induction fuel generalizing v k pos n b c with
  | zero => omega
  | succ fuel ih =>
    have hlast := h.clusterIndex_lt (show pos + n - 1 < (v.inode f).fileSize by omega)
    by_cases hf : v.Fetchable f (v.clusterIndex pos)
    · obtain ⟨s, u, hr⟩ := exists_round h ha hf hc
      have hm := hr.moved
      have hchunk := h.sound.geo.chunk_pos hpos pos
      have hlt := chunk_lt_of_not_reaches h.sound.geo hf hpos (clusterIndex_mono (by omega)) (Nat.le_refl _) hno
      have hend : pos + v.chunk pos n + (n - v.chunk pos n) - 1 = pos + n - 1 := by omega
      have hd := List.getElem?_eq_getElem ((h.round hr).clusterIndex_lt (show pos + v.chunk pos n < _ by
        rw [hm.inode]
        omega))
      have hrest : n - v.chunk pos n = min ((v.inode f).fileSize - (pos + v.chunk pos n)) (size - (k + v.chunk pos n)) := by
        omega
      rw [← hm.inode] at hrest
      obtain ⟨w, hrun⟩ := ih (h.round hr) (hr.aside h.owned hc (SameWay.refl ..)) (by omega) hrest (by omega) hd
        (by
          rw [hend, hm.clusterIndex (pos + n - 1), hr.advance h ha hf hc hlt hlast (SameWay.refl ..) hm.clusterBytes hd]
          exact hno)
      exact ⟨w, by rw [readLoop_round h hpos hn hc hr, run_bind_hang hrun]⟩
    · obtain ⟨w, hhang⟩ := getFileCluster_hang h.laid h.cursor hf (List.getElem?_eq_some_iff.mp hc).1
      refine ⟨w, ?_⟩
      rw [readLoop, run_bind_state, if_pos (by omega)]
      exact run_bind_hang hhang

/-- Nothing differs but times and file pointers. -/
structure Stamped (f : ℕ) (v w : Volume) : Prop where
  frame : ∃ pfiles files ticks, w = { v with pfiles := pfiles, files := files, ticks := ticks }
  inode : (w.inode f).Alike (v.inode f)
  firstCluster : (w.pfiles (w.files f).pf).firstCluster = (v.pfiles (v.files f).pf).firstCluster
  file : ∃ pos, w.files f = { v.files f with filePointer := pos }

namespace Stamped

theorem refl (f : ℕ) (v : Volume) : Stamped f v v := ⟨⟨_, _, _, rfl⟩, .refl _, rfl, _, rfl⟩

theorem trans (h : Stamped f v w) (h' : Stamped f w u) : Stamped f v u where
  frame := by
    obtain ⟨p, t, n, rfl⟩ := h.frame
    obtain ⟨p', t', n', rfl⟩ := h'.frame
    exact ⟨p', t', n', rfl⟩
  inode := h'.inode.trans h.inode
  firstCluster := h'.firstCluster.trans h.firstCluster
  file := by
    obtain ⟨m, hm⟩ := h.file
    obtain ⟨n, hn⟩ := h'.file
    exact ⟨n, by rw [hn, hm]⟩

theorem setPointer (f pos : ℕ) (v : Volume) : Stamped f v (v.setPointer f pos) := by
  have hself : (v.setPointer f pos).files f = { v.files f with filePointer := pos } := if_pos rfl
  have hpf : ((v.setPointer f pos).files f).pf = (v.files f).pf := by rw [hself]
  refine ⟨⟨_, _, _, rfl⟩, ?_, ?_, pos, hself⟩
  · rw [Volume.inode, hpf]
    exact .refl _
  · rw [hpf]
    rfl

theorem ticks (f n : ℕ) (v : Volume) : Stamped f v { v with ticks := n } := ⟨⟨_, _, _, rfl⟩, .refl _, rfl, _, rfl⟩

theorem setInode (v : Volume) (f : ℕ) {g : Inode → Inode} (hg : ∀ i : Inode, (g i).Alike i) :
    Stamped f v (v.setInode f g) := by
  refine ⟨⟨_, _, _, rfl⟩, ?_, ?_, _, rfl⟩
  · have : (v.setInode f g).inode f = g (v.inode f) := by simp [Volume.setInode, Volume.setPFile, Volume.inode]
    rw [this]
    exact hg _
  · simp [Volume.setInode, Volume.setPFile]

variable (h : Stamped f v w)
include h

theorem links (hx : Links v f x) : Links w f x := by
  apply hx.congr (fun k hk => h.inode.dcluster k hk) h.inode.iclustersHead h.firstCluster
  · obtain ⟨p, t, n, rfl⟩ := h.frame
    rfl
  · obtain ⟨p, t, n, rfl⟩ := h.frame
    exact fun _ _ => rfl

theorem fileOk (hx : FileOk v f x) : FileOk w f x := by
  have hlinks := h.links hx.laid.toLinks
  have hcount := h.inode.clustersCount.trans hx.laid.count
  have hroom := hx.room
  have hs := hx.sound
  have hcur := hx.cursor
  obtain ⟨pos, hfile⟩ := h.file
  rw [← h.inode.fileSize] at hroom
  obtain ⟨p, t, n, rfl⟩ := h.frame
  refine ⟨⟨⟨hs.geo.log, hs.geo.count, hs.geo.bitmap, hs.geo.root, hs.geo.device⟩, hs.buffers, hs.system, hs.accounted⟩,
    ⟨hlinks, hcount, hx.laid.numPtrs⟩, ⟨hx.owned.nodup, hx.owned.area, hx.owned.allocated⟩, ?_, hroom⟩
  unfold CursorOk
  rw [hfile]
  exact hcur

theorem contents (x : Node) : contents w f x = contents v f x := by
  have hsize := h.inode.fileSize
  unfold Leanfs.contents
  rw [hsize]
  obtain ⟨p, t, n, rfl⟩ := h.frame
  rfl

end Stamped

theorem setAccTime_alike (n : ℕ) (i : Inode) : (i.setAccTime n).Alike i := Inode.alike_setWord (.inl rfl) ..

theorem setModTime_alike (n : ℕ) (i : Inode) : (i.setModTime n).Alike i := Inode.alike_setWord (.inr (.inr rfl)) ..

/-- Whether the clusters with the indices from `lo` to `hi` can be gone through. -/
def Volume.Passable (v : Volume) (f lo hi : ℕ) : Prop := v.Reaches f (v.directCluster f lo) lo hi .null

instance (v : Volume) (f lo hi : ℕ) : Decidable (v.Passable f lo hi) := inferInstanceAs (Decidable (_ → _))

theorem passable_iff (hl : Laid v f x) (hc : x.cells[lo]? = some c) : v.Passable f lo hi ↔ v.Reaches f c lo hi .null := by
  unfold Volume.Passable Volume.Reaches
  apply imp_congr_right
  intro _
  by_cases hlt : lo < 16
  · rw [hl.directCluster hlt hc]
  · rw [if_neg hlt, if_neg hlt]

theorem Stamped.sameWay (h : Stamped f v w) : SameWay f v w where
  buffers := by
    obtain ⟨p, t, n, rfl⟩ := h.frame
    exact ⟨rfl, rfl⟩
  files := by
    obtain ⟨pos, hfile⟩ := h.file
    rw [hfile]
    exact ⟨rfl, rfl⟩
  head := h.inode.iclustersHead

theorem SameWay.reaches (h : SameWay f v w) : w.Reaches f c lo hi b ↔ v.Reaches f c lo hi b := by
  have hfor : w.bufferFor c b = v.bufferFor c b := by
    simp only [Volume.bufferFor, Volume.searchForBuffer, h.buffers.2]
    cases b with
    | null => simp only [Volume.given, h.buffers.1]
    | buf s => rfl
    | unset => rfl
  unfold Volume.Reaches
  simp only [hfor, h.searchStart, h.fetchable, Volume.Buffered, Volume.useBuffer, h.buffers.2]

theorem Stamped.passable (h : Stamped f v w) : w.Passable f lo hi ↔ v.Passable f lo hi := by
  unfold Volume.Passable
  rw [h.sameWay.reaches]
  unfold Volume.Reaches
  apply imp_congr_right
  intro _
  by_cases hlt : lo < 16
  · have hd : w.directCluster f lo = v.directCluster f lo := by
      unfold Volume.directCluster
      by_cases h0 : lo = 0
      · rw [if_pos h0, if_pos h0, h.firstCluster]
      · rw [if_neg h0, if_neg h0, h.inode.dcluster (lo - 1) (by omega)]
    rw [hd]
  · rw [if_neg hlt, if_neg hlt]

/-- Whether `size` bytes from the file pointer on, or as many as there are, can be read. -/
def Volume.ReadPassable (v : Volume) (f size : ℕ) : Prop :=
  let pos := (v.files f).filePointer
  let n := min ((v.inode f).fileSize - pos) size
  n ≠ 0 → v.Passable f (v.clusterIndex pos) (v.clusterIndex (pos + n - 1))

instance (v : Volume) (f size : ℕ) : Decidable (v.ReadPassable f size) := inferInstanceAs (Decidable (_ → _))

/-- A file has been read, up to `pos`. -/
structure ReadTo (v : Volume) (f : ℕ) (x : Node) (pos : ℕ) (w : Volume) : Prop where
  ok : FileOk w f x
  step : ∃ u, Moved f v u ∧ Stamped f u w
  pointer : (w.files f).filePointer = pos

theorem take_drop_contents (v : Volume) (f : ℕ) (x : Node) (pos m : ℕ) :
    ((contents v f x).drop pos).take m =
      (List.range (min ((v.inode f).fileSize - pos) m)).map fun j => v.fileByte x (pos + j) := by
  apply List.ext_getElem
  · simp [contents, Nat.min_comm]
  · intro i hi hi'
    simp [contents]

theorem leanfsRead_run (h : FileOk v f x) (hr : (v.files f).isReadable = true) (hp : v.ReadPassable f size) :
    ∃ w, (leanfsRead f size).run v = (.ok (((contents v f x).drop (v.files f).filePointer).take size), w) ∧
      ReadTo v f x ((v.files f).filePointer + min ((v.inode f).fileSize - (v.files f).filePointer) size) w := by
  obtain ⟨u, hloop, hm, hb, hcur⟩ := readLoop_run (n := min ((v.inode f).fileSize - (v.files f).filePointer) (size - 0))
    (k := 0) h (b := .null) trivial (Nat.le_refl size) rfl fun hn c hc =>
      (passable_iff h.laid hc).mp (hp (Nat.ne_of_gt hn))
  rw [Nat.sub_zero] at hloop
  have hstamp : ∃ u', (Prog.when (Fat.hasFlag (v.files f).flags oNoatime = false) (do
      let now ← time
      Prog.update (Volume.setInode f (Inode.setAccTime now))) : LeanM Unit).run u = (.ok (), u') ∧ Stamped f u u' := by
    by_cases hno : Fat.hasFlag (v.files f).flags oNoatime = false
    · rw [when_pos hno]
      exact ⟨_, rfl, (Stamped.ticks ..).trans (Stamped.setInode _ f fun i => setAccTime_alike _ i)⟩
    · rw [when_neg hno]
      exact ⟨u, rfl, .refl f u⟩
  obtain ⟨u', hwhen, hu'⟩ := hstamp
  have hst := hu'.trans (Stamped.setPointer f ((v.files f).filePointer + min ((v.inode f).fileSize - (v.files f).filePointer) size) u')
  refine ⟨_, ?_, hst.fileOk (h.moved hm hb hcur), ⟨u, hm, hst⟩, congrArg File.filePointer (if_pos rfl)⟩
  rw [leanfsRead, run_bind_state, if_neg (by rw [hr]; exact Bool.noConfusion), run_bind_ok hloop]
  refine (run_bind_ok hwhen).trans ?_
  rw [take_drop_contents, List.length_map, List.length_range]
  rfl

theorem leanfsRead_hang (h : FileOk v f x) (hr : (v.files f).isReadable = true) (hp : ¬v.ReadPassable f size) :
    ∃ w, (leanfsRead f size).run v = (.hang, w) := by
  obtain ⟨hne, hno⟩ := Classical.not_imp.mp hp
  have hpos := Nat.pos_of_ne_zero hne
  have hc := List.getElem?_eq_getElem (h.clusterIndex_lt (show (v.files f).filePointer < _ by omega))
  rw [passable_iff h.laid hc] at hno
  obtain ⟨u, hloop⟩ := readLoop_hang h (b := .null) trivial (Nat.sub_le size 0) rfl hpos hc hno
  refine ⟨u, ?_⟩
  rw [leanfsRead, run_bind_state, if_neg (by rw [hr]; exact Bool.noConfusion)]
  exact run_bind_hang hloop

end FreeDos32.Leanfs
