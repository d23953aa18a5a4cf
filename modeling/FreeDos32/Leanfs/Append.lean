import FreeDos32.Leanfs.FindFree
import FreeDos32.Leanfs.Node

namespace FreeDos32.Leanfs

open Prog

variable {v w u : Volume} {x y : Node} {b c f i idx j k n : ℕ}

/-- A cluster has been allocated: the first that was free. -/
structure Allocated (v : Volume) (k : ℕ) (u : Volume) : Prop where
  lt : k < v.clustersCount
  free : v.allocated k = false
  sound : Sound u
  frame : ∃ lru held clusters n, u = { v with lru := lru, held := held, clusters := clusters, freeClustersCount := n }
  allocated : ∀ i, u.allocated i = if i = k then true else v.allocated i
  numFree : u.numFree + 1 = v.numFree
  clusters : ∀ c, v.rootStartCluster ≤ c → u.clusters c = v.clusters c
  keeps : ∀ s e, v.held s = some e → v.rootStartCluster ≤ e → v.given .null ≠ some s → u.held s = some e

theorem allocate_run (hs : Sound v) (hfree : 0 < v.numFree) :
    ∃ k w u, leanfsBitmapFindFree.run v = (.ok k, w) ∧ (leanfsBitmapSet k true).run w = (.ok (), u) ∧ Allocated v k u := by
  obtain ⟨k, hlt, hk, hfirst⟩ := exists_first_free hfree
  obtain ⟨w, hfind, hw⟩ := bitmapFindFree_run hs hlt hk hfirst
  obtain ⟨l, t, rfl⟩ := hw.reread
  have hsw : Sound ({ v with lru := l, held := t } : Volume) :=
    ⟨⟨hs.geo.log, hs.geo.count, hs.geo.bitmap, hs.geo.root, hs.geo.device⟩, hw.buffers, hs.system, hs.accounted⟩
  have hroot : v.rootStartCluster ≤ k := by
    apply Nat.le_of_not_lt
    intro hsys
    rw [hs.system k hsys] at hk
    cases hk
  refine ⟨k, _, _, hfind, bitmapSet_run hsw.counted hlt hk, hlt, hk, (hsw.touch _).mark hlt hroot hk, ⟨_, _, _, _, rfl⟩,
    fun i => allocated_mark _ k i true, numFree_mark_true (v := Volume.touch _ _) hlt hk, fun c hc => ?_,
    fun s e hse he hne => ?_⟩
  · apply mark_clusters
    have := hs.geo.bitmapCluster_lt hlt
    change c ≠ v.bitmapCluster k
    omega
  · change (Volume.touch (v.bitmapCluster k) { v with lru := l, held := t }).held s = some e
    rw [touch_held hw.buffered]
    exact hw.keeps s e hse he hne

namespace Allocated

variable (h : Allocated v k u)
include h

theorem geo : u.logClusterBytes = v.logClusterBytes ∧ u.clustersCount = v.clustersCount ∧
    u.rootStartCluster = v.rootStartCluster ∧ u.deviceEnd = v.deviceEnd := by
  obtain ⟨l, t, d, n, rfl⟩ := h.frame
  exact ⟨rfl, rfl, rfl, rfl⟩

theorem pfiles : u.pfiles = v.pfiles := by
  obtain ⟨l, t, d, n, rfl⟩ := h.frame
  rfl

theorem files : u.files = v.files := by
  obtain ⟨l, t, d, n, rfl⟩ := h.frame
  rfl

theorem inode (g : ℕ) : u.inode g = v.inode g := by
  rw [Volume.inode, h.pfiles, h.files]
  rfl

theorem iclusterCount : u.iclusterCount = v.iclusterCount := by
  rw [Volume.iclusterCount, Volume.clusterBytes, h.geo.1]
  rfl

theorem not_mem (ho : Owned v x) : k ∉ x.all := fun hk => by
  have ha := ho.allocated k hk
  rw [h.free] at ha
  cases ha

theorem links (ho : Owned v x) (hx : Links v f x) : Links u f x := by
  apply hx.congr
  · intro n _
    rw [h.inode]
  · rw [h.inode]
  · rw [h.pfiles, h.files]
  · exact h.iclusterCount
  · intro p hp
    exact h.clusters p (ho.area p (List.mem_append_right _ hp)).1

/-- The file may have the new cluster among its own. -/
theorem owned (hs : Sound v) (ho : Owned v x) (hy : y.all.Perm (k :: x.all)) : Owned u y where
  nodup := hy.nodup_iff.mpr (List.nodup_cons.mpr ⟨h.not_mem ho, ho.nodup⟩)
  area i hi := by
    rw [h.geo.2.1, h.geo.2.2.1]
    rcases List.mem_cons.mp (hy.mem_iff.mp hi) with rfl | hi
    · refine ⟨Nat.le_of_not_lt fun hlt => ?_, h.lt⟩
      have hk := h.free
      rw [hs.system _ hlt] at hk
      cases hk
    · exact ho.area i hi
  allocated i hi := by
    rw [h.allocated]
    split
    · rfl
    · next hne => exact ho.allocated i ((List.mem_cons.mp (hy.mem_iff.mp hi)).resolve_left hne)

end Allocated

theorem setInode_inode (v : Volume) (f : ℕ) (g : Inode → Inode) : (v.setInode f g).inode f = g (v.inode f) := by
  simp [Volume.setInode, Volume.setPFile, Volume.inode]

theorem setInode_firstCluster (v : Volume) (f : ℕ) (g : Inode → Inode) (k : ℕ) :
    ((v.setInode f g).pfiles k).firstCluster = (v.pfiles k).firstCluster := by
  by_cases hk : k = (v.files f).pf <;> simp [Volume.setInode, Volume.setPFile, hk]

/-- The first indirect cluster of a file is linked to its inode. -/
theorem Links.link_first (h : Links v f x) (hk : k < 2 ^ 32) (hlen : x.cells.length ≤ 16) :
    Links (v.setInode f (Inode.setIclustersHead k)) f { x with ptrs := [k] } where
  first := by
    rw [setInode_firstCluster]
    exact h.first
  direct n c hn hc := by
    rw [setInode_inode, ← h.direct n c hn hc]
    exact word_setWord_ne (by omega) ..
  head c hc := by
    obtain rfl := Option.some.inj hc
    rw [setInode_inode]
    exact word_setWord_of_lt hk ..
  next j c c' _ hc' := by
    have hlt : j + 1 < 1 := (List.getElem?_eq_some_iff.mp hc').1
    omega
  indirect j n c c' _ _ hc' := by
    have := (List.getElem?_eq_some_iff.mp hc').1
    dsimp only at this
    omega

theorem setCluster_clusters_ne (h : i ≠ c) (v : Volume) (g : (ℕ → UInt8) → ℕ → UInt8) :
    (v.setCluster c g).clusters i = v.clusters i := if_neg h

theorem setCluster_clusters_self (v : Volume) (c : ℕ) (g : (ℕ → UInt8) → ℕ → UInt8) :
    (v.setCluster c g).clusters c = g (v.clusters c) := if_pos rfl

/-- A further indirect cluster is linked to the last one. -/
theorem Links.link_next (h : Links v f x) (ho : Owned v x) (hlast : x.ptrs[n]? = some c) (hn : n + 1 = x.ptrs.length)
    (hk : k < 2 ^ 32) (hlen : x.cells.length ≤ 16 + x.ptrs.length * v.iclusterCount) :
    Links (v.setCluster c (setWord v.iclusterCount k)) f { x with ptrs := x.ptrs ++ [k] } where
  first := h.first
  direct := h.direct
  head d hd := by
    dsimp only at hd
    rw [List.getElem?_append_left (by omega)] at hd
    exact h.head d hd
  next j d d' hd hd' := by
    dsimp only at hd hd'
    change word ((v.setCluster c (setWord v.iclusterCount k)).clusters d) v.iclusterCount = d'
    have hj : j + 1 < x.ptrs.length + 1 := by
      have := (List.getElem?_eq_some_iff.mp hd').1
      rwa [List.length_append] at this
    rw [List.getElem?_append_left (by omega)] at hd
    by_cases hjn : j = n
    · subst hjn
      rw [hd] at hlast
      obtain rfl := Option.some.inj hlast
      rw [List.getElem?_append_right (by omega), hn, Nat.sub_self] at hd'
      rw [setCluster_clusters_self, word_setWord_of_lt hk]
      exact Option.some.inj hd'
    · rw [List.getElem?_append_left (by omega)] at hd'
      have hne : d ≠ c := by
        rintro rfl
        exact hjn (ho.ptrs_inj hd hlast)
      rw [setCluster_clusters_ne hne]
      exact h.next j d d' hd hd'
  indirect j m d d' hd hm hd' := by
    dsimp only at hd hd'
    change m < v.iclusterCount at hm
    change x.cells[16 + j * v.iclusterCount + m]? = some d' at hd'
    have hlt := (List.getElem?_eq_some_iff.mp hd').1
    have hj : j < x.ptrs.length := by
      apply Nat.lt_of_not_le
      intro hle
      have := Nat.mul_le_mul_right v.iclusterCount hle
      omega
    rw [List.getElem?_append_left hj] at hd
    by_cases hdc : d = c
    · subst hdc
      rw [setCluster_clusters_self, word_setWord_ne (by omega)]
      exact h.indirect j m d d' hd hm hd'
    · rw [setCluster_clusters_ne hdc]
      exact h.indirect j m d d' hd hm hd'

/-- What stays as it is while a file is written to. -/
structure Framed (f : ℕ) (v w : Volume) : Prop where
  geometry : w.logClusterBytes = v.logClusterBytes ∧ w.clustersCount = v.clustersCount ∧
    w.rootStartCluster = v.rootStartCluster ∧ w.deviceEnd = v.deviceEnd
  pf : (w.files f).pf = (v.files f).pf
  flags : (w.files f).flags = (v.files f).flags

theorem Framed.trans (h : Framed f v w) (h' : Framed f w u) : Framed f v u where
  geometry := by
    have h1 := h.geometry
    have h2 := h'.geometry
    exact ⟨h2.1.trans h1.1, h2.2.1.trans h1.2.1, h2.2.2.1.trans h1.2.2.1, h2.2.2.2.trans h1.2.2.2⟩
  pf := h'.pf.trans h.pf
  flags := h'.flags.trans h.flags

theorem Framed.clusterBytes (h : Framed f v w) : w.clusterBytes = v.clusterBytes := by
  rw [Volume.clusterBytes, h.geometry.1]
  rfl

theorem Framed.iclusterCount (h : Framed f v w) : w.iclusterCount = v.iclusterCount := by
  rw [Volume.iclusterCount, h.clusterBytes]
  rfl

theorem Framed.of_moved (h : Moved f v w) : Framed f v w := by
  obtain ⟨l, t, c, n, rfl⟩ := h
  refine ⟨⟨rfl, rfl, rfl, rfl⟩, setCursor_pf .., ?_⟩
  rw [setCursor_files_self]

theorem Framed.of_files (h : w.files = v.files) (hg : w.logClusterBytes = v.logClusterBytes ∧
    w.clustersCount = v.clustersCount ∧ w.rootStartCluster = v.rootStartCluster ∧ w.deviceEnd = v.deviceEnd) :
    Framed f v w := ⟨hg, by rw [h], by rw [h]⟩

/-- The pointer is to where the address of the cluster with index `idx` belongs. -/
def Place (u : Volume) (y : Node) (idx : ℕ) : Pointer → Prop
  | .direct k => idx = k + 1 ∧ k < 15
  | .indirect b n => n < u.iclusterCount ∧ ∃ j c, y.ptrs[j]? = some c ∧ idx = 16 + j * u.iclusterCount + n ∧
    u.held b = some c

/-- The buffer that the pointer is to is the last one that has been used. -/
def Recent (u : Volume) : Pointer → Prop
  | .direct _ => True
  | .indirect b _ => Lru.Within 1 b u.lru

/-- The file is ready for the address of a further cluster. -/
structure Prepared (v : Volume) (f : ℕ) (x y : Node) (pointer : Pointer) (u : Volume) : Prop where
  frame : Framed f v u
  sound : Sound u
  links : Links u f y
  owned : Owned u y
  cursor : CursorOk u f y
  clustersCount : (u.inode f).clustersCount = x.cells.length
  fileSize : (u.inode f).fileSize = (v.inode f).fileSize
  cells : y.cells = x.cells
  numPtrs : y.ptrs.length = ptrsFor v.iclusterCount (x.cells.length + 1)
  clusters : ∀ c ∈ x.cells, u.clusters c = v.clusters c
  numFree : u.numFree + y.ptrs.length = v.numFree + x.ptrs.length
  place : Place u y x.cells.length pointer
  recent : Recent u pointer

/-- A state that has only moved on is ready with the clusters that it has. -/
theorem Prepared.of_moved {pointer : Pointer} (hm : Moved f v w) (hb : BuffersOk w) (hs : Sound v) (hl : Laid v f x)
    (ho : Owned v x) (hcur : CursorOk w f x) (hno : ∀ j, x.cells.length ≠ 16 + j * v.iclusterCount)
    (hplace : Place w x x.cells.length pointer) (hrec : Recent w pointer) : Prepared v f x x pointer w where
  frame := .of_moved hm
  sound := hm.sound hb hs
  links := hm.links hl.toLinks
  owned := hm.owned ho
  cursor := hcur
  clustersCount := by rw [hm.inode, hl.count]
  fileSize := by rw [hm.inode]
  cells := rfl
  numPtrs := by
    have hc := hs.geo.iclusterCount_pos
    rw [ptrsFor_succ hc hno, hl.length_ptrs hc]
  clusters c _ := by rw [hm.clusters]
  numFree := by
    obtain ⟨l, t, c, n, rfl⟩ := hm
    rfl
  place := hplace
  recent := hrec

theorem appendPointer_inner (hs : Sound v) (hl : Laid v f x) (ho : Owned v x) (hcur : CursorOk v f x)
    (hno : ∀ j, x.cells.length ≠ 16 + j * v.iclusterCount) :
    ∃ u pointer, (appendPointer f x.cells.length).run v = (.ok pointer, u) ∧ Prepared v f x x pointer u := by
  have hpos := hl.cells_pos
  by_cases h15 : x.cells.length ≤ maxDirectCluster
  · refine ⟨v, .direct (x.cells.length - 1), ?_, .of_moved (Moved.refl f v) hs.buffers hs hl ho hcur hno ?_ trivial⟩
    · rw [appendPointer, if_pos h15]
      rfl
    · unfold maxDirectCluster at h15
      constructor <;> omega
  · have h16 : 16 ≤ x.cells.length := Nat.lt_of_not_le h15
    have hc := hs.geo.iclusterCount_pos
    have hlt : x.cells.length < 16 + x.ptrs.length * v.iclusterCount :=
      Nat.lt_of_le_of_ne hl.le_block (hno _)
    obtain ⟨w, j, b, hrun, hat, hm, hb, -⟩ := fetchIndirect_in (ho.ptrs_lt hs.geo) hl hs.buffers hcur (.inl rfl) h16 hlt hc
    have hle := hat.le
    have hin := hat.inside
    rw [hm.iclusterCount] at hle hin
    rw [Nat.succ_mul] at hin
    have hne : (w.files f).iclusterFirst ≠ x.cells.length := by
      rw [hat.first, hm.iclusterCount]
      exact (hno j).symm
    refine ⟨w, .indirect b (x.cells.length - (16 + j * v.iclusterCount)), ?_,
      .of_moved hm hb hs hl ho hat.cursor hno ?_ hat.recent⟩
    · rw [appendPointer, if_neg h15, run_bind_ok hrun, run_bind_state, if_neg hne]
      rfl
    · refine ⟨?_, j, _, hat.ptr, ?_, hat.held⟩
      · rw [hm.iclusterCount]
        omega
      · rw [hm.iclusterCount]
        omega

/-- A cluster of the data area has nothing of the bitmap. -/
theorem allocated_setCluster (hg : Geo v) (hc : v.rootStartCluster ≤ c) (hk : k < v.clustersCount)
    (g : (ℕ → UInt8) → ℕ → UInt8) : (v.setCluster c g).allocated k = v.allocated k := by
  have hne : v.bitmapCluster k ≠ c := by
    have := hg.bitmapCluster_lt hk
    omega
  unfold Volume.allocated
  change (word ((v.setCluster c g).clusters (v.bitmapCluster k)) _).testBit _ = _
  rw [setCluster_clusters_ne hne]
  rfl

theorem numFree_setCluster (hg : Geo v) (hc : v.rootStartCluster ≤ c) (g : (ℕ → UInt8) → ℕ → UInt8) :
    (v.setCluster c g).numFree = v.numFree := by
  apply List.countP_congr
  intro k hk
  rw [allocated_setCluster hg hc (List.mem_range.mp hk)]

theorem Sound.setCluster (h : Sound v) (hc : v.rootStartCluster ≤ c) (g : (ℕ → UInt8) → ℕ → UInt8) :
    Sound (v.setCluster c g) where
  geo := ⟨h.geo.log, h.geo.count, h.geo.bitmap, h.geo.root, h.geo.device⟩
  buffers := h.buffers
  system k hk := by
    rw [allocated_setCluster h.geo hc (Nat.lt_trans hk h.geo.root)]
    exact h.system k hk
  accounted := by
    rw [numFree_setCluster h.geo hc]
    exact h.accounted

theorem Owned.setCluster (h : Owned v x) (hg : Geo v) (hc : v.rootStartCluster ≤ c) (g : (ℕ → UInt8) → ℕ → UInt8) :
    Owned (v.setCluster c g) x where
  nodup := h.nodup
  area := h.area
  allocated k hk := by
    rw [allocated_setCluster hg hc (h.area k hk).2]
    exact h.allocated k hk

theorem Sound.setInode (h : Sound v) (f : ℕ) (g : Inode → Inode) : Sound (v.setInode f g) :=
  ⟨⟨h.geo.log, h.geo.count, h.geo.bitmap, h.geo.root, h.geo.device⟩, h.buffers, h.system, h.accounted⟩

theorem Owned.setInode (h : Owned v x) (f : ℕ) (g : Inode → Inode) : Owned (v.setInode f g) x :=
  ⟨h.nodup, h.area, h.allocated⟩

/-- A new indirect cluster has been linked. -/
structure Linked (v : Volume) (f : ℕ) (x : Node) (k : ℕ) (u : Volume) : Prop where
  links : Links u f { x with ptrs := x.ptrs ++ [k] }
  sound : Sound u
  owned : ∀ y, Owned v y → Owned u y
  frame : u = { v with clusters := u.clusters, pfiles := u.pfiles }
  inode : (u.inode f).clustersCount = (v.inode f).clustersCount ∧ (u.inode f).fileSize = (v.inode f).fileSize
  clusters : ∀ c ∈ x.cells, u.clusters c = v.clusters c
  numFree : u.numFree = v.numFree

theorem storeIndirect_run {q : BufPtr} (hs : Sound v) (hl : Links v f x) (ho : Owned v x) (hk : k < v.clustersCount)
    (hidx : x.cells.length = 16 + x.ptrs.length * v.iclusterCount)
    (hq : x.ptrs = [] ∧ q = .null ∨ ∃ b c, q = .buf b ∧ x.ptrs.getLast? = some c ∧ v.held b = some c) :
    ∃ u, (storeIndirect f x.cells.length k q).run v = (.ok (), u) ∧ Linked v f x k u := by
  have hk32 : k < 2 ^ 32 := Nat.lt_trans hk hs.geo.count
  rcases hq with ⟨hnil, rfl⟩ | ⟨b, c, rfl, hlast, hheld⟩
  · have h16 : x.cells.length = maxDirectCluster + 1 := by
      rw [hidx, hnil, List.length_nil, Nat.zero_mul]
      rfl
    have hlinks := hl.link_first hk32 (Nat.le_of_eq h16)
    have happ : x.ptrs ++ [k] = [k] := by rw [hnil, List.nil_append]
    rw [← happ] at hlinks
    refine ⟨_, ?_, hlinks, hs.setInode .., fun y hy => hy.setInode .., rfl, ?_, fun _ _ => rfl, rfl⟩
    · rw [storeIndirect, if_pos h16]
      rfl
    · rw [setInode_inode]
      constructor
      · exact word_setWord_ne (by decide) ..
      · unfold Inode.fileSize Inode.setIclustersHead
        rw [word_setWord_ne (by decide), word_setWord_ne (by decide)]
  · have hpos := hs.geo.iclusterCount_pos
    rw [List.getLast?_eq_getElem?] at hlast
    have hlt := (List.getElem?_eq_some_iff.mp hlast).1
    have hc : v.rootStartCluster ≤ c := (ho.area c (List.mem_append_right _ (List.mem_of_getElem? hlast))).1
    have h16 : x.cells.length ≠ maxDirectCluster + 1 := by
      have := Nat.mul_pos (show 0 < x.ptrs.length by omega) hpos
      unfold maxDirectCluster
      omega
    have hlinks := hl.link_next ho hlast (by omega) hk32 (Nat.le_of_eq hidx)
    refine ⟨_, ?_, hlinks, hs.setCluster hc _, fun y hy => hy.setCluster hs.geo hc _, rfl, ⟨rfl, rfl⟩, fun d hd => ?_,
      numFree_setCluster hs.geo hc _⟩
    · rw [storeIndirect, run_bind_state, if_neg h16]
      exact poke_run hheld _
    · apply setCluster_clusters_ne
      rintro rfl
      obtain ⟨t, ht⟩ := List.mem_iff_getElem?.mp hd
      exact ho.apart ht hlast

theorem setFile_icluster (v : Volume) (f c : ℕ) :
    v.setFile f (fun y => { y with icluster := c }) = v.setCursor f c (v.files f).iclusterFirst := by
  have hfiles : (v.setFile f fun y => { y with icluster := c }).files = (v.setCursor f c (v.files f).iclusterFirst).files := by
    funext k
    by_cases hk : k = f
    · subst hk
      rw [setCursor_files_self]
      exact if_pos rfl
    · rw [setCursor_files_ne hk]
      exact if_neg hk
  exact congrArg (fun files => { v with files := files }) hfiles

theorem appendPointer_first (hs : Sound v) (hl : Laid v f x) (ho : Owned v x) (hcur : CursorOk v f x)
    (hidx : x.cells.length = 16 + x.ptrs.length * v.iclusterCount) (hfree : 0 < v.numFree) :
    ∃ u y pointer, (appendPointer f x.cells.length).run v = (.ok pointer, u) ∧ Prepared v f x y pointer u ∧
      y.ptrs.length = x.ptrs.length + 1 := by
  have hpos := hs.geo.iclusterCount_pos
  obtain ⟨w, q, hfetch, hfirst, hm, hb, hq, -⟩ := fetchIndirect_end (ho.ptrs_lt hs.geo) hl hs.buffers hcur (by omega) hidx
    rfl hpos
  obtain ⟨k, w', u, hfind, hset, hu⟩ := allocate_run (hm.sound hb hs) (by
    obtain ⟨l, t, c, n, rfl⟩ := hm
    exact hfree)
  have how := hm.owned ho
  have hperm : ({ x with ptrs := x.ptrs ++ [k] } : Node).all.Perm (k :: x.all) := by
    unfold Node.all
    rw [← List.append_assoc]
    exact List.perm_append_singleton ..
  -- the last indirect cluster is still in its buffer
  have hq' : x.ptrs = [] ∧ q = .null ∨ ∃ b c, q = .buf b ∧ x.ptrs.getLast? = some c ∧ u.held b = some c := by
    rcases hq with hq | ⟨b, c, rfl, -, hlast, hheld, hrec⟩
    · exact .inl hq
    · have hc := (how.area c (List.mem_append_right _ (List.mem_of_getLast? hlast))).1
      exact .inr ⟨b, c, rfl, hlast, hu.keeps b c hheld hc (given_null_ne hb hrec (by decide))⟩
  have hidx' : x.cells.length = 16 + x.ptrs.length * u.iclusterCount := by rw [hu.iclusterCount, hm.iclusterCount, hidx]
  have hou : Owned u x := ⟨how.nodup, fun i hi => by rw [hu.geo.2.1, hu.geo.2.2.1]; exact how.area i hi, fun i hi => by
    rw [hu.allocated]
    split
    · rfl
    · exact how.allocated i hi⟩
  obtain ⟨d, hstore, hd⟩ := storeIndirect_run hu.sound (hu.links how (hm.links hl.toLinks)) hou
    (by rw [hu.geo.2.1]; exact hu.lt) hidx' hq'
  have hdframe : Framed f u d := by
    rw [hd.frame]
    exact .of_files rfl ⟨rfl, rfl, rfl, rfl⟩
  have huframe : Framed f w u := .of_files hu.files ⟨hu.geo.1, hu.geo.2.1, hu.geo.2.2⟩
  have hframe : Framed f v d := (Framed.of_moved hm).trans (huframe.trans hdframe)
  have hvalid : q.Valid ∧ (q ≠ .unset ∨ d.Buffered k) := by
    rcases hq with ⟨-, rfl⟩ | ⟨b, c, rfl, hb8, -⟩
    · exact ⟨trivial, .inl nofun⟩
    · exact ⟨hb8, .inl nofun⟩
  have hdev : k < d.deviceEnd := by
    have := hd.sound.geo.device
    rw [hdframe.geometry.2.1, hu.geo.2.1] at this
    exact Nat.lt_of_lt_of_le hu.lt this
  obtain ⟨b, hread, hch⟩ := readbuf_run hd.sound.buffers hvalid.1 hvalid.2 hdev
  have hfiles : d.files = w.files := by
    rw [hd.frame]
    exact hu.files
  have hmove : Moved f d ((d.useBuffer b k).setCursor f k (d.files f).iclusterFirst) :=
    (Moved.useBuffer ..).trans (Moved.setCursor ..)
  have hne : ¬x.cells.length ≤ maxDirectCluster := by
    unfold maxDirectCluster
    omega
  refine ⟨_, { x with ptrs := x.ptrs ++ [k] }, .indirect b 0, ?_, ⟨hframe.trans (.of_moved hmove),
    hmove.sound (hd.sound.buffers.useBuffer hch.lt k) hd.sound, hmove.links hd.links,
    hmove.owned (hd.owned _ (hu.owned (hm.sound hb hs) how hperm)), ?_, ?_, ?_, rfl, ?_, ?_, ?_, ?_, within_useBuffer d b k⟩,
    ?_⟩
  · rw [appendPointer, if_neg hne, run_bind_ok hfetch, run_bind_state, if_pos hfirst]
    have hlink : (linkIndirect f x.cells.length q).run w =
        (.ok b, (d.useBuffer b k).setCursor f k (d.files f).iclusterFirst) := by
      rw [linkIndirect, run_bind_ok hfind, run_bind_ok hset, run_bind_ok hstore, run_bind_ok hread, run_bind_update,
        setFile_icluster]
      rfl
    rw [run_bind_ok hlink]
    rfl
  · refine .inr ⟨x.ptrs.length, ?_, ?_⟩
    · rw [setCursor_files_self]
      change (d.files f).iclusterFirst = 16 + x.ptrs.length * d.iclusterCount
      rw [hfiles, hfirst, hframe.iclusterCount, ← hidx]
    · rw [setCursor_files_self]
      exact List.getElem?_concat_length
  · rw [hmove.inode, hd.inode.1, hu.inode, hm.inode, hl.count]
  · rw [hmove.inode, hd.inode.2, hu.inode, hm.inode]
  · rw [List.length_append, List.length_singleton, hidx, ptrsFor_first_succ hpos]
  · intro c hc
    have harea := (how.area c (List.mem_append_left _ hc)).1
    rw [hmove.clusters, hd.clusters c hc, hu.clusters c harea, hm.clusters]
  · have hfree' : u.numFree + 1 = v.numFree := by
      obtain ⟨l, t, c, n, rfl⟩ := hm
      exact hu.numFree
    rw [List.length_append, List.length_singleton, ← hfree', ← hd.numFree, Nat.add_right_comm, Nat.add_assoc]
    rfl
  · refine ⟨?_, x.ptrs.length, k, List.getElem?_concat_length, ?_, useBuffer_held_self ..⟩
    · rw [hmove.iclusterCount, hframe.iclusterCount]
      exact hpos
    · rw [hmove.iclusterCount, hframe.iclusterCount, ← hidx]
      rfl
  · rw [List.length_append, List.length_singleton]

theorem appendPointer_run (hs : Sound v) (hl : Laid v f x) (ho : Owned v x) (hcur : CursorOk v f x)
    (hfree : ptrsFor v.iclusterCount (x.cells.length + 1) ≤ x.ptrs.length + v.numFree) :
    ∃ u y pointer, (appendPointer f x.cells.length).run v = (.ok pointer, u) ∧ Prepared v f x y pointer u := by
  have hpos := hs.geo.iclusterCount_pos
  by_cases hj : ∃ j, x.cells.length = 16 + j * v.iclusterCount
  · obtain ⟨j, hj⟩ := hj
    have hlen : x.ptrs.length = j := by rw [← hl.length_ptrs hpos, hj, ptrsFor_first hpos]
    rw [← hlen] at hj
    rw [hj, ptrsFor_first_succ hpos] at hfree
    obtain ⟨u, y, pointer, hrun, hu, -⟩ := appendPointer_first hs hl ho hcur hj (by omega)
    exact ⟨u, y, pointer, hrun, hu⟩
  · obtain ⟨u, pointer, hrun, hu⟩ := appendPointer_inner hs hl ho hcur (not_exists.mp hj)
    exact ⟨u, x, pointer, hrun, hu⟩

theorem place_inj {c j j' m n : ℕ} (hm : m < c) (hn : n < c) (h : j * c + m = j' * c + n) : j = j' ∧ m = n := by
  have hdiv : (j * c + m) / c = (j' * c + n) / c := by rw [h]
  have hmod : (j * c + m) % c = (j' * c + n) % c := by rw [h]
  have hc : 0 < c := Nat.zero_lt_of_lt hm
  rw [Nat.mul_comm, Nat.mul_add_div hc, Nat.mul_comm, Nat.mul_add_div hc, Nat.div_eq_of_lt hm, Nat.div_eq_of_lt hn] at hdiv
  rw [Nat.mul_comm, Nat.mul_add_mod, Nat.mul_comm, Nat.mul_add_mod, Nat.mod_eq_of_lt hm, Nat.mod_eq_of_lt hn] at hmod
  exact ⟨hdiv, hmod⟩

theorem getElem?_concat {l : List ℕ} {d : ℕ} (h : (l ++ [k])[i]? = some d) : l[i]? = some d ∨ i = l.length ∧ d = k := by
  rcases Nat.lt_trichotomy i l.length with hlt | rfl | hgt
  · rw [List.getElem?_append_left hlt] at h
    exact .inl h
  · rw [List.getElem?_concat_length] at h
    exact .inr ⟨rfl, (Option.some.inj h).symm⟩
  · have := (List.getElem?_eq_some_iff.mp h).1
    rw [List.length_append, List.length_singleton] at this
    omega

theorem Links.store_direct (h : Links v f y) (hlen : y.cells.length = n + 1) (hn : n < 15) (hk : k < 2 ^ 32)
    (g : Inode → Inode) (hg : ∀ i : Inode, (∀ m, (g i).dcluster m = i.dcluster m) ∧ (g i).iclustersHead = i.iclustersHead) :
    Links ((v.setInode f g).setInode f (Inode.setDcluster n k)) f { y with cells := y.cells ++ [k] } where
  first := by
    rw [setInode_firstCluster, setInode_firstCluster, List.getElem?_append_left (by omega)]
    exact h.first
  direct m d hm hd := by
    rw [setInode_inode, setInode_inode]
    rcases getElem?_concat hd with hd | ⟨hm', rfl⟩
    · have hlt := (List.getElem?_eq_some_iff.mp hd).1
      have hne : 6 + m ≠ 6 + n := by omega
      rw [← h.direct m d hm hd, ← (hg (v.inode f)).1 m]
      exact word_setWord_ne hne ..
    · obtain rfl : m = n := by omega
      exact word_setWord_of_lt hk ..
  head d hd := by
    have hne : 21 ≠ 6 + n := by omega
    rw [setInode_inode, setInode_inode, ← h.head d hd, ← (hg (v.inode f)).2]
    exact word_setWord_ne hne ..
  next := h.next
  indirect j m d d' _ _ hd' := by
    have := (List.getElem?_eq_some_iff.mp hd').1
    dsimp only at this
    rw [List.length_append, List.length_singleton] at this
    omega

theorem Links.store_indirect (h : Links v f y) (ho : Owned v y) {j : ℕ} (hc : y.ptrs[j]? = some c)
    (hlen : y.cells.length = 16 + j * v.iclusterCount + n) (hn : n < v.iclusterCount) (hk : k < 2 ^ 32) :
    Links (v.setCluster c (setWord n k)) f { y with cells := y.cells ++ [k] } where
  first := by
    rw [List.getElem?_append_left (by omega)]
    exact h.first
  direct m d hm hd := by
    dsimp only at hd
    rw [List.getElem?_append_left (by omega)] at hd
    exact h.direct m d hm hd
  head := h.head
  next i d d' hd hd' := by
    change word ((v.setCluster c (setWord n k)).clusters d) v.iclusterCount = d'
    rw [← h.next i d d' hd hd']
    by_cases hdc : d = c
    · subst hdc
      rw [setCluster_clusters_self, word_setWord_ne (by omega)]
    · rw [setCluster_clusters_ne hdc]
  indirect i m d d' hd hm hd' := by
    change m < v.iclusterCount at hm
    change (y.cells ++ [k])[16 + i * v.iclusterCount + m]? = some d' at hd'
    rcases getElem?_concat hd' with hd' | ⟨hi, rfl⟩
    · rw [← h.indirect i m d d' hd hm hd']
      have hlt := (List.getElem?_eq_some_iff.mp hd').1
      by_cases hdc : d = c
      · subst hdc
        obtain rfl := ho.ptrs_inj hd hc
        rw [setCluster_clusters_self, word_setWord_ne (by omega)]
      · rw [setCluster_clusters_ne hdc]
    · obtain ⟨rfl, rfl⟩ := place_inj hm hn (show i * v.iclusterCount + m = j * v.iclusterCount + n by omega)
      rw [hd] at hc
      obtain rfl := Option.some.inj hc
      rw [setCluster_clusters_self, word_setWord_of_lt hk]

theorem setClustersCount_alike (n : ℕ) (i : Inode) : (∀ m, (Inode.setClustersCount n i).dcluster m = i.dcluster m) ∧
    (Inode.setClustersCount n i).iclustersHead = i.iclustersHead := by
  constructor
  · intro m
    have hne : 6 + m ≠ 2 := by omega
    exact word_setWord_ne hne ..
  · exact word_setWord_ne (by decide) ..

/-- The address of a further cluster has been stored, and the cluster is counted. -/
structure Stored (v : Volume) (f : ℕ) (y : Node) (k : ℕ) (u : Volume) : Prop where
  links : Links u f { y with cells := y.cells ++ [k] }
  sound : Sound u
  owned : ∀ z, Owned v z → Owned u z
  cursor : CursorOk v f y → CursorOk u f y
  frame : Framed f v u
  clustersCount : (u.inode f).clustersCount = y.cells.length + 1
  fileSize : (u.inode f).fileSize = (v.inode f).fileSize
  clusters : ∀ c ∈ y.cells, u.clusters c = v.clusters c
  numFree : u.numFree = v.numFree

theorem storePointer_run {pointer : Pointer} (hs : Sound v) (hl : Links v f y) (ho : Owned v y)
    (hk : k < v.clustersCount) (hcount : y.cells.length + 1 < 2 ^ 32) (hplace : Place v y y.cells.length pointer) :
    ∃ u, (storePointer f k pointer).run (v.setInode f (Inode.setClustersCount (y.cells.length + 1))) = (.ok (), u) ∧
      Stored v f y k u := by
  have hk32 : k < 2 ^ 32 := Nat.lt_trans hk hs.geo.count
  cases pointer with
  | direct n =>
    obtain ⟨hlen, hn⟩ := hplace
    refine ⟨_, rfl, hl.store_direct hlen hn hk32 _ (setClustersCount_alike _), (hs.setInode ..).setInode ..,
      fun z hz => (hz.setInode ..).setInode .., id, .of_files rfl ⟨rfl, rfl, rfl, rfl⟩, ?_, ?_, fun _ _ => rfl, rfl⟩
    · have hne : 2 ≠ 6 + n := by omega
      rw [setInode_inode, setInode_inode]
      exact (word_setWord_ne hne ..).trans (word_setWord_of_lt hcount ..)
    · have hne : 0 ≠ 6 + n := by omega
      have hne' : 1 ≠ 6 + n := by omega
      rw [setInode_inode, setInode_inode]
      simp only [Inode.fileSize, Inode.setDcluster, Inode.setClustersCount]
      rw [word_setWord_ne hne, word_setWord_ne hne', word_setWord_ne (by decide), word_setWord_ne (by decide)]
  | indirect b n =>
    obtain ⟨hn, j, c, hc, hlen, hheld⟩ := hplace
    have hroot : v.rootStartCluster ≤ c := (ho.area c (List.mem_append_right _ (List.mem_of_getElem? hc))).1
    have hi : ∀ g, (v.setInode f g).inode f = g (v.inode f) := setInode_inode v f
    have hl' : Links (v.setInode f (Inode.setClustersCount (y.cells.length + 1))) f y := by
      refine hl.congr (fun m _ => ?_) ?_ (setInode_firstCluster ..) rfl fun _ _ => rfl
      · rw [hi]
        exact (setClustersCount_alike _ _).1 m
      · rw [hi]
        exact (setClustersCount_alike _ _).2
    refine ⟨_, poke_run (v := v.setInode f _) hheld _, hl'.store_indirect (ho.setInode ..) hc hlen hn hk32, (hs.setInode ..).setCluster hroot _,
      fun z hz => (hz.setInode ..).setCluster (hs.setInode f _).geo hroot _, id, .of_files rfl ⟨rfl, rfl, rfl, rfl⟩, ?_, ?_,
      fun d hd => ?_, numFree_setCluster (hs.setInode f _).geo hroot _⟩
    · change ((v.setInode f _).inode f).clustersCount = _
      rw [hi]
      exact word_setWord_of_lt hcount ..
    · change ((v.setInode f _).inode f).fileSize = _
      rw [hi]
      simp only [Inode.fileSize, Inode.setClustersCount]
      rw [word_setWord_ne (by decide), word_setWord_ne (by decide)]
    · apply setCluster_clusters_ne
      rintro rfl
      obtain ⟨t, ht⟩ := List.mem_iff_getElem?.mp hd
      exact ho.apart ht hc

/-- A file with a further cluster. -/
structure Appended (v : Volume) (f : ℕ) (x : Node) (k : ℕ) (w : Volume) (y : Node) : Prop where
  sound : Sound w
  laid : Laid w f y
  owned : Owned w y
  cursor : CursorOk w f y
  frame : Framed f v w
  cells : y.cells = x.cells ++ [k]
  fileSize : (w.inode f).fileSize = (v.inode f).fileSize
  clusters : ∀ c ∈ x.cells, w.clusters c = v.clusters c
  numFree : w.numFree + y.all.length = v.numFree + x.all.length

theorem Owned.length_cells_lt (ho : Owned v y) (hs : Sound v) : y.cells.length < 2 ^ 32 := by
  have hle := length_le_of_lt (List.nodup_append.mp ho.nodup).1
    fun k hk => (ho.area k (List.mem_append_left _ hk)).2
  exact Nat.lt_of_le_of_lt hle hs.geo.count

theorem appendCluster_run (hs : Sound v) (hl : Laid v f x) (ho : Owned v x) (hcur : CursorOk v f x)
    (hfree : ptrsFor v.iclusterCount (x.cells.length + 1) + 1 ≤ x.ptrs.length + v.numFree) :
    ∃ w k y, (leanfsAppendCluster f).run v = (.ok k, w) ∧ Appended v f x k w y := by
  obtain ⟨u, y, pointer, hpointer, hu⟩ := appendPointer_run hs hl ho hcur (by omega)
  have hfree' := hu.numFree
  rw [hu.numPtrs] at hfree'
  obtain ⟨k, w, a, hfind, hset, ha⟩ := allocate_run hu.sound (by omega)
  have hperm : ({ y with cells := y.cells ++ [k] } : Node).all.Perm (k :: y.all) := by
    unfold Node.all
    rw [List.append_assoc]
    exact List.perm_middle
  have howned := ha.owned hu.sound hu.owned hperm
  have hay : Owned a y := ⟨hu.owned.nodup, fun i hi => howned.area i (hperm.mem_iff.mpr (.tail k hi)),
    fun i hi => howned.allocated i (hperm.mem_iff.mpr (.tail k hi))⟩
  have hplace : Place a y y.cells.length pointer := by
    have hp := hu.place
    rw [← hu.cells] at hp
    cases pointer with
    | direct n => exact hp
    | indirect b n =>
      obtain ⟨hn, j, c, hc, hidx, hheld⟩ := hp
      have hroot := (hu.owned.area c (List.mem_append_right _ (List.mem_of_getElem? hc))).1
      have hgiven := given_null_ne hu.sound.buffers (by exact hu.recent) (by decide)
      rw [← ha.iclusterCount] at hn hidx
      exact ⟨hn, j, c, hc, hidx, ha.keeps b c hheld hroot hgiven⟩
  have hlen := howned.length_cells_lt ha.sound
  rw [List.length_append] at hlen
  obtain ⟨d, hstore, hd⟩ := storePointer_run (f := f) ha.sound (ha.links hu.owned hu.links) hay
    (by rw [ha.geo.2.1]; exact ha.lt) hlen hplace
  have haf : Framed f u a := .of_files ha.files ⟨ha.geo.1, ha.geo.2.1, ha.geo.2.2⟩
  have hframe : Framed f v d := hu.frame.trans (haf.trans hd.frame)
  refine ⟨d, k, { y with cells := y.cells ++ [k] }, ?_, hd.sound, ⟨hd.links, ?_, fun j => ?_⟩, hd.owned _ howned, ?_, hframe,
    by rw [hu.cells], ?_, fun c hc => ?_, ?_⟩
  · rw [leanfsAppendCluster, run_bind_state, hl.count, run_bind_ok hpointer, run_bind_ok hfind, run_bind_ok hset,
      run_bind_update, ← hu.cells, run_bind_ok hstore]
    rfl
  · rw [hd.clustersCount, List.length_append]
    rfl
  · rw [List.length_append, List.length_singleton, hframe.iclusterCount, hu.cells, ← lt_ptrsFor hs.geo.iclusterCount_pos,
      ← hu.numPtrs]
  · apply hd.cursor
    have hcu := hu.cursor
    unfold CursorOk at hcu ⊢
    rw [ha.files, ha.iclusterCount]
    exact hcu
  · rw [hd.fileSize, ha.inode, hu.fileSize]
  · have hcy : c ∈ y.cells := by rwa [hu.cells]
    rw [hd.clusters c hcy, ha.clusters c (hu.owned.area c (List.mem_append_left _ hcy)).1, hu.clusters c hc]
  · have h1 := ha.numFree
    have h2 := hu.numFree
    simp only [Node.all, List.length_append, List.length_singleton, hd.numFree, hu.cells]
    omega

end FreeDos32.Leanfs
