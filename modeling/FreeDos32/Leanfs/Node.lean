import FreeDos32.Leanfs.Bitmap

namespace FreeDos32.Leanfs

open Prog

variable {v w u : Volume} {x : Node} {p : BufPtr} {a b c d f i idx j k m n s t : ℕ}

/-- The clusters of a file: those with its inode and its bytes, and the indirect ones. -/
structure Node where
  cells : List ℕ
  ptrs : List ℕ

/-- All clusters of a file. -/
def Node.all (x : Node) : List ℕ := x.cells ++ x.ptrs

/-- The addresses of the clusters are where the driver looks for them. -/
structure Links (v : Volume) (f : ℕ) (x : Node) : Prop where
  first : x.cells[0]? = some (v.pfiles (v.files f).pf).firstCluster
  direct : ∀ n k, n < 15 → x.cells[n + 1]? = some k → (v.inode f).dcluster n = k
  head : ∀ k, x.ptrs[0]? = some k → (v.inode f).iclustersHead = k
  next : ∀ j k k', x.ptrs[j]? = some k → x.ptrs[j + 1]? = some k' → word (v.clusters k) v.iclusterCount = k'
  indirect : ∀ j n k k', x.ptrs[j]? = some k → n < v.iclusterCount →
    x.cells[16 + j * v.iclusterCount + n]? = some k' → word (v.clusters k) n = k'

/-- The inode of an open file leads to the clusters of the file. -/
structure Laid (v : Volume) (f : ℕ) (x : Node) : Prop extends Links v f x where
  count : (v.inode f).clustersCount = x.cells.length
  numPtrs : ∀ j, j < x.ptrs.length ↔ 16 + j * v.iclusterCount < x.cells.length

/-- The clusters of a file are distinct, in the data area of the volume and allocated. -/
structure Owned (v : Volume) (x : Node) : Prop where
  nodup : x.all.Nodup
  area : ∀ k ∈ x.all, v.rootStartCluster ≤ k ∧ k < v.clustersCount
  allocated : ∀ k ∈ x.all, v.allocated k = true

/-- The cached position of an open instance of the file. -/
def CursorOk (v : Volume) (f : ℕ) (x : Node) : Prop :=
  (v.files f).iclusterFirst = 0 ∨
    ∃ j, (v.files f).iclusterFirst = 16 + j * v.iclusterCount ∧ x.ptrs[j]? = some (v.files f).icluster

/-- Nothing differs but the use of the buffers and the cached position of an open instance. -/
def Moved (f : ℕ) (v w : Volume) : Prop :=
  ∃ lru held c n, w = ({ v with lru := lru, held := held } : Volume).setCursor f c n

theorem setCursor_files_ne (h : k ≠ f) (v : Volume) (c n : ℕ) : (v.setCursor f c n).files k = v.files k := if_neg h

theorem setCursor_files_self (v : Volume) (f c n : ℕ) :
    (v.setCursor f c n).files f = { v.files f with icluster := c, iclusterFirst := n } := if_pos rfl

theorem setCursor_pf (v : Volume) (f c n k : ℕ) : ((v.setCursor f c n).files k).pf = (v.files k).pf := by
  by_cases h : k = f
  · rw [h, setCursor_files_self]
  · rw [setCursor_files_ne h]

theorem setCursor_inode (v : Volume) (f c n k : ℕ) : (v.setCursor f c n).inode k = v.inode k := by
  rw [Volume.inode, setCursor_pf]
  rfl

theorem setCursor_same (v : Volume) (f : ℕ) : v.setCursor f (v.files f).icluster (v.files f).iclusterFirst = v := by
  have hfiles : (v.setCursor f (v.files f).icluster (v.files f).iclusterFirst).files = v.files := by
    funext k
    by_cases hk : k = f
    · rw [hk, setCursor_files_self]
    · rw [setCursor_files_ne hk]
  exact congrArg (fun files => { v with files := files }) hfiles

theorem setCursor_setCursor (v : Volume) (f c n c' n' : ℕ) :
    (v.setCursor f c n).setCursor f c' n' = v.setCursor f c' n' := by
  have hfiles : ((v.setCursor f c n).setCursor f c' n').files = (v.setCursor f c' n').files := by
    funext k
    by_cases hk : k = f
    · simp only [hk, setCursor_files_self]
    · simp only [setCursor_files_ne hk]
  exact congrArg (fun files => { v with files := files }) hfiles

namespace Moved

theorem refl (f : ℕ) (v : Volume) : Moved f v v := ⟨_, _, _, _, (setCursor_same v f).symm⟩

theorem trans (h : Moved f v w) (h' : Moved f w u) : Moved f v u := by
  obtain ⟨l, t, c, n, rfl⟩ := h
  obtain ⟨l', t', c', n', rfl⟩ := h'
  exact ⟨l', t', c', n', setCursor_setCursor { v with lru := l', held := t' } f c n c' n'⟩

theorem useBuffer (f : ℕ) (v : Volume) (b c : ℕ) : Moved f v (v.useBuffer b c) :=
  ⟨_, _, _, _, (setCursor_same (v.useBuffer b c) f).symm⟩

theorem setCursor (v : Volume) (f c n : ℕ) : Moved f v (v.setCursor f c n) := ⟨_, _, c, n, rfl⟩

theorem clusters (h : Moved f v w) : w.clusters = v.clusters := by
  obtain ⟨l, t, c, n, rfl⟩ := h
  rfl

theorem inode (h : Moved f v w) (k : ℕ) : w.inode k = v.inode k := by
  obtain ⟨l, t, c, n, rfl⟩ := h
  exact setCursor_inode ..

theorem iclusterCount (h : Moved f v w) : w.iclusterCount = v.iclusterCount := by
  obtain ⟨l, t, c, n, rfl⟩ := h
  rfl

theorem clusterBytes (h : Moved f v w) : w.clusterBytes = v.clusterBytes := by
  obtain ⟨l, t, c, n, rfl⟩ := h
  rfl

theorem deviceEnd (h : Moved f v w) : w.deviceEnd = v.deviceEnd := by
  obtain ⟨l, t, c, n, rfl⟩ := h
  rfl

theorem links (h : Moved f v w) (hx : Links v f x) : Links w f x := by
  obtain ⟨l, t, c, n, rfl⟩ := h
  have hi : (({ v with lru := l, held := t } : Volume).setCursor f c n).inode f = v.inode f := setCursor_inode ..
  constructor
  · rw [setCursor_pf]
    exact hx.first
  · rw [hi]
    exact hx.direct
  · rw [hi]
    exact hx.head
  · exact hx.next
  · exact hx.indirect

theorem laid (h : Moved f v w) (hx : Laid v f x) : Laid w f x where
  toLinks := h.links hx.toLinks
  count := by rw [h.inode, hx.count]
  numPtrs := by
    rw [h.iclusterCount]
    exact hx.numPtrs

theorem owned (h : Moved f v w) (hx : Owned v x) : Owned w x := by
  obtain ⟨l, t, c, n, rfl⟩ := h
  exact ⟨hx.nodup, hx.area, hx.allocated⟩

theorem sound (h : Moved f v w) (hb : BuffersOk w) (hs : Sound v) : Sound w := by
  obtain ⟨l, t, c, n, rfl⟩ := h
  exact ⟨⟨hs.geo.log, hs.geo.count, hs.geo.bitmap, hs.geo.root, hs.geo.device⟩, hb, hs.system, hs.accounted⟩

end Moved

theorem Links.congr (h : Links v f x) (hd : ∀ k < 15, (w.inode f).dcluster k = (v.inode f).dcluster k)
    (hh : (w.inode f).iclustersHead = (v.inode f).iclustersHead)
    (ha : (w.pfiles (w.files f).pf).firstCluster = (v.pfiles (v.files f).pf).firstCluster)
    (hc : w.iclusterCount = v.iclusterCount) (hcl : ∀ k ∈ x.ptrs, w.clusters k = v.clusters k) : Links w f x where
  first := by rw [ha, h.first]
  direct n k hn hk := by rw [hd n hn, h.direct n k hn hk]
  head := by
    rw [hh]
    exact h.head
  next j k k' hk hk' := by
    rw [hc, hcl k (List.mem_of_getElem? hk)]
    exact h.next j k k' hk hk'
  indirect j n k k' hk hn hk' := by
    rw [hc] at hn hk'
    rw [hcl k (List.mem_of_getElem? hk)]
    exact h.indirect j n k k' hk hn hk'

theorem Laid.congr (h : Laid v f x) (hi : w.inode f = v.inode f)
    (ha : (w.pfiles (w.files f).pf).firstCluster = (v.pfiles (v.files f).pf).firstCluster)
    (hc : w.iclusterCount = v.iclusterCount) (hcl : ∀ k ∈ x.ptrs, w.clusters k = v.clusters k) : Laid w f x where
  toLinks := h.toLinks.congr (fun _ _ => by rw [hi]) (by rw [hi]) ha hc hcl
  count := by rw [hi, h.count]
  numPtrs := by
    rw [hc]
    exact h.numPtrs

theorem Laid.cells_pos (h : Laid v f x) : 0 < x.cells.length := (List.getElem?_eq_some_iff.mp h.first).1

/-- The indirect clusters have room for the addresses of all clusters. -/
theorem Laid.le_block (h : Laid v f x) : x.cells.length ≤ 16 + x.ptrs.length * v.iclusterCount :=
  Nat.le_of_not_lt fun hlt => Nat.lt_irrefl _ ((h.numPtrs _).mpr hlt)

theorem Laid.length_ptrs_le (h : Laid v f x) (hpos : 0 < v.iclusterCount) : x.ptrs.length ≤ x.cells.length := by
  rcases Nat.eq_zero_or_pos x.ptrs.length with h0 | hp
  · omega
  · have hlt := (h.numPtrs (x.ptrs.length - 1)).mp (by omega)
    have := Nat.le_mul_of_pos_right (x.ptrs.length - 1) hpos
    omega

theorem Owned.ptrs_lt (ho : Owned v x) (hg : Geo v) : ∀ k ∈ x.ptrs, k < v.deviceEnd := fun k hk =>
  Nat.lt_of_lt_of_le (ho.area k (List.mem_append_right _ hk)).2 hg.device

/-- The number of the indirect clusters of a file with `n` clusters. -/
def ptrsFor (iclusterCount n : ℕ) : ℕ := (n - 16 + (iclusterCount - 1)) / iclusterCount

theorem lt_ptrsFor (hc : 0 < c) : j < ptrsFor c n ↔ 16 + j * c < n := by
  rw [ptrsFor, Nat.lt_iff_add_one_le, Nat.le_div_iff_mul_le hc, Nat.succ_mul]
  omega

theorem ptrsFor_eq (hc : 0 < c) {q : ℕ} (h : ∀ j, 16 + j * c < n ↔ j < q) : ptrsFor c n = q :=
  eq_of_forall_lt_iff fun j => (lt_ptrsFor hc).trans (h j)

theorem ptrsFor_first (hc : 0 < c) (j : ℕ) : ptrsFor c (16 + j * c) = j := by
  apply ptrsFor_eq hc
  intro t
  rw [Nat.add_lt_add_iff_left, Nat.mul_lt_mul_right hc]

theorem ptrsFor_first_succ (hc : 0 < c) (j : ℕ) : ptrsFor c (16 + j * c + 1) = j + 1 := by
  apply ptrsFor_eq hc
  intro t
  rw [Nat.lt_succ_iff, Nat.lt_succ_iff, Nat.add_le_add_iff_left, Nat.mul_le_mul_right_iff hc]

theorem ptrsFor_succ (hc : 0 < c) (h : ∀ j, i ≠ 16 + j * c) : ptrsFor c (i + 1) = ptrsFor c i := by
  apply ptrsFor_eq hc
  intro t
  have := h t
  rw [lt_ptrsFor hc]
  omega

theorem ptrsFor_mono (hc : 0 < c) (h : m ≤ n) : ptrsFor c m ≤ ptrsFor c n := by
  apply le_of_forall_lt
  intro j hj
  rw [lt_ptrsFor hc] at hj ⊢
  omega

theorem Owned.cells_inj (h : Owned v x) (hs : x.cells[s]? = some k) (ht : x.cells[t]? = some k) : s = t := by
  obtain ⟨hs', rfl⟩ := List.getElem?_eq_some_iff.mp hs
  obtain ⟨ht', he⟩ := List.getElem?_eq_some_iff.mp ht
  exact ((h.nodup.of_append_left.getElem_inj_iff).mp he).symm

theorem Owned.ptrs_inj (h : Owned v x) (hs : x.ptrs[s]? = some k) (ht : x.ptrs[t]? = some k) : s = t := by
  obtain ⟨hs', rfl⟩ := List.getElem?_eq_some_iff.mp hs
  obtain ⟨ht', he⟩ := List.getElem?_eq_some_iff.mp ht
  exact ((h.nodup.of_append_right.getElem_inj_iff).mp he).symm

theorem Owned.apart (h : Owned v x) (hs : x.cells[s]? = some k) (ht : x.ptrs[t]? = some k) : False :=
  List.disjoint_of_nodup_append h.nodup (List.mem_of_getElem? hs) (List.mem_of_getElem? ht)

theorem Laid.length_ptrs (h : Laid v f x) (hc : 0 < v.iclusterCount) :
    ptrsFor v.iclusterCount x.cells.length = x.ptrs.length := ptrsFor_eq hc fun j => (h.numPtrs j).symm

/-- A cluster of a file whose address is in the inode. -/
def Volume.directCluster (v : Volume) (f i : ℕ) : ℕ :=
  if i = 0 then (v.pfiles (v.files f).pf).firstCluster else (v.inode f).dcluster (i - 1)

theorem Laid.directCluster (h : Laid v f x) (hi : i < 16) (hk : x.cells[i]? = some k) : v.directCluster f i = k := by
  unfold Volume.directCluster
  by_cases h0 : i = 0
  · subst h0
    rw [h.first] at hk
    rw [if_pos rfl, Option.some.inj hk]
  · rw [if_neg h0]
    exact h.direct (i - 1) k (by omega) (by rwa [Nat.sub_add_cancel (Nat.pos_of_ne_zero h0)])

/-- The walk over `n` indirect clusters that have not the address looked for. -/
structure Walk (f : ℕ) (x : Node) (j n : ℕ) (v : Volume) (p : BufPtr) (w : Volume) (q : BufPtr) : Prop where
  moved : Moved f v w
  buffers : BuffersOk w
  files : w.files = v.files
  still : n = 0 → w = v ∧ q = p
  last : 0 < n → ∃ b c, q = .buf b ∧ b < numBuffers ∧ x.ptrs[j + n - 1]? = some c ∧ w.held b = some c ∧
    Lru.Within 1 b w.lru
  keeps : ∀ k d, v.held k = some d → d ∉ x.ptrs → v.given p ≠ some k → w.held k = some d

theorem fetchLoop_skip (hdev : ∀ k ∈ x.ptrs, k < v.deviceEnd) (h : Laid v f x) (hb : BuffersOk v) (hp : p.Valid)
    (hset : 0 < n → p ≠ .unset ∨ v.Buffered c) (hc : ∀ k, x.ptrs[j]? = some k → c = k)
    (hj : 16 + (j + n) * v.iclusterCount ≤ idx) (hn : j + n ≤ x.ptrs.length) (fuel : ℕ) :
    ∃ w c' q, (fetchLoop f idx (fuel + n) c (16 + j * v.iclusterCount) p).run v =
        (fetchLoop f idx fuel c' (16 + (j + n) * v.iclusterCount) q).run w ∧ Walk f x j n v p w q ∧
      ∀ k, x.ptrs[j + n]? = some k → c' = k := by
  induction n generalizing v j c p with
  | zero => exact ⟨v, c, p, rfl, ⟨Moved.refl f v, hb, rfl, fun _ => ⟨rfl, rfl⟩, nofun, fun k d hk _ _ => hk⟩, hc⟩
  | succ n ih =>
    have hjlt : j < x.ptrs.length := by omega
    have hptr : x.ptrs[j]? = some x.ptrs[j] := List.getElem?_eq_getElem hjlt
    obtain rfl := hc _ hptr
    obtain ⟨b, hrun, hch⟩ := readbuf_run hb hp (hset n.succ_pos) (hdev _ (List.getElem_mem hjlt))
    have hnext : 16 + j * v.iclusterCount + v.iclusterCount = 16 + (j + 1) * v.iclusterCount := by
      rw [Nat.succ_mul, Nat.add_assoc]
    have hmono : (j + 1) * v.iclusterCount ≤ (j + (n + 1)) * v.iclusterCount := Nat.mul_le_mul_right _ (by omega)
    have hout : ¬(16 + j * v.iclusterCount ≤ idx ∧ idx < 16 + j * v.iclusterCount + v.iclusterCount) := by omega
    have hm : Moved f v (v.useBuffer b x.ptrs[j]) := Moved.useBuffer ..
    obtain ⟨w, c', q, hloop, hw, hc'⟩ := ih (v := v.useBuffer b x.ptrs[j]) (j := j + 1) (p := .buf b)
      (c := word ((v.useBuffer b x.ptrs[j]).data b) v.iclusterCount) hdev (hm.laid h) (hb.useBuffer hch.lt _) hch.lt
      (fun _ => .inl nofun) (fun k hk => by rw [useBuffer_data]; exact h.next j _ k hptr hk)
      (by rw [show j + 1 + n = j + (n + 1) by omega]; exact hj) (by omega)
    rw [show j + 1 + n = j + (n + 1) by omega] at hloop hc'
    refine ⟨w, c', q, ?_, ⟨hm.trans hw.moved, hw.buffers, hw.files, nofun, fun _ => ?_, fun k d hk hd hg => ?_⟩, hc'⟩
    · rw [← Nat.add_assoc, fetchLoop, run_bind_state, h.count, if_pos ((h.numPtrs j).mp hjlt),
        run_bind_ok (run_attempt_ok hrun)]
      dsimp only
      rw [run_bind_state, if_neg (by exact hout)]
      have hloop' : (fetchLoop f idx (fuel + n) _ (16 + (j + 1) * v.iclusterCount) _).run _ = _ := hloop
      rw [← hnext] at hloop'
      exact hloop'
    · cases n with
      | zero =>
        obtain ⟨rfl, rfl⟩ := hw.still rfl
        exact ⟨b, _, rfl, hch.lt, hptr, useBuffer_held_self .., within_useBuffer ..⟩
      | succ n =>
        obtain ⟨b', c', hq⟩ := hw.last n.succ_pos
        rw [show j + 1 + (n + 1) - 1 = j + (n + 1 + 1) - 1 by omega] at hq
        exact ⟨b', c', hq⟩
    · have hk' := hch.keeps hk hg
      apply hw.keeps k d hk' hd
      rintro he
      obtain rfl := Option.some.inj he
      rw [useBuffer_held_self] at hk'
      exact hd (Option.some.inj hk' ▸ List.getElem_mem hjlt)

/-- Where a search starts. -/
theorem searchStart_eq (h : Laid v f x) (hcur : CursorOk v f x) (h16 : 16 ≤ idx) :
    ∃ j, (v.searchStart f idx).2 = 16 + j * v.iclusterCount ∧ 16 + j * v.iclusterCount ≤ idx ∧
      (∀ k, x.ptrs[j]? = some k → (v.searchStart f idx).1 = k) ∧ j ≤ x.ptrs.length ∧ (j = 0 ∨ j < x.ptrs.length) := by
  unfold Volume.searchStart
  dsimp only
  by_cases hno : (v.files f).iclusterFirst = 0 ∨ idx < (v.files f).iclusterFirst
  · rw [if_pos hno]
    exact ⟨0, by rw [Nat.zero_mul]; rfl, by omega, h.head, Nat.zero_le _, .inl rfl⟩
  · rw [if_neg hno]
    obtain ⟨j, hfirst, hptr⟩ := hcur.resolve_left fun h0 => hno (.inl h0)
    have hlt := (List.getElem?_eq_some_iff.mp hptr).1
    refine ⟨j, hfirst, by omega, fun k hk => ?_, by omega, .inr hlt⟩
    rw [hptr] at hk
    exact Option.some.inj hk

/-- A buffer has the indirect cluster with an address, and the cached position is there. -/
structure At (w : Volume) (f : ℕ) (x : Node) (idx j b : ℕ) : Prop where
  lt : b < numBuffers
  ptr : x.ptrs[j]? = some (w.files f).icluster
  first : (w.files f).iclusterFirst = 16 + j * w.iclusterCount
  held : w.held b = some (w.files f).icluster
  recent : Lru.Within 1 b w.lru
  le : 16 + j * w.iclusterCount ≤ idx
  inside : idx < 16 + (j + 1) * w.iclusterCount

theorem At.cursor (h : At w f x idx j b) : CursorOk w f x := .inr ⟨j, h.first, h.ptr⟩

theorem searchStart_fetch (hp : p = .null ∨ p = .unset ∧ v.Buffered c) : p.Valid ∧ (p ≠ .unset ∨ v.Buffered c) := by
  rcases hp with rfl | ⟨rfl, hc⟩
  · exact ⟨trivial, .inl nofun⟩
  · exact ⟨trivial, .inr hc⟩

/-- The address of a cluster is in an indirect cluster of the file. -/
theorem fetchIndirect_in (hdev : ∀ k ∈ x.ptrs, k < v.deviceEnd) (h : Laid v f x) (hb : BuffersOk v)
    (hcur : CursorOk v f x) (hp : p = .null ∨ p = .unset ∧ v.Buffered (v.searchStart f idx).1) (h16 : 16 ≤ idx)
    (hidx : idx < 16 + x.ptrs.length * v.iclusterCount) (hpos : 0 < v.iclusterCount) :
    ∃ w j b, (leanfsFetchIndirect f idx p).run v = (.ok (idx - (16 + j * v.iclusterCount), .buf b), w) ∧
      At w f x idx j b ∧ Moved f v w ∧ BuffersOk w ∧
      ∀ k d, v.held k = some d → d ∉ x.ptrs → v.given p ≠ some k → w.held k = some d := by
  obtain ⟨hval, hset⟩ := searchStart_fetch hp
  obtain ⟨j, hfirst, hjle, hc, -, -⟩ := searchStart_eq h hcur h16
  -- the indirect cluster that has the address is `n` further on
  obtain ⟨n, hn⟩ : ∃ n, (idx - 16) / v.iclusterCount = j + n := by
    apply Nat.exists_eq_add_of_le
    rw [Nat.le_div_iff_mul_le hpos]
    omega
  have hdiv := Nat.div_mul_le_self (idx - 16) v.iclusterCount
  have hmod := Nat.lt_div_mul_add (a := idx - 16) hpos
  rw [hn] at hdiv hmod
  have hlt : j + n < x.ptrs.length := by
    rw [← hn, Nat.div_lt_iff_lt_mul hpos]
    omega
  obtain ⟨fuel, hfuel⟩ : ∃ fuel, x.cells.length + 1 = fuel + 1 + n := by
    have := h.length_ptrs_le hpos
    exact ⟨x.cells.length - n, by omega⟩
  obtain ⟨w, c, q, hskip, hw, hcw⟩ := fetchLoop_skip (n := n) hdev h hb hval (fun _ => hset) hc
    (show 16 + (j + n) * v.iclusterCount ≤ idx by omega) (Nat.le_of_lt hlt) (fuel + 1)
  have hptr : x.ptrs[j + n]? = some x.ptrs[j + n] := List.getElem?_eq_getElem hlt
  obtain rfl := hcw _ hptr
  have hq : q.Valid ∧ (q ≠ .unset ∨ w.Buffered x.ptrs[j + n]) := by
    rcases Nat.eq_zero_or_pos n with rfl | hn0
    · obtain ⟨rfl, rfl⟩ := hw.still rfl
      rw [hc _ hptr] at hset
      exact ⟨hval, hset⟩
    · obtain ⟨b, c, rfl, hb8, -⟩ := hw.last hn0
      exact ⟨hb8, .inl nofun⟩
  obtain ⟨b, hrun, hch⟩ := readbuf_run hw.buffers hq.1 hq.2 (hw.moved.deviceEnd ▸ hdev _ (List.getElem_mem hlt))
  have hloop : (fetchLoop f idx (x.cells.length + 1) (v.searchStart f idx).1 (v.searchStart f idx).2 p).run v =
      (.ok (x.ptrs[j + n], 16 + (j + n) * v.iclusterCount, .buf b), w.useBuffer b x.ptrs[j + n]) := by
    rw [hfuel, hfirst, hskip, fetchLoop, run_bind_state, hw.moved.inode, h.count, if_pos ((h.numPtrs _).mp hlt),
      run_bind_ok (run_attempt_ok hrun)]
    dsimp only
    rw [run_bind_state, if_pos]
    · rfl
    · change 16 + (j + n) * v.iclusterCount ≤ idx ∧ idx < 16 + (j + n) * v.iclusterCount + w.iclusterCount
      rw [hw.moved.iclusterCount]
      omega
  refine ⟨(w.useBuffer b x.ptrs[j + n]).setCursor f x.ptrs[j + n] (16 + (j + n) * v.iclusterCount), j + n, b, ?_, ?_,
    (hw.moved.trans (Moved.useBuffer ..)).trans (Moved.setCursor ..),
    hw.buffers.useBuffer hch.lt x.ptrs[j + n], fun k d hk hd hg => ?_⟩
  · rw [leanfsFetchIndirect, run_bind_state, h.count]
    dsimp only
    rw [run_bind_ok hloop]
    rfl
  · constructor
    · exact hch.lt
    · rw [setCursor_files_self]
      exact hptr
    · rw [setCursor_files_self]
      exact congrArg (fun m => 16 + (j + n) * m) hw.moved.iclusterCount.symm
    · rw [setCursor_files_self]
      exact useBuffer_held_self ..
    · exact within_useBuffer w b x.ptrs[j + n]
    · change 16 + (j + n) * w.iclusterCount ≤ idx
      rw [hw.moved.iclusterCount]
      omega
    · change idx < 16 + (j + n + 1) * w.iclusterCount
      rw [hw.moved.iclusterCount, Nat.succ_mul]
      omega
  · apply hch.keeps (hw.keeps k d hk hd hg)
    rcases Nat.eq_zero_or_pos n with rfl | hn0
    · obtain ⟨rfl, rfl⟩ := hw.still rfl
      exact hg
    · obtain ⟨b', c, rfl, -, hc', hheld, -⟩ := hw.last hn0
      rintro he
      obtain rfl := Option.some.inj he
      rw [hw.keeps _ d hk hd hg] at hheld
      exact hd (Option.some.inj hheld ▸ List.mem_of_getElem? hc')

/-- The next cluster of a file needs an indirect cluster that there is not yet. -/
theorem fetchIndirect_end (hdev : ∀ k ∈ x.ptrs, k < v.deviceEnd) (h : Laid v f x) (hb : BuffersOk v)
    (hcur : CursorOk v f x) (h16 : 16 ≤ idx) (hidx : idx = 16 + x.ptrs.length * v.iclusterCount)
    (hlen : idx = x.cells.length) (hpos : 0 < v.iclusterCount) :
    ∃ w q, (leanfsFetchIndirect f idx .null).run v = (.ok (0, q), w) ∧ (w.files f).iclusterFirst = idx ∧ Moved f v w ∧
      BuffersOk w ∧ (x.ptrs = [] ∧ q = .null ∨ ∃ b c, q = .buf b ∧ b < numBuffers ∧ x.ptrs.getLast? = some c ∧
        w.held b = some c ∧ Lru.Within 1 b w.lru) ∧
      ∀ k d, v.held k = some d → d ∉ x.ptrs → v.given .null ≠ some k → w.held k = some d := by
  obtain ⟨j, hfirst, hjle, hc, hjlen, hj0⟩ := searchStart_eq h hcur h16
  obtain ⟨n, hn⟩ := Nat.exists_eq_add_of_le hjlen
  obtain ⟨fuel, hfuel⟩ : ∃ fuel, x.cells.length + 1 = fuel + 1 + n := by
    have := h.length_ptrs_le hpos
    exact ⟨x.cells.length - n, by omega⟩
  obtain ⟨w, c, q, hskip, hw, -⟩ := fetchLoop_skip (n := n) (p := .null) hdev h hb trivial
    (fun _ => .inl nofun) hc (show 16 + (j + n) * v.iclusterCount ≤ idx by rw [← hn, ← hidx]) (by omega) (fuel + 1)
  rw [← hn, ← hidx] at hskip
  have hloop : (fetchLoop f idx (x.cells.length + 1) (v.searchStart f idx).1 (v.searchStart f idx).2 .null).run v =
      (.ok (c, idx, q), w) := by
    rw [hfuel, hfirst, hskip, fetchLoop, run_bind_state, hw.moved.inode, h.count, if_neg (by omega)]
    rfl
  refine ⟨w.setCursor f c idx, q, ?_, ?_, hw.moved.trans (Moved.setCursor ..), hw.buffers, ?_, hw.keeps⟩
  · rw [leanfsFetchIndirect, run_bind_state, h.count]
    dsimp only
    rw [run_bind_ok hloop]
    exact congrArg (fun m => (Outcome.ok (m, q), w.setCursor f c idx)) (Nat.sub_self idx)
  · rw [setCursor_files_self]
  · rcases Nat.eq_zero_or_pos n with rfl | hn0
    · have hnil : x.ptrs.length = 0 := by omega
      exact .inl ⟨List.eq_nil_of_length_eq_zero hnil, (hw.still rfl).2⟩
    · obtain ⟨b, d, hq, hb8, hd, hheld, hrec⟩ := hw.last hn0
      rw [← hn, ← List.getLast?_eq_getElem?] at hd
      exact .inr ⟨b, d, hq, hb8, hd, hheld, hrec⟩

/-- Whether the address of a cluster can be fetched: none is in an indirect cluster, or the one that the search
starts with is in a buffer. -/
def Volume.Fetchable (v : Volume) (f idx : ℕ) : Prop := 16 ≤ idx → v.Buffered (v.searchStart f idx).1

instance (v : Volume) (f idx : ℕ) : Decidable (v.Fetchable f idx) := inferInstanceAs (Decidable (_ → _))

/-- What is left behind when the address of a cluster has been looked for. -/
structure Located (v : Volume) (f : ℕ) (x : Node) (idx : ℕ) (w : Volume) : Prop where
  moved : Moved f v w
  buffers : BuffersOk w
  cursor : CursorOk w f x
  at_ : 16 ≤ idx → ∃ j b, At w f x idx j b
  still : idx < 16 → w = v
  keeps : ∀ k d, v.held k = some d → d ∉ x.ptrs → w.held k = some d

theorem getFileCluster_run (hg : Geo v) (hdev : ∀ k ∈ x.ptrs, k < v.deviceEnd) (h : Laid v f x) (hb : BuffersOk v)
    (hcur : CursorOk v f x) (hf : v.Fetchable f idx) (hk : x.cells[idx]? = some k) :
    ∃ w, (leanfsGetFileCluster f idx).run v = (.ok k, w) ∧ Located v f x idx w := by
  have hlt := (List.getElem?_eq_some_iff.mp hk).1
  have hpos := hg.iclusterCount_pos
  rw [leanfsGetFileCluster, run_bind_state]
  by_cases h15 : idx ≤ maxDirectCluster
  · have hstill : Located v f x idx v := ⟨Moved.refl f v, hb, hcur, fun h16 => absurd h15 (Nat.not_le_of_lt h16),
      fun _ => rfl, fun _ _ hk _ => hk⟩
    by_cases h0 : idx = 0
    · subst h0
      rw [h.first] at hk
      rw [if_pos rfl, Option.some.inj hk]
      exact ⟨v, rfl, hstill⟩
    · unfold maxDirectCluster at h15
      have hd := h.direct (idx - 1) k (by omega) (by rwa [Nat.sub_add_cancel (Nat.pos_of_ne_zero h0)])
      rw [if_neg h0, if_pos (by exact h15), hd]
      exact ⟨v, rfl, hstill⟩
  · have h16 : 16 ≤ idx := Nat.lt_of_not_le h15
    rw [if_neg (by omega), if_neg h15]
    obtain ⟨w, j, b, hrun, hat, hm, hb', hkeep⟩ := fetchIndirect_in hdev h hb hcur (.inr ⟨rfl, hf h16⟩) h16
      (Nat.lt_of_lt_of_le hlt h.le_block) hpos
    have hle := hat.le
    have hin := hat.inside
    rw [hm.iclusterCount] at hle hin
    rw [Nat.succ_mul] at hin
    have hword := h.indirect j (idx - (16 + j * v.iclusterCount)) _ k hat.ptr (by omega)
      (by rwa [Nat.add_sub_of_le hle])
    have hsmall : idx - (16 + j * v.iclusterCount) < w.clusterBytes / 4 := by
      rw [hm.clusterBytes]
      unfold Volume.iclusterCount at hin hle ⊢
      omega
    refine ⟨w, ?_, hm, hb', hat.cursor, fun _ => ⟨j, b, hat⟩, fun hlt => by omega, fun k d hk hd => hkeep k d hk hd nofun⟩
    rw [run_bind_ok hrun, run_bind_state]
    dsimp only
    rw [if_pos hsmall, Volume.data, hat.held, hm.clusters]
    exact congrArg (fun y => (Outcome.ok y, w)) hword

/-- Without the first indirect cluster in a buffer, one is given up that the pointer happens to lead to. -/
theorem getFileCluster_hang (h : Laid v f x) (hcur : CursorOk v f x) (hf : ¬v.Fetchable f idx)
    (hlt : idx < x.cells.length) : ∃ w, (leanfsGetFileCluster f idx).run v = (.hang, w) := by
  have h16 : 16 ≤ idx := Nat.le_of_not_lt fun hlt => hf fun h16 => by omega
  have hno : ¬v.Buffered (v.searchStart f idx).1 := fun hb => hf fun _ => hb
  obtain ⟨j, hfirst, hle, -⟩ := searchStart_eq h hcur h16
  refine ⟨v, ?_⟩
  have hloop : (fetchLoop f idx ((v.inode f).clustersCount + 1) (v.searchStart f idx).1 (v.searchStart f idx).2
      .unset).run v = (.hang, v) := by
    rw [fetchLoop, run_bind_state, h.count, hfirst, if_pos (by omega)]
    apply run_bind_hang
    simp only [attempt, readbuf_hang hno]
  rw [leanfsGetFileCluster, run_bind_state, if_neg (by omega), if_neg (by unfold maxDirectCluster; omega)]
  apply run_bind_hang
  rw [leanfsFetchIndirect, run_bind_state]
  exact run_bind_hang hloop

end FreeDos32.Leanfs
