import FreeDos32.Leanfs.Node

namespace FreeDos32.Leanfs

open Prog

variable {v v₀ w u : Volume} {x : Node} {a c f i j k m n s t : ℕ}

/-- Changing a bit of the bitmap leaves the indirect clusters of a file alone. -/
theorem Laid.mark (h : Laid v f x) (hg : Geo v) (ho : ∀ p ∈ x.ptrs, v.rootStartCluster ≤ p) (hk : k < v.clustersCount)
    (a : Bool) : Laid (v.mark k a) f x := by
  apply h.congr (w := v.mark k a) rfl rfl rfl
  intro p hp
  apply mark_clusters
  have := hg.bitmapCluster_lt hk
  have := ho p hp
  omega

/-- The clusters that deleting those from index `m` to index `i` frees. -/
def Node.Freed (x : Node) (c m i k : ℕ) : Prop :=
  (∃ t, m ≤ t ∧ t < i ∧ x.cells[t]? = some k) ∨ ∃ j, m ≤ 16 + j * c ∧ 16 + j * c < i ∧ x.ptrs[j]? = some k

/-- Nothing differs but the bitmap, the count of free clusters, the buffers and the cached position of one file. -/
def Touched (f : ℕ) (v w : Volume) : Prop := ∃ lru held clusters free c n,
  w = ({ v with lru := lru, held := held, clusters := clusters, freeClustersCount := free } : Volume).setCursor f c n

namespace Touched

theorem trans (h : Touched f v w) (h' : Touched f w u) : Touched f v u := by
  obtain ⟨l, t, d, r, c, n, rfl⟩ := h
  obtain ⟨l', t', d', r', c', n', rfl⟩ := h'
  exact ⟨l', t', d', r', c', n',
    setCursor_setCursor { v with lru := l', held := t', clusters := d', freeClustersCount := r' } f c n c' n'⟩

theorem of_moved (h : Moved f v w) : Touched f v w := by
  obtain ⟨l, t, c, n, rfl⟩ := h
  exact ⟨l, t, _, _, c, n, rfl⟩

theorem mark (f : ℕ) (v : Volume) (c k : ℕ) (a : Bool) : Touched f v ((v.touch c).mark k a) :=
  ⟨_, _, _, _, _, _, (setCursor_same ((v.touch c).mark k a) f).symm⟩

theorem rootStartCluster (h : Touched f v w) : w.rootStartCluster = v.rootStartCluster := by
  obtain ⟨l, t, d, r, c, n, rfl⟩ := h
  rfl

theorem clustersCount (h : Touched f v w) : w.clustersCount = v.clustersCount := by
  obtain ⟨l, t, d, r, c, n, rfl⟩ := h
  rfl

theorem bitmapCluster (h : Touched f v w) (k : ℕ) : w.bitmapCluster k = v.bitmapCluster k := by
  obtain ⟨l, t, d, r, c, n, rfl⟩ := h
  rfl

theorem inode (h : Touched f v w) (g : ℕ) : w.inode g = v.inode g := by
  obtain ⟨l, t, d, r, c, n, rfl⟩ := h
  exact setCursor_inode ..

theorem files_ne {g : ℕ} (h : Touched f v w) (hg : g ≠ f) : w.files g = v.files g := by
  obtain ⟨l, t, d, r, c, n, rfl⟩ := h
  exact setCursor_files_ne hg ..

theorem pf (h : Touched f v w) (g : ℕ) : (w.files g).pf = (v.files g).pf := by
  obtain ⟨l, t, d, r, c, n, rfl⟩ := h
  exact setCursor_pf ..

theorem references (h : Touched f v w) (g : ℕ) : (w.files g).references = (v.files g).references := by
  by_cases hg : g = f
  · obtain ⟨l, t, d, r, c, n, rfl⟩ := h
    rw [hg, setCursor_files_self]
  · rw [h.files_ne hg]

theorem numFiles (h : Touched f v w) : w.numFiles = v.numFiles := by
  obtain ⟨l, t, d, r, c, n, rfl⟩ := h
  rfl

theorem iclusterCount (h : Touched f v w) : w.iclusterCount = v.iclusterCount := by
  obtain ⟨l, t, d, r, c, n, rfl⟩ := h
  rfl

end Touched

/-- A file some clusters of which have been freed: those in `F`, which are `q`. -/
structure Deleting (v₀ : Volume) (f : ℕ) (x : Node) (F : ℕ → Prop) (q : ℕ) (v : Volume) : Prop where
  sound : Sound v
  laid : Laid v f x
  cursor : CursorOk v f x
  touched : Touched f v₀ v
  allocated : ∀ k, v.allocated k = true ↔ v₀.allocated k = true ∧ ¬F k
  count : v.freeClustersCount = v₀.freeClustersCount + q

namespace Deleting

variable {F G : ℕ → Prop} {q : ℕ}

theorem congr (h : Deleting v₀ f x F q v) (hF : ∀ k, F k ↔ G k) : Deleting v₀ f x G q v :=
  { h with allocated := fun k => by rw [h.allocated, hF] }

theorem moved (h : Deleting v₀ f x F q v) (hm : Moved f v w) (hb : BuffersOk w) (hcur : CursorOk w f x) :
    Deleting v₀ f x F q w where
  sound := hm.sound hb h.sound
  laid := hm.laid h.laid
  cursor := hcur
  touched := h.touched.trans (Touched.of_moved hm)
  allocated := by
    obtain ⟨l, t, c, n, rfl⟩ := hm
    exact h.allocated
  count := by
    obtain ⟨l, t, c, n, rfl⟩ := hm
    exact h.count

/-- Freeing one cluster more. -/
theorem free (h : Deleting v₀ f x F q v) (ho : Owned v₀ x) (hk : k ∈ x.all) (hF : ¬F k) :
    ∃ w, (leanfsBitmapSet k false).run v = (.ok (), w) ∧ w = (v.touch (v.bitmapCluster k)).mark k false ∧
      Deleting v₀ f x (fun d => F d ∨ d = k) (q + 1) w := by
  have ha : v.allocated k = true := (h.allocated k).mpr ⟨ho.allocated k hk, hF⟩
  obtain ⟨hroot, hlt⟩ := ho.area k hk
  rw [← h.touched.rootStartCluster] at hroot
  rw [← h.touched.clustersCount] at hlt
  refine ⟨_, bitmapSet_run h.sound.counted hlt ha, rfl, ?_⟩
  have hs := h.sound.touch (v.bitmapCluster k)
  refine ⟨hs.mark hlt hroot ha, ?_, h.cursor, h.touched.trans (Touched.mark ..), fun d => ?_, ?_⟩
  · apply Laid.mark (v := v.touch (v.bitmapCluster k)) ((Moved.useBuffer f v _ _).laid h.laid) hs.geo ?_ hlt
    intro p hp
    change v.rootStartCluster ≤ p
    rw [h.touched.rootStartCluster]
    exact (ho.area p (List.mem_append_right _ hp)).1
  · rw [allocated_mark]
    by_cases hd : d = k
    · simp [hd]
    · rw [if_neg hd]
      exact (h.allocated d).trans (by simp [hd])
  · exact congrArg (· + 1) h.count

theorem fetch_data (h : Deleting v₀ f x F q v) (ho : Owned v₀ x) (hf : v.Fetchable f i) (hk : x.cells[i]? = some k) :
    ∃ w, (leanfsGetFileCluster f i).run v = (.ok k, w) ∧ Located v f x i w ∧ Deleting v₀ f x F q w := by
  have hdev : ∀ p ∈ x.ptrs, p < v.deviceEnd := by
    intro p hp
    have := (ho.area p (List.mem_append_right _ hp)).2
    have := h.sound.geo.device
    rw [h.touched.clustersCount] at this
    omega
  obtain ⟨w, hrun, hloc⟩ := getFileCluster_run h.sound.geo hdev h.laid h.sound.buffers h.cursor hf hk
  exact ⟨w, hrun, hloc, h.moved hloc.moved hloc.buffers hloc.cursor⟩

end Deleting

/-- What an index of the loop of `leanfs_delete_clusters` adds to the freed clusters. -/
theorem freed_succ {x : Node} (hm : m ≤ i) (k : ℕ) : x.Freed c m (i + 1) k ↔
    x.Freed c m i k ∨ x.cells[i]? = some k ∨ ∃ j, i = 16 + j * c ∧ x.ptrs[j]? = some k := by
  constructor
  · rintro (⟨t, hmt, hti, ht⟩ | ⟨j, hmj, hji, hj⟩)
    · rcases Nat.lt_succ_iff_lt_or_eq.mp hti with hlt | rfl
      · exact .inl (.inl ⟨t, hmt, hlt, ht⟩)
      · exact .inr (.inl ht)
    · rcases Nat.lt_succ_iff_lt_or_eq.mp hji with hlt | he
      · exact .inl (.inr ⟨j, hmj, hlt, hj⟩)
      · exact .inr (.inr ⟨j, he.symm, hj⟩)
  · rintro ((⟨t, hmt, hti, ht⟩ | ⟨j, hmj, hji, hj⟩) | ht | ⟨j, rfl, hj⟩)
    · exact .inl ⟨t, hmt, by omega, ht⟩
    · exact .inr ⟨j, hmj, by omega, hj⟩
    · exact .inl ⟨i, hm, by omega, ht⟩
    · exact .inr ⟨j, hm, by omega, hj⟩

/-- The loop of `leanfs_delete_clusters` at index `i`; it started at index `m`. -/
abbrev DeletedTo (v₀ : Volume) (f : ℕ) (x : Node) (m i : ℕ) : Volume → Prop :=
  Deleting v₀ f x (x.Freed v₀.iclusterCount m i)
    (i - m + (ptrsFor v₀.iclusterCount i - ptrsFor v₀.iclusterCount m))

theorem Owned.not_freed (ho : Owned v x) (hk : x.cells[i]? = some k) : ¬x.Freed c m i k := by
  rintro (⟨t, -, hti, ht⟩ | ⟨j, -, -, hj⟩)
  · exact Nat.ne_of_lt hti (ho.cells_inj ht hk)
  · exact ho.apart hk hj

/-- The assertion of the loop. -/
theorem CursorOk.assertion (h : CursorOk v f x) :
    ¬((v.files f).iclusterFirst ≠ 0 ∧ (v.files f).iclusterFirst ≤ maxDirectCluster) := by
  unfold maxDirectCluster
  rintro ⟨h0, h15⟩
  obtain ⟨j, hj, -⟩ := h.resolve_left h0
  omega

/-- The cached position is not before the indirect cluster with the address `i`. -/
def InUse (v₀ : Volume) (f i : ℕ) (w : Volume) : Prop :=
  16 ≤ (w.files f).iclusterFirst ∧ i < (w.files f).iclusterFirst + v₀.iclusterCount

/-- The search for the next address starts with the indirect cluster that is in use. -/
theorem At.fetchable {b : ℕ} (h : At w f x i j b) (hfiles : u.files f = w.files f)
    (hheld : u.held b = some (w.files f).icluster) : u.Fetchable f (i + 1) := fun _ => by
  have hle := h.le
  have hfirst := h.first
  have hno : ¬((u.files f).iclusterFirst = 0 ∨ i + 1 < (u.files f).iclusterFirst) := by
    rw [hfiles]
    omega
  refine ⟨b, h.lt, ?_⟩
  unfold Volume.searchStart
  dsimp only
  rw [if_neg hno, hfiles]
  exact hheld

/-- An index at which no indirect cluster begins. -/
theorem deleteLoop_inner (h : DeletedTo v₀ f x m i v) (ho : Owned v₀ x) (hm : m ≤ i) (hf : v.Fetchable f i)
    (hk : x.cells[i]? = some k) (hno : ∀ j, i ≠ 16 + j * v₀.iclusterCount) (n : ℕ) :
    ∃ u, (deleteLoop f (n + 1) i).run v = (deleteLoop f n (i + 1)).run u ∧ DeletedTo v₀ f x m (i + 1) u ∧
      (16 ≤ i → u.Fetchable f (i + 1) ∧ InUse v₀ f i u) ∧ (i < 16 → SameBuffers (v.touch (v.bitmapCluster k)) u ∧ u.files = v.files) := by
  obtain ⟨w, hget, hloc, hw⟩ := h.fetch_data ho hf hk
  obtain ⟨u, hset, hueq, hu⟩ := hw.free ho (List.mem_append_left _ (List.mem_of_getElem? hk)) (ho.not_freed hk)
  have hfiles : u.files = w.files := by rw [hueq]; rfl
  refine ⟨u, ?_, ?_, fun h16 => ?_, fun hlt => ?_⟩
  · have hwhen : ¬(i ≠ 0 ∧ i = (w.files f).iclusterFirst) := by
      rintro ⟨h0, hi⟩
      rcases hloc.cursor with hz | ⟨j, hj, -⟩
      · exact h0 (hi.trans hz)
      · rw [hw.touched.iclusterCount] at hj
        exact hno j (hi.trans hj)
    rw [deleteLoop, run_bind_ok hget, run_bind_state, if_neg hloc.cursor.assertion, run_bind_ok hset, run_bind_state,
      hfiles, when_neg hwhen]
    rfl
  · have hc := h.sound.geo.iclusterCount_pos
    rw [h.touched.iclusterCount] at hc
    have hcount : i + 1 - m + (ptrsFor v₀.iclusterCount (i + 1) - ptrsFor v₀.iclusterCount m) =
        i - m + (ptrsFor v₀.iclusterCount i - ptrsFor v₀.iclusterCount m) + 1 := by
      rw [ptrsFor_succ hc hno]
      omega
    unfold DeletedTo
    rw [hcount]
    apply hu.congr
    intro d
    rw [freed_succ hm, hk]
    constructor
    · rintro (hd | rfl)
      · exact .inl hd
      · exact .inr (.inl rfl)
    · rintro (hd | hd | ⟨j, hj, -⟩)
      · exact .inl hd
      · exact .inr (Option.some.inj hd).symm
      · exact absurd hj (hno j)
  · obtain ⟨j, b, hat⟩ := hloc.at_ h16
    have hin := hat.inside
    have hfirst := hat.first
    rw [Nat.succ_mul, ← Nat.add_assoc, ← hfirst, hw.touched.iclusterCount] at hin
    refine ⟨hat.fetchable (congrFun hfiles f) ?_, by rw [hfiles]; omega, by rwa [hfiles]⟩
    rw [hueq]
    exact (touch_keeps hloc.buffers hat.held hat.recent (by decide) _).1
  · obtain rfl := hloc.still hlt
    rw [hueq]
    exact ⟨⟨rfl, rfl⟩, rfl⟩

/-- The index of the first address in an indirect cluster. -/
theorem deleteLoop_first (h : DeletedTo v₀ f x m i v) (ho : Owned v₀ x) (hm : m ≤ i) (hf : v.Fetchable f i)
    (hk : x.cells[i]? = some k) (hi : i = 16 + j * v₀.iclusterCount) (n : ℕ) :
    ∃ u, (deleteLoop f (n + 1) i).run v = (deleteLoop f n (i + 1)).run u ∧ DeletedTo v₀ f x m (i + 1) u ∧
      u.Fetchable f (i + 1) ∧ InUse v₀ f i u := by
  have hc := h.sound.geo.iclusterCount_pos
  rw [h.touched.iclusterCount] at hc
  obtain ⟨w, hget, hloc, hw⟩ := h.fetch_data ho hf hk
  obtain ⟨u, hset, hueq, hu⟩ := hw.free ho (List.mem_append_left _ (List.mem_of_getElem? hk)) (ho.not_freed hk)
  -- the indirect cluster in use is the one that begins here
  obtain ⟨j', b, hat⟩ := hloc.at_ (by omega)
  have hle := hat.le
  have hin := hat.inside
  rw [hw.touched.iclusterCount] at hle hin
  have hj : j' = j := by
    apply Nat.le_antisymm
    · apply Nat.le_of_mul_le_mul_right _ hc
      omega
    · exact Nat.le_of_lt_succ (Nat.lt_of_mul_lt_mul_right (show j * v₀.iclusterCount < (j' + 1) * _ by omega))
  subst hj
  have hptr := hat.ptr
  have hfirst : (w.files f).iclusterFirst = i := by rw [hat.first, hw.touched.iclusterCount, hi]
  have hnot : ¬(x.Freed v₀.iclusterCount m i (w.files f).icluster ∨ (w.files f).icluster = k) := by
    rintro ((⟨t, -, -, ht⟩ | ⟨s, -, hlt, hs⟩) | he)
    · exact ho.apart ht hptr
    · rw [ho.ptrs_inj hs hptr] at hlt
      omega
    · rw [he] at hptr
      exact ho.apart hk hptr
  have hfiles : u.files = w.files := by rw [hueq]; rfl
  obtain ⟨u', hset', hueq', hu'⟩ := hu.free ho (List.mem_append_right _ (List.mem_of_getElem? hptr)) hnot
  refine ⟨u', ?_, ?_, ?_, ?_⟩
  · have hwhen : i ≠ 0 ∧ i = (w.files f).iclusterFirst := ⟨by omega, hfirst.symm⟩
    rw [deleteLoop, run_bind_ok hget, run_bind_state, if_neg hloc.cursor.assertion, run_bind_ok hset, run_bind_state,
      hfiles, when_pos hwhen, run_bind_ok hset']
  · have hmono := ptrsFor_mono hc hm
    have hcount : i + 1 - m + (ptrsFor v₀.iclusterCount (i + 1) - ptrsFor v₀.iclusterCount m) =
        i - m + (ptrsFor v₀.iclusterCount i - ptrsFor v₀.iclusterCount m) + 1 + 1 := by
      rw [hi, ptrsFor_first hc] at hmono
      rw [hi, ptrsFor_first hc, ptrsFor_first_succ hc]
      omega
    unfold DeletedTo
    rw [hcount]
    apply hu'.congr
    intro d
    rw [freed_succ hm, hk]
    constructor
    · rintro ((hd | rfl) | rfl)
      · exact .inl hd
      · exact .inr (.inl rfl)
      · exact .inr (.inr ⟨j', hi, hptr⟩)
    · rintro (hd | hd | ⟨s, hs, hd⟩)
      · exact .inl (.inl hd)
      · exact .inl (.inr (Option.some.inj hd).symm)
      · have hsj : s = j' := Nat.eq_of_mul_eq_mul_right hc (by omega)
        rw [hsj, hptr] at hd
        exact .inr (Option.some.inj hd).symm
  · have hkept := touch_keeps hloc.buffers hat.held hat.recent (by decide) (w.bitmapCluster k)
    have hbuf : u.lru = (w.touch (w.bitmapCluster k)).lru ∧ u.held = (w.touch (w.bitmapCluster k)).held := by
      rw [hueq]
      exact ⟨rfl, rfl⟩
    rw [← hbuf.1, ← hbuf.2] at hkept
    apply hat.fetchable
    · rw [hueq']
      exact congrFun hfiles f
    · rw [hueq']
      exact (touch_keeps hu.sound.buffers hkept.1 hkept.2 (by decide) _).1
  · have hfiles' : u'.files = w.files := by rw [hueq', ← hfiles]; rfl
    unfold InUse
    rw [hfiles', hfirst]
    omega

theorem deleteLoop_step (h : DeletedTo v₀ f x m i v) (ho : Owned v₀ x) (hm : m ≤ i) (hf : v.Fetchable f i)
    (hk : x.cells[i]? = some k) (n : ℕ) :
    ∃ u, (deleteLoop f (n + 1) i).run v = (deleteLoop f n (i + 1)).run u ∧ DeletedTo v₀ f x m (i + 1) u ∧
      (16 ≤ i → u.Fetchable f (i + 1) ∧ InUse v₀ f i u) ∧ (i < 16 → SameBuffers (v.touch (v.bitmapCluster k)) u ∧ u.files = v.files) := by
  by_cases hj : ∃ j, i = 16 + j * v₀.iclusterCount
  · obtain ⟨j, hi⟩ := hj
    obtain ⟨u, hrun, hu, hfetch⟩ := deleteLoop_first h ho hm hf hk hi n
    exact ⟨u, hrun, hu, fun _ => hfetch, fun hlt => by omega⟩
  · exact deleteLoop_inner h ho hm hf hk (not_exists.mp hj) n

/-- Once an address has been fetched from an indirect cluster, the loop goes on to the end. -/
theorem deleteLoop_run (ho : Owned v₀ x) (hm : m ≤ i) (h : DeletedTo v₀ f x m i v) (hf : v.Fetchable f i) (h16 : 16 ≤ i)
    (hn : i + n = x.cells.length) :
    ∃ w, (deleteLoop f n i).run v = (.ok (), w) ∧ DeletedTo v₀ f x m x.cells.length w ∧
      (0 < n → InUse v₀ f (x.cells.length - 1) w) := by
  induction n generalizing i v with
  | zero =>
    obtain rfl : i = x.cells.length := hn
    exact ⟨v, rfl, h, nofun⟩
  | succ n ih =>
    obtain ⟨u, hrun, hu, hfetch, -⟩ := deleteLoop_step h ho hm hf (List.getElem?_eq_getElem (by omega)) n
    obtain ⟨w, hrun', hw, hlast⟩ := ih (by omega) hu (hfetch h16).1 (by omega) (by omega)
    refine ⟨w, hrun.trans hrun', hw, fun _ => ?_⟩
    rcases Nat.eq_zero_or_pos n with rfl | hpos
    · obtain rfl : u = w := congrArg Prod.snd hrun'
      rw [← hn, Nat.add_sub_cancel]
      exact (hfetch h16).2
    · exact hlast hpos

/-- The volume after the bits of some clusters have been looked for. -/
def Volume.touchBits (ks : List ℕ) (v : Volume) : Volume := ks.foldl (fun v k => v.touch (v.bitmapCluster k)) v

theorem touchBits_same (h : SameBuffers v w) (hb : ∀ k, w.bitmapCluster k = v.bitmapCluster k) (ks : List ℕ) :
    SameBuffers (v.touchBits ks) (w.touchBits ks) := by
  induction ks generalizing v w with
  | nil => exact h
  | cons k ks ih =>
    apply ih
    · dsimp only
      rw [hb k]
      exact h.touch _
    · exact hb

/-- The part of the loop that finds the clusters in the inode. -/
theorem deleteLoop_direct (ho : Owned v₀ x) (h₀ : Laid v₀ f x) (hm : m ≤ i) (h : DeletedTo v₀ f x m i v)
    (h16 : i + n ≤ 16) (hn : i + n ≤ x.cells.length) (r : ℕ) :
    ∃ w, (deleteLoop f (r + n) i).run v = (deleteLoop f r (i + n)).run w ∧ DeletedTo v₀ f x m (i + n) w ∧
      SameBuffers (v.touchBits ((List.range' i n).map (v₀.directCluster f))) w ∧ w.files = v.files := by
  induction n generalizing i v with
  | zero => exact ⟨v, rfl, h, ⟨rfl, rfl⟩, rfl⟩
  | succ n ih =>
    have hk : x.cells[i]? = some x.cells[i] := List.getElem?_eq_getElem (by omega)
    obtain ⟨u, hrun, hu, -, hsame⟩ := deleteLoop_step h ho hm (fun h => by omega) hk (r + n)
    obtain ⟨hbuf, hfiles⟩ := hsame (by omega)
    obtain ⟨w, hrun', hw, hbuf', hfiles'⟩ := ih (by omega) hu (by omega) (by omega)
    rw [Nat.succ_add_eq_add_succ] at hrun' hw
    refine ⟨w, hrun.trans hrun', hw, ?_, hfiles'.trans hfiles⟩
    rw [List.range'_succ, List.map_cons, h₀.directCluster (by omega) hk]
    have hb : ∀ k, u.bitmapCluster k = (v.touch (v.bitmapCluster x.cells[i])).bitmapCluster k := fun k =>
      (hu.touched.bitmapCluster k).trans (h.touched.bitmapCluster k).symm
    have := touchBits_same hbuf hb ((List.range' (i + 1) n).map (v₀.directCluster f))
    exact ⟨hbuf'.1.trans this.1, hbuf'.2.trans this.2⟩

/-- Whether the clusters of a file from index `n` on can be looked up: there is none that has its address in an
indirect cluster, or the indirect cluster that the first search starts with is in a buffer by then. -/
def Volume.Deletable (v : Volume) (f n : ℕ) : Prop :=
  (v.inode f).clustersCount ≤ max n 16 ∨
    (v.touchBits ((List.range' n (16 - n)).map (v.directCluster f))).Buffered (v.searchStart f (max n 16)).1

instance (v : Volume) (f n : ℕ) : Decidable (v.Deletable f n) := inferInstanceAs (Decidable (_ ∨ _))

theorem deletedTo_start (hs : Sound v) (hl : Laid v f x) (hcur : CursorOk v f x) (m : ℕ) : DeletedTo v f x m m v where
  sound := hs
  laid := hl
  cursor := hcur
  touched := Touched.of_moved (Moved.refl f v)
  allocated k := by
    have hno : ¬x.Freed v.iclusterCount m m k := by
      rintro (⟨t, hmt, htm, -⟩ | ⟨j, hmj, hjm, -⟩)
      · omega
      · omega
    exact (and_iff_left hno).symm
  count := by omega

theorem searchStart_congr (hi : w.inode f = v.inode f) (hf : w.files = v.files) (i : ℕ) :
    w.searchStart f i = v.searchStart f i := by
  unfold Volume.searchStart
  rw [hi, hf]

/-- The loop of `leanfs_delete_clusters` at the first cluster that has its address in an indirect one. -/
theorem deleteLoop_upTo (hs : Sound v) (hl : Laid v f x) (ho : Owned v x) (hcur : CursorOk v f x)
    (hn : max n 16 ≤ x.cells.length) :
    ∃ w, (deleteLoop f (x.cells.length - n) n).run v = (deleteLoop f (x.cells.length - max n 16) (max n 16)).run w ∧
      DeletedTo v f x n (max n 16) w ∧ ((v.touchBits ((List.range' n (16 - n)).map (v.directCluster f))).Buffered
        (v.searchStart f (max n 16)).1 ↔ w.Fetchable f (max n 16)) := by
  rcases Nat.le_total 16 n with h16 | h16
  · rw [Nat.max_eq_left h16, Nat.sub_eq_zero_of_le h16]
    exact ⟨v, rfl, deletedTo_start hs hl hcur n, fun h _ => h, fun h => h h16⟩
  · rw [Nat.max_eq_right h16] at hn ⊢
    obtain ⟨w, hrun, hw, hbuf, hfiles⟩ := deleteLoop_direct (n := 16 - n) ho hl (Nat.le_refl n)
      (deletedTo_start hs hl hcur n) (by omega) (by omega) (x.cells.length - 16)
    rw [Nat.add_sub_cancel' h16] at hrun hw
    refine ⟨w, ?_, hw, ?_⟩
    · rw [← hrun]
      congr 2
      omega
    · rw [← hbuf.buffered, ← searchStart_congr (hw.touched.inode f) hfiles]
      exact ⟨fun h _ => h, fun h => h (Nat.le_refl 16)⟩

theorem deleteClusters_run (hs : Sound v) (hl : Laid v f x) (ho : Owned v x) (hcur : CursorOk v f x)
    (hn : n ≤ x.cells.length) (hd : v.Deletable f n) :
    ∃ w, (leanfsDeleteClusters f n).run v = (.ok (), w.setInode f (Inode.setClustersCount n)) ∧
      DeletedTo v f x n x.cells.length w ∧
      (max n 16 < x.cells.length → InUse v f (x.cells.length - 1) w) := by
  have hloop : ∃ w, (deleteLoop f (x.cells.length - n) n).run v = (.ok (), w) ∧ DeletedTo v f x n x.cells.length w ∧
      (max n 16 < x.cells.length → InUse v f (x.cells.length - 1) w) := by
    rcases Nat.lt_or_ge x.cells.length (max n 16) with hlt | hle
    rotate_left
    · obtain ⟨w, hrun, hw, hiff⟩ := deleteLoop_upTo hs hl ho hcur hle
      rw [hrun]
      rcases Nat.eq_or_lt_of_le hle with he | hlt
      · rw [he] at hw ⊢
        rw [Nat.sub_self]
        exact ⟨w, rfl, hw, fun h => absurd h (Nat.lt_irrefl _)⟩
      · have hb : w.Fetchable f (max n 16) := by
          apply hiff.mp
          apply hd.resolve_left
          rw [hl.count]
          omega
        obtain ⟨u, hrun', hu, hlast⟩ := deleteLoop_run (n := x.cells.length - max n 16) ho (Nat.le_max_left ..) hw hb
          (Nat.le_max_right ..) (by omega)
        exact ⟨u, hrun', hu, fun _ => hlast (by omega)⟩
    · obtain ⟨w, hrun, hw, -⟩ := deleteLoop_direct (n := x.cells.length - n) ho hl (Nat.le_refl n)
        (deletedTo_start hs hl hcur n) (by omega) (by omega) 0
      rw [Nat.add_sub_cancel' hn, Nat.zero_add] at hrun
      rw [Nat.add_sub_cancel' hn] at hw
      exact ⟨w, hrun, hw, fun h => absurd h (Nat.not_lt_of_gt hlt)⟩
  obtain ⟨w, hrun, hw⟩ := hloop
  refine ⟨w, ?_, hw⟩
  rw [leanfsDeleteClusters, run_bind_state, hl.count, run_bind_ok hrun]
  rfl

theorem deleteClusters_hang (hs : Sound v) (hl : Laid v f x) (ho : Owned v x) (hcur : CursorOk v f x)
    (hd : ¬v.Deletable f n) : ∃ w, (leanfsDeleteClusters f n).run v = (.hang, w) := by
  obtain ⟨hlt, hb⟩ := not_or.mp hd
  rw [hl.count, Nat.not_le] at hlt
  obtain ⟨w, hrun, hw, hiff⟩ := deleteLoop_upTo hs hl ho hcur (Nat.le_of_lt hlt)
  obtain ⟨u, hget⟩ := getFileCluster_hang hw.laid hw.cursor (mt hiff.mpr hb) (by omega)
  refine ⟨u, ?_⟩
  rw [leanfsDeleteClusters, run_bind_state, hl.count]
  apply run_bind_hang
  obtain ⟨r, hr⟩ : ∃ r, x.cells.length - max n 16 = r + 1 := ⟨x.cells.length - max n 16 - 1, by omega⟩
  rw [hrun, hr, deleteLoop]
  exact run_bind_hang hget

end FreeDos32.Leanfs
