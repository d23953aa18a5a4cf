import FreeDos32.Fat.Allocation

namespace FreeDos32.Fat

open Prog

variable {G : Layout} {b : Books} {g : Geometry} {e : ℕ} {m m' : ℕ → UInt8} {u v w z : Volume} {a c x f n : ℕ} {l : List ℕ}

/-- The volume after the clusters `l` have been freed. -/
structure Freed (u : Volume) (l : List ℕ) (w : Volume) : Prop where
  sound : Sound w
  books : books w = (books u).setFree (zeros u.geo w.byte)
  channels : w.channels = u.channels
  lud : w.lud = u.lud
  outside : ∀ p, u.geo.rootSector * u.geo.bytesPerSector ≤ p → w.byte p = u.byte p
  entry : ∀ k < u.geo.numFats, ∀ n ≤ u.geo.dataClusters + 1, fatEntry u.geo w.byte k n =
    if n ∈ l then 0 else fatEntry u.geo u.byte k n

theorem Freed.geo_eq (h : Freed u l w) : w.geo = u.geo := congrArg Books.geo h.books

theorem Freed.free (h : Freed u l w) : w.freeClusters = zeros u.geo w.byte := congrArg Books.freeClusters h.books

theorem Freed.trans {l' : List ℕ} (h : Freed u l v) (h' : Freed v l' w) : Freed u (l ++ l') w := by
  have hg := h.geo_eq
  obtain ⟨hs, hb, hch, hlud, hout, hentry⟩ := h'
  rw [hg] at hb hout hentry
  refine ⟨hs, ?_, hch.trans h.channels, hlud.trans h.lud, fun p hp => (hout p hp).trans (h.outside p hp), fun k hk n hn => ?_⟩
  · rw [hb, h.books]
    rfl
  · rw [hentry k hk n hn, h.entry k hk n hn]
    simp only [List.mem_append]
    by_cases h1 : n ∈ l <;> by_cases h2 : n ∈ l' <;> simp [h1, h2]

theorem links_entry_ne_zero (h : Links (table g m) fatEoc l) (hr : ∀ n ∈ l, g.InRange n) (hx : x ∈ l) :
    table g m x ≠ 0 := by
  rcases h.entry hx with he | he
  · rw [he]
    decide
  · have := (hr _ he).1
    omega

theorem freeCluster_run (hs : Sound u) (hx : u.geo.InRange x) (hused : table u.geo u.byte x ≠ 0)
    (hfree : u.freeClusters = zeros u.geo u.byte) :
    ∃ w, Freed u [x] w ∧ ∀ fuel, (deleteClustersLoop (fuel + 1) x).run u =
      (if table u.geo u.byte x = fatEoc then pure () else deleteClustersLoop fuel (table u.geo u.byte x)).run w := by
  obtain ⟨y, hrun, hy⟩ := readFatEntry_run hs.media hs.geo hx.2
  have hys := hy.sound hs
  have hg : GeoOk u.geo y.cache.deviceEnd := hy.geo ▸ hys.geo
  obtain ⟨z, hrun', hz⟩ := writeFatEntry_run hys.media hys.geo (n := x) (by rw [hy.geo]; exact hx.2) 0
  have hzb : z.byte = storeEntry u.geo x 0 u.byte := by rw [hz.byte, hy.geo, hy.byte]
  have hentry : ∀ k < u.geo.numFats, ∀ n ≤ u.geo.dataClusters + 1, fatEntry u.geo z.byte k n =
      if n ∈ [x] then 0 else fatEntry u.geo u.byte k n := by
    intro k hk n hn
    rw [hzb, fatEntry_storeEntry hg (.inl (by omega)) hx.2 hn hk]
    simp only [List.mem_singleton]
  have hzero : zeros u.geo u.byte + 1 = zeros u.geo z.byte := by
    refine zeros_used hx ?_ hused fun n hn hne => ?_
    · exact (hentry _ hg.active x hx.2).trans (if_pos (by simp))
    · have : table u.geo z.byte n = table u.geo u.byte n :=
        (hentry _ hg.active n hn.2).trans (if_neg (by simpa using hne))
      rw [this]
  have hzfree : z.freeClusters = u.freeClusters :=
    congrArg Books.freeClusters (hz.books.trans hy.books)
  have hcount : (z.freeClusters + 1) % 2 ^ 32 = zeros u.geo z.byte := by
    have hle := zeros_le u.geo z.byte
    have hlim := hg.dataClusters_lt
    omega
  refine ⟨{ z with freeClusters := zeros u.geo z.byte, fsinfoChanged := true },
    ⟨(hz.sound hys).of_same rfl rfl, ?_, hz.channels.trans hy.channels, ?_, fun p hp => ?_, hentry⟩, fun fuel => ?_⟩
  · have hb := hz.books.trans hy.books
    rw [← hb]
    rfl
  · change z.lud = u.lud
    rw [hz.eq, hy.eq]
    rfl
  · change z.byte p = u.byte p
    rw [hzb, storeEntry_outside hg hx.2 hp]
  · rw [deleteClustersLoop, run_bind_ok hrun, run_bind_ok hrun', run_bind_update, hcount]
    rfl

theorem deleteClustersLoop_freed (fuel : ℕ) (hs : Sound u) (hl : Links (table u.geo u.byte) fatEoc (x :: l))
    (hr : ∀ n ∈ x :: l, u.geo.InRange n) (hnd : (x :: l).Nodup) (hfree : u.freeClusters = zeros u.geo u.byte)
    (hfuel : l.length < fuel) : ∃ w, (deleteClustersLoop fuel x).run u = (.ok (), w) ∧ Freed u (x :: l) w := by
  obtain ⟨fuel, rfl⟩ := Nat.exists_eq_succ_of_ne_zero (Nat.ne_of_gt (Nat.zero_lt_of_lt hfuel))
  induction l generalizing fuel u x with
  | nil =>
    obtain ⟨w, hw, hrun⟩ := freeCluster_run hs (hr x (by simp)) (links_entry_ne_zero hl hr (by simp)) hfree
    have hend : table u.geo u.byte x = fatEoc := hl
    rw [hrun, if_pos hend]
    exact ⟨w, rfl, hw⟩
  | cons y l ih =>
    obtain ⟨w, hw, hrun⟩ := freeCluster_run hs (hr x (by simp)) (links_entry_ne_zero hl hr (by simp)) hfree
    have hnext : table u.geo u.byte x = y := hl.1
    have hg := hw.geo_eq
    have hgeo : GeoOk u.geo w.cache.deviceEnd := hg ▸ hw.sound.geo
    have hy := hr y (by simp)
    have hlim := hgeo.dataClusters_lt
    have hne : y ≠ fatEoc := by
      have := hy.2
      unfold fatEoc
      omega
    have hlinks : Links (table w.geo w.byte) fatEoc (y :: l) := by
      refine hl.tail.congr fun n hn => ?_
      have hnx : n ≠ x := fun he => (List.nodup_cons.mp hnd).1 (he ▸ hn)
      rw [hg]
      exact (hw.entry _ hgeo.active n (hr n (List.mem_cons_of_mem _ hn)).2).trans (if_neg (by simpa using hnx))
    rw [List.length_cons] at hfuel
    obtain ⟨fuel, rfl⟩ := Nat.exists_eq_succ_of_ne_zero (n := fuel) (by omega)
    obtain ⟨z, hloop, hz⟩ := ih hw.sound hlinks (fun n hn => by rw [hg]; exact hr n (List.mem_cons_of_mem _ hn))
      (List.nodup_cons.mp hnd).2 (by rw [hg]; exact hw.free) fuel (by omega)
    rw [hrun, hnext, if_neg hne]
    exact ⟨z, hloop, hw.trans hz⟩

theorem length_le_dataClusters (hnd : l.Nodup) (hr : ∀ n ∈ l, g.InRange n) : l.length ≤ g.dataClusters := by
  have hsub : l ⊆ List.range' 2 g.dataClusters := fun n hn => by
    obtain ⟨h1, h2⟩ := hr n hn
    exact List.mem_range'_1.mpr ⟨h1, by omega⟩
  have hle := (List.subperm_of_subset hnd hsub).length_le
  rwa [List.length_range'] at hle

/-- The part of the chain `l` from position `j` on is freed. -/
def CutEntry (g : Geometry) (l : List ℕ) (j : ℕ) (m m' : ℕ → UInt8) : Prop :=
  ∀ k < g.numFats, ∀ n ≤ g.dataClusters + 1, fatEntry g m' k n =
    if n ∈ l.drop j then 0 else if (l.take j).getLast? = some n then fatEoc else fatEntry g m k n

theorem links_cut {t t' : ℕ → ℕ} {j : ℕ} (h : Links t fatEoc l) (hnd : l.Nodup) (hj : j ≤ l.length)
    (ht : ∀ n ∈ l, t' n = if n ∈ l.drop j then 0 else if (l.take j).getLast? = some n then fatEoc else t n) :
    Links t' fatEoc (l.take j) := by
  cases j with
  | zero => trivial
  | succ k =>
    have hk : k < l.length := by omega
    have hdis : ∀ n ∈ l.take (k + 1), n ∉ l.drop (k + 1) := fun n hn hn' =>
      List.disjoint_take_drop hnd (Nat.le_refl _) hn hn'
    have hlast : (l.take (k + 1)).getLast? = some l[k] := by
      rw [List.take_succ_eq_append_getElem hk, List.getLast?_append]
      rfl
    refine h.take (List.getElem?_eq_getElem hk) (fun n hn => ?_) ?_
    · have hn' : n ∈ l.take (k + 1) := by
        rw [List.take_succ_eq_append_getElem hk]
        exact List.mem_append_left _ hn
      rw [ht n (List.mem_of_mem_take hn), if_neg (hdis n hn'), hlast, if_neg]
      rintro ⟨rfl⟩
      have hnd' := List.nodup_append.mp (List.take_succ_eq_append_getElem hk ▸ hnd.sublist (List.take_sublist _ _))
      exact hnd'.2.2 _ hn _ (by simp) rfl
    · have hmem : l[k] ∈ l.take (k + 1) := List.mem_of_getLast? hlast
      rw [ht _ (List.getElem_mem hk), if_neg (hdis _ hmem), if_pos hlast]

section Cut

variable {j : ℕ} {y : FileInfo} (ho : Orderly G b m) (hg : GeoOk b.geo e) (hf : f ∈ b.filesOpen) (hfg : f ∉ G.goneFiles)

include ho hg hf hfg in
theorem Orderly.cut (hd : ¬IsDir m (b.fileAddr f)) (hst : f ∉ G.stale) (hj : j ≤ (G.chain (b.fileAddr f)).length)
    (haddr : y.addr b.geo = b.fileAddr f) (hname : ∀ i < 11, y.de i = (b.file f).de i)
    (hy : FileOk (G.setChain (b.fileAddr f) ((G.chain (b.fileAddr f)).take j) G.loose) b.geo m y)
    (hout : ∀ p, b.geo.rootSector * b.geo.bytesPerSector ≤ p → m' p = m p)
    (hentry : CutEntry b.geo (G.chain (b.fileAddr f)) j m m') :
    Orderly (G.setChain (b.fileAddr f) ((G.chain (b.fileAddr f)).take j) G.loose)
      ((b.setFile f y).setFree (zeros b.geo m')) m' := by
  have hown := (ho.files.file f hf hfg).owner
  have hown' : b.fileAddr f ∈ G.owners := hown
  have hrange := ho.chains.ok _ hown'
  have htable : ∀ n ≤ b.geo.dataClusters + 1, table b.geo m' n = if n ∈ (G.chain (b.fileAddr f)).drop j then 0
      else if ((G.chain (b.fileAddr f)).take j).getLast? = some n then fatEoc else table b.geo m n :=
    fun n hn => hentry _ hg.active n hn
  refine { Recorded.sameSlots (Recorded.setFree (Recorded.setFile ho.toRecorded hf hfg haddr (.of_file hd _) hy hname
    (.inl hst)) (zeros b.geo m')) (hg.sameSlots_of_table hout) with chains := ?_, reserved := ?_, free := rfl }
  · change Chains (table b.geo m') fatEoc b.geo.InRange G.owners (Function.update G.chain (b.fileAddr f) _)
    rw [← Set.insert_eq_of_mem hown']
    refine ho.chains.replace _ (links_cut (ho.chains.links _ hown') (ho.chains.nodup _ hown') hj
      fun n hn => htable n (hrange n hn).2) (fun n hn => hrange n (List.mem_of_mem_take hn))
      ((ho.chains.nodup _ hown').sublist (List.take_sublist _ _)) ?_ ?_
    · exact fun i hi hne n hn hmem => ho.chains.disjoint i hi _ hown' hne n hmem (List.mem_of_mem_take hn)
    · intro i hi hne n hn
      have hnot := ho.chains.disjoint i hi _ hown' hne n hn
      rw [htable n (ho.chains.ok i hi n hn).2, if_neg fun h => hnot (List.mem_of_mem_drop h),
        if_neg fun h => hnot (List.mem_of_mem_take (List.mem_of_getLast? h))]
  · intro k hk n hn
    have hlow : n ∉ G.chain (b.fileAddr f) := fun hm => by
      have := (hrange n hm).1
      omega
    refine (hentry k hk n ?_).trans ?_
    · omega
    · rw [if_neg fun h => hlow (List.mem_of_mem_drop h),
        if_neg fun h => hlow (List.mem_of_mem_take (List.mem_of_getLast? h))]
      exact ho.reserved k hk n hn

end Cut

/-- The layout without one of the owners, whose slot may be loose now. -/
def Layout.drop (G : Layout) (p : ℕ) (L : Set ℕ) : Layout :=
  { G with owners := G.owners \ {p}, gone := G.gone \ {p}, loose := L }

/-- Nothing refers to the owner `p` any more. -/
structure Abandoned (G : Layout) (b : Books) (m : ℕ → UInt8) (p : ℕ) : Prop where
  owner : p ∈ G.owners
  pos : p ≠ 0
  empty : IsDir m p → ∀ pos q, 32 ∣ pos → G.at b.geo p pos = some q → q ∉ G.owners
  files : ∀ f ∈ b.filesOpen, f ∉ G.goneFiles → b.fileAddr f ≠ p
  nodes : ∀ d ∈ b.nodes, d ∉ G.goneNodes → b.nodeAddr d ≠ p

section Drop

variable {p : ℕ} {L : Set ℕ} (hp : Abandoned G b m p) (hL : G.loose ⊆ L) (hlive : (slotAt m p).Live → p ∈ L)

include hp hL hlive in
theorem Entries.drop (h : Entries G b.geo m) : Entries (G.drop p L) b.geo m where
  root := ⟨h.root, fun he => hp.pos he.symm⟩
  slots a ha hd pos q hpos hat hl := by
    by_cases hq : q = p
    · exact .inr (hq ▸ hlive (hq ▸ hl))
    · exact (h.slots a ha.1 hd pos q hpos hat hl).imp (fun hown => ⟨hown, hq⟩) fun hloose => hL hloose
  linked q hq h0 hg := h.linked q hq.1 h0 fun hgone => hg ⟨hgone, hq.2⟩
  inside q hq h0 := by
    obtain ⟨a, ha, hd, pos, hpos, hat⟩ := h.inside q hq.1 h0
    refine ⟨a, ⟨ha, fun hap => ?_⟩, hd, pos, hpos, hat⟩
    have hap' : a = p := hap
    subst hap'
    exact hp.empty hd pos q hpos hat hq.1
  size a ha hd pos q hat := h.size a ha.1 hd pos q hat

include hp hL hlive in
theorem Recorded.drop (h : Recorded G b m) : Recorded (G.drop p L) b m where
  entries := h.entries.drop hp hL hlive
  files := by
    refine ⟨fun f hf hfg => ?_, h.files.inj, h.files.root, fun q hq h0 hg hno => ?_⟩
    · have hfile := h.files.file f hf hfg
      exact ⟨hfile.place, ⟨hfile.owner, hp.files f hf hfg⟩, hfile.first, hfile.de, hfile.dir, hfile.live, hfile.flushed,
        hfile.size, hfile.shows⟩
    · exact h.files.closed q hq.1 h0 (fun hgone => hg ⟨hgone, hq.2⟩) hno
  nodes := by
    refine ⟨fun d hd hdg => ?_, h.nodes.inj, h.nodes.root, h.nodes.channel⟩
    obtain ⟨hown, hsec, hattr, q, hq, hqown, hqd, hat⟩ := h.nodes.node d hd hdg
    have hqp : b.nodeAddr q ≠ p := fun he =>
      hp.empty (he ▸ hqd) _ _ (Nat.dvd_mul_left _ _) (he ▸ hat) hown
    exact ⟨⟨hown, hp.nodes d hd hdg⟩, hsec, hattr, q, hq, ⟨hqown, hqp⟩, hqd, hat⟩
  names hn := by
    have hnames := h.names hn
    exact ⟨fun q hq h0 hg => hnames.slot q hq.1 h0 fun hgone => hg ⟨hgone, hq.2⟩, hnames.file, hnames.stale⟩

include hp hL hlive in
theorem Orderly.drop (h : Orderly G b m) (hg : GeoOk b.geo e)
    (hout : ∀ x, b.geo.rootSector * b.geo.bytesPerSector ≤ x → m' x = m x)
    (hentry : ∀ k < b.geo.numFats, ∀ n ≤ b.geo.dataClusters + 1, fatEntry b.geo m' k n =
      if n ∈ G.chain p then 0 else fatEntry b.geo m k n) :
    Orderly (G.drop p L) (b.setFree (zeros b.geo m')) m' := by
  refine { ((h.toRecorded.drop hp hL hlive).setFree (zeros b.geo m')).sameSlots (hg.sameSlots_of_table hout) with
    chains := ?_, reserved := ?_, free := rfl }
  · refine (h.chains.mono fun i hi => hi.1).congr fun i hi n hn => ?_
    have hnot := h.chains.disjoint i hi.1 p hp.owner hi.2 n hn
    exact (hentry _ hg.active n (h.chains.ok i hi.1 n hn).2).trans (if_neg hnot)
  · intro k hk n hn
    refine (hentry k hk n (by omega)).trans ((if_neg fun hm => ?_).trans (h.reserved k hk n hn))
    have := (h.chains.ok p hp.owner n hm).1
    omega

end Drop

/-- The volume after the chain of a file has been cut at position `j`, with `y` for the file. -/
structure Cut (u : Volume) (f j : ℕ) (l : List ℕ) (y : FileInfo) (w : Volume) : Prop where
  sound : Sound w
  books : books w = ((books u).setFile f y).setFree (zeros u.geo w.byte)
  outside : ∀ p, u.geo.rootSector * u.geo.bytesPerSector ≤ p → w.byte p = u.byte p
  entry : CutEntry u.geo l j u.byte w.byte

section DeleteFileClusters

variable (ho : Orderly G (books u) u.byte) (hc : Usable G u c) (hv : Still G u v)

include ho hc hv in
theorem deleteAllClusters_cut (hne : G.chain (u.home c) ≠ []) (hloop : u.geo.dataClusters ≤ u.geo.loopBound) :
    ∃ w, (fatDeleteFileClusters (u.channels c).f 0).run v = (.ok (), w) ∧ w.channels = v.channels ∧
      Cut u (u.channels c).f 0 (G.chain (u.home c)) ((u.files (u.channels c).f).info.startAt 0) w := by
  have hown := hc.owner ho
  have hinfo := hv.file (u.channels c).f
  have hfc : (v.files (u.channels c).f).firstCluster = (G.chain (u.home c)).headD 0 :=
    (congrArg FileInfo.firstCluster hinfo).trans (hc.first ho)
  rw [fatDeleteFileClusters, run_bind_state, if_neg (by simp), run_bind_update, hfc, fatDeleteClusters, run_bind_state]
  generalize hy : v.setFile (u.channels c).f _ = y
  have hbooks : books y = (books u).setFile (u.channels c).f ((u.files (u.channels c).f).info.startAt 0) := by
    rw [← hy, books_setFile, hv.books]
    congr 1
    rw [← hinfo]
    rfl
  have hygeo : y.geo = u.geo := congrArg Books.geo hbooks
  have hybyte : y.byte = u.byte := by
    rw [← hy]
    exact hv.byte
  have hych : y.channels = v.channels := by rw [← hy]; rfl
  have hysound : Sound y := hv.sound.of_same (by rw [← hy]; rfl) (by rw [← hy]; rfl)
  have hyfree : y.freeClusters = zeros y.geo y.byte := by
    have h1 : y.freeClusters = u.freeClusters := congrArg Books.freeClusters hbooks
    have h2 : u.freeClusters = zeros u.geo u.byte := ho.free
    rw [h1, h2, hygeo, hybyte]
  have hlinks := ho.chains.links _ hown
  have hrange := ho.chains.ok _ hown
  have hnd := ho.chains.nodup _ hown
  cases hl : G.chain (u.home c) with
  | nil => exact absurd hl hne
  | cons x l =>
    rw [hl] at hlinks hrange hnd
    have hlen : l.length + 1 ≤ u.geo.dataClusters := length_le_dataClusters hnd hrange
    obtain ⟨w, hrun, hws, hwb, hwch, -, hwout, hwentry⟩ := deleteClustersLoop_freed y.geo.loopBound hysound
      (by rw [hygeo, hybyte]; exact hlinks) (by rw [hygeo]; exact hrange) hnd hyfree (by rw [hygeo]; omega)
    rw [hygeo] at hwb hwout hwentry
    rw [hybyte] at hwout hwentry
    refine ⟨w, hrun, hwch.trans hych, hws, by rw [hwb, hbooks], hwout, fun k hk n hn => ?_⟩
    rw [hwentry k hk n hn]
    simp

include ho hc hv in
/-- The last cluster cannot be kept alone: after it there is nothing to delete. -/
theorem deleteNoCluster_tidy {k : ℕ} (hk : (G.chain (u.home c))[k]? = some n)
    (hend : (G.chain (u.home c)).length = k + 1) (hloop : u.geo.dataClusters ≤ u.geo.loopBound) :
    ∃ w, (fatDeleteFileClusters (u.channels c).f n).run v = (.error .enxio, w) ∧ Tidy G w := by
  have hown := hc.owner ho
  have hrange := ho.chains.ok _ hown n (List.mem_of_getElem? hk)
  have hlast := (ho.chains.links _ hown).last hk hend
  have hn0 : n ≠ 0 := by
    have := hrange.1
    omega
  obtain ⟨y, hrun, hy⟩ := readFatEntry_run hv.sound.media hv.sound.geo (n := n) (by rw [hv.geo]; exact hrange.2)
  have hys := hy.sound hv.sound
  have hystill := hv.recached hy
  have hg : GeoOk u.geo y.cache.deviceEnd := hystill.geo ▸ hys.geo
  obtain ⟨z, hrun', hz⟩ := writeFatEntry_run hys.media hys.geo (n := n) (by rw [hystill.geo]; exact hrange.2) fatEoc
  have hentry : fatEntry v.geo v.byte v.geo.activeFat n = fatEoc := by
    rw [hv.geo, hv.byte]
    exact hlast
  have hzgeo : z.geo = u.geo := hz.geo.trans hystill.geo
  have hzbyte : z.byte = storeEntry u.geo n fatEoc u.byte := by rw [hz.byte, hystill.geo, hystill.byte]
  rw [fatDeleteFileClusters, run_bind_state, if_pos hn0, run_bind_ok hrun, run_bind_ok hrun', hentry, fatDeleteClusters,
    run_bind_state]
  have hpast : z.geo.dataClusters + 1 < fatEoc := by
    have := hg.dataClusters_lt
    rw [hzgeo]
    unfold fatEoc
    omega
  obtain ⟨fuel, hfuel⟩ := Nat.exists_eq_succ_of_ne_zero (n := z.geo.loopBound) (by
    have hlow : 2 ≤ n := hrange.1
    have hhigh : n ≤ u.geo.dataClusters + 1 := hrange.2
    rw [hzgeo]
    omega)
  rw [hfuel, deleteClustersLoop, run_bind_error (readFatEntry_past hpast)]
  refine ⟨z, rfl, hz.sound hys, ?_, hz.cursors hystill.cursors⟩
  rw [hz.books, hystill.books, hzbyte]
  refine ho.sameSlots (hg.sameSlots_of_table fun x hx => storeEntry_outside hg hrange.2 hx) (fun i hi => ?_)
    fun i hi j hj => ?_
  · refine (fatEntry_storeEntry hg (.inr rfl) hrange.2 hi hg.active).trans ?_
    split
    · next he =>
      rw [he]
      exact hlast.symm
    · rfl
  · refine (fatEntry_storeEntry hg (.inr rfl) hrange.2 (by omega) hi).trans (if_neg ?_)
    have := hrange.1
    omega

include ho hc hv in
theorem deleteSomeClusters_cut {k : ℕ} (hk : (G.chain (u.home c))[k]? = some n)
    (hlt : k + 1 < (G.chain (u.home c)).length) (hloop : u.geo.dataClusters ≤ u.geo.loopBound) :
    ∃ w, (fatDeleteFileClusters (u.channels c).f n).run v = (.ok (), w) ∧ w.channels = v.channels ∧
      Cut u (u.channels c).f (k + 1) (G.chain (u.home c)) (u.files (u.channels c).f).info w := by
  have hown := hc.owner ho
  have hrange := ho.chains.ok _ hown
  have hnr := hrange n (List.mem_of_getElem? hk)
  have hlinks := ho.chains.links _ hown
  have hnd := ho.chains.nodup _ hown
  have hn0 : n ≠ 0 := by
    have := hnr.1
    omega
  obtain ⟨y, hrun, hy⟩ := readFatEntry_run hv.sound.media hv.sound.geo (n := n) (by rw [hv.geo]; exact hnr.2)
  have hys := hy.sound hv.sound
  have hystill := hv.recached hy
  have hg : GeoOk u.geo y.cache.deviceEnd := hystill.geo ▸ hys.geo
  obtain ⟨z, hrun', hz⟩ := writeFatEntry_run hys.media hys.geo (n := n) (by rw [hystill.geo]; exact hnr.2) fatEoc
  have hzgeo : z.geo = u.geo := hz.geo.trans hystill.geo
  have hzbyte : z.byte = storeEntry u.geo n fatEoc u.byte := by rw [hz.byte, hystill.geo, hystill.byte]
  have hdrop : (G.chain (u.home c)).drop (k + 1) =
      (G.chain (u.home c))[k + 1] :: (G.chain (u.home c)).drop (k + 2) := List.drop_eq_getElem_cons hlt
  have hnotin : n ∉ (G.chain (u.home c)).drop (k + 1) := by
    intro hm
    have htake : n ∈ (G.chain (u.home c)).take (k + 1) := by
      obtain ⟨hk', hkn⟩ := List.getElem?_eq_some_iff.mp hk
      rw [List.take_succ_eq_append_getElem hk', hkn]
      exact List.mem_append_right _ (List.mem_singleton_self n)
    exact List.disjoint_take_drop hnd (Nat.le_refl _) htake hm
  have hentry : fatEntry v.geo v.byte v.geo.activeFat n = (G.chain (u.home c))[k + 1] := by
    rw [hv.geo, hv.byte]
    exact hlinks.next hk (List.getElem?_eq_getElem hlt)
  have hzentry : ∀ i < u.geo.numFats, ∀ x ≤ u.geo.dataClusters + 1, fatEntry u.geo z.byte i x =
      if x = n then fatEoc else fatEntry u.geo u.byte i x := fun i hi x hx => by
    rw [hzbyte, fatEntry_storeEntry hg (.inr rfl) hnr.2 hx hi]
  have hzlinks : Links (table z.geo z.byte) fatEoc ((G.chain (u.home c)).drop (k + 1)) := by
    refine (hlinks.drop (k + 1)).congr fun x hx => ?_
    have hxn : x ≠ n := fun he => hnotin (he ▸ hx)
    rw [hzgeo]
    exact (hzentry _ hg.active x (hrange x (List.mem_of_mem_drop hx)).2).trans (if_neg hxn)
  have hzfree : z.freeClusters = zeros z.geo z.byte := by
    have h1 : z.freeClusters = u.freeClusters := congrArg Books.freeClusters (hz.books.trans hystill.books)
    have h2 : u.freeClusters = zeros u.geo u.byte := ho.free
    rw [h1, h2, hzgeo]
    refine (zeros_same fun x hx => ?_).symm
    have hx' : table u.geo z.byte x = if x = n then fatEoc else table u.geo u.byte x := hzentry _ hg.active x hx.2
    rw [hx']
    split
    · next he =>
      have hused : table u.geo u.byte n ≠ 0 := links_entry_ne_zero hlinks hrange (List.mem_of_getElem? hk)
      rw [he]
      exact iff_of_false (by decide) hused
    · rfl
  rw [fatDeleteFileClusters, run_bind_state, if_pos hn0, run_bind_ok hrun, run_bind_ok hrun', hentry, fatDeleteClusters,
    run_bind_state]
  rw [hdrop] at hzlinks hnotin
  have hlen : (G.chain (u.home c)).length ≤ u.geo.dataClusters := length_le_dataClusters hnd hrange
  obtain ⟨w, hrun'', hws, hwb, hwch, -, hwout, hwentry⟩ := deleteClustersLoop_freed z.geo.loopBound (hz.sound hys)
    hzlinks (fun x hx => by rw [hzgeo]; exact hrange x (List.mem_of_mem_drop (hdrop ▸ hx)))
    (hdrop ▸ hnd.sublist (List.drop_sublist _ _)) hzfree (by rw [hzgeo, List.length_drop]; omega)
  rw [hzgeo] at hwb hwout hwentry
  refine ⟨w, hrun'', hwch.trans (hz.channels.trans hy.channels), hws, ?_, fun p hp => ?_, fun i hi x hx => ?_⟩
  · rw [hwb, hz.books, hystill.books]
    congr 1
    exact ((books u).setFile_same _).symm
  · rw [hwout p hp, hzbyte, storeEntry_outside hg hnr.2 hp]
  · obtain ⟨hk', hkn⟩ := List.getElem?_eq_some_iff.mp hk
    rw [hwentry i hi x hx, hzentry i hi x hx, ← hdrop, List.take_succ_eq_append_getElem hk', List.getLast?_append, hkn]
    simp only [List.getLast?_singleton, Option.some_or, Option.some.injEq, eq_comm]

end DeleteFileClusters

end FreeDos32.Fat
