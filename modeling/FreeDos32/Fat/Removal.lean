import FreeDos32.Fat.Lookup

namespace FreeDos32.Fat

open Prog

variable {G : Layout} {b b' : Books} {e : ℕ} {m m' : ℕ → UInt8} {u v w : Volume} {a c d f p q x pos : ℕ} {L : Set ℕ}

section Slots

theorem Orderly.patch (ho : Orderly G b m) (hg : GeoOk b.geo e) (hat : G.at b.geo a pos = some q) (hpos : 32 ∣ pos)
    (hq : q ∉ G.owners) (hm : OneSlot q m m') (hlive : (slotAt m' q).Live → q ∈ G.loose) : Orderly G b m' := by
  have hq32 : 32 ∣ q := hg.posAddr_dvd hat hpos
  have hout : ∀ x < b.geo.rootSector * b.geo.bytesPerSector, m' x = m x := fun x hx =>
    hm x (.inl (Nat.lt_of_lt_of_le hx (hg.posAddr_le hat)))
  refine ho.of_recorded hg (ho.toRecorded.sameSlots fun a' ha' hd' pos' p hpos' hat' => ?_) rfl rfl rfl ho.chains hout
  by_cases hpq : p = q
  · exact .inr (hpq ▸ ⟨hq, hlive⟩)
  · exact .inl fun i hi => hm.other hq32 (hg.posAddr_dvd hat' hpos') hpq hi

theorem Patched.tidy_self (h : Patched G v m w) (ho : Orderly G (Fat.books v) m) : Tidy G w :=
  h.tidy ho rfl fun _ _ _ => rfl

end Slots

section Delete

/-- The slots from number `entry` on, of which there are `count`, are those that `fat_remove` may delete. -/
structure Deletable (G : Layout) (v : Volume) (a p entry count : ℕ) : Prop where
  there : ∀ i < count, ∃ q, G.at v.geo a ((entry + i) * 32) = some q
  own : ∀ i < count, ∀ q, G.at v.geo a ((entry + i) * 32) = some q → q ∈ G.owners → q = p

theorem overlay_freeent (q : ℕ) (m : ℕ → UInt8) (x : ℕ) :
    overlay q [fatFreeent] m x = m x ∨ overlay q [fatFreeent] m x = fatFreeent := by
  by_cases hx : x = q
  · right
    have h := overlay_at (o := q) (d := m) (i := 0) (show 0 < [fatFreeent].length by decide)
    rw [Nat.add_zero, ← hx] at h
    rw [← hx, h]
    rfl
  · left
    rcases Nat.lt_or_gt_of_ne hx with hlt | hgt
    · exact overlay_of_lt hlt
    · exact overlay_of_ge (Nat.succ_le_of_lt hgt)

/-- The volume while entries are deleted. -/
structure Deleting (G : Layout) (v w : Volume) : Prop where
  tidy : Tidy G w
  books : books w = books v
  byte : ∀ x, w.byte x = v.byte x ∨ w.byte x = fatFreeent

theorem Deleting.trans (h : Deleting G u v) (h' : Deleting G v w) : Deleting G u w := by
  refine ⟨h'.tidy, h'.books.trans h.books, fun x => ?_⟩
  rcases h'.byte x with hx | hx
  · rw [hx]
    exact h.byte x
  · exact .inr hx

theorem deleteEntries_run (entry count : ℕ) (h : Tidy G v) (hc : Usable G v c)
    (hdir : hasAttr (v.files (v.channels c).f).de.attr fatADir = true)
    (hflag : hasFlag (v.channels c).flags oSync = false) (hgone : p ∈ G.gone) (hp : p ∈ G.owners) (hp0 : p ≠ 0)
    (hdel : Deletable G v (v.home c) p entry count) (hloop : 2 ≤ v.geo.loopBound) :
    ∃ w, (deleteEntries c entry count).run v = (.ok (), w) ∧ Deleting G v w ∧ (∀ i < count, ∀ q,
        G.at v.geo (v.home c) ((entry + i) * 32) = some q → w.byte q = fatFreeent) ∧
      ∀ x, (∀ i < count, G.at v.geo (v.home c) ((entry + i) * 32) ≠ some x) → w.byte x = v.byte x := by
  induction count generalizing entry v with
  | zero => exact ⟨v, rfl, ⟨h, rfl, fun _ => .inl rfl⟩, fun i hi => absurd hi (Nat.not_lt_zero i), fun _ _ => rfl⟩
  | succ count ih =>
    obtain ⟨q, hat⟩ := hdel.there 0 (Nat.succ_pos count)
    rw [Nat.add_zero] at hat
    have hpos : 32 ∣ entry * 32 := Nat.dvd_mul_left _ _
    obtain ⟨w, hrun, hwrite⟩ := writeAll_slot_run h.order hc hdir (.refl h) hat hpos
      (show 0 < [fatFreeent].length by decide) (by decide) hflag hloop
    rw [List.length_singleton] at hrun
    have hm : OneSlot q v.byte (overlay q [fatFreeent] v.byte) := oneSlot_overlay (o := 0) (by simp) q v.byte
    have hself : overlay q [fatFreeent] v.byte q = fatFreeent := by
      have h := overlay_at (o := q) (d := v.byte) (i := 0) (show 0 < [fatFreeent].length by decide)
      rwa [Nat.add_zero] at h
    have hne : ∀ x ≠ q, overlay q [fatFreeent] v.byte x = v.byte x := by
      intro x hx
      rcases Nat.lt_or_gt_of_ne hx with hlt | hgt
      · exact overlay_of_lt hlt
      · exact overlay_of_ge (Nat.succ_le_of_lt hgt)
    have hg := h.sound.geo
    have hw : Tidy G w := by
      refine hwrite.tidy_self ?_
      by_cases hown : q ∈ G.owners
      · obtain rfl := hdel.own 0 (Nat.succ_pos count) q (by rwa [Nat.add_zero]) hown
        refine h.order.of_recorded hg (h.order.toRecorded.unlink hg hp hp0 hgone fatFreeent) rfl rfl rfl h.order.chains
          fun x hx => overlay_of_lt (Nat.lt_of_lt_of_le hx (hg.posAddr_le hat))
      · exact h.order.patch hg hat hpos hown hm fun hl => absurd hself hl.1
    have hdw : Deleting G v w := by
      refine ⟨hw, hwrite.books, fun x => ?_⟩
      rw [hwrite.byte]
      exact overlay_freeent q v.byte x
    have hgeo : w.geo = v.geo := congrArg Books.geo hwrite.books
    have hhome : w.home c = v.home c := by
      rw [Volume.home, hwrite.books, Volume.home]
      exact congrArg (fun x : Books => (books v).fileAddr (x.channel c).f) hwrite.books
    have hde : (w.files (w.channels c).f).de = (v.files (v.channels c).f).de :=
      congrArg (fun x : Books => (x.file (x.channel c).f).de) hwrite.books
    have hfl : (w.channels c).flags = (v.channels c).flags := congrArg (fun x : Books => (x.channel c).flags) hwrite.books
    have hshift : ∀ i, entry + 1 + i = entry + (i + 1) := fun i => by omega
    have hdel' : Deletable G w (w.home c) p (entry + 1) count := by
      rw [hhome]
      refine ⟨fun i hi => ?_, fun i hi x hx => ?_⟩
      · rw [hgeo, hshift]
        exact hdel.there (i + 1) (by omega)
      · rw [hgeo, hshift] at hx
        exact hdel.own (i + 1) (by omega) x hx
    obtain ⟨x, hrest, hwx, hfree, hsame⟩ := ih (entry + 1) hw (hc.of_books hwrite.books) (by rw [hde]; exact hdir)
      (by rw [hfl]; exact hflag) hdel' (by rw [hgeo]; exact hloop)
    rw [hgeo, hhome] at hfree hsame
    refine ⟨x, ?_, hdw.trans hwx, fun i hi y hy => ?_, fun y hy => ?_⟩
    · rw [deleteEntries, run_bind_ok hrun]
      exact hrest
    · cases i with
      | zero =>
        rw [Nat.add_zero, hat] at hy
        obtain rfl := Option.some.inj hy
        rcases hwx.byte q with hx | hx
        · rw [hx, hwrite.byte]
          exact hself
        · exact hx
      | succ i => exact hfree i (by omega) y (by rw [hshift]; exact hy)
    · rw [hsame y fun i hi => by rw [hshift]; exact hy (i + 1) (by omega), hwrite.byte]
      refine hne y fun hyq => hy 0 (Nat.succ_pos count) ?_
      rw [Nat.add_zero, hat, hyq]

end Delete

section Unlinked

variable {F D : Set ℕ}

/-- The books differ in the files `F` and the nodes `D` only. -/
structure Books.Beside (b : Books) (F D : Set ℕ) (b' : Books) : Prop where
  geo : b'.geo = b.geo
  freeClusters : b'.freeClusters = b.freeClusters
  nodes : b'.nodes = b.nodes
  filesOpen : b'.filesOpen = b.filesOpen
  channel : b'.channel = b.channel
  channelsOpen : b'.channelsOpen = b.channelsOpen
  file : ∀ k ∉ F, b'.file k = b.file k
  node : ∀ k ∉ D, b'.node k = b.node k
  changed : ∀ k, (b'.file k).deChanged = (b.file k).deChanged

namespace Books.Beside

variable (hb : b.Beside F D b')

include hb

theorem fileAddr {k : ℕ} (hk : k ∉ F) : b'.fileAddr k = b.fileAddr k := by
  rw [Books.fileAddr, Books.fileAddr, hb.file k hk, hb.geo]

theorem nodeAddr {k : ℕ} (hk : k ∉ D) : b'.nodeAddr k = b.nodeAddr k := by
  rw [Books.nodeAddr, Books.nodeAddr, hb.node k hk, hb.geo]

end Books.Beside

/-- What becomes of files and nodes that are gone does not matter when no other objects refer to them. -/
theorem Recorded.beside (h : Recorded G b m) (hb : b.Beside F D b') (hF : F ⊆ G.goneFiles) (hD : D ⊆ G.goneNodes)
    (hroot : rootDentry ∉ D) (hpar : ∀ k ∈ b.nodes, k ∉ G.goneNodes → ∀ j, (b.node k).parent = some j → j ∉ D)
    (hch : ∀ c ∈ b.channelsOpen, (b.channel c).f ∉ G.goneFiles → ∀ d, (b.channel c).dentry = some d → d ∉ D) :
    Recorded G b' m := by
  have hfile : ∀ {k}, k ∉ G.goneFiles → b'.file k = b.file k ∧ b'.fileAddr k = b.fileAddr k :=
    fun hk => ⟨hb.file _ fun hn => hk (hF hn), hb.fileAddr fun hn => hk (hF hn)⟩
  refine ⟨hb.geo ▸ h.entries, ⟨fun k hk hkg => ?_, fun k hk k' hk' hkg hkg' he => ?_, ?_, fun q hq h0 hqg hno => ?_⟩,
    ⟨fun k hk hkg => ?_, fun k hk k' hk' hkg hkg' he => ?_, ?_, fun c hc hcg => ?_⟩, fun hn => ?_⟩
  · rw [hb.geo, (hfile hkg).1]
    exact h.files.file k (hb.filesOpen ▸ hk) hkg
  · rw [(hfile hkg).2, (hfile hkg').2] at he
    exact h.files.inj k (hb.filesOpen ▸ hk) k' (hb.filesOpen ▸ hk') hkg hkg' he
  · rw [hb.geo]
    exact h.files.root
  · refine h.files.closed q hq h0 hqg fun k hk hkg he => hno k (hb.filesOpen ▸ hk) hkg ?_
    rw [(hfile hkg).2]
    exact he
  · have hk' : k ∈ b.nodes := hb.nodes ▸ hk
    have hn := h.nodes.node k hk' hkg
    rw [hb.node k fun hk => hkg (hD hk)]
    exact hn.layout hb.geo hn.owner Iff.rfl fun j hj h1 h2 h3 => by
      rw [hb.nodeAddr (hpar k hk' hkg j hj)]
      exact ⟨h1, h2, h3⟩
  · rw [hb.nodeAddr fun hk => hkg (hD hk), hb.nodeAddr fun hk => hkg' (hD hk)] at he
    exact h.nodes.inj k (hb.nodes ▸ hk) k' (hb.nodes ▸ hk') hkg hkg' he
  · rw [hb.node _ hroot]
    exact h.nodes.root
  · rw [hb.channelsOpen] at hc
    rw [hb.channel] at hcg ⊢
    obtain ⟨d, hd, he⟩ := h.nodes.channel c hc hcg
    refine ⟨d, hd, ?_⟩
    rw [hb.nodeAddr (hch c hc hcg d hd), (hfile hcg).2]
    exact he
  · have hnames := h.names hn
    refine ⟨hnames.slot, fun k hk hkg hks h0 i hi => ?_, fun k hk => ?_⟩
    · rw [(hfile hkg).2] at h0 ⊢
      rw [(hfile hkg).1]
      exact hnames.file k (hb.filesOpen ▸ hk) hkg hks h0 i hi
    · rw [hb.changed]
      exact hnames.stale k hk

theorem books_markUnlinked (f d : ℕ) (v : Volume) : (books v).Beside {f} {d} (books (v.markUnlinked f d)) where
  geo := rfl
  freeClusters := rfl
  nodes := rfl
  filesOpen := rfl
  channel := rfl
  channelsOpen := rfl
  file k hk := by
    have hk' : k ≠ f := hk
    simp [books, Volume.markUnlinked, Volume.setDentry, Volume.setFile, hk']
  node k hk := by
    have hk' : k ≠ d := hk
    simp [books, Volume.markUnlinked, Volume.setDentry, Volume.setFile, hk']
  changed k := by
    by_cases hk : k = f <;> simp [books, Volume.markUnlinked, Volume.setDentry, Volume.setFile, File.info, hk]

theorem fatDeleteClusters_drop (h : Tidy G v) (hp : Abandoned G (books v) v.byte p) (hL : G.loose ⊆ L)
    (hlive : (slotAt v.byte p).Live → p ∈ L) (hfirst : x = (G.chain p).headD 0) (hne : G.chain p ≠ [])
    (hloop : v.geo.dataClusters ≤ v.geo.loopBound) :
    ∃ w, (fatDeleteClusters x).run v = (.ok (), w) ∧ Tidy (G.drop p L) w ∧ Freed v (G.chain p) w := by
  have hlinks := h.order.chains.links p hp.owner
  have hrange := h.order.chains.ok p hp.owner
  have hnd := h.order.chains.nodup p hp.owner
  obtain ⟨y, l, hl⟩ := List.exists_cons_of_ne_nil hne
  rw [hl] at hlinks hrange hnd hfirst
  obtain rfl : x = y := hfirst
  have hlen : l.length + 1 ≤ v.geo.dataClusters := length_le_dataClusters hnd hrange
  obtain ⟨w, hrun, hw⟩ := deleteClustersLoop_freed v.geo.loopBound h.sound hlinks hrange hnd h.order.free (by omega)
  rw [hl]
  refine ⟨w, by rw [fatDeleteClusters, run_bind_state, hrun], ⟨hw.sound, ?_, ?_⟩, hw⟩
  · have horder := h.order.drop hp hL hlive h.sound.geo hw.outside (by rw [hl]; exact hw.entry)
    rw [hw.books]
    exact horder
  · intro k hk hkg
    have hopen : w.channelsOpen = v.channelsOpen := congrArg Books.channelsOpen hw.books
    rw [hw.channels] at hkg ⊢
    have hcur := h.cursors k (hopen ▸ hk) hkg
    unfold CursorOk at hcur ⊢
    rw [hw.books]
    exact hcur

/-- The volume after the last open instance of a removed file has been closed. -/
structure Disposed (v : Volume) (c : ℕ) (l : List ℕ) (w : Volume) : Prop where
  geo : w.geo = v.geo
  node : ∀ k, (w.dentries k).info = (v.dentries k).info
  nodes : w.dentriesSlab ⊆ v.dentriesSlab
  filesOpen : w.filesOpen ⊆ v.filesOpen
  file : ∀ k, (w.files k).info = (v.files k).info
  channelsOpen : w.channelsOpen = v.channelsOpen.erase c
  other : ∀ k ≠ c, w.channels k = v.channels k
  outside : ∀ x, v.geo.rootSector * v.geo.bytesPerSector ≤ x → w.byte x = v.byte x
  entry : ∀ k < v.geo.numFats, ∀ n ≤ v.geo.dataClusters + 1, fatEntry v.geo w.byte k n =
    if n ∈ l then 0 else fatEntry v.geo v.byte k n

theorem fatClose_unlinked {hd hf : ℕ → ℕ} {pins : List (ℕ × ℕ)} (h : Tidy G v) (hcu : Counts hd hf pins v)
    (hopen : c ∈ v.channelsOpen) (hpins : ∀ q ∈ pins, q.1 ≠ c) (hmagic : (v.channels c).magic = true) (href : (v.channels c).references = 1)
    (hfg : (v.channels c).f ∈ G.goneFiles) (hun : (v.files (v.channels c).f).deSector = fatUnlinked)
    (hp : Abandoned G (books v) v.byte p) (hL : G.loose ⊆ L) (hlive : (slotAt v.byte p).Live → p ∈ L)
    (hfirst : (v.files (v.channels c).f).firstCluster = (G.chain p).headD 0) (hne : G.chain p ≠ [])
    (hloop : v.geo.dataClusters ≤ v.geo.loopBound) :
    ∃ w, (fatClose c).run v = (.ok (), w) ∧ Tidy (G.drop p L) w ∧ Disposed v c (G.chain p) w ∧ Counts hd hf pins w := by
  have hgood : ¬((v.channels c).magic = false ∨ (v.channels c).references = 0) := by
    rw [hmagic, href]
    simp
  rw [fatClose]
  rw [run_bind_state, if_neg hgood]
  dsimp only
  rw [run_bind_update]
  generalize hx : (v.setChannel c fun x => { x with references := x.references - 1 }) = x
  have hxt : Tidy G x := by
    rw [← hx]
    exact h.setChannel (g := fun x => { x with references := x.references - 1 }) (fun _ => rfl) (fun _ => rfl)
      (fun _ => rfl) (fun _ => rfl) c
  have hxc : x.channels c = { v.channels c with references := (v.channels c).references - 1 } := by
    rw [← hx]
    exact if_pos rfl
  have hxo : ∀ k ≠ c, x.channels k = v.channels k := fun k hk => by
    rw [← hx]
    exact if_neg hk
  have hxp : Abandoned G (books x) x.byte p := by
    rw [← hx]
    exact ⟨hp.owner, hp.pos, hp.empty, hp.files, hp.nodes⟩
  obtain ⟨y, hdel, hy, hfreed⟩ := fatDeleteClusters_drop hxt hxp hL (by rw [← hx]; exact hlive) hfirst hne
    (by rw [← hx]; exact hloop)
  have hyc : y.channels c = x.channels c := by rw [hfreed.channels]
  have hyfiles : ∀ k, (y.files k).info = (x.files k).info := fun k => by
    exact congrArg (fun b : Books => b.file k) hfreed.books
  have hyun : (y.files (y.channels c).f).deSector = fatUnlinked := by
    rw [hyc, hxc]
    refine (congrArg FileInfo.deSector (hyfiles _)).trans ?_
    rw [← hx]
    exact hun
  obtain ⟨z, hsync, hz, hshut, hchz, hopenz, hfilesz, hbytez⟩ := fatSync_shut hy (v.channels c).f
  have hfsync : (fatFsync c false).run y = (.ok (), z) := by
    rw [fatFsync, run_bind_state, if_neg (by rw [hyc, hxc, hmagic]; simp)]
    dsimp only
    rw [when_neg (fun hc => hc.2.2.2 hyun), run_bind_pure]
    exact hsync
  have hrun : ((do
      Prog.when (((v.channels c).references == 1) = true ∧ (v.files (v.channels c).f).deSector = fatUnlinked)
        (fatDeleteClusters (v.files (v.channels c).f).firstCluster)
      fatFsync c false : FatM Unit).attempt).run x = (.ok (.ok ()), z) := by
    refine run_attempt_ok ?_
    rw [when_pos ⟨by simp [href], hun⟩, run_bind_ok hdel]
    exact hfsync
  rw [run_bind_ok hrun, when_pos (by simp [href])]
  have hzc : (z.channels c).f = (v.channels c).f := by rw [hchz, hyc, hxc]
  have hxcu : Counts hd hf pins x := by
    rw [← hx]
    exact setChannelRefs_counts hcu (· - 1)
  have hzcu : Counts hd hf pins z := by
    have hkeep := Neutral.skeleton (Neutral.fatDeleteClusters (v.files (v.channels c).f).firstCluster) x
    rw [hdel] at hkeep
    have hkeep' := Neutral.skeleton (Neutral.fatFsync c false) y
    rw [hfsync] at hkeep'
    have hskel : skeleton z = skeleton x := hkeep'.trans hkeep
    rw [Counts, hskel]
    exact hxcu
  have hxrest : x.geo = v.geo ∧ x.dentries = v.dentries ∧ x.dentriesSlab = v.dentriesSlab ∧ x.filesOpen = v.filesOpen ∧
      x.files = v.files ∧ x.channelsOpen = v.channelsOpen ∧ x.byte = v.byte := by
    rw [← hx]
    exact ⟨rfl, rfl, rfl, rfl, rfl, rfl, rfl⟩
  obtain ⟨hgeox, hnodex, hnodesx, hopenx, hfilex, hchanx, hbytex⟩ := hxrest
  have hyb : books y = (books x).setFree (zeros x.geo y.byte) := hfreed.books
  have hyopen : y.filesOpen = x.filesOpen := congrArg Books.filesOpen hyb
  have hynodes : y.dentriesSlab = x.dentriesSlab := congrArg Books.nodes hyb
  have hychan : y.channelsOpen = x.channelsOpen := congrArg Books.channelsOpen hyb
  have hynode : ∀ k, (y.dentries k).info = (x.dentries k).info := congrFun (congrArg Books.node hyb)
  obtain ⟨w, hput, hwcu⟩ := channelPut_run (c := c) hzcu (by rw [hopenz, hychan, hchanx]; exact hopen) hpins
  have hshort := channelPut_tidy (c := c) hz (by rw [hzc]; exact fun hn => absurd hfg hn) z rfl
  rw [hput] at hshort
  obtain ⟨hwt, hws, hwopen, hwch, hwfiles, hwbyte⟩ := hshort
  have hwy : w.byte = y.byte := hwbyte.trans hbytez
  rw [run_bind_ok hput]
  refine ⟨w, rfl, hwt, ⟨?_, fun k => ?_, fun k hk => ?_, fun k hk => ?_, fun k => ?_, ?_, fun k hk => ?_, fun q hq => ?_,
    fun k hk n hn => ?_⟩, hwcu⟩
  · rw [hws.geo, hshut.geo, hfreed.geo_eq, hgeox]
  · rw [hws.node, hshut.node, hynode, hnodex]
  · rw [← hnodesx, ← hynodes]
    exact hshut.nodes (hws.nodes hk)
  · rw [← hopenx, ← hyopen]
    exact hshut.filesOpen (hws.filesOpen hk)
  · rw [hwfiles, hfilesz, hyfiles, hfilex]
  · rw [hwopen, hopenz, hychan, hchanx]
  · rw [hwch k hk, hchz, hfreed.channels, hxo k hk]
  · rw [hwy, hfreed.outside q (by rw [hgeox]; exact hq), hbytex]
  · have hentry := hfreed.entry k (by rw [hgeox]; exact hk) n (by rw [hgeox]; exact hn)
    rw [hgeox, hbytex] at hentry
    rw [hwy]
    exact hentry

end Unlinked

end FreeDos32.Fat
