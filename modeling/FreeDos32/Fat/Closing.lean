import FreeDos32.Fat.Opening

namespace FreeDos32.Fat

open Prog

variable {G : Layout} {u v w : Volume} {m : ℕ → UInt8} {c d f p : ℕ}

/-- Nodes may have been given up. -/
structure Trimmed (v w : Volume) : Prop where
  rest : { w with dentries := v.dentries, dentriesSlab := v.dentriesSlab, numDentries := v.numDentries } = v
  node : ∀ d, (w.dentries d).info = (v.dentries d).info
  nodes : w.dentriesSlab ⊆ v.dentriesSlab

instance : Std.Refl Trimmed := ⟨fun _ => ⟨rfl, fun _ => rfl, fun _ h => h⟩⟩

instance : IsTrans Volume Trimmed := ⟨fun u v w h h' => by
  refine ⟨?_, fun d => (h'.node d).trans (h.node d), fun d hd => h.nodes (h'.nodes hd)⟩
  have hu := h.rest
  rw [← h'.rest] at hu
  exact hu⟩

theorem info_dput (d k : ℕ) (v : Volume) : ((dput d v).dentries k).info = (v.dentries k).info := by
  by_cases hk : k = d <;> simp [dput, Volume.setDentry, Dentry.info, hk]

theorem info_freeDentry (d p k : ℕ) (v : Volume) : ((freeDentry d p v).dentries k).info = (v.dentries k).info := by
  by_cases hk : k = p <;> simp [freeDentry, Volume.setDentry, Dentry.info, hk]

theorem dputLoop_trimmed (fuel d : ℕ) : Triple (Trimmed u) (dputLoop fuel d) (fun _ => Trimmed u) (fun _ _ => False) := by
  induction fuel generalizing d with
  | zero => exact .diverge
  | succ fuel ih =>
    refine .bind (R := fun _ => Trimmed u) (.update fun v hv => ?_) fun _ => .bind_state fun v hv =>
      .ite (fun _ => .pure fun _ h => h.2) fun _ => ?_
    · exact IsTrans.trans _ _ _ hv ⟨rfl, fun k => info_dput d k v, fun _ h => h⟩
    · cases (v.dentries d).parent with
      | none => exact .pure fun _ h => h.2
      | some p =>
        refine .bind (R := fun _ => Trimmed u) (.update fun x hx => ?_) fun _ => ih p
        exact IsTrans.trans _ _ _ hx.2 ⟨rfl, fun k => info_freeDentry d p k x, List.erase_subset⟩

theorem fatDput_trimmed (d : ℕ) : Triple (Trimmed u) (fatDput d) (fun _ => Trimmed u) (fun _ _ => False) :=
  .bind_state fun _ _ => (dputLoop_trimmed _ d).conseq (fun _ h => h.2) (fun _ _ h => h) fun _ _ h => h

namespace Trimmed

variable (h : Trimmed v w)

include h

theorem less : (books v).Less (books w) where
  geo := (congrArg Volume.geo h.rest :)
  node := funext h.node
  nodes := h.nodes
  file := by
    have hf : w.files = v.files := (congrArg Volume.files h.rest :)
    funext k
    exact congrArg (fun g : ℕ → File => (g k).info) hf
  filesOpen := by
    have hf : w.filesOpen = v.filesOpen := (congrArg Volume.filesOpen h.rest :)
    intro k hk
    change k ∈ v.filesOpen
    rw [← hf]
    exact hk
  channelFile k := (congrArg (fun x : Volume => (x.channels k).f) h.rest :)
  channelNode k := (congrArg (fun x : Volume => (x.channels k).dentry) h.rest :)
  channelsOpen := by
    have hc : w.channelsOpen = v.channelsOpen := (congrArg Volume.channelsOpen h.rest :)
    intro k hk
    change k ∈ v.channelsOpen
    rw [← hc]
    exact hk

theorem tidy (hv : Tidy G v) : Tidy G w := by
  have hfiles : w.filesOpen = v.filesOpen := (congrArg Volume.filesOpen h.rest :)
  have hopen : w.channelsOpen = v.channelsOpen := (congrArg Volume.channelsOpen h.rest :)
  have hch : w.channels = v.channels := (congrArg Volume.channels h.rest :)
  have hle := h.less
  refine hv.of_recorded (congrArg Volume.cache h.rest :) (congrArg Volume.geo h.rest :)
    (congrArg Volume.freeClusters h.rest :) (hv.order.toRecorded.less hle fun k hk hkw => ?_) ?_
  · exact absurd (show k ∈ w.filesOpen from hfiles ▸ hk) hkw
  · refine hv.cursors.of_addr (fun k hk => ⟨hopen ▸ hk, by rw [hch]⟩) fun k _ => ?_
    rw [hch, Books.fileAddr, Books.fileAddr, hle.file, hle.geo]

end Trimmed

structure Shut (f : ℕ) (v w : Volume) : Prop where
  geo : w.geo = v.geo
  env : w.env = v.env
  lud : w.lud = v.lud
  nextId : w.nextId = v.nextId
  node : ∀ k, (w.dentries k).info = (v.dentries k).info
  nodes : w.dentriesSlab ⊆ v.dentriesSlab
  filesOpen : w.filesOpen ⊆ v.filesOpen
  file : ∀ k, (w.files k).info = { (v.files k).info with deChanged := (w.files k).deChanged }
  changed : ∀ k, (v.files k).deChanged = false ∨ k ≠ f → (w.files k).deChanged = (v.files k).deChanged
  written : w.byte = v.byte ∨ (v.files f).deChanged = true ∧ (books v).fileAddr f ≠ 0 ∧ f ∈ v.filesOpen ∧
    w.byte = overlay ((books v).fileAddr f) (v.files f).de.toBytes v.byte

namespace Shut

theorem of_books (hb : books w = books v) (hbyte : w.byte = v.byte) (henv : w.env = v.env) (hlud : w.lud = v.lud)
    (hid : w.nextId = v.nextId) : Shut f v w where
  geo := congrArg Books.geo hb
  env := henv
  lud := hlud
  nextId := hid
  node k := congrFun (congrArg Books.node hb) k
  nodes := by
    have hn : w.dentriesSlab = v.dentriesSlab := congrArg Books.nodes hb
    exact fun _ hk => hn ▸ hk
  filesOpen := by
    have hn : w.filesOpen = v.filesOpen := congrArg Books.filesOpen hb
    exact fun _ hk => hn ▸ hk
  file k := by
    have hf : (w.files k).info = (v.files k).info := congrFun (congrArg Books.file hb) k
    rw [show (w.files k).deChanged = (v.files k).info.deChanged from congrArg FileInfo.deChanged hf, hf]
  changed k _ := congrArg FileInfo.deChanged (congrFun (congrArg Books.file hb) k)
  written := .inl hbyte

theorem place (h : Shut f v w) (k : ℕ) : (books w).fileAddr k = (books v).fileAddr k := by
  change (w.files k).info.addr w.geo = (v.files k).info.addr v.geo
  rw [h.file k, h.geo]
  rfl

theorem trans (h : Shut f u v) (h' : Shut f v w) : Shut f u w where
  geo := h'.geo.trans h.geo
  env := h'.env.trans h.env
  lud := h'.lud.trans h.lud
  nextId := h'.nextId.trans h.nextId
  node k := (h'.node k).trans (h.node k)
  nodes _ hk := h.nodes (h'.nodes hk)
  filesOpen _ hk := h.filesOpen (h'.filesOpen hk)
  file k := by rw [h'.file k, h.file k]
  changed k hk := by
    have h1 := h.changed k hk
    refine (h'.changed k ?_).trans h1
    exact hk.imp_left fun hc => h1.trans hc
  written := by
    have hde : (v.files f).de = (u.files f).de := congrArg FileInfo.de (h.file f)
    rcases h'.written with hw | ⟨hch, h0, hf, hw⟩
    · rw [hw]
      exact h.written
    · rw [h.place] at h0 hw
      rw [hde] at hw
      have hch' : (u.files f).deChanged = true := by
        rw [← Bool.not_eq_false]
        intro hno
        rw [h.changed f (.inl hno), hno] at hch
        cases hch
      refine .inr ⟨hch', h0, h.filesOpen hf, ?_⟩
      rcases h.written with hv | ⟨-, -, -, hv⟩
      · rw [hw, hv]
      · rw [hw, hv, overlay_overlay]

end Shut

section WriteBack

variable (h : Tidy G v) (hf : f ∈ v.filesOpen) (hfg : f ∉ G.goneFiles) (h0 : (books v).fileAddr f ≠ 0)
  (hst : G.named → f ∉ G.stale) (hch : (v.files f).deChanged = true)

include h hf hfg h0 hst hch in
theorem writeDirentry_tidy : ∃ w, (writeDirentry f).run v = (.ok (), w) ∧ Tidy G w ∧ Shut f v w ∧
    w.channels = v.channels ∧ w.channelsOpen = v.channelsOpen ∧ (w.files f).deChanged = false := by
  have hok := h.order.files.file f hf hfg
  have hown := hok.owner
  have hgeo := h.sound.geo
  obtain ⟨a, ha, hda, pos, hpos, hat⟩ := h.order.entries.inside _ hown h0
  have haddr : (v.files f).info.addr v.geo = (v.files f).deSector * v.geo.bytesPerSector + (v.files f).deSecofs := rfl
  have hsecofs : (v.files f).deSecofs < v.geo.bytesPerSector := by
    rcases hok.place with ⟨-, hz⟩ | ⟨-, hlt⟩
    · have hz' : (v.files f).deSecofs = 0 := hz
      have := bytesPerSector_pos v.geo
      omega
    · exact hlt
  have hdvd : 32 ∣ (v.files f).deSecofs := by
    have halign : 32 ∣ (v.files f).info.addr v.geo := h.order.entries.aligned hgeo hown
    rw [haddr] at halign
    exact (Nat.dvd_add_right (Nat.dvd_trans hgeo.slot_dvd_sector (Nat.dvd_mul_left _ _))).mp halign
  have hfit : (v.files f).deSecofs + 32 ≤ v.geo.bytesPerSector := by
    have hfit := hgeo.slot_fits hdvd
    rw [Nat.mod_eq_of_lt hsecofs] at hfit
    exact hfit
  have hlt : (v.files f).deSector < v.cache.deviceEnd := by
    have hlt := Chains.posAddr_lt hgeo h.order.chains ha hat
    have hle : (v.files f).deSector * v.geo.bytesPerSector < v.cache.deviceEnd * v.geo.bytesPerSector :=
      Nat.lt_of_le_of_lt (Nat.le_add_right _ _) hlt
    exact Nat.lt_of_mul_lt_mul_right hle
  obtain ⟨r, x, hrun, hx, hseat, -, -⟩ := fatReadbuf_run h.sound.media hlt none (by simp)
  have hxg := hx.geo
  obtain ⟨y, z, hwrite, hdirty, hz, -⟩ := bufWrite_dirty hseat hx.media (by rw [hxg]; exact hsecofs)
    (v.files f).de.toBytes (by rw [hxg, length_toBytes]; exact hfit) false
  have hvz := hx.trans hz
  rw [hx.byte, hxg, ← haddr] at hvz
  generalize ht : x.setCache z = t at hvz
  refine ⟨t.setFile f fun f => { f with deChanged := false }, ?_, ?_, ?_, hvz.channels, ?_, ?_⟩
  · rw [writeDirentry, run_bind_state]
    dsimp only
    rw [run_bind_ok hrun, run_bind_ok hwrite, run_bind_update]
    refine (hdirty _ rfl).trans ?_
    rw [← ht]
    rfl
  · have hbooks : books (t.setFile f fun f => { f with deChanged := false }) =
        (books v).setFile f { (books v).file f with deChanged := false } := by
      rw [books_setFile, hvz.books]
      congr 1
      have hinfo : (t.files f).info = (v.files f).info := congrFun (congrArg Books.file hvz.books) f
      change { (t.files f).info with deChanged := false } = _
      rw [hinfo]
      rfl
    have haddr' : ∀ k, ((books v).setFile f { (books v).file f with deChanged := false }).fileAddr k =
        (books v).fileAddr k := Books.setFile_addr rfl
    refine ⟨(hvz.sound h.sound).of_same rfl rfl, ?_, ?_⟩
    · rw [hbooks]
      change Orderly G _ t.byte
      rw [hvz.byte]
      refine h.order.of_recorded hgeo (h.order.toRecorded.writeBack hgeo hf hfg h0 hst) rfl rfl rfl h.order.chains
        fun q hq => overlay_of_lt ?_
      exact Nat.lt_of_lt_of_le hq (hgeo.posAddr_le hat)
    · intro k hk hkg
      have hcur := hvz.cursors h.cursors k hk hkg
      unfold CursorOk at hcur ⊢
      rw [hbooks, haddr', ← hvz.books]
      exact hcur
  · have hfiles : t.files = v.files := by rw [hvz.eq]; rfl
    have hother : ∀ k ≠ f, (t.setFile f fun f => { f with deChanged := false }).files k = v.files k := fun k hk => by
      rw [← hfiles]
      exact if_neg hk
    refine ⟨hvz.geo, by rw [hvz.eq]; rfl, by rw [hvz.eq]; rfl, by rw [hvz.eq]; rfl,
      fun k => congrFun (congrArg Books.node hvz.books) k, ?_, ?_, fun k => ?_, fun k hk => ?_, .inr ⟨hch, h0, hf, ?_⟩⟩
    · rw [hvz.eq]
      exact fun _ hk => hk
    · rw [hvz.eq]
      exact fun _ hk => hk
    · by_cases hkf : k = f
      · subst hkf
        rw [Volume.setFile_self, hfiles]
        rfl
      · rw [hother k hkf]
        rfl
    · by_cases hkf : k = f
      · subst hkf
        rw [Volume.setFile_self, hk.resolve_right fun hne => hne rfl]
      · rw [hother k hkf]
    · exact hvz.byte
  · rw [hvz.eq]
    rfl
  · rw [Volume.setFile_self]

end WriteBack

theorem FileOk.sector_zero {g : Geometry} {x : FileInfo} (h : FileOk G g m x) : x.deSector = 0 ↔ x.addr g = 0 := by
  have hpos := bytesPerSector_pos g
  rcases h.place with ⟨h1, h2⟩ | ⟨h1, -⟩
  · simp [FileInfo.addr, h1, h2]
  · refine iff_of_false (by omega) fun h0 => ?_
    have := Nat.mul_pos (show 0 < x.deSector by omega) hpos
    rw [FileInfo.addr] at h0
    omega

theorem FileOk.linked {g : Geometry} {x : FileInfo} (h : FileOk G g m x) : x.deSector ≠ fatUnlinked := by
  unfold fatUnlinked
  rcases h.place with ⟨h1, -⟩ | ⟨h1, -⟩ <;> omega

theorem fatSync_shut (h : Tidy G v) (f : ℕ) : ∃ w, fatSync.run v = (.ok (), w) ∧ Tidy G w ∧ Shut f v w ∧
    w.channels = v.channels ∧ w.channelsOpen = v.channelsOpen ∧ w.files = v.files ∧ w.byte = v.byte := by
  obtain ⟨w, x, hrun, hw⟩ := fatSync_run h.sound.media h.sound.geo.one_lt_device
  have hx := h.setFsinfo x
  have hb : books w = books v := hw.books
  refine ⟨w, hrun, hx.recached hw (sameSlots_refl _ _ _) fun _ _ => rfl, .of_books hb hw.byte ?_ ?_ ?_, hw.channels,
    congrArg Books.channelsOpen hb, ?_, hw.byte⟩
  · rw [hw.eq]
    rfl
  · rw [hw.eq]
    rfl
  · rw [hw.eq]
    rfl
  · rw [hw.eq]
    rfl

theorem fatFsync_tidy (h : Tidy G v) (hf : (v.channels c).f ∈ v.filesOpen) (hfg : (v.channels c).f ∉ G.goneFiles)
    (hmagic : (v.channels c).magic = true) (datasync : Bool) :
    ∃ w, (fatFsync c datasync).run v = (.ok (), w) ∧ Tidy G w ∧ Shut (v.channels c).f v w ∧
      w.channels = v.channels ∧ w.channelsOpen = v.channelsOpen ∧
      (datasync = false → v.home c ≠ 0 → (w.files (v.channels c).f).deChanged = false) := by
  have hok := h.order.files.file _ hf hfg
  have hlinked : (v.files (v.channels c).f).deSector ≠ fatUnlinked := hok.linked
  have hzero : (v.files (v.channels c).f).deSector = 0 ↔ v.home c = 0 := hok.sector_zero
  rw [fatFsync, run_bind_state, if_neg (by simp [hmagic])]
  dsimp only
  by_cases hwrite : datasync = false ∧ (v.files (v.channels c).f).deChanged = true ∧
      (v.files (v.channels c).f).deSector ≠ 0 ∧ (v.files (v.channels c).f).deSector ≠ fatUnlinked
  · rw [when_pos hwrite]
    obtain ⟨-, hch, h0, -⟩ := hwrite
    have hst : G.named → (v.channels c).f ∉ G.stale := fun hn hs => by
      have hclean : (v.files (v.channels c).f).deChanged = false := (h.order.names hn).stale _ hs
      rw [hch] at hclean
      cases hclean
    obtain ⟨x, hrun, hx, hsx, hchx, hopenx, hclean⟩ :=
      writeDirentry_tidy h hf hfg (fun hz => h0 (hzero.mpr hz)) hst hch
    obtain ⟨w, hrunw, hw, hsw, hchw, hopenw, hfw, -⟩ := fatSync_shut hx (v.channels c).f
    rw [run_bind_ok hrun, hrunw]
    refine ⟨w, rfl, hw, hsx.trans hsw, hchw.trans hchx, hopenw.trans hopenx, fun _ _ => ?_⟩
    rw [hfw]
    exact hclean
  · rw [when_neg hwrite, run_bind_pure]
    obtain ⟨w, hrunw, hw, hsw, hchw, hopenw, hfw, -⟩ := fatSync_shut h (v.channels c).f
    refine ⟨w, hrunw, hw, hsw, hchw, hopenw, fun hds h0 => ?_⟩
    rw [hfw, ← Bool.not_eq_true]
    exact fun hch => hwrite ⟨hds, hch, fun hz => h0 (hzero.mp hz), hlinked⟩

theorem Tidy.setChannel {g : Channel → Channel} (h : Tidy G v) (hf : ∀ x, (g x).f = x.f)
    (hd : ∀ x, (g x).dentry = x.dentry) (hi : ∀ x, (g x).clusterIndex = x.clusterIndex)
    (hk : ∀ x, (g x).cluster = x.cluster) (c : ℕ) : Tidy G (v.setChannel c g) := by
  have hch : ∀ k, ((v.setChannel c g).channels k).f = (v.channels k).f ∧
      ((v.setChannel c g).channels k).dentry = (v.channels k).dentry ∧
      ((v.setChannel c g).channels k).clusterIndex = (v.channels k).clusterIndex ∧
      ((v.setChannel c g).channels k).cluster = (v.channels k).cluster := fun k => by
    by_cases hkc : k = c
    · simp [Volume.setChannel, hkc, hf, hd, hi, hk]
    · simp [Volume.setChannel, hkc]
  have hless : (books v).Less (books (v.setChannel c g)) :=
    ⟨rfl, rfl, fun _ h => h, rfl, fun _ h => h, fun k => (hch k).1, fun k => (hch k).2.1, fun _ h => h⟩
  refine h.of_recorded rfl rfl rfl (h.order.toRecorded.less hless fun k hk hkw => absurd hk hkw) fun k hkc hkg => ?_
  obtain ⟨h1, -, h3, h4⟩ := hch k
  rw [h1] at hkg
  have hcur := h.cursors k hkc hkg
  unfold CursorOk at hcur ⊢
  rw [h1, h3, h4]
  exact hcur

theorem Tidy.freeChannel (h : Tidy G v) (c : ℕ) : Tidy G (freeChannel c v) := by
  have hx := h.setChannel (g := fun x => { x with magic := false }) (fun _ => rfl) (fun _ => rfl) (fun _ => rfl)
    (fun _ => rfl) c
  have hless : (books (v.setChannel c fun x => { x with magic := false })).Less (books (Fat.freeChannel c v)) :=
    ⟨rfl, rfl, fun _ h => h, rfl, fun _ h => h, fun _ => rfl, fun _ => rfl, List.erase_subset⟩
  refine hx.of_recorded rfl rfl rfl (hx.order.toRecorded.less hless fun k hk hkw => absurd hk hkw) fun k hkc hkg => ?_
  exact hx.cursors k (List.mem_of_mem_erase hkc) hkg

theorem channelPut_tidy (h : Tidy G v) (hclean : (v.channels c).f ∉ G.goneFiles → v.home c ∉ G.gone → v.home c ≠ 0 →
      (v.files (v.channels c).f).deChanged = false) :
    Triple (· = v) (channelPut c) (fun _ w => Tidy G w ∧ Shut (v.channels c).f v w ∧
      w.channelsOpen = v.channelsOpen.erase c ∧ (∀ k ≠ c, w.channels k = v.channels k) ∧
      (∀ k, (w.files k).info = (v.files k).info) ∧ w.byte = v.byte) (fun _ _ => False) := by
  intro s hs
  rw [hs, channelPut, run_bind_state]
  have htrim : Triple (Trimmed v) ((v.channels c).dentry.elim (pure ()) fatDput : FatM Unit) (fun _ => Trimmed v)
      (fun _ _ => False) := by
    cases (v.channels c).dentry with
    | none => exact .pure fun _ h => h
    | some d => exact fatDput_trimmed d
  have hx := htrim v (Std.Refl.refl v)
  rw [run_bind]
  rcases hrun : ((v.channels c).dentry.elim (pure ()) fatDput : FatM Unit).run v with ⟨_ | e | _, x⟩ <;> rw [hrun] at hx
  · have hfiles : x.files = v.files := (congrArg Volume.files hx.rest :)
    have hch : x.channels = v.channels := (congrArg Volume.channels hx.rest :)
    have hopen : x.channelsOpen = v.channelsOpen := (congrArg Volume.channelsOpen hx.rest :)
    have hgeo : x.geo = v.geo := (congrArg Volume.geo hx.rest :)
    have hcache : x.cache = v.cache := (congrArg Volume.cache hx.rest :)
    have haddr : ∀ k, (books x).fileAddr k = (books v).fileAddr k := fun k => by
      rw [Books.fileAddr, Books.fileAddr, hx.less.file, hx.less.geo]
    obtain ⟨y, hrun', hy, hless, hbyte, hchy, hopeny, hludy, -, hidy, -, henvy, -⟩ :=
      filePut_tidy (f := (v.channels c).f) (hx.tidy h) fun _ h1 h2 h3 => by
        rw [haddr] at h2 h3
        rw [hfiles]
        exact hclean h1 h2 h3
    dsimp only
    rw [run_bind_ok hrun', run_update]
    have hfiley : ∀ k, (y.files k).info = (v.files k).info := fun k => by
      rw [show (y.files k).info = (x.files k).info from congrFun hless.file k, hfiles]
    have hbytey : y.byte = v.byte := by rw [hbyte, byte_of_same hcache hgeo]
    refine ⟨hy.freeChannel c, ⟨hless.geo.trans hgeo, henvy.trans (congrArg Volume.env hx.rest :),
      hludy.trans (congrArg Volume.lud hx.rest :), hidy.trans (congrArg Volume.nextId hx.rest :),
      fun k => (congrFun hless.node k).trans (hx.node k), ?_, ?_, fun k => ?_,
      fun k _ => congrArg FileInfo.deChanged (hfiley k), .inl hbytey⟩, ?_, fun k hk => ?_, hfiley, hbytey⟩
    · exact fun k hk => hx.nodes (hless.nodes hk)
    · exact fun k hk => hx.less.filesOpen (hless.filesOpen hk)
    · have hi := hfiley k
      change (y.files k).info = { (v.files k).info with deChanged := (y.files k).info.deChanged }
      rw [hi]
    · change y.channelsOpen.erase c = _
      rw [hopeny, hopen]
    · change (if k = c then _ else y.channels k) = _
      rw [if_neg hk, hchy, hch]
  · exact hx
  · trivial

/-- The volume after `fat_close`. -/
structure Dismissed (G : Layout) (v : Volume) (c : ℕ) (w : Volume) : Prop where
  tidy : Tidy G w
  shut : Shut (v.channels c).f v w
  back : w.channelsOpen ⊆ v.channelsOpen
  stays : ∀ k ∈ v.channelsOpen, k ≠ c → k ∈ w.channelsOpen
  other : ∀ k ≠ c, w.channels k = v.channels k
  self : v.channelsOpen.Nodup → c ∈ w.channelsOpen →
    w.channels c = { v.channels c with references := (v.channels c).references - 1 } ∧ (v.channels c).references ≠ 1
  clean : v.home c ≠ 0 → (w.files (v.channels c).f).deChanged = false

theorem fatClose_tidy (h : Tidy G v) (hf : (v.channels c).f ∈ v.filesOpen) (hfg : (v.channels c).f ∉ G.goneFiles) :
    Triple (· = v) (fatClose c) (fun _ => Dismissed G v c)
      (fun _ w => w = v ∧ ((v.channels c).magic = false ∨ (v.channels c).references = 0)) := by
  intro s hs
  rw [hs, fatClose, run_bind_state]
  by_cases hbad : (v.channels c).magic = false ∨ (v.channels c).references = 0
  · rw [if_pos hbad]
    exact ⟨rfl, hbad⟩
  · rw [if_neg hbad]
    have hlinked : (v.files (v.channels c).f).deSector ≠ fatUnlinked := (h.order.files.file _ hf hfg).linked
    dsimp only
    rw [run_bind_update, when_neg fun hc => hlinked hc.2]
    generalize hx : (v.setChannel c fun x => { x with references := x.references - 1 }) = x
    have hxt : Tidy G x := by
      rw [← hx]
      exact h.setChannel (g := fun x => { x with references := x.references - 1 }) (fun _ => rfl) (fun _ => rfl)
        (fun _ => rfl) (fun _ => rfl) c
    have hxc : x.channels c = { v.channels c with references := (v.channels c).references - 1 } := by
      rw [← hx]
      exact if_pos rfl
    have hxo : ∀ k ≠ c, x.channels k = v.channels k := fun k hk => by
      rw [← hx]
      exact if_neg hk
    have hxf : (x.channels c).f = (v.channels c).f := by rw [hxc]
    have hsx : Shut (v.channels c).f v x := by
      rw [← hx]
      exact ⟨rfl, rfl, rfl, rfl, fun _ => rfl, fun _ h => h, fun _ h => h, fun _ => rfl, fun _ _ => rfl, .inl rfl⟩
    have hopenx : x.channelsOpen = v.channelsOpen := by rw [← hx]; rfl
    obtain ⟨y, hrun, hy, hsy, hchy, hopeny, hclean⟩ := fatFsync_tidy (c := c) hxt (by rw [hxf, ← hx]; exact hf)
      (by rw [hxf]; exact hfg) (by rw [hxc]; simpa using fun hm => hbad (.inl hm)) false
    rw [hxf] at hsy hclean
    have hhome : x.home c = v.home c := by
      rw [Volume.home, hxf]
      exact hsx.place _
    rw [hhome] at hclean
    have hclean' := hclean rfl
    have hrun₂ : ((pure () : FatM Unit) >>= fun _ => fatFsync c false).run x = (.ok (), y) := hrun
    rw [run_bind_ok (run_attempt_ok hrun₂)]
    by_cases hlast : (v.channels c).references = 1
    · rw [when_pos (by simp [hlast])]
      have hyc : (y.channels c).f = (v.channels c).f := by rw [hchy, hxf]
      have hyh : y.home c = v.home c := by
        rw [Volume.home, hyc]
        exact (hsx.trans hsy).place _
      have hput := channelPut_tidy (c := c) hy (by rw [hyc, hyh]; exact fun _ _ h0 => hclean' h0) y rfl
      rw [run_bind]
      rcases hrun' : (channelPut c).run y with ⟨_ | _ | _, w⟩ <;> rw [hrun'] at hput
      · obtain ⟨hw, hsw, hopenw, hchw, hfilew, -⟩ := hput
        rw [hyc] at hsw
        rw [hopeny, hopenx] at hopenw
        refine ⟨hw, (hsx.trans hsy).trans hsw, ?_, fun k hk hkc => ?_, fun k hk => ?_, fun hnd hcw => ?_, fun h0 => ?_⟩
        · rw [hopenw]
          exact List.erase_subset
        · rw [hopenw]
          exact (List.mem_erase_of_ne hkc).mpr hk
        · rw [hchw k hk, hchy, hxo k hk]
        · rw [hopenw] at hcw
          exact absurd hcw hnd.not_mem_erase
        · exact (congrArg FileInfo.deChanged (hfilew _)).trans (hclean' h0)
      · exact hput.elim
      · trivial
    · rw [when_neg (by simp [hlast]), run_bind_pure]
      refine ⟨hy, hsx.trans hsy, ?_, fun k hk _ => ?_, fun k hk => ?_, fun _ _ => ⟨?_, hlast⟩, hclean'⟩
      · rw [hopeny, hopenx]
        exact fun _ h => h
      · rw [hopeny, hopenx]
        exact hk
      · rw [hchy, hxo k hk]
      · rw [hchy, hxc]

theorem fatClose_run {hd hf : ℕ → ℕ} (h : Tidy G v) (hc : Counts hd hf [] v) (hopen : c ∈ v.channelsOpen)
    (hfg : (v.channels c).f ∉ G.goneFiles) (hmagic : (v.channels c).magic = true) (hrefs : (v.channels c).references ≠ 0) :
    ∃ w, (fatClose c).run v = (.ok (), w) ∧ Dismissed G v c w ∧ Counts hd hf [] w := by
  have hm : (v.channels c).f ∈ v.filesOpen := Skeleton.Counted.channelFile hc c hopen
  have hgood : ¬((v.channels c).magic = false ∨ (v.channels c).references = 0) := by
    rintro (hno | hno)
    · rw [hmagic] at hno
      cases hno
    · exact hrefs hno
  have hret : ∃ w, (fatClose c).run v = (.ok (), w) := by
    have hlinked : (v.files (v.channels c).f).deSector ≠ fatUnlinked := (h.order.files.file _ hm hfg).linked
    rw [fatClose, run_bind_state, if_neg hgood]
    dsimp only
    rw [run_bind_update, when_neg fun hu => hlinked hu.2]
    generalize hx : (v.setChannel c fun x => { x with references := x.references - 1 }) = x
    have hxt : Tidy G x := by
      rw [← hx]
      exact h.setChannel (g := fun x => { x with references := x.references - 1 }) (fun _ => rfl) (fun _ => rfl)
        (fun _ => rfl) (fun _ => rfl) c
    have hxc : Counts hd hf [] x := by
      rw [← hx]
      exact setChannelRefs_counts hc (· - 1)
    have hself : x.channels c = { v.channels c with references := (v.channels c).references - 1 } := by
      rw [← hx]
      exact if_pos rfl
    have hfiles : x.filesOpen = v.filesOpen := by rw [← hx]; rfl
    have hopenx : x.channelsOpen = v.channelsOpen := by rw [← hx]; rfl
    obtain ⟨y, hrun, -, -, -, hopeny, -⟩ := fatFsync_tidy (c := c) hxt (by rw [hself, hfiles]; exact hm)
      (by rw [hself]; exact hfg) (by rw [hself]; exact hmagic) false
    have hyc : Counts hd hf [] y := by
      have hkeep := Neutral.skeleton (Neutral.fatFsync c false) x
      rw [hrun] at hkeep
      change (skeleton y).Counted hd hf []
      rw [hkeep]
      exact hxc
    have hrun₂ : ((pure () : FatM Unit) >>= fun _ => fatFsync c false).run x = (.ok (), y) := hrun
    rw [run_bind_ok (run_attempt_ok hrun₂)]
    by_cases hlast : (v.channels c).references = 1
    · obtain ⟨w, hput, -⟩ := channelPut_run (c := c) hyc (by rw [hopeny, hopenx]; exact hopen) (by simp)
      rw [when_pos (by simp [hlast]), run_bind_ok hput]
      exact ⟨w, rfl⟩
    · rw [when_neg (by simp [hlast])]
      exact ⟨y, rfl⟩
  obtain ⟨w, hrun⟩ := hret
  have htidy := fatClose_tidy h hm hfg v rfl
  have hcounts := fatClose_counts (c := c) (by simp) v hc
  rw [hrun] at htidy hcounts
  exact ⟨w, hrun, htidy, hcounts⟩

section Exits

variable {hd hf : ℕ → ℕ} {α : Type}

/-- The volume is in order and nothing of it is used up, whatever is open. -/
structure Kept (G : Layout) (hd hf : ℕ → ℕ) (v : Volume) : Prop where
  tidy : Tidy G v
  counts : Counts hd hf [] v

theorem fatClose_kept (hg : G.goneFiles = ∅) (c : ℕ) :
    Triple (Kept G hd hf) (fatClose c) (fun _ => Kept G hd hf) (fun _ => Kept G hd hf) := by
  intro v hv
  have hcounts := fatClose_counts (c := c) (by simp) v hv.counts
  by_cases hc : c ∈ v.channelsOpen
  · have hclose := fatClose_tidy hv.tidy (Skeleton.Counted.channelFile hv.counts c hc) (by simp [hg]) v rfl
    rcases hrun : (fatClose c).run v with ⟨_ | _ | _, w⟩ <;> rw [hrun] at hcounts hclose
    · exact ⟨hclose.tidy, hcounts⟩
    · exact hclose.1 ▸ hv
    · trivial
  · have hmagic : (v.channels c).magic = false := Skeleton.Counted.closed hv.counts c hc
    rw [fatClose, run_bind_state, if_pos (.inl hmagic)]
    exact hv

theorem closeAll_kept (hg : G.goneFiles = ∅) (cs : List ℕ) :
    Triple (Kept G hd hf) (closeAll cs) (fun _ => Kept G hd hf) (fun _ _ => False) := by
  induction cs with
  | nil => exact .pure fun _ h => h
  | cons c cs ih => exact .attempt_bind (fatClose_kept hg c) (fun _ => ih) fun _ => ih

/-- The error exits give back a volume in order when the call leaves one. -/
theorem orClose_kept {P : Volume → Prop} {Q : α → Volume → Prop} {x : FatM α} {E : Layout → Prop}
    (hE : ∀ G, E G → G.goneFiles = ∅) (cs : List ℕ) (hx : Triple P x Q fun _ w => ∃ G, E G ∧ Kept G hd hf w) :
    Triple P (orClose cs x) Q fun _ w => ∃ G, E G ∧ Kept G hd hf w := by
  refine .attempt_bind hx (fun a => .pure fun _ h => h) fun e => ?_
  rintro v ⟨G, hG, hv⟩
  have hclose := closeAll_kept (hE G hG) cs v hv
  rw [run_bind]
  rcases hrun : (closeAll cs).run v with ⟨_ | _ | _, w⟩ <;> rw [hrun] at hclose
  · exact ⟨G, hG, hclose⟩
  · exact hclose.elim
  · trivial

end Exits

end FreeDos32.Fat
