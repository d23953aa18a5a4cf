import FreeDos32.Fat.Store

namespace FreeDos32.Fat

variable {G G' : Layout} {b b' : Books} {g : Geometry} {e : ℕ} {m m' : ℕ → UInt8} {a p q pos f d : ℕ}

def OneSlot (p : ℕ) (m m' : ℕ → UInt8) : Prop := ∀ x, x < p ∨ p + 32 ≤ x → m' x = m x

theorem OneSlot.other (h : OneSlot p m m') (hp : 32 ∣ p) (hq : 32 ∣ q) (hne : q ≠ p) {i : ℕ} (hi : i < 32) :
    m' (q + i) = m (q + i) := by
  apply h
  omega

theorem oneSlot_overlay {bytes : List UInt8} {o : ℕ} (ho : o + bytes.length ≤ 32) (p : ℕ) (m : ℕ → UInt8) :
    OneSlot p m (overlay (p + o) bytes m) := by
  intro x hx
  rcases hx with hx | hx
  · exact overlay_of_lt (by omega)
  · exact overlay_of_ge (by omega)

theorem Entries.aligned (h : Entries G g m) (hg : GeoOk g e) (hp : p ∈ G.owners) : 32 ∣ p := by
  by_cases h0 : p = 0
  · rw [h0]
    exact Nat.dvd_zero _
  · obtain ⟨a, -, -, pos, hpos, hat⟩ := h.inside p hp h0
    exact hg.posAddr_dvd hat hpos

theorem FileOk.layout {x : FileInfo} (h : FileOk G g m x) (hown : x.addr g ∈ G'.owners)
    (hch : (G'.chain (x.addr g)).headD 0 = (G.chain (x.addr g)).headD 0) (hfr : G'.fresh → G.fresh) : FileOk G' g m x :=
  ⟨h.place, hown, h.first.trans hch.symm, h.de, h.dir, h.live, h.flushed, h.size, fun hd => h.shows (hd.imp_right hfr)⟩

theorem NodeOk.layout {x : NodeInfo} (h : NodeOk G b m x) (hgeo : b'.geo = b.geo) (hown : x.addr b.geo ∈ G'.owners)
    (hdir : IsDir m' (x.addr b.geo) ↔ IsDir m (x.addr b.geo))
    (hpar : ∀ k, x.parent = some k → b.nodeAddr k ∈ G.owners → IsDir m (b.nodeAddr k) →
      G.at b.geo (b.nodeAddr k) (x.deEntcnt * 32) = some (x.addr b.geo) →
      b'.nodeAddr k ∈ G'.owners ∧ IsDir m' (b'.nodeAddr k) ∧
        G'.at b.geo (b'.nodeAddr k) (x.deEntcnt * 32) = some (x.addr b.geo)) : NodeOk G' b' m' x := by
  obtain ⟨k, hk, hkown, hkd, hat⟩ := h.entry
  obtain ⟨h1, h2, h3⟩ := hpar k hk hkown hkd hat
  rw [← hgeo] at hown hdir h3
  refine ⟨hown, h.sector, ?_, k, hk, h1, h2, h3⟩
  rw [hdir, hgeo]
  exact h.attr

section OneSlot

variable (h : Recorded G b m) (hg : GeoOk b.geo e) (hm : OneSlot p m m') (hp : p ∈ G.owners) (hp0 : p ≠ 0)

include h hg hm hp in
theorem Recorded.other_owner (hq : q ∈ G.owners) (hne : q ≠ p) {i : ℕ} (hi : i < 32) : m' (q + i) = m (q + i) :=
  hm.other (h.entries.aligned hg hp) (h.entries.aligned hg hq) hne hi

include h hg hm hp in
theorem Recorded.isDir_owner (hdir : m' (p + 11) = m (p + 11) ∨ (IsDir m' p ↔ IsDir m p)) (hq : q ∈ G.owners) :
    IsDir m' q ↔ IsDir m q := by
  by_cases hne : q = p
  · subst hne
    rcases hdir with hdir | hdir
    · exact isDir_congr fun _ => hdir
    · exact hdir
  · exact isDir_congr fun _ => h.other_owner hg hm hp hq hne (by omega)

include h hg hm hp hp0 in
theorem Entries.rewrite (hdir : ∀ q ∈ G.owners, IsDir m' q ↔ IsDir m q)
    (hlive : p ∈ G.gone ∨ (slotAt m' p).Live) : Entries G b.geo m' where
  root := h.entries.root
  slots a ha hd pos q hpos hat hl := by
    by_cases hqp : q = p
    · exact .inl (hqp ▸ hp)
    · have hq : 32 ∣ q := hg.posAddr_dvd hat hpos
      have hsame : ∀ i < 12, slotAt m' q i = slotAt m q i :=
        fun i hi => hm.other (h.entries.aligned hg hp) hq hqp (by omega)
      exact h.entries.slots a ha ((hdir a ha).mp hd) pos q hpos hat ((live_congr hsame).mp hl)
  linked q hq h0 hqg := by
    by_cases hqp : q = p
    · subst hqp
      exact hlive.resolve_left hqg
    · have hsame : ∀ i < 12, slotAt m' q i = slotAt m q i := fun i hi => h.other_owner hg hm hp hq hqp (by omega)
      exact (live_congr hsame).mpr (h.entries.linked q hq h0 hqg)
  inside q hq h0 := by
    obtain ⟨a, ha, hd, hrest⟩ := h.entries.inside q hq h0
    exact ⟨a, ha, (hdir a ha).mpr hd, hrest⟩
  size a ha hd := h.entries.size a ha ((hdir a ha).mp hd)

include h in
theorem NodesOk.rewrite (hdir : ∀ q ∈ G.owners, IsDir m' q ↔ IsDir m q) : NodesOk G b m' := by
  refine ⟨fun d hd hdg => ?_, h.nodes.inj, h.nodes.root, h.nodes.channel⟩
  have hn := h.nodes.node d hd hdg
  exact hn.layout rfl hn.owner (hdir _ hn.owner) fun k _ hown hd hat => ⟨hown, (hdir _ hown).mpr hd, hat⟩

include h hg hm hp in
theorem FilesOk.rewrite (hfile : ∀ f ∈ b.filesOpen, f ∉ G.goneFiles → b.fileAddr f = p → FileOk G b.geo m' (b.file f))
    (hclosed : p ∈ G.gone ∨ ∃ f ∈ b.filesOpen, f ∉ G.goneFiles ∧ b.fileAddr f = p) : FilesOk G b m' where
  file f hf hfg := by
    by_cases hfp : b.fileAddr f = p
    · exact hfile f hf hfg hfp
    · have hok := h.files.file f hf hfg
      exact hok.congr fun _ i _ hi => h.other_owner hg hm hp hok.owner hfp hi
  inj := h.files.inj
  root := h.files.root
  closed q hq h0 hqg hno := by
    have hqp : q ≠ p := by
      rintro rfl
      rcases hclosed with hgone | ⟨f, hf, hfg, hfp⟩
      · exact hqg hgone
      · exact hno f hf hfg hfp
    have hs : ∀ i, 11 ≤ i → i < 32 → slotAt m' q i = slotAt m q i := fun i _ hi => h.other_owner hg hm hp hq hqp hi
    rw [firstCluster_congr hs, fileSize_congr hs, isDir_de_congr (hs 11 (by omega) (by omega))]
    exact h.files.closed q hq h0 hqg hno

end OneSlot

/-- The slot of `p` need not tell about it any more. -/
def Layout.forget (G : Layout) (p : ℕ) : Layout := { G with gone := insert p G.gone }

theorem Recorded.forget (h : Recorded G b m) (p : ℕ) : Recorded (G.forget p) b m where
  entries := ⟨h.entries.root, h.entries.slots, fun q hq h0 hg => h.entries.linked q hq h0 fun hn => hg (.inr hn),
    h.entries.inside, h.entries.size⟩
  files := ⟨fun f hf hfg => (h.files.file f hf hfg).layout (h.files.file f hf hfg).owner rfl id, h.files.inj, h.files.root,
    fun q hq h0 hg hno => h.files.closed q hq h0 (fun hn => hg (.inr hn)) hno⟩
  nodes := ⟨fun d hd hdg => (h.nodes.node d hd hdg).layout rfl (h.nodes.node d hd hdg).owner Iff.rfl
    fun _ _ h1 h2 h3 => ⟨h1, h2, h3⟩, h.nodes.inj, h.nodes.root, h.nodes.channel⟩
  names hn := ⟨fun q hq h0 hg => (h.names hn).slot q hq h0 fun hq' => hg (.inr hq'), (h.names hn).file, (h.names hn).stale⟩

theorem Recorded.unlink (h : Recorded G b m) (hg : GeoOk b.geo e) (hp : p ∈ G.owners) (hp0 : p ≠ 0) (hgone : p ∈ G.gone)
    (x : UInt8) : Recorded G b (overlay p [x] m) := by
  have hm : OneSlot p m (overlay p [x] m) := oneSlot_overlay (o := 0) (by simp) p m
  have hrest : ∀ i, 1 ≤ i → overlay p [x] m (p + i) = m (p + i) := fun i hi => overlay_of_ge (by simpa using hi)
  have hdir : ∀ q ∈ G.owners, IsDir (overlay p [x] m) q ↔ IsDir m q :=
    fun q hq => h.isDir_owner hg hm hp (.inl (hrest 11 (by omega))) hq
  refine ⟨Entries.rewrite h hg hm hp hp0 hdir (.inl hgone), FilesOk.rewrite h hg hm hp (fun f hf hfg hfp => ?_)
    (.inl hgone), NodesOk.rewrite h hdir, fun hn => ?_⟩
  · refine (h.files.file f hf hfg).congr fun _ i hi hi' => ?_
    have hfp' : (b.file f).addr b.geo = p := hfp
    rw [hfp']
    exact hrest i (by omega)
  · refine ⟨fun q hq h0 hqg i hi => ?_, (h.names hn).file, (h.names hn).stale⟩
    have hqp : q ≠ p := fun he => hqg (he ▸ hgone)
    rw [h.other_owner hg hm hp hq hqp (by omega)]
    exact (h.names hn).slot q hq h0 hqg i hi

theorem Recorded.overwrite (h : Recorded G b m) (hg : GeoOk b.geo e) (hp : p ∈ G.owners) (hp0 : p ≠ 0)
    (hgone : p ∈ G.gone) (hm : OneSlot p m m') (hdir : IsDir m' p ↔ IsDir m p)
    (hno : ∀ f ∈ b.filesOpen, f ∉ G.goneFiles → b.fileAddr f ≠ p) : Recorded G b m' := by
  have hdir' : ∀ q ∈ G.owners, IsDir m' q ↔ IsDir m q := fun q hq => h.isDir_owner hg hm hp (.inr hdir) hq
  refine ⟨Entries.rewrite h hg hm hp hp0 hdir' (.inl hgone), FilesOk.rewrite h hg hm hp
    (fun f hf hfg hfp => absurd hfp (hno f hf hfg)) (.inl hgone), NodesOk.rewrite h hdir', fun hn => ?_⟩
  refine ⟨fun q hq h0 hqg i hi => ?_, (h.names hn).file, (h.names hn).stale⟩
  have hqp : q ≠ p := fun he => hqg (he ▸ hgone)
  rw [h.other_owner hg hm hp hq hqp (by omega)]
  exact (h.names hn).slot q hq h0 hqg i hi

/-- Files and nodes whose entry is gone are not looked at any more. -/
def Layout.forgetObjects (G : Layout) (F D : Set ℕ) : Layout :=
  { G with goneFiles := G.goneFiles ∪ F, goneNodes := G.goneNodes ∪ D }

theorem Recorded.forgetObjects (h : Recorded G b m) {F D : Set ℕ}
    (hF : ∀ f ∈ b.filesOpen, f ∈ F → f ∉ G.goneFiles → b.fileAddr f ∈ G.gone) : Recorded (G.forgetObjects F D) b m where
  entries := ⟨h.entries.root, h.entries.slots, h.entries.linked, h.entries.inside, h.entries.size⟩
  files := by
    refine ⟨fun f hf hfg => ?_, fun f hf f' hf' hfg hfg' => ?_, h.files.root, fun q hq h0 hqg hno => ?_⟩
    · have hfg' : f ∉ G.goneFiles := fun hn => hfg (.inl hn)
      exact (h.files.file f hf hfg').layout (h.files.file f hf hfg').owner rfl id
    · exact h.files.inj f hf f' hf' (fun hn => hfg (.inl hn)) fun hn => hfg' (.inl hn)
    · refine h.files.closed q hq h0 hqg fun f hf hfg he => ?_
      by_cases hfF : f ∈ F
      · exact hqg (he ▸ hF f hf hfF hfg)
      · exact hno f hf (fun hn => hn.elim hfg hfF) he
  nodes := by
    refine ⟨fun d hd hdg => ?_, fun d hd d' hd' hdg hdg' => ?_, h.nodes.root, fun c hc hcg => ?_⟩
    · have hn := h.nodes.node d hd fun hn => hdg (.inl hn)
      exact hn.layout rfl hn.owner Iff.rfl fun _ _ h1 h2 h3 => ⟨h1, h2, h3⟩
    · exact h.nodes.inj d hd d' hd' (fun hn => hdg (.inl hn)) fun hn => hdg' (.inl hn)
    · exact h.nodes.channel c hc fun hn => hcg (.inl hn)
  names hn := by
    refine ⟨(h.names hn).slot, fun f hf hfg => ?_, (h.names hn).stale⟩
    exact (h.names hn).file f hf fun hn' => hfg (.inl hn')

theorem overlay_toBytes_at (de : Direntry) (p : ℕ) (m : ℕ → UInt8) {i : ℕ} (hi : i < 32) :
    overlay p de.toBytes m (p + i) = de i := by
  rw [overlay_at (by rw [length_toBytes]; exact hi), toBytes_getD de hi]

theorem oneSlot_toBytes (de : Direntry) (p : ℕ) (m : ℕ → UInt8) : OneSlot p m (overlay p de.toBytes m) :=
  oneSlot_overlay (o := 0) (by simp [length_toBytes]) p m

theorem Recorded.writeBack (h : Recorded G b m) (hg : GeoOk b.geo e) (hf : f ∈ b.filesOpen) (hfg : f ∉ G.goneFiles)
    (hp0 : b.fileAddr f ≠ 0) (hst : G.named → f ∉ G.stale) :
    Recorded G (b.setFile f { b.file f with deChanged := false }) (overlay (b.fileAddr f) (b.file f).de.toBytes m) := by
  have hok := h.files.file f hf hfg
  have hown : b.fileAddr f ∈ G.owners := hok.owner
  set p := b.fileAddr f with hp
  set m' := overlay p (b.file f).de.toBytes m with hm'
  have hm : OneSlot p m m' := oneSlot_toBytes _ p m
  have hslot : ∀ i < 32, m' (p + i) = (b.file f).de i := fun i hi => overlay_toBytes_at _ p m hi
  have hisDir : IsDir m' p ↔ IsDir m p := by
    refine Iff.trans ?_ hok.dir
    rw [IsDir, or_iff_right hp0]
    have : (slotAt m' p).isDir = (b.file f).de.isDir := isDir_de_congr (hslot 11 (by omega))
    rw [this]
  have hdir : ∀ q ∈ G.owners, IsDir m' q ↔ IsDir m q := fun q hq => h.isDir_owner hg hm hown (.inr hisDir) hq
  have hlive : (slotAt m' p).Live := (live_congr fun i hi => hslot i (by omega)).mpr (hok.live hp0)
  have hfc : (slotAt m' p).firstCluster = (b.file f).firstCluster :=
    (firstCluster_congr fun i _ hi => hslot i hi).trans hok.de
  have haddr : ∀ k, (b.setFile f { b.file f with deChanged := false }).fileAddr k = b.fileAddr k := Books.setFile_addr rfl
  have hfiles : FilesOk G b m' := by
    refine FilesOk.rewrite h hg hm hown (fun k hk hkg hkp => ?_) (.inr ⟨f, hf, hfg, rfl⟩)
    obtain rfl := h.files.inj k hk f hf hkg hfg hkp
    refine ⟨hok.place, hok.owner, hok.first, hok.de, hok.dir.trans hisDir.symm, hok.live, fun _ _ i _ hi => hslot i hi,
      hok.size, fun _ _ => .inr hfc⟩
  have hentries : Entries G b.geo m' := Entries.rewrite h hg hm hown hp0 hdir (.inr hlive)
  refine ⟨hentries, ?_, ?_, fun hn => ?_⟩
  · refine ⟨fun k hk hkg => ?_, fun k hk k' hk' hkg hkg' he => ?_, hfiles.root, fun q hq h0 hqg hno => ?_⟩
    · by_cases hkf : k = f
      · subst hkf
        rw [Books.setFile_self]
        have hk := hfiles.file k hk hkg
        exact ⟨hk.place, hk.owner, hk.first, hk.de, hk.dir, hk.live, fun _ _ i _ hi => hslot i hi, hk.size, hk.shows⟩
      · rw [Books.setFile_ne hkf]
        exact hfiles.file k hk hkg
    · rw [haddr, haddr] at he
      exact hfiles.inj k hk k' hk' hkg hkg' he
    · exact hfiles.closed q hq h0 hqg fun k hk hkg he => hno k hk hkg (by rw [haddr, he])
  · have hnodes := NodesOk.rewrite h hdir
    refine ⟨fun d hd hdg => ?_, hnodes.inj, hnodes.root, fun c hc hcg => ?_⟩
    · have hn := hnodes.node d hd hdg
      exact hn.layout rfl hn.owner Iff.rfl fun _ _ h1 h2 h3 => ⟨h1, h2, h3⟩
    · obtain ⟨d, hd, he⟩ := hnodes.channel c hc hcg
      exact ⟨d, hd, he.trans (haddr _).symm⟩
  · have hnames := h.names hn
    refine ⟨fun q hq h0 hqg i hi => ?_, fun k hk hkg hks h0 i hi => ?_, fun k hk => ?_⟩
    · by_cases hqp : q = p
      · rw [hqp, hslot i (by omega)]
        exact hnames.file f hf hfg (hst hn) hp0 i hi
      · rw [h.other_owner hg hm hown hq hqp (by omega)]
        exact hnames.slot q hq h0 hqg i hi
    · rw [haddr] at h0 ⊢
      have hde : ((b.setFile f { b.file f with deChanged := false }).file k).de = (b.file k).de := by
        by_cases hkf : k = f
        · rw [hkf, Books.setFile_self]
        · rw [Books.setFile_ne hkf]
      rw [hde]
      exact hnames.file k hk hkg hks h0 i hi
    · by_cases hkf : k = f
      · rw [hkf, Books.setFile_self]
      · rw [Books.setFile_ne hkf]
        exact hnames.stale k hk

theorem Orderly.of_recorded (h : Orderly G b m) (hg : GeoOk b.geo e) (hrec : Recorded G' b' m') (hgeo : b'.geo = b.geo)
    (hfree : b'.freeClusters = b.freeClusters) (hres : G'.reserved = G.reserved)
    (hch : Chains (table b.geo m) fatEoc b.geo.InRange G'.owners G'.chain)
    (hout : ∀ x < b.geo.rootSector * b.geo.bytesPerSector, m' x = m x) : Orderly G' b' m' where
  toRecorded := hrec
  chains := by
    rw [hgeo]
    exact hch.congr fun i hi x hx => fatEntry_outside hg hg.active (hch.ok i hi x hx).2 hout
  reserved k hk n hn := by
    rw [hgeo] at hk ⊢
    rw [fatEntry_outside hg hk (by omega) hout, hres]
    exact h.reserved k hk n hn
  free := by
    rw [hfree, h.free, hgeo]
    refine (zeros_same fun x hx => ?_).symm
    have hx' : table b.geo m' x = table b.geo m x := fatEntry_outside hg hg.active hx.2 hout
    rw [hx']

def Layout.adopt (G : Layout) (p : ℕ) (m : ℕ → UInt8) : Layout :=
  { G with
    owners := insert p G.owners
    chain := Function.update G.chain p []
    name := Function.update G.name p fun i => m (p + i)
    loose := G.loose \ {p}
    gone := G.gone \ {p} }

theorem Layout.adopt_chain_self (p : ℕ) (m : ℕ → UInt8) : (G.adopt p m).chain p = [] := Function.update_self ..

theorem Layout.adopt_chain_ne (h : a ≠ p) (m : ℕ → UInt8) : (G.adopt p m).chain a = G.chain a :=
  Function.update_of_ne h ..

theorem Layout.adopt_name_self (p : ℕ) (m : ℕ → UInt8) (i : ℕ) : (G.adopt p m).name p i = m (p + i) := by
  simp [Layout.adopt]

theorem Layout.adopt_name_ne (h : a ≠ p) (m : ℕ → UInt8) : (G.adopt p m).name a = G.name a := Function.update_of_ne h ..

theorem Layout.adopt_at_ne (h : a ≠ p) (m : ℕ → UInt8) (pos : ℕ) : (G.adopt p m).at g a pos = G.at g a pos := by
  rw [Layout.at, Layout.at, Layout.adopt_chain_ne h]

theorem Layout.adopt_at_self (hp0 : p ≠ 0) (m : ℕ → UInt8) (pos : ℕ) : (G.adopt p m).at g p pos = none := by
  simp [Layout.at, Layout.adopt_chain_self, posAddr, hp0]

section Adopt

variable (h : Recorded G b m) (hp : p ∉ G.owners) (hp0 : p ≠ 0)

include h hp in
theorem Recorded.file_ne (hf : f ∈ b.filesOpen) (hfg : f ∉ G.goneFiles) : b.fileAddr f ≠ p :=
  fun he => hp (he ▸ (h.files.file f hf hfg).owner)

include h hp hp0 in
theorem Recorded.adopt (hlive : (slotAt m p).Live) (hfc : (slotAt m p).firstCluster = 0)
    (hsize : (slotAt m p).isDir = false → (slotAt m p).fileSize = 0)
    (hin : ∃ a ∈ G.owners, IsDir m a ∧ ∃ pos, 32 ∣ pos ∧ G.at b.geo a pos = some p) : Recorded (G.adopt p m) b m := by
  have hne : ∀ {a}, a ∈ G.owners → a ≠ p := fun ha he => hp (he ▸ ha)
  refine ⟨⟨.inr h.entries.root, fun a ha hd pos q hpos hat hl => ?_, fun q hq h0 hqg => ?_, fun q hq h0 => ?_,
    fun a ha hd pos q hat => ?_⟩, ⟨fun f hf hfg => ?_, h.files.inj, ?_, fun q hq h0 hqg hno => ?_⟩,
    ⟨fun d hd hdg => ?_, h.nodes.inj, h.nodes.root, h.nodes.channel⟩, fun hn => ?_⟩
  · rcases ha with rfl | ha
    · rw [Layout.adopt_at_self hp0] at hat
      cases hat
    · rw [Layout.adopt_at_ne (hne ha)] at hat
      by_cases hqp : q = p
      · exact .inl (.inl hqp)
      · exact (h.entries.slots a ha hd pos q hpos hat hl).imp .inr fun hloose => ⟨hloose, hqp⟩
  · rcases hq with rfl | hq
    · exact hlive
    · exact h.entries.linked q hq h0 fun hn => hqg ⟨hn, hne hq⟩
  · obtain ⟨a, ha, hd, pos, hpos, hat⟩ : ∃ a ∈ G.owners, IsDir m a ∧ ∃ pos, 32 ∣ pos ∧ G.at b.geo a pos = some q := by
      rcases hq with rfl | hq
      · exact hin
      · exact h.entries.inside q hq h0
    exact ⟨a, .inr ha, hd, pos, hpos, by rw [Layout.adopt_at_ne (hne ha)]; exact hat⟩
  · rcases ha with rfl | ha
    · rw [Layout.adopt_at_self hp0] at hat
      cases hat
    · rw [Layout.adopt_at_ne (hne ha)] at hat
      exact h.entries.size a ha hd pos q hat
  · have hok := h.files.file f hf hfg
    refine hok.layout (.inr hok.owner) ?_ id
    rw [Layout.adopt_chain_ne (hne hok.owner)]
  · rw [Layout.adopt_chain_ne (Ne.symm hp0)]
    exact h.files.root
  · rcases hq with rfl | hq
    · rw [Layout.adopt_chain_self]
      refine ⟨hfc, fun hd hlt => ?_⟩
      rw [hsize hd] at hlt
      omega
    · rw [Layout.adopt_chain_ne (hne hq)]
      exact h.files.closed q hq h0 (fun hn => hqg ⟨hn, hne hq⟩) hno
  · have hn := h.nodes.node d hd hdg
    refine hn.layout rfl (.inr hn.owner) Iff.rfl fun k _ hown hd' hat => ⟨.inr hown, hd', ?_⟩
    rw [Layout.adopt_at_ne (hne hown)]
    exact hat
  · have hnames := h.names hn
    refine ⟨fun q hq h0 hqg i hi => ?_, fun f hf hfg hfs h0 i hi => ?_, hnames.stale⟩
    · rcases hq with rfl | hq
      · rw [Layout.adopt_name_self]
      · rw [Layout.adopt_name_ne (hne hq)]
        exact hnames.slot q hq h0 (fun hn => hqg ⟨hn, hne hq⟩) i hi
    · rw [Layout.adopt_name_ne (h.file_ne hp hf hfg)]
      exact hnames.file f hf hfg hfs h0 i hi

theorem Chains.adopt {t : ℕ → ℕ} {ok : ℕ → Prop} (hc : Chains t fatEoc ok G.owners G.chain) (m : ℕ → UInt8) :
    Chains t fatEoc ok (G.adopt p m).owners (G.adopt p m).chain :=
  hc.replace p trivial (by simp) (by simp) (by simp) fun _ _ _ _ _ => rfl

end Adopt

/-- The entry of the file `p` is the slot `p'` from now on; `S` are the files whose cached entry does not
show the name in their slot. -/
def Layout.move (G : Layout) (p p' : ℕ) (m : ℕ → UInt8) (S : Set ℕ) : Layout :=
  { G with
    owners := insert p' (G.owners \ {p})
    chain := Function.update G.chain p' (G.chain p)
    name := Function.update G.name p' fun i => m (p' + i)
    loose := G.loose \ {p'}
    gone := G.gone \ {p, p'}
    stale := S }

theorem Layout.move_chain_self (p p' : ℕ) (m : ℕ → UInt8) (S : Set ℕ) : (G.move p p' m S).chain p' = G.chain p :=
  Function.update_self ..

theorem Layout.move_chain_ne {p' : ℕ} (h : a ≠ p') (p : ℕ) (m : ℕ → UInt8) (S : Set ℕ) :
    (G.move p p' m S).chain a = G.chain a := Function.update_of_ne h ..

theorem Layout.move_name_self (p p' : ℕ) (m : ℕ → UInt8) (S : Set ℕ) (i : ℕ) :
    (G.move p p' m S).name p' i = m (p' + i) := by
  simp [Layout.move]

theorem Layout.move_name_ne {p' : ℕ} (h : a ≠ p') (p : ℕ) (m : ℕ → UInt8) (S : Set ℕ) :
    (G.move p p' m S).name a = G.name a := Function.update_of_ne h ..

theorem Layout.move_at_ne {p' : ℕ} (h : a ≠ p') (p : ℕ) (m : ℕ → UInt8) (S : Set ℕ) (pos : ℕ) :
    (G.move p p' m S).at g a pos = G.at g a pos := by
  rw [Layout.at, Layout.at, Layout.move_chain_ne h]

theorem Layout.move_at_self {p' : ℕ} (hp0 : p ≠ 0) (hp0' : p' ≠ 0) (m : ℕ → UInt8) (S : Set ℕ) (pos : ℕ) :
    (G.move p p' m S).at g p' pos = G.at g p pos := by
  simp [Layout.at, Layout.move_chain_self, posAddr, hp0, hp0']

/-- The file `f` and the node `d` get another place. -/
structure Books.Moved (b : Books) (f d p' : ℕ) (b' : Books) : Prop where
  geo : b'.geo = b.geo
  nodes : b'.nodes = b.nodes
  filesOpen : b'.filesOpen = b.filesOpen
  channelsOpen : b'.channelsOpen = b.channelsOpen
  channel : b'.channel = b.channel
  file : ∀ k ≠ f, b'.file k = b.file k
  de : (b'.file f).de = (b.file f).de
  deChanged : (b'.file f).deChanged = (b.file f).deChanged
  firstCluster : (b'.file f).firstCluster = (b.file f).firstCluster
  place : 2 ≤ (b'.file f).deSector ∧ (b'.file f).deSecofs < b.geo.bytesPerSector
  fileAddr : b'.fileAddr f = p'
  node : ∀ k ≠ d, b'.node k = b.node k
  nodeAddr : b'.nodeAddr d = p'

/-- The entry of the file `f` at `p` has been copied to `p'`, and its old slot deleted. -/
structure Copied (G : Layout) (b : Books) (m : ℕ → UInt8) (f d p p' : ℕ) : Prop where
  owner : p ∈ G.owners
  pos : p ≠ 0
  new : p' ∉ G.owners
  newPos : p' ≠ 0
  file : f ∈ b.filesOpen
  there : f ∉ G.goneFiles
  fileAddr : b.fileAddr f = p
  gone : d ∈ G.goneNodes
  root : d ≠ rootDentry
  nodeAddr : b.nodeAddr d = p
  nodes : ∀ k ∈ b.nodes, k ∉ G.goneNodes → b.nodeAddr k ≠ p
  parents : ∀ k ∈ b.nodes, ∀ j, (b.node k).parent = some j → b.nodeAddr j = p → j = d
  channels : ∀ c ∈ b.channelsOpen, (b.channel c).f = f → (b.channel c).dentry = some d
  dead : ¬(slotAt m p).Live
  live : (slotAt m p').Live
  de : ∀ i, 11 ≤ i → i < 32 → m (p' + i) = (b.file f).de i
  inside : ∃ a ∈ G.owners, a ≠ p ∧ IsDir m a ∧ ∃ pos, 32 ∣ pos ∧ G.at b.geo a pos = some p'
  users : ∀ c ∈ b.channelsOpen, (b.channel c).f ∉ G.goneFiles → (b.channel c).f ∈ b.filesOpen

section Move

variable {p' : ℕ} {S : Set ℕ} (h : Recorded G b m) (hc : Copied G b m f d p p') (hb : b.Moved f d p' b')

include h hc in
theorem Copied.isDir : IsDir m p' ↔ IsDir m p := by
  have hok := h.files.file f hc.file hc.there
  have hdir := hok.dir
  have haddr : (b.file f).addr b.geo = p := hc.fileAddr
  rw [haddr] at hdir
  rw [← hdir, IsDir, or_iff_right hc.newPos]
  have : (slotAt m p').isDir = (b.file f).de.isDir := isDir_de_congr (hc.de 11 (by omega) (by omega))
  rw [this]

include h hc in
theorem Entries.move : Entries (G.move p p' m S) b.geo m := by
  have hne : ∀ {a}, a ∈ G.owners → a ≠ p' := fun ha he => hc.new (he ▸ ha)
  have hdir := hc.isDir h
  -- a directory has the slots of the one that it is now, or was before
  have hback : ∀ a ∈ (G.move p p' m S).owners, IsDir m a → ∃ a' ∈ G.owners, IsDir m a' ∧
      ∀ pos, (G.move p p' m S).at b.geo a pos = G.at b.geo a' pos := by
    rintro a (rfl | ha) hd
    · exact ⟨p, hc.owner, hdir.mp hd, fun pos => Layout.move_at_self hc.pos hc.newPos m S pos⟩
    · exact ⟨a, ha.1, hd, fun pos => Layout.move_at_ne (hne ha.1) p m S pos⟩
  refine ⟨.inr ⟨h.entries.root, fun he => hc.pos he.symm⟩, fun a ha hd pos q hpos hat hl => ?_, fun q hq h0 hqg => ?_,
    fun q hq h0 => ?_, fun a ha hd pos q hat => ?_⟩
  · obtain ⟨a', ha', hd', heq⟩ := hback a ha hd
    rw [heq] at hat
    by_cases hqp' : q = p'
    · exact .inl (.inl hqp')
    · have hqp : q ≠ p := fun he => hc.dead (he ▸ hl)
      exact (h.entries.slots a' ha' hd' pos q hpos hat hl).imp (fun hq => .inr ⟨hq, hqp⟩) fun hq => ⟨hq, hqp'⟩
  · rcases hq with rfl | hq
    · exact hc.live
    · refine h.entries.linked q hq.1 h0 fun hn => hqg ⟨hn, ?_⟩
      rintro (he | he)
      · exact hq.2 he
      · exact hne hq.1 he
  · obtain ⟨a, ha, hd, pos, hpos, hat, hap⟩ : ∃ a ∈ G.owners, IsDir m a ∧ ∃ pos, 32 ∣ pos ∧ G.at b.geo a pos = some q ∧
        (q = p' → a ≠ p) := by
      rcases hq with rfl | hq
      · obtain ⟨a, ha, hap, hd, pos, hpos, hat⟩ := hc.inside
        exact ⟨a, ha, hd, pos, hpos, hat, fun _ => hap⟩
      · obtain ⟨a, ha, hd, pos, hpos, hat⟩ := h.entries.inside q hq.1 h0
        exact ⟨a, ha, hd, pos, hpos, hat, fun he => absurd hq.1 (he ▸ hc.new)⟩
    by_cases hap' : a = p
    · subst hap'
      refine ⟨p', .inl rfl, hdir.mpr hd, pos, hpos, ?_⟩
      rw [Layout.move_at_self hc.pos hc.newPos]
      exact hat
    · refine ⟨a, .inr ⟨ha, hap'⟩, hd, pos, hpos, ?_⟩
      rw [Layout.move_at_ne (hne ha)]
      exact hat
  · obtain ⟨a', ha', hd', heq⟩ := hback a ha hd
    rw [heq] at hat
    exact h.entries.size a' ha' hd' pos q hat

include hb in
theorem Books.Moved.addr_ne {k : ℕ} (hk : k ≠ f) : b'.fileAddr k = b.fileAddr k := by
  rw [Books.fileAddr, Books.fileAddr, hb.file k hk, hb.geo]

include hb in
theorem Books.Moved.nodeAddr_ne {k : ℕ} (hk : k ≠ d) : b'.nodeAddr k = b.nodeAddr k := by
  rw [Books.nodeAddr, Books.nodeAddr, hb.node k hk, hb.geo]

include h hc hb in
theorem FilesOk.move : FilesOk (G.move p p' m S) b' m := by
  have hne : ∀ {a}, a ∈ G.owners → a ≠ p' := fun ha he => hc.new (he ▸ ha)
  have hok := h.files.file f hc.file hc.there
  have haddr : (b.file f).addr b.geo = p := hc.fileAddr
  have haddr' : (b'.file f).addr b.geo = p' := hb.geo ▸ hb.fileAddr
  have hother : ∀ {k}, k ∈ b.filesOpen → k ∉ G.goneFiles → k ≠ f → b.fileAddr k ≠ p := fun hk hkg hkf he =>
    hkf (h.files.inj _ hk f hc.file hkg hc.there (he.trans hc.fileAddr.symm))
  have hfc : (slotAt m p').firstCluster = (b.file f).firstCluster := (firstCluster_congr hc.de).trans hok.de
  refine ⟨fun k hk hkg => ?_, fun k hk k' hk' hkg hkg' he => ?_, ?_, fun q hq h0 hqg hno => ?_⟩
  · rw [hb.filesOpen] at hk
    rw [hb.geo]
    by_cases hkf : k = f
    · subst hkf
      have hdir := hok.dir
      rw [haddr, ← hc.isDir h] at hdir
      have hfirst := hok.first
      rw [haddr] at hfirst
      refine ⟨.inr hb.place, ?_, ?_, ?_, ?_, fun _ => ?_, fun _ _ i hi hi' => ?_, ?_, fun _ _ => .inr ?_⟩
      · rw [haddr']
        exact .inl rfl
      · rw [haddr', Layout.move_chain_self, hb.firstCluster]
        exact hfirst
      · rw [hb.de, hb.firstCluster]
        exact hok.de
      · rw [hb.de, haddr']
        exact hdir
      · rw [hb.de]
        exact hok.live (by rw [haddr]; exact hc.pos)
      · rw [haddr', hb.de]
        exact hc.de i hi hi'
      · rw [hb.de, hb.firstCluster]
        exact hok.size
      · rw [haddr', hb.firstCluster]
        exact hfc
    · rw [hb.file k hkf]
      have hk' := h.files.file k hk hkg
      refine hk'.layout (.inr ⟨hk'.owner, hother hk hkg hkf⟩) ?_ id
      rw [Layout.move_chain_ne (hne hk'.owner)]
  · rw [hb.filesOpen] at hk hk'
    by_cases hkf : k = f <;> by_cases hkf' : k' = f
    · rw [hkf, hkf']
    · rw [hkf, hb.fileAddr, hb.addr_ne hkf'] at he
      exact absurd he.symm (hne (h.files.file k' hk' hkg').owner)
    · rw [hkf', hb.fileAddr, hb.addr_ne hkf] at he
      exact absurd he (hne (h.files.file k hk hkg).owner)
    · rw [hb.addr_ne hkf, hb.addr_ne hkf'] at he
      exact h.files.inj k hk k' hk' hkg hkg' he
  · rw [Layout.move_chain_ne (Ne.symm hc.newPos), hb.geo]
    exact h.files.root
  · rw [hb.filesOpen] at hno
    have hqp' : q ≠ p' := fun he => hno f hc.file hc.there (he ▸ hb.fileAddr)
    have hq' : q ∈ G.owners \ {p} := hq.resolve_left hqp'
    rw [Layout.move_chain_ne hqp']
    refine h.files.closed q hq'.1 h0 (fun hn => hqg ⟨hn, ?_⟩) fun k hk hkg he => ?_
    · rintro (he | he)
      · exact hq'.2 he
      · exact hqp' he
    · by_cases hkf : k = f
      · exact hq'.2 (by rw [← he, hkf]; exact hc.fileAddr)
      · exact hno k hk hkg (by rw [hb.addr_ne hkf, he])

include h hc hb in
theorem NodesOk.move : NodesOk (G.move p p' m S) b' m := by
  have hne : ∀ {a}, a ∈ G.owners → a ≠ p' := fun ha he => hc.new (he ▸ ha)
  refine ⟨fun k hk hkg => ?_, fun k hk k' hk' hkg hkg' he => ?_, ?_, fun c hcc hcg => ?_⟩
  · rw [hb.nodes] at hk
    have hkd : k ≠ d := fun he => hkg (he ▸ hc.gone)
    have hn := h.nodes.node k hk hkg
    rw [hb.node k hkd]
    refine hn.layout hb.geo (.inr ⟨hn.owner, hc.nodes k hk hkg⟩) Iff.rfl fun j hj hown hjd hat => ?_
    by_cases hjd' : j = d
    · subst hjd'
      rw [hc.nodeAddr] at hjd hat
      rw [hb.nodeAddr]
      refine ⟨.inl rfl, (hc.isDir h).mpr hjd, ?_⟩
      rw [Layout.move_at_self hc.pos hc.newPos]
      exact hat
    · rw [hb.nodeAddr_ne hjd']
      refine ⟨.inr ⟨hown, fun he => hjd' (hc.parents k hk j hj he)⟩, hjd, ?_⟩
      rw [Layout.move_at_ne (hne hown)]
      exact hat
  · rw [hb.nodes] at hk hk'
    have hkd : k ≠ d := fun hkd => hkg (hkd ▸ hc.gone)
    have hkd' : k' ≠ d := fun hkd' => hkg' (hkd' ▸ hc.gone)
    rw [hb.nodeAddr_ne hkd, hb.nodeAddr_ne hkd'] at he
    exact h.nodes.inj k hk k' hk' hkg hkg' he
  · rw [hb.node _ (Ne.symm hc.root)]
    exact h.nodes.root
  · rw [hb.channelsOpen] at hcc
    rw [hb.channel] at hcg ⊢
    by_cases hcf : (b.channel c).f = f
    · exact ⟨d, hc.channels c hcc hcf, by rw [hcf, hb.nodeAddr, hb.fileAddr]⟩
    · obtain ⟨j, hj, he⟩ := h.nodes.channel c hcc hcg
      refine ⟨j, hj, ?_⟩
      rw [hb.addr_ne hcf, ← he]
      apply hb.nodeAddr_ne
      rintro rfl
      -- the node's address is that of the file, which would be another one
      rw [hc.nodeAddr] at he
      exact hcf (h.files.inj _ (hc.users c hcc hcg) f hc.file hcg hc.there (he.symm.trans hc.fileAddr.symm))

include h hc hb in
/-- A file whose entry has been copied is renamed. Its cached entry keeps the old name. -/
theorem Recorded.move (hS : G.stale ⊆ S) (hS' : S ⊆ insert f G.stale)
    (hname : G.named → (∀ i < 11, (b.file f).de i = m (p' + i)) ∨ f ∈ S)
    (hclean : G.named → f ∈ S → (b.file f).deChanged = false) : Recorded (G.move p p' m S) b' m := by
  refine ⟨hb.geo ▸ Entries.move h hc, FilesOk.move h hc hb, NodesOk.move h hc hb, fun hn => ?_⟩
  have hnames := h.names hn
  refine ⟨fun q hq h0 hqg i hi => ?_, fun k hk hkg hks h0 i hi => ?_, fun k hk => ?_⟩
  · by_cases hqp' : q = p'
    · rw [hqp', Layout.move_name_self]
    · have hq' : q ∈ G.owners \ {p} := hq.resolve_left hqp'
      rw [Layout.move_name_ne hqp']
      refine hnames.slot q hq'.1 h0 (fun hn' => hqg ⟨hn', ?_⟩) i hi
      rintro (he | he)
      · exact hq'.2 he
      · exact hqp' he
  · rw [hb.filesOpen] at hk
    by_cases hkf : k = f
    · subst hkf
      rw [hb.fileAddr, Layout.move_name_self, hb.de]
      exact (hname hn).resolve_right hks i hi
    · rw [hb.addr_ne hkf] at h0 ⊢
      rw [hb.file k hkf, Layout.move_name_ne (h.file_ne hc.new hk hkg)]
      exact hnames.file k hk hkg (fun hn' => hks (hS hn')) h0 i hi
  · by_cases hkf : k = f
    · subst hkf
      rw [hb.deChanged]
      exact hclean hn hk
    · rw [hb.file k hkf]
      exact hnames.stale k ((hS' hk).resolve_left hkf)

include hc in
theorem Chains.move {t : ℕ → ℕ} {ok : ℕ → Prop} (h : Chains t fatEoc ok G.owners G.chain) :
    Chains t fatEoc ok (G.move p p' m S).owners (G.move p p' m S).chain := by
  have hsub : Chains t fatEoc ok (G.owners \ {p}) G.chain := h.mono fun _ hi => hi.1
  exact hsub.replace p' (h.links p hc.owner) (h.ok p hc.owner) (h.nodup p hc.owner)
    (fun j hj _ x hx hx' => h.disjoint p hc.owner j hj.1 (fun he => hj.2 he.symm) x hx hx') fun _ _ _ _ _ => rfl

end Move

end FreeDos32.Fat
