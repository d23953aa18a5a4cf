import FreeDos32.Fat.Clusters

namespace FreeDos32.Fat

variable {G G' : Layout} {b : Books} {g : Geometry} {e : ℕ} {m m' : ℕ → UInt8} {a p pos f : ℕ}

theorem isDir_congr (h : p ≠ 0 → m' (p + 11) = m (p + 11)) : IsDir m' p ↔ IsDir m p := by
  by_cases hp : p = 0
  · simp [IsDir, hp]
  · simp only [IsDir, hp, false_or, Direntry.isDir, Direntry.attr, slotAt, h hp]

theorem live_congr {de de' : Direntry} (h : ∀ i < 12, de' i = de i) : de'.Live ↔ de.Live := by
  have hname : de'.name = de.name := by
    unfold Direntry.name
    apply List.map_congr_left
    intro i hi
    exact h i (by have := List.mem_range.mp hi; omega)
  simp only [Direntry.Live, Direntry.attr, hname, h 0 (by omega), h 11 (by omega)]

theorem firstCluster_congr {de de' : Direntry} (h : ∀ i, 11 ≤ i → i < 32 → de' i = de i) :
    de'.firstCluster = de.firstCluster := by
  simp only [Direntry.firstCluster, get16]
  rw [h 20 (by omega) (by omega), h 21 (by omega) (by omega), h 26 (by omega) (by omega), h 27 (by omega) (by omega)]

theorem fileSize_congr {de de' : Direntry} (h : ∀ i, 11 ≤ i → i < 32 → de' i = de i) : de'.fileSize = de.fileSize := by
  simp only [Direntry.fileSize, get32, get16]
  rw [h 28 (by omega) (by omega), h 29 (by omega) (by omega), h 30 (by omega) (by omega), h 31 (by omega) (by omega)]

theorem isDir_de_congr {de de' : Direntry} (h : de' 11 = de 11) : de'.isDir = de.isDir := by
  rw [Direntry.isDir, Direntry.isDir, Direntry.attr, Direntry.attr, h]

/-- The slots of all directories are the same, other than those that are no owner's and either look dead
or are known as loose. -/
def SameSlots (G : Layout) (g : Geometry) (m m' : ℕ → UInt8) : Prop :=
  ∀ a ∈ G.owners, IsDir m a → ∀ pos p, 32 ∣ pos → G.at g a pos = some p →
    (∀ i < 32, m' (p + i) = m (p + i)) ∨ (p ∉ G.owners ∧ ((slotAt m' p).Live → p ∈ G.loose))

theorem Entries.same_owner (h : Entries G g m) (hm : SameSlots G g m m') (hp : p ∈ G.owners) (h0 : p ≠ 0) :
    ∀ i < 32, m' (p + i) = m (p + i) := by
  obtain ⟨a, ha, hd, pos, hpos, hat⟩ := h.inside p hp h0
  exact (hm a ha hd pos p hpos hat).resolve_right fun hn => hn.1 hp

theorem Entries.isDir_iff (h : Entries G g m) (hm : SameSlots G g m m') (hp : p ∈ G.owners) : IsDir m' p ↔ IsDir m p :=
  isDir_congr fun h0 => h.same_owner hm hp h0 11 (by omega)

theorem Entries.sameSlots (h : Entries G g m) (hm : SameSlots G g m m') : Entries G g m' where
  root := h.root
  slots a ha hd pos p hpos hat hlive := by
    have hd' := (h.isDir_iff hm ha).mp hd
    rcases hm a ha hd' pos p hpos hat with hsame | hother
    · exact h.slots a ha hd' pos p hpos hat ((live_congr fun i hi => hsame i (by omega)).mp hlive)
    · exact .inr (hother.2 hlive)
  linked p hp h0 hg := (live_congr fun i hi => h.same_owner hm hp h0 i (by omega)).mpr (h.linked p hp h0 hg)
  inside p hp h0 := by
    obtain ⟨a, ha, hd, hrest⟩ := h.inside p hp h0
    exact ⟨a, ha, (h.isDir_iff hm ha).mpr hd, hrest⟩
  size a ha hd := h.size a ha ((h.isDir_iff hm ha).mp hd)

theorem FileOk.congr {x : FileInfo} (h : FileOk G g m x)
    (hm : x.addr g ≠ 0 → ∀ i, 11 ≤ i → i < 32 → m' (x.addr g + i) = m (x.addr g + i)) : FileOk G g m' x where
  place := h.place
  owner := h.owner
  first := h.first
  de := h.de
  dir := h.dir.trans (isDir_congr fun h0 => hm h0 11 (by omega) (by omega)).symm
  live := h.live
  flushed hc h0 i hi hi' := (hm h0 i hi hi').trans (h.flushed hc h0 i hi hi')
  size := h.size
  shows hd h0 := by
    have hfc : (slotAt m' (x.addr g)).firstCluster = (slotAt m (x.addr g)).firstCluster :=
      firstCluster_congr fun i hi hi' => hm h0 i hi hi'
    rw [hfc]
    exact h.shows hd h0

theorem FilesOk.sameSlots (h : FilesOk G b m) (he : Entries G b.geo m) (hm : SameSlots G b.geo m m') :
    FilesOk G b m' where
  file f hf hg := (h.file f hf hg).congr fun h0 i _ hi => he.same_owner hm (h.file f hf hg).owner h0 i hi
  inj := h.inj
  root := h.root
  closed p hp h0 hg hno := by
    have hs := he.same_owner hm hp h0
    have hfc : (slotAt m' p).firstCluster = (slotAt m p).firstCluster := firstCluster_congr fun i _ hi => hs i hi
    have hfs : (slotAt m' p).fileSize = (slotAt m p).fileSize := fileSize_congr fun i _ hi => hs i hi
    have hdir : (slotAt m' p).isDir = (slotAt m p).isDir := isDir_de_congr (hs 11 (by omega))
    rw [hfc, hfs, hdir]
    exact h.closed p hp h0 hg hno

theorem NodeOk.sameSlots {d : NodeInfo} (h : NodeOk G b m d) (he : Entries G b.geo m) (hm : SameSlots G b.geo m m') :
    NodeOk G b m' d where
  owner := h.owner
  sector := h.sector
  attr := h.attr.trans (he.isDir_iff hm h.owner).symm
  entry := by
    obtain ⟨p, hp, hown, hd, hat⟩ := h.entry
    exact ⟨p, hp, hown, (he.isDir_iff hm hown).mpr hd, hat⟩

theorem NodesOk.sameSlots (h : NodesOk G b m) (he : Entries G b.geo m) (hm : SameSlots G b.geo m m') :
    NodesOk G b m' :=
  ⟨fun d hd hg => (h.node d hd hg).sameSlots he hm, h.inj, h.root, h.channel⟩

theorem NamesOk.sameSlots (h : NamesOk G b m) (he : Entries G b.geo m) (hm : SameSlots G b.geo m m') :
    NamesOk G b m' :=
  ⟨fun p hp h0 hg i hi => (he.same_owner hm hp h0 i (by omega)).trans (h.slot p hp h0 hg i hi), h.file, h.stale⟩

theorem Recorded.sameSlots (h : Recorded G b m) (hm : SameSlots G b.geo m m') : Recorded G b m' :=
  ⟨h.entries.sameSlots hm, h.files.sameSlots h.entries hm, h.nodes.sameSlots h.entries hm,
    fun hn => (h.names hn).sameSlots h.entries hm⟩

theorem Orderly.sameSlots (h : Orderly G b m) (hm : SameSlots G b.geo m m')
    (ht : ∀ n ≤ b.geo.dataClusters + 1, table b.geo m' n = table b.geo m n)
    (hr : ∀ k < b.geo.numFats, ∀ n ≤ 1, fatEntry b.geo m' k n = fatEntry b.geo m k n) : Orderly G b m' where
  toRecorded := h.toRecorded.sameSlots hm
  chains := h.chains.congr fun i hi x hx => ht x (h.chains.ok i hi x hx).2
  reserved k hk n hn := (hr k hk n hn).trans (h.reserved k hk n hn)
  free := by
    rw [h.free]
    unfold zeros
    apply List.countP_congr
    intro i hi
    have hlt := List.mem_range.mp hi
    rw [ht (i + 2) (by omega)]

theorem GeoOk.sameSlots_of_table (hg : GeoOk g e) (hm : ∀ x, g.rootSector * g.bytesPerSector ≤ x → m' x = m x) :
    SameSlots G g m m' := by
  intro a _ _ pos p _ hat
  left
  intro i _
  have := hg.posAddr_le hat
  exact hm _ (by omega)

theorem Orderly.sameSlots_of_file (h : Orderly G b m) (hg : GeoOk b.geo e) (ha : a ∈ G.owners) (hd : ¬IsDir m a)
    (hm : ∀ x, (∀ pos, G.at b.geo a pos ≠ some x) → m' x = m x) : SameSlots G b.geo m m' := by
  intro a' ha' hd' pos p hpos hat
  left
  intro i hi
  apply hm
  intro pos' hat'
  have hslot := hg.posAddr_slot hat hpos hi
  obtain ⟨rfl, -⟩ := Chains.posAddr_unique hg h.chains ha' ha hslot hat'
  exact hd hd'

/-- The layout with another chain for one of the owners, whose new slots are loose. -/
def Layout.setChain (G : Layout) (a : ℕ) (l : List ℕ) (L : Set ℕ) : Layout :=
  { G with chain := Function.update G.chain a l, loose := L }

theorem Layout.setChain_self (a : ℕ) (l : List ℕ) (L : Set ℕ) : (G.setChain a l L).chain a = l :=
  Function.update_self ..

theorem Layout.setChain_ne {a' : ℕ} (h : a' ≠ a) (l : List ℕ) (L : Set ℕ) :
    (G.setChain a l L).chain a' = G.chain a' := Function.update_of_ne h ..

theorem Layout.setChain_at_ne {a' : ℕ} (h : a' ≠ a) (l : List ℕ) (L : Set ℕ) (pos : ℕ) :
    (G.setChain a l L).at g a' pos = G.at g a' pos := by
  rw [Layout.at, Layout.at, Layout.setChain_ne h]

/-- A change of a file's chain that keeps the slots of a directory where they are. -/
structure Layout.Grows (G : Layout) (g : Geometry) (m : ℕ → UInt8) (a : ℕ) (l : List ℕ) (L : Set ℕ) : Prop where
  loose : G.loose ⊆ L
  keep : IsDir m a → ∀ pos p, G.at g a pos = some p → posAddr g l a pos = some p
  new : IsDir m a → ∀ pos p, posAddr g l a pos = some p → G.at g a pos = some p ∨ p ∈ L
  size : IsDir m a → ∀ pos p, posAddr g l a pos = some p → pos < 65535 * 32
  root : a = 0 → l.headD 0 = (G.chain 0).headD 0

theorem Layout.Grows.at_keep {a' l} {L : Set ℕ} (h : G.Grows g m a l L) (hd : IsDir m a')
    (hat : G.at g a' pos = some p) : (G.setChain a l L).at g a' pos = some p := by
  by_cases ha : a' = a
  · subst ha
    rw [Layout.at, Layout.setChain_self]
    exact h.keep hd pos p hat
  · rw [Layout.setChain_at_ne ha, hat]

theorem Layout.Grows.at_new {a' l} {L : Set ℕ} (h : G.Grows g m a l L) (hd : IsDir m a')
    (hat : (G.setChain a l L).at g a' pos = some p) :
    (G.at g a' pos = some p ∨ p ∈ L) ∧ (pos < 65535 * 32 ∨ G.at g a' pos = some p) := by
  by_cases ha : a' = a
  · subst ha
    rw [Layout.at, Layout.setChain_self] at hat
    exact ⟨h.new hd pos p hat, .inl (h.size hd pos p hat)⟩
  · rw [Layout.setChain_at_ne ha] at hat
    exact ⟨.inl hat, .inr hat⟩

theorem Entries.setChain {l} {L : Set ℕ} (h : Entries G g m) (hG : G.Grows g m a l L) :
    Entries (G.setChain a l L) g m where
  root := h.root
  slots a' ha' hd pos p hpos hat hlive := by
    rcases (hG.at_new hd hat).1 with hold | hnew
    · exact (h.slots a' ha' hd pos p hpos hold hlive).imp_right fun hp => hG.loose hp
    · exact .inr hnew
  linked := h.linked
  inside p hp h0 := by
    obtain ⟨a', ha', hd, pos, hpos, hat⟩ := h.inside p hp h0
    exact ⟨a', ha', hd, pos, hpos, hG.at_keep hd hat⟩
  size a' ha' hd pos p hat := by
    rcases (hG.at_new hd hat).2 with hlt | hold
    · exact hlt
    · exact h.size a' ha' hd pos p hold

theorem FileOk.setChain {l} {L : Set ℕ} {x : FileInfo} (h : FileOk G g m x) (hne : x.addr g ≠ a) :
    FileOk (G.setChain a l L) g m x := by
  refine ⟨h.place, h.owner, ?_, h.de, h.dir, h.live, h.flushed, h.size, h.shows⟩
  rw [Layout.setChain_ne hne]
  exact h.first

def Books.setFile (b : Books) (f : ℕ) (x : FileInfo) : Books := { b with file := Function.update b.file f x }

theorem Books.setFile_self (f : ℕ) (x : FileInfo) : (b.setFile f x).file f = x := Function.update_self ..

theorem Books.setFile_ne {k : ℕ} (h : k ≠ f) (x : FileInfo) : (b.setFile f x).file k = b.file k :=
  Function.update_of_ne h ..

theorem Books.setFile_addr {x : FileInfo} (hx : x.addr b.geo = b.fileAddr f) (k : ℕ) :
    (b.setFile f x).fileAddr k = b.fileAddr k := by
  by_cases hk : k = f
  · rw [hk, Books.fileAddr, Books.setFile_self]
    exact hx
  · rw [Books.fileAddr, Books.setFile_ne hk]
    rfl

theorem Recorded.setFile {l} {L : Set ℕ} {x : FileInfo} (h : Recorded G b m) (hf : f ∈ b.filesOpen)
    (hfg : f ∉ G.goneFiles) (haddr : x.addr b.geo = b.fileAddr f) (hG : G.Grows b.geo m (b.fileAddr f) l L)
    (hx : FileOk (G.setChain (b.fileAddr f) l L) b.geo m x)
    (hname : ∀ i < 11, x.de i = (b.file f).de i) (hstale : f ∉ G.stale ∨ x.deChanged = false) :
    Recorded (G.setChain (b.fileAddr f) l L) (b.setFile f x) m where
  entries := h.entries.setChain hG
  files := by
    refine ⟨fun k hk hkg => ?_, fun k hk k' hk' hkg hkg' he => ?_, ?_, fun p hp h0 hpg hno => ?_⟩
    · by_cases hkf : k = f
      · subst hkf
        rw [Books.setFile_self]
        exact hx
      · rw [Books.setFile_ne hkf]
        exact (h.files.file k hk hkg).setChain fun he => hkf (h.files.inj k hk f hf hkg hfg he)
    · rw [Books.setFile_addr haddr, Books.setFile_addr haddr] at he
      exact h.files.inj k hk k' hk' hkg hkg' he
    · by_cases ha : b.fileAddr f = 0
      · rw [ha, Layout.setChain_self, hG.root ha, h.files.root]
        rfl
      · rw [Layout.setChain_ne (Ne.symm ha), h.files.root]
        rfl
    · have hpf : p ≠ b.fileAddr f := fun he => hno f hf hfg (by rw [Books.setFile_addr haddr, he])
      rw [Layout.setChain_ne hpf]
      exact h.files.closed p hp h0 hpg fun k hk hkg he => hno k hk hkg (by rw [Books.setFile_addr haddr, he])
  nodes := by
    refine ⟨fun d hd hdg => ?_, h.nodes.inj, h.nodes.root, fun c hc hcg => ?_⟩
    · obtain ⟨hown, hsec, hattr, q, hq, hqown, hqd, hat⟩ := h.nodes.node d hd hdg
      exact ⟨hown, hsec, hattr, q, hq, hqown, hqd, hG.at_keep hqd hat⟩
    · obtain ⟨d, hd, he⟩ := h.nodes.channel c hc hcg
      exact ⟨d, hd, he.trans (Books.setFile_addr haddr _).symm⟩
  names hn := by
    have hnames := h.names hn
    refine ⟨hnames.slot, fun k hk hkg hks h0 i hi => ?_, fun k hk => ?_⟩
    · rw [Books.setFile_addr haddr] at h0 ⊢
      by_cases hkf : k = f
      · subst hkf
        rw [Books.setFile_self, hname i hi]
        exact hnames.file k hk hkg hks h0 i hi
      · rw [Books.setFile_ne hkf]
        exact hnames.file k hk hkg hks h0 i hi
    · by_cases hkf : k = f
      · subst hkf
        rw [Books.setFile_self]
        exact hstale.resolve_left fun hnot => hnot hk
      · rw [Books.setFile_ne hkf]
        exact hnames.stale k hk

def Books.setFree (b : Books) (n : ℕ) : Books := { b with freeClusters := n }

theorem Recorded.setFree (h : Recorded G b m) (n : ℕ) : Recorded G (b.setFree n) m where
  entries := h.entries
  files := ⟨h.files.file, h.files.inj, h.files.root, h.files.closed⟩
  nodes := by
    refine ⟨fun d hd hg => ?_, h.nodes.inj, h.nodes.root, h.nodes.channel⟩
    have hnode := h.nodes.node d hd hg
    exact ⟨hnode.owner, hnode.sector, hnode.attr, hnode.entry⟩
  names hn := ⟨(h.names hn).slot, (h.names hn).file, (h.names hn).stale⟩

theorem Layout.Grows.refl (a : ℕ) (he : Entries G g m) (ha : a ∈ G.owners) : G.Grows g m a (G.chain a) G.loose where
  loose := Set.Subset.rfl
  keep _ _ _ h := h
  new _ _ _ h := .inl h
  size hd pos p h := he.size a ha hd pos p h
  root h0 := by rw [h0]

theorem Layout.Grows.of_file (hd : ¬IsDir m a) (l : List ℕ) : G.Grows g m a l G.loose where
  loose := Set.Subset.rfl
  keep h := absurd h hd
  new h := absurd h hd
  size h := absurd h hd
  root h0 := absurd (.inl h0) hd

end FreeDos32.Fat
