import FreeDos32.Fat.Objects

namespace FreeDos32.Fat

open Prog

variable {G : Layout} {v w : Volume} {m : ℕ → UInt8} {c d f p : ℕ} {de : Direntry}

/-- The entry of a node shows no first cluster, or that of its open file. -/
def Volume.Shows (v : Volume) (d : ℕ) : Prop :=
  ∀ f ∈ v.filesOpen, (books v).fileAddr f = (books v).nodeAddr d → (books v).nodeAddr d ≠ 0 →
    (slotAt v.byte ((books v).nodeAddr d)).firstCluster = 0 ∨
      (slotAt v.byte ((books v).nodeAddr d)).firstCluster = (v.files f).firstCluster

structure Openable (G : Layout) (v : Volume) (d : ℕ) : Prop where
  node : d = rootDentry ∨ d ∈ v.dentriesSlab ∧ d ∉ G.goneNodes
  there : (books v).nodeAddr d ∉ G.gone
  files : ∀ f ∈ v.filesOpen, f ∉ G.goneFiles
  shown : v.Shows d

theorem Tidy.shows (h : Tidy G v) (hfiles : ∀ f ∈ v.filesOpen, f ∉ G.goneFiles)
    (hd : G.fresh ∨ IsDir v.byte ((books v).nodeAddr d)) : v.Shows d := by
  intro f hf he h0
  have hok := h.order.files.file f hf (hfiles f hf)
  have haddr : (v.files f).info.addr v.geo = (books v).nodeAddr d := he
  have hshow := hok.shows (hd.symm.imp_left fun hdir => hok.dir.mpr (haddr ▸ hdir))
    (by rw [show (books v).geo = v.geo from rfl]; exact haddr ▸ h0)
  rw [← haddr]
  exact hshow

theorem NodesOk.rootAddr (h : NodesOk G (books v) m) : (books v).nodeAddr rootDentry = 0 := by
  obtain ⟨hs, he, -, -⟩ := h.root
  simp [Books.nodeAddr, NodeInfo.addr, hs, he]

theorem NodeOk.addr_ne {b : Books} {x : NodeInfo} (h : NodeOk G b m x) : x.addr b.geo ≠ 0 := by
  have hs := h.sector
  have hpos := Nat.mul_pos (show 0 < x.deSector by omega) (bytesPerSector_pos b.geo)
  unfold NodeInfo.addr
  omega

theorem Openable.owner (h : Openable G v d) (ho : Orderly G (books v) m) : (books v).nodeAddr d ∈ G.owners := by
  rcases h.node with rfl | ⟨hm, hg⟩
  · rw [ho.nodes.rootAddr]
    exact ho.entries.root
  · exact (ho.nodes.node d hm hg).owner

theorem Openable.addr_zero (h : Openable G v d) (ho : Orderly G (books v) m) :
    (books v).nodeAddr d = 0 ↔ d = rootDentry := by
  rcases h.node with rfl | ⟨hm, hg⟩
  · simp [ho.nodes.rootAddr]
  · refine iff_of_false (ho.nodes.node d hm hg).addr_ne ?_
    rintro rfl
    have hn := ho.nodes.node _ hm hg
    obtain ⟨k, hk, -⟩ := hn.entry
    rw [ho.nodes.root.2.2.2] at hk
    cases hk

/-- The entry of a node as it has been read. -/
structure EntryRead (v : Volume) (d : ℕ) (de : Direntry) : Prop where
  root : (books v).nodeAddr d = 0 → de = rootDirentry v.geo
  slot : (books v).nodeAddr d ≠ 0 → ∀ i < 32, de i = v.byte ((books v).nodeAddr d + i)

theorem fetchDirentry_run (h : Tidy G v) (hd : Openable G v d) :
    ∃ de w, (fetchDirentry d).run v = (.ok de, w) ∧ Recached v.byte v w ∧ EntryRead v d de := by
  rcases hd.node with rfl | ⟨hm, hg⟩
  · have hpar : (v.dentries rootDentry).parent = none := h.order.nodes.root.2.2.2
    refine ⟨rootDirentry v.geo, v, ?_, .refl h.sound.media, fun _ => rfl, fun h0 => ?_⟩
    · rw [fetchDirentry, run_bind_state, hpar]
      rfl
    · exact absurd ((hd.addr_zero h.order).mpr rfl) h0
  · have hn := h.order.nodes.node d hm hg
    obtain ⟨k, hk, hown, -, hat⟩ := hn.entry
    have hpar : (v.dentries d).parent = some k := hk
    have hsec : (v.dentries d).secofs v.geo < v.geo.bytesPerSector := Nat.mod_lt _ (bytesPerSector_pos _)
    have haddr : (books v).nodeAddr d = (v.dentries d).deSector * v.geo.bytesPerSector + (v.dentries d).secofs v.geo := rfl
    have hlt : (v.dentries d).deSector < v.cache.deviceEnd := by
      have hlt := Chains.posAddr_lt h.sound.geo h.order.chains hown hat
      have hle : (v.dentries d).deSector * v.geo.bytesPerSector < v.cache.deviceEnd * v.geo.bytesPerSector :=
        Nat.lt_of_le_of_lt (Nat.le_add_right _ _) hlt
      exact Nat.lt_of_mul_lt_mul_right hle
    have hfit : (v.dentries d).secofs v.geo + 32 ≤ v.geo.bytesPerSector := h.sound.geo.slot_fits (Nat.dvd_mul_left _ _)
    obtain ⟨r, w, hrun, hw, hseat, -, -⟩ := fatReadbuf_run h.sound.media hlt none (by simp)
    have hbytes := run_bufBytes hseat hw.media (o := (v.dentries d).secofs v.geo) (n := 32)
      (by rw [hw.geo]; exact hsec) (by rw [hw.geo]; exact hfit)
    rw [hw.byte, hw.geo, ← haddr] at hbytes
    refine ⟨Direntry.ofBytes (bytesAt v.byte ((books v).nodeAddr d) 32), w, ?_, hw, fun h0 => absurd h0 hn.addr_ne,
      fun _ i hi => ?_⟩
    · rw [fetchDirentry, run_bind_state, hpar]
      dsimp only
      rw [run_bind_ok hrun, run_bind_ok hbytes]
      rfl
    · simp [Direntry.ofBytes, bytesAt, List.getD_eq_getElem?_getD, hi]

theorem rootDirentry_firstCluster {g : Geometry} {e : ℕ} (hg : GeoOk g e) : (rootDirentry g).firstCluster = g.rootCluster := by
  apply firstCluster_setFirstCluster
  have hlim := hg.dataClusters_lt
  by_cases ht : g.fatType = .fat32
  · have := (hg.rootCluster ht).2
    omega
  · rw [hg.fixedRoot ht]
    omega

theorem rootDirentry_isDir (g : Geometry) : (rootDirentry g).isDir = true := by
  have h : rootDirentry g 11 = fatADir := by
    rw [rootDirentry, setFirstCluster_other _ _ (by omega)]
    rfl
  rw [Direntry.isDir, Direntry.attr, h]
  decide

def Dentry.fileInfo (x : Dentry) (g : Geometry) (de : Direntry) : FileInfo :=
  ⟨de, false, x.deSector, x.secofs g, de.firstCluster⟩

section EntryRead

variable (h : Tidy G v) (hd : Openable G v d) (hde : EntryRead v d de)

include h hd hde in
theorem EntryRead.first : de.firstCluster = 0 ∨ de.firstCluster = (G.chain ((books v).nodeAddr d)).headD 0 := by
  by_cases h0 : (books v).nodeAddr d = 0
  · right
    rw [hde.root h0, rootDirentry_firstCluster h.sound.geo, h0]
    exact h.order.files.root.symm
  · have hfc : de.firstCluster = (slotAt v.byte ((books v).nodeAddr d)).firstCluster :=
      firstCluster_congr fun i _ hi => hde.slot h0 i hi
    rw [hfc]
    by_cases hopen : ∃ f ∈ v.filesOpen, (books v).fileAddr f = (books v).nodeAddr d
    · obtain ⟨f, hf, he⟩ := hopen
      have hok := h.order.files.file f hf (hd.files f hf)
      have haddr : (v.files f).info.addr v.geo = (books v).nodeAddr d := he
      have hfirst : (v.files f).firstCluster = (G.chain ((v.files f).info.addr v.geo)).headD 0 := hok.first
      rw [haddr] at hfirst
      exact (hd.shown f hf he h0).imp_right fun hsh => hsh.trans hfirst
    · exact .inr (h.order.files.closed _ (hd.owner h.order) h0 hd.there fun f hf _ he => hopen ⟨f, hf, he⟩).1

include h hd hde in
theorem EntryRead.findFile :
    (∀ f, v.findFile de (v.dentries d).deSector ((v.dentries d).secofs v.geo) = some f →
      f ∈ v.filesOpen ∧ (books v).fileAddr f = (books v).nodeAddr d) ∧
    (v.findFile de (v.dentries d).deSector ((v.dentries d).secofs v.geo) = none →
      ∀ f ∈ v.filesOpen, (books v).fileAddr f ≠ (books v).nodeAddr d) := by
  have hown := hd.owner h.order
  have hfirst := hde.first h hd
  constructor
  · intro f hfind
    have hf := List.mem_of_find?_eq_some hfind
    have htest := List.find?_some hfind
    refine ⟨hf, ?_⟩
    have hok := h.order.files.file f hf (hd.files f hf)
    by_cases hz : de.firstCluster = 0
    · have hplace : (v.files f).deSector = (v.dentries d).deSector ∧ (v.files f).deSecofs = (v.dentries d).secofs v.geo := by
        simpa [hz] using htest
      change (v.files f).deSector * v.geo.bytesPerSector + (v.files f).deSecofs = _
      rw [hplace.1, hplace.2]
      rfl
    · have hsame : (v.files f).firstCluster = de.firstCluster := by simpa [hz] using htest
      -- the first cluster is in the chains of both
      have hhead : (v.files f).firstCluster = (G.chain ((books v).fileAddr f)).headD 0 := hok.first
      have hhead' := hfirst.resolve_left hz
      have hmem : ∀ {l : List ℕ}, l.headD 0 = de.firstCluster → de.firstCluster ∈ l := by
        intro l hl
        cases l with
        | nil => exact absurd hl.symm hz
        | cons x l => exact hl ▸ List.mem_cons_self
      by_contra hne
      exact h.order.chains.disjoint _ hok.owner _ hown hne _ (hmem (hhead.symm.trans hsame)) (hmem hhead'.symm)
  · intro hnone f hf he
    have htest := List.find?_eq_none.mp hnone f hf
    have hok := h.order.files.file f hf (hd.files f hf)
    have hhead : (v.files f).firstCluster = (G.chain ((books v).fileAddr f)).headD 0 := hok.first
    rw [he] at hhead
    by_cases hz : de.firstCluster = 0
    · refine htest ?_
      have hb := bytesPerSector_pos v.geo
      have hlt : (v.files f).deSecofs < v.geo.bytesPerSector := by
        rcases hok.place with ⟨-, h0⟩ | ⟨-, h0⟩
        · have h0' : (v.files f).deSecofs = 0 := h0
          omega
        · exact h0
      have hlt' : (v.dentries d).secofs v.geo < v.geo.bytesPerSector := Nat.mod_lt _ hb
      have he' : (v.files f).deSector * v.geo.bytesPerSector + (v.files f).deSecofs =
          (v.dentries d).deSector * v.geo.bytesPerSector + (v.dentries d).secofs v.geo := he
      have hdiv := congrArg (· / v.geo.bytesPerSector) he'
      have hmod := congrArg (· % v.geo.bytesPerSector) he'
      rw [sector_div _ _ hlt, sector_div _ _ hlt'] at hdiv
      rw [sector_mod _ _ hlt, sector_mod _ _ hlt'] at hmod
      simp [hz, hdiv, hmod]
    · have hsame : (v.files f).firstCluster = de.firstCluster := hhead.trans (hfirst.resolve_left hz).symm
      refine htest ?_
      simp [hz, hsame]

include h hd hde in
theorem EntryRead.fileOk (hno : ∀ f ∈ v.filesOpen, (books v).fileAddr f ≠ (books v).nodeAddr d) :
    FileOk G v.geo v.byte ((v.dentries d).fileInfo v.geo de) := by
  have haddr : ((v.dentries d).fileInfo v.geo de).addr v.geo = (books v).nodeAddr d := rfl
  have hown := hd.owner h.order
  by_cases h0 : (books v).nodeAddr d = 0
  · have hroot := hde.root h0
    have hdr := (hd.addr_zero h.order).mp h0
    obtain ⟨hs, he, -, -⟩ := h.order.nodes.root
    refine ⟨.inl ?_, hown, ?_, rfl, ?_, fun hne => absurd h0 hne, fun _ hne => absurd h0 hne, fun hdir => ?_,
      fun _ hne => absurd h0 hne⟩
    · have hs' : (v.dentries rootDentry).deSector = 0 := hs
      have he' : (v.dentries rootDentry).deEntcnt = 0 := he
      rw [hdr]
      simp [Dentry.fileInfo, Dentry.secofs, hs', he']
    · rw [haddr, h0, h.order.files.root]
      change de.firstCluster = v.geo.rootCluster
      rw [hroot]
      exact rootDirentry_firstCluster h.sound.geo
    · refine iff_of_true ?_ (.inl (haddr.trans h0))
      change de.isDir = true
      rw [hroot]
      exact rootDirentry_isDir _
    · have hdir' : de.isDir = false := hdir
      rw [hroot, rootDirentry_isDir] at hdir'
      cases hdir'
  · obtain ⟨hm, hdg⟩ := hd.node.resolve_left fun he => h0 ((hd.addr_zero h.order).mpr he)
    have hn := h.order.nodes.node d hm hdg
    have hslot := hde.slot h0
    obtain ⟨hfc, hsize⟩ := h.order.files.closed _ hown h0 hd.there fun f hf _ => hno f hf
    have hfc' : (slotAt v.byte ((books v).nodeAddr d)).firstCluster = de.firstCluster :=
      (firstCluster_congr fun i _ hi => hslot i hi).symm
    have hfs' : (slotAt v.byte ((books v).nodeAddr d)).fileSize = de.fileSize :=
      (fileSize_congr fun i _ hi => hslot i hi).symm
    have hdir' : (slotAt v.byte ((books v).nodeAddr d)).isDir = de.isDir := (isDir_de_congr (hslot 11 (by omega))).symm
    rw [hfc', hfs', hdir'] at hsize
    refine ⟨.inr ⟨hn.sector, Nat.mod_lt _ (bytesPerSector_pos _)⟩, hown, hfc'.symm.trans hfc, rfl, ?_, fun _ => ?_,
      fun _ _ i _ hi => (hslot i hi).symm, hsize, fun _ _ => .inr hfc'⟩
    · rw [haddr, IsDir, or_iff_right h0, hdir']
      exact Iff.rfl
    · exact (live_congr fun i hi => hslot i (by omega)).mpr (h.order.entries.linked _ hown h0 hd.there)

end EntryRead

/-- The file `f` for the entry at `p`: the one that is open already, or a new one. -/
inductive Books.Taken (b : Books) (p f : ℕ) : Books → Prop
  | old (hf : f ∈ b.filesOpen) (he : b.fileAddr f = p) : Taken b p f b
  | new (x : FileInfo) (hf : f ∉ b.filesOpen) (hx : x.addr b.geo = p) (hno : ∀ k ∈ b.filesOpen, b.fileAddr k ≠ p) :
      Taken b p f (b.newFile f x)

section Taken

variable {b b' : Books} (h : b.Taken p f b')

include h

theorem Books.Taken.mem : f ∈ b'.filesOpen := by
  cases h with
  | old hf he => exact hf
  | new x hf hx hno => exact List.mem_cons_self

theorem Books.Taken.fileAddr : b'.fileAddr f = p := by
  cases h with
  | old hf he => exact he
  | new x hf hx hno => rw [Books.newFile_addr_self, hx]

theorem Books.Taken.other {k : ℕ} (hk : k ∈ b.filesOpen) : b'.file k = b.file k ∧ k ∈ b'.filesOpen := by
  cases h with
  | old hf he => exact ⟨rfl, hk⟩
  | new x hf hx hno =>
    have hkf : k ≠ f := fun he => hf (he ▸ hk)
    exact ⟨Books.newFile_ne hkf x, List.mem_cons_of_mem _ hk⟩

theorem Books.Taken.rest : b'.geo = b.geo ∧ b'.freeClusters = b.freeClusters ∧ b'.node = b.node ∧ b'.nodes = b.nodes ∧
    b'.channel = b.channel ∧ b'.channelsOpen = b.channelsOpen ∧ b'.numBuffers = b.numBuffers := by
  cases h <;> exact ⟨rfl, rfl, rfl, rfl, rfl, rfl, rfl⟩

end Taken

theorem books_setFile_info {g : File → File} (hg : ∀ x, (g x).info = x.info) (f : ℕ) (v : Volume) :
    books (v.setFile f g) = books v := by
  rw [books_setFile, hg]
  exact Books.setFile_same _ _

theorem books_fileInit (f : ℕ) (de : Direntry) (sector secofs : ℕ) (v : Volume) :
    books (fileInit f de sector secofs v) = (books v).newFile f ⟨de, false, sector, secofs, de.firstCluster⟩ := by
  unfold books Books.newFile
  congr 1
  funext k
  by_cases hk : k = f
  · subst hk
    rw [Function.update_self]
    simp [fileInit, File.info]
  · rw [Function.update_of_ne hk]
    simp [fileInit, Volume.setFile, hk]

theorem Tidy.of_recorded (h : Tidy G v) (hcache : w.cache = v.cache) (hgeo : w.geo = v.geo)
    (hfree : w.freeClusters = v.freeClusters) (hrec : Recorded G (books w) v.byte) (hcur : Cursors G w) : Tidy G w := by
  refine ⟨h.sound.of_same hcache hgeo, ?_, hcur⟩
  rw [byte_of_same hcache hgeo]
  have hg : (books w).geo = v.geo := hgeo
  refine { hrec with chains := ?_, reserved := ?_, free := ?_ }
  · rw [hg]
    exact h.order.chains
  · rw [hg]
    exact h.order.reserved
  · rw [hg]
    exact hfree.trans h.order.free

theorem Cursors.of_addr (h : Cursors G v) (hch : ∀ c ∈ w.channelsOpen, c ∈ v.channelsOpen ∧ w.channels c = v.channels c)
    (haddr : ∀ c ∈ w.channelsOpen, (books w).fileAddr (w.channels c).f = (books v).fileAddr (v.channels c).f) :
    Cursors G w := by
  intro c hc hcg
  obtain ⟨hc', he⟩ := hch c hc
  rw [he] at hcg
  have hcur := h c hc' hcg
  unfold CursorOk at hcur ⊢
  rw [haddr c hc, he]
  exact hcur

section Opening

variable {hd hf : ℕ → ℕ} {pins : List (ℕ × ℕ)}

theorem fileGet_tidy (h : Tidy G v) (hc : Counts hd hf pins v) (hop : Openable G v d) (hde : EntryRead v d de)
    (hst : G.named → ∀ f ∈ G.stale, f < v.nextId) :
    ∃ f w, (fileGet de (v.dentries d).deSector ((v.dentries d).secofs v.geo)).run v = (.ok f, w) ∧ Tidy G w ∧
      (books v).Taken ((books v).nodeAddr d) f (books w) ∧ w.byte = v.byte ∧ w.channels = v.channels ∧ w.lud = v.lud ∧
      v.nextId ≤ w.nextId ∧ w.env = v.env ∧ (1 < (w.files f).references ∨ (w.files f).deChanged = false) := by
  have hc' : (skeleton v).Counted hd hf pins := hc
  obtain ⟨hsome, hnone⟩ := hde.findFile h hop
  simp only [fileGet, run_bind_state]
  cases hfind : v.findFile de (v.dentries d).deSector ((v.dentries d).secofs v.geo) with
  | some f =>
    rw [when_neg (by simp)]
    obtain ⟨hf, he⟩ := hsome f hfind
    have hbooks := books_setFile_info (g := fun x : File => { x with references := x.references + 1 }) (fun _ => rfl) f v
    refine ⟨f, _, rfl, ?_, ?_, rfl, rfl, rfl, Nat.le_refl _, rfl, .inl ?_⟩
    · refine h.of_recorded rfl rfl rfl (by rw [Option.getD_some, hbooks]; exact h.order.toRecorded) ?_
      exact h.cursors.of_addr (fun c hc => ⟨hc, rfl⟩) fun c _ => by rw [Option.getD_some, hbooks]; rfl
    · rw [Option.getD_some, hbooks]
      exact .old hf he
    · have hpos : 0 < (v.files f).references := hc'.filePos f hf
      rw [Option.getD_some, Volume.setFile_self]
      exact Nat.succ_lt_succ hpos
  | none =>
    rw [when_pos (by simp)]
    have hno := hnone hfind
    have hfresh : v.nextId ∉ v.filesOpen := fun hm => Nat.lt_irrefl _ (hc'.freshFile _ hm)
    have hok := hde.fileOk h hop hno
    refine ⟨v.nextId, _, rfl, ?_⟩
    generalize hw : Volume.setFile _ _ _ = w
    have hbooks : books w = (books v).newFile v.nextId ((v.dentries d).fileInfo v.geo de) := by
      rw [← hw]
      exact (books_setFile_info (g := fun x : File => { x with references := x.references + 1 }) (fun _ => rfl) _ _).trans
        (books_fileInit _ _ _ _ _)
    have htaken : (books v).Taken ((books v).nodeAddr d) v.nextId (books w) := hbooks ▸ .new _ hfresh rfl hno
    have hchan : ∀ c ∈ v.channelsOpen, (v.channels c).f ≠ v.nextId :=
      fun c hcc he => hfresh (he ▸ hc'.channelFile c hcc)
    refine ⟨?_, htaken, by rw [← hw]; rfl, by rw [← hw]; rfl, by rw [← hw]; rfl, by rw [← hw]; exact Nat.le_succ _,
      by rw [← hw]; rfl, .inr ?_⟩
    swap
    · rw [← hw]
      simp [fileInit]
    refine h.of_recorded (by rw [← hw]; rfl) (by rw [← hw]; rfl) (by rw [← hw]; rfl) ?_ ?_
    · rw [hbooks]
      refine h.order.toRecorded.newFile hfresh (fun hn hs => Nat.lt_irrefl _ (hst hn _ hs)) hok (fun k hk _ => hno k hk)
        hchan fun hn h0 i hi => ?_
      have hslot := (h.order.names hn).slot _ (hop.owner h.order) h0 hop.there i hi
      exact (hde.slot h0 i (by omega)).trans hslot
    · refine h.cursors.of_addr (fun c hcc => ?_) fun c hcc => ?_
      · rw [← hw] at hcc ⊢
        exact ⟨hcc, rfl⟩
      · have hch : w.channels = v.channels := by rw [← hw]; rfl
        rw [← hw] at hcc
        rw [hch, hbooks, Books.newFile_addr_ne (hchan c hcc)]

theorem filePut_tidy (h : Tidy G v) (hflush : (v.files f).references ≤ 1 → f ∉ G.goneFiles →
      (books v).fileAddr f ∉ G.gone → (books v).fileAddr f ≠ 0 → (v.files f).deChanged = false) :
    ∃ w, (filePut f).run v = (.ok (), w) ∧ Tidy G w ∧ (books v).Less (books w) ∧ w.byte = v.byte ∧
      w.channels = v.channels ∧ w.channelsOpen = v.channelsOpen ∧ w.lud = v.lud ∧ w.dentriesSlab = v.dentriesSlab ∧
      w.nextId = v.nextId ∧ w.dentries = v.dentries ∧ w.env = v.env ∧
      (v.filesOpen.Nodup → (v.files f).references ≤ 1 → f ∉ w.filesOpen) := by
  rw [filePut, run_bind_update, run_update]
  generalize hu : (v.setFile f fun x => { x with references := x.references - 1 }) = u
  have hub : books u = books v := by
    rw [← hu]
    exact books_setFile_info (g := fun x : File => { x with references := x.references - 1 }) (fun _ => rfl) f v
  have hrefs : (u.files f).references = (v.files f).references - 1 := by rw [← hu, Volume.setFile_self]
  have hfo : u.filesOpen = v.filesOpen := by rw [← hu]; rfl
  have hut : Tidy G u := by
    refine h.of_recorded (by rw [← hu]; rfl) (by rw [← hu]; rfl) (by rw [← hu]; rfl) (hub ▸ h.order.toRecorded) ?_
    rw [Cursors, hub, ← hu]
    exact h.cursors
  have hbyte : u.byte = v.byte := by rw [← hu]; rfl
  by_cases hlast : (u.files f).references = 0
  · rw [if_pos hlast]
    generalize hw : ({ u with filesOpen := u.filesOpen.erase f } : Volume) = w
    have hsub : w.filesOpen ⊆ u.filesOpen := by rw [← hw]; exact List.erase_subset
    have hless : (books u).Less (books w) := by
      rw [← hw]
      exact ⟨rfl, rfl, fun _ h => h, rfl, List.erase_subset, fun _ => rfl, fun _ => rfl, fun _ h => h⟩
    refine ⟨w, rfl, ?_, hub ▸ hless, ?_, ?_, ?_, ?_, ?_, ?_, ?_, ?_, fun hnd _ => ?_⟩
    · refine hut.of_recorded (by rw [← hw]) (by rw [← hw]) (by rw [← hw]) ?_ ?_
      · refine hut.order.toRecorded.less hless fun k hk hkw hkg hka hk0 => ?_
        rw [hub] at hk hka hk0 ⊢
        have hkf : k = f := by
          by_contra hne
          refine hkw ?_
          rw [← hw]
          exact (List.mem_erase_of_ne hne).mpr (hfo ▸ hk)
        subst hkf
        exact hflush (by omega) hkg hka hk0
      · rw [← hw]
        exact hut.cursors
    · rw [← hw]; exact hbyte
    · rw [← hw, ← hu]; rfl
    · rw [← hw, ← hu]; rfl
    · rw [← hw, ← hu]; rfl
    · rw [← hw, ← hu]; rfl
    · rw [← hw, ← hu]; rfl
    · rw [← hw, ← hu]; rfl
    · rw [← hw, ← hu]; rfl
    · rw [← hw, hfo]
      exact hnd.not_mem_erase
  · rw [if_neg hlast]
    refine ⟨u, rfl, hut, ?_, hbyte, by rw [← hu]; rfl, by rw [← hu]; rfl, by rw [← hu]; rfl, by rw [← hu]; rfl,
      by rw [← hu]; rfl, by rw [← hu]; rfl, by rw [← hu]; rfl, fun _ hle => ?_⟩
    · rw [hub]
      exact ⟨rfl, rfl, fun _ h => h, rfl, fun _ h => h, fun _ => rfl, fun _ => rfl, fun _ h => h⟩
    · omega

theorem books_dget (d : ℕ) (v : Volume) : books (dget d v) = books v := by
  unfold books
  congr 1
  funext k
  by_cases hk : k = d <;> simp [dget, Volume.setDentry, Dentry.info, hk]

theorem books_channelInit (c f : ℕ) (d : Option ℕ) (flags : ℕ) (v : Volume) :
    books (channelInit c f d flags v) = (books v).newChannel c ⟨f, true, flags, 1, d⟩ := by
  unfold books Books.newChannel
  congr 1
  funext k
  by_cases hk : k = c
  · subst hk
    rw [Function.update_self]
    simp [channelInit, Channel.info]
  · rw [Function.update_of_ne hk]
    simp [channelInit, Volume.setChannel, hk]

/-- The volume after `fat_open`. -/
structure Admitted (G : Layout) (v : Volume) (d flags c : ℕ) (w : Volume) : Prop where
  tidy : Tidy G w
  byte : w.byte = v.byte
  env : w.env = v.env
  lud : w.lud = v.lud
  nextId : v.nextId ≤ w.nextId
  unused : c ∉ v.channelsOpen
  other : ∀ k ≠ c, w.channels k = v.channels k
  pointer : (w.channels c).filePointer = 0
  books : ∃ b, (books v).Taken ((books v).nodeAddr d) (w.channels c).f b ∧
    Fat.books w = b.newChannel c ⟨(w.channels c).f, true, flags, 1, some d⟩

theorem channelGet_tidy (h : Tidy G v) (hunused : ∀ c ∈ v.channelsOpen, c < v.nextId)
    (haddr : (books v).nodeAddr d = (books v).fileAddr f) (flags : ℕ) :
    ∃ r w, (channelGet f (some d) flags).run v = (.ok r, w) ∧ Tidy G w ∧ w.byte = v.byte ∧ w.env = v.env ∧
      w.lud = v.lud ∧ v.nextId ≤ w.nextId ∧
      (r = none → v.env.oom v.ticks = true ∧ books w = books v ∧ w.channels = v.channels ∧ w.files = v.files) ∧
      ∀ c, r = some c → c ∉ v.channelsOpen ∧ (∀ k ≠ c, w.channels k = v.channels k) ∧ (w.channels c).f = f ∧
        (w.channels c).filePointer = 0 ∧ books w = (books v).newChannel c ⟨f, true, flags, 1, some d⟩ := by
  have halloc := run_slabmemAlloc v
  by_cases hoom : v.env.oom v.ticks = true
  · rw [if_pos hoom] at halloc
    refine ⟨none, { v with ticks := v.ticks + 1 }, ?_, ?_, rfl, rfl, rfl, Nat.le_refl _, fun _ => ⟨hoom, rfl, rfl, rfl⟩, by simp⟩
    · rw [channelGet, run_bind_ok halloc]
      rfl
    · exact h.of_recorded rfl rfl rfl h.order.toRecorded h.cursors
  · rw [if_neg hoom] at halloc
    have hfree : v.nextId ∉ v.channelsOpen := fun hm => Nat.lt_irrefl _ (hunused _ hm)
    generalize hu : ({ v with ticks := v.ticks + 1, nextId := v.nextId + 1 } : Volume) = u at halloc
    have hub : books u = books v := by rw [← hu]; rfl
    have huc : u.channels = v.channels := by rw [← hu]
    generalize hw : dget d (channelInit v.nextId f (some d) flags u) = w
    have hwb : books w = (books v).newChannel v.nextId ⟨f, true, flags, 1, some d⟩ := by
      rw [← hw, books_dget, books_channelInit, hub]
    have hch : ∀ k ≠ v.nextId, w.channels k = v.channels k := fun k hk => by
      rw [← hw, ← huc]
      exact if_neg hk
    have hself : (w.channels v.nextId).f = f ∧ (w.channels v.nextId).clusterIndex = 0 ∧
        (w.channels v.nextId).filePointer = 0 := by
      rw [← hw]
      simp [dget, channelInit, Volume.setDentry]
    refine ⟨some v.nextId, w, ?_, ?_, ?_, ?_, ?_, ?_, by simp, ?_⟩
    · rw [channelGet, run_bind_ok halloc]
      rw [← hw]
      rfl
    · refine h.of_recorded (by rw [← hw, ← hu]; rfl) (by rw [← hw, ← hu]; rfl) (by rw [← hw, ← hu]; rfl) ?_ ?_
      · rw [hwb]
        exact h.order.toRecorded.newChannel hfree fun _ => ⟨d, rfl, haddr⟩
      · intro k hk hkg
        have hk' : k = v.nextId ∨ k ∈ v.channelsOpen := by
          rw [show w.channelsOpen = _ from congrArg Books.channelsOpen hwb] at hk
          exact List.mem_cons.mp hk
        by_cases hkn : k = v.nextId
        · exact .inl (hkn ▸ hself.2.1)
        · rw [hch k hkn] at hkg ⊢
          have hcur := h.cursors k (hk'.resolve_left hkn) hkg
          unfold CursorOk at hcur ⊢
          rw [hwb]
          exact hcur
    · rw [← hw, ← hu]; rfl
    · rw [← hw, ← hu]; rfl
    · rw [← hw, ← hu]; rfl
    · rw [← hw, ← hu]; exact Nat.le_succ _
    · rintro c ⟨⟩
      exact ⟨hfree, hch, hself.1, hself.2.2, hwb⟩

theorem Openable.recached (h : Openable G v d) (hw : Recached v.byte v w) : Openable G w d := by
  have hb := hw.books
  have hfiles : w.files = v.files ∧ w.filesOpen = v.filesOpen := by
    rw [hw.eq]
    exact ⟨rfl, rfl⟩
  refine ⟨h.node.imp_right fun hn => ⟨?_, hn.2⟩, ?_, ?_, ?_⟩
  · rw [hw.eq]
    exact hn.1
  · rw [hb]
    exact h.there
  · rw [hw.eq]
    exact h.files
  · unfold Volume.Shows
    rw [hw.byte, hb, hfiles.1, hfiles.2]
    exact h.shown

theorem EntryRead.recached (h : EntryRead v d de) (hw : Recached v.byte v w) : EntryRead w d de := by
  refine ⟨fun h0 => ?_, fun h0 => ?_⟩
  · rw [hw.books] at h0
    rw [hw.geo]
    exact h.root h0
  · rw [hw.books] at h0 ⊢
    rw [hw.byte]
    exact h.slot h0

theorem Recached.counts (hw : Recached m v w) (hc : Counts hd hf pins v) : Counts hd hf pins w := by
  rw [hw.eq]
  exact hc

/-- The volume after `fat_open` has failed. -/
structure Refused (G : Layout) (v w : Volume) : Prop where
  tidy : Tidy G w
  byte : w.byte = v.byte
  env : w.env = v.env
  lud : w.lud = v.lud
  nextId : v.nextId ≤ w.nextId
  node : (Fat.books w).node = (Fat.books v).node
  nodes : w.dentriesSlab = v.dentriesSlab
  channels : w.channels = v.channels
  channelsOpen : w.channelsOpen = v.channelsOpen

instance : IsTrans Volume (Refused G) := ⟨fun _ _ _ h h' =>
  ⟨h'.tidy, h'.byte.trans h.byte, h'.env.trans h.env, h'.lud.trans h.lud, Nat.le_trans h.nextId h'.nextId,
    h'.node.trans h.node, h'.nodes.trans h.nodes, h'.channels.trans h.channels, h'.channelsOpen.trans h.channelsOpen⟩⟩

theorem fatOpen_cases (h : Tidy G v) (hc : Counts hd hf pins v) (hop : Openable G v d)
    (hst : G.named → ∀ f ∈ G.stale, f < v.nextId) (flags : ℕ) :
    ∃ r w, (fatOpen d flags).run v = (r, w) ∧ match r with
      | .ok c => (v.dentries d).denies flags = none ∧ Admitted G v d flags c w
      | .error e => Refused G v w ∧ ((v.dentries d).denies flags = some e ∨ ∃ k, v.env.oom k = true)
      | .hang => False := by
  rw [fatOpen, run_bind_state]
  cases hden : (v.dentries d).denies flags with
  | some e => exact ⟨_, _, rfl, ⟨h, rfl, rfl, rfl, Nat.le_refl _, rfl, rfl, rfl, rfl⟩, .inl rfl⟩
  | none =>
    obtain ⟨de, v₁, hrun, hv₁, hde⟩ := fetchDirentry_run h hop
    have h₁ : Tidy G v₁ := h.recached hv₁ (sameSlots_refl _ _ _) fun _ _ => rfl
    have hb₁ := hv₁.books
    have hch₁ := hv₁.channels
    have hid₁ : v₁.nextId = v.nextId := by rw [hv₁.eq]; rfl
    have hdn₁ : v₁.dentries = v.dentries := by rw [hv₁.eq]; rfl
    have hlud₁ : v₁.lud = v.lud := by rw [hv₁.eq]; rfl
    have henv₁ : v₁.env = v.env := by rw [hv₁.eq]; rfl
    have hopen₁ : v₁.channelsOpen = v.channelsOpen := by rw [hv₁.eq]; rfl
    obtain ⟨f, v₂, hrun', h₂, htaken, hbyte₂, hch₂, hlud₂, hid₂, henv₂, hclean⟩ :=
      fileGet_tidy h₁ (hv₁.counts hc) (hop.recached hv₁) (hde.recached hv₁) (by rw [hid₁]; exact hst)
    rw [hb₁] at htaken
    rw [hdn₁, hv₁.geo] at hrun'
    obtain ⟨-, -, hnode₂, hnodes₂, -, hopen₂, -⟩ := htaken.rest
    have hopen₂' : v₂.channelsOpen = v.channelsOpen := hopen₂
    have hunused : ∀ c ∈ v₂.channelsOpen, c < v₂.nextId := fun c hcc => by
      rw [hopen₂'] at hcc
      have hlt : c < v.nextId := Skeleton.Counted.freshChannel hc c hcc
      omega
    have haddr : (books v₂).nodeAddr d = (books v₂).fileAddr f := by
      rw [htaken.fileAddr, Books.nodeAddr, Books.nodeAddr, hnode₂, htaken.rest.1]
    obtain ⟨r, w, hrun'', hw, hbyte, henv, hlud, hid, hnone, hsome⟩ := channelGet_tidy h₂ hunused haddr flags
    have hbyte' : w.byte = v.byte := hbyte.trans (hbyte₂.trans hv₁.byte)
    have henv' : w.env = v.env := henv.trans (henv₂.trans henv₁)
    have hlud' : w.lud = v.lud := hlud.trans (hlud₂.trans hlud₁)
    simp only [run_bind_ok hrun, run_bind_ok hrun', run_bind_ok hrun'']
    cases r with
    | some c =>
      obtain ⟨hcnot, hother, hcf, hpointer, hwb⟩ := hsome c rfl
      refine ⟨.ok c, w, rfl, trivial, hw, hbyte', henv', hlud', by omega, hopen₂' ▸ hcnot, fun k hk => ?_, hpointer,
        books v₂, ?_, ?_⟩
      · rw [hother k hk, hch₂, hch₁]
      · rw [hcf]
        exact htaken
      · rw [hcf]
        exact hwb
    | none =>
      obtain ⟨hoom, hwb, hchw, hfiles⟩ := hnone rfl
      obtain ⟨x, hput, hx, hless, hbyte₃, hch₃, hopen₃, hlud₃, hslab₃, hid₃, -, henv₃, -⟩ :=
        filePut_tidy (f := f) hw fun hle _ _ _ => by
          rw [hfiles] at hle ⊢
          exact hclean.resolve_left (by omega)
      have hopenw : w.channelsOpen = v₂.channelsOpen := congrArg Books.channelsOpen hwb
      have hslabw : w.dentriesSlab = v₂.dentriesSlab := congrArg Books.nodes hwb
      refine ⟨.error .enomem, x, run_bind_ok hput, ⟨hx, hbyte₃.trans hbyte', henv₃.trans henv', hlud₃.trans hlud',
        by omega, ?_, hslab₃.trans (hslabw.trans hnodes₂), hch₃.trans (hchw.trans (hch₂.trans hch₁)),
        hopen₃.trans (hopenw.trans hopen₂')⟩, .inr ⟨v₂.ticks, ?_⟩⟩
      · rw [hless.node, hwb, hnode₂]
      · rw [henv₂, henv₁] at hoom
        exact hoom

theorem fatOpen_run (h : Tidy G v) (hc : Counts hd hf pins v) (hop : Openable G v d)
    (hst : G.named → ∀ f ∈ G.stale, f < v.nextId) (hmem : ∀ k, v.env.oom k = false) {flags : ℕ}
    (hden : (v.dentries d).denies flags = none) :
    ∃ c w, (fatOpen d flags).run v = (.ok c, w) ∧ Admitted G v d flags c w := by
  obtain ⟨r, w, hrun, hr⟩ := fatOpen_cases h hc hop hst flags
  cases r with
  | ok c => exact ⟨c, w, hrun, hr.2⟩
  | error e =>
    rcases hr.2 with hno | ⟨k, hoom⟩
    · rw [hden] at hno
      cases hno
    · rw [hmem] at hoom
      cases hoom
  | hang => exact hr.elim

namespace Admitted

variable {flags : ℕ} (h : Admitted G v d flags c w)

include h

theorem geo : w.geo = v.geo := by
  obtain ⟨b, ht, hb⟩ := h.books
  exact (congrArg Books.geo hb).trans ht.rest.1

theorem node : (Fat.books w).node = (Fat.books v).node := by
  obtain ⟨b, ht, hb⟩ := h.books
  rw [hb]
  exact ht.rest.2.2.1

theorem nodes : w.dentriesSlab = v.dentriesSlab := by
  obtain ⟨b, ht, hb⟩ := h.books
  exact (congrArg Books.nodes hb).trans ht.rest.2.2.2.1

theorem nodeAddr (k : ℕ) : (Fat.books w).nodeAddr k = (Fat.books v).nodeAddr k := by
  rw [Books.nodeAddr, Books.nodeAddr, h.node]
  exact congrArg _ h.geo

theorem channelsOpen : w.channelsOpen = c :: v.channelsOpen := by
  obtain ⟨b, ht, hb⟩ := h.books
  refine (congrArg Books.channelsOpen hb).trans ?_
  change c :: b.channelsOpen = _
  rw [ht.rest.2.2.2.2.2.1]
  rfl

theorem info : (w.channels c).info = ⟨(w.channels c).f, true, flags, 1, some d⟩ := by
  obtain ⟨b, ht, hb⟩ := h.books
  refine (congrFun (congrArg Books.channel hb) c).trans ?_
  exact Function.update_self ..

theorem mem : c ∈ w.channelsOpen := by
  rw [h.channelsOpen]
  exact List.mem_cons_self

theorem home : w.home c = (Fat.books v).nodeAddr d := by
  obtain ⟨b, ht, hb⟩ := h.books
  rw [Volume.home, hb]
  exact ht.fileAddr

theorem file_mem : (w.channels c).f ∈ w.filesOpen := by
  obtain ⟨b, ht, hb⟩ := h.books
  have hfiles : w.filesOpen = b.filesOpen := congrArg Books.filesOpen hb
  rw [hfiles]
  exact ht.mem

theorem usable (hg : (w.channels c).f ∉ G.goneFiles) : Usable G w c := ⟨h.mem, h.file_mem, hg⟩

end Admitted

end Opening

end FreeDos32.Fat
