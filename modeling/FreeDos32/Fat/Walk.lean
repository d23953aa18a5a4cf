import FreeDos32.Fat.Space

namespace FreeDos32.Fat

open Prog

variable {m : ℕ → UInt8} {u v w : Volume} {c p q i pos : ℕ} {l : List ℕ}

theorem Recached.channels (h : Recached m v w) : w.channels = v.channels := by
  rw [h.eq]
  rfl

theorem Recached.sound (h : Recached m v w) (hv : Sound v) : Sound w :=
  ⟨h.media, by rw [h.geo, h.shape.deviceEnd]; exact hv.geo⟩

theorem Sound.of_same (h : Sound v) (hc : w.cache = v.cache) (hg : w.geo = v.geo) : Sound w := by
  refine ⟨h.media.of_same hc hg, ?_⟩
  rw [hc, hg]
  exact h.geo

theorem byte_of_same (hc : w.cache = v.cache) (hg : w.geo = v.geo) : w.byte = v.byte := by
  funext a
  rw [Volume.byte, Volume.byte, hc, hg]

/-- An open instance moved to another place of its file. -/
def Channel.moved (p i k : ℕ) (x : Channel) : Channel := { x with filePointer := p, clusterIndex := i, cluster := k }

/-- Of the volume only the buffers, what has been looked up and the place of one open instance have
changed, and readers see the same. -/
structure Browsed (c : ℕ) (u w : Volume) : Prop where
  sound : Sound w
  byte : w.byte = u.byte
  shape : Cache.SameShape u.cache w.cache
  eq : ∃ p i k, w = { u with cache := w.cache, lud := w.lud }.setChannel c (Channel.moved p i k)

theorem Volume.setChannel_setChannel (c : ℕ) (g g' : Channel → Channel) (v : Volume) :
    (v.setChannel c g).setChannel c g' = v.setChannel c (g' ∘ g) := by
  unfold Volume.setChannel
  congr 1
  funext k
  by_cases hk : k = c
  · simp only [if_pos hk, Function.comp_apply]
  · simp only [if_neg hk]

theorem Volume.setChannel_same (c : ℕ) {g : Channel → Channel} (v : Volume) (hg : g (v.channels c) = v.channels c) :
    v.setChannel c g = v := by
  unfold Volume.setChannel
  congr 1
  funext k
  by_cases hk : k = c
  · rw [if_pos hk, hk, hg]
  · rw [if_neg hk]

theorem setChannel_moved {p i k : ℕ} (g : Channel → Channel) (hg : (v.channels c).moved p i k = g (v.channels c)) :
    v.setChannel c (Channel.moved p i k) = v.setChannel c g := by
  unfold Volume.setChannel
  congr 1
  funext j
  by_cases hj : j = c
  · rw [if_pos hj, if_pos hj, hj, hg]
  · rw [if_neg hj, if_neg hj]

namespace Browsed

theorem refl (h : Sound u) (c : ℕ) : Browsed c u u :=
  ⟨h, rfl, .refl _, (u.channels c).filePointer, (u.channels c).clusterIndex, (u.channels c).cluster,
    (Volume.setChannel_same c u rfl).symm⟩

theorem trans (h : Browsed c u v) (h' : Browsed c v w) : Browsed c u w := by
  obtain ⟨p, i, k, hv⟩ := h.eq
  obtain ⟨p', i', k', hw⟩ := h'.eq
  refine ⟨h'.sound, h'.byte.trans h.byte, h.shape.trans h'.shape, p', i', k', ?_⟩
  generalize v.cache = a, v.lud = b at hv
  generalize w.cache = a', w.lud = b' at hw
  subst hv hw
  exact Volume.setChannel_setChannel c (Channel.moved p i k) (Channel.moved p' i' k') { u with cache := a', lud := b' }

theorem recached (h : Browsed c u v) (hw : Recached v.byte v w) : Browsed c u w := by
  obtain ⟨p, i, k, hv⟩ := h.eq
  refine ⟨hw.sound h.sound, hw.byte.trans h.byte, h.shape.trans hw.shape, p, i, k, ?_⟩
  have heq := hw.eq
  generalize v.cache = a, v.lud = b at hv
  generalize w.cache = a' at heq
  subst hv heq
  rfl

theorem move (h : Browsed c u v) (p i k : ℕ) : Browsed c u (v.setChannel c (Channel.moved p i k)) := by
  refine h.trans ⟨h.sound.of_same rfl rfl, rfl, .refl _, p, i, k, ?_⟩
  rfl

theorem setLud (h : Browsed c u v) (g : LookupData → LookupData) : Browsed c u (v.setLud g) := by
  refine h.trans ⟨h.sound.of_same rfl rfl, rfl, .refl _, (v.channels c).filePointer, (v.channels c).clusterIndex,
    (v.channels c).cluster, ?_⟩
  exact (Volume.setChannel_same c (v.setLud g) rfl).symm

theorem geo (h : Browsed c u w) : w.geo = u.geo := by
  obtain ⟨p, i, k, he⟩ := h.eq
  rw [he]
  rfl

theorem files (h : Browsed c u w) : w.files = u.files := by
  obtain ⟨p, i, k, he⟩ := h.eq
  rw [he]
  rfl

theorem info (h : Browsed c u w) (k : ℕ) : (w.channels k).info = (u.channels k).info := by
  obtain ⟨p, i, j, he⟩ := h.eq
  rw [he]
  by_cases hk : k = c
  · rw [hk, Volume.setChannel_self]
    rfl
  · rw [Volume.setChannel_ne hk]

theorem other (h : Browsed c u w) {k : ℕ} (hk : k ≠ c) : w.channels k = u.channels k := by
  obtain ⟨p, i, j, he⟩ := h.eq
  rw [he, Volume.setChannel_ne hk]

theorem file (h : Browsed c u w) : (w.channels c).f = (u.channels c).f := congrArg ChannelInfo.f (h.info c)

end Browsed

/-- The place of byte `pos` of a file: in the fixed root directory, or in one of the file's clusters. -/
def placeOf (g : Geometry) (fixed : Bool) (l : List ℕ) (pos : ℕ) : Option ℕ :=
  if fixed then
    if pos < g.rootSize * g.bytesPerSector then some (g.rootSector * g.bytesPerSector + pos) else none
  else l[pos / g.bytesPerCluster]?.map fun k => g.clusterAddr k + pos % g.bytesPerCluster

theorem posAddr_eq (g : Geometry) (l : List ℕ) (a pos : ℕ) :
    posAddr g l a pos = placeOf g (decide (a = 0 ∧ g.rootCluster = 0)) l pos := by
  simp only [posAddr, placeOf, decide_eq_true_eq]

/-- Whether the file of an open instance is the fixed root directory. -/
def Volume.atFixedRoot (v : Volume) (c : ℕ) : Bool := (v.files (v.channels c).f).isFixedRoot

/-- The clusters of the file of an open instance are `l`, and the cached one is at its index there. -/
structure OnChain (l : List ℕ) (c : ℕ) (v : Volume) : Prop where
  links : Links (table v.geo v.byte) fatEoc l
  range : ∀ k ∈ l, v.geo.InRange k
  first : (v.files (v.channels c).f).firstCluster = l.headD 0
  cursor : (v.channels c).clusterIndex = 0 ∨ l[(v.channels c).clusterIndex]? = some (v.channels c).cluster

theorem Browsed.atFixedRoot (h : Browsed c u w) : w.atFixedRoot c = u.atFixedRoot c := by
  rw [Volume.atFixedRoot, Volume.atFixedRoot, h.files, h.file]

theorem OnChain.browsed (h : OnChain l c u) (hw : Browsed c u w)
    (hcur : (w.channels c).clusterIndex = 0 ∨ l[(w.channels c).clusterIndex]? = some (w.channels c).cluster) :
    OnChain l c w where
  links := by
    rw [hw.geo, hw.byte]
    exact h.links
  range := by
    rw [hw.geo]
    exact h.range
  first := by
    rw [hw.files, hw.file]
    exact h.first
  cursor := hcur

theorem headD_getElem? (h : l.headD 0 ≠ 0) : l[0]? = some (l.headD 0) := by
  cases l with
  | nil => exact absurd rfl h
  | cons x l => rfl

theorem GeoOk.dataClusters_lt {g : Geometry} {e : ℕ} (h : GeoOk g e) : g.dataClusters < 0x0FFFFFF5 := by
  have hcl := h.clusters
  cases ht : g.fatType <;> rw [ht] at hcl <;> simp only [clusterLimit] at hcl <;> omega

theorem walkChain_run (hv : Sound v) (h : OnChain l c v) (k : ℕ)
    (hx : l[(v.channels c).clusterIndex]? = some (v.channels c).cluster) :
    ∃ r w, (walkChain c k).run v = (.ok r, w) ∧ Browsed c v w ∧ w.lud = v.lud ∧
      (w.channels c).filePointer = (v.channels c).filePointer ∧
      l[(w.channels c).clusterIndex]? = some (w.channels c).cluster ∧
      (r = true → (w.channels c).clusterIndex = (v.channels c).clusterIndex + k) ∧
      (r = false → (w.channels c).clusterIndex + 1 = l.length ∧ l.length ≤ (v.channels c).clusterIndex + k) := by
  induction k generalizing v with
  | zero => exact ⟨true, v, rfl, .refl hv c, rfl, rfl, hx, fun _ => rfl, fun h => absurd h (by decide)⟩
  | succ k ih =>
    have hrange := h.range _ (List.mem_of_getElem? hx)
    obtain ⟨w, hrun, hw⟩ := readFatEntry_run hv.media hv.geo hrange.2
    have hb : Browsed c v w := (Browsed.refl hv c).recached hw
    have hch := hw.channels
    have hlud : w.lud = v.lud := by
      rw [hw.eq]
      rfl
    rw [walkChain, run_bind_state, run_bind_ok hrun]
    by_cases hend : l.length = (v.channels c).clusterIndex + 1
    · have hlast : fatEntry v.geo v.byte v.geo.activeFat (v.channels c).cluster = fatEoc := h.links.last hx hend
      rw [if_pos hlast]
      refine ⟨false, w, rfl, hb, hlud, by rw [hch], by rw [hch]; exact hx, fun h => absurd h (by decide), fun _ => ?_⟩
      rw [hch]
      omega
    · obtain ⟨hlt, -⟩ := List.getElem?_eq_some_iff.mp hx
      have hlt' : (v.channels c).clusterIndex + 1 < l.length := by omega
      have hy := List.getElem?_eq_getElem hlt'
      have hnext : fatEntry v.geo v.byte v.geo.activeFat (v.channels c).cluster = _ := h.links.next hx hy
      have hrange' := h.range _ (List.mem_of_getElem? hy)
      have hlim := hv.geo.dataClusters_lt
      unfold Geometry.InRange at hrange'
      rw [hnext, if_neg (by unfold fatEoc; omega), if_neg (by omega), run_bind_update]
      have hmove := hb.move (w.channels c).filePointer ((w.channels c).clusterIndex + 1)
        l[(v.channels c).clusterIndex + 1]
      rw [setChannel_moved (fun x => { x with
        clusterIndex := x.clusterIndex + 1, cluster := l[(v.channels c).clusterIndex + 1] }) rfl] at hmove
      have hat : l[((w.setChannel c fun x => { x with
          clusterIndex := x.clusterIndex + 1, cluster := l[(v.channels c).clusterIndex + 1] }).channels c).clusterIndex]? =
          some l[(v.channels c).clusterIndex + 1] := by
        rw [Volume.setChannel_self, hch]
        exact hy
      have hon := h.browsed hmove (.inr (by rw [hat, Volume.setChannel_self]))
      obtain ⟨r, y, hrun', hy', hlud', hfp, hcl, hr, hr'⟩ := ih hmove.sound hon (by rw [hat, Volume.setChannel_self])
      rw [Volume.setChannel_self, hch] at hfp hr hr'
      refine ⟨r, y, hrun', hmove.trans hy', hlud'.trans hlud, hfp, hcl, fun h => ?_, fun h => ?_⟩
      · rw [hr h]
        exact Nat.add_right_comm _ 1 k
      · refine ⟨(hr' h).1, Nat.le_trans (hr' h).2 ?_⟩
        exact Nat.le_of_eq (Nat.add_right_comm _ 1 k)

theorem cluster_of_sector (g : Geometry) (i : ℕ) {o : ℕ} (ho : o < g.bytesPerSector) :
    (i * g.bytesPerSector + o) / g.bytesPerCluster = i / g.sectorsPerCluster ∧
      (i * g.bytesPerSector + o) % g.bytesPerCluster = i % g.sectorsPerCluster * g.bytesPerSector + o := by
  have hs := sector_div g i ho
  have hdiv : (i * g.bytesPerSector + o) / g.bytesPerCluster = i / g.sectorsPerCluster := by
    rw [bytesPerCluster_eq, Nat.mul_comm g.sectorsPerCluster, ← Nat.div_div_eq_div_mul, hs]
  refine ⟨hdiv, ?_⟩
  have hall := Nat.div_add_mod (i * g.bytesPerSector + o) g.bytesPerCluster
  have hi := Nat.div_add_mod i g.sectorsPerCluster
  rw [hdiv] at hall
  have hexp : g.bytesPerCluster * (i / g.sectorsPerCluster) + i % g.sectorsPerCluster * g.bytesPerSector =
      i * g.bytesPerSector := by
    rw [bytesPerCluster_eq, Nat.mul_right_comm, ← Nat.add_mul, hi]
  omega

/-- What `fat_get_file_sector` finds: the sector of a part of the file, with the cluster cached, or that
the file ends before. -/
def SectorFound (g : Geometry) (fixed : Bool) (l : List ℕ) (i cluster : ℕ) : Option ℕ → Prop
  | some s => (∀ o < g.bytesPerSector, placeOf g fixed l (i * g.bytesPerSector + o) = some (s * g.bytesPerSector + o)) ∧
      (fixed = false → l[i / g.sectorsPerCluster]? = some cluster)
  | none => (∀ o < g.bytesPerSector, placeOf g fixed l (i * g.bytesPerSector + o) = none) ∧
      (fixed = false → l.length ≤ i / g.sectorsPerCluster ∧ (l ≠ [] → l.getLast? = some cluster))

theorem sectorFound_fixed (g : Geometry) (l : List ℕ) (i cluster : ℕ) :
    SectorFound g true l i cluster (if i ≥ g.rootSize then none else some (i + g.rootSector)) := by
  have hpart : ∀ o < g.bytesPerSector, (i * g.bytesPerSector + o < g.rootSize * g.bytesPerSector ↔ i < g.rootSize) := by
    intro o hlt
    constructor
    · intro h
      exact Nat.lt_of_mul_lt_mul_right (Nat.lt_of_le_of_lt (Nat.le_add_right _ o) h)
    · intro h
      have := Nat.mul_le_mul_right g.bytesPerSector (Nat.succ_le_of_lt h)
      rw [Nat.succ_mul] at this
      omega
  by_cases hlt : i ≥ g.rootSize
  · rw [if_pos hlt]
    refine ⟨fun o ho => ?_, fun h => absurd h (by decide)⟩
    rw [placeOf, if_pos rfl, if_neg (by rw [hpart o ho]; omega)]
  · rw [if_neg hlt]
    refine ⟨fun o ho => ?_, fun h => absurd h (by decide)⟩
    rw [placeOf, if_pos rfl, if_pos (by rw [hpart o ho]; omega), Nat.add_mul]
    congr 1
    omega

theorem sectorFound_inside {g : Geometry} {k : ℕ} (h : l[i / g.sectorsPerCluster]? = some k) :
    SectorFound g false l i k (some (g.clusterSector k + i % g.sectorsPerCluster)) := by
  refine ⟨fun o hlt => ?_, fun _ => h⟩
  obtain ⟨hd, hm⟩ := cluster_of_sector g i hlt
  rw [placeOf, if_neg (by decide), hd, hm, h, Option.map_some, Geometry.clusterAddr, Nat.add_mul, Nat.add_assoc]

theorem sectorFound_past {g : Geometry} {k : ℕ} (h : l.length ≤ i / g.sectorsPerCluster)
    (hlast : l ≠ [] → l.getLast? = some k) : SectorFound g false l i k none := by
  refine ⟨fun o hlt => ?_, fun _ => ⟨h, hlast⟩⟩
  rw [placeOf, if_neg (by decide), (cluster_of_sector g i hlt).1, List.getElem?_eq_none h]
  rfl

theorem isFixedRoot_iff (x : File) : x.isFixedRoot = true ↔ x.deSector = 0 ∧ x.firstCluster = 0 := by
  simp [File.isFixedRoot]

theorem fatGetFileSector_run (hv : Sound v) (h : OnChain l c v) (i : ℕ) :
    ∃ r w, (fatGetFileSector c i).run v = (.ok r, w) ∧ Browsed c v w ∧ w.lud = v.lud ∧
      (w.channels c).filePointer = (v.channels c).filePointer ∧ OnChain l c w ∧
      SectorFound v.geo (v.atFixedRoot c) l i (w.channels c).cluster r := by
  rw [fatGetFileSector, run_bind_state]
  dsimp only
  cases hroot : v.atFixedRoot c with
  | true =>
    rw [Volume.atFixedRoot] at hroot
    rw [if_pos hroot]
    refine ⟨_, v, ?_, .refl hv c, rfl, rfl, h, sectorFound_fixed _ _ _ _⟩
    split <;> rfl
  | false =>
    rw [Volume.atFixedRoot] at hroot
    rw [if_neg (by rw [hroot]; decide)]
    by_cases hzero : (v.files (v.channels c).f).firstCluster = 0
    · have hnil : l = [] := by
        cases hl : l with
        | nil => rfl
        | cons x l' =>
          have hfirst := h.first
          have hx := h.range x (by rw [hl]; exact List.mem_cons_self)
          rw [hl, List.headD_cons, hzero] at hfirst
          unfold Geometry.InRange at hx
          omega
      rw [if_pos hzero]
      refine ⟨none, v, rfl, .refl hv c, rfl, rfl, h, sectorFound_past ?_ ?_⟩
      · rw [hnil]
        exact Nat.zero_le _
      · rw [hnil]
        exact fun h => absurd rfl h
    · rw [if_neg hzero]
      have hhead := headD_getElem? (h.first ▸ hzero)
      -- the cached cluster is either dropped for the first one or in front of the one asked for
      obtain ⟨x, hx, hbx, hlud, hfp, hle, hcur⟩ : ∃ x, (Prog.when ((v.channels c).clusterIndex = 0 ∨
            i / v.geo.sectorsPerCluster < (v.channels c).clusterIndex) (Prog.update (Volume.setChannel c fun x =>
              { x with clusterIndex := 0, cluster := (v.files (v.channels c).f).firstCluster })) : FatM Unit).run v =
            (.ok (), x) ∧ Browsed c v x ∧ x.lud = v.lud ∧ (x.channels c).filePointer = (v.channels c).filePointer ∧
          (x.channels c).clusterIndex ≤ i / v.geo.sectorsPerCluster ∧
          l[(x.channels c).clusterIndex]? = some (x.channels c).cluster := by
        by_cases hcond : (v.channels c).clusterIndex = 0 ∨ i / v.geo.sectorsPerCluster < (v.channels c).clusterIndex
        · rw [when_pos hcond]
          refine ⟨_, rfl, ?_, rfl, ?_, ?_, ?_⟩
          · have hmove := (Browsed.refl hv c).move (v.channels c).filePointer 0
              (v.files (v.channels c).f).firstCluster
            rwa [setChannel_moved (fun x => { x with clusterIndex := 0, cluster := _ }) rfl] at hmove
          · rw [Volume.setChannel_self]
          · rw [Volume.setChannel_self]
            exact Nat.zero_le _
          · rw [Volume.setChannel_self, h.first]
            exact hhead
        · rw [when_neg hcond]
          obtain ⟨h0, hle⟩ := not_or.mp hcond
          exact ⟨v, rfl, .refl hv c, rfl, rfl, Nat.le_of_not_lt hle, h.cursor.resolve_left h0⟩
      rw [run_bind_ok hx, run_bind_state]
      obtain ⟨r, w, hrun, hbw, hlud', hfp', hcl, hr, hr'⟩ := walkChain_run hbx.sound (h.browsed hbx (.inr hcur))
        (i / v.geo.sectorsPerCluster - (x.channels c).clusterIndex) hcur
      rw [Nat.add_sub_cancel' hle] at hr hr'
      have hb := hbx.trans hbw
      have hon := h.browsed hb (.inr hcl)
      rw [run_bind_ok hrun]
      cases r with
      | true =>
        rw [if_pos rfl, run_bind_state, hb.geo]
        refine ⟨_, w, rfl, hb, hlud'.trans hlud, hfp'.trans hfp, hon, sectorFound_inside ?_⟩
        rw [← hr rfl]
        exact hcl
      | false =>
        rw [if_neg (by decide)]
        obtain ⟨hlast, hend⟩ := hr' rfl
        refine ⟨none, w, rfl, hb, hlud'.trans hlud, hfp'.trans hfp, hon, sectorFound_past hend fun _ => ?_⟩
        rw [List.getLast?_eq_getElem?, ← hcl, ← hlast, Nat.add_sub_cancel]

theorem SectorFound.lt {g : Geometry} {e : ℕ} {fixed : Bool} {cluster s : ℕ} (hg : GeoOk g e)
    (hrange : ∀ k ∈ l, g.InRange k) (h : SectorFound g fixed l i cluster (some s)) : s < e := by
  have hat := h.1 0 (bytesPerSector_pos g)
  rw [Nat.add_zero, Nat.add_zero, placeOf] at hat
  apply Nat.lt_of_mul_lt_mul_right (a := g.bytesPerSector)
  cases fixed with
  | true =>
    rw [if_pos rfl] at hat
    split at hat
    · have hdev : (g.rootSector + g.rootSize) * g.bytesPerSector ≤ e * g.bytesPerSector := by
        have := hg.data
        have := hg.device
        exact Nat.mul_le_mul_right _ (by omega)
      have hs := Option.some.inj hat
      rw [Nat.add_mul] at hdev
      omega
    · cases hat
  | false =>
    rw [if_neg (by decide), Option.map_eq_some_iff] at hat
    obtain ⟨k, hk, hs⟩ := hat
    have := hg.cluster_end (hrange k (List.mem_of_getElem? hk))
    have := Nat.mod_lt (i * g.bytesPerSector) (bytesPerCluster_pos g)
    omega

theorem length_bytesAt (m : ℕ → UInt8) (a n : ℕ) : (bytesAt m a n).length = n := by
  rw [bytesAt, List.length_map, List.length_range]

/-- What reading the slot at position `pos` of a directory gives. -/
def slotBytes (g : Geometry) (fixed : Bool) (l : List ℕ) (m : ℕ → UInt8) (pos : ℕ) : List UInt8 :=
  (placeOf g fixed l pos).elim [] fun a => bytesAt m a 32

theorem GeoOk.slot_fits {g : Geometry} {e : ℕ} (h : GeoOk g e) (hpos : 32 ∣ pos) :
    pos % g.bytesPerSector + 32 ≤ g.bytesPerSector := by
  obtain ⟨i, hi⟩ := h.slot_dvd_sector
  obtain ⟨j, hj⟩ := (Nat.dvd_mod_iff h.slot_dvd_sector).mpr hpos
  have := Nat.mod_lt pos (bytesPerSector_pos g)
  omega

theorem readLoop_run (hv : Sound v) (h : OnChain l c v) (hd : (v.files (v.channels c).f).de.isDir = true)
    (hpos : 32 ∣ pos) :
    ∃ w, (readLoop c 32 32 0 pos none).run v = (.ok (slotBytes v.geo (v.atFixedRoot c) l v.byte pos), w) ∧
      Browsed c v w ∧ w.lud = v.lud ∧ OnChain l c w ∧
      (placeOf v.geo (v.atFixedRoot c) l pos ≠ none → v.atFixedRoot c = false →
        l[pos / v.geo.bytesPerCluster]? = some (w.channels c).cluster) := by
  have hbps := bytesPerSector_pos v.geo
  have hfit := hv.geo.slot_fits hpos
  have hmod := Nat.mod_lt pos hbps
  have hdm : pos / v.geo.bytesPerSector * v.geo.bytesPerSector + pos % v.geo.bytesPerSector = pos := by
    rw [Nat.mul_comm]
    exact Nat.div_add_mod _ _
  have hisdir : hasAttr (v.files (v.channels c).f).de.attr fatADir = true := hd
  obtain ⟨r, x, hrun, hbx, hlud, -, hon, hfound⟩ := fatGetFileSector_run hv h (pos / v.geo.bytesPerSector)
  rw [readLoop, run_bind_state]
  simp only [hisdir]
  rw [if_neg (by simp), run_bind_ok hrun, slotBytes]
  cases r with
  | none =>
    have hat := hfound.1 _ hmod
    rw [hdm] at hat
    rw [hat]
    exact ⟨x, rfl, hbx, hlud, hon, fun h => absurd rfl h⟩
  | some s =>
    have hat := hfound.1 _ hmod
    rw [hdm] at hat
    have hlt : s < x.cache.deviceEnd := by
      rw [hbx.shape.deviceEnd]
      exact hfound.lt hv.geo h.range
    obtain ⟨r, w, hrun', hw, hseat, -, -⟩ := fatReadbuf_run hbx.sound.media hlt none (by simp)
    have hb := hbx.recached hw
    have hcount : (if 0 + (if (true = false ∧ pos + (v.geo.bytesPerSector - pos % v.geo.bytesPerSector) ≥
          (v.files (v.channels c).f).de.fileSize) then (v.files (v.channels c).f).de.fileSize - pos
          else v.geo.bytesPerSector - pos % v.geo.bytesPerSector) > 32 then 32 - 0
        else if (true = false ∧ pos + (v.geo.bytesPerSector - pos % v.geo.bytesPerSector) ≥
          (v.files (v.channels c).f).de.fileSize) then (v.files (v.channels c).f).de.fileSize - pos
          else v.geo.bytesPerSector - pos % v.geo.bytesPerSector) = 32 := by
      rw [if_neg (by simp : ¬(true = false ∧ _))]
      split <;> omega
    have hbytes := run_bufBytes hseat hw.media (o := pos % v.geo.bytesPerSector) (n := 32)
      (by rw [hb.geo]; exact hmod) (by rw [hb.geo]; exact hfit)
    have hrest : (readLoop c 32 31 (0 + 32) (pos + 32) (some r.1)).run w = (.ok [], w) := by
      rw [readLoop, run_bind_state]
      simp
    refine ⟨w, ?_, hb, ?_, ?_, fun _ hroot => ?_⟩
    · rw [hat, run_bind_ok hrun']
      simp only [hcount]
      rw [run_bind_ok hbytes, hb.geo, hb.byte, run_bind_ok hrest, List.append_nil]
      rfl
    · rw [hw.eq]
      exact hlud
    · refine hon.browsed ((Browsed.refl hbx.sound c).recached hw) ?_
      rw [hw.channels]
      exact hon.cursor
    · have hcl := hfound.2 hroot
      have hq := (cluster_of_sector v.geo (pos / v.geo.bytesPerSector) hmod).1
      rw [hdm] at hq
      rw [hw.channels, hq]
      exact hcl

/-- An open instance can read. -/
structure Channel.Reads (x : Channel) : Prop where
  magic : x.magic = true
  readable : x.isNotReadable = false

theorem Channel.Reads.of_info {x y : Channel} (h : x.Reads) (hi : y.info = x.info) : y.Reads := by
  have hm : y.magic = x.magic := congrArg ChannelInfo.magic hi
  have hf : y.flags = x.flags := congrArg ChannelInfo.flags hi
  refine ⟨hm.trans h.magic, ?_⟩
  rw [Channel.isNotReadable, hf]
  exact h.readable

theorem fatRead_run (hv : Sound v) (h : OnChain l c v) (hd : (v.files (v.channels c).f).de.isDir = true)
    (hr : (v.channels c).Reads) (hpos : 32 ∣ (v.channels c).filePointer) :
    ∃ w, (fatRead c 32).run v =
        (.ok (slotBytes v.geo (v.atFixedRoot c) l v.byte (v.channels c).filePointer), w) ∧
      Browsed c v w ∧ w.lud = v.lud ∧ OnChain l c w ∧
      (w.channels c).filePointer = (v.channels c).filePointer +
        (slotBytes v.geo (v.atFixedRoot c) l v.byte (v.channels c).filePointer).length ∧
      (placeOf v.geo (v.atFixedRoot c) l (v.channels c).filePointer ≠ none → v.atFixedRoot c = false →
        l[(v.channels c).filePointer / v.geo.bytesPerCluster]? = some (w.channels c).cluster) := by
  obtain ⟨w, hrun, hb, hlud, hon, hcl⟩ := readLoop_run hv h hd hpos
  have hno : ¬((v.channels c).magic = false ∨ (v.channels c).isNotReadable = true) := by
    rw [hr.magic, hr.readable]
    simp
  have hdir : hasAttr (w.files (v.channels c).f).de.attr fatADir = true := by
    rw [hb.files]
    exact hd
  have hmove := hb.move ((v.channels c).filePointer +
    (slotBytes v.geo (v.atFixedRoot c) l v.byte (v.channels c).filePointer).length) (w.channels c).clusterIndex
    (w.channels c).cluster
  rw [setChannel_moved (fun y => { y with filePointer := _ }) rfl] at hmove
  refine ⟨_, ?_, hmove, hlud, ?_, ?_, ?_⟩
  · rw [fatRead, run_bind_state]
    dsimp only
    rw [if_neg hno, run_bind_ok hrun, run_bind_state, when_neg (by simp [hdir]), run_bind_pure, run_bind_update,
      run_pure]
  · refine h.browsed hmove ?_
    rw [Volume.setChannel_self]
    exact hon.cursor
  · rw [Volume.setChannel_self]
  · rw [Volume.setChannel_self]
    exact hcl

end FreeDos32.Fat
