import FreeDos32.Fat.DirTree

namespace FreeDos32.Fat

open Prog Unicode

variable {G : Layout} {u v w : Volume} {slot : ℕ → Option Direntry} {l cs : List ℕ} {fn : List UInt8} {x : Entry}
  {L M N : LookupData} {a c d k n fuel : ℕ}

section Loop

theorem length_entries (slot : ℕ → Option Direntry) (k n : ℕ) (before : List Direntry) :
    (entries slot k n before).length ≤ k := by
  induction k generalizing n before with
  | zero => exact Nat.le_refl 0
  | succ k ih =>
    rw [entries]
    split
    · exact Nat.zero_le _
    · split
      · exact Nat.zero_le _
      · split
        · exact Nat.succ_le_succ (ih ..)
        · exact Nat.le_succ_of_le (ih ..)

theorem Leaves.trans (h : Leaves slot L M) (h' : Leaves slot M N) : Leaves slot L N := by
  rcases h' with h' | h'
  · rw [Leaves, h']
    exact h
  · exact .inr h'

/-- What is in the last slot of the ring goes on with none of the names, and nothing that may come there does. -/
structure Fits (slot : ℕ → Option Direntry) (L : LookupData) (x : Entry) : Prop where
  long : ∃ r, x.longName = .ok r
  short : ∃ r, x.shortName = .ok r
  ring : ¬x.ContinuedBy (L.cde 20)
  late : ∀ d, Late slot d → ¬x.ContinuedBy d

theorem Fits.leaves (h : Fits slot L x) (hl : Leaves slot L M) : Fits slot M x := by
  refine ⟨h.long, h.short, ?_, h.late⟩
  rcases hl with hl | ⟨d, hd, hd' | hd'⟩
  · rw [hl]
    exact h.ring
  · exact fun hc => Entry.not_continuedBy hd' (hc.congr hd)
  · exact fun hc => h.late d hd' (hc.congr hd)

theorem Fits.names (h : Fits slot L x) (hx : Listed slot k n x) : ∃ r s, x.longName = .ok r ∧ x.shortName = .ok s ∧
    (taken L x.before.reverse x.de).names (32 * (x.number + 1)) =
      (.ok (), { taken L x.before.reverse x.de with lfnEntries := r.1, lfn := r.2, sfn := s }) := by
  obtain ⟨r, hr⟩ := h.long
  obtain ⟨s, hs⟩ := h.short
  have hname : ((taken L x.before.reverse x.de).cde (taken L x.before.reverse x.de).cdePos).name = x.de.name :=
    name_eq (fetch_current x.de _)
  refine ⟨r, s, hr, hs, ?_⟩
  rw [LookupData.names, fetchLfn_entry L hx.short hx.passed.room h.ring, hr, hname,
    show expandFcbName x.de.name = .ok s from hs]

theorem direntryLocation_secofs (c : ℕ) (v : Volume) : (direntryLocation c v).lud.deSecofs =
    (direntryLocation c v).lud.deDirofs % (direntryLocation c v).geo.bytesPerSector := rfl

theorem readdirLoop_secofs (c fuel : ℕ) : Triple (fun _ => True) (readdirLoop c fuel)
    (fun _ w => w.lud.deSecofs = w.lud.deDirofs % w.geo.bytesPerSector) (fun _ _ => True) := by
  have hany : ∀ {α : Type} {x : FatM α} {P : Volume → Prop}, Triple P x (fun _ _ => True) (fun _ _ => True) :=
    fun {α x P} v _ => by rcases x.run v with ⟨_ | _ | _, w⟩ <;> trivial
  induction fuel with
  | zero => exact .diverge
  | succ fuel ih =>
    refine .bind hany fun bytes => .bind hany fun _ => .ite (fun _ => .fail fun _ _ => trivial) fun _ =>
      .ite (fun _ => .fail fun _ _ => trivial) fun _ => .ite (fun _ => .fail fun _ _ => trivial) fun _ =>
      .ite (fun _ => ?_) fun _ => .bind hany fun _ => ih
    refine .bind_state fun v _ => ?_
    cases fetchLfn (v.channels c).filePointer v.lud with
    | error e => exact .bind hany fun _ => .fail fun _ _ => trivial
    | ok r =>
      exact .bind hany fun _ => .bind hany fun sfn => .bind hany fun _ => .update fun w _ => direntryLocation_secofs c w

theorem fatDoReaddir_secofs (c : ℕ) : Triple (fun _ => True) (fatDoReaddir c)
    (fun _ w => w.lud.deSecofs = w.lud.deDirofs % w.geo.bytesPerSector) (fun _ _ => True) :=
  .bind_state fun _ _ => .ite (fun _ => .fail fun _ _ => trivial) fun _ =>
    .bind (R := fun _ _ => True) (.update fun _ _ => trivial) fun _ => readdirLoop_secofs c _

/-- The loop of `fat_lookup` has stopped at an entry. -/
structure StoppedAt (l : List ℕ) (c : ℕ) (v : Volume) (x : Entry) (w : Volume) : Prop where
  bytes : (w.lud.cde w.lud.cdePos).toBytes = x.de.toBytes
  dirofs : w.lud.deDirofs = 32 * x.number
  place : placeOf v.geo (v.atFixedRoot c) l (32 * x.number) =
    some (w.lud.deSector * v.geo.bytesPerSector + 32 * x.number % v.geo.bytesPerSector)

theorem lookupLoop_run (h : OpenDir l c v) (hp : (v.channels c).filePointer = 32 * n) (hend : v.slot l c (n + k) = none)
    (hk : k < v.geo.loopBound) (hfuel : (entries (v.slot l c) k n []).length < fuel)
    (hfits : ∀ x ∈ entries (v.slot l c) k n [], Fits (v.slot l c) v.lud x) (hfn : Utf8 cs fn) :
    ∃ r w, (lookupLoop c fn fuel).run v = (r, w) ∧ Browsed c v w ∧ OpenDir l c w ∧ Leaves (v.slot l c) v.lud w.lud ∧
      match (entries (v.slot l c) k n []).find? (·.shows cs) with
      | none => r = .error .enmfile
      | some x => r = .ok () ∧ StoppedAt l c v x w := by
  induction fuel generalizing v n k with
  | zero => omega
  | succ fuel ih =>
    obtain ⟨w, hrun, hsc⟩ := fatDoReaddir_run h hp
    have hsecofs := fatDoReaddir_secofs c v trivial
    have hreads := scan_entries (Passed.nil (v.slot l c) n) hend hk v.lud
    change Reads _ _ (scan (v.slot l c) v.geo.loopBound n { v.lud with cdePos := 0 }) _ at hreads
    rw [lookupLoop]
    cases hes : entries (v.slot l c) k n [] with
    | nil =>
      rw [hes] at hreads
      obtain ⟨m, L, hscan, hleaves⟩ := hreads
      rw [hscan] at hrun hsc
      have hcde : w.lud.cde = L.cde := by rw [hsc.names]
      refine ⟨.error .enmfile, w, run_bind_error hrun, hsc.browsed, hsc.openDir, ?_, rfl⟩
      rw [Leaves, hcde]
      exact hleaves
    | cons x xs =>
      have hlx : Listed (v.slot l c) k n x := mem_entries (.nil _ _) (hes ▸ List.mem_cons_self)
      have hfx := hfits x (hes ▸ List.mem_cons_self)
      obtain ⟨r, s, hlong, hshort, hnames⟩ := hfx.names hlx
      rw [hes] at hreads
      have hscan : scan (v.slot l c) v.geo.loopBound n { v.lud with cdePos := 0 } = _ := hreads
      rw [hnames] at hscan
      rw [hscan] at hrun hsc
      rw [hrun] at hsecofs
      have hlud := hsc.names
      have hcde : w.lud.cde = (taken v.lud x.before.reverse x.de).cde := by rw [hlud]
      have hpos : w.lud.cdePos = (taken v.lud x.before.reverse x.de).cdePos := by rw [hlud]
      have hlfn : w.lud.lfn = r.2 := by rw [hlud]
      have hsfn : w.lud.sfn = s := by rw [hlud]
      have hbytes : (w.lud.cde w.lud.cdePos).toBytes = x.de.toBytes := by
        rw [hcde, hpos]
        exact fetch_current x.de _
      have hattr : (w.lud.cde w.lud.cdePos).attr = x.de.attr := toBytes_eq hbytes (by decide)
      have hleaves : Leaves (v.slot l c) v.lud w.lud := by
        rw [Leaves, hcde]
        exact hlx.passed.leaves_fetch v.lud (.inl hlx.short)
      have hslot := hsc.browsed.slot (l := l)
      have hstop : StoppedAt l c v x w := by
        obtain ⟨hofs, hplace⟩ := hsc.place rfl
        have hofs' : w.lud.deDirofs = 32 * x.number := by
          have hofs : w.lud.deDirofs + 32 = 32 * (x.number + 1) := hofs
          omega
        have hsec : w.lud.deSecofs = w.lud.deDirofs % w.geo.bytesPerSector := hsecofs
        rw [hofs', hsc.browsed.geo] at hsec
        rw [hofs', hsec] at hplace
        exact ⟨hbytes, hofs', hplace⟩
      -- the rest of the directory, when the entry is not the one
      have hnext : ∃ r w', (lookupLoop c fn fuel).run w = (r, w') ∧ Browsed c v w' ∧ OpenDir l c w' ∧
          Leaves (v.slot l c) v.lud w'.lud ∧ match xs.find? (·.shows cs) with
            | none => r = .error .enmfile
            | some y => r = .ok () ∧ StoppedAt l c v y w' := by
        have hxs : xs = entries (v.slot l c) (n + k - (x.number + 1)) (x.number + 1) [] := entries_cons hes
        have hup := hlx.upper
        have hlow := hlx.lower
        obtain ⟨r, w', hrun', hb, ho, hl, hm⟩ := ih (v := w) (n := x.number + 1) (k := n + k - (x.number + 1))
          hsc.openDir hsc.pointer
          (by rw [hslot, show x.number + 1 + (n + k - (x.number + 1)) = n + k by omega]; exact hend)
          (by rw [hsc.browsed.geo]; omega)
          (by
            rw [hslot, ← hxs]
            rw [hes, List.length_cons] at hfuel
            omega)
          (by
            rw [hslot, ← hxs]
            exact fun y hy => (hfits y (hes ▸ List.mem_cons_of_mem _ hy)).leaves hleaves)
        rw [hslot] at hl hm
        rw [← hxs] at hm
        refine ⟨r, w', hrun', hsc.browsed.trans hb, ho, hleaves.trans hl, ?_⟩
        cases hf : xs.find? (·.shows cs) with
        | none => simpa only [hf] using hm
        | some y =>
          rw [hf] at hm
          refine ⟨hm.1, hm.2.bytes, hm.2.dirofs, ?_⟩
          have hpl := hm.2.place
          rwa [hsc.browsed.geo, hsc.browsed.atFixedRoot] at hpl
      have hshows : x.shows cs = (!hasAttr x.de.attr fatAVolid && (foldName r.2 == foldName cs || foldName s == foldName cs)) := by
        rw [Entry.shows, hlong, hshort]
        rfl
      rw [run_bind_ok hrun, run_bind_state, hattr, hlfn, hsfn, compareWithoutWildcards_utf8 hfn,
        compareWithoutWildcards_utf8 hfn, List.find?_cons, hshows]
      cases hasAttr x.de.attr fatAVolid with
      | true => exact hnext
      | false =>
        cases foldName r.2 == foldName cs with
        | true => exact ⟨.ok (), w, rfl, hsc.browsed, hsc.openDir, hleaves, rfl, hstop⟩
        | false =>
          cases foldName s == foldName cs with
          | true => exact ⟨.ok (), w, rfl, hsc.browsed, hsc.openDir, hleaves, rfl, hstop⟩
          | false => exact hnext

end Loop

section Nodes

variable {hd hf : ℕ → ℕ} {pins : List (ℕ × ℕ)} {p q sector lfn : ℕ} {attr : UInt8}

/-- Only nodes have been taken or given up. -/
structure NodesOnly (v w : Volume) : Prop where
  geo : w.geo = v.geo
  cache : w.cache = v.cache
  freeClusters : w.freeClusters = v.freeClusters
  env : w.env = v.env
  lud : w.lud = v.lud
  files : w.files = v.files
  filesOpen : w.filesOpen = v.filesOpen
  channels : w.channels = v.channels
  channelsOpen : w.channelsOpen = v.channelsOpen

theorem Trimmed.nodesOnly (h : Trimmed v w) : NodesOnly v w where
  geo := (congrArg Volume.geo h.rest :)
  cache := (congrArg Volume.cache h.rest :)
  freeClusters := (congrArg Volume.freeClusters h.rest :)
  env := (congrArg Volume.env h.rest :)
  lud := (congrArg Volume.lud h.rest :)
  files := (congrArg Volume.files h.rest :)
  filesOpen := (congrArg Volume.filesOpen h.rest :)
  channels := (congrArg Volume.channels h.rest :)
  channelsOpen := (congrArg Volume.channelsOpen h.rest :)

theorem NodesOnly.trans (h : NodesOnly u v) (h' : NodesOnly v w) : NodesOnly u w where
  geo := h'.geo.trans h.geo
  cache := h'.cache.trans h.cache
  freeClusters := h'.freeClusters.trans h.freeClusters
  env := h'.env.trans h.env
  lud := h'.lud.trans h.lud
  files := h'.files.trans h.files
  filesOpen := h'.filesOpen.trans h.filesOpen
  channels := h'.channels.trans h.channels
  channelsOpen := h'.channelsOpen.trans h.channelsOpen

theorem nodesOnly_dget (d : ℕ) (v : Volume) : NodesOnly v (dget d v) := ⟨rfl, rfl, rfl, rfl, rfl, rfl, rfl, rfl, rfl⟩

theorem nodesOnly_dentryInit (d p entcnt sector lfn : ℕ) (attr : UInt8) (v : Volume) :
    NodesOnly v (dentryInit d p entcnt sector attr lfn v) := by
  rw [dentryInit, dget]
  constructor <;> rfl

theorem Tidy.nodesOnly (h : Tidy G v) (hw : NodesOnly v w) (hrec : Recorded G (books w) v.byte)
    (haddr : (books w).fileAddr = (books v).fileAddr) : Tidy G w := by
  refine h.of_recorded hw.cache hw.geo hw.freeClusters hrec fun c hcc hcg => ?_
  rw [hw.channelsOpen] at hcc
  rw [hw.channels] at hcg ⊢
  have hcur := h.cursors c hcc hcg
  unfold CursorOk at hcur ⊢
  rw [haddr]
  exact hcur

theorem books_dentryInit (d p entcnt sector lfn : ℕ) (attr : UInt8) (v : Volume) (hpd : p ≠ d) :
    books (dentryInit d p entcnt sector attr lfn v) =
      (books v).newNode d ⟨some p, sector, entcnt % 65536, attr, lfn % 256⟩ := by
  unfold books Books.newNode
  congr 1
  funext k
  by_cases hk : k = d
  · subst hk
    rw [Function.update_self]
    simp [dentryInit, dget, Volume.setDentry, Dentry.info, Ne.symm hpd]
  · rw [Function.update_of_ne hk]
    by_cases hkp : k = p
    · subst hkp
      simp [dentryInit, dget, Volume.setDentry, Dentry.info, hk]
    · simp [dentryInit, dget, Volume.setDentry, Dentry.info, hk, hkp]

section Settled

variable (h : Tidy G v) (hs : G.Settled)

include h hs in
theorem Layout.Settled.nodeOk (hm : d ∈ v.dentriesSlab) : NodeOk G (books v) v.byte ((books v).node d) :=
  h.order.nodes.node d hm (by simp [hs.goneNodes])

include h hs in
theorem node_owner (hd : HasNode d v) : (books v).nodeAddr d ∈ G.owners := by
  rcases List.mem_cons.mp hd with rfl | hm
  · rw [h.order.nodes.rootAddr]
    exact h.order.entries.root
  · exact (hs.nodeOk h hm).owner

include h hs in
theorem node_isDir (hd : HasNode d v) : hasAttr (v.dentries d).attr fatADir = true ↔ G.Dir v ((books v).nodeAddr d) := by
  refine Iff.trans ?_ (and_iff_right (node_owner h hs hd)).symm
  rcases List.mem_cons.mp hd with rfl | hm
  · rw [h.order.nodes.rootAddr]
    exact iff_of_true h.order.nodes.root.2.2.1 (.inl rfl)
  · exact (hs.nodeOk h hm).attr

include h hs in
theorem node_inj (hd : HasNode d v) (hk : HasNode k v) (he : (books v).nodeAddr d = (books v).nodeAddr k) : d = k := by
  have hroot : ∀ {k}, k ∈ v.dentriesSlab → (books v).nodeAddr rootDentry ≠ (books v).nodeAddr k := fun hm he => by
    rw [h.order.nodes.rootAddr] at he
    exact (hs.nodeOk h hm).addr_ne he.symm
  rcases List.mem_cons.mp hd with rfl | hm <;> rcases List.mem_cons.mp hk with rfl | hm'
  · rfl
  · exact absurd he (hroot hm')
  · exact absurd he.symm (hroot hm)
  · exact h.order.nodes.inj d hm k hm' (by simp [hs.goneNodes]) (by simp [hs.goneNodes]) he

include h hs in
theorem dentryGet_run (lfn : ℕ) (hc : Counts hd hf pins v) (hmem : ∀ k, v.env.oom k = false) (hp : HasNode p v)
    (hdir : G.Dir v ((books v).nodeAddr p)) (hat : G.at v.geo ((books v).nodeAddr p) (32 * n) = some q)
    (hq : sector * v.geo.bytesPerSector + 32 * n % v.geo.bytesPerSector = q) (hlive : (slotAt v.byte q).Live)
    (hattr : attr = (slotAt v.byte q).attr) :
    ∃ d w, (dentryGet p n sector attr lfn).run v = (.ok (some d), w) ∧ Tidy G w ∧ NodesOnly v w ∧
      (books w).nodeAddr d = q := by
  have hc' : (skeleton v).Counted hd hf pins := hc
  have hlt : 32 * n < 65535 * 32 := h.order.entries.size _ hdir.1 hdir.2 _ _ hat
  have hentry : ∀ k ∈ v.dentriesSlab, ∃ p', (v.dentries k).parent = some p' ∧ HasNode p' v ∧
      k ∈ (v.dentries p').children ∧ (books v).nodeAddr p' ∈ G.owners ∧
      G.at v.geo ((books v).nodeAddr p') ((v.dentries k).deEntcnt * 32) = some ((books v).nodeAddr k) := fun k hk => by
    obtain ⟨p', hp', hpar, hchild⟩ := hc'.parent k hk
    obtain ⟨p'', hpar', hown, -, hat'⟩ := (hs.nodeOk h hk).entry
    have hpar'' : (v.dentries k).parent = some p'' := hpar'
    have he : p' = p'' := Option.some.inj (Eq.trans (Eq.symm hpar) hpar'')
    rw [← he] at hown hat'
    exact ⟨p', hpar, hp', hchild, hown, hat'⟩
  rw [dentryGet, run_bind_state]
  cases hfind : (v.dentries p).children.find? fun k => n == (v.dentries k).deEntcnt with
  | some k =>
    have hk : k ∈ (v.dentries p).children := List.mem_of_find?_eq_some hfind
    have hn : (v.dentries k).deEntcnt = n := (by simpa using List.find?_some hfind : n = _).symm
    obtain ⟨hm, hpar⟩ := (hc'.children p hp).2 k hk
    obtain ⟨p', hpar', -, -, -, hat'⟩ := hentry k hm
    have he : p = p' := Option.some.inj (Eq.trans (Eq.symm hpar) hpar')
    rw [← he, hn, Nat.mul_comm, hat] at hat'
    refine ⟨k, dget k v, rfl, ?_, nodesOnly_dget k v, ?_⟩
    · exact h.nodesOnly (nodesOnly_dget k v) (by rw [books_dget]; exact h.order.toRecorded) (by rw [books_dget])
    · rw [books_dget]
      exact (Option.some.inj hat').symm
  | none =>
    have hfresh : ∀ {k}, HasNode k v → k ≠ v.nextId := fun hk he => Nat.lt_irrefl _ (he ▸ hc'.freshNode _ hk)
    have hnew : v.nextId ∉ v.dentriesSlab := fun hm => hfresh (List.mem_cons_of_mem _ hm) rfl
    have halloc := run_slabmemAlloc v
    rw [if_neg (by simp [hmem])] at halloc
    simp only [run_bind_ok halloc, run_bind_update, fatDget, run_pure]
    generalize hu : ({ v with ticks := v.ticks + 1, nextId := v.nextId + 1 } : Volume) = u
    have hub : books u = books v := by rw [← hu]; rfl
    let x : NodeInfo := ⟨some p, sector, n % 65536, attr, lfn % 256⟩
    have hn : n % 65536 = n := Nat.mod_eq_of_lt (by omega)
    have hx : x.addr v.geo = q := by
      change sector * v.geo.bytesPerSector + n % 65536 * 32 % v.geo.bytesPerSector = q
      rw [hn, Nat.mul_comm n 32]
      exact hq
    have hqpos : v.geo.rootSector * v.geo.bytesPerSector ≤ q := h.sound.geo.posAddr_le hat
    have hown : q ∈ G.owners := by
      have := h.order.entries.slots _ hdir.1 hdir.2 _ _ (Nat.dvd_mul_right 32 n) hat hlive
      simpa [hs.loose] using this
    have hok : NodeOk G (books v) v.byte x := by
      refine ⟨by rw [show (books v).geo = v.geo from rfl, hx]; exact hown, ?_, ?_, p, rfl, hdir.1, hdir.2, ?_⟩
      · have h2 := h.sound.geo.two_le_root
        have hmod := Nat.mod_lt (32 * n) (bytesPerSector_pos v.geo)
        change 2 ≤ sector
        by_contra hlow
        have hle : sector * v.geo.bytesPerSector ≤ 1 * v.geo.bytesPerSector := Nat.mul_le_mul_right _ (by omega)
        have hge : 2 * v.geo.bytesPerSector ≤ v.geo.rootSector * v.geo.bytesPerSector := Nat.mul_le_mul_right _ h2
        omega
      · rw [show (books v).geo = v.geo from rfl, hx]
        change hasAttr attr fatADir = true ↔ q = 0 ∨ (slotAt v.byte q).isDir = true
        rw [hattr, or_iff_right]
        · exact Iff.rfl
        · intro h0
          have h2 := Nat.mul_pos (Nat.lt_of_lt_of_le (by decide) h.sound.geo.two_le_root) (bytesPerSector_pos v.geo)
          omega
      · rw [show (books v).geo = v.geo from rfl, hx]
        change G.at v.geo ((books v).nodeAddr p) (n % 65536 * 32) = some q
        rw [hn, Nat.mul_comm n 32]
        exact hat
    have hrec : Recorded G ((books v).newNode v.nextId x) v.byte := by
      refine h.order.toRecorded.newNode hnew (fun he => hfresh List.mem_cons_self he.symm) hok (fun k hk _ he => ?_)
        (fun k hk he => ?_) (fun he => hfresh hp (Option.some.inj he)) fun c hcc he => ?_
      · obtain ⟨p', -, hp', hchild, hown', hat'⟩ := hentry k hk
        rw [he, show x.addr (books v).geo = q from hx] at hat'
        obtain ⟨haddr, hpos⟩ := Chains.posAddr_unique h.sound.geo h.order.chains hown' hdir.1 hat' hat
        obtain rfl := node_inj h hs hp' hp haddr
        refine List.find?_eq_none.mp hfind k hchild ?_
        simp only [beq_iff_eq]
        omega
      · obtain ⟨p', hpar, hp', -⟩ := hentry k hk
        exact hfresh hp' (Option.some.inj (hpar.symm.trans he))
      · exact hfresh (hc'.channelDentry c hcc _ he) rfl
    generalize hw : dget v.nextId (dentryInit v.nextId p n sector attr lfn u) = w
    have hwb : books w = (books v).newNode v.nextId x := by
      rw [← hw, books_dget, books_dentryInit _ _ _ _ _ _ _ (hfresh hp), hub]
    have hwv : NodesOnly v w := by
      have hvu : NodesOnly v u := by
        rw [← hu]
        exact ⟨rfl, rfl, rfl, rfl, rfl, rfl, rfl, rfl, rfl⟩
      rw [← hw]
      exact (hvu.trans (nodesOnly_dentryInit ..)).trans (nodesOnly_dget ..)
    refine ⟨v.nextId, w, rfl, ?_, hwv, ?_⟩
    · refine h.nodesOnly hwv (hwb ▸ hrec) ?_
      rw [hwb]
      rfl
    · rw [hwb, Books.newNode_addr_self]
      exact hx

end Settled

end Nodes

section Steps

variable {hd hf : ℕ → ℕ} {pins : List (ℕ × ℕ)} {p q : ℕ}

/-- The names of the tree can be read, with memory for it. -/
structure Layout.Explorable (G : Layout) (v : Volume) : Prop where
  legible : G.Legible v
  ring : G.Aloof v (v.lud.cde 20)
  memory : ∀ k, v.env.oom k = false
  loop : 65535 < v.geo.loopBound

theorem Layout.Explorable.same (h : G.Explorable v) (hs : G.SameTree v w) (henv : w.env = v.env)
    (hring : G.Aloof v (w.lud.cde 20)) : G.Explorable w where
  legible := hs.legible h.legible
  ring := hs.aloof hring rfl
  memory := by
    rw [henv]
    exact h.memory
  loop := by
    rw [hs.geo]
    exact h.loop

theorem Layout.Legible.leaves (h : G.Legible v) (ha : G.Dir v a) (hl : Leaves (G.slot v a) L M)
    (hL : G.Aloof v (L.cde 20)) : G.Aloof v (M.cde 20) := by
  rcases hl with hl | ⟨d, hd, hd' | hd'⟩
  · rw [hl]
    exact hL
  · exact fun b hb x hx hc => Entry.not_continuedBy hd' (hc.congr hd)
  · exact fun b hb x hx hc => h.late a ha d hd' b hb x hx (hc.congr hd)

/-- Between two components of a pathname, with a reference to the node `d`. -/
structure Walking (G : Layout) (hd hf : ℕ → ℕ) (d : ℕ) (v : Volume) : Prop where
  tidy : Tidy G v
  counts : Counts (hold d hd) hf [] v
  explorable : G.Explorable v

/-- A component has led from `v` to the node `d`. -/
structure Stepped (G : Layout) (hd hf : ℕ → ℕ) (v : Volume) (d : ℕ) (w : Volume) : Prop where
  walking : Walking G hd hf d w
  tree : G.tree w = G.tree v

theorem NodesOnly.stepped (h : NodesOnly v w) (hv : G.Explorable v) (hw : Tidy G w) (hc : Counts (hold d hd) hf [] w) :
    Stepped G hd hf v d w := by
  have hsame : G.SameTree v w := .of_byte h.geo (byte_of_same h.cache h.geo)
  exact ⟨⟨hw, hc, hv.same hsame h.env (by rw [h.lud]; exact hv.ring)⟩, hsame.tree⟩

theorem nodeAddr_congr (hgeo : w.geo = v.geo) (hinfo : (w.dentries d).info = (v.dentries d).info) :
    (books w).nodeAddr d = (books v).nodeAddr d := by
  change (w.dentries d).info.addr w.geo = (v.dentries d).info.addr v.geo
  rw [hgeo, hinfo]

theorem fatLookup_here (h : Walking G hd hf d v) (hs : G.Settled) (hfn : fn = [] ∨ fn = [0x2E]) :
    (fatLookup d fn).run v = (if (G.tree v).isDir ((books v).nodeAddr d) then .ok d else .error .enotdir, v) := by
  have hdir := (node_isDir h.tidy hs h.counts.hasNode).trans tree_isDir.symm
  rw [fatLookup, run_bind_state, if_pos hfn]
  by_cases ha : (G.tree v).isDir ((books v).nodeAddr d) = true
  · rw [if_pos (hdir.mpr ha), if_pos ha]
    rfl
  · rw [if_neg fun hattr => ha (hdir.mp hattr), if_neg ha]
    rfl

theorem fatLookup_up (h : Walking G hd hf d v) (hs : G.Settled) : ∃ p w, (fatLookup d [0x2E, 0x2E]).run v = (.ok p, w) ∧
    Stepped G hd hf v p w ∧ (books w).nodeAddr p = (G.tree v).parent ((books v).nodeAddr d) := by
  have hn := h.counts.hasNode
  have hc' : (skeleton v).Counted (hold d hd) hf [] := h.counts
  rw [fatLookup, run_bind_state, if_neg (by decide), if_pos rfl]
  cases hp : (v.dentries d).parent with
  | none =>
    have hd : d = rootDentry := by
      rcases List.mem_cons.mp hn with hd | hm
      · exact hd
      · obtain ⟨p, -, hpar, -⟩ := hc'.parent d hm
        have hpar : (v.dentries d).parent = some p := hpar
        rw [hp] at hpar
        cases hpar
    refine ⟨d, v, rfl, ⟨h, rfl⟩, ?_⟩
    rw [hd, h.tidy.order.nodes.rootAddr, tree_parent_root]
  | some p =>
    have hnp := h.counts.parent_mem hn hp
    have hm : d ∈ v.dentriesSlab := by
      rcases List.mem_cons.mp hn with hd | hm
      · have hroot : (v.dentries rootDentry).parent = none := hc'.rootParent
        rw [hd, hroot] at hp
        cases hp
      · exact hm
    have hok := hs.nodeOk h.tidy hm
    obtain ⟨p', hpar, hown, hdir, hat⟩ := hok.entry
    have hpar : (v.dentries d).parent = some p' := hpar
    obtain rfl : p = p' := Option.some.inj (hp.symm.trans hpar)
    have hget : Counts (hold d (hold p hd)) hf [] (dget p v) := by
      rw [hold_comm]
      exact fatDget_counts v ⟨h.counts, hnp⟩
    have htidy : Tidy G (dget p v) :=
      h.tidy.nodesOnly (nodesOnly_dget p v) (by rw [books_dget]; exact h.tidy.order.toRecorded) (by rw [books_dget])
    obtain ⟨w, hrun, hw⟩ := fatDput_run hget
    have htrim := fatDput_trimmed d (dget p v) (Std.Refl.refl _)
    rw [hrun] at htrim
    have hvw := (nodesOnly_dget p v).trans htrim.nodesOnly
    refine ⟨p, w, ?_, hvw.stepped h.explorable (htrim.tidy htidy) hw, ?_⟩
    · change (fatDget p >>= fun _ => fatDput d >>= fun _ => pure p).run v = _
      rw [fatDget, run_bind_update, run_bind_ok hrun]
      rfl
    · rw [nodeAddr_congr (v := dget p v) htrim.nodesOnly.geo (htrim.node p), books_dget]
      rw [Nat.mul_comm] at hat
      exact (tree_parent h.tidy ⟨hown, hdir⟩ hat hok.addr_ne).symm

theorem denies_lookup (x : Dentry) : x.denies (oRdonly ||| oDirectory) =
    if hasAttr x.attr fatADir = true then none else some .enotdir := by
  have hw : hasFlag (oRdonly ||| oDirectory) oWronly = false := by decide
  have hrw : hasFlag (oRdonly ||| oDirectory) oRdwr = false := by decide
  have ht : hasFlag (oRdonly ||| oDirectory) oTrunc = false := by decide
  have hd : hasFlag (oRdonly ||| oDirectory) oDirectory = true := by decide
  rw [Dentry.denies, hw, hrw, ht, hd]
  cases hasAttr x.attr fatADir <;> rfl

/-- What does not change while the name is looked up in the directory that is open at `c`. -/
structure Looked (G : Layout) (v u : Volume) (c : ℕ) (w : Volume) : Prop where
  tidy : Tidy G w
  geo : w.geo = v.geo
  byte : w.byte = v.byte
  env : w.env = v.env
  ring : G.Aloof v (w.lud.cde 20)
  opened : c ∈ w.channelsOpen
  info : (w.channels c).info = (u.channels c).info

section Name

variable (h : Walking G hd hf d v) (hs : G.Settled) (ha : G.Dir v ((books v).nodeAddr d))
  (hadm : Admitted G v d (oRdonly ||| oDirectory) c u) (hfn : Utf8 cs fn)

include hs ha hadm in
theorem openDir_of_admitted : OpenDir (G.chain ((books v).nodeAddr d)) c u ∧
    u.slot (G.chain ((books v).nodeAddr d)) c = G.slot v ((books v).nodeAddr d) := by
  have huse := hadm.usable (by simp [hs.goneFiles])
  have hstill := Still.refl hadm.tidy
  have hhome := hadm.home
  have hok := huse.fileOk hadm.tidy.order
  have hinfo := hadm.info
  have hdir : IsDir u.byte (u.home c) := by
    rw [hadm.byte, hhome]
    exact ha.2
  constructor
  · refine ⟨hadm.tidy.sound, hhome ▸ huse.onChain hadm.tidy.order hstill, hok.dir.mpr hdir, ⟨?_, ?_⟩, ?_⟩
    · exact congrArg ChannelInfo.magic hinfo
    · have hflags : (u.channels c).flags = oRdonly ||| oDirectory := congrArg ChannelInfo.flags hinfo
      rw [Channel.isNotReadable, hflags]
      decide
    · rw [hadm.pointer]
      exact Nat.dvd_zero 32
  · funext n
    rw [Volume.slot, Layout.slot, huse.atFixedRoot hadm.tidy.order hstill, hhome, hadm.geo, hadm.byte, Layout.at, posAddr_eq]

include h hs ha hadm hfn in
theorem lookupLoop_listing : ∃ r w, (lookupLoop c fn u.geo.loopBound).run u = (r, w) ∧ Looked G v u c w ∧
    Still G u w ∧ match (G.listing v ((books v).nodeAddr d)).find? (·.shows cs) with
      | none => r = .error .enmfile
      | some x => r = .ok () ∧ StoppedAt (G.chain ((books v).nodeAddr d)) c u x w := by
  obtain ⟨hopen, hslot⟩ := openDir_of_admitted hs ha hadm
  have hlist : entries (u.slot (G.chain ((books v).nodeAddr d)) c) 65535 0 [] = G.listing v ((books v).nodeAddr d) := by
    rw [hslot]
    rfl
  have hloop : 65535 < u.geo.loopBound := by
    rw [hadm.geo]
    exact h.explorable.loop
  have hlen : (entries (u.slot (G.chain ((books v).nodeAddr d)) c) 65535 0 []).length < u.geo.loopBound :=
    Nat.lt_of_le_of_lt (length_entries ..) hloop
  have hend : u.slot (G.chain ((books v).nodeAddr d)) c (0 + 65535) = none := by
    rw [hslot, Layout.slot, Nat.zero_add]
    cases hat : G.at v.geo ((books v).nodeAddr d) (32 * 65535) with
    | none => rfl
    | some q =>
      have := h.tidy.order.entries.size _ ha.1 ha.2 _ _ hat
      omega
  have hfits : ∀ x ∈ entries (u.slot (G.chain ((books v).nodeAddr d)) c) 65535 0 [],
      Fits (u.slot (G.chain ((books v).nodeAddr d)) c) u.lud x := by
    rw [hlist, hslot]
    refine fun x hx => ⟨h.explorable.legible.long _ ha x hx, h.explorable.legible.short _ ha x hx, ?_, fun e he =>
      h.explorable.legible.late _ ha e he _ ha x hx⟩
    rw [hadm.lud]
    exact h.explorable.ring _ ha x hx
  obtain ⟨r, w, hrun, hb, ho, hl, hm⟩ := lookupLoop_run hopen hadm.pointer hend hloop hlen hfits hfn
  rw [hlist] at hm
  have hstill : Still G u w := (Still.refl hadm.tidy).onChain hb (by rw [hadm.home]; exact ho.chain)
  refine ⟨r, w, hrun, ⟨hstill.tidy hadm.tidy.order, hb.geo.trans hadm.geo, hb.byte.trans hadm.byte, ?_, ?_, ?_, hb.info c⟩,
    hstill, hm⟩
  · have henv : w.env = u.env := by
      obtain ⟨p, i, j, he⟩ := hb.eq
      rw [he]
      rfl
    exact henv.trans hadm.env
  · rw [hslot, hadm.lud] at hl
    exact h.explorable.legible.leaves ha hl h.explorable.ring
  · rw [hstill.channelsOpen]
    exact hadm.mem

/-- The exchange of the reference to the directory for one to the node of the entry. -/
structure Swapped (G : Layout) (hd hf : ℕ → ℕ) (pins : List (ℕ × ℕ)) (u : Volume) (q d' : ℕ) (w : Volume) : Prop where
  tidy : Tidy G w
  rest : NodesOnly u w
  counts : Counts (hold d' hd) hf pins w
  addr : (books w).nodeAddr d' = q

theorem lookupFound_run (hw : Tidy G w) (hs : G.Settled) (hc : Counts (hold d hd) hf pins w)
    (hmem : ∀ k, w.env.oom k = false) (hdir : G.Dir w ((books w).nodeAddr d))
    (hofs : w.lud.deDirofs = 32 * n) (hat : G.at w.geo ((books w).nodeAddr d) (32 * n) = some q)
    (hq : w.lud.deSector * w.geo.bytesPerSector + 32 * n % w.geo.bytesPerSector = q) (hlive : (slotAt w.byte q).Live)
    (hattr : (w.lud.cde w.lud.cdePos).attr = (slotAt w.byte q).attr) :
    ∃ d' t, (lookupFound d).run w = (.ok d', t) ∧ Swapped G hd hf pins w q d' t := by
  have hn : w.lud.deDirofs / 32 = n := by omega
  have hget := dentryGet_run hw hs w.lud.lfnEntries hc hmem hc.hasNode hdir hat hq hlive
    hattr
  obtain ⟨d', x, hrun, hx, hwx, haddr⟩ := hget
  have hcx := dentryGet_counts d n w.lud.deSector w.lud.lfnEntries (w.lud.cde w.lud.cdePos).attr w ⟨hc, hc.hasNode⟩
  rw [hrun] at hcx
  have hcx : Counts (hold d' (hold d hd)) hf pins x := hcx
  rw [hold_comm] at hcx
  obtain ⟨t, hput, ht⟩ := fatDput_run hcx
  have htrim := fatDput_trimmed d x (Std.Refl.refl _)
  rw [hput] at htrim
  refine ⟨d', t, ?_, htrim.tidy hx, hwx.trans htrim.nodesOnly, ht, ?_⟩
  · rw [lookupFound, run_bind_state]
    dsimp only
    rw [hn, run_bind_ok hrun]
    change (fatDput d >>= fun _ => pure d').run x = _
    rw [run_bind_ok hput]
    rfl
  · rw [nodeAddr_congr htrim.nodesOnly.geo (htrim.node d'), haddr]

/-- Where the name leads to in the directory of `d`: to a node in exchange for it, or nowhere. -/
def LooksUp (G : Layout) (hd hf : ℕ → ℕ) (pins : List (ℕ × ℕ)) (v : Volume) (d : ℕ) (cs : List ℕ) (r : Outcome Errno ℕ)
    (w : Volume) : Prop :=
  match (G.tree v).child ((books v).nodeAddr d) cs with
  | none => r = .error .enoent ∧ Counts (hold d hd) hf pins w ∧ (books w).nodeAddr d = (books v).nodeAddr d
  | some q => ∃ d', r = .ok d' ∧ Counts (hold d' hd) hf pins w ∧ (books w).nodeAddr d' = q

include h hs ha hadm hfn in
theorem lookupName_run (hcu : Counts (hold d hd) hf [(c, d)] u) (hcs : component cs = .name cs) :
    ∃ r w, (lookupName c d fn).run u = (r, w) ∧ Looked G v u c w ∧ LooksUp G hd hf [(c, d)] v d cs r w := by
  obtain ⟨r, w, hrun, hlook, hstill, hm⟩ := lookupLoop_listing h hs ha hadm hfn
  have hcw : Counts (hold d hd) hf [(c, d)] w := by
    have hkeep := Neutral.skeleton (Neutral.lookupLoop c fn u.geo.loopBound) u
    rw [hrun] at hkeep
    change (skeleton w).Counted _ _ _
    rw [hkeep]
    exact hcu
  have hnode : (books w).nodeAddr d = (books v).nodeAddr d := by rw [hstill.books, hadm.nodeAddr]
  rw [lookupName, run_bind_state]
  cases hf : (G.listing v ((books v).nodeAddr d)).find? (·.shows cs) with
  | none =>
    rw [hf] at hm
    rw [hm] at hrun
    refine ⟨.error .enoent, w, ?_, hlook, ?_⟩
    · rw [run_bind_ok (run_attempt_error hrun)]
      rfl
    · rw [LooksUp, tree_child_none hf]
      exact ⟨rfl, hcw, hnode⟩
  | some x =>
    rw [hf] at hm
    obtain ⟨hr, hstop⟩ := hm
    rw [hr] at hrun
    have hx : x ∈ G.listing v ((books v).nodeAddr d) := List.mem_of_find?_eq_some hf
    have hlive := h.explorable.legible.live ha hx (List.find?_some hf) hcs
    obtain ⟨-, -, q, hq, hde⟩ := mem_listing hx
    have huse := hadm.usable (by simp [hs.goneFiles])
    have hplace := hstop.place
    rw [huse.atFixedRoot hadm.tidy.order (Still.refl hadm.tidy), hadm.home, hadm.geo, ← posAddr_eq] at hplace
    have hsum : w.lud.deSector * w.geo.bytesPerSector + 32 * x.number % w.geo.bytesPerSector = q := by
      rw [hlook.geo]
      exact Option.some.inj (hplace.symm.trans hq)
    have hattr : (w.lud.cde w.lud.cdePos).attr = (slotAt w.byte q).attr := by
      rw [hlook.byte, ← hde]
      exact toBytes_eq hstop.bytes (by decide)
    obtain ⟨d', t, hrun', ht⟩ := lookupFound_run hlook.tidy hs hcw (by rw [hlook.env]; exact h.explorable.memory)
      (by rw [hnode, Layout.Dir, hlook.byte]; exact ha) hstop.dirofs (by rw [hnode, hlook.geo]; exact hq) hsum
      (by rw [hlook.byte, ← hde]; exact hlive) hattr
    refine ⟨.ok d', t, ?_, ?_, ?_⟩
    · rw [run_bind_ok (run_attempt_ok hrun)]
      exact hrun'
    · refine ⟨ht.tidy, ht.rest.geo.trans hlook.geo, (byte_of_same ht.rest.cache ht.rest.geo).trans hlook.byte,
        ht.rest.env.trans hlook.env, ?_, ?_, ?_⟩
      · rw [ht.rest.lud]
        exact hlook.ring
      · rw [ht.rest.channelsOpen]
        exact hlook.opened
      · rw [ht.rest.channels]
        exact hlook.info
    · rw [LooksUp, tree_child ha hf hq]
      exact ⟨d', rfl, ht.counts, ht.addr⟩

include hfn in
theorem component_name_ne (hcs : component cs = .name cs) : ¬(fn = [] ∨ fn = [0x2E]) ∧ fn ≠ [0x2E, 0x2E] := by
  have hdots : ∀ {t : List UInt8} {n : ℕ}, n ≤ 2 → Utf8 (List.replicate n 0x2E) t → fn ≠ t := fun hle ht he =>
    (component_name hcs).2 _ hle ((Utf8.eq_iff ht hfn).mp he)
  refine ⟨?_, hdots (n := 2) (by decide) rfl⟩
  rintro (he | he)
  · exact hdots (n := 0) (by decide) rfl he
  · exact hdots (n := 1) (by decide) rfl he

include h hs hfn in
theorem fatLookup_name (hn : G.named) (ha : G.Dir v ((books v).nodeAddr d)) (hcs : component cs = .name cs) :
    ∃ r w, (fatLookup d fn).run v = (r, w) ∧ G.Explorable w ∧ Tidy G w ∧ G.tree w = G.tree v ∧
      LooksUp G hd hf [] v d cs r w := by
  obtain ⟨hhere, hup⟩ := component_name_ne hfn hcs
  have hop : Openable G v d := by
    refine ⟨(List.mem_cons.mp h.counts.hasNode).imp_right fun hm => ⟨hm, by simp [hs.goneNodes]⟩, by simp [hs.gone],
      fun f _ => by simp [hs.goneFiles], h.tidy.shows (fun f _ => by simp [hs.goneFiles]) (.inr ha.2)⟩
  have hattr := (node_isDir h.tidy hs h.counts.hasNode).mpr ha
  obtain ⟨c, u, hopen, hadm⟩ := fatOpen_run h.tidy h.counts hop (fun _ f hf => by simp [hs.stale] at hf)
    h.explorable.memory (by rw [denies_lookup, if_pos hattr])
  have hcu := fatOpen_counts d (oRdonly ||| oDirectory) v ⟨h.counts, h.counts.hasNode⟩
  rw [hopen] at hcu
  obtain ⟨r, x, hname, hlook, hres⟩ := lookupName_run h hs ha hadm hfn hcu.1 hcs
  have hxi : (x.channels c).info = _ := hlook.info.trans hadm.info
  -- a result of the name is passed on whatever closing the directory returns
  have hclose : ∀ {g : ℕ → ℕ}, Counts g hf [(c, d)] x → ∃ w, (fatClose c).run x = (.ok (), w) ∧ Dismissed G x c w ∧
      Counts g hf [] w := fun hcx =>
    fatClose_run hlook.tidy (hcx.unpin (by simp)) hlook.opened (by simp [hs.goneFiles]) (congrArg ChannelInfo.magic hxi)
      (by
        have hrefs : (x.channels c).references = 1 := congrArg ChannelInfo.references hxi
        rw [hrefs]
        decide)
  have hrun : ∀ {w}, (fatClose c).run x = (.ok (), w) → r ≠ .hang → (fatLookup d fn).run v = (r, w) := fun hw hne => by
    rw [fatLookup, run_bind_state, if_neg hhere, if_neg hup, run_bind_ok hopen]
    cases r with
    | ok a =>
      rw [run_bind_ok (run_attempt_ok hname), run_bind_ok (run_attempt_ok hw)]
      rfl
    | error e =>
      rw [run_bind_ok (run_attempt_error hname), run_bind_ok (run_attempt_ok hw)]
      rfl
    | hang => exact absurd rfl hne
  have hend : ∀ {w}, Dismissed G x c w → G.Explorable w ∧ Tidy G w ∧ G.tree w = G.tree v ∧
      ∀ k, (books w).nodeAddr k = (books x).nodeAddr k := fun hw => by
    have hvx : G.SameTree v x := .of_byte hlook.geo hlook.byte
    have hxw := hw.shut.sameTree hlook.tidy hs hn
    have hex : G.Explorable x := h.explorable.same hvx hlook.env hlook.ring
    refine ⟨hex.same hxw hw.shut.env (by rw [hw.shut.lud]; exact hex.ring), hw.tidy, hxw.tree.trans hvx.tree, fun k => ?_⟩
    exact nodeAddr_congr hw.shut.geo (hw.shut.node k)
  rw [LooksUp] at hres
  cases hchild : (G.tree v).child ((books v).nodeAddr d) cs with
  | none =>
    rw [hchild] at hres
    obtain ⟨hr, hcx, haddr⟩ := hres
    obtain ⟨w, hw, hdis, hcw⟩ := hclose hcx
    obtain ⟨h1, h2, h3, h4⟩ := hend hdis
    refine ⟨r, w, hrun hw (by rw [hr]; exact fun he => by cases he), h1, h2, h3, ?_⟩
    rw [LooksUp, hchild]
    exact ⟨hr, hcw, by rw [h4, haddr]⟩
  | some q =>
    rw [hchild] at hres
    obtain ⟨d', hr, hcx, haddr⟩ := hres
    obtain ⟨w, hw, hdis, hcw⟩ := hclose hcx
    obtain ⟨h1, h2, h3, h4⟩ := hend hdis
    refine ⟨r, w, hrun hw (by rw [hr]; exact fun he => by cases he), h1, h2, h3, ?_⟩
    rw [LooksUp, hchild]
    exact ⟨d', hr, hcw, by rw [h4, haddr]⟩

include h hs hfn in
theorem fatLookup_notDir (ha : ¬G.Dir v ((books v).nodeAddr d)) (hcs : component cs = .name cs) :
    (fatLookup d fn).run v = (.error .enotdir, v) := by
  have hattr : ¬hasAttr (v.dentries d).attr fatADir = true := fun hattr =>
    ha ((node_isDir h.tidy hs h.counts.hasNode).mp hattr)
  obtain ⟨hhere, hup⟩ := component_name_ne hfn hcs
  rw [fatLookup, run_bind_state, if_neg hhere, if_neg hup]
  apply run_bind_error
  rw [fatOpen, run_bind_state, denies_lookup, if_neg hattr]
  rfl

end Name

end Steps

end FreeDos32.Fat
