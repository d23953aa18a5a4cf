import FreeDos32.Fat.Emptiness
import FreeDos32.Fat.Pending

namespace FreeDos32.Fat

open Prog

variable {G : Layout} {u v w x : Volume} {m : ℕ → UInt8} {a c d f k n p : ℕ} {hd hf : ℕ → ℕ}

section Removing

/-- The layout while the file or directory `p` is removed, which the file `f` and the node `d` are for. -/
def Layout.removing (G : Layout) (p f d : ℕ) : Layout := { G with gone := {p}, goneFiles := {f}, goneNodes := {d} }

theorem Recorded.removing {b : Books} (h : Recorded G b m) (hs : G.Settled) (hf : b.fileAddr f = p) :
    Recorded (G.removing p f d) b m := by
  have hgone : ∀ {q}, q ∉ G.gone := by simp [hs.gone]
  have hfiles : ∀ {k}, k ∉ G.goneFiles := by simp [hs.goneFiles]
  have hnodes : ∀ {k}, k ∉ G.goneNodes := by simp [hs.goneNodes]
  refine ⟨⟨h.entries.root, h.entries.slots, fun q hq h0 _ => h.entries.linked q hq h0 hgone, h.entries.inside,
    h.entries.size⟩, ⟨fun k hk _ => ?_, fun k hk k' hk' _ _ he => h.files.inj k hk k' hk' hfiles hfiles he, h.files.root,
    fun q hq h0 hqp hno => ?_⟩, ⟨fun k hk _ => ?_, fun k hk k' hk' _ _ he => h.nodes.inj k hk k' hk' hnodes hnodes he,
    h.nodes.root, fun c hc _ => h.nodes.channel c hc hfiles⟩, fun hn => ?_⟩
  · have hok := h.files.file k hk hfiles
    exact hok.layout hok.owner rfl id
  · refine h.files.closed q hq h0 hgone fun k hk _ he => ?_
    by_cases hkf : k = f
    · subst hkf
      exact hqp (he.symm.trans hf)
    · exact hno k hk hkf he
  · have hok := h.nodes.node k hk hnodes
    exact hok.layout rfl hok.owner Iff.rfl fun _ _ h1 h2 h3 => ⟨h1, h2, h3⟩
  · have hnames := h.names hn
    exact ⟨fun q hq h0 _ => hnames.slot q hq h0 hgone, fun k hk _ hks => hnames.file k hk hfiles hks, hnames.stale⟩

theorem Tidy.removing (h : Tidy G v) (hs : G.Settled) (hf : (books v).fileAddr f = p) : Tidy (G.removing p f d) v := by
  refine ⟨h.sound, { h.order.toRecorded.removing hs hf with
    chains := h.order.chains, reserved := h.order.reserved, free := h.order.free }, fun k hk _ => ?_⟩
  exact h.cursors k hk (by simp [hs.goneFiles])

end Removing

section Rmdir

/-- A node of a subdirectory in a volume in good order. The slots before its entry that its long name is
in are no entries in use. -/
structure Removable (G : Layout) (hd hf : ℕ → ℕ) (v : Volume) (d k : ℕ) : Prop where
  tidy : Tidy G v
  settled : G.Settled
  counts : Counts hd hf [] v
  node : d ∈ v.dentriesSlab
  parent : (v.dentries d).parent = some k
  dir : hasAttr (v.dentries d).attr fatADir = true
  contents : SubdirOk (G.slot v ((books v).nodeAddr d))
  fits : (v.dentries d).lfnEntries ≤ (v.dentries d).deEntcnt
  long : ∀ n, (v.dentries d).deEntcnt - (v.dentries d).lfnEntries ≤ n → n < (v.dentries d).deEntcnt →
    ∀ de, G.slot v ((books v).nodeAddr k) n = some de → ¬de.InUse
  loop : 65535 < v.geo.loopBound
  clusters : v.geo.dataClusters ≤ v.geo.loopBound

/-- The parent and the directory have been opened. -/
structure Entered (G : Layout) (hd hf : ℕ → ℕ) (v : Volume) (d k cp c : ℕ) (w : Volume) : Prop where
  opened : ∃ u, Admitted G v k (oWronly ||| oDirectory) cp u ∧ Admitted G u d 0 c w
  counts : Counts hd hf [] w
  flushed : Flushed v w

variable {cp : ℕ}

namespace Removable

theorem nodeOk (h : Removable G hd hf v d k) : NodeOk G (books v) v.byte ((books v).node d) :=
  h.settled.nodeOk h.tidy h.node

theorem isDir (h : Removable G hd hf v d k) : IsDir v.byte ((books v).nodeAddr d) := h.nodeOk.attr.mp h.dir

theorem parentOk (h : Removable G hd hf v d k) : (books v).nodeAddr k ∈ G.owners ∧ IsDir v.byte ((books v).nodeAddr k) ∧
    G.at v.geo ((books v).nodeAddr k) ((v.dentries d).deEntcnt * 32) = some ((books v).nodeAddr d) := by
  obtain ⟨j, hj, hown, hdir, hat⟩ := h.nodeOk.entry
  have hjk : some k = some j := h.parent.symm.trans hj
  cases hjk
  exact ⟨hown, hdir, hat⟩

theorem openable (h : Removable G hd hf v d k) {x : Volume} (hx : Tidy G x) {j : ℕ} (hj : HasNode j x)
    (hdir : IsDir x.byte ((books x).nodeAddr j)) : Openable G x j := by
  refine ⟨(List.mem_cons.mp hj).imp_right fun hm => ⟨hm, ?_⟩, ?_, fun f _ => ?_, hx.shows (fun f _ => ?_) (.inr hdir)⟩
  · simp [h.settled.goneNodes]
  · simp [h.settled.gone]
  · simp [h.settled.goneFiles]
  · simp [h.settled.goneFiles]

theorem hasParent (h : Removable G hd hf v d k) : HasNode k v :=
  h.counts.parent_mem (List.mem_cons_of_mem _ h.node) h.parent

theorem denies_parent (h : Removable G hd hf v d k) : (v.dentries k).denies (oWronly ||| oDirectory) =
    if hasAttr (v.dentries k).attr fatARdonly = true then some .eacces else none := by
  have hdir : hasAttr (v.dentries k).attr fatADir = true :=
    (node_isDir h.tidy h.settled h.hasParent).mpr ⟨h.parentOk.1, h.parentOk.2.1⟩
  have hw : hasFlag (oWronly ||| oDirectory) oWronly = true := by decide
  have hd : hasFlag (oWronly ||| oDirectory) oDirectory = true := by decide
  simp [Dentry.denies, hdir, hw, hd]

theorem denies_self (x : Dentry) : x.denies 0 = none := by
  have hw : hasFlag 0 oWronly = false := by decide
  have hr : hasFlag 0 oRdwr = false := by decide
  have ht : hasFlag 0 oTrunc = false := by decide
  have hd : hasFlag 0 oDirectory = false := by decide
  simp [Dentry.denies, hw, hr, ht, hd]

theorem stale (h : Removable G hd hf v d k) {x : Volume} : G.named → ∀ f ∈ G.stale, f < x.nextId := by
  intro _ f hf
  rw [h.settled.stale] at hf
  exact hf.elim

theorem half (h : Removable G hd hf v d k) (hwr : hasAttr (v.dentries k).attr fatARdonly = false)
    (hmem : v.env.oom v.ticks = false) :
    ∃ cp u, (fatOpen k (oWronly ||| oDirectory)).run v = (.ok cp, u) ∧ Admitted G v k (oWronly ||| oDirectory) cp u ∧
      u.ticks = v.ticks + 1 ∧ Cleanly v u ∧ Counts hd hf [] u ∧ HasNode d u ∧ Openable G u d := by
  have hden : (v.dentries k).denies (oWronly ||| oDirectory) = none := by
    rw [h.denies_parent, hwr]
    rfl
  obtain ⟨cp, u, hrun, hu, hticks⟩ :=
    fatOpen_admitted h.tidy h.counts (h.openable h.tidy h.hasParent h.parentOk.2.1) h.stale hden hmem
  have hcu := fatOpen_counts k (oWronly ||| oDirectory) v ⟨h.counts, h.hasParent⟩
  have hclean := fatOpen_cleanly k (oWronly ||| oDirectory) v
  rw [hrun] at hcu hclean
  have hnode : HasNode d u := by
    apply List.mem_cons_of_mem
    change d ∈ u.dentriesSlab
    rw [hu.nodes]
    exact h.node
  have hdir : IsDir u.byte ((books u).nodeAddr d) := by
    rw [hu.byte, hu.nodeAddr]
    exact h.isDir
  exact ⟨cp, u, hrun, hu, hticks, hclean, hcu.1.unpin (by simp), hnode, h.openable hu.tidy hnode hdir⟩

theorem enter (h : Removable G hd hf v d k) (hwr : hasAttr (v.dentries k).attr fatARdonly = false)
    (hmem : v.env.oom v.ticks = false) (hmem' : v.env.oom (v.ticks + 1) = false) :
    ∃ cp c u w, (fatOpen k (oWronly ||| oDirectory)).run v = (.ok cp, u) ∧ (fatOpen d 0).run u = (.ok c, w) ∧
      Entered G hd hf v d k cp c w := by
  obtain ⟨cp, u, hrun, hu, hticks, hclean, hcu', hnode, hop⟩ := h.half hwr hmem
  obtain ⟨c, w, hrun', hw, -⟩ := fatOpen_admitted hu.tidy hcu' hop h.stale (denies_self _) (by rw [hu.env, hticks]; exact hmem')
  have hcw := fatOpen_counts d 0 u ⟨hcu', hnode⟩
  have hclean' := fatOpen_cleanly d 0 u
  rw [hrun'] at hcw hclean'
  refine ⟨cp, c, u, w, hrun, hrun', ⟨u, hu, hw⟩, hcw.1.unpin (by simp), ?_⟩
  exact .opened (hw.geo.trans hu.geo) (hw.byte.trans hu.byte) (IsTrans.trans _ _ _ hclean hclean')

end Removable

namespace Entered

variable (h : Entered G hd hf v d k cp c w)

include h

theorem tidy : Tidy G w := by
  obtain ⟨u, -, hw⟩ := h.opened
  exact hw.tidy

theorem byte : w.byte = v.byte := by
  obtain ⟨u, hu, hw⟩ := h.opened
  exact hw.byte.trans hu.byte

theorem nodeAddr (j : ℕ) : (books w).nodeAddr j = (books v).nodeAddr j := by
  obtain ⟨u, hu, hw⟩ := h.opened
  exact (hw.nodeAddr j).trans (hu.nodeAddr j)

theorem node : (books w).node = (books v).node := by
  obtain ⟨u, hu, hw⟩ := h.opened
  exact hw.node.trans hu.node

theorem nodes : w.dentriesSlab = v.dentriesSlab := by
  obtain ⟨u, hu, hw⟩ := h.opened
  exact hw.nodes.trans hu.nodes

theorem ne : cp ≠ c := by
  obtain ⟨u, hu, hw⟩ := h.opened
  intro he
  exact hw.unused (he ▸ hu.mem)

theorem parentInfo : (w.channels cp).info = ⟨(w.channels cp).f, true, oWronly ||| oDirectory, 1, some k⟩ := by
  obtain ⟨u, hu, hw⟩ := h.opened
  rw [hw.other cp h.ne]
  exact hu.info

theorem info : (w.channels c).info = ⟨(w.channels c).f, true, 0, 1, some d⟩ := by
  obtain ⟨u, hu, hw⟩ := h.opened
  exact hw.info

theorem pointer : (w.channels c).filePointer = 0 := by
  obtain ⟨u, hu, hw⟩ := h.opened
  exact hw.pointer

theorem mem : c ∈ w.channelsOpen ∧ cp ∈ w.channelsOpen := by
  obtain ⟨u, hu, hw⟩ := h.opened
  rw [hw.channelsOpen]
  exact ⟨List.mem_cons_self, List.mem_cons_of_mem _ hu.mem⟩

theorem home : w.home c = (books v).nodeAddr d := by
  obtain ⟨u, hu, hw⟩ := h.opened
  exact hw.home.trans (hu.nodeAddr d)

theorem parentHome : w.home cp = (books v).nodeAddr k := by
  obtain ⟨u, hu, hw⟩ := h.opened
  obtain ⟨b, ht, hb⟩ := hw.books
  have hin : (u.channels cp).f ∈ u.filesOpen := hu.file_mem
  have hold := ht.other hin
  have hfile : (books w).fileAddr (u.channels cp).f = (books u).fileAddr (u.channels cp).f := by
    rw [hb]
    change (b.file (u.channels cp).f).addr b.geo = _
    rw [hold.1, ht.rest.1]
    rfl
  rw [Volume.home, hw.other cp h.ne, hfile]
  exact hu.home

theorem file_mem : (w.channels c).f ∈ w.filesOpen ∧ (w.channels cp).f ∈ w.filesOpen :=
  ⟨Skeleton.Counted.channelFile h.counts c h.mem.1, Skeleton.Counted.channelFile h.counts cp h.mem.2⟩

theorem usable (hs : G.Settled) : Usable G w c := ⟨h.mem.1, h.file_mem.1, by simp [hs.goneFiles]⟩

theorem slot (hs : G.Settled) : w.slot (G.chain ((books v).nodeAddr d)) c = G.slot v ((books v).nodeAddr d) := by
  funext n
  rw [Volume.slot, (h.usable hs).atFixedRoot h.tidy.order (Still.refl h.tidy), h.home, h.flushed.geo, h.byte, Layout.slot,
    Layout.at, posAddr_eq]

end Entered

theorem Removable.check (h : Removable G hd hf v d k) (he : Entered G hd hf v d k cp c w) :
    ∃ r x, (removeCheck c true).run w = (r, x) ∧ Still G w x ∧ Browsed c w x ∧
      Finding (G.slot v ((books v).nodeAddr d)) 2 r := by
  have huse := he.usable h.settled
  have hfile := huse.fileOk he.tidy.order
  have haddr : (w.files (w.channels c).f).info.addr w.geo = (books v).nodeAddr d := he.home
  have hdir : (w.files (w.channels c).f).de.isDir = true := by
    refine hfile.dir.mpr ?_
    rw [haddr, he.byte]
    exact h.isDir
  have hinfo := he.info
  have hreads : (w.channels c).Reads := by
    refine ⟨congrArg ChannelInfo.magic hinfo, ?_⟩
    have hflags : (w.channels c).flags = 0 := congrArg ChannelInfo.flags hinfo
    rw [Channel.isNotReadable, hflags]
    decide
  have hon := huse.onChain he.tidy.order (Still.refl he.tidy)
  rw [he.home] at hon
  have hopen : OpenDir (G.chain ((books v).nodeAddr d)) c w := by
    refine ⟨he.tidy.sound, hon, hdir, hreads, ?_⟩
    rw [he.pointer]
    exact Nat.dvd_zero 32
  have hslot := he.slot h.settled
  obtain ⟨dot, h0, hdot⟩ := h.contents.dot
  obtain ⟨dotdot, h1, hdotdot⟩ := h.contents.dotdot
  have hend : G.slot v ((books v).nodeAddr d) (2 + 65533) = none := by
    rw [Layout.slot, Option.map_eq_none_iff, Option.eq_none_iff_forall_ne_some]
    intro q hq
    have hlt := h.tidy.order.entries.size _ h.nodeOk.owner h.isDir _ _ hq
    omega
  obtain ⟨r, x, hrun, hx, hon', hfind⟩ := directoryIsEmpty_run hopen he.pointer (by rw [hslot]; exact h0)
    (by rw [hslot]; exact h1) hdot hdotdot (by rw [hslot]; exact hend) (by rw [he.flushed.geo]; have := h.loop; omega)
  rw [hslot] at hfind
  have hstill : Still G w x := (Still.refl he.tidy).onChain hx (by rw [he.home]; exact hon')
  refine ⟨r, x, ?_, hstill, hx, hfind⟩
  rw [removeCheck, run_bind_state]
  dsimp only
  have hattr : hasAttr (w.files (w.channels c).f).de.attr fatADir = true := hdir
  rw [if_pos rfl, if_pos hattr]
  exact hrun

theorem Still.flushed (h : Still G v w) : Flushed v w := by
  refine .opened h.geo h.byte fun k hk => .inl ⟨?_, h.file k⟩
  have hopen : w.filesOpen = v.filesOpen := congrArg Books.filesOpen h.books
  rwa [hopen] at hk

theorem Dismissed.flushed (h : Dismissed G v c w) : Flushed v w := h.shut.flushed

theorem closeBoth_run (hx : Tidy G x) (hg : G.goneFiles = ∅) (hc : Counts hd hf [] x) (hne : cp ≠ c)
    (hmem : c ∈ x.channelsOpen ∧ cp ∈ x.channelsOpen)
    (hlive : ∀ j, j = cp ∨ j = c → (x.channels j).magic = true ∧ (x.channels j).references = 1) :
    ∃ y, (closeAll [cp, c]).run x = (.ok (), y) ∧ Tidy G y ∧ Flushed x y := by
  have hone : ∀ {j} {y : Volume}, (y.channels j).references = 1 → (y.channels j).references ≠ 0 := fun hj => by
    rw [hj]
    decide
  obtain ⟨hm, hr⟩ := hlive cp (.inl rfl)
  obtain ⟨y, hrun, hy, hcy⟩ := fatClose_run hx hc hmem.2 (by simp [hg]) hm (hone hr)
  obtain ⟨hm', hr'⟩ := hlive c (.inr rfl)
  rw [← hy.other c hne.symm] at hm' hr'
  obtain ⟨z, hrun', hz, -⟩ := fatClose_run hy.tidy hcy (hy.stays c hmem.1 hne.symm) (by simp [hg]) hm' (hone hr')
  refine ⟨z, ?_, hz.tidy, hy.flushed.trans hz.flushed⟩
  rw [closeAll, run_bind_ok (run_attempt_ok hrun), closeAll, run_bind_ok (run_attempt_ok hrun')]
  rfl

/-- The directory of node `d` is removed: its entry and the parts of its long name are free, and so are its clusters. -/
structure Removed (G : Layout) (v : Volume) (d k : ℕ) (w : Volume) : Prop where
  tidy : ∃ f, Tidy ((G.removing ((books v).nodeAddr d) f d).drop ((books v).nodeAddr d) ∅) w
  slots : ∀ n, (v.dentries d).deEntcnt - (v.dentries d).lfnEntries ≤ n → n ≤ (v.dentries d).deEntcnt →
    ∀ q, G.at v.geo ((books v).nodeAddr k) (n * 32) = some q → w.byte q = fatFreeent
  clusters : ∀ i < v.geo.numFats, ∀ n ≤ v.geo.dataClusters + 1, fatEntry v.geo w.byte i n =
    if n ∈ G.chain ((books v).nodeAddr d) then 0 else fatEntry v.geo v.byte i n
  rest : ∀ q, v.geo.rootSector * v.geo.bytesPerSector ≤ q →
    (∀ n, (v.dentries d).deEntcnt - (v.dentries d).lfnEntries ≤ n → n ≤ (v.dentries d).deEntcnt →
      G.at v.geo ((books v).nodeAddr k) (n * 32) ≠ some q) → w.byte q = v.byte q ∨ v.Pending q (w.byte q)

section Empty

variable (h : Removable G hd hf v d k) (hno : ¬Occupied (G.slot v ((books v).nodeAddr d)) 2)

theorem posAddr_ne_zero {b : Books} {pos q : ℕ} (hg : GeoOk b.geo n) (hat : G.at b.geo a pos = some q) : q ≠ 0 := by
  have hle := hg.posAddr_le hat
  have hroot : 0 < b.geo.rootSector := by
    rw [hg.root]
    exact Nat.add_pos_left hg.reserved _
  have hpos := Nat.mul_pos hroot (bytesPerSector_pos b.geo)
  omega

include h hno in
theorem Removable.not_live {pos q : ℕ} (hpos : 32 ∣ pos) (hat : G.at v.geo ((books v).nodeAddr d) pos = some q) :
    ¬(slotAt v.byte q).Live := by
  obtain ⟨n, rfl⟩ := hpos
  refine h.contents.not_live hno (n := n) ?_
  rw [Layout.slot, hat]
  rfl

include h hno in
theorem Removable.no_owner {pos q : ℕ} (hpos : 32 ∣ pos) (hat : G.at v.geo ((books v).nodeAddr d) pos = some q) :
    q ∉ G.owners := by
  intro hown
  refine h.not_live hno hpos hat (h.tidy.order.entries.linked q hown ?_ (by simp [h.settled.gone]))
  exact posAddr_ne_zero (b := books v) h.tidy.sound.geo hat

include h hno in
theorem Removable.parent_ne : (books v).nodeAddr k ≠ (books v).nodeAddr d := by
  intro he
  have hat := h.parentOk.2.2
  rw [he] at hat
  exact h.no_owner hno (Nat.dvd_mul_left _ _) hat h.nodeOk.owner

include h hno in
theorem Removable.not_within (hlo : (v.dentries d).deEntcnt - (v.dentries d).lfnEntries ≤ n)
    (hhi : n ≤ (v.dentries d).deEntcnt)
    (hq : G.at v.geo ((books v).nodeAddr k) (n * 32) = some ((books v).nodeAddr k)) (h0 : (books v).nodeAddr k ≠ 0) : False := by
  rcases Nat.lt_or_eq_of_le hhi with hlt | rfl
  · have hlive := h.tidy.order.entries.linked _ h.parentOk.1 h0 (by simp [h.settled.gone])
    refine h.long n hlo hlt _ ?_ hlive.inUse
    rw [Layout.slot, Nat.mul_comm, hq]
    rfl
  · exact h.parent_ne hno (Option.some.inj (hq.symm.trans h.parentOk.2.2))

include h in
theorem Removable.deletable (hx : x.geo = v.geo) : Deletable (G.removing ((books v).nodeAddr d) f d) x
    ((books v).nodeAddr k) ((books v).nodeAddr d) ((v.dentries d).deEntcnt - (v.dentries d).lfnEntries)
    ((v.dentries d).lfnEntries + 1) := by
  have hfits := h.fits
  have hat := h.parentOk.2.2
  rw [← hx] at hat
  constructor
  · intro i hi
    refine Option.ne_none_iff_exists'.mp fun hnone => ?_
    have hle : (v.dentries d).deEntcnt - (v.dentries d).lfnEntries + i ≤ (v.dentries d).deEntcnt := by omega
    change posAddr _ _ _ _ = none at hnone
    rw [posAddr_eq] at hnone
    have hnone' := placeOf_none hnone (Nat.mul_le_mul_right 32 hle)
    rw [← posAddr_eq] at hnone'
    exact absurd (hnone'.symm.trans hat) (Option.some_ne_none _).symm
  · intro i hi q hq hown
    rcases Nat.lt_or_eq_of_le (Nat.le_of_lt_succ hi) with hlt | rfl
    · have hq' : G.at v.geo ((books v).nodeAddr k) (32 * ((v.dentries d).deEntcnt - (v.dentries d).lfnEntries + i)) = some q := by
        rw [Nat.mul_comm, ← hx]
        exact hq
      refine absurd (h.tidy.order.entries.linked q hown (posAddr_ne_zero (b := books v) h.tidy.sound.geo hq')
        (by simp [h.settled.gone])).inUse ?_
      refine h.long ((v.dentries d).deEntcnt - (v.dentries d).lfnEntries + i) (Nat.le_add_right _ _) (by omega) _ ?_
      rw [Layout.slot, hq']
      rfl
    · rw [Nat.sub_add_cancel hfits] at hq
      exact Option.some.inj (hq.symm.trans hat)

variable (he : Entered G hd hf v d k cp c w) (hx : Still G w x)

include h hno he hx in
theorem Removable.delete : ∃ y, (deleteLink cp d).run x = (.ok (), y) ∧
    Deleting (G.removing ((books v).nodeAddr d) (w.channels c).f d) x y ∧
    (∀ n, (v.dentries d).deEntcnt - (v.dentries d).lfnEntries ≤ n → n ≤ (v.dentries d).deEntcnt →
      ∀ q, G.at v.geo ((books v).nodeAddr k) (n * 32) = some q → y.byte q = fatFreeent) ∧
    ∀ q, (∀ n, (v.dentries d).deEntcnt - (v.dentries d).lfnEntries ≤ n → n ≤ (v.dentries d).deEntcnt →
      G.at v.geo ((books v).nodeAddr k) (n * 32) ≠ some q) → y.byte q = v.byte q := by
  have hxb := hx.books
  have hgeo : x.geo = v.geo := hx.geo.trans he.flushed.geo
  have hxhome : x.home cp = (books v).nodeAddr k := (hx.home cp).trans he.parentHome
  have haddr : (books x).fileAddr (w.channels c).f = (books v).nodeAddr d := by
    rw [hxb]
    exact he.home
  have hfx : (x.channels cp).f = (w.channels cp).f := hx.channelFile cp
  have hfne : (w.channels cp).f ≠ (w.channels c).f := by
    intro hf
    apply h.parent_ne hno
    rw [← he.parentHome, ← he.home, Volume.home, Volume.home, hf]
  have huse : Usable (G.removing ((books v).nodeAddr d) (w.channels c).f d) x cp := by
    refine ⟨?_, ?_, ?_⟩
    · rw [hx.channelsOpen]
      exact he.mem.2
    · rw [hfx, show x.filesOpen = w.filesOpen from congrArg Books.filesOpen hxb]
      exact he.file_mem.2
    · rw [hfx]
      exact hfne
  have htidy := (hx.tidy he.tidy.order).removing (d := d) h.settled haddr
  have hdir : hasAttr (x.files (x.channels cp).f).de.attr fatADir = true := by
    refine (huse.fileOk htidy.order).dir.mpr ?_
    change IsDir x.byte (x.home cp)
    rw [hxhome, hx.byte, he.byte]
    exact h.parentOk.2.1
  have hflag : hasFlag (x.channels cp).flags oSync = false := by
    have hflags : (x.channels cp).flags = oWronly ||| oDirectory :=
      (congrArg ChannelInfo.flags (hx.channel cp)).trans (congrArg ChannelInfo.flags he.parentInfo)
    rw [hflags]
    decide
  have hnode : (x.dentries d).info = (v.dentries d).info := by
    have hn : (books x).node d = (books v).node d := by rw [hxb, he.node]
    exact hn
  have hentcnt : (x.dentries d).deEntcnt = (v.dentries d).deEntcnt := congrArg NodeInfo.deEntcnt hnode
  have hlfn : (x.dentries d).lfnEntries = (v.dentries d).lfnEntries := congrArg NodeInfo.lfnEntries hnode
  have hfits := h.fits
  obtain ⟨y, hrun, hdel, hfree, hsame⟩ := deleteEntries_run _ _ htidy huse hdir hflag (Set.mem_singleton _) h.nodeOk.owner
    h.nodeOk.addr_ne (by rw [hxhome]; exact h.deletable hgeo) (by rw [hgeo]; have := h.loop; omega)
  rw [hxhome, hgeo] at hfree hsame
  have hsplit : ∀ {n}, (v.dentries d).deEntcnt - (v.dentries d).lfnEntries ≤ n → n ≤ (v.dentries d).deEntcnt →
      ∃ i < (v.dentries d).lfnEntries + 1, n = (v.dentries d).deEntcnt - (v.dentries d).lfnEntries + i := fun hlo hhi =>
    ⟨_, by omega, (Nat.add_sub_cancel' hlo).symm⟩
  refine ⟨y, ?_, hdel, fun n hlo hhi q hq => ?_, fun q hq => ?_⟩
  · rw [deleteLink, run_bind_state]
    dsimp only
    rw [hentcnt, hlfn]
    exact hrun
  · obtain ⟨i, hi, rfl⟩ := hsplit hlo hhi
    exact hfree i hi q hq
  · rw [hsame q fun i hi => hq _ (Nat.le_add_right _ _) (by omega), hx.byte, he.byte]

include h hno in
theorem Removable.no_reference (he : Entered G hd hf v d k cp c w) :
    (∀ j ∈ (books w).nodes, ∀ i, ((books w).node j).parent = some i → i ≠ d) ∧
      ∀ j ∈ (books w).channelsOpen, ((books w).channel j).f ≠ (w.channels c).f →
        ∀ i, ((books w).channel j).dentry = some i → i ≠ d := by
  constructor
  · rintro j hj i hi rfl
    have hok := h.settled.nodeOk he.tidy hj
    obtain ⟨l, hl, -, -, hat⟩ := hok.entry
    have hil : some i = some l := hi.symm.trans hl
    cases hil
    rw [he.nodeAddr, show (books w).geo = v.geo from he.flushed.geo] at hat
    refine h.no_owner hno (Nat.dvd_mul_left _ _) hat ?_
    have hown := hok.owner
    rwa [show (books w).geo = v.geo from he.flushed.geo] at hown
  · rintro j hj hne i hi rfl
    have hfg : ∀ {l : ℕ}, l ∉ G.goneFiles := by simp [h.settled.goneFiles]
    obtain ⟨l, hl, haddr⟩ := he.tidy.order.nodes.channel j hj hfg
    have hil : some i = some l := hi.symm.trans hl
    cases hil
    refine hne (he.tidy.order.files.inj _ ?_ _ ?_ hfg hfg ?_)
    · exact Skeleton.Counted.channelFile he.counts j hj
    · exact he.file_mem.1
    · rw [← haddr, he.nodeAddr]
      exact he.home.symm

theorem Removable.mark {y : Volume} (h : Removable G hd hf v d k) (hno : ¬Occupied (G.slot v ((books v).nodeAddr d)) 2)
    (he : Entered G hd hf v d k cp c w) (hy : Tidy (G.removing ((books v).nodeAddr d) (w.channels c).f d) y)
    (hb : books y = books w) :
    Tidy (G.removing ((books v).nodeAddr d) (w.channels c).f d) (y.markUnlinked (w.channels c).f d) := by
  obtain ⟨hpar, hchan⟩ := h.no_reference hno he
  have hbeside := books_markUnlinked (w.channels c).f d y
  have hroot : rootDentry ≠ d := by
    rintro rfl
    have hnone : (v.dentries rootDentry).parent = none := h.tidy.order.nodes.root.2.2.2
    rw [h.parent] at hnone
    cases hnone
  refine hy.of_recorded rfl rfl rfl ?_ ?_
  · refine hy.order.toRecorded.beside hbeside (Set.Subset.refl _) (Set.Subset.refl _) hroot ?_ ?_
    · rw [hb]
      exact fun j hj _ => hpar j hj
    · rw [hb]
      exact fun j hj hne => hchan j hj hne
  · intro j hj hne
    have hcur := hy.cursors j hj hne
    unfold CursorOk at hcur ⊢
    rw [hbeside.fileAddr hne]
    exact hcur

theorem Removable.abandoned {y : Volume} (h : Removable G hd hf v d k) (hno : ¬Occupied (G.slot v ((books v).nodeAddr d)) 2)
    (he : Entered G hd hf v d k cp c w) (hb : books y = books w) :
    Abandoned (G.removing ((books v).nodeAddr d) (w.channels c).f d) (books (y.markUnlinked (w.channels c).f d))
      (y.markUnlinked (w.channels c).f d).byte ((books v).nodeAddr d) := by
  have hbeside := books_markUnlinked (w.channels c).f d y
  have hgeo : (books y).geo = v.geo := (congrArg Books.geo hb).trans he.flushed.geo
  refine ⟨h.nodeOk.owner, h.nodeOk.addr_ne, fun _ pos q hpos hq => ?_, fun j hj hne haddr => ?_, fun j hj hne haddr => ?_⟩
  · rw [hbeside.geo, hgeo] at hq
    exact h.no_owner hno hpos hq
  · rw [hbeside.fileAddr hne, hb] at haddr
    rw [hbeside.filesOpen, hb] at hj
    have hfg : ∀ {l : ℕ}, l ∉ G.goneFiles := by simp [h.settled.goneFiles]
    exact hne (he.tidy.order.files.inj j hj _ he.file_mem.1 hfg hfg (haddr.trans he.home.symm))
  · rw [hbeside.nodeAddr hne, hb] at haddr
    rw [hbeside.nodes, hb] at hj
    have hng : ∀ {l : ℕ}, l ∉ G.goneNodes := by simp [h.settled.goneNodes]
    have hd : d ∈ (books w).nodes := by
      change d ∈ w.dentriesSlab
      rw [he.nodes]
      exact h.node
    exact hne (he.tidy.order.nodes.inj j hj d hd hng hng (haddr.trans (he.nodeAddr d).symm))

theorem Removable.chain_ne (h : Removable G hd hf v d k) : G.chain ((books v).nodeAddr d) ≠ [] := by
  obtain ⟨de, hs, -⟩ := h.contents.dot
  intro hnil
  rw [Layout.slot, Layout.at, posAddr, if_neg fun h0 => h.nodeOk.addr_ne h0.1, hnil] at hs
  cases hs

theorem Removable.dispose {y : Volume} (h : Removable G hd hf v d k) (hno : ¬Occupied (G.slot v ((books v).nodeAddr d)) 2)
    (he : Entered G hd hf v d k cp c w) (hy : Tidy (G.removing ((books v).nodeAddr d) (w.channels c).f d) y)
    (hb : books y = books w) (hc : Counts hd hf [] y) (hfree : y.byte ((books v).nodeAddr d) = fatFreeent) :
    ∃ z, (fatClose c).run (y.markUnlinked (w.channels c).f d) = (.ok (), z) ∧
      Tidy ((G.removing ((books v).nodeAddr d) (w.channels c).f d).drop ((books v).nodeAddr d) ∅) z ∧
      Disposed (y.markUnlinked (w.channels c).f d) c (G.chain ((books v).nodeAddr d)) z ∧ Counts hd hf [] z := by
  have hchan : (y.channels c).info = (w.channels c).info := congrFun (congrArg Books.channel hb) c
  have hf : (y.channels c).f = (w.channels c).f := congrArg ChannelInfo.f hchan
  have hmark := h.mark hno he hy hb
  have hgeo : y.geo = v.geo := (congrArg Books.geo hb).trans he.flushed.geo
  have hfirst : (y.files (w.channels c).f).firstCluster = (G.chain ((books v).nodeAddr d)).headD 0 := by
    have hok := (he.usable h.settled).first he.tidy.order
    rw [he.home] at hok
    exact (congrArg FileInfo.firstCluster (congrFun (congrArg Books.file hb) (w.channels c).f)).trans hok
  have hinfo := hchan.trans he.info
  have hloose : (G.removing ((books v).nodeAddr d) (w.channels c).f d).loose ⊆ ∅ := by
    change G.loose ⊆ ∅
    rw [h.settled.loose]
  have hself : (y.markUnlinked (w.channels c).f d).channels c = y.channels c := rfl
  apply fatClose_unlinked hmark _ _ (by simp) _ _ _ _ (h.abandoned hno he hb) hloose _ _ h.chain_ne
  · change y.geo.dataClusters ≤ y.geo.loopBound
    rw [hgeo]
    exact h.clusters
  · rw [Counts, Neutral.skeleton_markUnlinked]
    exact hc
  · change c ∈ y.channelsOpen
    rw [show y.channelsOpen = w.channelsOpen from congrArg Books.channelsOpen hb]
    exact he.mem.1
  · exact congrArg ChannelInfo.magic hinfo
  · exact congrArg ChannelInfo.references hinfo
  · rw [hself, hf]
    exact Set.mem_singleton _
  · rw [hself, hf]
    change ((y.setFile (w.channels c).f fun x => { x with deSector := fatUnlinked }).files _).deSector = _
    rw [Volume.setFile_self]
  · intro hlive
    exact absurd hfree hlive.1
  · rw [hself, hf]
    change ((y.setFile (w.channels c).f fun x => { x with deSector := fatUnlinked }).files _).firstCluster = _
    rw [Volume.setFile_self]
    exact hfirst

include h hno in
theorem Removable.leave {y z : Volume} (he : Entered G hd hf v d k cp c w)
    (hb : books y = books w) (hzt : Tidy ((G.removing ((books v).nodeAddr d) (w.channels c).f d).drop ((books v).nodeAddr d) ∅) z)
    (hz : Disposed (y.markUnlinked (w.channels c).f d) c (G.chain ((books v).nodeAddr d)) z) (hc : Counts hd hf [] z) :
    ∃ t, (fatClose cp).run z = (.ok (), t) ∧
      Tidy ((G.removing ((books v).nodeAddr d) (w.channels c).f d).drop ((books v).nodeAddr d) ∅) t ∧
      (∀ q, t.byte q = z.byte q ∨ v.Pending q (t.byte q)) ∧
      ∀ q, ((books v).nodeAddr k ≠ 0 → ∀ i < 32, q ≠ (books v).nodeAddr k + i) → t.byte q = z.byte q := by
  have hchan : (z.channels cp).info = (w.channels cp).info := by
    rw [hz.other cp he.ne]
    exact congrFun (congrArg Books.channel hb) cp
  have hfcp : (z.channels cp).f = (w.channels cp).f := congrArg ChannelInfo.f hchan
  have hinfo := hchan.trans he.parentInfo
  have hfne : (w.channels cp).f ≠ (w.channels c).f := by
    intro hf
    apply h.parent_ne hno
    rw [← he.parentHome, ← he.home, Volume.home, Volume.home, hf]
  have hopen : cp ∈ z.channelsOpen := by
    rw [hz.channelsOpen]
    refine (List.mem_erase_of_ne he.ne).mpr ?_
    change cp ∈ y.channelsOpen
    rw [show y.channelsOpen = w.channelsOpen from congrArg Books.channelsOpen hb]
    exact he.mem.2
  have hrefs : (z.channels cp).references = 1 := congrArg ChannelInfo.references hinfo
  obtain ⟨t, hrun, ht, -⟩ := fatClose_run hzt hc hopen (by rw [hfcp]; exact hfne) (congrArg ChannelInfo.magic hinfo)
    (by rw [hrefs]; decide)
  have hfile : (z.files (w.channels cp).f).info = (w.files (w.channels cp).f).info := by
    rw [hz.file]
    change (if (w.channels cp).f = (w.channels c).f then _ else y.files (w.channels cp).f).info = _
    rw [if_neg hfne]
    exact congrFun (congrArg Books.file hb) (w.channels cp).f
  have hgeo : z.geo = w.geo := hz.geo.trans (congrArg Books.geo hb)
  have haddr : (books z).fileAddr (w.channels cp).f = (books v).nodeAddr k := by
    rw [← he.parentHome]
    change (z.files (w.channels cp).f).info.addr z.geo = _
    rw [hfile, hgeo]
    rfl
  have hwritten := ht.shut.written
  rw [hfcp] at hwritten
  refine ⟨t, hrun, ht.tidy, fun q => ?_, fun q hq => ?_⟩
  · rcases hwritten with hbyte | ⟨hch, h0, hmem, hbyte⟩
    · exact .inl (congrFun hbyte q)
    · rw [hbyte]
      refine (overlay_cases _ _ z.byte q).imp_right fun hi => ?_
      rw [haddr] at h0 hi
      have hde : (z.files (w.channels cp).f).de = (w.files (w.channels cp).f).de := congrArg FileInfo.de hfile
      have hch' : (w.files (w.channels cp).f).deChanged = true := (congrArg FileInfo.deChanged hfile).symm.trans hch
      have haddr' : (books w).fileAddr (w.channels cp).f = (books v).nodeAddr k := he.parentHome
      refine he.flushed.files.pending he.flushed.geo ⟨_, he.file_mem.2, hch', by rw [haddr']; exact h0, ?_⟩
      rw [haddr', haddr, ← hde]
      exact hi
  · rcases hwritten with hbyte | ⟨-, h0, -, hbyte⟩
    · exact congrFun hbyte q
    · rw [haddr] at h0
      rw [hbyte, haddr]
      rcases overlay_cases ((books v).nodeAddr k) (z.files (w.channels cp).f).de z.byte q with hsame | ⟨i, hi, hqi, -⟩
      · exact hsame
      · exact absurd hqi (hq h0 i hi)

end Empty

section Runs

variable {α : Type} {cs : List ℕ} {y : Volume} {e : Errno}

theorem run_orClose_ok {z : FatM α} {b : α} (h : z.run v = (.ok b, w)) : (orClose cs z).run v = (.ok b, w) := by
  rw [orClose, run_bind_ok (run_attempt_ok h)]
  rfl

theorem run_orClose_error {z : FatM α} (h : z.run v = (.error e, w)) (hc : (closeAll cs).run w = (.ok (), y)) :
    (orClose cs z).run v = (.error e, y) := by
  rw [orClose, run_bind_ok (run_attempt_error h)]
  exact run_bind_ok hc

theorem Removable.run_enter {cp c : ℕ} {u w : Volume} (h : Removable G hd hf v d k)
    (hrun : (fatOpen k (oWronly ||| oDirectory)).run v = (.ok cp, u)) (hrun' : (fatOpen d 0).run u = (.ok c, w)) :
    (fatRmdir d).run v = ((orClose [cp, c] do
      removeCheck c true
      deleteLink cp d
      Prog.update fun v => v.markUnlinked (v.channels c).f d
      fatClose c) >>= fun _ => fatClose cp).run w := by
  rw [fatRmdir, fatRemove, run_bind_state, h.parent]
  dsimp only
  rw [run_bind_ok hrun, run_bind_ok (run_orClose_ok hrun')]

theorem Removable.run_error {cp c : ℕ} (h : Removable G hd hf v d k) (he : Entered G hd hf v d k cp c w)
    (hx : Still G w x) (hcheck : (removeCheck c true).run w = (.error e, x)) :
    ∃ t, ((orClose [cp, c] do
      removeCheck c true
      deleteLink cp d
      Prog.update fun v => v.markUnlinked (v.channels c).f d
      fatClose c) >>= fun _ => fatClose cp).run w = (.error e, t) ∧ Tidy G t ∧ Flushed v t := by
  have hcounts : Counts hd hf [] x := by
    have hkeep := Neutral.skeleton (Neutral.removeCheck c true) w
    rw [hcheck] at hkeep
    have hskel : skeleton x = skeleton w := hkeep
    rw [Counts, hskel]
    exact he.counts
  have hlive : ∀ j, j = cp ∨ j = c → (x.channels j).magic = true ∧ (x.channels j).references = 1 := by
    rintro j (rfl | rfl)
    · have hinfo := (hx.channel j).trans he.parentInfo
      exact ⟨congrArg ChannelInfo.magic hinfo, congrArg ChannelInfo.references hinfo⟩
    · have hinfo := (hx.channel j).trans he.info
      exact ⟨congrArg ChannelInfo.magic hinfo, congrArg ChannelInfo.references hinfo⟩
  obtain ⟨t, hclose, ht, hflush⟩ := closeBoth_run (hx.tidy he.tidy.order) h.settled.goneFiles hcounts he.ne
    (by rw [hx.channelsOpen]; exact he.mem) hlive
  exact ⟨t, run_bind_error (run_orClose_error (run_bind_error hcheck) hclose), ht, (he.flushed.trans hx.flushed).trans hflush⟩

theorem Removable.run_ok {cp c : ℕ} (h : Removable G hd hf v d k) (hno : ¬Occupied (G.slot v ((books v).nodeAddr d)) 2)
    (he : Entered G hd hf v d k cp c w) (hx : Still G w x) (hcheck : (removeCheck c true).run w = (.ok (), x)) :
    ∃ t, ((orClose [cp, c] do
      removeCheck c true
      deleteLink cp d
      Prog.update fun v => v.markUnlinked (v.channels c).f d
      fatClose c) >>= fun _ => fatClose cp).run w = (.ok (), t) ∧ Removed G v d k t := by
  obtain ⟨y, hlink, hdel, hfree, hsame⟩ := h.delete hno he hx
  have hb : books y = books w := hdel.books.trans hx.books
  have hcounts : Counts hd hf [] y := by
    have hkeep := Neutral.skeleton (Neutral.removeCheck c true) w
    rw [hcheck] at hkeep
    have hkeep' := Neutral.skeleton (Neutral.deleteLink cp d) x
    rw [hlink] at hkeep'
    have hskel : skeleton y = skeleton w := hkeep'.trans hkeep
    rw [Counts, hskel]
    exact he.counts
  have hat := h.parentOk.2.2
  have hslot := hfree _ (Nat.sub_le _ _) (Nat.le_refl _) _ hat
  obtain ⟨z, hclose, hzt, hz, hzc⟩ := h.dispose hno he hdel.tidy hb hcounts hslot
  obtain ⟨t, hlast, htt, hpend, hout⟩ := h.leave hno he hb hzt hz hzc
  have hyf : (y.channels c).f = (w.channels c).f := congrArg ChannelInfo.f (congrFun (congrArg Books.channel hb) c)
  have hgeo : (y.markUnlinked (w.channels c).f d).geo = v.geo := (congrArg Books.geo hb).trans he.flushed.geo
  have hg := h.tidy.sound.geo
  have hroot : ∀ q, v.geo.rootSector * v.geo.bytesPerSector ≤ q → z.byte q = y.byte q := fun q hq =>
    hz.outside q (by rw [hgeo]; exact hq)
  refine ⟨t, ?_, ⟨_, htt⟩, fun n hlo hhi q hq => ?_, fun i hi n hn => ?_, fun q hq hnot => ?_⟩
  · have hbody : (do
        removeCheck c true
        deleteLink cp d
        Prog.update fun v => v.markUnlinked (v.channels c).f d
        fatClose c : FatM Unit).run w = (.ok (), z) := by
      rw [run_bind_ok hcheck, run_bind_ok hlink, run_bind_update, hyf]
      exact hclose
    rw [run_bind_ok (run_orClose_ok hbody)]
    exact hlast
  · rw [hout q fun h0 i hi he => ?_, hroot q (hg.posAddr_le hq), hfree n hlo hhi q hq]
    obtain ⟨rfl⟩ : q = (books v).nodeAddr k := by
      have h1 := hg.posAddr_dvd hq (Nat.dvd_mul_left _ _)
      have h2 := h.tidy.order.entries.aligned hg h.parentOk.1
      omega
    exact h.not_within hno hlo hhi hq h0
  · have hentry := hz.entry i (by rw [hgeo]; exact hi) n (by rw [hgeo]; exact hn)
    rw [hgeo] at hentry
    have hlow : fatEntry v.geo t.byte i n = fatEntry v.geo z.byte i n := by
      refine fatEntry_outside hg hi hn fun q hq => hout q fun h0 j _ hqj => ?_
      obtain ⟨b, -, -, pos, -, hb⟩ := h.tidy.order.entries.inside _ h.parentOk.1 h0
      have hle := hg.posAddr_le hb
      omega
    have hlow' : fatEntry v.geo y.byte i n = fatEntry v.geo v.byte i n := by
      refine fatEntry_outside hg hi hn fun q hq => hsame q fun j _ _ hat' => ?_
      exact absurd hq (Nat.not_lt_of_le (hg.posAddr_le hat'))
    rw [hlow, hentry]
    split
    · rfl
    · exact hlow'
  · rcases hpend q with hq' | hq'
    · left
      rw [hq', hroot q hq, hsame q hnot]
    · exact .inr hq'

end Runs

end Rmdir

end FreeDos32.Fat
