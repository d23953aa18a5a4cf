import FreeDos32.Fat.RefsDirs
import FreeDos32.Fat.Requests

namespace FreeDos32.Fat

open Prog

/-- Each count is the number of the references there are. -/
structure RefsOk (v : Volume) : Prop where
  dentry : ∀ d ∈ rootDentry :: v.dentriesSlab, (v.dentries d).references =
    v.channelsOpen.countP (fun c => (v.channels c).dentry == some d) + (v.dentries d).children.length +
      if d = rootDentry then 1 else 0
  num : v.numDentries = ((rootDentry :: v.dentriesSlab).map fun d => (v.dentries d).references).sum
  file : ∀ f ∈ v.filesOpen, (v.files f).references = v.channelsOpen.countP fun c => (v.channels c).f == f

/-- A mounted volume on which nothing is open yet. -/
structure NothingOpen (v : Volume) : Prop where
  slab : v.dentriesSlab = []
  root : (v.dentries rootDentry).parent = none ∧ (v.dentries rootDentry).children = [] ∧
    (v.dentries rootDentry).references = 1
  num : v.numDentries = 1
  files : v.filesOpen = []
  channels : v.channelsOpen = []
  magic : ∀ c, (v.channels c).magic = false
  nextId : 0 < v.nextId

/-- The counts when no call is under way. -/
abbrev Settled (v : Volume) : Prop := Counts (fun _ => 0) (fun _ => 0) [] v

variable {hd hf : ℕ → ℕ} {pins : List (ℕ × ℕ)} {v v₀ : Volume} {d : ℕ} {α : Type}

theorem NothingOpen.settled (h : NothingOpen v) : Settled v := by
  obtain ⟨hslab, ⟨hparent, hchildren, hrefs⟩, hnum, hfiles, hchannels, hmagic, hid⟩ := h
  have hnodes : (skeleton v).nodes = [rootDentry] := by simp [Skeleton.nodes, skeleton, hslab]
  constructor
  case slab => rw [hnodes]; simp
  case rootParent => exact hparent
  case parent => simp [skeleton, hslab]
  case children => rw [hnodes]; simp [skeleton, hchildren]
  case held => simp
  case dentryRefs => rw [hnodes]; simp [skeleton, Skeleton.users, hchannels, hchildren, hrefs]
  case dentryPos => rw [hnodes]; simp [skeleton, hrefs]
  case num => rw [hnodes]; simp [skeleton, hrefs, hnum]
  case channels => simp [skeleton, hchannels]
  case closed => exact fun c _ => hmagic c
  case channelFile => simp [skeleton, hchannels]
  case channelDentry => simp [skeleton, hchannels]
  case channelNode => simp [skeleton, hchannels]
  case files => simp [skeleton, hfiles]
  case heldFile => simp
  case fileRefs => simp [skeleton, hfiles]
  case filePos => simp [skeleton, hfiles]
  case freshNode => rw [hnodes]; simpa [skeleton, rootDentry] using hid
  case freshFile => simp [skeleton, hfiles]
  case freshChannel => simp [skeleton, hchannels]
  case pinned => simp

theorem Settled.refsOk (h : Settled v) : RefsOk v := by
  have h' : (skeleton v).Counted _ _ _ := h
  exact ⟨fun d hd => h'.dentryRefs d hd, h'.num, fun f hf => h'.fileRefs f hf⟩

theorem resolveLoop_counts (fuel dentry : ℕ) (pn : List UInt8) :
    Triple (Counts (hold dentry hd) hf pins) (resolveLoop fuel dentry pn)
      (fun r => Counts (hold r.1 hd) hf pins) (fun _ _ => False) := by
  induction fuel generalizing dentry pn with
  | zero => exact .pure fun _ h => h
  | succ fuel ih =>
    refine .ite (fun _ => .pure fun _ h => h) fun _ => ?_
    refine .attempt_bind (fatLookup_counts _ _) (fun d => ?_) fun e => ?_
    · exact ih d _
    · exact .pure fun _ h => h

theorem resolvePath_counts (dentry : ℕ) (pn : List UInt8) :
    Triple (Counts (hold dentry hd) hf pins) (resolvePath dentry pn)
      (fun r => Counts (hold r.1 hd) hf pins) (fun _ _ => False) := resolveLoop_counts _ _ _

theorem dget_counts (h : Counts hd hf pins v) (hn : HasNode d v) : Counts (hold d hd) hf pins (dget d v) := by
  change (skeleton _).Counted _ _ _
  rw [skeleton_dget]
  exact Skeleton.Counted.addRef h hn

theorem thenDput_counts {P : Volume → Prop} {x : FatM α} (hx : Triple P x (fun _ => Counts (hold d hd) hf [])
    fun _ => Counts (hold d hd) hf []) :
    Triple P (thenDput d x) (fun _ => Counts hd hf []) fun _ => Counts hd hf [] :=
  .bind (R := fun _ => Counts (hold d hd) hf []) (.attempt hx) fun _ =>
    .bind (R := fun _ => Counts hd hf []) (fatDput_counts.conseq (fun _ h => h) (fun _ _ h => h) fun _ _ h => h.elim)
      fun _ => .ofExcept (fun _ _ _ h => h) fun _ _ _ h => h

theorem openFound_counts (dentry flags : ℕ) : Triple (Counts (hold dentry hd) hf []) (openFound dentry flags)
    (fun _ => Counts (hold dentry hd) hf []) (fun _ => Counts (hold dentry hd) hf []) :=
  .ite (fun _ => .fail fun _ h => h) fun _ =>
    .bind (R := fun _ => Counts (hold dentry hd) hf []) ((fatOpen_counts_unpinned _ _).conseq
      (fun _ h => ⟨h, h.hasNode⟩) (fun _ _ h => h.1) fun _ _ h => h) fun _ =>
      .ite (fun _ => .bind (R := fun _ => Counts (hold dentry hd) hf [])
        (orClose_counts (by simp) (Neutral.fatFtruncate _ _).counts) fun _ => .pure fun _ h => h)
        fun _ => .pure fun _ h => h

theorem openLast_counts (dentry : ℕ) (res : Option Errno) (bn : List UInt8) (flags : ℕ) (mode : UInt8) :
    Triple (Counts (hold dentry hd) hf []) (openLast dentry res bn flags mode)
      (fun _ => Counts (hold dentry hd) hf []) (fun _ => Counts (hold dentry hd) hf []) := by
  cases res with
  | none => exact openFound_counts dentry flags
  | some e =>
    exact .ite (fun _ => .bind (R := fun _ => Counts (hold dentry hd) hf []) (fatCreate_counts _ _ _ _)
      fun _ => .pure fun _ h => h) fun _ => .fail fun _ h => h

theorem fatOpenPr_counts (dentry : ℕ) (pn : List UInt8) (flags : ℕ) (mode : UInt8) :
    Triple (fun v => Counts hd hf [] v ∧ HasNode dentry v) (fatOpenPr dentry pn flags mode)
      (fun _ => Counts hd hf []) (fun _ => Counts hd hf []) := by
  refine .ite (fun _ => .fail fun _ h => h.1) fun _ => ?_
  refine .bind (R := fun _ => Counts (hold dentry hd) hf []) (.update fun _ h => dget_counts h.1 h.2) fun _ => ?_
  refine .bind ((resolvePath_counts _ _).conseq (fun _ h => h) (fun _ _ h => h) fun _ _ h => h.elim) ?_
  rintro ⟨d, _ | e⟩
  · exact .bind ((resolvePath_counts _ _).conseq (fun _ h => h) (fun _ _ h => h) fun _ _ h => h.elim) fun r =>
      thenDput_counts (openLast_counts _ _ _ _ _)
  · exact thenDput_counts (.fail fun _ h => h)

theorem removePr_counts (dir : Bool) (dentry : ℕ) (pn : List UInt8) :
    Triple (fun v => Counts hd hf [] v ∧ HasNode dentry v) (removePr dir dentry pn)
      (fun _ => Counts hd hf []) (fun _ => Counts hd hf []) := by
  refine .ite (fun _ => .fail fun _ h => h.1) fun _ => ?_
  refine .bind (R := fun _ => Counts (hold dentry hd) hf []) (.update fun _ h => dget_counts h.1 h.2) fun _ => ?_
  refine .bind ((resolvePath_counts _ _).conseq (fun _ h => h) (fun _ _ h => h) fun _ _ h => h.elim) ?_
  rintro ⟨d, _ | e⟩
  · exact thenDput_counts (fatRemove_counts d dir)
  · exact thenDput_counts (.fail fun _ h => h)

theorem fatMkdirPr_counts (dentry : ℕ) (pn : List UInt8) (mode : UInt8) :
    Triple (fun v => Counts hd hf [] v ∧ HasNode dentry v) (fatMkdirPr dentry pn mode)
      (fun _ => Counts hd hf []) (fun _ => Counts hd hf []) := by
  refine .ite (fun _ => .fail fun _ h => h.1) fun _ => ?_
  refine .bind (R := fun _ => Counts (hold dentry hd) hf []) (.update fun _ h => dget_counts h.1 h.2) fun _ => ?_
  refine .bind ((resolvePath_counts _ _).conseq (fun _ h => h) (fun _ _ h => h) fun _ _ h => h.elim) ?_
  rintro ⟨d, _ | e⟩
  · refine .bind ((resolvePath_counts _ _).conseq (fun _ h => h) (fun _ _ h => h) fun _ _ h => h.elim) ?_
    rintro ⟨d, _ | e⟩
    · exact thenDput_counts (.fail fun _ h => h)
    · exact thenDput_counts (.ite (fun _ => fatMkdir_counts _ _ _) fun _ => .fail fun _ h => h)
  · exact thenDput_counts (.fail fun _ h => h)

/-- On the way to its nodes `fat_rename_pr` does not get to a lookup of the new name that fails with
another error than `-ENOENT`. -/
def RenamePrOk (odentry : ℕ) (on : List UInt8) (ndentry : ℕ) (nn : List UInt8) (v : Volume) : Prop :=
  After (resolvePath odentry on) (dget odentry v) fun o w => o.2 = none →
    After (resolvePath ndentry (nn.take (baseNamePos nn))) (dget ndentry w) fun n w' => n.2 = none →
      RenameLookupOk o.1 n.1 (nn.drop (baseNamePos nn)) w'

instance (odentry : ℕ) (on : List UInt8) (ndentry : ℕ) (nn : List UInt8) (v : Volume) :
    Decidable (RenamePrOk odentry on ndentry nn v) :=
  inferInstanceAs (Decidable (After _ _ _))

theorem Counts.held_pin (h : Counts hd hf [] v) (hheld : v.Held d) :
    ∃ pins, Counts hd hf pins v ∧ ∀ {gd gf w}, Counts gd gf pins w → HasNode d w := by
  rcases hheld with rfl | ⟨c, hc, hd'⟩
  · exact ⟨[], h, fun _ => List.mem_cons_self⟩
  · have hpin : Counts hd hf [(c, d)] v :=
      { (h : (skeleton v).Counted hd hf []) with pinned := by simpa using ⟨hc, hd'⟩ }
    refine ⟨_, hpin, fun hw => ?_⟩
    have hw' : (skeleton _).Counted _ _ _ := hw
    have hp := hw'.pinned _ (List.mem_singleton.mpr rfl)
    exact hw'.channelDentry c hp.1 d hp.2

theorem Counts.held_hasNode (h : Counts hd hf [] v) (hheld : v.Held d) : HasNode d v := by
  obtain ⟨pins, hp, hn⟩ := h.held_pin hheld
  exact hn hp

theorem renameTo_counts (od ndentry : ℕ) (nn : List UInt8) {u : Volume} :
    Triple (fun v => v = u ∧ Counts (hold od hd) hf [] v ∧ HasNode ndentry v ∧
      After (resolvePath ndentry (nn.take (baseNamePos nn))) (dget ndentry v) fun n w => n.2 = none →
        RenameLookupOk od n.1 (nn.drop (baseNamePos nn)) w) (renameTo od ndentry nn)
      (fun _ => Counts (hold od hd) hf []) (fun _ => Counts (hold od hd) hf []) := by
  rintro v ⟨rfl, hv, hn, hok⟩
  have hr := resolvePath_counts ndentry (nn.take (baseNamePos nn)) (dget ndentry v) (dget_counts hv hn)
  rw [renameTo, fatDget, run_bind_update, run_bind]
  rcases hrun : (resolvePath ndentry (nn.take (baseNamePos nn))).run (dget ndentry v) with
    ⟨⟨nd, _ | e⟩ | e | _, w⟩ <;> rw [hrun] at hr
  · refine thenDput_counts (P := (· = w)) (fun _ he => he ▸ ?_) w rfl
    have hheld : Counts (renameHeld od nd hd) hf [] w := by rwa [renameHeld, hold_comm]
    have hren := fatRename_counts (nn.drop (baseNamePos nn)) w ⟨hheld, hok.ok hrun rfl⟩
    rwa [renameHeld, hold_comm] at hren
  · exact thenDput_counts (.fail fun _ h => h) w hr
  · exact hr.elim
  · trivial

theorem fatRenamePr_counts (odentry : ℕ) (on : List UInt8) (ndentry : ℕ) (nn : List UInt8) :
    Triple (fun v => Counts hd hf [] v ∧ v.Held odentry ∧ v.Held ndentry ∧ RenamePrOk odentry on ndentry nn v)
      (fatRenamePr odentry on ndentry nn) (fun _ => Counts hd hf []) (fun _ => Counts hd hf []) := by
  refine .ite (fun _ => .fail fun _ h => h.1) fun _ => ?_
  rintro v ⟨hv, hod, hnd, hok⟩
  obtain ⟨pins, hpins, hnode⟩ := hv.held_pin hnd
  have hr := resolvePath_counts odentry on (dget odentry v) (dget_counts hpins (hv.held_hasNode hod))
  rw [fatDget, run_bind_update, run_bind]
  rcases hrun : (resolvePath odentry on).run (dget odentry v) with ⟨⟨od, _ | e⟩ | e | _, w⟩ <;> rw [hrun] at hr
  · refine thenDput_counts (renameTo_counts (u := w) od ndentry nn) w ?_
    exact ⟨rfl, hr.unpin (by simp), hnode hr, hok.ok hrun rfl⟩
  · exact thenDput_counts (.fail fun _ h => h) w (hr.unpin (by simp))
  · exact hr.elim
  · trivial

theorem fatAddref_counts (c : ℕ) : Triple (Counts hd hf pins) (fatAddref c) (fun _ => Counts hd hf pins)
    (fun _ => Counts hd hf pins) := by
  refine .bind_state fun u _ => .ite (fun _ => .fail fun _ h => h.2) fun _ => ?_
  exact .bind (R := fun _ => Counts hd hf pins) (.update fun v h => setChannelRefs_counts h.2 (· + 1))
    fun _ => .pure fun _ h => h

/-- A request does not get to the exit of `fat_rename` that keeps a node. -/
def Request.NoLeak (v : Volume) : Request → Prop
  | .renamePr odentry on ndentry nn => RenamePrOk odentry on ndentry nn v
  | _ => True

theorem exec_settled (r : Request) (h : Settled v) (hvalid : r.Valid v) (hok : r.NoLeak v) :
    Triple (· = v) r.exec (fun _ => Settled) (fun _ => Settled) := by
  have hvoid : ∀ {β : Type} {x : FatM β}, Triple (· = v) x (fun _ => Settled) (fun _ => Settled) →
      Triple (· = v) (do let _ ← x) (fun _ => Settled) (fun _ => Settled) :=
    fun hx => .bind hx fun _ => .pure fun _ h => h
  have hneutral : ∀ {β : Type} {x : FatM β}, Neutral x → Triple (· = v) x (fun _ => Settled) (fun _ => Settled) :=
    fun hx => hx.counts.conseq (fun _ he => he ▸ h) (fun _ _ h => h) fun _ _ h => h
  have hpath : ∀ {β : Type} {x : FatM β} {d : ℕ}, v.Held d → Triple (fun v => Settled v ∧ HasNode d v) x
      (fun _ => Settled) (fun _ => Settled) → Triple (· = v) x (fun _ => Settled) (fun _ => Settled) :=
    fun hd hx => hx.conseq (fun _ he => he ▸ ⟨h, h.held_hasNode hd⟩) (fun _ _ h => h) fun _ _ h => h
  cases r with
  | openPr d pn flags mode => exact hvoid (hpath hvalid (fatOpenPr_counts d pn flags mode))
  | unlinkPr d pn => exact hpath hvalid (removePr_counts false d pn)
  | renamePr od on nd nn =>
    exact (fatRenamePr_counts od on nd nn).conseq (fun _ he => he ▸ ⟨h, hvalid.1, hvalid.2, hok⟩)
      (fun _ _ h => h) fun _ _ h => h
  | mkdirPr d pn mode => exact hpath hvalid (fatMkdirPr_counts d pn mode)
  | rmdirPr d pn => exact hpath hvalid (removePr_counts true d pn)
  | read c size => exact hvoid (hneutral (Neutral.fatRead c size))
  | write c buffer => exact hvoid (hneutral (Neutral.fatWrite c buffer))
  | ftruncate c length => exact hvoid (hneutral (Neutral.fatFtruncate c length))
  | lseek c offset whence => exact hvoid (hneutral (Neutral.fatLseek c offset whence))
  | fsync c datasync => exact hneutral (Neutral.fatFsync c datasync)
  | addref c =>
    exact hvoid ((fatAddref_counts c).conseq (fun _ he => he ▸ h) (fun _ _ h => h) fun _ _ h => h)
  | close c =>
    exact (fatClose_counts (by simp)).conseq (fun _ he => he ▸ h) (fun _ _ h => h) fun _ _ h => h

/-- Between the requests of a run that never takes the exit of `fat_rename` that keeps a node, every count
is exact. -/
theorem run_refsOk (h₀ : NothingOpen v₀) (h : Run (fun v r => r.NoLeak v) v₀ v) : RefsOk v :=
  (h.invariant h₀.settled fun _ r hv hvalid hok => exec_settled r hv hvalid hok).refsOk

theorem emptyFloppy_nothingOpen : NothingOpen emptyFloppy where
  slab := rfl
  root := ⟨rfl, rfl, rfl⟩
  num := rfl
  files := rfl
  channels := rfl
  magic := fun _ => rfl
  nextId := by decide

theorem run_refsOk_rename : RefsOk (execAll [.openPr 0 [0x41] (oRdwr ||| oCreat) 0, .close 7,
    .renamePr 0 [0x41] 0 [0x42]] emptyFloppy) := by
  have h₀ : Run (fun v r => r.NoLeak v) emptyFloppy emptyFloppy := .start
  have h₁ := h₀.next (.openPr 0 [0x41] (oRdwr ||| oCreat) 0) (by decide) trivial (by decide +kernel)
  have h₂ := h₁.next (.close 7) (by decide +kernel) trivial (by decide +kernel)
  have hok : RenamePrOk 0 [0x41] 0 [0x42] (execAll [.openPr 0 [0x41] (oRdwr ||| oCreat) 0, .close 7] emptyFloppy) := by
    decide +kernel
  exact run_refsOk emptyFloppy_nothingOpen
    (h₂.next (.renamePr 0 [0x41] 0 [0x42]) (by decide +kernel) hok (by decide +kernel))

/-- A file renamed to a name that is no UTF-8 leaves one more reference to the root directory behind. -/
theorem refs_leak_rename : ∃ v, Run (fun _ _ => True) emptyFloppy v ∧ ¬RefsOk v := by
  let rs : List Request := [.openPr 0 [0x41] (oRdwr ||| oCreat) 0, .close 7, .renamePr 0 [0x41] 0 [0xFF]]
  refine ⟨execAll rs emptyFloppy, Run.start.execAll rs (by decide +kernel), fun h => ?_⟩
  have hroot : ((execAll rs emptyFloppy).dentries rootDentry).references = 2 := by decide +kernel
  have hone := h.dentry rootDentry List.mem_cons_self
  rw [hroot] at hone
  revert hone
  decide +kernel

end FreeDos32.Fat
