import FreeDos32.Fat.RefsOps

namespace FreeDos32.Fat

open Prog

structure Shrinks (v w : Volume) : Prop where
  nextId : w.nextId = v.nextId
  slab : ∀ d ∈ w.dentriesSlab, d ∈ v.dentriesSlab
  files : ∀ f ∈ w.filesOpen, f ∈ v.filesOpen
  channels : ∀ c ∈ w.channelsOpen, c ∈ v.channelsOpen
  parent : ∀ d, (w.dentries d).parent = (v.dentries d).parent

instance : Std.Refl Shrinks := ⟨fun _ => ⟨rfl, fun _ h => h, fun _ h => h, fun _ h => h, fun _ => rfl⟩⟩

instance : IsTrans Volume Shrinks := ⟨fun _ _ _ h h' =>
  ⟨h'.1.trans h.1, fun d hd => h.2 d (h'.2 d hd), fun f hf => h.3 f (h'.3 f hf), fun c hc => h.4 c (h'.4 c hc),
    fun d => (h'.5 d).trans (h.5 d)⟩⟩

structure KeepsParents (v w : Volume) : Prop where
  nextId : v.nextId ≤ w.nextId
  parent : ∀ d < v.nextId, (w.dentries d).parent = (v.dentries d).parent

instance : Std.Refl KeepsParents := ⟨fun _ => ⟨Nat.le_refl _, fun _ _ => rfl⟩⟩

instance : IsTrans Volume KeepsParents := ⟨fun _ _ _ h h' =>
  ⟨Nat.le_trans h.1 h'.1, fun d hd => (h'.2 d (Nat.lt_of_lt_of_le hd h.1)).trans (h.2 d hd)⟩⟩

variable {hd hf : ℕ → ℕ} {pins : List (ℕ × ℕ)} {v w : Volume} {d p f c : ℕ} {α : Type}

theorem Shrinks.keepsParents (h : Shrinks v w) : KeepsParents v w := ⟨Nat.le_of_eq h.nextId.symm, fun d _ => h.parent d⟩

theorem Shrinks.unused {k : ℕ} (h : Shrinks v w) (hk : Unused k v) : Unused k w := by
  obtain ⟨hlt, hn, hf, hc⟩ := hk
  refine ⟨h.nextId.symm ▸ hlt, fun hm => hn ?_, fun hm => hf (h.files k hm), fun hm => hc (h.channels k hm)⟩
  rcases List.mem_cons.mp hm with he | hm
  · exact he ▸ List.mem_cons_self
  · exact List.mem_cons_of_mem _ (h.slab k hm)

theorem Shrinks.of_keeps {x : FatM α} (hx : Keeps skeleton x) : Steps Shrinks x := by
  refine .of_keeps hx fun v w h => ?_
  have hslab : w.dentriesSlab = v.dentriesSlab := congrArg Skeleton.dentriesSlab h
  have hfiles : w.filesOpen = v.filesOpen := congrArg Skeleton.filesOpen h
  have hchannels : w.channelsOpen = v.channelsOpen := congrArg Skeleton.channelsOpen h
  exact ⟨congrArg Skeleton.nextId h, fun _ hm => hslab ▸ hm, fun _ hm => hfiles ▸ hm, fun _ hm => hchannels ▸ hm,
    fun d => congrFun (congrArg Skeleton.parent h) d⟩

theorem Neutral.shrinks {x : FatM α} (hx : Neutral x) : Steps Shrinks x := Shrinks.of_keeps hx.skeleton

theorem parent_dget (d k : ℕ) (v : Volume) : ((dget d v).dentries k).parent = (v.dentries k).parent := by
  by_cases hk : k = d <;> simp [dget, Volume.setDentry, hk]

theorem parent_dput (d k : ℕ) (v : Volume) : ((dput d v).dentries k).parent = (v.dentries k).parent := by
  by_cases hk : k = d <;> simp [dput, Volume.setDentry, hk]

theorem parent_freeDentry (d p k : ℕ) (v : Volume) :
    ((freeDentry d p v).dentries k).parent = (v.dentries k).parent := by
  by_cases hk : k = p <;> simp [freeDentry, Volume.setDentry, hk]

theorem dputLoop_shrinks (fuel d : ℕ) : Steps Shrinks (dputLoop fuel d) := by
  induction fuel generalizing d with
  | zero => exact .diverge
  | succ fuel ih =>
    refine .bind (.update fun v => ⟨rfl, fun _ h => h, fun _ h => h, fun _ h => h, fun k => parent_dput d k v⟩)
      fun _ => .bind .state fun v => .ite (.pure _) ?_
    cases (v.dentries d).parent with
    | none => exact .pure _
    | some p =>
      exact .bind (.update fun v => ⟨rfl, fun _ h => List.mem_of_mem_erase h, fun _ h => h, fun _ h => h,
        fun k => parent_freeDentry d p k v⟩) fun _ => ih p

theorem fatDput_shrinks (d : ℕ) : Steps Shrinks (fatDput d) := .bind .state fun _ => dputLoop_shrinks _ _

theorem filePut_shrinks (f : ℕ) : Steps Shrinks (filePut f) := by
  refine .bind (.update fun v => ⟨rfl, fun _ h => h, fun _ h => h, fun _ h => h, fun _ => rfl⟩) fun _ =>
    .update fun v => ?_
  split
  · exact ⟨rfl, fun _ h => h, fun _ h => List.mem_of_mem_erase h, fun _ h => h, fun _ => rfl⟩
  · exact ⟨rfl, fun _ h => h, fun _ h => h, fun _ h => h, fun _ => rfl⟩

theorem channelPut_shrinks (c : ℕ) : Steps Shrinks (channelPut c) := by
  refine .bind .state fun v => .bind ?_ fun _ => .bind (filePut_shrinks _) fun _ => .update fun v =>
    ⟨rfl, fun _ h => h, fun _ h => h, fun _ h => List.mem_of_mem_erase h, fun _ => rfl⟩
  cases (v.channels c).dentry with
  | none => exact .pure _
  | some d => exact fatDput_shrinks d

theorem fatClose_shrinks (c : ℕ) : Steps Shrinks (fatClose c) := by
  refine .bind .state fun v => .ite (.fail _) (.bind (.update fun v => ?_) fun _ => .bind (.attempt ?_) fun _ =>
    .bind (.when (channelPut_shrinks c)) fun _ => .ofExcept _)
  · exact ⟨rfl, fun _ h => h, fun _ h => h, fun _ h => h, fun _ => rfl⟩
  · exact Neutral.shrinks (.bind (.when (Neutral.fatDeleteClusters _)) fun _ => Neutral.fatFsync _ _)

theorem closeAll_shrinks (cs : List ℕ) : Steps Shrinks (closeAll cs) := by
  induction cs with
  | nil => exact .pure _
  | cons c cs ih => exact .bind (.attempt (fatClose_shrinks c)) fun _ => ih

theorem Steps.keepsParents {x : FatM α} (hx : Steps Shrinks x) : Steps KeepsParents x :=
  fun v => (hx v).keepsParents

theorem fatDget_keepsParents (d : ℕ) : Steps KeepsParents (fatDget d) :=
  .update fun v => ⟨Nat.le_refl _, fun k _ => parent_dget d k v⟩

theorem fileGet_keepsParents (de : Direntry) (sector secofs : ℕ) : Steps KeepsParents (fileGet de sector secofs) :=
  .bind .state fun _ => .bind (.when (.update fun _ => ⟨Nat.le_succ _, fun _ _ => rfl⟩)) fun _ =>
    .bind (.update fun _ => ⟨Nat.le_refl _, fun _ _ => rfl⟩) fun _ => .pure _

theorem slabmemAlloc_keepsParents : Steps KeepsParents slabmemAlloc :=
  .bind .state fun _ => .bind (.update fun _ => ⟨Nat.le_refl _, fun _ _ => rfl⟩) fun _ => .ite (.pure _)
    (.bind (.update fun _ => ⟨Nat.le_succ _, fun _ _ => rfl⟩) fun _ => .pure _)

theorem channelGet_keepsParents (f flags : ℕ) (d : Option ℕ) : Steps KeepsParents (channelGet f d flags) := by
  refine .bind slabmemAlloc_keepsParents fun r => ?_
  cases r with
  | none => exact .pure _
  | some c =>
    refine .bind (.update fun _ => ⟨Nat.le_refl _, fun _ _ => rfl⟩) fun _ => .bind ?_ fun _ => .pure _
    cases d with
    | none => exact .pure _
    | some d => exact fatDget_keepsParents d

theorem fatOpen_keepsParents (d flags : ℕ) : Steps KeepsParents (fatOpen d flags) := by
  refine .bind .state fun v => ?_
  cases (v.dentries d).denies flags with
  | some e => exact .fail _
  | none =>
    refine .bind (Steps.keepsParents (Neutral.fetchDirentry d).shrinks) fun _ =>
      .bind (fileGet_keepsParents _ _ _) fun _ => .bind (channelGet_keepsParents _ _ _) fun r => ?_
    cases r with
    | some c => exact .pure _
    | none => exact .bind (Steps.keepsParents (filePut_shrinks _)) fun _ => .fail _

theorem orClose_keepsParents (cs : List ℕ) {x : FatM α} (hx : Steps KeepsParents x) :
    Steps KeepsParents (orClose cs x) := by
  refine .bind (.attempt hx) fun r => ?_
  cases r with
  | ok a => exact .pure _
  | error e => exact .bind (Steps.keepsParents (closeAll_shrinks cs)) fun _ => .fail _

theorem parent_dentryInit {k : ℕ} (hk : k ≠ d) (p entcnt sector lfn : ℕ) (a : UInt8) (v : Volume) :
    ((dentryInit d p entcnt sector a lfn v).dentries k).parent = (v.dentries k).parent := by
  by_cases hkp : k = p
  · subst hkp
    simp [dentryInit, dget, Volume.setDentry, hk]
  · simp [dentryInit, dget, Volume.setDentry, hk, hkp]

theorem dentryGet_keepsParents (p entcnt sector lfn : ℕ) (a : UInt8) :
    Steps KeepsParents (dentryGet p entcnt sector a lfn) := by
  intro v
  rw [dentryGet, run_bind_state]
  cases (v.dentries p).children.find? fun k => entcnt == (v.dentries k).deEntcnt with
  | some d => exact ⟨Nat.le_refl _, fun k _ => parent_dget d k v⟩
  | none =>
    -- the node is new, so the nodes there were are others
    have halloc := run_slabmemAlloc v
    split at halloc
    · simp only [run_bind_ok halloc, run_pure]
      exact ⟨Nat.le_refl _, fun _ _ => rfl⟩
    · simp only [run_bind_ok halloc, run_bind_update, fatDget, run_pure]
      refine ⟨Nat.le_succ _, fun k hk => (parent_dget _ k _).trans ?_⟩
      exact parent_dentryInit (Nat.ne_of_lt hk) p entcnt sector lfn a _

theorem lookupFound_keepsParents (d : ℕ) : Steps KeepsParents (lookupFound d) := by
  refine .bind .state fun v => .bind (dentryGet_keepsParents _ _ _ _ _) fun r => ?_
  cases r with
  | none => exact .fail _
  | some d' => exact .bind (Steps.keepsParents (fatDput_shrinks d)) fun _ => .pure _

theorem lookupName_keepsParents (c d : ℕ) (fn : List UInt8) : Steps KeepsParents (lookupName c d fn) := by
  refine .bind .state fun v =>
    .bind (.attempt (Steps.keepsParents (Neutral.lookupLoop c fn v.geo.loopBound).shrinks)) fun r => ?_
  cases r with
  | ok _ => exact lookupFound_keepsParents d
  | error e => exact .fail _

theorem fatLookup_keepsParents (d : ℕ) (fn : List UInt8) : Steps KeepsParents (fatLookup d fn) := by
  refine .bind .state fun v => .ite (.ite (.pure _) (.fail _)) (.ite ?_ (.bind (fatOpen_keepsParents _ _) fun c =>
    .bind (.attempt (lookupName_keepsParents c d fn)) fun r =>
      .bind (.attempt (Steps.keepsParents (fatClose_shrinks c))) fun _ => .ofExcept r))
  cases (v.dentries d).parent with
  | none => exact .pure _
  | some p =>
    exact .bind (fatDget_keepsParents p) fun _ => .bind (Steps.keepsParents (fatDput_shrinks d)) fun _ => .pure _

theorem fatOpen_counts_unpinned (d flags : ℕ) : Triple (fun v => Counts hd hf pins v ∧ HasNode d v)
    (fatOpen d flags) (fun c v => Counts hd hf pins v ∧ ∀ q ∈ pins, q.1 ≠ c) (fun _ => Counts hd hf pins) :=
  (fatOpen_counts d flags).conseq (fun _ h => h)
    (fun _ _ h => ⟨h.1.unpin fun _ hq => List.mem_cons_of_mem _ hq, h.2⟩) fun _ _ h => h

theorem closeAll_counts {cs : List ℕ} (hp : ∀ c ∈ cs, ∀ q ∈ pins, q.1 ≠ c) :
    Triple (Counts hd hf pins) (closeAll cs) (fun _ => Counts hd hf pins) (fun _ _ => False) := by
  induction cs with
  | nil => exact .pure fun _ h => h
  | cons c cs ih =>
    exact .bind (R := fun _ => Counts hd hf pins) (.attempt (fatClose_counts (hp c List.mem_cons_self))) fun _ =>
      ih fun k hk => hp k (List.mem_cons_of_mem _ hk)

theorem orClose_counts {cs : List ℕ} {x : FatM α} {P : Volume → Prop} {Q : α → Volume → Prop}
    (hp : ∀ c ∈ cs, ∀ q ∈ pins, q.1 ≠ c) (hx : Triple P x Q fun _ => Counts hd hf pins) :
    Triple P (orClose cs x) Q fun _ => Counts hd hf pins := by
  refine .attempt_bind hx (fun a => ?_) fun e => ?_
  · exact .pure fun _ h => h
  · exact .bind ((closeAll_counts hp).conseq (fun _ h => h) (fun _ _ h => h) fun _ _ h => h.elim) fun _ =>
      .fail fun _ h => h

theorem Counts.parent_mem (h : Counts hd hf pins v) (hn : HasNode d v) (hp : (v.dentries d).parent = some p) :
    HasNode p v := by
  rcases List.mem_cons.mp hn with rfl | hm
  · have hroot : (v.dentries rootDentry).parent = none := Skeleton.Counted.rootParent h
    simp [hroot] at hp
  · obtain ⟨q, hq, hdq, -⟩ := Skeleton.Counted.parent h d hm
    have : some q = some p := hdq.symm.trans hp
    cases this
    exact hq

theorem dentryGet_counts (p entcnt sector lfn : ℕ) (a : UInt8) :
    Triple (fun v => Counts hd hf pins v ∧ HasNode p v) (dentryGet p entcnt sector a lfn)
      (fun r v => match r with
        | none => Counts hd hf pins v
        | some d => Counts (hold d hd) hf pins v) (fun _ _ => False) := by
  rintro v ⟨hv, hn⟩
  have hv' : (skeleton v).Counted hd hf pins := hv
  rw [dentryGet, run_bind_state]
  cases hfind : (v.dentries p).children.find? fun k => entcnt == (v.dentries k).deEntcnt with
  | some d =>
    have hm : d ∈ (skeleton v).children p := List.mem_of_find?_eq_some hfind
    have hd' : d ∈ (skeleton v).nodes := List.mem_cons_of_mem _ ((hv'.children p hn).2 d hm).1
    change (skeleton (dget d v)).Counted _ _ _
    rw [skeleton_dget]
    exact hv'.addRef hd'
  | none =>
    have halloc := run_slabmemAlloc v
    split at halloc
    · simp only [run_bind_ok halloc, run_pure]
      exact hv
    · simp only [run_bind_ok halloc, run_bind_update, fatDget, run_pure]
      have hfresh : v.nextId ∉ (skeleton v).nodes := fun hm => Nat.lt_irrefl _ (hv'.freshNode _ hm)
      have hp : p ≠ v.nextId := fun he => hfresh (he ▸ hn)
      change (skeleton (dget _ _)).Counted _ _ _
      rw [skeleton_dget, skeleton_dentryInit hp]
      exact (hv'.nextId (Nat.le_succ _)).newNode hn hfresh (Nat.lt_succ_self _) a

theorem lookupFound_counts (dentry : ℕ) : Triple (Counts (hold dentry hd) hf pins) (lookupFound dentry)
    (fun d => Counts (hold d hd) hf pins) (fun _ => Counts (hold dentry hd) hf pins) := by
  refine .bind (R := fun _ => Counts (hold dentry hd) hf pins) (.state fun _ h => h) fun u => ?_
  refine .bind ((dentryGet_counts _ _ _ _ _).conseq (fun _ h => ⟨h, h.hasNode⟩) (fun _ _ h => h)
    fun _ _ h => h.elim) fun r => ?_
  cases r with
  | none => exact .fail fun _ h => h
  | some d =>
    refine .bind (R := fun _ => Counts (hold d hd) hf pins) ?_ fun _ => .pure fun _ h => h
    refine (fatDput_counts (d := dentry)).conseq (fun v h => ?_) (fun _ _ h => h) fun _ _ h => h.elim
    rw [hold_comm]
    exact h

theorem lookupName_counts (c dentry : ℕ) (fn : List UInt8) :
    Triple (Counts (hold dentry hd) hf pins) (lookupName c dentry fn)
      (fun d => Counts (hold d hd) hf pins) (fun _ => Counts (hold dentry hd) hf pins) := by
  refine .bind (R := fun _ => Counts (hold dentry hd) hf pins) (.state fun _ h => h) fun v =>
    .bind (R := fun _ => Counts (hold dentry hd) hf pins)
      (.attempt (Neutral.lookupLoop c fn v.geo.loopBound).counts) fun r => ?_
  cases r with
  | ok _ => exact lookupFound_counts dentry
  | error e => exact .fail fun _ h => h

/-- `fat_lookup` takes the caller's reference to the directory in exchange for one to the node that it
finds, and only then. -/
theorem fatLookup_counts (dentry : ℕ) (fn : List UInt8) :
    Triple (Counts (hold dentry hd) hf pins) (fatLookup dentry fn)
      (fun d => Counts (hold d hd) hf pins) (fun _ => Counts (hold dentry hd) hf pins) := by
  refine .bind_state fun u hu => .ite (fun _ => .ite (fun _ => .pure fun _ h => h.2) fun _ => .fail fun _ h => h.2)
    fun _ => .ite (fun _ => ?_) fun _ => ?_
  · cases hp : (u.dentries dentry).parent with
    | none => exact .pure fun _ h => h.2
    | some p =>
      have hn := hu.parent_mem hu.hasNode hp
      refine .bind (R := fun _ => Counts (hold p (hold dentry hd)) hf pins)
        (fatDget_counts.conseq (fun v h => ⟨h.2, h.1 ▸ hn⟩) (fun _ _ h => h) fun _ _ h => h.elim) fun _ => ?_
      refine .bind (R := fun _ => Counts (hold p hd) hf pins) ?_ fun _ => .pure fun _ h => h
      refine (fatDput_counts (d := dentry)).conseq (fun v h => ?_) (fun _ _ h => h) fun _ _ h => h.elim
      rwa [hold_comm] at h
  · refine .bind ((fatOpen_counts_unpinned dentry (oRdonly ||| oDirectory)).conseq
      (fun _ h => ⟨h.2, h.2.hasNode⟩) (fun _ _ h => h) fun _ _ h => h) fun c => ?_
    refine fun w hw => ?_
    refine Triple.attempt_bind (Q := fun d => Counts (hold d hd) hf pins)
      (E := fun _ => Counts (hold dentry hd) hf pins) (lookupName_counts c dentry fn) (fun d => ?_) (fun e => ?_) w hw.1
    · exact .bind (R := fun _ => Counts (hold d hd) hf pins) (.attempt (fatClose_counts hw.2)) fun _ =>
        .pure fun _ h => h
    · exact .bind (R := fun _ => Counts (hold dentry hd) hf pins) (.attempt (fatClose_counts hw.2)) fun _ =>
        .fail fun _ h => h

end FreeDos32.Fat
