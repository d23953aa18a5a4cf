import FreeDos32.Fat.Refs

namespace FreeDos32.Fat

open Prog

def Counts (hd hf : ℕ → ℕ) (pins : List (ℕ × ℕ)) (v : Volume) : Prop := (skeleton v).Counted hd hf pins

def HasNode (d : ℕ) (v : Volume) : Prop := d ∈ (skeleton v).nodes

variable {hd hf : ℕ → ℕ} {pins : List (ℕ × ℕ)} {v : Volume} {d p f c : ℕ} {α : Type}

theorem Counts.unpin (h : Counts hd hf pins v) {pins' : List (ℕ × ℕ)} (hp : ∀ q ∈ pins', q ∈ pins) :
    Counts hd hf pins' v := Skeleton.Counted.unpin h hp

theorem Counts.hasNode (h : Counts (hold d hd) hf pins v) : HasNode d v := Skeleton.Counted.mem_held h

theorem Counts.of_keeps {x : FatM α} (hx : Keeps skeleton x) :
    Triple (Counts hd hf pins) x (fun _ => Counts hd hf pins) (fun _ => Counts hd hf pins) :=
  hx.triple (Skeleton.Counted hd hf pins)

theorem Neutral.counts {x : FatM α} (hx : Neutral x) :
    Triple (Counts hd hf pins) x (fun _ => Counts hd hf pins) (fun _ => Counts hd hf pins) :=
  Counts.of_keeps hx.skeleton

theorem skeleton_dget (d : ℕ) (v : Volume) : skeleton (dget d v) = (skeleton v).addRef d := by
  apply Skeleton.ext
  all_goals first
    | rfl
    | funext k
      by_cases hk : k = d <;> simp [skeleton, dget, Volume.setDentry, Skeleton.addRef, hold, hk]

theorem skeleton_dput (d : ℕ) (v : Volume) : skeleton (dput d v) = (skeleton v).dropRef d := by
  apply Skeleton.ext
  all_goals first
    | rfl
    | funext k
      by_cases hk : k = d <;> simp [skeleton, dput, Volume.setDentry, Skeleton.dropRef, hk]

theorem skeleton_freeDentry (d p : ℕ) (v : Volume) :
    skeleton (freeDentry d p v) = (skeleton v).dropNode d p := by
  apply Skeleton.ext
  all_goals first
    | rfl
    | funext k
      by_cases hk : k = p <;> simp [skeleton, freeDentry, Volume.setDentry, Skeleton.dropNode, hk]

theorem skeleton_freeChannel (c : ℕ) (v : Volume) : skeleton (freeChannel c v) = (skeleton v).endChannel c := by
  apply Skeleton.ext
  all_goals first
    | rfl
    | funext k
      by_cases hk : k = c <;> simp [skeleton, freeChannel, Volume.setChannel, Skeleton.endChannel, hk]

theorem skeleton_dentryInit (hpd : p ≠ d) (entcnt sector lfn : ℕ) (a : UInt8) (v : Volume) :
    skeleton (dentryInit d p entcnt sector a lfn v) = ((skeleton v).newNode d p a).addRef p := by
  apply Skeleton.ext
  all_goals first
    | rfl
    | funext k
      by_cases hkp : k = p
      · simp [skeleton, dentryInit, dget, Volume.setDentry, Skeleton.newNode, Skeleton.addRef, hold, hkp, hpd]
      · by_cases hkd : k = d <;>
          simp [skeleton, dentryInit, dget, Volume.setDentry, Skeleton.newNode, Skeleton.addRef, hold, hkd, hkp,
            hpd.symm]

theorem skeleton_fileInit (f : ℕ) (de : Direntry) (sector secofs : ℕ) (v : Volume) :
    skeleton (fileInit f de sector secofs v) = (skeleton v).newFile f := by
  apply Skeleton.ext
  all_goals first
    | rfl
    | funext k
      by_cases hk : k = f <;> simp [skeleton, fileInit, Volume.setFile, Skeleton.newFile, hk]

theorem skeleton_addFileRef (f : ℕ) (v : Volume) :
    skeleton (v.setFile f fun x => { x with references := x.references + 1 }) = (skeleton v).addFileRef f := by
  apply Skeleton.ext
  all_goals first
    | rfl
    | funext k
      by_cases hk : k = f <;> simp [skeleton, Volume.setFile, Skeleton.addFileRef, hold, hk]

theorem skeleton_channelInit (c f : ℕ) (d : Option ℕ) (flags : ℕ) (v : Volume) :
    skeleton (channelInit c f d flags v) = (skeleton v).newChannel c f d flags := by
  apply Skeleton.ext
  all_goals first
    | rfl
    | funext k
      by_cases hk : k = c <;> simp [skeleton, channelInit, Volume.setChannel, Skeleton.newChannel, hk]

theorem skeleton_filePut (f : ℕ) (v : Volume) :
    skeleton (((filePut f).run v).2) = (skeleton v).dropFileRef f := by
  simp only [filePut, run_bind_update, run_update, Volume.setFile, if_true]
  by_cases hr : (v.files f).references - 1 = 0 <;> simp only [hr, if_true, if_false]
  all_goals
    apply Skeleton.ext
    all_goals first
      | rfl
      | funext k
        by_cases hk : k = f <;> simp [skeleton, Skeleton.dropFileRef, hk]
      | simp [skeleton, Skeleton.dropFileRef, hr]

theorem fatDget_counts : Triple (fun v => Counts hd hf pins v ∧ HasNode d v) (fatDget d)
    (fun _ => Counts (hold d hd) hf pins) (fun _ _ => False) := by
  refine .update fun v hv => ?_
  change (skeleton (dget d v)).Counted _ _ _
  rw [skeleton_dget]
  exact Skeleton.Counted.addRef hv.1 hv.2

theorem dputLoop_counts {fuel : ℕ} (h : Counts (hold d hd) hf pins v) (hfuel : v.dentriesSlab.length < fuel) :
    ∃ w, (dputLoop fuel d).run v = (.ok (), w) ∧ Counts hd hf pins w := by
  induction fuel generalizing d v with
  | zero => omega
  | succ fuel ih =>
    have hpos : 0 < (v.dentries d).references := Skeleton.Counted.dentryPos h d h.hasNode
    have hself : ((dput d v).dentries d).references = (v.dentries d).references - 1 := by simp [dput]
    have hparent : ((dput d v).dentries d).parent = (v.dentries d).parent := by simp [dput]
    rw [dputLoop, run_bind_update, run_bind_state, hself, hparent]
    by_cases hr : (v.dentries d).references = 1
    · obtain ⟨p, hp, hc⟩ := Skeleton.Counted.dropNode h hr
      rw [← skeleton_dput, ← skeleton_freeDentry] at hc
      have hp' : (v.dentries d).parent = some p := hp
      obtain ⟨hroot, -⟩ := Skeleton.Counted.last_ref h hr
      have hm : d ∈ v.dentriesSlab := Skeleton.Counted.mem_slab h.hasNode hroot
      rw [if_neg (by omega), hp']
      refine ih hc ?_
      change (v.dentriesSlab.erase d).length < fuel
      rw [List.length_erase_of_mem hm]
      have := List.length_pos_of_mem hm
      omega
    · rw [if_pos (by omega)]
      refine ⟨_, rfl, ?_⟩
      change (skeleton (dput d v)).Counted _ _ _
      rw [skeleton_dput]
      exact Skeleton.Counted.dropRef h hr

theorem fatDput_run (h : Counts (hold d hd) hf pins v) :
    ∃ w, (fatDput d).run v = (.ok (), w) ∧ Counts hd hf pins w :=
  dputLoop_counts h (Nat.lt_succ_self _)

theorem fatDput_counts : Triple (Counts (hold d hd) hf pins) (fatDput d) (fun _ => Counts hd hf pins)
    (fun _ _ => False) := by
  intro v hv
  obtain ⟨w, hrun, hw⟩ := fatDput_run hv
  rw [hrun]
  exact hw

theorem findFile_mem {de : Direntry} {sector secofs : ℕ} (h : v.findFile de sector secofs = some f) :
    f ∈ v.filesOpen := List.mem_of_find?_eq_some h

theorem fileGet_run (h : Counts hd hf pins v) (de : Direntry) (sector secofs : ℕ) :
    ∃ f w, (fileGet de sector secofs).run v = (.ok f, w) ∧ Counts hd (hold f hf) pins w ∧
      w.dentriesSlab = v.dentriesSlab := by
  have h' : (skeleton v).Counted hd hf pins := h
  simp only [fileGet, run_bind_state]
  cases hfind : v.findFile de sector secofs with
  | some f =>
    rw [when_neg (by simp)]
    refine ⟨f, _, rfl, ?_, rfl⟩
    change (skeleton _).Counted _ _ _
    rw [skeleton_addFileRef]
    exact h'.addFileRef (findFile_mem hfind)
  | none =>
    rw [when_pos (by simp)]
    refine ⟨v.nextId, _, rfl, ?_, rfl⟩
    change (skeleton _).Counted _ _ _
    rw [skeleton_addFileRef, skeleton_fileInit]
    have hfresh : v.nextId ∉ v.filesOpen := fun hm => Nat.lt_irrefl _ (h'.freshFile _ hm)
    exact (h'.nextId (Nat.le_succ _)).newFile hfresh (Nat.lt_succ_self _)

theorem filePut_counts : Triple (Counts hd (hold f hf) pins) (filePut f) (fun _ => Counts hd hf pins)
    (fun _ _ => False) := by
  intro v hv
  change (skeleton (((filePut f).run v).2)).Counted _ _ _
  rw [skeleton_filePut]
  exact Skeleton.Counted.dropFileRef hv

def Unused (k : ℕ) (v : Volume) : Prop :=
  k < v.nextId ∧ ¬HasNode k v ∧ k ∉ v.filesOpen ∧ k ∉ v.channelsOpen

theorem run_slabmemAlloc (v : Volume) : slabmemAlloc.run v =
    if v.env.oom v.ticks then (.ok none, { v with ticks := v.ticks + 1 })
    else (.ok (some v.nextId), { v with ticks := v.ticks + 1, nextId := v.nextId + 1 }) := by
  simp only [slabmemAlloc, run_bind_state, run_bind_update]
  split <;> rfl

theorem slabmemAlloc_run (h : Counts hd hf pins v) :
    ∃ r w, slabmemAlloc.run v = (.ok r, w) ∧ Counts hd hf pins w ∧ (∀ k, Unused k v → Unused k w) ∧
      ∀ k, r = some k → Unused k w ∧ ¬k < v.nextId := by
  have h' : (skeleton v).Counted hd hf pins := h
  rw [run_slabmemAlloc]
  split
  · exact ⟨_, _, rfl, h, fun k hk => hk, by simp⟩
  · refine ⟨_, _, rfl, h'.nextId (Nat.le_succ _), ?_, ?_⟩
    · rintro k ⟨hlt, hk⟩
      exact ⟨Nat.lt_succ_of_lt hlt, hk⟩
    · rintro k hk
      cases hk
      refine ⟨⟨Nat.lt_succ_self _, fun hm => ?_, fun hm => ?_, fun hm => ?_⟩, Nat.lt_irrefl _⟩
      · exact Nat.lt_irrefl _ (h'.freshNode _ hm)
      · exact Nat.lt_irrefl _ (h'.freshFile _ hm)
      · exact Nat.lt_irrefl _ (h'.freshChannel _ hm)

theorem channelGet_run (h : Counts hd (hold f hf) pins v) (hn : HasNode d v) (flags : ℕ) :
    ∃ r w, (channelGet f (some d) flags).run v = (.ok r, w) ∧
      (r = none → Counts hd (hold f hf) pins w) ∧
      ∀ c, r = some c → Counts hd hf ((c, d) :: pins) w ∧ ∀ q ∈ pins, q.1 ≠ c := by
  obtain ⟨r, w, hrun, hw, -, hr⟩ := slabmemAlloc_run h
  have hn' : HasNode d w := by
    have hs : w.dentriesSlab = v.dentriesSlab := by
      rw [run_slabmemAlloc] at hrun
      split at hrun <;> cases hrun <;> rfl
    simpa only [HasNode, Skeleton.nodes, skeleton, hs] using hn
  cases r with
  | none =>
    refine ⟨none, w, ?_, fun _ => hw, by simp⟩
    rw [channelGet, run_bind_ok hrun]
    rfl
  | some c =>
    obtain ⟨⟨hlt, -, -, hnc⟩, -⟩ := hr c rfl
    have hw' : (skeleton w).Counted hd (hold f hf) pins := hw
    refine ⟨some c, dget d (channelInit c f (some d) flags w), ?_, by simp, ?_⟩
    · rw [channelGet, run_bind_ok hrun]
      rfl
    · intro c' hc'
      cases hc'
      have hcount := (hw'.addRef hn').newChannel hnc hlt flags
      refine ⟨?_, fun q hq he => hnc (he ▸ (hw'.pinned q hq).1)⟩
      change (skeleton _).Counted _ _ _
      rw [skeleton_dget, skeleton_channelInit]
      exact hcount

theorem fatOpen_counts (d flags : ℕ) : Triple (fun v => Counts hd hf pins v ∧ HasNode d v) (fatOpen d flags)
    (fun c v => Counts hd hf ((c, d) :: pins) v ∧ ∀ q ∈ pins, q.1 ≠ c) (fun _ => Counts hd hf pins) := by
  refine .bind (R := fun _ v => Counts hd hf pins v ∧ HasNode d v) (.state fun v hv => hv) fun u => ?_
  cases (u.dentries d).denies flags with
  | some e => exact .fail fun v hv => hv.1
  | none =>
    refine .bind (R := fun _ v => Counts hd hf pins v ∧ HasNode d v)
      (((Neutral.fetchDirentry d).skeleton.triple fun s => s.Counted hd hf pins ∧ d ∈ s.nodes).conseq
        (fun _ h => h) (fun _ _ h => h) fun _ _ h => h.1) fun de => ?_
    intro v ⟨hv, hn⟩
    obtain ⟨f, w, hrun, hw, hslab⟩ := fileGet_run hv de (u.dentries d).deSector ((u.dentries d).secofs u.geo)
    have hn' : HasNode d w := by simpa only [HasNode, Skeleton.nodes, skeleton, hslab] using hn
    obtain ⟨r, w', hrun', hnone, hsome⟩ := channelGet_run hw hn' flags
    simp only [run_bind_ok hrun, run_bind_ok hrun']
    cases r with
    | some c => exact hsome c rfl
    | none =>
      have hput := filePut_counts w' (hnone rfl)
      rw [run_bind]
      rcases hp : (filePut f).run w' with ⟨_ | _ | _, t⟩ <;> rw [hp] at hput
      · exact hput
      · exact hput.elim
      · trivial

/-- Releasing the node of an open instance looks at nothing of the instance itself. -/
theorem dputLoop_freeChannel (fuel d c : ℕ) (v : Volume) : (dputLoop fuel d).run (freeChannel c v) =
    (((dputLoop fuel d).run v).1, freeChannel c ((dputLoop fuel d).run v).2) := by
  induction fuel generalizing d v with
  | zero => rfl
  | succ fuel ih =>
    have hput : dput d (freeChannel c v) = freeChannel c (dput d v) := rfl
    have hd : (freeChannel c (dput d v)).dentries = (dput d v).dentries := rfl
    simp only [dputLoop, run_bind_update, run_bind_state, hput, hd]
    split
    · rfl
    · split
      · rfl
      · next p _ => exact ih p (freeDentry d p (dput d v))

theorem filePut_freeChannel (f c : ℕ) (v : Volume) :
    (filePut f).run (freeChannel c v) = (.ok (), freeChannel c ((filePut f).run v).2) := by
  simp only [filePut, run_bind_update, run_update]
  by_cases hr : ((v.setFile f fun x => { x with references := x.references - 1 }).files f).references = 0
  · have hr' : (((freeChannel c v).setFile f fun x => { x with references := x.references - 1 }).files f).references
      = 0 := hr
    rw [if_pos hr, if_pos hr']
    rfl
  · have hr' : ¬(((freeChannel c v).setFile f fun x => { x with references := x.references - 1 }).files f).references
      = 0 := hr
    rw [if_neg hr, if_neg hr']
    rfl

theorem channelPut_run (h : Counts hd hf pins v) (hc : c ∈ v.channelsOpen) (hp : ∀ q ∈ pins, q.1 ≠ c) :
    ∃ w, (channelPut c).run v = (.ok (), w) ∧ Counts hd hf pins w := by
  have h' : (skeleton v).Counted hd hf pins := h
  obtain ⟨d, hd'⟩ := h'.channelNode c hc
  have hend := h'.endChannel hc hd' hp
  rw [← skeleton_freeChannel] at hend
  obtain ⟨w, hrun, hw⟩ := fatDput_run hend
  have hcomm := dputLoop_freeChannel (v.dentriesSlab.length + 1) d c v
  have hput := filePut_counts w hw
  have hrun' : (dputLoop (v.dentriesSlab.length + 1) d).run (freeChannel c v) = (.ok (), w) := hrun
  rw [hrun'] at hcomm
  obtain ⟨hok, hwu⟩ := Prod.mk.inj hcomm
  have hu : (fatDput d).run v = (.ok (), ((fatDput d).run v).2) := Prod.ext hok.symm rfl
  have hdc : (v.channels c).dentry = some d := hd'
  refine ⟨freeChannel c ((filePut (v.channels c).f).run ((fatDput d).run v).2).2, ?_, ?_⟩
  · simp only [channelPut, run_bind_state, hdc, Option.elim]
    rw [run_bind_ok hu]
    rfl
  · rw [hwu, show (skeleton v).file c = (v.channels c).f from rfl, filePut_freeChannel] at hput
    exact hput

theorem setChannelRefs_counts (h : Counts hd hf pins v) (g : ℕ → ℕ) :
    Counts hd hf pins (v.setChannel c fun x => { x with references := g x.references }) := by
  have hs : skeleton (v.setChannel c fun x => { x with references := g x.references }) =
      (skeleton v).setChannelRefs fun k => if k = c then g (v.channels k).references
        else (v.channels k).references := by
    apply Skeleton.ext
    all_goals first
      | rfl
      | funext k
        by_cases hk : k = c <;> simp [skeleton, Volume.setChannel, Skeleton.setChannelRefs, hk]
  change (skeleton _).Counted _ _ _
  rw [hs]
  exact Skeleton.Counted.channelRefs h _

theorem fatClose_counts (hp : ∀ q ∈ pins, q.1 ≠ c) : Triple (Counts hd hf pins) (fatClose c)
    (fun _ => Counts hd hf pins) (fun _ => Counts hd hf pins) := by
  intro v hv
  by_cases hbad : (v.channels c).magic = false ∨ (v.channels c).references = 0
  · simp only [fatClose, run_bind_state, if_pos hbad]
    exact hv
  · have hc : c ∈ v.channelsOpen := by
      by_contra hc
      exact hbad (.inl (Skeleton.Counted.closed hv c hc))
    have hbody : Triple (fun v => Counts hd hf pins v ∧ c ∈ v.channelsOpen)
        (do
          let res ← (do
            Prog.when (((v.channels c).references == 1) = true ∧
              (v.files (v.channels c).f).deSector = fatUnlinked)
              (fatDeleteClusters (v.files (v.channels c).f).firstCluster)
            fatFsync c false).attempt
          Prog.when (((v.channels c).references == 1) = true) (channelPut c)
          Prog.ofExcept res)
        (fun _ => Counts hd hf pins) (fun _ => Counts hd hf pins) := by
      refine .bind (R := fun _ v => Counts hd hf pins v ∧ c ∈ v.channelsOpen)
        ((Neutral.skeleton (.attempt (.bind (.when (Neutral.fatDeleteClusters _)) fun _ => Neutral.fatFsync _ _))).triple
          (fun s => s.Counted hd hf pins ∧ c ∈ s.channelsOpen) |>.conseq (fun _ h => h) (fun _ _ h => h)
            fun _ _ h => h.1) fun res => ?_
      refine .bind (R := fun _ => Counts hd hf pins) (.when (fun _ w hw => ?_) fun _ _ h => h.1) fun _ =>
        .ofExcept (fun _ _ _ h => h) fun _ _ _ h => h
      obtain ⟨t, ht, hct⟩ := channelPut_run hw.1 hw.2 hp
      rw [ht]
      exact hct
    simp only [fatClose, run_bind_state, if_neg hbad, run_bind_update]
    exact hbody _ ⟨setChannelRefs_counts hv (· - 1), hc⟩

end FreeDos32.Fat
