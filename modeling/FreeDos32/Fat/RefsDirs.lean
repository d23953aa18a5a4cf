import FreeDos32.Fat.RefsTree

namespace FreeDos32.Fat

open Prog

namespace Skeleton

def moveNode (d p q : ℕ) (s : Skeleton) : Skeleton :=
  { s with
    parent := fun k => if k = d then some q else s.parent k
    children := fun k => if k = q then d :: s.children k else if k = p then (s.children k).erase d else s.children k
    dentryRefs := hold q fun k => if k = p then s.dentryRefs k - 1 else s.dentryRefs k
    numDentries := s.numDentries - 1 + 1 }

theorem Counted.moveNode {hd hf : ℕ → ℕ} {pins : List (ℕ × ℕ)} {s : Skeleton} {d p q : ℕ}
    (h : Counted hd hf pins s) (hd' : d ∈ s.nodes) (hp : s.parent d = some p) (hq : q ∈ s.nodes) (hpq : q ≠ p)
    (hr : 1 < s.dentryRefs p) : Counted hd hf pins (s.moveNode d p q) := by
  have hroot : d ≠ rootDentry := fun he => by simp [he, h.rootParent] at hp
  have hslab := mem_slab hd' hroot
  obtain ⟨p', hpn, hp', hdp⟩ := h.parent d hslab
  obtain rfl : p' = p := by simpa [hp'] using hp
  have hdq : d ∉ s.children q := fun hm => hpq (by simpa [hp] using ((h.children q hq).2 d hm).2.symm)
  have hother : ∀ k ∈ s.nodes, k ≠ p' → d ∉ s.children k := fun k hk hne hm => hne (by
    simpa [hp] using ((h.children k hk).2 d hm).2.symm)
  refine { h with
    rootParent := (if_neg hroot.symm).trans h.rootParent
    parent := ?_, children := ?_, dentryRefs := ?_, dentryPos := ?_, num := ?_ }
  · intro k hk
    by_cases hkd : k = d
    · refine ⟨q, hq, if_pos hkd, ?_⟩
      change k ∈ if q = q then d :: s.children q else _
      rw [if_pos rfl, hkd]
      exact List.mem_cons_self
    · obtain ⟨r, hrn, hkr, hmr⟩ := h.parent k hk
      refine ⟨r, hrn, (if_neg hkd).trans hkr, ?_⟩
      change k ∈ if r = q then d :: s.children r else if r = p' then (s.children r).erase d else s.children r
      split
      · exact List.mem_cons_of_mem _ hmr
      · split
        · exact (List.mem_erase_of_ne hkd).mpr hmr
        · exact hmr
  · intro k hk
    obtain ⟨hnd, hc⟩ := h.children k hk
    change (if k = q then d :: s.children k else if k = p' then (s.children k).erase d else s.children k).Nodup ∧
      ∀ e ∈ (if k = q then d :: s.children k else if k = p' then (s.children k).erase d else s.children k),
        e ∈ s.dentriesSlab ∧ (if e = d then some q else s.parent e) = some k
    split
    next hkq =>
      refine ⟨List.nodup_cons.mpr ⟨hkq ▸ hdq, hnd⟩, fun e he => ?_⟩
      rcases List.mem_cons.mp he with rfl | he
      · exact ⟨hslab, (if_pos rfl).trans (by rw [hkq])⟩
      · have hed : e ≠ d := fun hh => hdq (hkq ▸ hh ▸ he)
        exact ⟨(hc e he).1, (if_neg hed).trans (hc e he).2⟩
    next hkq =>
      split
      · refine ⟨hnd.erase d, fun e he => ?_⟩
        have hed : e ≠ d := fun hh => hnd.not_mem_erase (hh ▸ he)
        have hm := List.mem_of_mem_erase he
        exact ⟨(hc e hm).1, (if_neg hed).trans (hc e hm).2⟩
      next hkp =>
        refine ⟨hnd, fun e he => ?_⟩
        have hed : e ≠ d := fun hh => hother k hk hkp (hh ▸ he)
        exact ⟨(hc e he).1, (if_neg hed).trans (hc e he).2⟩
  · intro k hk
    have hrefs := h.dentryRefs k hk
    change (if k = q then (if k = p' then s.dentryRefs k - 1 else s.dentryRefs k) + 1
        else if k = p' then s.dentryRefs k - 1 else s.dentryRefs k) = s.users k +
      (if k = q then d :: s.children k else if k = p' then (s.children k).erase d else s.children k).length + hd k + _
    by_cases hkq : k = q
    · have hkp : k ≠ p' := hkq ▸ hpq
      rw [if_pos hkq, if_pos hkq, if_neg hkp, List.length_cons]
      omega
    · rw [if_neg hkq, if_neg hkq]
      by_cases hkp : k = p'
      · subst hkp
        have := List.length_erase_of_mem hdp
        have := List.length_pos_of_mem hdp
        rw [if_pos rfl, if_pos rfl]
        omega
      · rw [if_neg hkp, if_neg hkp]
        exact hrefs
  · intro k hk
    have hpos := h.dentryPos k hk
    change 0 < hold q (fun k => if k = p' then s.dentryRefs k - 1 else s.dentryRefs k) k
    refine Nat.lt_of_lt_of_le ?_ (le_hold _ _ _)
    split
    · subst_vars
      omega
    · exact hpos
  · have hhold : hold p' (fun k => if k = p' then s.dentryRefs k - 1 else s.dentryRefs k) = s.dentryRefs := by
      funext k
      by_cases hkp : k = p'
      · subst hkp
        rw [hold_self]
        simp only [if_true]
        omega
      · simp only [hold, hkp, if_false]
    have hsum := sum_map_hold h.slab hpn fun k => if k = p' then s.dentryRefs k - 1 else s.dentryRefs k
    rw [hhold, ← h.num] at hsum
    change s.numDentries - 1 + 1 = (s.nodes.map (hold q _)).sum
    rw [sum_map_hold h.slab hq]
    omega

end Skeleton

variable {hd hf : ℕ → ℕ} {pins : List (ℕ × ℕ)} {v w : Volume} {d p f c : ℕ} {α : Type}

theorem Shrinks.triple_unused {x : FatM α} (hs : Steps Shrinks x) {P : Volume → Prop} {Q : α → Volume → Prop}
    {E : Errno → Volume → Prop} (hx : Triple P x Q E) (ks : List ℕ) :
    Triple (fun v => P v ∧ ∀ k ∈ ks, Unused k v) x (fun a v => Q a v ∧ ∀ k ∈ ks, Unused k v) E := by
  intro v ⟨hv, hk⟩
  have h := hx v hv
  have h' := hs v
  rcases hxs : x.run v with ⟨_ | _ | _, t⟩ <;> rw [hxs] at h h'
  · exact ⟨h, fun k hm => h'.unused (hk k hm)⟩
  · exact h
  · trivial

theorem slabmemAlloc_counts (ks : List ℕ) : Triple (fun v => Counts hd hf pins v ∧ ∀ k ∈ ks, Unused k v) slabmemAlloc
    (fun r v => Counts hd hf pins v ∧ ∀ k ∈ r.toList ++ ks, Unused k v) (fun _ _ => False) := by
  rintro v ⟨hv, hk⟩
  obtain ⟨r, w, hrun, hw, hold, hnew⟩ := slabmemAlloc_run hv
  rw [hrun]
  refine ⟨hw, fun k hm => ?_⟩
  rcases List.mem_append.mp hm with hm | hm
  · exact (hnew k (Option.mem_toList.mp hm)).1
  · exact hold k (hk k hm)

theorem skeleton_firstRef (f : ℕ) (de : Direntry) (sector secofs : ℕ) (v : Volume) :
    skeleton ((fileInit f de sector secofs v).setFile f fun x => { x with references := 1 }) =
      ((skeleton v).newFile f).addFileRef f := by
  apply Skeleton.ext
  all_goals first
    | rfl
    | funext k
      by_cases hk : k = f <;>
        simp [skeleton, fileInit, Volume.setFile, Skeleton.newFile, Skeleton.addFileRef, hold, hk]

theorem createObjects_counts (dparent f d c flags : ℕ) :
    Triple (fun v => Counts (hold dparent hd) hf [] v ∧ ∀ k ∈ [f, d, c], Unused k v)
      (createObjects dparent f d c flags) (fun _ => Counts (hold dparent hd) hf []) (fun _ _ => False) := by
  rintro v ⟨hv, hk⟩
  have hv' : (skeleton v).Counted (hold dparent hd) hf [] := hv
  obtain ⟨hfid, -, hfo, -⟩ := hk f (by simp)
  obtain ⟨hdid, hdn, -, -⟩ := hk d (by simp)
  obtain ⟨hcid, -, -, hco⟩ := hk c (by simp)
  have hpd : dparent ≠ d := fun he => hdn (he ▸ hv.hasNode)
  simp only [createObjects, run_bind_state, run_bind_update, fatDget, run_update]
  have hfile := hv'.newFile hfo hfid
  have hnode := hfile.newNode hfile.mem_held hdn hdid (v.lud.cde v.lud.cdePos).attr
  have hchan := hnode.newChannel hco hcid flags
  change (skeleton _).Counted _ _ _
  rw [skeleton_channelInit, skeleton_dget, skeleton_dentryInit hpd, skeleton_firstRef]
  exact hchan.unpin (by simp)

theorem fatCreate_counts (dparent : ℕ) (fn : List UInt8) (flags : ℕ) (mode : UInt8) :
    Triple (Counts (hold dparent hd) hf []) (fatCreate dparent fn flags mode)
      (fun _ => Counts (hold dparent hd) hf []) (fun _ => Counts (hold dparent hd) hf []) := by
  refine .bind (R := fun _ => Counts (hold dparent hd) hf []) ((fatOpen_counts_unpinned _ _).conseq
    (fun _ h => ⟨h, h.hasNode⟩) (fun _ _ h => h.1) fun _ _ h => h) fun cparent => ?_
  refine .bind ((slabmemAlloc_counts []).conseq (fun _ h => ⟨h, by simp⟩) (fun _ _ h => h) fun _ _ h => h.elim)
    fun f => .bind ((slabmemAlloc_counts _).conseq (fun _ h => h) (fun _ _ h => h) fun _ _ h => h.elim)
      fun d => .bind ((slabmemAlloc_counts _).conseq (fun _ h => h) (fun _ _ h => h) fun _ _ h => h.elim) fun c => ?_
  have hnomem : Triple (fun v => Counts (hold dparent hd) hf [] v ∧
      ∀ k ∈ c.toList ++ (d.toList ++ (f.toList ++ [])), Unused k v) (orClose [cparent] (fail Errno.enomem))
      (fun _ => Counts (hold dparent hd) hf []) (fun _ => Counts (hold dparent hd) hf []) :=
    orClose_counts (α := ℕ) (by simp) (.fail fun _ h => h.1)
  cases f with
  | none => exact hnomem
  | some f => cases d with
    | none => exact hnomem
    | some d => cases c with
      | none => exact hnomem
      | some c =>
        have hlink : Triple (Counts (hold dparent hd) hf [])
            (do
              fatLink cparent fn (if hasFlag flags oDirectory = true then mode ||| fatADir else mode) 1
              fatClose cparent)
            (fun _ => Counts (hold dparent hd) hf []) (fun _ => Counts (hold dparent hd) hf []) :=
          .bind (R := fun _ => Counts (hold dparent hd) hf []) (Neutral.fatLink _ _ _ _).counts fun _ =>
            fatClose_counts (by simp)
        have hshr : Steps Shrinks (do
              fatLink cparent fn (if hasFlag flags oDirectory = true then mode ||| fatADir else mode) 1
              fatClose cparent) :=
          .bind (Neutral.fatLink _ _ _ _).shrinks fun _ => fatClose_shrinks _
        refine .bind (orClose_counts (by simp) (Shrinks.triple_unused hshr hlink [f, d, c] |>.conseq
          (fun v h => ⟨h.1, fun k hk => h.2 k (by simp at hk ⊢; tauto)⟩) (fun _ _ h => h) fun _ _ h => h))
          fun _ => .bind ((createObjects_counts dparent f d c flags).conseq (fun _ h => h) (fun _ _ h => h)
            fun _ _ h => h.elim) fun _ => .pure fun _ h => h

theorem fatRemove_counts (d : ℕ) (dir : Bool) : Triple (Counts (hold d hd) hf []) (fatRemove d dir)
    (fun _ => Counts (hold d hd) hf []) (fun _ => Counts (hold d hd) hf []) := by
  refine .bind_state fun u hu => ?_
  cases hp : (u.dentries d).parent with
  | none => exact .fail fun _ h => h.2
  | some p =>
    have hn := hu.parent_mem hu.hasNode hp
    refine .bind (R := fun _ => Counts (hold d hd) hf []) ((fatOpen_counts_unpinned _ _).conseq
      (fun _ h => ⟨h.2, h.1 ▸ hn⟩) (fun _ _ h => h.1) fun _ _ h => h) fun cparent => ?_
    refine .bind (R := fun _ => Counts (hold d hd) hf []) (orClose_counts (by simp)
      ((fatOpen_counts_unpinned _ _).conseq (fun _ h => ⟨h, h.hasNode⟩) (fun _ _ h => h.1) fun _ _ h => h))
      fun c => ?_
    refine .bind (R := fun _ => Counts (hold d hd) hf []) (orClose_counts (by simp) ?_) fun _ =>
      fatClose_counts (by simp)
    exact .bind (R := fun _ => Counts (hold d hd) hf []) (Neutral.removeCheck _ _).counts fun _ =>
      .bind (R := fun _ => Counts (hold d hd) hf []) (Neutral.deleteLink _ _).counts fun _ =>
        .bind (R := fun _ => Counts (hold d hd) hf [])
          (Counts.of_keeps (.update fun v => Neutral.skeleton_markUnlinked _ _ v)) fun _ => fatClose_counts (by simp)

theorem fatMkdir_counts (dparent : ℕ) (fn : List UInt8) (mode : UInt8) :
    Triple (Counts (hold dparent hd) hf []) (fatMkdir dparent fn mode)
      (fun _ => Counts (hold dparent hd) hf []) (fun _ => Counts (hold dparent hd) hf []) :=
  .bind (R := fun _ => Counts (hold dparent hd) hf []) (fatCreate_counts _ _ _ _) fun _ =>
    .bind (R := fun _ => Counts (hold dparent hd) hf [])
      (orClose_counts (by simp) (Neutral.mkdirDots _ _).counts) fun _ => fatClose_counts (by simp)

/-- The references of `fat_rename` to the two nodes that it is given. -/
abbrev renameHeld (od ndparent : ℕ) (hd : ℕ → ℕ) : ℕ → ℕ := hold od (hold ndparent hd)

/-- While the old parent directory is open, so that its node stays; the callers hold `hn`. -/
structure Renaming (od odparent : ℕ) (cs : RenameChannels) (hn hf : ℕ → ℕ) (v : Volume) : Prop where
  counts : Counts hn hf [(cs.ocparent, odparent)] v
  ncparent : cs.ocparent ≠ cs.ncparent
  oc : cs.ocparent ≠ cs.oc
  fresh : od < v.nextId
  parent : (v.dentries od).parent = some odparent

variable {od odparent ndparent : ℕ} {cs : RenameChannels} {hn hn' : ℕ → ℕ}

theorem skeleton_eraseChild (d p : ℕ) (v : Volume) : skeleton (eraseChild d p v) = { skeleton v with
    children := fun k => if k = p then ((skeleton v).children k).erase d else (skeleton v).children k } := by
  apply Skeleton.ext
  all_goals first
    | rfl
    | funext k
      by_cases hk : k = p <;> simp [skeleton, eraseChild, Volume.setDentry, hk]

theorem skeleton_setParent (d p : ℕ) (v : Volume) :
    skeleton (v.setDentry d fun x => { x with parent := some p }) = { skeleton v with
      parent := fun k => if k = d then some p else (skeleton v).parent k } := by
  apply Skeleton.ext
  all_goals first
    | rfl
    | funext k
      by_cases hk : k = d <;> simp [skeleton, Volume.setDentry, hk]

theorem skeleton_consChild (d p : ℕ) (v : Volume) :
    skeleton (v.setDentry p fun x => { x with children := d :: x.children }) = { skeleton v with
      children := fun k => if k = p then d :: (skeleton v).children k else (skeleton v).children k } := by
  apply Skeleton.ext
  all_goals first
    | rfl
    | funext k
      by_cases hk : k = p <;> simp [skeleton, Volume.setDentry, hk]

theorem skeleton_moveDentry (hpq : ndparent ≠ odparent) (v : Volume) :
    skeleton (pushChild od ndparent (dput odparent (eraseChild od odparent v))) =
      (skeleton v).moveNode od odparent ndparent := by
  rw [pushChild, skeleton_setParent, skeleton_dget, skeleton_consChild, skeleton_dput, skeleton_eraseChild]
  apply Skeleton.ext
  all_goals first
    | rfl
    | funext k
      by_cases hk : k = ndparent <;> simp [Skeleton.addRef, Skeleton.dropRef, Skeleton.moveNode, hk, hpq]

/-- The old parent has another reference, so that it is not freed. -/
theorem run_moveDentry (hr : 1 < (v.dentries odparent).references) (od ndparent : ℕ) :
    (moveDentry od odparent ndparent).run v =
      (.ok (), pushChild od ndparent (dput odparent (eraseChild od odparent v))) := by
  have hself : ((dput odparent (eraseChild od odparent v)).dentries odparent).references ≠ 0 := by
    simp only [dput, eraseChild, Volume.setDentry_self]
    omega
  have hput : (fatDput odparent).run (eraseChild od odparent v) =
      (.ok (), dput odparent (eraseChild od odparent v)) := by
    simp only [fatDput, run_bind_state, dputLoop, run_bind_update, if_pos hself, run_pure]
  rw [moveDentry, run_bind_update, run_bind_ok hput, run_update]

theorem Renaming.triple {x : FatM α} (hs : Steps KeepsParents x) {E : Errno → Volume → Prop} {H : α → ℕ → ℕ}
    {N : α → Prop} (hx : Triple (Counts hn hf [(cs.ocparent, odparent)]) x
      (fun a v => Counts (H a) hf [(cs.ocparent, odparent)] v ∧ N a) E) :
    Triple (Renaming od odparent cs hn hf) x (fun a v => Renaming od odparent cs (H a) hf v ∧ N a) E := by
  intro v hv
  have h := hx v hv.counts
  have h' := hs v
  rcases hxs : x.run v with ⟨a | _ | _, t⟩ <;> rw [hxs] at h h'
  · exact ⟨⟨h.1, hv.ncparent, hv.oc, Nat.lt_of_lt_of_le hv.fresh h'.nextId,
      (h'.parent od hv.fresh).trans hv.parent⟩, h.2⟩
  · exact h
  · trivial

theorem Renaming.of_keeps {x : FatM α} (hx : Keeps skeleton x) : Triple (Renaming od odparent cs hn hf) x
    (fun _ => Renaming od odparent cs hn hf) (fun _ => Counts hn hf []) :=
  (Renaming.triple (N := fun _ => True) (Steps.keepsParents (Shrinks.of_keeps hx))
    ((Counts.of_keeps hx).conseq (fun _ h => h) (fun _ _ h => ⟨h, trivial⟩) fun _ _ h => h.unpin (by simp))).conseq
      (fun _ h => h) (fun _ _ h => h.1) fun _ _ h => h

theorem Renaming.neutral {x : FatM α} (hx : Neutral x) : Triple (Renaming od odparent cs hn hf) x
    (fun _ => Renaming od odparent cs hn hf) (fun _ => Counts hn hf []) := Renaming.of_keeps hx.skeleton

theorem renameOpen_counts : Triple (fun v => Counts (renameHeld od ndparent hd) hf [] v ∧ HasNode odparent v)
    (renameOpen od odparent ndparent)
    (fun cs v => Counts (renameHeld od ndparent hd) hf [(cs.ocparent, odparent)] v ∧
      cs.ocparent ≠ cs.ncparent ∧ cs.ocparent ≠ cs.oc) (fun _ => Counts (renameHeld od ndparent hd) hf []) := by
  refine .bind ((fatOpen_counts odparent _).conseq (fun _ h => h) (fun _ _ h => h.1) fun _ _ h => h) fun ocparent => ?_
  refine .bind (orClose_counts (by simp) ((fatOpen_counts_unpinned ndparent _).conseq
    (fun v h => ⟨h, ?_⟩) (fun _ _ h => h) fun _ _ h => h.unpin (by simp))) fun ncparent => ?_
  · have h' : Counts (hold ndparent (hold od hd)) hf [(ocparent, odparent)] v := by rwa [hold_comm]
    exact h'.hasNode
  · refine fun v hv => Triple.bind (P := Counts (renameHeld od ndparent hd) hf [(ocparent, odparent)])
      (Q := fun (cs : RenameChannels) v => Counts (renameHeld od ndparent hd) hf [(cs.ocparent, odparent)] v ∧
        cs.ocparent ≠ cs.ncparent ∧ cs.ocparent ≠ cs.oc)
      (E := fun _ => Counts (renameHeld od ndparent hd) hf []) (orClose_counts (by simp) ((fatOpen_counts_unpinned od 0).conseq (fun v h => ⟨h, h.hasNode⟩)
        (fun _ _ h => h) fun _ _ h => h.unpin (by simp))) (fun oc => .pure fun w hw => ?_) v hv.1
    exact ⟨hw.1, hv.2 _ List.mem_cons_self, hw.2 _ List.mem_cons_self⟩

/-- What the lookup of the new name has left the caller with. -/
def lookupHeld (ndparent : ℕ) (hn : ℕ → ℕ) : Except Errno ℕ → ℕ → ℕ
  | .ok d => hold d hn
  | .error _ => hold ndparent hn

theorem renameOpen_keepsParents : Steps KeepsParents (renameOpen od odparent ndparent) :=
  .bind (fatOpen_keepsParents _ _) fun _ => .bind (orClose_keepsParents _ (fatOpen_keepsParents _ _)) fun _ =>
    .bind (orClose_keepsParents _ (fatOpen_keepsParents _ _)) fun _ => .pure _

theorem renameLookup_counts (nn : List UInt8) : Triple (Counts (renameHeld od ndparent hd) hf [])
    (renameLookup od ndparent nn)
    (fun r => Renaming od r.1 r.2.1 (lookupHeld ndparent (renameHeld od ndparent hd) r.2.2) hf)
    (fun _ => Counts (renameHeld od ndparent hd) hf []) := by
  refine .bind_state fun u hu => ?_
  cases hp : (u.dentries od).parent with
  | none => exact .fail fun _ h => h.2
  | some odparent =>
    refine .ite (fun _ => .fail fun _ h => h.2) fun _ => ?_
    have hod : HasNode od u := hu.hasNode
    have hnp : HasNode odparent u := hu.parent_mem hod hp
    refine .bind (R := fun cs => Renaming od odparent cs (renameHeld od ndparent hd) hf) ?_ fun cs => ?_
    · refine ((Steps.with_start (r := u) renameOpen_keepsParents renameOpen_counts).conseq
        (fun v h => ⟨h.1 ▸ (Std.Refl.refl v : KeepsParents v v), h.2, h.1 ▸ hnp⟩) (fun cs v h => ?_) fun _ _ h => h.2)
      have hlt : od < u.nextId := Skeleton.Counted.freshNode hu od hod
      exact ⟨h.2.1, h.2.2.1, h.2.2.2, Nat.lt_of_lt_of_le hlt h.1.nextId, (h.1.parent od hlt).trans hp⟩
    · refine .bind (R := fun _ => Renaming od odparent cs (hold ndparent (renameHeld od ndparent hd)) hf) ?_ fun _ => ?_
      · refine (Renaming.triple (N := fun _ => True) (fatDget_keepsParents ndparent)
          (fatDget_counts.conseq (fun v h => ⟨h, ?_⟩) (fun _ _ h => ⟨h, trivial⟩) fun _ _ h => h.elim)).conseq
            (fun _ h => h) (fun _ _ h => h.1) fun _ _ h => h
        have h' : Counts (hold ndparent (hold od hd)) hf [(cs.ocparent, odparent)] v := by rwa [hold_comm]
        exact h'.hasNode
      · refine .bind (R := fun res => Renaming od odparent cs (lookupHeld ndparent (renameHeld od ndparent hd) res) hf)
          ?_ fun res => .pure fun _ h => h
        refine (Renaming.triple (N := fun _ => True) (.attempt (fatLookup_keepsParents ndparent nn))
          (.attempt ((fatLookup_counts ndparent nn).conseq (fun _ h => h) (fun _ _ h => ⟨h, trivial⟩)
            fun _ _ h => ⟨h, trivial⟩))).conseq (fun _ h => h) (fun _ _ h => h.1) fun _ _ h => h

theorem renameTarget_counts (nn : List UInt8) {res : Except Errno ℕ} (hres : ∀ e, res = .error e → e = .enoent) :
    Triple (Renaming od odparent cs (lookupHeld ndparent hn res) hf) (renameTarget cs.ncparent ndparent nn res)
      (fun nc v => Renaming od odparent cs hn hf v ∧ ∀ c, nc = some c → cs.ocparent ≠ c)
      (fun _ => Counts hn hf []) := by
  have hput : ∀ k, Triple (Renaming od odparent cs (hold k hn) hf) (fatDput k)
      (fun _ => Renaming od odparent cs hn hf) (fun _ => Counts hn hf []) := fun k =>
    (Renaming.triple (N := fun _ => True) (E := fun _ _ => False) (Steps.keepsParents (fatDput_shrinks k))
      (fatDput_counts.conseq (fun _ h => h) (fun _ _ h => ⟨h, trivial⟩) fun _ _ h => h)).conseq
        (fun _ h => h) (fun _ _ h => h.1) fun _ _ h => h.elim
  cases res with
  | error e =>
    obtain rfl := hres e rfl
    exact .bind (R := fun _ => Renaming od odparent cs hn hf) (hput ndparent) fun _ =>
      .bind (R := fun _ => Renaming od odparent cs hn hf) (Renaming.neutral (Neutral.fatLink _ _ _ _)) fun _ =>
        .pure fun _ h => ⟨h, by simp⟩
  | ok d =>
    have hopen : Triple (Renaming od odparent cs (hold d hn) hf) ((fatOpen d 0).attempt)
        (fun r v => Renaming od odparent cs (hold d hn) hf v ∧ ∀ c, r = .ok c → cs.ocparent ≠ c)
        (fun _ => Counts hn hf []) := by
      refine Renaming.triple (.attempt (fatOpen_keepsParents d 0)) (.attempt ((fatOpen_counts_unpinned d 0).conseq
        (fun _ h => ⟨h, h.hasNode⟩) (fun c v h => ⟨h.1, ?_⟩) fun e v h => ⟨h, by simp⟩))
      rintro _ ⟨⟩
      exact h.2 _ List.mem_cons_self
    refine .bind hopen fun r => ?_
    refine fun v hv => Triple.bind (P := Renaming od odparent cs (hold d hn) hf)
      (R := fun _ => Renaming od odparent cs hn hf)
      (Q := fun nc v => Renaming od odparent cs hn hf v ∧ ∀ c, nc = some c → cs.ocparent ≠ c)
      (E := fun _ => Counts hn hf []) (hput d) (fun _ => ?_) v hv.1
    cases r with
    | ok c =>
      refine .pure fun w hw => ⟨hw, ?_⟩
      rintro _ ⟨⟩
      exact hv.2 _ rfl
    | error e => exact .fail fun w hw => hw.counts.unpin (by simp)

theorem renameReplaced_counts {nc : ℕ} (hnc : cs.ocparent ≠ nc) :
    Triple (Renaming od odparent cs hn hf) (renameReplaced nc) (fun _ => Renaming od odparent cs hn hf)
      (fun _ => Counts hn hf []) := by
  refine .bind (R := fun _ => Renaming od odparent cs hn hf) (Renaming.of_keeps (.update fun v => ?_)) fun _ => ?_
  · cases (v.channels nc).dentry with
    | none => rfl
    | some d => exact Neutral.skeleton_markUnlinked _ _ v
  · refine (Renaming.triple (N := fun _ => True) (Steps.keepsParents (fatClose_shrinks nc))
      ((fatClose_counts (by simpa using hnc)).conseq (fun _ h => h) (fun _ _ h => ⟨h, trivial⟩)
        fun _ _ h => h.unpin (by simp))).conseq (fun _ h => h) (fun _ _ h => h.1) fun _ _ h => h

theorem Renaming.two_refs (h : Renaming od odparent cs hn hf v) (hod : HasNode od v) :
    1 < (v.dentries odparent).references := by
  have hc : (skeleton v).Counted hn hf [(cs.ocparent, odparent)] := h.counts
  obtain ⟨hopen, hd⟩ := hc.pinned _ List.mem_cons_self
  have husers : 0 < (skeleton v).users odparent :=
    List.countP_pos_iff.mpr ⟨cs.ocparent, hopen, by simpa using hd⟩
  have hroot : od ≠ rootDentry := fun he => by
    have hr : (v.dentries rootDentry).parent = none := hc.rootParent
    have := h.parent
    simp [he, hr] at this
  obtain ⟨p, hp, hdp, hm⟩ := hc.parent od (Skeleton.Counted.mem_slab hod hroot)
  obtain rfl : p = odparent := by simpa using hdp.symm.trans h.parent
  have hchildren := List.length_pos_of_mem hm
  have hrefs := hc.dentryRefs p hp
  change 1 < (skeleton v).dentryRefs p
  omega

theorem moveDentry_counts (hpq : ndparent ≠ odparent) :
    Triple (Renaming od odparent cs (renameHeld od ndparent hd) hf) (moveDentry od odparent ndparent)
      (fun _ => Counts (renameHeld od ndparent hd) hf [(cs.ocparent, odparent)]) (fun _ _ => False) := by
  intro v hv
  have hod : HasNode od v := hv.counts.hasNode
  have hnd : HasNode ndparent v := by
    have h' := hv.counts
    rw [renameHeld, hold_comm] at h'
    exact h'.hasNode
  have hr := hv.two_refs hod
  rw [run_moveDentry hr]
  change (skeleton _).Counted _ _ _
  rw [skeleton_moveDentry hpq]
  exact Skeleton.Counted.moveNode hv.counts hod hv.parent hnd hpq hr

theorem updateDotdot_counts {nc ncparent : ℕ} (hp : ∀ q ∈ pins, q.1 ≠ nc) :
    Triple (Counts hn hf pins) (updateDotdot nc ncparent) (fun _ => Counts hn hf pins)
      (fun _ => Counts hn hf pins) :=
  .bind (R := fun _ => Counts hn hf pins) (Neutral.seek _ _).counts fun _ =>
    .bind (R := fun _ => Counts hn hf pins) (Neutral.fatRead _ _).counts fun _ =>
      .ite (fun _ => .fail fun _ h => h) fun _ => .bind (R := fun _ => Counts hn hf pins) (.state fun _ h => h) fun _ =>
        .bind (R := fun _ => Counts hn hf pins) (Neutral.writeAll _ _ _ _).counts fun _ => fatClose_counts hp

theorem renameMove_counts : Triple (Renaming od odparent cs (renameHeld od ndparent hd) hf)
    (renameMove od odparent ndparent cs) (fun _ => Counts (renameHeld od ndparent hd) hf [])
    (fun _ => Counts (renameHeld od ndparent hd) hf []) := by
  refine .ite (fun _ => .pure fun _ h => h.counts.unpin (by simp)) fun hpq => ?_
  refine .bind (R := fun _ => Counts (renameHeld od ndparent hd) hf [])
    ((moveDentry_counts hpq).conseq (fun _ h => h) (fun _ _ h => h.unpin (by simp)) fun _ _ h => h.elim) fun _ => ?_
  refine .bind (R := fun _ => Counts (renameHeld od ndparent hd) hf []) (.state fun _ h => h) fun u =>
    .ite (fun _ => ?_) fun _ => .pure fun _ h => h
  exact .bind (R := fun _ => Counts (renameHeld od ndparent hd) hf [])
    (orClose_counts (by simp) ((fatOpen_counts_unpinned od _).conseq (fun _ h => ⟨h, h.hasNode⟩)
      (fun _ _ h => h.1) fun _ _ h => h)) fun nc =>
    .bind (R := fun _ => Counts (renameHeld od ndparent hd) hf [])
      (orClose_counts (by simp) (updateDotdot_counts (by simp))) fun _ => .pure fun _ h => h

/-- The lookup of the new name does not fail with another error than `-ENOENT`. -/
def RenameLookupOk (od ndparent : ℕ) (nn : List UInt8) (v : Volume) : Prop :=
  After (renameLookup od ndparent nn) v fun r _ => r.2.2.isOk = true ∨ r.2.2 = .error .enoent

instance (od ndparent : ℕ) (nn : List UInt8) (v : Volume) : Decidable (RenameLookupOk od ndparent nn v) :=
  inferInstanceAs (Decidable (After _ _ _))

theorem renameRest_counts (nn : List UInt8) {res : Except Errno ℕ} (hres : ∀ e, res = .error e → e = .enoent) :
    Triple (Renaming od odparent cs (lookupHeld ndparent (renameHeld od ndparent hd) res) hf)
      (do
        let nc ← orClose cs.toList (renameTarget cs.ncparent ndparent nn res)
        orClose (cs.toList ++ nc.toList) do
          renameCheck cs.oc nc
          renameWrite cs
        nc.elim (pure ()) fun nc => orClose cs.toList (renameReplaced nc)
        orClose cs.toList (renameUnlink od cs)
        let nc ← renameMove od odparent ndparent cs
        orClose (cs.toList ++ nc.toList) (renameClose cs))
      (fun _ => Counts (renameHeld od ndparent hd) hf []) (fun _ => Counts (renameHeld od ndparent hd) hf []) := by
  refine .bind (orClose_counts (by simp) (renameTarget_counts nn hres)) fun nc => ?_
  refine fun v hv => Triple.bind (P := Renaming od odparent cs (renameHeld od ndparent hd) hf)
    (R := fun _ => Renaming od odparent cs (renameHeld od ndparent hd) hf)
    (Q := fun _ => Counts (renameHeld od ndparent hd) hf []) (E := fun _ => Counts (renameHeld od ndparent hd) hf [])
    (orClose_counts (by simp) (.bind (R := fun _ => Renaming od odparent cs (renameHeld od ndparent hd) hf)
      (Renaming.neutral (Neutral.renameCheck _ _)) fun _ => Renaming.neutral (Neutral.renameWrite _)))
    (fun _ => ?_) v hv.1
  refine .bind (R := fun _ => Renaming od odparent cs (renameHeld od ndparent hd) hf) ?_ fun _ => ?_
  · cases nc with
    | none => exact .pure fun _ h => h
    | some nc => exact orClose_counts (by simp) (renameReplaced_counts (hv.2 nc rfl))
  · refine .bind (R := fun _ => Renaming od odparent cs (renameHeld od ndparent hd) hf)
      (orClose_counts (by simp) (Renaming.of_keeps (Neutral.skeleton_renameUnlink _ _))) fun _ =>
        .bind (R := fun _ => Counts (renameHeld od ndparent hd) hf []) renameMove_counts fun nc =>
          orClose_counts (by simp) ?_
    exact .bind (R := fun _ => Counts (renameHeld od ndparent hd) hf []) (fatClose_counts (by simp)) fun _ =>
      .bind (R := fun _ => Counts (renameHeld od ndparent hd) hf []) (fatClose_counts (by simp)) fun _ =>
        fatClose_counts (by simp)

theorem fatRename_counts (nn : List UInt8) :
    Triple (fun v => Counts (renameHeld od ndparent hd) hf [] v ∧ RenameLookupOk od ndparent nn v)
      (fatRename od ndparent nn) (fun _ => Counts (renameHeld od ndparent hd) hf [])
      (fun _ => Counts (renameHeld od ndparent hd) hf []) := by
  rintro v ⟨hv, hok⟩
  have hl := renameLookup_counts nn v hv
  rw [fatRename, run_bind]
  rcases hrun : (renameLookup od ndparent nn).run v with ⟨⟨odparent, cs, res⟩ | e | _, w⟩ <;> rw [hrun] at hl
  · refine renameRest_counts nn (fun e he => ?_) w hl
    subst he
    simpa [Except.isOk, Except.toBool] using hok.ok hrun
  · exact hl
  · trivial

end FreeDos32.Fat
