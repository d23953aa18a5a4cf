import FreeDos32.Fat.Removal

namespace FreeDos32.Fat

open Prog

variable {G : Layout} {u v w x : Volume} {m : ℕ → UInt8} {a c d f k n p : ℕ} {hd hf : ℕ → ℕ}

section Pending

/-- Files that have been opened since have no changes to write back. -/
def Cleanly (v w : Volume) : Prop :=
  ∀ k ∈ w.filesOpen, (k ∈ v.filesOpen ∧ (w.files k).info = (v.files k).info) ∨ (w.files k).deChanged = false

instance : Std.Refl Cleanly := ⟨fun _ _ hk => .inl ⟨hk, rfl⟩⟩

instance : IsTrans Volume Cleanly := ⟨fun u v w h h' k hk => by
  rcases h' k hk with ⟨hkv, hinfo⟩ | hclean
  · rcases h k hkv with ⟨hku, hinfo'⟩ | hclean
    · exact .inl ⟨hku, hinfo.trans hinfo'⟩
    · exact .inr ((congrArg FileInfo.deChanged hinfo).trans hclean)
  · exact .inr hclean⟩

theorem cleanly_references (g : ℕ → ℕ) (f : ℕ) (v : Volume) :
    Cleanly v (v.setFile f fun x => { x with references := g x.references }) := by
  intro k hk
  refine .inl ⟨hk, ?_⟩
  by_cases hkf : k = f
  · rw [hkf, Volume.setFile_self]
    rfl
  · exact congrArg File.info (if_neg hkf)

theorem cleanly_same (hfiles : w.files = v.files) (hopen : w.filesOpen = v.filesOpen) : Cleanly v w := by
  intro k hk
  rw [hopen] at hk
  exact .inl ⟨hk, by rw [hfiles]⟩

theorem fileGet_cleanly (de : Direntry) (s o : ℕ) : Steps Cleanly (fileGet de s o) := by
  refine .bind .state fun v => .bind (.when (.update fun x => ?_)) fun _ =>
    .bind (.update fun x => cleanly_references (· + 1) _ x) fun _ => .pure _
  intro k hk
  generalize (v.findFile de s o).getD v.nextId = f at hk ⊢
  by_cases hkf : k = f
  · right
    subst hkf
    simp [fileInit]
  · left
    refine ⟨(List.mem_cons.mp hk).resolve_left hkf, ?_⟩
    simp [fileInit, Volume.setFile, hkf]

theorem fatOpen_cleanly (d flags : ℕ) : Steps Cleanly (fatOpen d flags) := by
  have hread : ∀ s b, Steps Cleanly (fatReadbuf s b) := fun _ _ _ => cleanly_same rfl rfl
  refine .bind .state fun v => ?_
  cases (v.dentries d).denies flags with
  | some e => exact .fail e
  | none =>
    refine .bind (.bind .state fun x => ?_) fun de => .bind (fileGet_cleanly _ _ _) fun f => .bind ?_ fun r => ?_
    · cases (x.dentries d).parent with
      | none => exact .pure _
      | some _ => exact .bind (hread _ _) fun _ => .bind (fun _ => cleanly_same rfl rfl) fun _ => .pure _
    · refine .bind (fun x => ?_) fun r => ?_
      · rw [run_slabmemAlloc]
        split <;> exact cleanly_same rfl rfl
      · cases r with
        | none => exact .pure _
        | some c =>
          exact .bind (.update fun _ => cleanly_same rfl rfl) fun _ =>
            .bind (.update fun _ => cleanly_same rfl rfl) fun _ => .pure _
    · cases r with
      | some c => exact .pure _
      | none =>
        refine .bind (.bind (.update fun x => cleanly_references (· - 1) _ x) fun _ => .update fun x => ?_) fun _ => .fail _
        split
        · exact fun k hk => .inl ⟨List.mem_of_mem_erase hk, rfl⟩
        · exact Std.Refl.refl x

theorem fatOpen_memory (h : Tidy G v) (hop : Openable G v d) {flags : ℕ} (hden : (v.dentries d).denies flags = none) :
    (v.env.oom v.ticks = true → ∃ w, (fatOpen d flags).run v = (.error .enomem, w)) ∧
      (v.env.oom v.ticks = false → ∃ c w, (fatOpen d flags).run v = (.ok c, w) ∧ w.env = v.env ∧ w.ticks = v.ticks + 1) := by
  obtain ⟨de, u, hrun, hu, -⟩ := fetchDirentry_run h hop
  have henv : u.env = v.env := by
    rw [hu.eq]
    rfl
  have hticks : u.ticks = v.ticks := by
    rw [hu.eq]
    rfl
  obtain ⟨f, x, hrun', henv', hticks'⟩ : ∃ f x, (fileGet de (v.dentries d).deSector ((v.dentries d).secofs v.geo)).run u =
      (.ok f, x) ∧ x.env = v.env ∧ x.ticks = v.ticks := by
    rw [← henv, ← hticks]
    unfold fileGet Prog.when
    rw [run_bind_state]
    split <;> exact ⟨_, _, rfl, rfl, rfl⟩
  have halloc := run_slabmemAlloc x
  rw [henv', hticks'] at halloc
  constructor
  · intro hoom
    rw [if_pos hoom] at halloc
    refine ⟨((fatOpen d flags).run v).2, Prod.ext ?_ rfl⟩
    rw [fatOpen, run_bind_state, hden]
    dsimp only
    rw [run_bind_ok hrun, run_bind_ok hrun', channelGet, run_bind, run_bind, halloc]
    rfl
  · intro hmem
    rw [if_neg (by rw [hmem]; exact Bool.false_ne_true)] at halloc
    have hopen : (fatOpen d flags).run v = (.ok x.nextId,
        dget d (channelInit x.nextId f (some d) flags { x with ticks := v.ticks + 1, nextId := x.nextId + 1 })) := by
      rw [fatOpen, run_bind_state, hden]
      dsimp only
      rw [run_bind_ok hrun, run_bind_ok hrun', channelGet, run_bind, run_bind, halloc, ← henv']
      rfl
    exact ⟨_, _, hopen, henv', rfl⟩

theorem fatOpen_admitted (h : Tidy G v) (hc : Counts hd hf [] v) (hop : Openable G v d)
    (hst : G.named → ∀ f ∈ G.stale, f < v.nextId) {flags : ℕ} (hden : (v.dentries d).denies flags = none)
    (hmem : v.env.oom v.ticks = false) :
    ∃ c w, (fatOpen d flags).run v = (.ok c, w) ∧ Admitted G v d flags c w ∧ w.ticks = v.ticks + 1 := by
  obtain ⟨c, w, hrun, -, hticks⟩ := (fatOpen_memory h hop hden).2 hmem
  obtain ⟨r, x, hrun', hr⟩ := fatOpen_cases h hc hop hst flags
  rw [hrun] at hrun'
  cases hrun'
  exact ⟨c, w, hrun, hr.2, hticks⟩

/-- The byte is the one that the changed entry of an open file has for its place. -/
def Volume.Pending (v : Volume) (q : ℕ) (b : UInt8) : Prop :=
  ∃ f ∈ v.filesOpen, (v.files f).deChanged = true ∧ (books v).fileAddr f ≠ 0 ∧
    ∃ i < 32, q = (books v).fileAddr f + i ∧ b = (v.files f).de i

/-- Nothing is changed but that changed entries of open files may have been written back. -/
structure Flushed (v w : Volume) : Prop where
  geo : w.geo = v.geo
  byte : ∀ q, w.byte q = v.byte q ∨ v.Pending q (w.byte q)
  files : Cleanly v w

theorem Cleanly.pending {q : ℕ} {b : UInt8} (h : Cleanly v w) (hgeo : w.geo = v.geo) (hp : w.Pending q b) : v.Pending q b := by
  obtain ⟨f, hf, hch, h0, i, hi, hq, hb⟩ := hp
  rcases h f hf with ⟨hfv, hinfo⟩ | hclean
  · have haddr : (books w).fileAddr f = (books v).fileAddr f := by
      change (w.files f).info.addr w.geo = (v.files f).info.addr v.geo
      rw [hinfo, hgeo]
    rw [haddr] at h0 hq
    have hde : (w.files f).de = (v.files f).de := congrArg FileInfo.de hinfo
    have hchv : (w.files f).deChanged = (v.files f).deChanged := congrArg FileInfo.deChanged hinfo
    exact ⟨f, hfv, hchv ▸ hch, h0, i, hi, hq, hde ▸ hb⟩
  · rw [hclean] at hch
    cases hch

theorem Flushed.trans (h : Flushed u v) (h' : Flushed v w) : Flushed u w where
  geo := h'.geo.trans h.geo
  byte q := by
    rcases h'.byte q with hq | hq
    · rw [hq]
      exact h.byte q
    · exact .inr (h.files.pending h.geo hq)
  files := IsTrans.trans _ _ _ h.files h'.files

theorem overlay_cases (a : ℕ) (de : Direntry) (m : ℕ → UInt8) (q : ℕ) :
    overlay a de.toBytes m q = m q ∨ ∃ i < 32, q = a + i ∧ overlay a de.toBytes m q = de i := by
  by_cases hin : a ≤ q ∧ q < a + 32
  · refine .inr ⟨q - a, by omega, by omega, ?_⟩
    have hat := overlay_at (o := a) (d := m) (i := q - a) (show q - a < de.toBytes.length by rw [length_toBytes]; omega)
    rw [Nat.add_sub_cancel' hin.1] at hat
    rw [hat, toBytes_getD _ (by omega)]
  · left
    rcases Nat.lt_or_ge q a with hlt | hge
    · exact overlay_of_lt hlt
    · apply overlay_of_ge
      rw [length_toBytes]
      omega

theorem Shut.flushed (h : Shut f v w) : Flushed v w := by
  refine ⟨h.geo, fun q => ?_, fun k hk => ?_⟩
  · rcases h.written with hw | ⟨hch, h0, hf, hw⟩
    · exact .inl (congrFun hw q)
    · rw [hw]
      exact (overlay_cases _ _ v.byte q).imp_right fun hi => ⟨f, hf, hch, h0, hi⟩
  · have hinfo := h.file k
    cases hch : (w.files k).deChanged with
    | false => exact .inr rfl
    | true =>
      refine .inl ⟨h.filesOpen hk, ?_⟩
      have hv : (v.files k).deChanged = true := by
        by_contra hno
        rw [Bool.not_eq_true] at hno
        rw [h.changed k (.inl hno), hno] at hch
        cases hch
      rw [hinfo, hch, ← hv]
      rfl

theorem Flushed.opened (hgeo : w.geo = v.geo) (hbyte : w.byte = v.byte) (hc : Cleanly v w) : Flushed v w :=
  ⟨hgeo, fun q => .inl (congrFun hbyte q), hc⟩

end Pending

end FreeDos32.Fat
