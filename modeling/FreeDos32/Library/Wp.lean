import FreeDos32.Library.Loops

namespace FreeDos32.Prog

variable {σ ε φ ρ α β : Type}

/-- Total correctness from one state: the call comes to an end, with `Q` after a value and `E` after an error. -/
def Ends (x : Prog σ ε α) (s : σ) (Q : α → σ → Prop) (E : ε → σ → Prop) : Prop := match x.run s with
  | (.ok a, t) => Q a t
  | (.error e, t) => E e t
  | (.hang, _) => False

/-- What a function owes for the ways in which its body can end. -/
def exits (Q : ρ → σ → Prop) (E : φ → σ → Prop) : Exit ρ φ → σ → Prop
  | .returns r => Q r
  | .fault e => E e

section Rules

variable {Q Q' : α → σ → Prop} {E E' : ε → σ → Prop} {s : σ}

theorem Ends.mono {x : Prog σ ε α} (h : Ends x s Q E) (hq : ∀ a t, Q a t → Q' a t) (he : ∀ e t, E e t → E' e t) :
    Ends x s Q' E' := by
  unfold Ends at h ⊢
  rcases hx : x.run s with ⟨_ | _ | _, t⟩ <;> rw [hx] at h
  · exact hq _ _ h
  · exact he _ _ h
  · exact h

theorem Ends.and {x : Prog σ ε α} (h : Ends x s Q E) (h' : Ends x s Q' E') :
    Ends x s (fun a t => Q a t ∧ Q' a t) (fun e t => E e t ∧ E' e t) := by
  unfold Ends at h h' ⊢
  rcases hx : x.run s with ⟨_ | _ | _, t⟩ <;> rw [hx] at h h'
  · exact ⟨h, h'⟩
  · exact ⟨h, h'⟩
  · exact h

@[simp] theorem ends_pure (a : α) : Ends (pure a) s Q E ↔ Q a s := Iff.rfl

@[simp] theorem ends_fail (e : ε) : Ends (fail e : Prog σ ε α) s Q E ↔ E e s := Iff.rfl

@[simp] theorem ends_diverge : Ends (diverge : Prog σ ε α) s Q E ↔ False := Iff.rfl

@[simp] theorem ends_state {Q : σ → σ → Prop} : Ends state s Q E ↔ Q s s := Iff.rfl

@[simp] theorem ends_reads (g : σ → α) : Ends (reads g) s Q E ↔ Q (g s) s := Iff.rfl

@[simp] theorem ends_update (g : σ → σ) {Q : Unit → σ → Prop} : Ends (update g) s Q E ↔ Q () (g s) := Iff.rfl

@[simp] theorem ends_bind (x : Prog σ ε α) (f : α → Prog σ ε β) {Q : β → σ → Prop} :
    Ends (x >>= f) s Q E ↔ Ends x s (fun a t => Ends (f a) t Q E) E := by
  unfold Ends
  rw [run_bind]
  rcases hx : x.run s with ⟨_ | _ | _, t⟩ <;> rfl

@[simp] theorem ends_when (c : Prop) [Decidable c] (x : Prog σ ε Unit) {Q : Unit → σ → Prop} :
    Ends (when c x) s Q E ↔ (c → Ends x s Q E) ∧ (¬c → Q () s) := by
  by_cases hc : c <;> simp [Prog.when, hc]

theorem ends_ite (c : Prop) [Decidable c] (x y : Prog σ ε α) :
    Ends (if c then x else y) s Q E ↔ (c → Ends x s Q E) ∧ (¬c → Ends y s Q E) := by
  by_cases hc : c <;> simp [hc]

@[simp] theorem ends_function (x : Prog σ (Exit ρ φ) ρ) {Q : ρ → σ → Prop} {E : φ → σ → Prop} :
    Ends (function x) s Q E ↔ Ends x s Q (exits Q E) := by
  unfold Ends function
  rcases hx : x.run s with ⟨_ | (_ | _) | _, t⟩ <;> simp only [hx] <;> rfl

@[simp] theorem ends_call (x : Prog σ φ α) {E : Exit ρ φ → σ → Prop} :
    Ends (call x) s Q E ↔ Ends x s Q (fun e => E (.fault e)) := by
  unfold Ends call
  rcases hx : x.run s with ⟨_ | _ | _, t⟩ <;> simp only [hx]

theorem ends_iff_of_run {x : Prog σ ε α} {t : σ} {a : α} (h : x.run s = (.ok a, t)) : Ends x s Q E ↔ Q a t := by
  unfold Ends
  rw [h]

theorem Ends.exists_run {x : Prog σ ε α} (h : Ends x s Q fun _ _ => False) : ∃ a t, x.run s = (.ok a, t) ∧ Q a t := by
  unfold Ends at h
  rcases hx : x.run s with ⟨a | _ | _, t⟩ <;> rw [hx] at h
  · exact ⟨a, t, rfl, h⟩
  · exact h.elim
  · exact h.elim

theorem Ends.exists_snd {x : Prog σ ε α} (h : Ends x s Q fun _ _ => False) : ∃ a, Q a (x.run s).2 := by
  obtain ⟨a, t, hrun, hq⟩ := h.exists_run
  exact ⟨a, hrun ▸ hq⟩

theorem Ends.elim {x : Prog σ ε α} (h : Ends x s Q E) (hq : ∀ a t, ¬Q a t) (he : ∀ e t, ¬E e t) : False := by
  unfold Ends at h
  rcases hx : x.run s with ⟨_ | _ | _, t⟩ <;> rw [hx] at h
  · exact hq _ _ h
  · exact he _ _ h
  · exact h

end Rules

@[simp] theorem exits_returns (Q : ρ → σ → Prop) (E : φ → σ → Prop) (r : ρ) (s : σ) :
    exits Q E (.returns r) s ↔ Q r s := Iff.rfl

@[simp] theorem exits_fault (Q : ρ → σ → Prop) (E : φ → σ → Prop) (e : φ) (s : σ) :
    exits Q E (.fault e) s ↔ E e s := Iff.rfl

theorem ends_loop_add (f : ℕ → β → Prog σ ε β) (m n i : ℕ) (b : β) {s : σ} {Q : β → σ → Prop} {E : ε → σ → Prop} :
    Ends (Prog.loop f (m + n) i b) s Q E ↔
      Ends (Prog.loop f m i b) s (fun c t => Ends (Prog.loop f n (i + m) c) t Q E) E := by
  induction m generalizing i b s with
  | zero => rw [Nat.zero_add, Nat.add_zero, Prog.loop, ends_pure]
  | succ m ih =>
    rw [show m + 1 + n = m + n + 1 by omega, Prog.loop, Prog.loop, ends_bind, ends_bind]
    simp only [ih, show i + 1 + m = i + (m + 1) by omega]

theorem Ends.loop {f : ℕ → β → Prog σ ε β} {I : ℕ → β → σ → Prop} {E : ε → σ → Prop} {n i : ℕ} {b : β} {s : σ}
    (h : ∀ k b s, i ≤ k → k < i + n → I k b s → Ends (f k b) s (I (k + 1)) E) (hs : I i b s) :
    Ends (Prog.loop f n i b) s (I (i + n)) E := by
  induction n generalizing i b s with
  | zero => exact hs
  | succ n ih =>
    rw [Prog.loop, ends_bind]
    refine (h i b s (Nat.le_refl i) (by omega) hs).mono (fun b' t ht => ?_) fun _ _ he => he
    have hrest := ih (i := i + 1) (b := b') (fun k c u hk hk' => h k c u (by omega) (by omega)) ht
    rwa [show i + 1 + n = i + (n + 1) by omega] at hrest

theorem Ends.loop_zero {f : ℕ → β → Prog σ ε β} {I : ℕ → β → σ → Prop} {E : ε → σ → Prop} {n : ℕ} {b : β} {s : σ}
    (hs : I 0 b s) (h : ∀ k b s, k < n → I k b s → Ends (f k b) s (I (k + 1)) E) : Ends (Prog.loop f n 0 b) s (I n) E := by
  have hloop := Ends.loop (i := 0) (n := n) (E := E) (fun k b s _ hk => h k b s (by omega)) hs
  rwa [Nat.zero_add] at hloop

theorem ends_congr {x : Prog σ ε α} {s : σ} {Q Q' : α → σ → Prop} {E : ε → σ → Prop}
    (h : ∀ a t, x.run s = (.ok a, t) → (Q a t ↔ Q' a t)) : Ends x s Q E ↔ Ends x s Q' E := by
  unfold Ends
  rcases hx : x.run s with ⟨a | e | _, t⟩
  · exact h a t hx
  · exact Iff.rfl
  · exact Iff.rfl

theorem ends_and_iff {x : Prog σ ε α} {s : σ} {Q R : α → σ → Prop} {E : ε → σ → Prop} :
    Ends x s (fun a t => Q a t ∧ R a t) E ↔ Ends x s Q E ∧ ∀ a t, x.run s = (.ok a, t) → R a t := by
  unfold Ends
  rcases hx : x.run s with ⟨a | e | _, t⟩
  · exact ⟨fun h => ⟨h.1, fun b u hb => by cases hb; exact h.2⟩, fun h => ⟨h.1, h.2 a t rfl⟩⟩
  · exact ⟨fun h => ⟨h, fun b u hb => by cases hb⟩, fun h => h.1⟩
  · exact ⟨fun h => h.elim, fun h => h.1.elim⟩

/-- A loop keeps what no round can mend if and only if each round that is reached keeps it. -/
theorem ends_loop_iff_rounds {f : ℕ → β → Prog σ ε β} {I : σ → Prop} {E : ε → σ → Prop} (hE : ∀ e t, E e t → I t)
    (hback : ∀ k b t, I ((f k b).run t).2 → I t) {n i : ℕ} {b : β} {s : σ} :
    Ends (Prog.loop f n i b) s (fun _ t => I t) E ↔ I s ∧ ∀ m < n, ∀ c t,
      (Prog.loop f m i b).run s = (.ok c, t) → Ends (f (i + m) c) t (fun _ u => I u) E := by
  induction n generalizing i b s with
  | zero => exact ⟨fun h => ⟨h, fun m hm => absurd hm (Nat.not_lt_zero m)⟩, fun h => h.1⟩
  | succ n ih =>
    rw [Prog.loop, ends_bind]
    simp only [ih, ends_and_iff]
    constructor
    · rintro ⟨hfirst, hrest⟩
      refine ⟨?_, fun m hm c t ht => ?_⟩
      · refine hback i b s ?_
        unfold Ends at hfirst
        rcases hx : (f i b).run s with ⟨a | e | _, t⟩ <;> rw [hx] at hfirst
        · exact hfirst
        · exact hE e t hfirst
        · exact hfirst.elim
      · cases m with
        | zero =>
          cases ht
          exact hfirst
        | succ m =>
          rw [Prog.loop, run_bind] at ht
          rcases hx : (f i b).run s with ⟨a | e | _, u⟩ <;> rw [hx] at ht
          · have hround := hrest a u hx m (by omega) c t ht
            rwa [show i + 1 + m = i + (m + 1) by omega] at hround
          · cases ht
          · cases ht
    · rintro ⟨-, hall⟩
      refine ⟨hall 0 (by omega) b s rfl, fun a u hx m hm c t ht => ?_⟩
      have hround := hall (m + 1) (by omega) c t ((run_bind_ok hx).trans ht)
      rwa [show i + (m + 1) = i + 1 + m by omega] at hround

end FreeDos32.Prog
