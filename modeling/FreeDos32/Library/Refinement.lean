import FreeDos32.Library.Prog

namespace FreeDos32.Prog

variable {σ τ ε α β κ : Type} {P P' : τ → σ → Prop} {Q Q' : α → τ → σ → Prop} {E E' : ε → τ → σ → Prop}

/-- From related states a call ends as its abstract counterpart does, in related states. -/
def Refines (P : τ → σ → Prop) (x : Prog σ ε α) (y : Prog τ ε α) (Q : α → τ → σ → Prop) (E : ε → τ → σ → Prop) : Prop :=
  ∀ s t, P t s → (x.run s).1 = (y.run t).1 ∧ match (y.run t).1 with
    | .ok a => Q a (y.run t).2 (x.run s).2
    | .error e => E e (y.run t).2 (x.run s).2
    | .hang => True

namespace Refines

theorem conseq {x : Prog σ ε α} {y : Prog τ ε α} (h : Refines P' x y Q' E') (hp : ∀ t s, P t s → P' t s)
    (hq : ∀ a t s, Q' a t s → Q a t s) (he : ∀ e t s, E' e t s → E e t s) : Refines P x y Q E := by
  intro s t hst
  obtain ⟨hsame, hpost⟩ := h s t (hp t s hst)
  refine ⟨hsame, ?_⟩
  rcases hy : y.run t with ⟨a | e | _, t'⟩ <;> rw [hy] at hpost
  · exact hq _ _ _ hpost
  · exact he _ _ _ hpost
  · trivial

/-- To fix the abstract state is to assume whatever is known of it. -/
theorem of_fixed {x : Prog σ ε α} {y : Prog τ ε α} {c : τ → Prop}
    (h : ∀ t, c t → Refines (fun t' s => t' = t ∧ P t' s) x y Q E) : Refines (fun t s => c t ∧ P t s) x y Q E := by
  intro s t hst
  exact h t hst.1 s t ⟨rfl, hst.2⟩

/-- What the abstract call leaves alone is still there. -/
theorem frame {γ : Type} {x : Prog σ ε α} {y : Prog τ ε α} {g : τ → γ} (hg : Keeps g y) (h : Refines P x y Q E) (b : γ) :
    Refines (fun t s => g t = b ∧ P t s) x y (fun a t s => g t = b ∧ Q a t s) fun e t s => g t = b ∧ E e t s := by
  intro s t hst
  obtain ⟨hsame, hpost⟩ := h s t hst.2
  have hkeep := (hg t).trans hst.1
  refine ⟨hsame, ?_⟩
  rcases hy : y.run t with ⟨a | e | _, t'⟩ <;> rw [hy] at hpost hkeep
  · exact ⟨hkeep, hpost⟩
  · exact ⟨hkeep, hpost⟩
  · trivial

theorem pure (a : α) (h : ∀ t s, P t s → Q a t s) :
    Refines P (Pure.pure a : Prog σ ε α) (Pure.pure a : Prog τ ε α) Q E := by
  intro s t hst
  exact ⟨rfl, h t s hst⟩

theorem fail (e : ε) (h : ∀ t s, P t s → E e t s) :
    Refines P (Prog.fail e : Prog σ ε α) (Prog.fail e : Prog τ ε α) Q E := by
  intro s t hst
  exact ⟨rfl, h t s hst⟩

theorem bind {x : Prog σ ε α} {y : Prog τ ε α} {f : α → Prog σ ε β} {g : α → Prog τ ε β} {R : α → τ → σ → Prop}
    {Q : β → τ → σ → Prop} (hx : Refines P x y R E) (hf : ∀ a, Refines (R a) (f a) (g a) Q E) :
    Refines P (x >>= f) (y >>= g) Q E := by
  intro s t hst
  obtain ⟨hsame, hpost⟩ := hx s t hst
  rw [run_bind, run_bind]
  rcases hxs : x.run s with ⟨r, s'⟩
  rcases hyt : y.run t with ⟨a | e | _, t'⟩ <;> rw [hxs, hyt] at hsame hpost <;> subst hsame
  · exact hf a s' t' hpost
  · exact ⟨rfl, hpost⟩
  · exact ⟨rfl, trivial⟩

theorem bind_state {f : σ → Prog σ ε α} {g : τ → Prog τ ε α}
    (h : ∀ s t, P t s → Refines (fun t' s' => t' = t ∧ s' = s) (f s) (g t) Q E) :
    Refines P (Prog.state >>= f) (Prog.state >>= g) Q E := by
  intro s t hst
  exact h s t hst s t ⟨rfl, rfl⟩

theorem update {f : σ → σ} {g : τ → τ} {Q : Unit → τ → σ → Prop} (h : ∀ t s, P t s → Q () (g t) (f s)) :
    Refines P (Prog.update f : Prog σ ε Unit) (Prog.update g : Prog τ ε Unit) Q E := by
  intro s t hst
  exact ⟨rfl, h t s hst⟩

theorem ite {c d : Prop} [Decidable c] [Decidable d] {x x' : Prog σ ε α} {y y' : Prog τ ε α} (hcd : c ↔ d)
    (hx : d → Refines P x y Q E) (hx' : ¬d → Refines P x' y' Q E) :
    Refines P (if c then x else x') (if d then y else y') Q E := by
  by_cases hd : d
  · rw [if_pos hd, if_pos (hcd.mpr hd)]
    exact hx hd
  · rw [if_neg hd, if_neg (mt hcd.mp hd)]
    exact hx' hd

theorem attempt {x : Prog σ ε α} {y : Prog τ ε α} (hx : Refines P x y Q E) {Q' : Except ε α → τ → σ → Prop}
    (hok : ∀ a t s, Q a t s → Q' (.ok a) t s) (herror : ∀ e t s, E e t s → Q' (.error e) t s) :
    Refines P x.attempt y.attempt Q' E' := by
  intro s t hst
  obtain ⟨hsame, hpost⟩ := hx s t hst
  unfold Prog.attempt
  rcases hxs : x.run s with ⟨r, s'⟩
  rcases hyt : y.run t with ⟨a | e | _, t'⟩ <;> rw [hxs, hyt] at hsame hpost <;> subst hsame
  · simp only [hxs, hyt]
    exact ⟨trivial, hok _ _ _ hpost⟩
  · simp only [hxs, hyt]
    exact ⟨trivial, herror _ _ _ hpost⟩
  · simp only [hxs, hyt]
    exact ⟨trivial, trivial⟩

end Refines

/-- A call that always comes to an end. -/
def Returns (x : Prog σ ε α) : Prop := ∀ s, (x.run s).1 ≠ .hang

namespace Returns

theorem pure (a : α) : Returns (Pure.pure a : Prog σ ε α) := fun _ => nofun

theorem fail (e : ε) : Returns (Prog.fail e : Prog σ ε α) := fun _ => nofun

theorem state : Returns (Prog.state : Prog σ ε σ) := fun _ => nofun

theorem update (g : σ → σ) : Returns (Prog.update g : Prog σ ε Unit) := fun _ => nofun

theorem bind {x : Prog σ ε α} {f : α → Prog σ ε β} (hx : Returns x) (hf : ∀ a, Returns (f a)) : Returns (x >>= f) := by
  intro s
  have h := hx s
  rw [run_bind]
  rcases hxs : x.run s with ⟨a | e | _, t⟩ <;> rw [hxs] at h
  · exact hf a t
  · exact nofun
  · exact absurd rfl h

theorem ite {c : Prop} [Decidable c] {x y : Prog σ ε α} (hx : Returns x) (hy : Returns y) :
    Returns (if c then x else y) := by
  split
  · exact hx
  · exact hy

end Returns

/-- The requests one after another; the replies are collected, errors among them. -/
def inOrder (exec : κ → Prog σ ε α) : List κ → Prog σ ε (List (Except ε α))
  | [] => pure []
  | k :: ks => do
    let reply ← (exec k).attempt
    let replies ← inOrder exec ks
    pure (reply :: replies)

/-- Requests that are answered as their abstract counterparts are, are so one after another. -/
theorem Refines.inOrder {R : τ → σ → Prop} {exec : κ → Prog σ ε α} {answer : κ → Prog τ ε α} (ks : List κ)
    (h : ∀ k ∈ ks, Refines R (exec k) (answer k) (fun _ => R) fun _ => R) :
    Refines R (inOrder exec ks) (inOrder answer ks) (fun _ => R) fun _ _ _ => False := by
  induction ks with
  | nil => exact .pure _ fun _ _ h => h
  | cons k ks ih =>
    have hreply : Refines R (exec k).attempt (answer k).attempt (fun _ => R) fun _ _ _ => False :=
      .attempt (h k List.mem_cons_self) (fun _ _ _ h => h) fun _ _ _ h => h
    refine .bind hreply fun reply => ?_
    refine .bind (ih fun k' hk' => h k' (List.mem_cons_of_mem k hk')) fun replies => ?_
    exact .pure _ fun _ _ h => h

theorem inOrder_returns {exec : κ → Prog σ ε α} (h : ∀ k, Returns (exec k)) (ks : List κ) (s : σ) :
    ∃ replies t, (inOrder exec ks).run s = (.ok replies, t) := by
  induction ks generalizing s with
  | nil => exact ⟨[], s, rfl⟩
  | cons k ks ih =>
    have hk := h k s
    rw [Prog.inOrder]
    rcases hrun : (exec k).run s with ⟨a | e | _, t⟩ <;> rw [hrun] at hk
    · obtain ⟨replies, u, hrest⟩ := ih t
      rw [run_bind_ok (run_attempt_ok hrun), run_bind_ok hrest]
      exact ⟨_, _, rfl⟩
    · obtain ⟨replies, u, hrest⟩ := ih t
      rw [run_bind_ok (run_attempt_error hrun), run_bind_ok hrest]
      exact ⟨_, _, rfl⟩
    · exact absurd rfl hk

theorem Triple.frame {γ : Type} {x : Prog σ ε α} {g : σ → γ} {I : σ → Prop} {Q : α → σ → Prop} {E : ε → σ → Prop}
    (hg : Keeps g x) (h : Triple I x Q E) (b : γ) :
    Triple (fun s => g s = b ∧ I s) x (fun a s => g s = b ∧ Q a s) fun e s => g s = b ∧ E e s := by
  intro s hs
  have hpost := h s hs.2
  have hkeep := (hg s).trans hs.1
  rcases hx : x.run s with ⟨a | e | _, t⟩ <;> rw [hx] at hpost hkeep
  · exact ⟨hkeep, hpost⟩
  · exact ⟨hkeep, hpost⟩
  · trivial

theorem Triple.inOrder {I : σ → Prop} {exec : κ → Prog σ ε α} (ks : List κ)
    (h : ∀ k ∈ ks, Triple I (exec k) (fun _ => I) fun _ => I) :
    Triple I (Prog.inOrder exec ks) (fun _ => I) fun _ _ => False := by
  induction ks with
  | nil => exact .pure fun _ h => h
  | cons k ks ih =>
    have hrest := ih fun k' hk' => h k' (List.mem_cons_of_mem k hk')
    refine .attempt_bind (h k List.mem_cons_self) (fun a => ?_) fun e => ?_
    · exact .bind hrest fun _ => .pure fun _ h => h
    · exact .bind hrest fun _ => .pure fun _ h => h

theorem Keeps.inOrder {γ : Type} {g : σ → γ} {exec : κ → Prog σ ε α} (ks : List κ) (h : ∀ k ∈ ks, Keeps g (exec k)) :
    Keeps g (Prog.inOrder exec ks) := by
  induction ks with
  | nil => exact .pure _
  | cons k ks ih =>
    refine .bind (.attempt (h k List.mem_cons_self)) fun _ => ?_
    exact .bind (ih fun k' hk' => h k' (List.mem_cons_of_mem k hk')) fun _ => .pure _

end FreeDos32.Prog
