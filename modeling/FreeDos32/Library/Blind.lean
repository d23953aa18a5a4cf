import FreeDos32.Library.Prog

namespace FreeDos32.Prog

variable {σ τ ε α β : Type} {q : σ → σ}

/-- The call does not see what `q` changes of the state, and leaves it as it is. -/
def Blind (q : σ → σ) (x : Prog σ ε α) : Prop := ∀ s, x.run (q s) = ((x.run s).1, q (x.run s).2)

/-- The call does not see what `q` changes of the state as long as it succeeds. -/
def BlindOk (q : σ → σ) (x : Prog σ ε α) : Prop := ∀ s a t, x.run s = (.ok a, t) → x.run (q s) = (.ok a, q t)

/-- The call does not see what `q` changes of the state until it fails. -/
def BlindUntil (q : σ → σ) (x : Prog σ ε α) : Prop := ∀ s, match x.run s with
  | (.ok a, t) => x.run (q s) = (.ok a, q t)
  | (.error _, _) => True
  | (.hang, _) => (x.run (q s)).1 = .hang

namespace Blind

theorem blindUntil {x : Prog σ ε α} (h : Blind q x) : BlindUntil q x := by
  intro s
  rcases hrun : x.run s with ⟨a | e | _, t⟩
  · simp only [h s, hrun]
  · trivial
  · simp only [h s, hrun]

theorem pure (a : α) : Blind q (Pure.pure a : Prog σ ε α) := fun _ => rfl

theorem fail (e : ε) : Blind q (Prog.fail e : Prog σ ε α) := fun _ => rfl

theorem diverge : Blind q (Prog.diverge : Prog σ ε α) := fun _ => rfl

theorem reads {g : σ → α} (h : ∀ s, g (q s) = g s) : Blind q (Prog.reads g : Prog σ ε α) := fun s => by
  rw [run_reads, run_reads, h]

theorem update {g : σ → σ} (h : ∀ s, g (q s) = q (g s)) : Blind q (Prog.update g : Prog σ ε Unit) := fun s => by
  rw [run_update, run_update, h]

theorem bind {x : Prog σ ε α} {f : α → Prog σ ε β} (hx : Blind q x) (hf : ∀ a, Blind q (f a)) : Blind q (x >>= f) := by
  intro s
  rw [run_bind, run_bind, hx s]
  rcases x.run s with ⟨a | e | _, t⟩
  · exact hf a t
  · rfl
  · rfl

theorem bind_state {f : σ → Prog σ ε α} (hf : ∀ s, f (q s) = f s) (h : ∀ s, Blind q (f s)) : Blind q (Prog.state >>= f) := by
  intro s
  rw [run_bind_state, run_bind_state, hf]
  exact h s s

theorem attempt {x : Prog σ ε α} (hx : Blind q x) : Blind q x.attempt := by
  intro s
  simp only [Prog.attempt, hx s]
  rcases x.run s with ⟨a | e | _, t⟩ <;> rfl

theorem ite {c : Prop} [Decidable c] {x y : Prog σ ε α} (hx : Blind q x) (hy : Blind q y) : Blind q (if c then x else y) := by
  split
  · exact hx
  · exact hy

theorem when {c : Prop} [Decidable c] {x : Prog σ ε Unit} (hx : Blind q x) : Blind q (Prog.when c x) := ite hx (pure ())

theorem within {get : σ → τ} {set : τ → σ → σ} {q' : τ → τ} {x : Prog τ ε α} (hget : ∀ s, get (q s) = q' (get s))
    (hset : ∀ c s, set (q' c) (q s) = q (set c s)) (hx : Blind q' x) : Blind q (Prog.within get set x) := by
  intro s
  rw [run_within, run_within, hget, hx, hset]

end Blind

namespace BlindUntil

theorem ok {x : Prog σ ε α} (h : BlindUntil q x) : BlindOk q x := by
  intro s a t hrun
  have hs := h s
  rwa [hrun] at hs

theorem hang {x : Prog σ ε α} (h : BlindUntil q x) {s : σ} (hrun : (x.run s).1 = .hang) : (x.run (q s)).1 = .hang := by
  have hs := h s
  rcases hx : x.run s with ⟨a | e | _, t⟩ <;> rw [hx] at hrun hs
  · cases hrun
  · cases hrun
  · exact hs

theorem pure (a : α) : BlindUntil q (Pure.pure a : Prog σ ε α) := Blind.blindUntil (.pure a)

theorem fail (e : ε) : BlindUntil q (Prog.fail e : Prog σ ε α) := Blind.blindUntil (.fail e)

theorem diverge : BlindUntil q (Prog.diverge : Prog σ ε α) := Blind.blindUntil .diverge

theorem reads {g : σ → α} (h : ∀ s, g (q s) = g s) : BlindUntil q (Prog.reads g : Prog σ ε α) := Blind.blindUntil (.reads h)

theorem update {g : σ → σ} (h : ∀ s, g (q s) = q (g s)) : BlindUntil q (Prog.update g : Prog σ ε Unit) :=
  Blind.blindUntil (.update h)

theorem bind {x : Prog σ ε α} {f : α → Prog σ ε β} (hx : BlindUntil q x) (hf : ∀ a, BlindUntil q (f a)) :
    BlindUntil q (x >>= f) := by
  intro s
  have hs := hx s
  rw [run_bind, run_bind]
  rcases hrun : x.run s with ⟨a | e | _, t⟩ <;> rw [hrun] at hs
  · rw [hs]
    exact hf a t
  · trivial
  · rcases hq : x.run (q s) with ⟨a | e | _, u⟩ <;> rw [hq] at hs
    · cases hs
    · cases hs

theorem bind_state {f : σ → Prog σ ε α} (hf : ∀ s, f (q s) = f s) (h : ∀ s, BlindUntil q (f s)) :
    BlindUntil q (Prog.state >>= f) := by
  intro s
  rw [run_bind_state, run_bind_state, hf]
  exact h s s

theorem ite {c : Prop} [Decidable c] {x y : Prog σ ε α} (hx : BlindUntil q x) (hy : BlindUntil q y) :
    BlindUntil q (if c then x else y) := by
  split
  · exact hx
  · exact hy

theorem when {c : Prop} [Decidable c] {x : Prog σ ε Unit} (hx : BlindUntil q x) : BlindUntil q (Prog.when c x) :=
  ite hx (pure ())

theorem within {get : σ → τ} {set : τ → σ → σ} {q' : τ → τ} {x : Prog τ ε α} (hget : ∀ s, get (q s) = q' (get s))
    (hset : ∀ c s, set (q' c) (q s) = q (set c s)) (hx : BlindUntil q' x) : BlindUntil q (Prog.within get set x) := by
  intro s
  have hs := hx (get s)
  rw [run_within, run_within, hget]
  rcases hrun : x.run (get s) with ⟨a | e | _, c⟩ <;> rw [hrun] at hs
  · rw [hs, hset]
  · trivial
  · exact hs

end BlindUntil

end FreeDos32.Prog
