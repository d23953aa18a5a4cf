import Mathlib.Order.Defs.Unbundled

namespace FreeDos32

/-- A call returns a value, returns an error code, or never returns. -/
inductive Outcome (ε α : Type) where
  | ok (a : α)
  | error (e : ε)
  | hang
  deriving DecidableEq

/-- A stateful call; what it has changed stays changed when it ends in an error. -/
structure Prog (σ ε α : Type) where
  run : σ → Outcome ε α × σ

namespace Prog

variable {σ τ ε α β : Type}

def andThen (x : Prog σ ε α) (f : α → Prog σ ε β) : Prog σ ε β := ⟨fun s => match x.run s with
  | (.ok a, t) => (f a).run t
  | (.error e, t) => (.error e, t)
  | (.hang, t) => (.hang, t)⟩

instance : Monad (Prog σ ε) where
  pure a := ⟨fun s => (.ok a, s)⟩
  bind := andThen

def state : Prog σ ε σ := ⟨fun s => (.ok s, s)⟩

def reads (g : σ → α) : Prog σ ε α := ⟨fun s => (.ok (g s), s)⟩

def update (g : σ → σ) : Prog σ ε Unit := ⟨fun s => (.ok (), g s)⟩

def fail (e : ε) : Prog σ ε α := ⟨fun s => (.error e, s)⟩

def diverge : Prog σ ε α := ⟨fun s => (.hang, s)⟩

/-- The call's result as a value, for callers that look at the error code themselves. -/
def attempt (x : Prog σ ε α) : Prog σ ε (Except ε α) := ⟨fun s => match x.run s with
  | (.ok a, t) => (.ok (.ok a), t)
  | (.error e, t) => (.ok (.error e), t)
  | (.hang, t) => (.hang, t)⟩

def ofExcept : Except ε α → Prog σ ε α
  | .ok a => pure a
  | .error e => fail e

/-- The call, made only under a condition. -/
def when (c : Prop) [Decidable c] (x : Prog σ ε Unit) : Prog σ ε Unit := if c then x else pure ()

/-- Runs a call that only knows one component of the state. -/
def within (get : σ → τ) (set : τ → σ → σ) (x : Prog τ ε α) : Prog σ ε α := ⟨fun s =>
  ((x.run (get s)).1, set (x.run (get s)).2 s)⟩

/-- What is true of the result and the state if the call returns a value. -/
def After (x : Prog σ ε α) (s : σ) (P : α → σ → Prop) : Prop := match x.run s with
  | (.ok a, t) => P a t
  | _ => True

instance (x : Prog σ ε α) (s : σ) (P : α → σ → Prop) [∀ a t, Decidable (P a t)] : Decidable (After x s P) :=
  match h : x.run s with
  | (.ok a, t) => decidable_of_iff (P a t) (by simp [After, h])
  | (.error _, _) => .isTrue (by simp [After, h])
  | (.hang, _) => .isTrue (by simp [After, h])

theorem After.ok {x : Prog σ ε α} {s t : σ} {P : α → σ → Prop} {a : α} (h : After x s P)
    (hrun : x.run s = (.ok a, t)) : P a t := by
  rwa [After, hrun] at h

@[simp] theorem run_pure (a : α) (s : σ) : (pure a : Prog σ ε α).run s = (.ok a, s) := rfl

@[simp] theorem run_state (s : σ) : (state : Prog σ ε σ).run s = (.ok s, s) := rfl

@[simp] theorem run_reads (g : σ → α) (s : σ) : (reads g : Prog σ ε α).run s = (.ok (g s), s) := rfl

@[simp] theorem run_update (g : σ → σ) (s : σ) : (update g : Prog σ ε Unit).run s = (.ok (), g s) := rfl

@[simp] theorem run_fail (e : ε) (s : σ) : (fail e : Prog σ ε α).run s = (.error e, s) := rfl

@[simp] theorem run_diverge (s : σ) : (diverge : Prog σ ε α).run s = (.hang, s) := rfl

theorem when_pos {c : Prop} [Decidable c] (h : c) (x : Prog σ ε Unit) : when c x = x := if_pos h

theorem when_neg {c : Prop} [Decidable c] (h : ¬c) (x : Prog σ ε Unit) : when c x = pure () := if_neg h

theorem run_bind (x : Prog σ ε α) (f : α → Prog σ ε β) (s : σ) :
    (x >>= f).run s = match x.run s with
      | (.ok a, t) => (f a).run t
      | (.error e, t) => (.error e, t)
      | (.hang, t) => (.hang, t) := rfl

theorem run_bind_ok {x : Prog σ ε α} {f : α → Prog σ ε β} {s t : σ} {a : α}
    (h : x.run s = (.ok a, t)) : (x >>= f).run s = (f a).run t := by
  rw [run_bind, h]

theorem run_bind_error {x : Prog σ ε α} {f : α → Prog σ ε β} {s t : σ} {e : ε}
    (h : x.run s = (.error e, t)) : (x >>= f).run s = (.error e, t) := by
  rw [run_bind, h]

theorem exists_of_bind_ok {x : Prog σ ε α} {f : α → Prog σ ε β} {s u : σ} {b : β} (h : (x >>= f).run s = (.ok b, u)) :
    ∃ a t, x.run s = (.ok a, t) ∧ (f a).run t = (.ok b, u) := by
  rw [run_bind] at h
  split at h
  · next a t hx => exact ⟨a, t, hx, h⟩
  · cases congrArg Prod.fst h
  · cases congrArg Prod.fst h

@[simp] theorem run_bind_state (f : σ → Prog σ ε β) (s : σ) :
    ((state : Prog σ ε σ) >>= f).run s = (f s).run s := rfl

@[simp] theorem run_bind_reads (g : σ → α) (f : α → Prog σ ε β) (s : σ) :
    ((reads g : Prog σ ε α) >>= f).run s = (f (g s)).run s := rfl

@[simp] theorem run_bind_update (g : σ → σ) (f : Unit → Prog σ ε β) (s : σ) :
    ((update g : Prog σ ε Unit) >>= f).run s = (f ()).run (g s) := rfl

@[simp] theorem run_bind_pure (a : α) (f : α → Prog σ ε β) (s : σ) :
    ((pure a : Prog σ ε α) >>= f).run s = (f a).run s := rfl

theorem run_attempt_ok {x : Prog σ ε α} {s t : σ} {a : α} (h : x.run s = (.ok a, t)) :
    x.attempt.run s = (.ok (.ok a), t) := by
  simp only [attempt, h]

theorem run_attempt_error {x : Prog σ ε α} {s t : σ} {e : ε} (h : x.run s = (.error e, t)) :
    x.attempt.run s = (.ok (.error e), t) := by
  simp only [attempt, h]

theorem run_within (get : σ → τ) (set : τ → σ → σ) (x : Prog τ ε α) (s : σ) :
    (within get set x).run s = ((x.run (get s)).1, set (x.run (get s)).2 s) := rfl

/-- Partial correctness: `Q` after a value, `E` after an error code, nothing for a call that hangs. -/
def Triple (P : σ → Prop) (x : Prog σ ε α) (Q : α → σ → Prop) (E : ε → σ → Prop) : Prop :=
  ∀ s, P s → match x.run s with
    | (.ok a, t) => Q a t
    | (.error e, t) => E e t
    | (.hang, _) => True

namespace Triple

variable {P P' : σ → Prop} {Q Q' : α → σ → Prop} {E E' : ε → σ → Prop}

theorem conseq {x : Prog σ ε α} (h : Triple P' x Q' E') (hp : ∀ s, P s → P' s)
    (hq : ∀ a s, Q' a s → Q a s) (he : ∀ e s, E' e s → E e s) : Triple P x Q E := by
  intro s hs
  have h' := h s (hp s hs)
  rcases hx : x.run s with ⟨_ | _ | _, t⟩ <;> rw [hx] at h'
  · exact hq _ _ h'
  · exact he _ _ h'
  · trivial

theorem pure {a : α} (h : ∀ s, P s → Q a s) : Triple P (Pure.pure a : Prog σ ε α) Q E :=
  fun s hs => h s hs

theorem fail {e : ε} (h : ∀ s, P s → E e s) : Triple P (Prog.fail e : Prog σ ε α) Q E :=
  fun s hs => h s hs

theorem diverge : Triple P (Prog.diverge : Prog σ ε α) Q E := fun _ _ => trivial

theorem bind {x : Prog σ ε α} {f : α → Prog σ ε β} {R : α → σ → Prop} {Q : β → σ → Prop}
    (hx : Triple P x R E) (hf : ∀ a, Triple (R a) (f a) Q E) : Triple P (x >>= f) Q E := by
  intro s hs
  have h := hx s hs
  rw [run_bind]
  rcases hxs : x.run s with ⟨_ | _ | _, t⟩ <;> rw [hxs] at h
  · exact hf _ t h
  · exact h
  · trivial

theorem state {Q : σ → σ → Prop} (h : ∀ s, P s → Q s s) : Triple P (Prog.state : Prog σ ε σ) Q E :=
  fun s hs => h s hs

theorem bind_state {f : σ → Prog σ ε α} (h : ∀ u, P u → Triple (fun s => s = u ∧ P s) (f u) Q E) :
    Triple P (Prog.state >>= f) Q E := fun s hs => h s hs s ⟨rfl, hs⟩

theorem update {g : σ → σ} {Q : Unit → σ → Prop} (h : ∀ s, P s → Q () (g s)) :
    Triple P (Prog.update g : Prog σ ε Unit) Q E := fun s hs => h s hs

theorem attempt {x : Prog σ ε α} {Q : Except ε α → σ → Prop}
    (h : Triple P x (fun a => Q (.ok a)) (fun e => Q (.error e))) : Triple P x.attempt Q E := by
  intro s hs
  have h' := h s hs
  unfold Prog.attempt
  rcases hx : x.run s with ⟨_ | _ | _, t⟩ <;> simp only [hx] at h' ⊢ <;> exact h'

theorem attempt_bind {x : Prog σ ε α} {f : Except ε α → Prog σ ε β} {Q : β → σ → Prop} (hx : Triple P x Q' E')
    (hok : ∀ a, Triple (Q' a) (f (.ok a)) Q E) (herr : ∀ e, Triple (E' e) (f (.error e)) Q E) :
    Triple P (x.attempt >>= f) Q E := by
  refine bind (R := fun r s => match r with
    | .ok a => Q' a s
    | .error e => E' e s) (attempt hx) fun r => ?_
  cases r with
  | ok a => exact hok a
  | error e => exact herr e

theorem ofExcept {r : Except ε α} (hq : ∀ a s, r = .ok a → P s → Q a s)
    (he : ∀ e s, r = .error e → P s → E e s) : Triple P (Prog.ofExcept r : Prog σ ε α) Q E := by
  intro s hs
  cases r with
  | ok a => exact hq a s rfl hs
  | error e => exact he e s rfl hs

theorem ite {c : Prop} [Decidable c] {x y : Prog σ ε α} (hx : c → Triple P x Q E)
    (hy : ¬c → Triple P y Q E) : Triple P (if c then x else y) Q E := by
  split
  · exact hx ‹_›
  · exact hy ‹_›

theorem when {c : Prop} [Decidable c] {x : Prog σ ε Unit} {Q : Unit → σ → Prop}
    (hx : c → Triple P x Q E) (hn : ¬c → ∀ s, P s → Q () s) : Triple P (Prog.when c x) Q E :=
  ite hx fun hc => Triple.pure (hn hc)

end Triple

/-- The call does not change what `g` sees of the state, whatever it ends in. -/
def Keeps (g : σ → τ) (x : Prog σ ε α) : Prop := ∀ s, g (x.run s).2 = g s

namespace Keeps

variable {g : σ → τ}

theorem pure (a : α) : Keeps g (Pure.pure a : Prog σ ε α) := fun _ => rfl

theorem fail (e : ε) : Keeps g (Prog.fail e : Prog σ ε α) := fun _ => rfl

theorem diverge : Keeps g (Prog.diverge : Prog σ ε α) := fun _ => rfl

theorem state : Keeps g (Prog.state : Prog σ ε σ) := fun _ => rfl

theorem reads (f : σ → α) : Keeps g (Prog.reads f : Prog σ ε α) := fun _ => rfl

theorem update {f : σ → σ} (h : ∀ s, g (f s) = g s) : Keeps g (Prog.update f : Prog σ ε Unit) := h

theorem bind {x : Prog σ ε α} {f : α → Prog σ ε β} (hx : Keeps g x) (hf : ∀ a, Keeps g (f a)) :
    Keeps g (x >>= f) := by
  intro s
  have h := hx s
  rw [run_bind]
  rcases hxs : x.run s with ⟨_ | _ | _, t⟩ <;> rw [hxs] at h
  · exact (hf _ t).trans h
  · exact h
  · exact h

theorem attempt {x : Prog σ ε α} (hx : Keeps g x) : Keeps g x.attempt := by
  intro s
  have h := hx s
  unfold Prog.attempt
  rcases hxs : x.run s with ⟨_ | _ | _, t⟩ <;> simp only [hxs] at h ⊢ <;> exact h

theorem ofExcept (r : Except ε α) : Keeps g (Prog.ofExcept r : Prog σ ε α) := by
  cases r with
  | ok a => exact pure a
  | error e => exact fail e

theorem ite {c : Prop} [Decidable c] {x y : Prog σ ε α} (hx : Keeps g x) (hy : Keeps g y) :
    Keeps g (if c then x else y) := by
  split
  · exact hx
  · exact hy

theorem when {c : Prop} [Decidable c] {x : Prog σ ε Unit} (hx : Keeps g x) : Keeps g (Prog.when c x) :=
  ite hx (pure ())

theorem triple {x : Prog σ ε α} (hx : Keeps g x) (P : τ → Prop) :
    Triple (fun s => P (g s)) x (fun _ s => P (g s)) (fun _ s => P (g s)) := by
  intro s hs
  have h := hx s
  rcases hxs : x.run s with ⟨_ | _ | _, t⟩ <;> rw [hxs] at h
  · exact (congrArg P h).mpr hs
  · exact (congrArg P h).mpr hs
  · trivial

theorem bind_triple {x : Prog σ ε α} (hx : Keeps g x) {f : α → Prog σ ε β} {P : τ → Prop} {Q : β → σ → Prop}
    {E : ε → σ → Prop} (hf : ∀ a, Triple (fun s => P (g s)) (f a) Q E) (he : ∀ e s, P (g s) → E e s) :
    Triple (fun s => P (g s)) (x >>= f) Q E :=
  ((hx.triple P).conseq (fun _ h => h) (fun _ _ h => h) he).bind hf

end Keeps

/-- Whatever the call ends in, it goes from a state to one that `R` relates it to. -/
def Steps (R : σ → σ → Prop) (x : Prog σ ε α) : Prop := ∀ s, R s (x.run s).2

namespace Steps

variable {R : σ → σ → Prop}

theorem of_keeps {g : σ → τ} {x : Prog σ ε α} (hx : Keeps g x) (hR : ∀ s t, g t = g s → R s t) : Steps R x :=
  fun s => hR s _ (hx s)

theorem update {f : σ → σ} (h : ∀ s, R s (f s)) : Steps R (Prog.update f : Prog σ ε Unit) := h

theorem pure [Std.Refl R] (a : α) : Steps R (Pure.pure a : Prog σ ε α) := fun s => Std.Refl.refl s

theorem fail [Std.Refl R] (e : ε) : Steps R (Prog.fail e : Prog σ ε α) := fun s => Std.Refl.refl s

theorem diverge [Std.Refl R] : Steps R (Prog.diverge : Prog σ ε α) := fun s => Std.Refl.refl s

theorem state [Std.Refl R] : Steps R (Prog.state : Prog σ ε σ) := fun s => Std.Refl.refl s

theorem bind [IsTrans σ R] {x : Prog σ ε α} {f : α → Prog σ ε β} (hx : Steps R x) (hf : ∀ a, Steps R (f a)) :
    Steps R (x >>= f) := by
  intro s
  have h := hx s
  rw [run_bind]
  rcases hxs : x.run s with ⟨_ | _ | _, t⟩ <;> rw [hxs] at h
  · exact IsTrans.trans _ _ _ h (hf _ t)
  · exact h
  · exact h

theorem attempt {x : Prog σ ε α} (hx : Steps R x) : Steps R x.attempt := by
  intro s
  have h := hx s
  unfold Prog.attempt
  rcases hxs : x.run s with ⟨_ | _ | _, t⟩ <;> simp only [hxs] at h ⊢ <;> exact h

theorem ofExcept [Std.Refl R] (r : Except ε α) : Steps R (Prog.ofExcept r : Prog σ ε α) := by
  cases r with
  | ok a => exact pure a
  | error e => exact fail e

theorem ite {c : Prop} [Decidable c] {x y : Prog σ ε α} (hx : Steps R x) (hy : Steps R y) :
    Steps R (if c then x else y) := by
  split
  · exact hx
  · exact hy

theorem when [Std.Refl R] {c : Prop} [Decidable c] {x : Prog σ ε Unit} (hx : Steps R x) : Steps R (Prog.when c x) :=
  ite hx (pure ())

/-- A call that runs into a triple also brings what `R` says of the state it started from. -/
theorem with_start [IsTrans σ R] {x : Prog σ ε α} (hR : Steps R x) {P : σ → Prop} {Q : α → σ → Prop} {E : ε → σ → Prop}
    {r : σ} (hx : Triple P x Q E) :
    Triple (fun s => R r s ∧ P s) x (fun a s => R r s ∧ Q a s) (fun e s => R r s ∧ E e s) := by
  intro s hs
  have h := hx s hs.2
  have h' := hR s
  rcases hxs : x.run s with ⟨_ | _ | _, t⟩ <;> rw [hxs] at h h'
  · exact ⟨IsTrans.trans _ _ _ hs.1 h', h⟩
  · exact ⟨IsTrans.trans _ _ _ hs.1 h', h⟩
  · trivial

end Steps

end Prog

end FreeDos32
