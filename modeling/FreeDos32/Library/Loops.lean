import FreeDos32.Library.Prog
import Mathlib.Data.Nat.Notation

namespace FreeDos32

/-- How the body of a function ends before its last statement: it returns, or it goes wrong. -/
inductive Exit (ρ φ : Type) where
  | returns (r : ρ)
  | fault (e : φ)
  deriving DecidableEq

namespace Prog

variable {σ ε φ ρ α β : Type}

/-- A function made of a body that may return early. -/
def function (x : Prog σ (Exit ρ φ) ρ) : Prog σ φ ρ := ⟨fun s => match x.run s with
  | (.ok r, t) => (.ok r, t)
  | (.error (.returns r), t) => (.ok r, t)
  | (.error (.fault e), t) => (.error e, t)
  | (.hang, t) => (.hang, t)⟩

/-- A function called in the body of another one. -/
def call (x : Prog σ φ α) : Prog σ (Exit ρ φ) α := ⟨fun s => match x.run s with
  | (.ok a, t) => (.ok a, t)
  | (.error e, t) => (.error (.fault e), t)
  | (.hang, t) => (.hang, t)⟩

/-- `n` rounds of a loop whose counter starts at `i`; `b` holds the variables that the rounds share. -/
def loop (f : ℕ → β → Prog σ ε β) : ℕ → ℕ → β → Prog σ ε β
  | 0, _, b => pure b
  | n + 1, i, b => f i b >>= loop f n (i + 1)

theorem run_function_hang {x : Prog σ (Exit ρ φ) ρ} {s t : σ} (h : x.run s = (.hang, t)) :
    (function x).run s = (.hang, t) := by
  simp only [function, h]

theorem run_bind_hang {x : Prog σ ε α} {f : α → Prog σ ε β} {s t : σ} (h : x.run s = (.hang, t)) :
    (x >>= f).run s = (.hang, t) := by
  rw [run_bind, h]

theorem run_function_snd (x : Prog σ (Exit ρ φ) ρ) (s : σ) : ((function x).run s).2 = (x.run s).2 := by
  unfold function
  rcases hx : x.run s with ⟨_ | (_ | _) | _, t⟩ <;> simp only [hx]

theorem Keeps.loop {τ : Type} {g : σ → τ} {f : ℕ → β → Prog σ ε β} (hf : ∀ i b, Keeps g (f i b)) (n i : ℕ) (b : β) :
    Keeps g (Prog.loop f n i b) := by
  induction n generalizing i b with
  | zero => exact Keeps.pure b
  | succ n ih => exact Keeps.bind (hf i b) fun c => ih (i + 1) c

theorem Steps.loop {R : σ → σ → Prop} [Std.Refl R] [IsTrans σ R] {f : ℕ → β → Prog σ ε β}
    (hf : ∀ i b, Steps R (f i b)) (n i : ℕ) (b : β) : Steps R (Prog.loop f n i b) := by
  induction n generalizing i b with
  | zero => exact Steps.pure b
  | succ n ih => exact Steps.bind (hf i b) fun c => ih (i + 1) c

theorem run_loop_ok {f : ℕ → β → Prog σ ε β} {b : ℕ → β} {s : ℕ → σ} {n i : ℕ}
    (h : ∀ k < n, (f (i + k) (b k)).run (s k) = (.ok (b (k + 1)), s (k + 1))) :
    (loop f n i (b 0)).run (s 0) = (.ok (b n), s n) := by
  induction n generalizing i b s with
  | zero => rfl
  | succ n ih =>
    have h0 := h 0 (Nat.succ_pos n)
    have hstep : ∀ k < n, (f (i + 1 + k) (b (k + 1))).run (s (k + 1)) = (.ok (b (k + 1 + 1)), s (k + 1 + 1)) := by
      intro k hk
      have hk' := h (k + 1) (Nat.succ_lt_succ hk)
      rwa [show i + (k + 1) = i + 1 + k by omega] at hk'
    exact (run_bind_ok h0).trans (ih (b := fun k => b (k + 1)) (s := fun k => s (k + 1)) hstep)

/-- A loop ends in an error if and only if a round that is reached does. -/
theorem run_loop_error_iff {f : ℕ → β → Prog σ ε β} {n i : ℕ} {b : β} {s : σ} :
    (∃ e u, (loop f n i b).run s = (.error e, u)) ↔
      ∃ m < n, ∃ c t, (loop f m i b).run s = (.ok c, t) ∧ ∃ e u, (f (i + m) c).run t = (.error e, u) := by
  induction n generalizing i b s with
  | zero => exact ⟨fun ⟨_, _, h⟩ => (nomatch h), fun ⟨_, h, _⟩ => nomatch h⟩
  | succ n ih =>
    constructor
    · rintro ⟨e, u, h⟩
      rw [loop, run_bind] at h
      rcases hx : (f i b).run s with ⟨a | e' | _, v⟩ <;> rw [hx] at h
      · obtain ⟨m, hm, c, t, ht, hlast⟩ := ih.mp ⟨e, u, h⟩
        rw [show i + 1 + m = i + (m + 1) by omega] at hlast
        exact ⟨m + 1, Nat.succ_lt_succ hm, c, t, (run_bind_ok hx).trans ht, hlast⟩
      · exact ⟨0, Nat.succ_pos n, b, s, rfl, e', v, hx⟩
      · exact nomatch h
    · rintro ⟨m, hm, c, t, ht, hlast⟩
      cases m with
      | zero =>
        cases ht
        obtain ⟨e, u, hx⟩ := hlast
        exact ⟨e, u, run_bind_error hx⟩
      | succ m =>
        rw [loop, run_bind] at ht
        rcases hx : (f i b).run s with ⟨a | e' | _, v⟩ <;> rw [hx] at ht
        · rw [show i + (m + 1) = i + 1 + m by omega] at hlast
          obtain ⟨e, u, h⟩ := ih.mpr ⟨m, Nat.lt_of_succ_lt_succ hm, c, t, ht, hlast⟩
          exact ⟨e, u, (run_bind_ok hx).trans h⟩
        · exact nomatch ht
        · exact nomatch ht

end Prog

end FreeDos32
