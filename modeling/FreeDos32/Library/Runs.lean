import Mathlib.Data.List.Basic

namespace FreeDos32

variable {σ α : Type} {step : α → σ → Option σ} {ok ok' : σ → α → Prop} {s₀ s s' : σ}

inductive Reach (step : α → σ → Option σ) (ok : σ → α → Prop) (s₀ : σ) : σ → Prop
  | start : Reach step ok s₀ s₀
  | next {s s' : σ} (h : Reach step ok s₀ s) (a : α) (hok : ok s a) (hstep : step a s = some s') :
    Reach step ok s₀ s'

namespace Reach

theorem invariant (inv : σ → Prop) (hstart : inv s₀)
    (hnext : ∀ s a s', inv s → ok s a → step a s = some s' → inv s') (h : Reach step ok s₀ s) : inv s := by
  induction h with
  | start => exact hstart
  | next _ a hok hstep ih => exact hnext _ a _ ih hok hstep

theorem trans (h : Reach step ok s₀ s) (h' : Reach step ok s s') : Reach step ok s₀ s' :=
  invariant _ h (fun _ a _ ih ha hs => .next ih a ha hs) h'

end Reach

/-- The steps of the list one after another, each allowed where it is taken. -/
def runSteps (step : α → σ → Option σ) (ok : σ → α → Prop) [∀ s a, Decidable (ok s a)] : List α → σ → Option σ
  | [], s => some s
  | a :: as, s => if ok s a then (step a s).bind (runSteps step ok as) else none

theorem runSteps_reach [∀ s a, Decidable (ok s a)] (as : List α) (s : σ) (h : runSteps step ok as s = some s') :
    Reach step ok s s' := by
  induction as generalizing s with
  | nil => exact Option.some.inj h ▸ .start
  | cons a as ih =>
    simp only [runSteps] at h
    split at h
    · obtain ⟨t, ht, hrest⟩ := Option.bind_eq_some_iff.mp h
      exact Reach.trans (.next .start a ‹_› ht) (ih t hrest)
    · cases h

end FreeDos32
