import Mathlib.Data.List.Basic
import Mathlib.Logic.Function.Basic

namespace FreeDos32

variable {α : Type} {t : α → Option α} {z x y : α}

/-- Following `t` from `x` on comes to a cell that leads nowhere. -/
inductive Leaves (t : α → Option α) : α → Prop
  | stop {x : α} : t x = none → Leaves t x
  | step {x y : α} : t x = some y → Leaves t y → Leaves t x

theorem Leaves.iff_next (h : t x = some y) : Leaves t x ↔ Leaves t y := by
  constructor
  · intro hx
    cases hx with
    | stop hnone => rw [h] at hnone; cases hnone
    | step hsome hy =>
      rw [h] at hsome
      cases hsome
      exact hy
  · exact Leaves.step h

theorem not_leaves_self (h : t x = some x) : ¬Leaves t x := by
  intro hx
  induction hx with
  | stop hnone =>
    rw [h] at hnone
    cases hnone
  | step hsome _ ih =>
    rw [h] at hsome
    cases hsome
    exact ih h

variable [DecidableEq α]

/-- Whether the walk from `x` on that makes each cell lead to `z` behind it ends within `fuel` cells. -/
def eraseWalk (z : α) : ℕ → (α → Option α) → α → Bool
  | 0, _, _ => false
  | fuel + 1, t, x => match t x with
    | none => true
    | some y => eraseWalk z fuel (Function.update t x (some z)) y

theorem Leaves.of_update {w : α} (h : Leaves (Function.update t x (some z)) w) :
    Leaves t w ∨ Leaves t z := by
  induction h with
  | @stop w hw =>
    by_cases hwx : w = x
    · rw [hwx, Function.update_self] at hw
      cases hw
    · rw [Function.update_of_ne hwx] at hw
      exact Or.inl (.stop hw)
  | @step w w' hw _ ih =>
    by_cases hwx : w = x
    · rw [hwx, Function.update_self] at hw
      cases hw
      exact Or.inr (ih.elim id id)
    · rw [Function.update_of_ne hwx] at hw
      exact ih.imp_left (.step hw)

theorem Leaves.update (hx : t x = some y) {w : α} (h : Leaves t w) :
    Leaves (Function.update t x (some z)) w ∨ Leaves (Function.update t x (some z)) y ∨
      Leaves (Function.update t x (some z)) z := by
  induction h with
  | @stop w hw =>
    have hwx : w ≠ x := by
      rintro rfl
      rw [hx] at hw
      cases hw
    exact Or.inl (.stop ((Function.update_of_ne hwx _ _).trans hw))
  | @step w w' hw _ ih =>
    by_cases hwx : w = x
    · subst hwx
      rw [hx] at hw
      cases hw
      exact Or.inr (ih.elim Or.inl id)
    · exact ih.imp_left (.step ((Function.update_of_ne hwx _ _).trans hw))

/-- The cell walked over makes no difference to whether there is a way out. -/
theorem leaves_update_iff (hx : t x = some y) :
    (Leaves (Function.update t x (some z)) y ∨ Leaves (Function.update t x (some z)) z) ↔ (Leaves t x ∨ Leaves t z) := by
  rw [Leaves.iff_next hx]
  constructor
  · rintro (h | h)
    · exact h.of_update
    · exact Or.inr ((h.of_update).elim id id)
  · rintro (h | h)
    · rcases h.update (z := z) hx with h' | h' | h'
      · exact Or.inl h'
      · exact Or.inl h'
      · exact Or.inr h'
    · rcases h.update (z := z) hx with h' | h' | h'
      · exact Or.inr h'
      · exact Or.inl h'
      · exact Or.inr h'

/-- How many cells of `D` lead on, but not to `z`. -/
def fresh (z : α) (D : List α) (t : α → Option α) : ℕ := D.countP fun x => t x != none && t x != some z

theorem fresh_update_le (z x : α) (D : List α) (t : α → Option α) :
    fresh z D (Function.update t x (some z)) ≤ fresh z D t := by
  apply List.countP_mono_left
  intro w _ hw
  by_cases hwx : w = x
  · simp [hwx] at hw
  · simpa [Function.update_of_ne hwx] using hw

theorem fresh_update_lt {D : List α} (hx : t x = some y) (hy : y ≠ z) (hmem : x ∈ D) :
    fresh z D (Function.update t x (some z)) < fresh z D t := by
  induction D with
  | nil => cases hmem
  | cons w D ih =>
    have hle := fresh_update_le z x D t
    unfold fresh at *
    rw [List.countP_cons, List.countP_cons]
    by_cases hw : w = x
    · subst hw
      simp [hx, hy]
      omega
    · have hlt := ih ((List.mem_cons.mp hmem).resolve_left fun h => hw h.symm)
      rw [Function.update_of_ne hw]
      omega

theorem eraseWalk_leaves {fuel : ℕ} (h : eraseWalk z fuel t x = true) : Leaves t x ∨ Leaves t z := by
  induction fuel generalizing t x with
  | zero => cases h
  | succ fuel ih =>
    rw [eraseWalk] at h
    rcases hx : t x with _ | y <;> rw [hx] at h
    · exact Or.inl (.stop hx)
    · exact (leaves_update_iff hx).mp (ih h)

/-- Each cell that is walked over first is one fresh cell less, and only one step can lead to `z` without that. -/
theorem eraseWalk_ends {D : List α} (hD : ∀ x, t x ≠ none → x ∈ D) (h : Leaves t x ∨ Leaves t z) :
    ∃ fuel, eraseWalk z fuel t x = true := by
  induction hn : fresh z D t using Nat.strongRecOn generalizing t x with
  | _ n ih =>
    have hfresh : ∀ {x y}, (Leaves t x ∨ Leaves t z) → t x = some y → y ≠ z → ∃ fuel, eraseWalk z fuel t x = true := by
      intro x y hleave hx hy
      have hmem : x ∈ D := by
        apply hD
        rw [hx]
        exact Option.some_ne_none y
      have hlt := fresh_update_lt hx hy hmem
      rw [hn] at hlt
      have hD' : ∀ w, Function.update t x (some z) w ≠ none → w ∈ D := by
        intro w hw
        by_cases hwx : w = x
        · exact hwx ▸ hmem
        · rw [Function.update_of_ne hwx] at hw
          exact hD w hw
      obtain ⟨fuel, hfuel⟩ := ih _ hlt hD' ((leaves_update_iff hx).mpr hleave) rfl
      exact ⟨fuel + 1, by rw [eraseWalk, hx]; exact hfuel⟩
    rcases hx : t x with _ | y
    · exact ⟨1, by rw [eraseWalk, hx]⟩
    by_cases hy : y = z
    · subst hy
      have hleave : Leaves t y := h.elim (fun hl => (Leaves.iff_next hx).mp hl) id
      have hsame : Function.update t x (some y) = t := by rw [← hx, Function.update_eq_self]
      obtain ⟨fuel, hfuel⟩ : ∃ fuel, eraseWalk y fuel t y = true := by
        rcases hz : t y with _ | w
        · exact ⟨1, by rw [eraseWalk, hz]⟩
        · refine hfresh (Or.inl hleave) hz fun hw => ?_
          subst hw
          exact not_leaves_self hz hleave
      exact ⟨fuel + 1, by rw [eraseWalk, hx]; exact hsame.symm ▸ hfuel⟩
    · exact hfresh h hx hy

theorem exists_eraseWalk_iff {D : List α} (hD : ∀ x, t x ≠ none → x ∈ D) :
    (∃ fuel, eraseWalk z fuel t x = true) ↔ Leaves t x ∨ Leaves t z :=
  ⟨fun ⟨_, h⟩ => eraseWalk_leaves h, eraseWalk_ends hD⟩

end FreeDos32
