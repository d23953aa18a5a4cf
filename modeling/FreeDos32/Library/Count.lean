import Mathlib.Data.List.Nodup
import Mathlib.Data.List.Perm.Subperm

namespace FreeDos32

variable {n : ℕ}

theorem length_le_of_lt {l : List ℕ} (hnd : l.Nodup) (h : ∀ x ∈ l, x < n) : l.length ≤ n := by
  have hsub : l.Subperm (List.range n) := by
    apply List.subperm_of_subset hnd
    intro x hx
    exact List.mem_range.mpr (h x hx)
  have hle := hsub.length_le
  rwa [List.length_range] at hle

theorem countP_range_flip {P Q : ℕ → Bool} {j : ℕ} (hj : j < n) (hp : P j = true) (hq : Q j = false)
    (hne : ∀ i < n, i ≠ j → Q i = P i) : (List.range n).countP Q + 1 = (List.range n).countP P := by
  have hperm := List.perm_cons_erase (List.mem_range.mpr hj)
  rw [hperm.countP_eq P, hperm.countP_eq Q, List.countP_cons, List.countP_cons, hp, hq]
  have hrest : ((List.range n).erase j).countP Q = ((List.range n).erase j).countP P := by
    apply List.countP_congr
    intro i hi
    have hnd := (List.nodup_range (n := n)).mem_erase_iff.mp hi
    rw [hne i (List.mem_range.mp hnd.2) hnd.1]
  simp [hrest]

theorem countP_split {α : Type} {p q r : α → Bool} (l : List α) (h : ∀ x ∈ l, p x = true ↔ q x = true ∨ r x = true)
    (hdis : ∀ x ∈ l, q x = true → r x = false) : l.countP p = l.countP q + l.countP r := by
  induction l with
  | nil => rfl
  | cons x l ih =>
    have hx := h x List.mem_cons_self
    have hd := hdis x List.mem_cons_self
    have hrest := ih (fun y hy => h y (List.mem_cons_of_mem x hy)) fun y hy => hdis y (List.mem_cons_of_mem x hy)
    rw [List.countP_cons, List.countP_cons, List.countP_cons, hrest]
    cases hq : q x <;> cases hr : r x <;> simp [hq, hr] at hx hd ⊢ <;> simp [hx] <;> omega

/-- Different numbers from `a` on, below `a + n`, are found among these as often as there are of them. -/
theorem countP_mem {l : List ℕ} (hnd : l.Nodup) {a n : ℕ} (hl : ∀ x ∈ l, a ≤ x ∧ x < a + n) :
    (List.range n).countP (fun i => decide (i + a ∈ l)) = l.length := by
  have hperm : (((List.range n).filter fun i => decide (i + a ∈ l)).map (· + a)).Perm l := by
    refine (List.perm_ext_iff_of_nodup ?_ hnd).mpr fun x => ?_
    · exact (List.nodup_range.filter _).map fun _ _ h => Nat.add_right_cancel h
    · constructor
      · intro hx
        obtain ⟨i, hi, rfl⟩ := List.mem_map.mp hx
        exact of_decide_eq_true (List.mem_filter.mp hi).2
      · intro hx
        have hrange := hl x hx
        refine List.mem_map.mpr ⟨x - a, List.mem_filter.mpr ⟨List.mem_range.mpr (by omega), ?_⟩, by omega⟩
        rw [Nat.sub_add_cancel hrange.1]
        exact decide_eq_true hx
  rw [List.countP_eq_length_filter, ← List.length_map (· + a)]
  exact hperm.length_eq

end FreeDos32
