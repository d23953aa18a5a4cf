import Mathlib.Data.List.Basic

namespace FreeDos32

variable {α : Type} {f g : ℕ → α} {n start count : ℕ}

/-- The elements of a circular array of `n`, from `start` on. -/
def ring (f : ℕ → α) (n start count : ℕ) : List α := (List.range count).map fun i => f ((start + i) % n)

@[simp] theorem ring_zero : ring f n start 0 = [] := rfl

@[simp] theorem ring_length : (ring f n start count).length = count := by simp [ring]

theorem ring_mod : ring f n (start % n) count = ring f n start count := by
  simp [ring]

theorem ring_cons : ring f n start (count + 1) = f (start % n) :: ring f n (start + 1) count := by
  simp only [ring, List.range_succ_eq_map, List.map_cons, List.map_map, Nat.add_zero]
  congr 1
  apply List.map_congr_left
  intro i _
  simp only [Function.comp_apply]
  congr 2
  omega

theorem ring_snoc : ring f n start (count + 1) = ring f n start count ++ [f ((start + count) % n)] := by
  simp [ring, List.range_succ]

theorem ring_congr (h : ∀ i < count, f ((start + i) % n) = g ((start + i) % n)) :
    ring f n start count = ring g n start count := by
  apply List.map_congr_left
  intro i hi
  exact h i (List.mem_range.mp hi)

theorem ring_index_ne {i j : ℕ} (hij : i < j) (hj : j < i + n) : i % n ≠ j % n := by
  intro h
  have hdvd : n ∣ j - i := Nat.dvd_of_mod_eq_zero (Nat.sub_mod_eq_zero_of_mod_eq h.symm)
  have hle := Nat.le_of_dvd (by omega) hdvd
  omega

end FreeDos32
