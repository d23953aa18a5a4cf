import Mathlib.Data.List.Nodup

namespace FreeDos32.Lru

variable {α : Type} {a b : α} {l : List α} {n : ℕ}

/-- `a` is one of the `n` that come first in a list by last use. -/
def Within (n : ℕ) (a : α) (l : List α) : Prop := ∃ i < n, l[i]? = some a

theorem Within.mono {m : ℕ} (h : Within n a l) (hm : n ≤ m) : Within m a l := by
  obtain ⟨i, hi, hl⟩ := h
  exact ⟨i, Nat.lt_of_lt_of_le hi hm, hl⟩

theorem Within.ne_last (h : Within n a l) (hnd : l.Nodup) (hn : n < l.length) : l.getLast? ≠ some a := by
  obtain ⟨i, hi, hl⟩ := h
  rw [List.getLast?_eq_getElem?, ← hl]
  intro he
  have hlt : l.length - 1 < l.length := by omega
  rw [List.getElem?_eq_getElem hlt, List.getElem?_eq_getElem (by omega)] at he
  have := (hnd.getElem_inj_iff).mp (Option.some.inj he)
  omega

variable [DecidableEq α]

/-- Puts what is used in front. -/
def use (a : α) (l : List α) : List α := a :: l.erase a

theorem within_use (a : α) (l : List α) : Within 1 a (use a l) := ⟨0, Nat.one_pos, rfl⟩

theorem Within.use (h : Within n a l) (b : α) : Within (n + 1) a (Lru.use b l) := by
  by_cases hab : a = b
  · subst hab
    exact (within_use a l).mono (by omega)
  obtain ⟨i, hi, hl⟩ := h
  have hik : i ≠ l.idxOf b := by
    rintro rfl
    obtain ⟨hlt, he⟩ := List.getElem?_eq_some_iff.mp hl
    exact hab (he.symm.trans (List.getElem_idxOf hlt))
  rcases Nat.lt_or_gt_of_ne hik with hlt | hgt
  · refine ⟨i + 1, by omega, ?_⟩
    rw [Lru.use, List.getElem?_cons_succ, List.erase_eq_eraseIdx_of_idxOf rfl, List.getElem?_eraseIdx_of_lt hlt, hl]
  · obtain ⟨j, rfl⟩ := Nat.exists_eq_add_of_lt hgt
    refine ⟨l.idxOf b + j + 1, by omega, ?_⟩
    rw [Lru.use, List.getElem?_cons_succ, List.erase_eq_eraseIdx_of_idxOf rfl, List.getElem?_eraseIdx_of_ge (by omega), hl]

theorem perm_use (h : a ∈ l) : (use a l).Perm l := (List.perm_cons_erase h).symm

end FreeDos32.Lru
