import Mathlib.Data.Int.Notation
import Mathlib.Data.Nat.Notation
import Mathlib.Logic.Function.Basic

namespace FreeDos32.RefTree

/-- How often the nodes of a tree are referred to, by their paths from the root; a node that is not referred to is not there. -/
@[ext]
structure Counts (κ : Type) where
  references : List κ → ℕ
  total : ℤ

variable {κ : Type} [DecidableEq κ] {c c₀ : Counts κ} {k : κ} {p d q : List κ}

def get (d : List κ) (c : Counts κ) : Counts κ := ⟨Function.update c.references d (c.references d + 1), c.total + 1⟩

def drop (d : List κ) (c : Counts κ) : Counts κ := ⟨Function.update c.references d (c.references d - 1), c.total - 1⟩

/-- A node whose last reference goes lets go of its parent. -/
def put : List κ → Counts κ → Counts κ
  | [], c => drop [] c
  | k :: p, c => if (drop (k :: p) c).references (k :: p) ≠ 0 then drop (k :: p) c else put p (drop (k :: p) c)

def Closed (c : Counts κ) : Prop := ∀ k p, c.references (k :: p) ≠ 0 → c.references p ≠ 0

section References

@[simp]
theorem get_references_self : (get d c).references d = c.references d + 1 := Function.update_self ..

theorem get_references_of_ne (h : q ≠ d) : (get d c).references q = c.references q := Function.update_of_ne h ..

@[simp]
theorem drop_references_self : (drop d c).references d = c.references d - 1 := Function.update_self ..

theorem drop_references_of_ne (h : q ≠ d) : (drop d c).references q = c.references q := Function.update_of_ne h ..

theorem put_eq_drop (h : 2 ≤ c.references d) : put d c = drop d c := by
  cases d with
  | nil => rfl
  | cons k p =>
    rw [put, if_pos]
    rw [drop_references_self]
    omega

theorem put_of_length_lt (h : d.length < q.length) : (put d c).references q = c.references q := by
  have hne : q ≠ d := by
    rintro rfl
    exact Nat.lt_irrefl _ h
  induction d generalizing c with
  | nil => exact drop_references_of_ne hne
  | cons k p ih =>
    rw [put]
    split
    · exact drop_references_of_ne hne
    · have hlt : p.length < q.length := Nat.lt_of_succ_lt h
      have hne' : q ≠ p := by
        rintro rfl
        exact Nat.lt_irrefl _ hlt
      rw [ih hlt hne', drop_references_of_ne hne]

theorem put_references_self : (put d c).references d = c.references d - 1 := by
  cases d with
  | nil => exact drop_references_self
  | cons k p =>
    rw [put]
    split
    · exact drop_references_self
    · rw [put_of_length_lt (Nat.lt_succ_self _), drop_references_self]

theorem get_comm (d q : List κ) (c : Counts κ) : get d (get q c) = get q (get d c) := by
  by_cases h : d = q
  · rw [h]
  · ext x
    · by_cases hd : x = d
      · subst hd
        rw [get_references_self, get_references_of_ne h, get_references_of_ne h, get_references_self]
      · by_cases hq : x = q
        · subst hq
          rw [get_references_of_ne hd, get_references_self, get_references_self, get_references_of_ne hd]
        · rw [get_references_of_ne hd, get_references_of_ne hq, get_references_of_ne hq, get_references_of_ne hd]
    · rfl

theorem drop_get : drop d (get d c) = c := by
  ext x
  · by_cases hx : x = d
    · subst hx
      rw [drop_references_self, get_references_self, Nat.add_sub_cancel]
    · rw [drop_references_of_ne hx, get_references_of_ne hx]
  · exact Int.add_sub_cancel _ _

theorem put_get (h : c.references d ≠ 0) : put d (get d c) = c := by
  rw [put_eq_drop, drop_get]
  rw [get_references_self]
  omega

theorem put_get_new (h : c.references (k :: p) = 0) : put (k :: p) (get (k :: p) c) = put p c := by
  rw [put, drop_get, if_neg]
  simp [h]

theorem drop_get_of_ne (h : d ≠ q) : drop d (get q c) = get q (drop d c) := by
  ext x
  · by_cases hd : x = d
    · subst hd
      rw [drop_references_self, get_references_of_ne h, get_references_of_ne h, drop_references_self]
    · by_cases hq : x = q
      · subst hq
        rw [drop_references_of_ne hd, get_references_self, get_references_self, drop_references_of_ne hd]
      · rw [drop_references_of_ne hd, get_references_of_ne hq, get_references_of_ne hq, drop_references_of_ne hd]
  · change c.total + 1 - 1 = c.total - 1 + 1
    rw [Int.add_sub_cancel, Int.sub_add_cancel]

theorem drop_references_le (d q : List κ) (c : Counts κ) : (drop d c).references q ≤ c.references q := by
  by_cases hq : q = d
  · rw [hq, drop_references_self]
    exact Nat.sub_le _ _
  · exact Nat.le_of_eq (drop_references_of_ne hq)

theorem put_references_le (d q : List κ) (c : Counts κ) : (put d c).references q ≤ c.references q := by
  induction d generalizing c with
  | nil => exact drop_references_le [] q c
  | cons k p ih =>
    rw [put]
    split
    · exact drop_references_le _ q c
    · exact Nat.le_trans (ih _) (drop_references_le _ q c)

theorem get_references_ne_zero (h : (get d c).references q ≠ 0) : q = d ∨ c.references q ≠ 0 := by
  by_cases hq : q = d
  · exact .inl hq
  · rw [get_references_of_ne hq] at h
    exact .inr h

end References

section Cursor

/-- A walk through the tree refers to the node `d` where it is; when it lets go of it the counts are those before the walk. -/
structure Cursor (c₀ c : Counts κ) (d : List κ) : Prop where
  before : Closed c₀
  closed : Closed c
  live : c.references d ≠ 0
  back : put d c = c₀

omit [DecidableEq κ] in
theorem Closed.congr {c' : Counts κ} (h : Closed c) (hzero : ∀ q, c'.references q = 0 ↔ c.references q = 0) : Closed c' := by
  intro k p hk
  exact mt (hzero p).mp (h k p (mt (hzero (k :: p)).mpr hk))

theorem get_closed (h : Closed c) (hd : ∀ k p, d = k :: p → c.references p ≠ 0) : Closed (get d c) := by
  intro k p hk
  by_cases hp : p = d
  · rw [hp, get_references_self]
    exact Nat.succ_ne_zero _
  · rw [get_references_of_ne hp]
    by_cases hkp : k :: p = d
    · exact hd k p hkp.symm
    · rw [get_references_of_ne hkp] at hk
      exact h k p hk

theorem drop_closed (h : Closed c) (hd : 2 ≤ c.references d) : Closed (drop d c) := by
  apply h.congr
  intro q
  by_cases hq : q = d
  · subst hq
    rw [drop_references_self]
    omega
  · rw [drop_references_of_ne hq]

theorem Cursor.start (h : Closed c₀) (hd : c₀.references d ≠ 0) : Cursor c₀ (get d c₀) d := by
  refine ⟨h, get_closed h ?_, ?_, put_get hd⟩
  · rintro k p rfl
    exact h k p hd
  · rw [get_references_self]
    exact Nat.succ_ne_zero _

theorem Cursor.two_le (h : Cursor c₀ c p) (hk : c.references (k :: p) ≠ 0) : 2 ≤ c.references p := by
  by_contra hlt
  have hself : (put p c).references p = c.references p - 1 := put_references_self
  have hchild : (put p c).references (k :: p) = c.references (k :: p) := put_of_length_lt (Nat.lt_succ_self _)
  rw [h.back] at hself hchild
  apply h.before k p
  · rwa [hchild]
  · rw [hself]
    omega

theorem Cursor.parent (h : Cursor c₀ c (k :: p)) : Cursor c₀ (put (k :: p) (get p c)) p := by
  have hne : k :: p ≠ p := List.cons_ne_self k p
  have hp : c.references p ≠ 0 := h.closed k p h.live
  have hback := h.back
  by_cases hone : 2 ≤ c.references (k :: p)
  · have hmove : put (k :: p) (get p c) = get p (drop (k :: p) c) := by
      rw [put_eq_drop, drop_get_of_ne hne]
      rwa [get_references_of_ne hne]
    have hdrop : (drop (k :: p) c).references p ≠ 0 := by rwa [drop_references_of_ne hne.symm]
    rw [put_eq_drop hone] at hback
    rw [hmove]
    refine ⟨h.before, ?_, ?_, ?_⟩
    · apply get_closed (drop_closed h.closed hone)
      rintro k' p' rfl
      exact drop_closed h.closed hone k' p' hdrop
    · rw [get_references_self]
      exact Nat.succ_ne_zero _
    · rw [put_get hdrop, hback]
  · have hlast : c.references (k :: p) = 1 := by
      have := h.live
      omega
    have hdrop : (drop (k :: p) c).references p ≠ 0 := by rwa [drop_references_of_ne hne.symm]
    have hmove : put (k :: p) (get p c) = drop (k :: p) c := by
      rw [put, drop_get_of_ne hne, if_neg, put_get hdrop]
      rw [get_references_of_ne hne, drop_references_self, hlast]
      exact not_not.mpr rfl
    rw [put, if_neg] at hback
    · rw [hmove]
      refine ⟨h.before, ?_, hdrop, hback⟩
      intro k' q hq
      by_cases hkq : k' :: q = k :: p
      · rw [hkq, drop_references_self, hlast] at hq
        exact absurd rfl hq
      · rw [drop_references_of_ne hkq] at hq
        by_cases hqp : q = k :: p
        · rw [hqp] at hq
          have htwo := h.two_le hq
          omega
        · rw [drop_references_of_ne hqp]
          exact h.closed k' q hq
    · rw [drop_references_self, hlast]
      exact not_not.mpr rfl

theorem Cursor.new (h : Cursor c₀ c p) (hk : c.references (k :: p) = 0) : Cursor c₀ (get (k :: p) c) (k :: p) := by
  refine ⟨h.before, get_closed h.closed ?_, ?_, ?_⟩
  · intro k' p' heq
    cases heq
    exact h.live
  · rw [get_references_self]
    exact Nat.succ_ne_zero _
  · rw [put_get_new hk, h.back]

theorem Cursor.old (h : Cursor c₀ c p) (hk : c.references (k :: p) ≠ 0) :
    Cursor c₀ (put p (get (k :: p) c)) (k :: p) := by
  have hne : p ≠ k :: p := (List.cons_ne_self k p).symm
  have htwo := h.two_le hk
  have hmove : put p (get (k :: p) c) = get (k :: p) (drop p c) := by
    rw [put_eq_drop, drop_get_of_ne hne]
    rwa [get_references_of_ne hne]
  have hdrop : (drop p c).references (k :: p) ≠ 0 := by rwa [drop_references_of_ne hne.symm]
  have hback := h.back
  rw [put_eq_drop htwo] at hback
  rw [hmove]
  refine ⟨h.before, get_closed (drop_closed h.closed htwo) ?_, ?_, ?_⟩
  · intro k' p' heq
    exact drop_closed h.closed htwo k' p' (heq ▸ hdrop)
  · rw [get_references_self]
    exact Nat.succ_ne_zero _
  · rw [put_get hdrop, hback]

theorem put_put_get_new (hp : c.references p ≠ 0) :
    put p (put p (get (k :: p) (get p (get p c)))) = get (k :: p) c := by
  have hne : p ≠ k :: p := (List.cons_ne_self k p).symm
  have hp' : (get (k :: p) c).references p ≠ 0 := by rwa [get_references_of_ne hne]
  rw [get_comm (k :: p) p, get_comm (k :: p) p, put_get, put_get hp']
  rw [get_references_self]
  exact Nat.succ_ne_zero _

theorem put_put_get_old (hp : c.references p ≠ 0) :
    put p (put p (get (k :: p) (get p c))) = put p (get (k :: p) c) := by
  have hne : p ≠ k :: p := (List.cons_ne_self k p).symm
  rw [get_comm (k :: p) p, put_get]
  rwa [get_references_of_ne hne]

end Cursor

end FreeDos32.RefTree
