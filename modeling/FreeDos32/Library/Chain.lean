import Mathlib.Data.Set.Insert
import Mathlib.Logic.Function.Basic

namespace FreeDos32

variable {ι κ : Type} {t t' : κ → κ} {e x y : κ} {l : List κ} {k : ℕ}

/-- The cells of `l` are linked one after the other in the table `t`, and the last one holds `e`. -/
def Links (t : κ → κ) (e : κ) : List κ → Prop
  | [] => True
  | [x] => t x = e
  | x :: y :: l => t x = y ∧ Links t e (y :: l)

namespace Links

theorem tail (h : Links t e (x :: l)) : Links t e l := by
  cases l with
  | nil => trivial
  | cons y l => exact h.2

theorem congr (h : Links t e l) (ht : ∀ x ∈ l, t' x = t x) : Links t' e l := by
  induction l with
  | nil => trivial
  | cons x l ih =>
    have hl := ih h.tail fun y hy => ht y (List.mem_cons_of_mem x hy)
    cases l with
    | nil => exact (ht x List.mem_cons_self).trans h
    | cons y l => exact ⟨(ht x List.mem_cons_self).trans h.1, hl⟩

theorem next (h : Links t e l) (hx : l[k]? = some x) (hy : l[k + 1]? = some y) : t x = y := by
  induction l generalizing k with
  | nil => simp at hx
  | cons z l ih =>
    cases k with
    | zero =>
      cases l with
      | nil => simp at hy
      | cons w l =>
        simp only [List.getElem?_cons_zero, Option.some.injEq, Nat.zero_add, List.getElem?_cons_succ] at hx hy
        subst hx hy
        exact h.1
    | succ k => exact ih h.tail (by simpa using hx) (by simpa using hy)

theorem last (h : Links t e l) (hx : l[k]? = some x) (hend : l.length = k + 1) : t x = e := by
  induction l generalizing k with
  | nil => simp at hx
  | cons z l ih =>
    cases k with
    | zero =>
      obtain rfl : l = [] := by simpa using hend
      obtain rfl : z = x := by simpa using hx
      exact h
    | succ k => exact ih h.tail (by simpa using hx) (by simpa using hend)

theorem entry (h : Links t e l) (hx : x ∈ l) : t x = e ∨ t x ∈ l := by
  obtain ⟨k, hk, rfl⟩ := List.mem_iff_getElem.mp hx
  by_cases hend : l.length = k + 1
  · exact .inl (h.last (List.getElem?_eq_getElem hk) hend)
  · have hk' : k + 1 < l.length := by omega
    right
    rw [h.next (List.getElem?_eq_getElem hk) (List.getElem?_eq_getElem hk')]
    exact List.getElem_mem hk'

theorem drop (h : Links t e l) (k : ℕ) : Links t e (l.drop k) := by
  induction k generalizing l with
  | zero => exact h
  | succ k ih =>
    cases l with
    | nil => trivial
    | cons x l => exact ih h.tail

theorem snoc (h : Links t e l) (ht : ∀ x ∈ l, l.getLast? ≠ some x → t' x = t x)
    (hlast : ∀ x, l.getLast? = some x → t' x = y) (hy : t' y = e) (hl : l.Nodup) : Links t' e (l ++ [y]) := by
  induction l with
  | nil => exact hy
  | cons x l ih =>
    cases l with
    | nil => exact ⟨hlast x rfl, hy⟩
    | cons z l =>
      have hx : (x :: z :: l).getLast? ≠ some x := by
        intro he
        rw [List.getLast?_cons_cons] at he
        exact (List.nodup_cons.mp hl).1 (List.mem_of_getLast? he)
      refine ⟨(ht x List.mem_cons_self hx).trans h.1, ih h.tail ?_ ?_ (List.nodup_cons.mp hl).2⟩
      · intro w hw hne
        exact ht w (List.mem_cons_of_mem x hw) (by rwa [List.getLast?_cons_cons])
      · intro w hw
        exact hlast w (by rwa [List.getLast?_cons_cons])

theorem take (h : Links t e l) (hx : l[k]? = some x) (ht : ∀ y ∈ l.take k, t' y = t y) (hend : t' x = e) :
    Links t' e (l.take (k + 1)) := by
  induction l generalizing k with
  | nil => trivial
  | cons z l ih =>
    cases k with
    | zero =>
      obtain rfl : z = x := by simpa using hx
      exact hend
    | succ k =>
      have hl := ih h.tail (by simpa using hx) fun y hy => ht y (by simpa using .inr hy)
      cases l with
      | nil => simp at hx
      | cons w l => exact ⟨(ht z (by simp)).trans h.1, hl⟩

end Links

/-- Chains of one table that have no cell in common, one for each of the owners `os`; `ok` says which
cells there are. -/
structure Chains (t : κ → κ) (e : κ) (ok : κ → Prop) (os : Set ι) (chain : ι → List κ) : Prop where
  links : ∀ i ∈ os, Links t e (chain i)
  ok : ∀ i ∈ os, ∀ x ∈ chain i, ok x
  nodup : ∀ i ∈ os, (chain i).Nodup
  disjoint : ∀ i ∈ os, ∀ j ∈ os, i ≠ j → ∀ x ∈ chain i, x ∉ chain j

namespace Chains

variable {ok : κ → Prop} {os : Set ι} {chain : ι → List κ} {i : ι}

theorem not_mem (h : Chains t e ok os chain) (hx : ¬ok (t x)) (hne : t x ≠ e) (hi : i ∈ os) : x ∉ chain i := by
  intro hm
  rcases (h.links i hi).entry hm with he | he
  · exact hne he
  · exact hx (h.ok i hi _ he)

theorem congr (h : Chains t e ok os chain) (ht : ∀ i ∈ os, ∀ x ∈ chain i, t' x = t x) :
    Chains t' e ok os chain :=
  ⟨fun i hi => (h.links i hi).congr (ht i hi), h.ok, h.nodup, h.disjoint⟩

theorem mono (h : Chains t e ok os chain) {os' : Set ι} (hs : os' ⊆ os) : Chains t e ok os' chain :=
  ⟨fun i hi => h.links i (hs hi), fun i hi => h.ok i (hs hi), fun i hi => h.nodup i (hs hi),
    fun i hi j hj => h.disjoint i (hs hi) j (hs hj)⟩

variable [DecidableEq ι]

theorem replace (h : Chains t e ok os chain) (i : ι) {l : List κ} (hl : Links t' e l) (hok : ∀ x ∈ l, ok x)
    (hnd : l.Nodup) (hd : ∀ j ∈ os, j ≠ i → ∀ x ∈ l, x ∉ chain j)
    (ht : ∀ j ∈ os, j ≠ i → ∀ x ∈ chain j, t' x = t x) :
    Chains t' e ok (insert i os) (Function.update chain i l) := by
  constructor
  · intro j hj
    by_cases hji : j = i
    · subst hji
      rwa [Function.update_self]
    · rw [Function.update_of_ne hji]
      have hm := Set.mem_of_mem_insert_of_ne hj hji
      exact (h.links j hm).congr (ht j hm hji)
  · intro j hj
    by_cases hji : j = i
    · subst hji
      rwa [Function.update_self]
    · rw [Function.update_of_ne hji]
      exact h.ok j (Set.mem_of_mem_insert_of_ne hj hji)
  · intro j hj
    by_cases hji : j = i
    · subst hji
      rwa [Function.update_self]
    · rw [Function.update_of_ne hji]
      exact h.nodup j (Set.mem_of_mem_insert_of_ne hj hji)
  · intro j hj j' hj' hne
    by_cases hji : j = i
    · subst hji
      rw [Function.update_self, Function.update_of_ne (Ne.symm hne)]
      exact hd j' (Set.mem_of_mem_insert_of_ne hj' (Ne.symm hne)) (Ne.symm hne)
    · rw [Function.update_of_ne hji]
      have hm := Set.mem_of_mem_insert_of_ne hj hji
      by_cases hj'i : j' = i
      · subst hj'i
        rw [Function.update_self]
        intro x hx hxl
        exact hd j hm hji x hxl hx
      · rw [Function.update_of_ne hj'i]
        exact h.disjoint j hm j' (Set.mem_of_mem_insert_of_ne hj' hj'i) hne

end Chains

end FreeDos32
