import Mathlib.Data.List.TakeWhile

namespace FreeDos32

/-- A tree in which names lead from a directory to its children; the root is its own parent. -/
structure PathTree (α ν : Type) where
  isDir : α → Bool
  parent : α → α
  child : α → ν → Option α

/-- A component of a pathname: ".", ".." or another name. -/
inductive Component (ν : Type) where
  | here
  | up
  | name (s : ν)

inductive WalkError where
  | notDir
  | noEntry
  deriving DecidableEq

namespace PathTree

variable {α ν : Type} (T : PathTree α ν)

def step (a : α) : Component ν → Except WalkError α
  | .here => if T.isDir a then .ok a else .error .notDir
  | .up => if T.isDir a then .ok (T.parent a) else .error .notDir
  | .name s => if T.isDir a then (T.child a s).elim (.error .noEntry) .ok else .error .notDir

/-- Where the components lead to from a node. -/
def walk : List (Component ν) → α → Except WalkError α
  | [], a => .ok a
  | c :: cs, a =>
    match T.step a c with
    | .ok b => walk cs b
    | .error e => .error e

/-- A step that goes up from anything. -/
def looseStep (a : α) : Component ν → Except WalkError α
  | .here => T.step a .here
  | .up => .ok (T.parent a)
  | .name s => T.step a (.name s)

def looseWalk : List (Component ν) → α → Except WalkError α
  | [], a => .ok a
  | c :: cs, a =>
    match T.looseStep a c with
    | .ok b => looseWalk cs b
    | .error e => .error e

/-- The walk comes to a ".." at what is no directory, and the rest of the way from its parent would not end at
what is no directory too. -/
def Strays : List (Component ν) → α → Prop
  | [], _ => False
  | .here :: cs, a => T.isDir a = true ∧ Strays cs a
  | .up :: cs, a =>
    if T.isDir a then Strays cs (T.parent a)
    else T.walk cs (T.parent a) ≠ .error .notDir ∨ Strays cs (T.parent a)
  | .name s :: cs, a => T.isDir a = true ∧ ∃ b, T.child a s = some b ∧ Strays cs b

theorem Strays.walk {T : PathTree α ν} {cs : List (Component ν)} {a : α} (h : T.Strays cs a) :
    T.walk cs a = .error .notDir := by
  induction cs generalizing a with
  | nil => cases h
  | cons c cs ih =>
    rw [PathTree.walk]
    cases c with
    | here =>
      obtain ⟨hd, h⟩ := h
      simp [step, hd, ih h]
    | up =>
      by_cases hd : T.isDir a = true
      · simp only [Strays, hd, if_true] at h
        simp [step, hd, ih h]
      · simp [step, hd]
    | name s =>
      obtain ⟨hd, b, hb, h⟩ := h
      simp [step, hd, hb, ih h]

theorem looseWalk_eq_iff (cs : List (Component ν)) (a : α) : T.looseWalk cs a = T.walk cs a ↔ ¬T.Strays cs a := by
  induction cs generalizing a with
  | nil => simp [looseWalk, walk, Strays]
  | cons c cs ih =>
    cases c with
    | here => by_cases hd : T.isDir a = true <;> simp [looseWalk, walk, looseStep, step, Strays, hd, ih]
    | up =>
      by_cases hd : T.isDir a = true
      · simp [looseWalk, walk, looseStep, step, Strays, hd, ih]
      · simp only [looseWalk, walk, looseStep, step, Strays, hd, if_neg, not_false_eq_true, Bool.false_eq_true, not_or,
          not_not]
        constructor
        · intro h
          have hs : ¬T.Strays cs (T.parent a) := fun hs => (ih _).mp (h.trans hs.walk.symm) hs
          exact ⟨((ih _).mpr hs).symm.trans h, hs⟩
        · rintro ⟨h, hs⟩
          exact ((ih _).mpr hs).trans h
    | name s =>
      by_cases hd : T.isDir a = true
      · cases hc : T.child a s <;> simp [looseWalk, walk, looseStep, step, Strays, hd, hc, ih]
      · simp [looseWalk, walk, looseStep, step, Strays, hd]

end PathTree

section Parts

variable {β : Type} [DecidableEq β] {sep : β} {s t : List β}

/-- The components of a pathname: the parts between the separators that are not empty, and an empty one for
a separator at the end. -/
def pathParts (sep : β) (s : List β) : List (List β) :=
  ((s.splitOn sep).filter (· ≠ [])) ++ if s.getLast? = some sep then [[]] else []

theorem pathParts_nil (sep : β) : pathParts sep [] = [] := rfl

theorem pathParts_sep (h : s ≠ []) : pathParts sep (sep :: s) = pathParts sep s := by
  rw [pathParts, pathParts, List.getLast?_cons_of_ne_nil h, List.splitOn_cons_eq_if_modifyHead]
  simp

theorem pathParts_part (hs : s ≠ []) (hsep : sep ∉ s) (ht : ∀ x, t.head? = some x → x = sep) :
    pathParts sep (s ++ t) = s :: pathParts sep t := by
  cases t with
  | nil =>
    have hlast : s.getLast? ≠ some sep := fun h => hsep (List.mem_of_getLast? h)
    rw [List.append_nil, pathParts, List.splitOn_eq_singleton hsep, if_neg hlast]
    simp [hs, pathParts_nil]
  | cons y t =>
    obtain rfl : y = sep := ht y rfl
    have hlast : (s ++ y :: t).getLast? = (y :: t).getLast? := by
      rw [List.getLast?_append, List.getLast?_eq_some_getLast (List.cons_ne_nil y t)]
      rfl
    rw [pathParts, pathParts, hlast, List.splitOn_append_cons_self, List.splitOn_eq_singleton hsep,
      List.splitOn_cons_eq_if_modifyHead]
    simp [hs]

theorem pathParts_eq (h : s ≠ []) : pathParts sep s = (s.dropWhile (· == sep)).takeWhile (· != sep) ::
    pathParts sep ((s.dropWhile (· == sep)).dropWhile (· != sep)) := by
  induction s with
  | nil => exact absurd rfl h
  | cons y s ih =>
    by_cases hy : y = sep
    · subst hy
      rw [List.dropWhile_cons_of_pos (by simp)]
      cases s with
      | nil => simp [pathParts, List.splitOn_cons_eq_if_modifyHead]
      | cons z s => rw [pathParts_sep (List.cons_ne_nil z s), ih (List.cons_ne_nil z s)]
    · have hdrop : (y :: s).dropWhile (· == sep) = y :: s := List.dropWhile_cons_of_neg (by simpa using hy)
      have hne : (y :: s).takeWhile (· != sep) ≠ [] := by
        rw [List.takeWhile_cons_of_pos (by simpa using hy)]
        exact List.cons_ne_nil _ _
      have hsep : sep ∉ (y :: s).takeWhile (· != sep) := fun hm => by
        simpa using List.mem_takeWhile_imp hm
      have hparts := pathParts_part (t := (y :: s).dropWhile (· != sep)) hne hsep fun x hx => by
        have := List.head?_dropWhile_not (· != sep) (y :: s)
        rw [hx] at this
        simpa using this
      rw [List.takeWhile_append_dropWhile] at hparts
      rw [hdrop, hparts]

end Parts

end FreeDos32
