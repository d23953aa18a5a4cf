import FreeDos32.Library.Path
import Mathlib.Algebra.Ring.Int.Defs
import Mathlib.Algebra.Ring.Nat

namespace FreeDos32.Kernel

structure ListItem where
  prev : Option ℕ
  next : Option ℕ

abbrev Items := ℕ → ListItem

structure ListHead where
  begin_ : Option ℕ
  end_ : Option ℕ
  size : ℕ

def setPrev (k : ℕ) (x : Option ℕ) (m : Items) : Items := Function.update m k { m k with prev := x }

def setNext (k : ℕ) (x : Option ℕ) (m : Items) : Items := Function.update m k { m k with next := x }

def listInit : ListHead := ⟨none, none, 0⟩

def listPushFront (item : ℕ) (list : ListHead) (m : Items) : ListHead × Items :=
  let m := setNext item list.begin_ (setPrev item none m)
  let size := (list.size + 1) % 2 ^ 32
  match list.begin_ with
  | some k => (⟨some item, list.end_, size⟩, setPrev k (some item) m)
  | none => (⟨some item, some item, size⟩, m)

def listPushBack (item : ℕ) (list : ListHead) (m : Items) : ListHead × Items :=
  let m := setNext item none (setPrev item list.end_ m)
  let size := (list.size + 1) % 2 ^ 32
  match list.end_ with
  | some k => (⟨list.begin_, some item, size⟩, setNext k (some item) m)
  | none => (⟨some item, some item, size⟩, m)

def listErase (item : ℕ) (list : ListHead) (m : Items) : ListHead × Items :=
  let size := (list.size + (2 ^ 32 - 1)) % 2 ^ 32
  let (last, m) := match (m item).next with
    | some k => (list.end_, setPrev k (m item).prev m)
    | none => ((m item).prev, m)
  match (m item).prev with
  | some k => (⟨list.begin_, last, size⟩, setNext k (m item).next m)
  | none => (⟨(m item).next, last, size⟩, m)

/-- The list whose elements are those of `l` in this order. -/
structure Linked (list : ListHead) (m : Items) (l : List ℕ) : Prop where
  next : Path (fun k => (m k).next) list.begin_ l none
  prev : Path (fun k => (m k).prev) list.end_ l.reverse none
  nodup : l.Nodup
  size : list.size = l.length % 2 ^ 32

variable {list : ListHead} {m m' : Items} {l l' : List ℕ} {k x y : ℕ}

theorem setPrev_self (k : ℕ) (x : Option ℕ) (m : Items) : setPrev k x m k = { m k with prev := x } :=
  Function.update_self ..

theorem setPrev_ne (h : y ≠ k) (x : Option ℕ) (m : Items) : setPrev k x m y = m y := Function.update_of_ne h ..

theorem setNext_self (k : ℕ) (x : Option ℕ) (m : Items) : setNext k x m k = { m k with next := x } :=
  Function.update_self ..

theorem setNext_ne (h : y ≠ k) (x : Option ℕ) (m : Items) : setNext k x m y = m y := Function.update_of_ne h ..

theorem setPrev_next (k : ℕ) (x : Option ℕ) (m : Items) (y : ℕ) : (setPrev k x m y).next = (m y).next := by
  by_cases h : y = k
  · rw [h, setPrev_self]
  · rw [setPrev_ne h]

theorem setNext_prev (k : ℕ) (x : Option ℕ) (m : Items) (y : ℕ) : (setNext k x m y).prev = (m y).prev := by
  by_cases h : y = k
  · rw [h, setNext_self]
  · rw [setNext_ne h]

namespace Linked

theorem congr (h : Linked list m l) (hm : ∀ x ∈ l, m' x = m x) : Linked list m' l where
  next := h.next.congr fun x hx => by rw [hm x hx]
  prev := h.prev.congr fun x hx => by rw [hm x (List.mem_reverse.mp hx)]
  nodup := h.nodup
  size := h.size

theorem init (m : Items) : Linked listInit m [] := ⟨rfl, rfl, List.nodup_nil, rfl⟩

theorem begin_eq (h : Linked list m l) : list.begin_ = l.head? := h.next.head_eq

theorem end_eq (h : Linked list m l) : list.end_ = l.getLast? := by
  rw [h.prev.head_eq, List.head?_reverse]

theorem next_eq (h : Linked list m (l ++ x :: l')) : (m x).next = l'.head? := h.next.after

theorem prev_eq (h : Linked list m (l ++ x :: l')) : (m x).prev = l.getLast? := by
  have hp := h.prev
  rw [List.reverse_append, List.reverse_cons, List.append_assoc, List.singleton_append] at hp
  rw [hp.after, List.head?_reverse]

end Linked

theorem listPushFront_run (hx : list.begin_ ≠ some x) :
    (listPushFront x list m).1 = ⟨some x, if list.begin_ = none then some x else list.end_, (list.size + 1) % 2 ^ 32⟩ ∧
      (∀ y, ((listPushFront x list m).2 y).next = if y = x then list.begin_ else (m y).next) ∧
      ∀ y, ((listPushFront x list m).2 y).prev =
        if y = x then none else if list.begin_ = some y then some x else (m y).prev := by
  rw [listPushFront]
  cases hb : list.begin_ with
  | none =>
    refine ⟨rfl, fun y => ?_, fun y => ?_⟩
    · dsimp only
      by_cases hy : y = x
      · rw [if_pos hy, hy, setNext_self]
      · rw [if_neg hy, setNext_ne hy, setPrev_next]
    · dsimp only
      rw [setNext_prev]
      by_cases hy : y = x
      · rw [if_pos hy, hy, setPrev_self]
      · rw [if_neg hy, setPrev_ne hy]
        rfl
  | some z =>
    have hzx : z ≠ x := fun he => hx (hb.trans (congrArg some he))
    refine ⟨rfl, fun y => ?_, fun y => ?_⟩
    · dsimp only
      rw [setPrev_next]
      by_cases hy : y = x
      · rw [if_pos hy, hy, setNext_self]
      · rw [if_neg hy, setNext_ne hy, setPrev_next]
    · dsimp only
      by_cases hyz : y = z
      · rw [hyz, setPrev_self, if_neg hzx, if_pos rfl]
      · rw [setPrev_ne hyz, setNext_prev]
        by_cases hy : y = x
        · rw [if_pos hy, hy, setPrev_self]
        · rw [if_neg hy, setPrev_ne hy, if_neg fun he => hyz (Option.some.inj he).symm]

theorem listPushBack_run (hx : list.end_ ≠ some x) :
    (listPushBack x list m).1 = ⟨if list.end_ = none then some x else list.begin_, some x, (list.size + 1) % 2 ^ 32⟩ ∧
      (∀ y, ((listPushBack x list m).2 y).prev = if y = x then list.end_ else (m y).prev) ∧
      ∀ y, ((listPushBack x list m).2 y).next =
        if y = x then none else if list.end_ = some y then some x else (m y).next := by
  rw [listPushBack]
  cases hb : list.end_ with
  | none =>
    refine ⟨rfl, fun y => ?_, fun y => ?_⟩
    · dsimp only
      rw [setNext_prev]
      by_cases hy : y = x
      · rw [if_pos hy, hy, setPrev_self]
      · rw [if_neg hy, setPrev_ne hy]
    · dsimp only
      by_cases hy : y = x
      · rw [if_pos hy, hy, setNext_self]
      · rw [if_neg hy, setNext_ne hy, setPrev_next]
        rfl
  | some z =>
    have hzx : z ≠ x := fun he => hx (hb.trans (congrArg some he))
    refine ⟨rfl, fun y => ?_, fun y => ?_⟩
    · dsimp only
      rw [setNext_prev, setNext_prev]
      by_cases hy : y = x
      · rw [if_pos hy, hy, setPrev_self]
      · rw [if_neg hy, setPrev_ne hy]
    · dsimp only
      by_cases hyz : y = z
      · rw [hyz, setNext_self, if_neg hzx, if_pos rfl]
      · rw [setNext_ne hyz]
        by_cases hy : y = x
        · rw [if_pos hy, hy, setNext_self]
        · rw [if_neg hy, setNext_ne hy, setPrev_next, if_neg fun he => hyz (Option.some.inj he).symm]

theorem listErase_run (list : ListHead) (hx : (m x).next ≠ some x) :
    (listErase x list m).1 = ⟨if (m x).prev = none then (m x).next else list.begin_,
        if (m x).next = none then (m x).prev else list.end_, (list.size + (2 ^ 32 - 1)) % 2 ^ 32⟩ ∧
      (∀ y, ((listErase x list m).2 y).next = if (m x).prev = some y then (m x).next else (m y).next) ∧
      ∀ y, ((listErase x list m).2 y).prev = if (m x).next = some y then (m x).prev else (m y).prev := by
  have hcut : ∀ (w : Option ℕ) (m₁ : Items), m₁ x = m x → (∀ y, (m₁ y).next = (m y).next) →
      (match (m₁ x).prev with
        | some k => ((⟨list.begin_, w, (list.size + (2 ^ 32 - 1)) % 2 ^ 32⟩ : ListHead), setNext k (m₁ x).next m₁)
        | none => (⟨(m₁ x).next, w, (list.size + (2 ^ 32 - 1)) % 2 ^ 32⟩, m₁)) =
          (⟨if (m x).prev = none then (m x).next else list.begin_, w, (list.size + (2 ^ 32 - 1)) % 2 ^ 32⟩,
            (m x).prev.elim m₁ fun k => setNext k (m x).next m₁) := by
    intro w m₁ h1 _
    rw [h1]
    cases (m x).prev <;> rfl
  have hnext : ∀ m₁ : Items, (∀ y, (m₁ y).next = (m y).next) → ∀ y,
      (((m x).prev.elim m₁ fun k => setNext k (m x).next m₁) y).next =
        if (m x).prev = some y then (m x).next else (m y).next := by
    intro m₁ h1 y
    cases hp : (m x).prev with
    | none => exact h1 y
    | some k =>
      by_cases hyk : k = y
      · subst hyk
        rw [if_pos rfl, Option.elim, setNext_self]
      · rw [if_neg fun he => hyk (Option.some.inj he), Option.elim, setNext_ne (Ne.symm hyk)]
        exact h1 y
  have hprev : ∀ (m₁ : Items) (y : ℕ), (((m x).prev.elim m₁ fun k => setNext k (m x).next m₁) y).prev = (m₁ y).prev := by
    intro m₁ y
    cases (m x).prev with
    | none => rfl
    | some k => exact setNext_prev ..
  rw [listErase]
  cases hn : (m x).next with
  | none =>
    dsimp only
    rw [hcut _ m rfl fun _ => rfl, hn]
    refine ⟨rfl, fun y => ?_, fun y => ?_⟩
    · have h := hnext m (fun _ => rfl) y
      rw [hn] at h
      exact h
    · have h := hprev m y
      rw [hn] at h
      exact h
  | some z =>
    have hxz : x ≠ z := fun he => hx (hn.trans (congrArg some he.symm))
    have hm₁ : ∀ y, (setPrev z (m x).prev m y).next = (m y).next := setPrev_next _ _ _
    dsimp only
    rw [hcut _ _ (setPrev_ne hxz _ _) hm₁, hn]
    refine ⟨rfl, fun y => ?_, fun y => ?_⟩
    · have h := hnext _ hm₁ y
      rw [hn] at h
      exact h
    · have h := hprev (setPrev z (m x).prev m) y
      rw [hn] at h
      refine h.trans ?_
      by_cases hyz : z = y
      · rw [if_pos (congrArg some hyz), ← hyz, setPrev_self]
      · rw [if_neg fun he => hyz (Option.some.inj he), setPrev_ne (Ne.symm hyz)]

theorem ListItem.eq_of {a b : ListItem} (hn : a.next = b.next) (hp : a.prev = b.prev) : a = b := by
  cases a
  cases b
  cases hn
  cases hp
  rfl

namespace Linked

theorem pushFront (h : Linked list m l) (hx : x ∉ l) :
    Linked (listPushFront x list m).1 (listPushFront x list m).2 (x :: l) ∧
      ∀ y ∉ x :: l, (listPushFront x list m).2 y = m y := by
  have hb := h.begin_eq
  have hnot : list.begin_ ≠ some x := fun he => hx (List.mem_of_head? (hb.symm.trans he))
  obtain ⟨hhead, hnext, hprev⟩ := listPushFront_run (m := m) hnot
  refine ⟨⟨?_, ?_, List.nodup_cons.mpr ⟨hx, h.nodup⟩, ?_⟩, fun y hy => ?_⟩
  · rw [hhead]
    refine ⟨rfl, ?_⟩
    dsimp only
    rw [hnext, if_pos rfl]
    refine h.next.congr fun y hy => ?_
    have hyx : y ≠ x := fun he => hx (he ▸ hy)
    rw [hnext, if_neg hyx]
  · rw [hhead, List.reverse_cons]
    have hback : Path (fun y => (m y).prev) list.end_ (l.reverse ++ []) none := by
      rw [List.append_nil]
      exact h.prev
    have hins := hback.insert (fun y => ((listPushFront x list m).2 y).prev) (x := x) (by simpa using hx)
      (fun y hy hne => ?_) (fun y hy => ?_) (by rw [List.append_nil]; exact (List.reverse_perm _).nodup_iff.mpr h.nodup) ?_
    · have hnil : (list.begin_ = none) = (l.reverse = []) := by
        rw [hb]
        simp
      simp only [hnil]
      exact hins
    · have hyl : y ∈ l := by simpa using hy
      have hyx : y ≠ x := fun he => hx (he ▸ hyl)
      rw [List.getLast?_reverse, ← hb] at hne
      rw [hprev, if_neg hyx, if_neg hne]
    · rw [List.getLast?_reverse] at hy
      have hyx : y ≠ x := fun he => hx (he ▸ List.mem_of_head? hy)
      rw [hprev, if_neg hyx, if_pos (hb.trans hy)]
    · rw [hprev, if_pos rfl]
      rfl
  · have hs := h.size
    rw [hhead]
    simp only [List.length_cons]
    omega
  · rw [List.mem_cons, not_or] at hy
    refine ListItem.eq_of ?_ ?_
    · rw [hnext, if_neg hy.1]
    · rw [hprev, if_neg hy.1, if_neg fun he => hy.2 (List.mem_of_head? (hb.symm.trans he))]

theorem pushBack (h : Linked list m l) (hx : x ∉ l) :
    Linked (listPushBack x list m).1 (listPushBack x list m).2 (l ++ [x]) ∧
      ∀ y ∉ l ++ [x], (listPushBack x list m).2 y = m y := by
  have he := h.end_eq
  have hnot : list.end_ ≠ some x := fun hz => hx (List.mem_of_getLast? (he.symm.trans hz))
  obtain ⟨hhead, hprev, hnext⟩ := listPushBack_run (m := m) hnot
  refine ⟨⟨?_, ?_, ?_, ?_⟩, fun y hy => ?_⟩
  · rw [hhead]
    have hforth : Path (fun y => (m y).next) list.begin_ (l ++ []) none := by
      rw [List.append_nil]
      exact h.next
    have hins := hforth.insert (fun y => ((listPushBack x list m).2 y).next) (x := x) (by simpa using hx)
      (fun y hy hne => ?_) (fun y hy => ?_) (by simpa using h.nodup) ?_
    · have hnil : (list.end_ = none) = (l = []) := by
        rw [he]
        simp
      simp only [hnil]
      exact hins
    · have hyl : y ∈ l := by simpa using hy
      have hyx : y ≠ x := fun he => hx (he ▸ hyl)
      rw [← he] at hne
      rw [hnext, if_neg hyx, if_neg hne]
    · have hyx : y ≠ x := fun he => hx (he ▸ List.mem_of_getLast? hy)
      rw [hnext, if_neg hyx, if_pos (he.trans hy)]
    · rw [hnext, if_pos rfl]
      rfl
  · rw [hhead, List.reverse_append, List.reverse_singleton, List.singleton_append]
    refine ⟨rfl, ?_⟩
    dsimp only
    rw [hprev, if_pos rfl]
    refine h.prev.congr fun y hy => ?_
    have hyx : y ≠ x := fun he => hx (he ▸ List.mem_reverse.mp hy)
    rw [hprev, if_neg hyx]
  · exact List.nodup_append.mpr ⟨h.nodup, by simp, fun a ha b hb hab => hx (by
      obtain rfl := List.mem_singleton.mp hb
      exact hab ▸ ha)⟩
  · have hs := h.size
    rw [hhead]
    simp only [List.length_append, List.length_singleton]
    omega
  · have hyl : y ∉ l := fun hm => hy (List.mem_append_left _ hm)
    have hyx : y ≠ x := fun he' => hy (he' ▸ List.mem_append_right _ (List.mem_singleton_self _))
    refine ListItem.eq_of ?_ ?_
    · rw [hnext, if_neg hyx, if_neg fun he' => hyl (List.mem_of_getLast? (he.symm.trans he'))]
    · rw [hprev, if_neg hyx]

theorem erase (h : Linked list m (l ++ x :: l')) :
    Linked (listErase x list m).1 (listErase x list m).2 (l ++ l') ∧
      ∀ y ∉ l ++ l', (listErase x list m).2 y = m y := by
  have hxn : (m x).next = l'.head? := h.next_eq
  have hxp : (m x).prev = l.getLast? := h.prev_eq
  have hnd := h.nodup
  obtain ⟨hxl, hnd'⟩ := List.nodup_cons.mp (List.perm_middle.nodup_iff.mp hnd)
  have hnot : (m x).next ≠ some x := fun he =>
    hxl (List.mem_append_right _ (List.mem_of_head? (hxn.symm.trans he)))
  obtain ⟨hhead, hnext, hprev⟩ := listErase_run list hnot
  refine ⟨⟨?_, ?_, hnd', ?_⟩, fun y hy => ?_⟩
  · rw [hhead]
    have hrem := h.next.remove (fun y => ((listErase x list m).2 y).next)
      (fun y hy hne => ?_) (fun y hy => ?_) hnd
    · have hnil : ((m x).prev = none) = (l = []) := by
        rw [hxp]
        simp
      simp only [hnil]
      exact hrem
    · rw [hnext, hxp, if_neg hne]
    · rw [hnext, hxp, if_pos hy]
  · rw [hhead, List.reverse_append]
    have hp := h.prev
    rw [List.reverse_append, List.reverse_cons, List.append_assoc, List.singleton_append] at hp
    have hrem := hp.remove (fun y => ((listErase x list m).2 y).prev)
      (fun y hy hne => ?_) (fun y hy => ?_) ?_
    · have hnil : ((m x).next = none) = (l'.reverse = []) := by
        rw [hxn]
        simp
      simp only [hnil]
      exact hrem
    · rw [List.getLast?_reverse] at hne
      rw [hprev, hxn, if_neg hne]
    · rw [List.getLast?_reverse] at hy
      rw [hprev, hxn, if_pos hy]
    · have hr := (List.reverse_perm _).nodup_iff.mpr hnd
      rwa [List.reverse_append, List.reverse_cons, List.append_assoc, List.singleton_append] at hr
  · have hs := h.size
    rw [hhead]
    simp only [List.length_append, List.length_cons] at hs ⊢
    omega
  · refine ListItem.eq_of ?_ ?_
    · rw [hnext, hxp, if_neg fun he => hy (List.mem_append_left _ (List.mem_of_getLast? he))]
    · rw [hprev, hxn, if_neg fun he => hy (List.mem_append_right _ (List.mem_of_head? he))]

end Linked

end FreeDos32.Kernel
