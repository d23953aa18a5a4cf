import FreeDos32.Kernel.List
import Mathlib.Data.Fintype.Defs
import Mathlib.Order.Interval.Finset.Nat

namespace FreeDos32.Kernel

/-- A pointer to an item: 32 bits, and not NULL. -/
abbrev ItemPtr := { k : ℕ // 0 < k ∧ k < 2 ^ 32 }

/-- Lists whose items lie in one memory. -/
structure Lists (ι : Type) where
  heads : ι → ListHead
  items : Items

variable {ι : Type} {s : Lists ι} {l : ι → List ℕ} {i j : ι} {x : ℕ}

def Lists.init (m : Items) : Lists ι := ⟨fun _ => listInit, m⟩

/-- What one sees of a list: its items forth and back, its size and its ends. -/
structure Shows (list : ListHead) (m : Items) (l : List ℕ) : Prop where
  forth : Path (fun k => (m k).next) list.begin_ l none
  back : Path (fun k => (m k).prev) list.end_ l.reverse none
  size : list.size = l.length
  begin_none : list.begin_ = none ↔ l = []
  end_none : list.end_ = none ↔ l = []

/-- Each list has the items that it is to have, and no item is in two lists. -/
structure Represents (s : Lists ι) (l : ι → List ℕ) : Prop where
  linked : ∀ i, Linked (s.heads i) s.items (l i)
  apart : ∀ i j, i ≠ j → ∀ x ∈ l i, x ∉ l j
  pointer : ∀ i, ∀ x ∈ l i, 0 < x ∧ x < 2 ^ 32

namespace Represents

theorem init (m : Items) : Represents (Lists.init m : Lists ι) fun _ => [] :=
  ⟨fun _ => .init m, fun _ _ _ _ hx => absurd hx List.not_mem_nil, fun _ _ hx => absurd hx List.not_mem_nil⟩

/-- An address space has no room for so many items that their number would not fit into `size_t`. -/
theorem length_lt (h : Represents s l) (i : ι) : (l i).length < 2 ^ 32 := by
  have hsub : (l i).toFinset ⊆ Finset.Ico 1 (2 ^ 32) := by
    intro x hx
    exact Finset.mem_Ico.mpr (h.pointer i x (List.mem_toFinset.mp hx))
  have hcard := Finset.card_le_card hsub
  rw [List.toFinset_card_of_nodup (h.linked i).nodup, Nat.card_Ico] at hcard
  omega

theorem shows (h : Represents s l) (i : ι) : Shows (s.heads i) s.items (l i) where
  forth := (h.linked i).next
  back := (h.linked i).prev
  size := by rw [(h.linked i).size, Nat.mod_eq_of_lt (h.length_lt i)]
  begin_none := by rw [(h.linked i).begin_eq, List.head?_eq_none_iff]
  end_none := by rw [(h.linked i).end_eq, List.getLast?_eq_none_iff]

end Represents

inductive ListCall (ι : Type) where
  | pushFront (list : ι) (item : ItemPtr)
  | pushBack (list : ι) (item : ItemPtr)
  | erase (list : ι) (item : ItemPtr)

variable [DecidableEq ι]

def Lists.put (i : ι) (r : ListHead × Items) (s : Lists ι) : Lists ι := ⟨Function.update s.heads i r.1, r.2⟩

namespace ListCall

def exec : ListCall ι → Lists ι → Lists ι
  | pushFront i x, s => s.put i (listPushFront x (s.heads i) s.items)
  | pushBack i x, s => s.put i (listPushBack x (s.heads i) s.items)
  | erase i x, s => s.put i (listErase x (s.heads i) s.items)

/-- The call on lists proper. -/
def apply : ListCall ι → (ι → List ℕ) → ι → List ℕ
  | pushFront i x, l => Function.update l i (↑x :: l i)
  | pushBack i x, l => Function.update l i (l i ++ [↑x])
  | erase i x, l => Function.update l i ((l i).erase x)

/-- What is linked is in no list yet, and what is unlinked is in the list. -/
def Allowed : ListCall ι → (ι → List ℕ) → Prop
  | pushFront _ x, l => ∀ j, ↑x ∉ l j
  | pushBack _ x, l => ∀ j, ↑x ∉ l j
  | erase i x, l => ↑x ∈ l i

instance [Fintype ι] : (c : ListCall ι) → (l : ι → List ℕ) → Decidable (c.Allowed l)
  | pushFront _ x, l => inferInstanceAs (Decidable (∀ j, ↑x ∉ l j))
  | pushBack _ x, l => inferInstanceAs (Decidable (∀ j, ↑x ∉ l j))
  | erase i x, l => inferInstanceAs (Decidable (↑x ∈ l i))

end ListCall

def AllAllowed : List (ListCall ι) → (ι → List ℕ) → Prop
  | [], _ => True
  | c :: cs, l => c.Allowed l ∧ AllAllowed cs (c.apply l)

instance decidableAllAllowed [Fintype ι] : (cs : List (ListCall ι)) → (l : ι → List ℕ) → Decidable (AllAllowed cs l)
  | [], _ => .isTrue trivial
  | c :: cs, l => @instDecidableAnd _ _ inferInstance (decidableAllAllowed cs (c.apply l))

def execAll (cs : List (ListCall ι)) (s : Lists ι) : Lists ι := cs.foldl (fun s c => c.exec s) s

def applyAll (cs : List (ListCall ι)) (l : ι → List ℕ) : ι → List ℕ := cs.foldl (fun l c => c.apply l) l

namespace Represents

/-- A list is changed and what is in no list, or has been in it, with it. -/
theorem put (h : Represents s l) {r : ListHead × Items} {l' : List ℕ} (hlinked : Linked r.1 r.2 l')
    (hout : ∀ j, j ≠ i → ∀ y ∈ l j, y ∉ l' ∧ r.2 y = s.items y) (hpointer : ∀ y ∈ l', 0 < y ∧ y < 2 ^ 32) :
    Represents (s.put i r) (Function.update l i l') where
  linked j := by
    by_cases hj : j = i
    · subst hj
      rw [Function.update_self]
      have hhead : (s.put j r).heads j = r.1 := Function.update_self ..
      rw [hhead]
      exact hlinked
    · rw [Function.update_of_ne hj]
      have hhead : (s.put i r).heads j = s.heads j := Function.update_of_ne hj ..
      rw [hhead]
      exact (h.linked j).congr fun y hy => (hout j hj y hy).2
  apart j k hjk y hy := by
    by_cases hj : j = i
    · subst hj
      rw [Function.update_self] at hy
      rw [Function.update_of_ne hjk.symm]
      exact fun hk => (hout k hjk.symm y hk).1 hy
    · rw [Function.update_of_ne hj] at hy
      by_cases hk : k = i
      · subst hk
        rw [Function.update_self]
        exact (hout j hj y hy).1
      · rw [Function.update_of_ne hk]
        exact h.apart j k hjk y hy
  pointer j := by
    by_cases hj : j = i
    · subst hj
      rwa [Function.update_self]
    · rw [Function.update_of_ne hj]
      exact h.pointer j

theorem exec (h : Represents s l) (c : ListCall ι) (hc : c.Allowed l) : Represents (c.exec s) (c.apply l) := by
  cases c with
  | pushFront i x =>
    obtain ⟨hlinked, hsame⟩ := (h.linked i).pushFront (x := x) (hc i)
    apply h.put hlinked
    · intro j hj y hy
      have hout : y ∉ x.1 :: l i := by
        rw [List.mem_cons, not_or]
        exact ⟨fun he => hc j (he ▸ hy), h.apart j i hj y hy⟩
      exact ⟨hout, hsame y hout⟩
    · rw [List.forall_mem_cons]
      exact ⟨x.2, h.pointer i⟩
  | pushBack i x =>
    obtain ⟨hlinked, hsame⟩ := (h.linked i).pushBack (x := x) (hc i)
    apply h.put hlinked
    · intro j hj y hy
      have hout : y ∉ l i ++ [x.1] := by
        rw [List.mem_append, List.mem_singleton, not_or]
        exact ⟨h.apart j i hj y hy, fun he => hc j (he ▸ hy)⟩
      exact ⟨hout, hsame y hout⟩
    · rw [List.forall_mem_append, List.forall_mem_singleton]
      exact ⟨h.pointer i, x.2⟩
  | erase i x =>
    have hl := h.linked i
    obtain ⟨a, b, hsplit⟩ := List.append_of_mem hc
    have hnd := hl.nodup
    rw [hsplit] at hl hnd
    have herase : (l i).erase x = a ++ b := by
      have hx : ↑x ∉ a := fun hx => (List.nodup_append.mp hnd).2.2 _ hx _ List.mem_cons_self rfl
      rw [hsplit, List.erase_append_right _ hx, List.erase_cons_head]
    obtain ⟨hlinked, hsame⟩ := hl.erase
    rw [← herase] at hlinked hsame
    apply h.put hlinked
    · intro j hj y hy
      have hout : y ∉ (l i).erase x := fun hm => h.apart j i hj y hy (List.mem_of_mem_erase hm)
      exact ⟨hout, hsame y hout⟩
    · exact fun y hy => h.pointer i y (List.mem_of_mem_erase hy)

theorem execAll (h : Represents s l) (cs : List (ListCall ι)) (hcs : AllAllowed cs l) :
    Represents (execAll cs s) (applyAll cs l) := by
  induction cs generalizing s l with
  | nil => exact h
  | cons c cs ih => exact ih (h.exec c hcs.1) hcs.2

end Represents

/-- After any sequence of calls every list shows the items that it is to have. -/
theorem execAll_shows (m : Items) (cs : List (ListCall ι)) (hcs : AllAllowed cs fun _ => []) (i : ι) :
    Shows ((execAll cs (Lists.init m)).heads i) (execAll cs (Lists.init m)).items (applyAll cs (fun _ => []) i) :=
  ((Represents.init m).execAll cs hcs).shows i

def itemCalls : List (ListCall Bool) :=
  [.pushBack true ⟨16, by decide⟩, .pushFront true ⟨8, by decide⟩, .pushBack true ⟨24, by decide⟩,
    .erase true ⟨16, by decide⟩, .pushBack false ⟨16, by decide⟩, .erase true ⟨8, by decide⟩]

/-- The items in the middle and at the beginning of three are erased, the first one after it has come to another list. -/
theorem execAll_shows_sample :
    Shows ((execAll itemCalls (Lists.init fun _ => ⟨none, none⟩)).heads true)
      (execAll itemCalls (Lists.init fun _ => ⟨none, none⟩)).items [24] :=
  execAll_shows (fun _ => ⟨none, none⟩) itemCalls (by decide) true

end FreeDos32.Kernel
