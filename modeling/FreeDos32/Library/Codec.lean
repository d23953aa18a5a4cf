import Mathlib.Algebra.Ring.Int.Defs
import Mathlib.Algebra.Ring.Nat
import Mathlib.Logic.Basic

namespace FreeDos32

variable {α β ε : Type}

def encodeAll (enc : α → Except ε (List β)) : List α → Except ε (List β)
  | [] => .ok []
  | a :: as => do
    let x ← enc a
    let y ← encodeAll enc as
    pure (x ++ y)

/-- Decodes characters as long as there is something left, `fuel` of them at most; `dec` gives a character
and the number of units it takes. The second list is what is left over. -/
def decodeAll (dec : List β → Except ε (α × ℕ)) : ℕ → List β → Except ε (List α × List β)
  | 0, s => .ok ([], s)
  | fuel + 1, s =>
    match s with
    | [] => .ok ([], [])
    | y :: s =>
      match dec (y :: s) with
      | .error e => .error e
      | .ok (a, n) => (decodeAll dec fuel ((y :: s).drop n)).map fun r => (a :: r.1, r.2)

/-- What is encoded can be told from what follows it. -/
def Decodes (enc : α → Except ε (List β)) (dec : List β → Except ε (α × ℕ)) (a : α) : Prop :=
  ∃ x, enc a = .ok x ∧ x ≠ [] ∧ ∀ t, dec (x ++ t) = .ok (a, x.length)

/-- What is encoded is taken for another character, whatever follows it. -/
def Mistakes (enc : α → Except ε (List β)) (dec : List β → Except ε (α × ℕ)) (a : α) : Prop :=
  ∃ x, enc a = .ok x ∧ x ≠ [] ∧ ∀ t b n, dec (x ++ t) = .ok (b, n) → b ≠ a

variable {enc : α → Except ε (List β)} {dec : List β → Except ε (α × ℕ)} {as : List α} {a : α}

theorem decodeAll_append {x t : List β} {fuel : ℕ} (hx : x ≠ []) (hdec : dec (x ++ t) = .ok (a, x.length)) :
    decodeAll dec (fuel + 1) (x ++ t) = (decodeAll dec fuel t).map fun r => (a :: r.1, r.2) := by
  cases x with
  | nil => exact absurd rfl hx
  | cons y x =>
    rw [List.cons_append] at hdec ⊢
    rw [decodeAll, hdec]
    simp

theorem encodeAll_cons {x s : List β} (hx : enc a = .ok x) (hs : encodeAll enc as = .ok s) :
    encodeAll enc (a :: as) = .ok (x ++ s) := by
  rw [encodeAll, hx, hs]
  rfl

theorem encodeAll_cons_inv {s : List β} (h : encodeAll enc (a :: as) = .ok s) :
    ∃ x y, enc a = .ok x ∧ encodeAll enc as = .ok y ∧ s = x ++ y := by
  rw [encodeAll] at h
  cases hx : enc a with
  | error e =>
    rw [hx] at h
    cases h
  | ok x =>
    cases hy : encodeAll enc as with
    | error e =>
      rw [hx, hy] at h
      cases h
    | ok y =>
      rw [hx, hy] at h
      cases h
      exact ⟨x, y, rfl, rfl, rfl⟩

theorem encodeAll_forall {P : β → Prop} (henc : ∀ a x, enc a = .ok x → ∀ y ∈ x, P y) {s : List β}
    (h : encodeAll enc as = .ok s) : ∀ y ∈ s, P y := by
  induction as generalizing s with
  | nil =>
    cases h
    simp
  | cons a as ih =>
    obtain ⟨x, y, hx, hy, rfl⟩ := encodeAll_cons_inv h
    intro z hz
    rcases List.mem_append.mp hz with hz | hz
    · exact henc a x hx z hz
    · exact ih hy z hz

theorem decodeAll_encodeAll (h : ∀ a ∈ as, Decodes enc dec a) :
    ∃ s, encodeAll enc as = .ok s ∧ ∀ fuel, s.length ≤ fuel → decodeAll dec fuel s = .ok (as, []) := by
  induction as with
  | nil =>
    refine ⟨[], rfl, fun fuel _ => ?_⟩
    cases fuel <;> rfl
  | cons a as ih =>
    obtain ⟨x, hx, hne, hdec⟩ := h a List.mem_cons_self
    obtain ⟨s, hs, hall⟩ := ih fun b hb => h b (List.mem_cons_of_mem a hb)
    refine ⟨x ++ s, encodeAll_cons hx hs, fun fuel hfuel => ?_⟩
    have hpos := List.length_pos_iff.mpr hne
    rw [List.length_append] at hfuel
    cases fuel with
    | zero => omega
    | succ fuel =>
      rw [decodeAll_append hne (hdec s), hall fuel (by omega)]
      rfl

theorem Mistakes.decodeAll_ne {x t : List β} (hx : x ≠ []) (hdec : ∀ b n, dec (x ++ t) = .ok (b, n) → b ≠ a)
    (fuel : ℕ) : decodeAll dec fuel (x ++ t) ≠ .ok (a :: as, []) := by
  cases x with
  | nil => exact absurd rfl hx
  | cons y x =>
    rw [List.cons_append] at hdec ⊢
    cases fuel with
    | zero => simp [decodeAll]
    | succ fuel =>
      rw [decodeAll]
      cases hd : dec (y :: (x ++ t)) with
      | error e => simp
      | ok r =>
        have hne := hdec r.1 r.2 hd
        cases hq : decodeAll dec fuel ((y :: (x ++ t)).drop r.2) with
        | error e => simp [Except.map, hq]
        | ok q => simp [Except.map, hq, hne]

/-- One character that is mistaken for another is enough to spoil the list. -/
theorem decodeAll_mistakes (h : ∀ a ∈ as, Decodes enc dec a ∨ Mistakes enc dec a) :
    ∃ s, encodeAll enc as = .ok s ∧
      ((∃ a ∈ as, Mistakes enc dec a) → ∀ fuel, decodeAll dec fuel s ≠ .ok (as, [])) := by
  induction as with
  | nil => exact ⟨[], rfl, by simp⟩
  | cons a as ih =>
    obtain ⟨s, hs, hall⟩ := ih fun b hb => h b (List.mem_cons_of_mem a hb)
    by_cases hm : Mistakes enc dec a
    · obtain ⟨x, hx, hne, hdec⟩ := hm
      exact ⟨x ++ s, encodeAll_cons hx hs, fun _ fuel => Mistakes.decodeAll_ne hne (hdec s) fuel⟩
    · obtain ⟨x, hx, hne, hdec⟩ := (h a List.mem_cons_self).resolve_right hm
      refine ⟨x ++ s, encodeAll_cons hx hs, fun hbad fuel => ?_⟩
      have hbad' : ∃ b ∈ as, Mistakes enc dec b := by
        obtain ⟨b, hb, hmb⟩ := hbad
        rcases List.mem_cons.mp hb with rfl | hb
        · exact absurd hmb hm
        · exact ⟨b, hb, hmb⟩
      cases fuel with
      | zero => simp [decodeAll]
      | succ fuel =>
        rw [decodeAll_append hne (hdec s)]
        have hrest := hall hbad' fuel
        cases hd : decodeAll dec fuel s with
        | error e => simp [Except.map]
        | ok q =>
          rw [hd] at hrest
          intro he
          apply hrest
          obtain ⟨q1, q2⟩ := q
          simp only [Except.map, Except.ok.injEq, Prod.mk.injEq, List.cons.injEq, true_and] at he
          rw [he.1, he.2]

end FreeDos32
