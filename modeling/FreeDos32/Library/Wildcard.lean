import Mathlib.Data.List.Basic
import Mathlib.Data.List.Forall2

namespace FreeDos32.Wildcard

variable {α : Type}

/-- A pattern is made of tests for one letter and of stars. -/
inductive Piece (α : Type)
  | star
  | one (S : α → Prop)

variable {S : α → Prop} {p p' q : List (Piece α)} {s t u v w : List α} {f : List (α → Prop)}

def Matches : List (Piece α) → List α → Prop
  | [], s => s = []
  | .star :: p, s => ∃ u v, s = u ++ v ∧ Matches p v
  | .one S :: p, s => ∃ x v, s = x :: v ∧ S x ∧ Matches p v

theorem matches_append : Matches (p ++ q) s ↔ ∃ u v, s = u ++ v ∧ Matches p u ∧ Matches q v := by
  induction p generalizing s with
  | nil =>
    constructor
    · exact fun h => ⟨[], s, rfl, rfl, h⟩
    · rintro ⟨u, v, rfl, rfl, h⟩
      exact h
  | cons a p ih =>
    cases a with
    | star =>
      simp only [List.cons_append, Matches, ih]
      constructor
      · rintro ⟨a, b, rfl, u, v, rfl, hp, hq⟩
        exact ⟨a ++ u, v, (List.append_assoc ..).symm, ⟨a, u, rfl, hp⟩, hq⟩
      · rintro ⟨_, v, rfl, ⟨a, u, rfl, hp⟩, hq⟩
        exact ⟨a, u ++ v, List.append_assoc .., u, v, rfl, hp, hq⟩
    | one S =>
      simp only [List.cons_append, Matches, ih]
      constructor
      · rintro ⟨x, b, rfl, hx, u, v, rfl, hp, hq⟩
        exact ⟨x :: u, v, rfl, ⟨x, u, rfl, hx, hp⟩, hq⟩
      · rintro ⟨_, v, rfl, ⟨x, u, rfl, hx, hp⟩, hq⟩
        exact ⟨x, u ++ v, rfl, hx, u, v, rfl, hp, hq⟩

theorem matches_ones : Matches (f.map .one) s ↔ List.Forall₂ (fun S x => S x) f s := by
  induction f generalizing s with
  | nil => simp [Matches]
  | cons S f ih =>
    simp only [List.map_cons, Matches, ih]
    constructor
    · rintro ⟨x, v, rfl, hx, hv⟩
      exact .cons hx hv
    · rintro (_ | ⟨hx, hv⟩)
      exact ⟨_, _, rfl, hx, hv⟩

theorem Matches.extend (u : List α) (h : Matches (.star :: p) v) : Matches (.star :: p) (u ++ v) := by
  obtain ⟨a, b, rfl, hp⟩ := h
  exact ⟨u ++ a, b, (List.append_assoc ..).symm, hp⟩

theorem matches_star : Matches [.star] s := ⟨s, [], (List.append_nil s).symm, rfl⟩

theorem matches_star_star : Matches (.star :: .star :: p) s ↔ Matches (.star :: p) s := by
  constructor
  · rintro ⟨u, v, rfl, h⟩
    exact h.extend u
  · exact fun h => ⟨[], s, rfl, h⟩

def EndsStar (p : List (Piece α)) : Prop := p.getLast? = some .star

/-- What a matcher accepts that takes each piece of the pattern as far to the left as it can. -/
def Accept (p : List (Piece α)) (s : List α) : Prop :=
  Matches p s ∧ (EndsStar p ∨ ∀ v, v <+: s → Matches p v → v = s)

theorem accept_nil : Accept ([] : List (Piece α)) s ↔ s = [] := by
  constructor
  · exact fun h => h.1
  · rintro rfl
    exact ⟨rfl, .inr fun v hv _ => List.prefix_nil.mp hv⟩

theorem accept_star : Accept [.star] s := ⟨matches_star, .inl rfl⟩

theorem accept_star_star : Accept (.star :: .star :: p) s ↔ Accept (.star :: p) s := by
  have hend : EndsStar (.star :: .star :: p) ↔ EndsStar (.star :: p) := by rw [EndsStar, List.getLast?_cons_cons]; rfl
  simp only [Accept, matches_star_star, hend]

/-- The shortest beginning of a string that matches the pattern. -/
def Least (q : List (Piece α)) (u : List α) : Prop := Matches q u ∧ ∀ v, v <+: u → Matches q v → v = u

/-- A matcher that takes the first match of `q` misses nothing that a star still to come can take in. -/
theorem Least.accept_append (hq : Least q u) (hlast : ¬EndsStar q) (hp : p = [] ∨ p.head? = some .star) :
    Accept (q ++ p) (u ++ v) ↔ Accept p v := by
  rcases hp with rfl | hp
  · rw [List.append_nil, accept_nil]
    constructor
    · intro ⟨_, h⟩
      have he := (h.resolve_left hlast) u (List.prefix_append u v) hq.1
      exact List.append_right_eq_self.mp he.symm
    · rintro rfl
      rw [List.append_nil]
      exact ⟨hq.1, .inr hq.2⟩
  · obtain ⟨p, rfl⟩ : ∃ p', p = .star :: p' := by
      cases p with
      | nil => cases hp
      | cons a p => exact ⟨p, by rw [Option.some.inj hp]⟩
    have hend : EndsStar (q ++ .star :: p) ↔ EndsStar (.star :: p) := by
      rw [EndsStar, List.getLast?_append_of_ne_nil _ (List.cons_ne_nil _ _), EndsStar]
    -- A beginning of the whole that matches begins with `u` itself.
    have hkey : ∀ t, t <+: u ++ v → (Matches (q ++ .star :: p) t ↔ ∃ t', t = u ++ t' ∧ Matches (.star :: p) t') := by
      intro t ht
      rw [matches_append]
      constructor
      · rintro ⟨a, b, rfl, ha, hb⟩
        have hau : u <+: a := by
          rcases List.prefix_or_prefix_of_prefix ((List.prefix_append a b).trans ht) (List.prefix_append u v) with h | h
          · exact (hq.2 a h ha).symm ▸ List.prefix_refl u
          · exact h
        obtain ⟨c, rfl⟩ := hau
        exact ⟨c ++ b, List.append_assoc .., hb.extend c⟩
      · rintro ⟨t', rfl, h⟩
        exact ⟨u, t', rfl, hq.1, h⟩
    simp only [Accept, hend]
    refine and_congr ?_ (or_congr Iff.rfl ⟨fun h t ht hm => ?_, fun h t ht hm => ?_⟩)
    · rw [hkey _ (List.prefix_refl _)]
      constructor
      · rintro ⟨t', he, h⟩
        rwa [List.append_cancel_left he]
      · exact fun h => ⟨v, rfl, h⟩
    · have ht' : u ++ t <+: u ++ v := (List.prefix_append_right_inj u).mpr ht
      exact List.append_cancel_left (h _ ht' ((hkey _ ht').mpr ⟨t, rfl, hm⟩))
    · obtain ⟨t', rfl, hm'⟩ := (hkey t ht).mp hm
      rw [h t' ((List.prefix_append_right_inj u).mp ht) hm']

/-- A string with no beginning that matches `q` is not accepted, whatever comes after `q`. -/
theorem not_accept (h : ∀ u, u <+: s → ¬Matches q u) : ¬Accept (q ++ p) s := by
  rintro ⟨hm, -⟩
  obtain ⟨u, v, rfl, hu, -⟩ := matches_append.mp hm
  exact h u (List.prefix_append u v) hu

theorem least_ones (h : List.Forall₂ (fun S x => S x) f u) : Least (f.map .one) u := by
  refine ⟨matches_ones.mpr h, fun v hv hm => hv.eq_of_length ?_⟩
  rw [← (matches_ones.mp hm).length_eq, ← h.length_eq]

theorem not_endsStar_ones (hf : f ≠ []) : ¬EndsStar (p ++ f.map .one) := by
  obtain ⟨f, S, rfl⟩ := (List.eq_nil_or_concat' f).resolve_left hf
  rw [EndsStar, List.map_append, ← List.append_assoc, List.map_singleton, List.getLast?_concat]
  simp

/-- The least match of a star and tests for letters is where the tests first succeed. -/
theorem least_star_ones (h : List.Forall₂ (fun S x => S x) f u)
    (hfirst : ∀ a b, w ++ u = a ++ b → a.length < w.length → ∀ c, c <+: b → ¬List.Forall₂ (fun S x => S x) f c) :
    Least (.star :: f.map .one) (w ++ u) := by
  refine ⟨⟨w, u, rfl, matches_ones.mpr h⟩, fun v hv hm => hv.eq_of_length ?_⟩
  obtain ⟨a, c, rfl, hc⟩ := hm
  have hc := matches_ones.mp hc
  obtain ⟨b, hb⟩ := hv
  have hlen : ¬a.length < w.length := fun hlt =>
    hfirst a (c ++ b) (by rw [← hb, List.append_assoc]) hlt c (List.prefix_append c b) hc
  have h1 := congrArg List.length hb
  have h2 := h.length_eq
  have h3 := hc.length_eq
  simp only [List.length_append] at h1 ⊢
  omega

end FreeDos32.Wildcard
