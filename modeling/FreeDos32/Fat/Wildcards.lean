import FreeDos32.Library.Wildcard
import FreeDos32.Unicode.SimpleFold
import FreeDos32.Unicode.Utf8

namespace FreeDos32

/-! The matcher that the FAT and the ISO 9660 drivers both have, for the way `next` in which a driver reads the
next character of a pattern and the way `fold` in which it makes cases equal. -/

namespace Matcher

open Wildcard

section Code

variable (next : List UInt8 → Except Errno (ℕ × ℕ)) (fold : ℕ → ℕ)

def comparePattern : List UInt8 → List ℕ → ℕ → Except Errno ℕ
  | s1, [], res => if s1 = [] then .ok res else .ok 0
  | s1, x :: s2, res =>
    if s1 = [] then .ok res
    else
      match next s1 with
      | .error e => .error e
      | .ok (wc, skip) =>
        if wc ≠ 0x3F ∧ fold wc ≠ fold x then .ok 0 else comparePattern (s1.drop skip) s2 (res + 1)

/-- The loop after an asterisk, with what is then left of the name. -/
def shiftPattern (s1 : List UInt8) : List ℕ → Except Errno (ℕ × List ℕ)
  | [] => .ok (0, [])
  | x :: s2 =>
    match comparePattern next fold s1 (x :: s2) 0 with
    | .error e => .error e
    | .ok 0 => shiftPattern s1 s2
    | .ok res => .ok (res, x :: s2)

def seekPattern (shift : Bool) (s1 : List UInt8) (s2 : List ℕ) : Except Errno (ℕ × List ℕ) :=
  if shift = true then shiftPattern next fold s1 s2 else (comparePattern next fold s1 s2 0).map (·, s2)

/-- The loop of `compare_with_wildcards`; each turn takes at least one byte of the pattern. -/
def wildcardsLoop : ℕ → Bool → List UInt8 → List ℕ → Except Errno ℕ
  | fuel + 1, shift, b :: s1, s2 =>
    if b = 0x2A then
      if s1 = [] then .ok 0 else wildcardsLoop fuel true s1 s2
    else if s2 = [] then .ok 1
    else
      let nsub := (b :: s1).findIdx (· == 0x2A)
      match seekPattern next fold shift ((b :: s1).take nsub) s2 with
      | .error e => .error e
      | .ok (0, _) => .ok 1
      | .ok (res, s2) => wildcardsLoop fuel shift ((b :: s1).drop nsub) (s2.drop res)
  | _, _, s1, s2 => if s1 ≠ [] ∨ s2 ≠ [] then .ok 1 else .ok 0

def compareWithWildcards (s1 : List UInt8) (s2 : List ℕ) : Except Errno ℕ :=
  wildcardsLoop next fold s1.length false s1 s2

end Code

section Spec

variable {next : List UInt8 → Except Errno (ℕ × ℕ)} {fold : ℕ → ℕ} {c x fuel res : ℕ} {cs cs' : List ℕ} {s t : List UInt8}
  {s2 u v : List ℕ} {shift : Bool}

/-- The pattern as a driver reads it: characters one after another, of which an asterisk alone is its byte. -/
inductive Reads (next : List UInt8 → Except Errno (ℕ × ℕ)) : List ℕ → List UInt8 → Prop
  | nil : Reads next [] []
  | cons {c cs x y} (hne : x ≠ []) (hdec : ∀ t, next (x ++ t) = .ok (c, x.length)) (hstar : c = 0x2A → x = [0x2A])
      (hother : c ≠ 0x2A → 0x2A ∉ x) (hy : Reads next cs y) : Reads next (c :: cs) (x ++ y)

namespace Reads

theorem append_inv (h : Reads next (cs ++ cs') s) : ∃ x y, Reads next cs x ∧ Reads next cs' y ∧ s = x ++ y := by
  induction cs generalizing s with
  | nil => exact ⟨[], s, .nil, h, rfl⟩
  | cons c cs ih =>
    cases h with
    | cons hne hdec hstar hother hy =>
      obtain ⟨u, v, hu, hv, rfl⟩ := ih hy
      exact ⟨_ ++ u, v, .cons hne hdec hstar hother hu, hv, (List.append_assoc ..).symm⟩

theorem star_inv (h : Reads next (0x2A :: cs) s) : ∃ y, Reads next cs y ∧ s = 0x2A :: y := by
  cases h with
  | cons hne hdec hstar hother hy => exact ⟨_, hy, by rw [hstar rfl, List.singleton_append]⟩

theorem star_notMem (h : Reads next cs s) (hcs : 0x2A ∉ cs) : 0x2A ∉ s := by
  induction h with
  | nil => exact List.not_mem_nil
  | @cons c cs x y hne hdec hstar hother hy ih =>
    rw [List.mem_cons, not_or] at hcs
    rw [List.mem_append, not_or]
    exact ⟨hother (Ne.symm hcs.1), ih hcs.2⟩

theorem eq_nil_iff (h : Reads next cs s) : s = [] ↔ cs = [] := by
  cases h with
  | nil => simp
  | cons hne => simp [hne]

end Reads

/-- What a character of a pattern that is not an asterisk asks of one of the name. -/
def test (fold : ℕ → ℕ) (c x : ℕ) : Prop := c = 0x3F ∨ fold c = fold x

def piece (fold : ℕ → ℕ) (c : ℕ) : Piece ℕ := if c = 0x2A then .star else .one (test fold c)

def pattern (fold : ℕ → ℕ) (cs : List ℕ) : List (Piece ℕ) := cs.map (piece fold)

theorem pattern_ones (h : 0x2A ∉ cs) : pattern fold cs = (cs.map (test fold)).map .one := by
  rw [pattern, List.map_map]
  refine List.map_congr_left fun c hc => ?_
  have hne : c ≠ 0x2A := fun he => h (he ▸ hc)
  rw [piece, if_neg hne]
  rfl

abbrev Begins (fold : ℕ → ℕ) (cs u : List ℕ) : Prop := List.Forall₂ (fun S x => S x) (cs.map (test fold)) u

theorem Begins.length (h : Begins fold cs u) : u.length = cs.length := by rw [← h.length_eq, List.length_map]

theorem comparePattern_begins (h : Reads next cs s) (hu : Begins fold cs u) :
    comparePattern next fold s (u ++ v) res = .ok (res + cs.length) := by
  induction h generalizing u res with
  | nil =>
    cases hu
    cases v <;> rfl
  | @cons c cs x y hne hdec hstar hother hy ih =>
    cases hu with
    | @cons _ z _ u hz hu =>
      have hxy : x ++ y ≠ [] := List.append_ne_nil_of_left_ne_nil hne y
      have htest : ¬(c ≠ 0x3F ∧ fold c ≠ fold z) := fun h => hz.elim h.1 h.2
      rw [List.cons_append, comparePattern, if_neg hxy, hdec]
      simp only [htest, if_false, List.drop_left]
      rw [ih hu, List.length_cons, Nat.add_right_comm, Nat.add_assoc]

theorem comparePattern_fails (h : Reads next cs s) (hu : ∀ u, u <+: s2 → ¬Begins fold cs u) :
    comparePattern next fold s s2 res = .ok 0 := by
  induction h generalizing s2 res with
  | nil => exact absurd .nil (hu [] s2.nil_prefix)
  | @cons c cs x y hne hdec hstar hother hy ih =>
    have hxy : x ++ y ≠ [] := List.append_ne_nil_of_left_ne_nil hne y
    cases s2 with
    | nil => rw [comparePattern, if_neg hxy]
    | cons z s2 =>
      rw [comparePattern, if_neg hxy, hdec]
      simp only [List.drop_left]
      split
      · rfl
      · next htest =>
        refine ih fun u hpre hb => hu (z :: u) (List.prefix_cons_inj z |>.mpr hpre) (.cons ?_ hb)
        by_contra hz
        exact htest (not_or.mp hz)

/-- Where the tests for the letters of `cs` first succeed. -/
def First (fold : ℕ → ℕ) (cs w u : List ℕ) : Prop :=
  ∀ a b, w ++ u = a ++ b → a.length < w.length → ∀ c, c <+: b → ¬Begins fold cs c

theorem shiftPattern_spec (fold : ℕ → ℕ) (s2 : List ℕ) (h : Reads next cs s) (hcs : cs ≠ []) :
    (∃ w u v, s2 = w ++ (u ++ v) ∧ Begins fold cs u ∧ First fold cs w u ∧
        shiftPattern next fold s s2 = .ok (cs.length, u ++ v)) ∨
      (∀ a b, s2 = a ++ b → ∀ c, c <+: b → ¬Begins fold cs c) ∧ shiftPattern next fold s s2 = .ok (0, []) := by
  have hlen : cs.length ≠ 0 := fun he => hcs (List.eq_nil_of_length_eq_zero he)
  induction s2 with
  | nil =>
    refine .inr ⟨fun a b hab c hc hb => ?_, rfl⟩
    obtain ⟨rfl, rfl⟩ := List.append_eq_nil_iff.mp hab.symm
    rw [List.prefix_nil.mp hc] at hb
    exact hlen hb.length.symm
  | cons x s2 ih =>
    by_cases hb : ∃ u, u <+: x :: s2 ∧ Begins fold cs u
    · obtain ⟨u, ⟨v, hv⟩, hu⟩ := hb
      refine .inl ⟨[], u, v, by rw [← hv, List.nil_append], hu, fun a b _ hlt => absurd hlt (Nat.not_lt_zero _), ?_⟩
      rw [shiftPattern, ← hv, comparePattern_begins h hu, Nat.zero_add]
      obtain ⟨n, hn⟩ := Nat.exists_eq_succ_of_ne_zero hlen
      rw [hn]
      rfl
    · have hno : ∀ c, c <+: x :: s2 → ¬Begins fold cs c := fun c hc hbc => hb ⟨c, hc, hbc⟩
      have hshift : shiftPattern next fold s (x :: s2) = shiftPattern next fold s s2 := by
        rw [shiftPattern, comparePattern_fails h hno]
        rfl
      rw [hshift]
      refine ih.imp ?_ ?_
      · rintro ⟨w, u, v, rfl, hu, hfirst, he⟩
        refine ⟨x :: w, u, v, rfl, hu, fun a b hab hlt c hc => ?_, he⟩
        cases a with
        | nil =>
          refine hno c (hc.trans ⟨v, ?_⟩)
          rw [← List.nil_append b, ← hab, List.cons_append, List.cons_append, List.append_assoc]
        | cons y a =>
          have hab' : w ++ u = a ++ b := (List.cons.inj hab).2
          exact hfirst a b hab' (Nat.lt_of_succ_lt_succ hlt) c hc
      · rintro ⟨hnone, he⟩
        refine ⟨fun a b hab c hc => ?_, he⟩
        cases a with
        | nil => exact hno c (hab ▸ hc)
        | cons y a => exact hnone a b (List.cons.inj hab).2 c hc

/-- The pattern that the loop still has to match when `shift` is set. -/
def withShift : Bool → List (Piece ℕ) → List (Piece ℕ)
  | true, .one S :: p => .star :: .one S :: p
  | _, p => p

def shifted (shift : Bool) (fold : ℕ → ℕ) (cs : List ℕ) : List (Piece ℕ) :=
  (if shift = true then [.star] else []) ++ (cs.map (test fold)).map .one

theorem seekPattern_spec (fold : ℕ → ℕ) (shift : Bool) (s2 : List ℕ) (h : Reads next cs s) (hcs : cs ≠ []) :
    (∃ w u v, s2 = (w ++ u) ++ v ∧ u.length = cs.length ∧ Least (shifted shift fold cs) (w ++ u) ∧
        seekPattern next fold shift s s2 = .ok (cs.length, u ++ v)) ∨
      (∀ u, u <+: s2 → ¬Matches (shifted shift fold cs) u) ∧ ∃ rest, seekPattern next fold shift s s2 = .ok (0, rest) := by
  cases shift with
  | true =>
    refine (shiftPattern_spec fold s2 h hcs).imp ?_ ?_
    · rintro ⟨w, u, v, rfl, hu, hfirst, he⟩
      exact ⟨w, u, v, (List.append_assoc ..).symm, hu.length, least_star_ones hu hfirst, he⟩
    · rintro ⟨hnone, he⟩
      refine ⟨?_, [], he⟩
      rintro _ ⟨t, rfl⟩ ⟨a, b, rfl, hb⟩
      exact hnone a (b ++ t) (List.append_assoc ..) b (List.prefix_append b t) (matches_ones.mp hb)
  | false =>
    by_cases hb : ∃ u, u <+: s2 ∧ Begins fold cs u
    · obtain ⟨u, ⟨v, rfl⟩, hu⟩ := hb
      refine .inl ⟨[], u, v, rfl, hu.length, least_ones hu, ?_⟩
      rw [seekPattern, if_neg Bool.false_ne_true, comparePattern_begins h hu, Nat.zero_add]
      rfl
    · have hno : ∀ u, u <+: s2 → ¬Begins fold cs u := fun u hu hbu => hb ⟨u, hu, hbu⟩
      refine .inr ⟨fun u hu hm => hno u hu (matches_ones.mp hm), s2, ?_⟩
      rw [seekPattern, if_neg Bool.false_ne_true, comparePattern_fails h hno]
      rfl

theorem withShift_append (h : 0x2A ∉ cs) (hcs : cs ≠ []) :
    withShift shift (pattern fold (cs ++ cs')) = shifted shift fold cs ++ pattern fold cs' := by
  have hp : pattern fold (cs ++ cs') = (cs.map (test fold)).map .one ++ pattern fold cs' := by
    rw [← pattern_ones h, pattern, List.map_append]
    rfl
  rw [hp, shifted]
  cases cs with
  | nil => exact absurd rfl hcs
  | cons c cs => cases shift <;> rfl

theorem withShift_star (h : cs = [] ∨ cs.head? = some 0x2A) : withShift shift (pattern fold cs) = pattern fold cs := by
  cases cs with
  | nil => cases shift <;> rfl
  | cons c cs =>
    obtain rfl : c = 0x2A := by simpa using h
    cases shift <;> rfl

/-- After an asterisk more of the pattern is left, so that it begins with a star. -/
theorem accept_withShift (hcs : cs ≠ []) {s2 : List ℕ} :
    Accept (withShift true (pattern fold cs)) s2 ↔ Accept (.star :: pattern fold cs) s2 := by
  cases cs with
  | nil => exact absurd rfl hcs
  | cons c cs =>
    by_cases hc : c = 0x2A
    · have hp : pattern fold (c :: cs) = .star :: pattern fold cs := by
        rw [pattern, List.map_cons, piece, if_pos hc]
        rfl
      rw [hp]
      exact accept_star_star.symm
    · have hp : pattern fold (c :: cs) = .one (test fold c) :: pattern fold cs := by
        rw [pattern, List.map_cons, piece, if_neg hc]
        rfl
      rw [hp]
      rfl

theorem findIdx_star {x y : List UInt8} (hx : 0x2A ∉ x) (hy : y = [] ∨ y.head? = some 0x2A) :
    (x ++ y).findIdx (· == 0x2A) = x.length := by
  induction x with
  | nil =>
    cases y with
    | nil => rfl
    | cons b y =>
      obtain rfl : b = 0x2A := by simpa using hy
      rfl
  | cons b x ih =>
    rw [List.mem_cons, not_or] at hx
    rw [List.cons_append, List.findIdx_cons, beq_false_of_ne (Ne.symm hx.1), cond_false, ih hx.2, List.length_cons]

theorem not_accept_nil (hcs : cs ≠ []) {p : List (Piece ℕ)} : ¬Accept (shifted shift fold cs ++ p) [] := by
  refine not_accept fun u hu hm => ?_
  obtain rfl := List.prefix_nil.mp hu
  obtain ⟨a, b, hab, -, hb⟩ := matches_append.mp hm
  rw [(List.append_eq_nil_iff.mp hab.symm).2] at hb
  exact hcs (List.eq_nil_of_length_eq_zero (Begins.length (matches_ones.mp hb)).symm)

theorem wildcardsLoop_nil : wildcardsLoop next fold fuel shift [] s2 = .ok 0 ↔ s2 = [] := by
  by_cases hs : s2 = [] <;> cases fuel <;> simp [wildcardsLoop, hs]

theorem wildcardsLoop_part {x y : List UInt8} (hx : Reads next cs x) (hy : Reads next cs' y) (hcs : cs ≠ [])
    (hq : 0x2A ∉ cs) (hp : cs' = [] ∨ cs'.head? = some 0x2A)
    (ih : ∀ {s2}, wildcardsLoop next fold fuel shift y s2 = .ok 0 ↔ Accept (withShift shift (pattern fold cs')) s2) :
    wildcardsLoop next fold (fuel + 1) shift (x ++ y) s2 = .ok 0 ↔
      Accept (withShift shift (pattern fold (cs ++ cs'))) s2 := by
  rw [withShift_append hq hcs]
  rw [withShift_star hp] at ih
  have hxstar := hx.star_notMem hq
  have hystar : y = [] ∨ y.head? = some 0x2A := by
    rcases hp with rfl | hp
    · exact .inl (hy.eq_nil_iff.mpr rfl)
    · cases cs' with
      | nil => cases hp
      | cons c cs' =>
        obtain rfl := Option.some.inj hp
        obtain ⟨y', -, rfl⟩ := hy.star_inv
        exact .inr rfl
  have hidx := findIdx_star hxstar hystar
  have hseek := seekPattern_spec fold shift s2 hx hcs
  cases x with
  | nil => exact absurd (hx.eq_nil_iff.mp rfl) hcs
  | cons b x =>
    have hb : b ≠ 0x2A := fun he => hxstar (he ▸ List.mem_cons_self)
    rw [List.cons_append] at hidx ⊢
    rw [wildcardsLoop, if_neg hb, hidx, ← List.cons_append]
    simp only [List.take_left, List.drop_left]
    by_cases hs2 : s2 = []
    · rw [if_pos hs2, hs2]
      exact iff_of_false (by simp) (not_accept_nil hcs)
    · rw [if_neg hs2]
      rcases hseek with ⟨w, u, v, rfl, hu, hleast, he⟩ | ⟨hnone, rest, he⟩
      · obtain ⟨n, hn⟩ := Nat.exists_eq_succ_of_ne_zero fun he => hcs (List.eq_nil_of_length_eq_zero he)
        have hend : ¬EndsStar (shifted shift fold cs) := not_endsStar_ones fun he => hcs (List.map_eq_nil_iff.mp he)
        have hpat : pattern fold cs' = [] ∨ (pattern fold cs').head? = some .star := by
          refine hp.imp (fun h => by rw [h]; rfl) fun h => ?_
          rw [pattern, List.head?_map, h]
          rfl
        simp only [he, hn]
        rw [← hn, ← hu, List.drop_left, ih]
        exact (hleast.accept_append hend hpat).symm
      · simp only [he]
        exact iff_of_false (by simp) (not_accept hnone)

theorem wildcardsLoop_accept (h : Reads next cs s) (hfuel : s.length ≤ fuel) :
    wildcardsLoop next fold fuel shift s s2 = .ok 0 ↔ Accept (withShift shift (pattern fold cs)) s2 := by
  induction fuel generalizing cs s s2 shift with
  | zero =>
    obtain rfl := List.eq_nil_of_length_eq_zero (Nat.le_zero.mp hfuel)
    obtain rfl := h.eq_nil_iff.mp rfl
    rw [withShift_star (.inl rfl)]
    exact wildcardsLoop_nil.trans accept_nil.symm
  | succ fuel ih =>
    -- The part before the next asterisk, and the part from it on.
    obtain ⟨q, p, rfl, hq, hp⟩ : ∃ q p, cs = q ++ p ∧ 0x2A ∉ q ∧ (p = [] ∨ p.head? = some 0x2A) := by
      by_cases hmem : 0x2A ∈ cs
      · obtain ⟨q, p, rfl, hq⟩ := List.eq_append_cons_of_mem hmem
        exact ⟨q, _, rfl, hq, .inr rfl⟩
      · exact ⟨cs, [], (List.append_nil cs).symm, hmem, .inl rfl⟩
    by_cases hq0 : q = []
    · subst hq0
      rw [List.nil_append] at h ⊢
      rw [withShift_star hp]
      cases p with
      | nil =>
        obtain rfl := h.eq_nil_iff.mpr rfl
        exact wildcardsLoop_nil.trans accept_nil.symm
      | cons c p =>
        obtain rfl : c = 0x2A := by simpa using hp
        obtain ⟨y, hy, rfl⟩ := h.star_inv
        rw [wildcardsLoop, if_pos rfl]
        by_cases hp0 : p = []
        · subst hp0
          rw [if_pos (hy.eq_nil_iff.mpr rfl)]
          exact iff_of_true rfl accept_star
        · rw [if_neg fun he => hp0 (hy.eq_nil_iff.mp he), ih hy (Nat.le_of_succ_le_succ hfuel)]
          exact accept_withShift hp0
    · obtain ⟨x, y, hx, hy, rfl⟩ := h.append_inv
      have hxlen := List.length_pos_of_ne_nil fun he => hq0 (hx.eq_nil_iff.mp he)
      refine wildcardsLoop_part hx hy hq0 hq hp fun {s2} => ih hy ?_
      rw [List.length_append] at hfuel
      omega

theorem compareWithWildcards_accept (h : Reads next cs s) :
    compareWithWildcards next fold s s2 = .ok 0 ↔ Accept (pattern fold cs) s2 :=
  wildcardsLoop_accept h (Nat.le_refl _)

/-- The name matches, and so does a beginning of it, after which the matcher goes no further. -/
def Overrun (fold : ℕ → ℕ) (cs s2 : List ℕ) : Prop :=
  Matches (pattern fold cs) s2 ∧ ¬EndsStar (pattern fold cs) ∧ ∃ v, v <+: s2 ∧ v ≠ s2 ∧ Matches (pattern fold cs) v

theorem accept_iff : Accept (pattern fold cs) s2 ↔ Matches (pattern fold cs) s2 ∧ ¬Overrun fold cs s2 := by
  refine and_congr_right fun hm => ?_
  rw [Overrun, and_iff_right hm, not_and_or]
  refine or_congr not_not.symm ⟨?_, fun h v hv hmv => by_contra fun hne => h ⟨v, hv, hne, hmv⟩⟩
  rintro h ⟨v, hv, hne, hmv⟩
  exact hne (h v hv hmv)

theorem compareWithWildcards_matches (h : Reads next cs s) :
    (compareWithWildcards next fold s s2 = .ok 0 ↔ Matches (pattern fold cs) s2) ↔ ¬Overrun fold cs s2 := by
  rw [compareWithWildcards_accept h, accept_iff, and_iff_left_iff_imp]
  exact ⟨fun hm ho => hm ho.1 ho, fun ho _ => ho⟩

end Spec

end Matcher

namespace Iso9660

/-- The names of the ISO 9660 driver are bytes; `toupper` is that of the C library. -/
def compareWithWildcards (toupper : ℕ → ℕ) (s1 s2 : List UInt8) : Except Errno ℕ :=
  Matcher.compareWithWildcards (fun s => .ok ((s.headD 0).toNat, 1)) toupper s1 (s2.map UInt8.toNat)

end Iso9660

namespace Fat

open Unicode

/-- The index of the last `c`, where `n` is the index of the head. -/
def lastIndex {α : Type} [DecidableEq α] (c : α) : List α → ℕ → Option ℕ → Option ℕ
  | [], _, res => res
  | x :: s, n, res => lastIndex c s (n + 1) (if x = c then some n else res)

def memrchr (s : List UInt8) (c : UInt8) : Option ℕ := lastIndex c s 0 none

def wmemrchr (s : List ℕ) (c : ℕ) : Option ℕ := lastIndex c s 0 none

def compareWithWildcards (s1 : List UInt8) (s2 : List ℕ) : Except Errno ℕ :=
  Matcher.compareWithWildcards unicodeUtf8ToWchar unicodeSimpleFold s1 s2

def compareWithWildcardsCompat (s1 : List UInt8) (s2 : List ℕ) : Except Errno ℕ :=
  match memrchr s1 0x2E with
  | some s1dot =>
    let (n2nam, n2ext) := match wmemrchr s2 0x2E with
      | some s2dot => (s2.take s2dot, s2.drop (s2dot + 1))
      | none => (s2, [])
    match compareWithWildcards (s1.take s1dot) n2nam with
    | .error e => .error e
    | .ok res1 =>
      match compareWithWildcards (s1.drop (s1dot + 1)) n2ext with
      | .error e => .error e
      | .ok res2 => .ok (if res1 ≠ 0 ∨ res2 ≠ 0 then 1 else 0)
  | none => compareWithWildcards s1 s2

section Compat

variable {α : Type} [DecidableEq α] {c : α} {a b : List α} {n : ℕ} {res : Option ℕ} {p s2 nam ext nam' ext' : List ℕ} {s1 : List UInt8}

theorem lastIndex_none (h : c ∉ a) : lastIndex c a n res = res := by
  induction a generalizing n res with
  | nil => rfl
  | cons x a ih =>
    rw [List.mem_cons, not_or] at h
    rw [lastIndex, ih h.2, if_neg (Ne.symm h.1)]

theorem lastIndex_some (h : c ∉ b) : lastIndex c (a ++ c :: b) n res = some (n + a.length) := by
  induction a generalizing n res with
  | nil => rw [List.nil_append, lastIndex, lastIndex_none h, if_pos rfl, List.length_nil, Nat.add_zero]
  | cons x a ih => rw [List.cons_append, lastIndex, ih, List.length_cons, Nat.add_right_comm, Nat.add_assoc]

theorem reads_utf8 (h : Utf8 p s1) : Matcher.Reads unicodeUtf8ToWchar p s1 := by
  induction p generalizing s1 with
  | nil =>
    cases h
    exact .nil
  | cons c p ih =>
    have hc : c < 0x200000 := h.head_lt
    obtain ⟨x, y, hx, hne, hdec, hy, rfl⟩ := h.cons_inv hc
    refine .cons hne hdec ?_ ?_ (ih hy)
    · rintro rfl
      exact (Except.ok.inj hx).symm
    · intro hc2 hmem
      rcases wcharToUtf8_byte hc hx hmem with he | he
      · exact hc2 he.symm
      · exact absurd he (by decide)

/-- The parts of a name before and after its last dot. -/
inductive Parts : List ℕ → List ℕ → List ℕ → Prop
  | dot {nam ext : List ℕ} (h : 0x2E ∉ ext) : Parts (nam ++ 0x2E :: ext) nam ext
  | plain {nam : List ℕ} (h : 0x2E ∉ nam) : Parts nam nam []

theorem exists_parts (s : List ℕ) : ∃ nam ext, Parts s nam ext := by
  by_cases h : 0x2E ∈ s
  · obtain ⟨ext, nam, he, hext⟩ := List.eq_append_cons_of_mem (List.mem_reverse.mpr h)
    have hs : s = nam.reverse ++ 0x2E :: ext.reverse := by
      rw [← List.reverse_reverse s, he, List.reverse_append, List.reverse_cons, List.append_assoc, List.singleton_append]
    exact ⟨nam.reverse, ext.reverse, hs ▸ .dot fun hmem => hext (List.mem_reverse.mp hmem)⟩
  · exact ⟨s, [], .plain h⟩

theorem Parts.unique (h : Parts p nam ext) (h' : Parts p nam' ext') : nam = nam' ∧ ext = ext' := by
  cases h with
  | dot h =>
    generalize he : nam ++ 0x2E :: ext = p at h'
    cases h' with
    | dot h' =>
      have h1 : lastIndex 0x2E (nam ++ 0x2E :: ext) 0 none = some (0 + nam.length) := lastIndex_some h
      have h2 : lastIndex 0x2E (nam' ++ 0x2E :: ext') 0 none = some (0 + nam'.length) := lastIndex_some h'
      have hlen : some (0 + nam.length) = some (0 + nam'.length) := by rw [← h1, ← h2, he]
      obtain ⟨rfl, hext⟩ := List.append_inj he (by simpa using hlen)
      exact ⟨rfl, (List.cons.inj hext).2⟩
    | plain h' => exact absurd (he ▸ List.mem_append_right _ List.mem_cons_self) h'
  | plain h =>
    cases h' with
    | dot h' => exact absurd (List.mem_append_right _ List.mem_cons_self) h
    | plain h' => exact ⟨rfl, rfl⟩

def Standard (p s2 : List ℕ) : Prop := Wildcard.Matches (Matcher.pattern unicodeSimpleFold p) s2

def Overrun (p s2 : List ℕ) : Prop := Matcher.Overrun unicodeSimpleFold p s2

/-- What the comment of `compare_with_wildcards_compat` asks for. -/
def Compatible (p s2 : List ℕ) : Prop :=
  if 0x2E ∈ p then
    ∃ nam ext nam' ext', Parts p nam ext ∧ Parts s2 nam' ext' ∧ Standard nam nam' ∧ Standard ext ext'
  else Standard p s2

def CompatOverrun (p s2 : List ℕ) : Prop :=
  if 0x2E ∈ p then
    ∃ nam ext nam' ext', Parts p nam ext ∧ Parts s2 nam' ext' ∧ Standard nam nam' ∧ Standard ext ext' ∧
      (Overrun nam nam' ∨ Overrun ext ext')
  else Overrun p s2

theorem compareWithWildcards_zero (h : Utf8 p s1) :
    compareWithWildcards s1 s2 = .ok 0 ↔ Standard p s2 ∧ ¬Overrun p s2 :=
  (Matcher.compareWithWildcards_accept (reads_utf8 h)).trans Matcher.accept_iff

theorem wmemrchr_parts (h : Parts s2 nam' ext') :
    (match wmemrchr s2 0x2E with
      | some s2dot => (s2.take s2dot, s2.drop (s2dot + 1))
      | none => (s2, [])) = (nam', ext') := by
  cases h with
  | dot h =>
    rw [wmemrchr, lastIndex_some h, Nat.zero_add]
    simp
  | plain h => rw [wmemrchr, lastIndex_none h]

theorem compareWithWildcardsCompat_dot (h : Utf8 (nam ++ 0x2E :: ext) s1) (hext : 0x2E ∉ ext) (h2 : Parts s2 nam' ext') :
    compareWithWildcardsCompat s1 s2 = .ok 0 ↔
      (Standard nam nam' ∧ ¬Overrun nam nam') ∧ Standard ext ext' ∧ ¬Overrun ext ext' := by
  obtain ⟨x, t, hx, ht, rfl⟩ := h.append_inv
  obtain ⟨d, y, hd, hy, rfl⟩ := encodeAll_cons_inv ht
  obtain rfl : [0x2E] = d := Except.ok.inj hd
  have hy2 : 0x2E ∉ y := by
    intro hmem
    rcases Utf8.byte hy (Utf8.lt hy) hmem with he | he
    · exact hext he
    · exact absurd he (by decide)
  have hdot : memrchr (x ++ 0x2E :: y) 0x2E = some x.length := by rw [memrchr, lastIndex_some hy2, Nat.zero_add]
  rw [← compareWithWildcards_zero hx, ← compareWithWildcards_zero hy, compareWithWildcardsCompat, List.singleton_append, hdot]
  have hdrop : (x ++ 0x2E :: y).drop (x.length + 1) = y := by simp
  simp only [wmemrchr_parts h2, List.take_left, hdrop]
  rcases compareWithWildcards x nam' with e | res1
  · simp
  · rcases compareWithWildcards y ext' with e | res2
    · simp
    · by_cases h1 : res1 = 0 <;> by_cases h2 : res2 = 0 <;> simp [h1, h2]

theorem compareWithWildcardsCompat_plain (h : Utf8 p s1) (hp : 0x2E ∉ p) :
    compareWithWildcardsCompat s1 s2 = compareWithWildcards s1 s2 := by
  have hs1 : 0x2E ∉ s1 := by
    intro hmem
    rcases h.byte h.lt hmem with he | he
    · exact hp he
    · exact absurd he (by decide)
  rw [compareWithWildcardsCompat, memrchr, lastIndex_none hs1]

theorem compareWithWildcardsCompat_zero (h : Utf8 p s1) :
    compareWithWildcardsCompat s1 s2 = .ok 0 ↔ Compatible p s2 ∧ ¬CompatOverrun p s2 := by
  by_cases hp : 0x2E ∈ p
  · obtain ⟨nam, ext, hparts⟩ := exists_parts p
    obtain ⟨nam', ext', hparts'⟩ := exists_parts s2
    have hc : Compatible p s2 ↔ Standard nam nam' ∧ Standard ext ext' := by
      rw [Compatible, if_pos hp]
      constructor
      · rintro ⟨a, b, a', b', h1, h2, hm⟩
        obtain ⟨rfl, rfl⟩ := hparts.unique h1
        obtain ⟨rfl, rfl⟩ := hparts'.unique h2
        exact hm
      · exact fun hm => ⟨nam, ext, nam', ext', hparts, hparts', hm⟩
    have ho : CompatOverrun p s2 ↔ Standard nam nam' ∧ Standard ext ext' ∧ (Overrun nam nam' ∨ Overrun ext ext') := by
      rw [CompatOverrun, if_pos hp]
      constructor
      · rintro ⟨a, b, a', b', h1, h2, hm⟩
        obtain ⟨rfl, rfl⟩ := hparts.unique h1
        obtain ⟨rfl, rfl⟩ := hparts'.unique h2
        exact hm
      · exact fun hm => ⟨nam, ext, nam', ext', hparts, hparts', hm⟩
    rw [hc, ho]
    cases hparts with
    | dot hext =>
      rw [compareWithWildcardsCompat_dot h hext hparts']
      tauto
    | plain hno => exact absurd hp hno
  · rw [compareWithWildcardsCompat_plain h hp, Compatible, CompatOverrun, if_neg hp, if_neg hp]
    exact compareWithWildcards_zero h

theorem CompatOverrun.compatible (h : CompatOverrun p s2) : Compatible p s2 := by
  rw [CompatOverrun] at h
  rw [Compatible]
  split at h
  · next hp =>
    rw [if_pos hp]
    obtain ⟨a, b, a', b', h1, h2, hs, he, -⟩ := h
    exact ⟨a, b, a', b', h1, h2, hs, he⟩
  · next hp =>
    rw [if_neg hp]
    exact h.1

theorem reads_bytes (s : List UInt8) : Matcher.Reads (fun s => .ok ((s.headD 0).toNat, 1)) (s.map UInt8.toNat) s := by
  induction s with
  | nil => exact .nil
  | cons b s ih =>
    refine .cons (x := [b]) (List.cons_ne_nil b []) (fun t => rfl) (fun he => ?_) (fun hne hmem => hne ?_) ih
    · have hb : b = 0x2A := UInt8.toNat_inj.mp he
      rw [hb]
    · rw [← List.mem_singleton.mp hmem]
      rfl

/-- The matchers answer by the standard meaning except where a pattern without a star at its end matches both a
name and a beginning of it. -/
theorem wildcards_standard (h : Utf8 p s1) :
    ((compareWithWildcards s1 s2 = .ok 0 ↔ Standard p s2) ↔ ¬Overrun p s2) ∧
    ((compareWithWildcardsCompat s1 s2 = .ok 0 ↔ Compatible p s2) ↔ ¬CompatOverrun p s2) ∧
    ∀ (toupper : ℕ → ℕ) (b1 b2 : List UInt8),
      (Iso9660.compareWithWildcards toupper b1 b2 = .ok 0 ↔
        Wildcard.Matches (Matcher.pattern toupper (b1.map UInt8.toNat)) (b2.map UInt8.toNat)) ↔
      ¬Matcher.Overrun toupper (b1.map UInt8.toNat) (b2.map UInt8.toNat) := by
  refine ⟨Matcher.compareWithWildcards_matches (reads_utf8 h), ?_, fun toupper b1 b2 =>
    Matcher.compareWithWildcards_matches (reads_bytes b1)⟩
  rw [compareWithWildcardsCompat_zero h, and_iff_left_iff_imp]
  exact ⟨fun hc ho => hc ho.compatible ho, fun ho _ => ho⟩

theorem wildcards_standard_tail : Standard [0x41, 0x2A] [0x41, 0x42] := by
  have hno : ¬Overrun [0x41, 0x2A] [0x41, 0x42] := fun ho => ho.2.1 rfl
  exact ((wildcards_standard (p := [0x41, 0x2A]) rfl).1.mpr hno).mp (by decide)

/-- `*a` is found not to match `aa`. -/
theorem wildcards_twoLetters : Utf8 [0x2A, 0x61] [0x2A, 0x61] ∧
    ¬(compareWithWildcards [0x2A, 0x61] [0x61, 0x61] = .ok 0 ↔ Standard [0x2A, 0x61] [0x61, 0x61]) := by
  have hstd : Standard [0x2A, 0x61] [0x61, 0x61] := ⟨[0x61], [0x61], rfl, 0x61, [], rfl, .inr rfl, rfl⟩
  exact ⟨rfl, fun h => absurd (h.mpr hstd) (by decide)⟩

end Compat

end Fat

end FreeDos32
