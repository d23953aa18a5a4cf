import Mathlib.Algebra.Ring.Int.Defs
import Mathlib.Algebra.Ring.Nat
import Mathlib.Logic.Basic

namespace FreeDos32

structure Span where
  start : ℕ
  size : ℕ
  deriving DecidableEq

namespace Span

def stop (p : Span) : ℕ := p.start + p.size

def Has (p : Span) (x : ℕ) : Prop := p.start ≤ x ∧ x < p.stop

instance (p : Span) (x : ℕ) : Decidable (p.Has x) := inferInstanceAs (Decidable (_ ∧ _))

def Apart (p q : Span) : Prop := ∀ x, p.Has x → ¬q.Has x

def Covers (l : List Span) (x : ℕ) : Prop := ∃ p ∈ l, p.Has x

def Ascending (l : List Span) : Prop := l.Pairwise fun p q => p.stop ≤ q.start

def Separated (l : List Span) : Prop := l.Pairwise fun p q => p.stop < q.start

variable {p q : Span} {l l' : List Span} {x : ℕ}

theorem covers_cons : Covers (p :: l) x ↔ p.Has x ∨ Covers l x := by
  simp [Covers]

theorem not_covers_nil (x : ℕ) : ¬Covers [] x := by
  simp [Covers]

theorem Apart.symm (h : Apart p q) : Apart q p := fun x hq hp => h x hp hq

theorem Ascending.le_of_covers (h : Ascending (p :: l)) (hx : Covers l x) : p.stop ≤ x := by
  obtain ⟨q, hq, hle, -⟩ := hx
  exact Nat.le_trans ((List.pairwise_cons.mp h).1 q hq) hle

theorem Separated.lt_of_covers (h : Separated (p :: l)) (hx : Covers l x) : p.stop < x := by
  obtain ⟨q, hq, hle, -⟩ := hx
  exact Nat.lt_of_lt_of_le ((List.pairwise_cons.mp h).1 q hq) hle

theorem has_start (hp : 0 < p.size) : p.Has p.start := ⟨Nat.le_refl _, by unfold stop; omega⟩

theorem has_add {start m n : ℕ} : Has ⟨start, m + n⟩ x ↔ Has ⟨start, m⟩ x ∨ Has ⟨start + m, n⟩ x := by
  simp only [Has, stop]
  omega

theorem apart_of_stop_le (h : p.stop ≤ q.start) : Apart p q := fun _ hp hq =>
  Nat.lt_irrefl _ (Nat.lt_of_lt_of_le hp.2 (Nat.le_trans h hq.1))

theorem Apart.stop_le (h : Apart p q) (hp : 0 < p.size) (hq : 0 < q.size) : p.stop ≤ q.start ∨ q.stop ≤ p.start := by
  have h1 := h p.start
  have h2 := h q.start
  simp only [Has, stop] at *
  omega

theorem Ascending.cons (h : Ascending l) (hpos : ∀ q ∈ l, 0 < q.size) (hle : ∀ x, Covers l x → p.stop ≤ x) :
    Ascending (p :: l) :=
  List.pairwise_cons.mpr ⟨fun q hq => hle _ ⟨q, hq, has_start (hpos q hq)⟩, h⟩

theorem Separated.cons (h : Separated l) (hpos : ∀ q ∈ l, 0 < q.size) (hlt : ∀ x, Covers l x → p.stop < x) :
    Separated (p :: l) :=
  List.pairwise_cons.mpr ⟨fun q hq => hlt _ ⟨q, hq, has_start (hpos q hq)⟩, h⟩

theorem Separated.head_eq (h : Separated (p :: l)) (h' : Separated (q :: l')) (hp : 0 < p.size) (hq : 0 < q.size)
    (hcov : ∀ x, Covers (p :: l) x ↔ Covers (q :: l') x) : p = q := by
  have hle : ∀ {a b : Span} {m m' : List Span}, Separated (b :: m') → 0 < a.size → 0 < b.size →
      (∀ x, Covers (a :: m) x → Covers (b :: m') x) → b.start ≤ a.start := by
    intro a b m m' hs ha hb hsub
    rcases covers_cons.mp (hsub _ (covers_cons.mpr (.inl (has_start ha)))) with hin | hin
    · exact hin.1
    · have := hs.lt_of_covers hin
      unfold stop at this
      omega
  have hstart : p.start = q.start :=
    Nat.le_antisymm (hle h hq hp fun x hx => (hcov x).mpr hx) (hle h' hp hq fun x hx => (hcov x).mp hx)
  -- the number after a span is not covered by its own list, so the other span cannot be longer
  have hend : ∀ {a b : Span} {m m' : List Span}, Separated (a :: m) → a.start = b.start → 0 < a.size →
      (∀ x, Covers (b :: m') x → Covers (a :: m) x) → b.stop ≤ a.stop := by
    intro a b m m' hs hab ha hsub
    refine Nat.le_of_not_lt fun hlt => ?_
    have hin : b.Has a.stop := ⟨by unfold stop; omega, by omega⟩
    rcases covers_cons.mp (hsub _ (covers_cons.mpr (.inl hin))) with hin' | hin'
    · exact Nat.lt_irrefl _ hin'.2
    · exact Nat.lt_irrefl _ (hs.lt_of_covers hin')
  have hstop : p.stop = q.stop :=
    Nat.le_antisymm (hend h' hstart.symm hq fun x hx => (hcov x).mp hx)
      (hend h hstart hp fun x hx => (hcov x).mpr hx)
  obtain ⟨s, n⟩ := p
  obtain ⟨s', n'⟩ := q
  simp only [stop] at hstart hstop
  subst hstart
  have : n = n' := by omega
  rw [this]

/-- A separated list is determined by the numbers that it covers. -/
theorem Separated.eq_of_covers (h : Separated l) (h' : Separated l') (hpos : ∀ p ∈ l, 0 < p.size)
    (hpos' : ∀ p ∈ l', 0 < p.size) (hcov : ∀ x, Covers l x ↔ Covers l' x) : l = l' := by
  induction l generalizing l' with
  | nil =>
    cases l' with
    | nil => rfl
    | cons q l' =>
      have hq := hpos' q List.mem_cons_self
      exact absurd ((hcov q.start).mpr (covers_cons.mpr (.inl (has_start hq)))) (not_covers_nil _)
  | cons p l ih =>
    have hp := hpos p List.mem_cons_self
    cases l' with
    | nil => exact absurd ((hcov p.start).mp (covers_cons.mpr (.inl (has_start hp)))) (not_covers_nil _)
    | cons q l' =>
      obtain rfl := h.head_eq h' hp (hpos' q List.mem_cons_self) hcov
      congr 1
      refine ih (List.pairwise_cons.mp h).2 (List.pairwise_cons.mp h').2 (fun r hr => hpos r (List.mem_cons_of_mem _ hr))
        (fun r hr => hpos' r (List.mem_cons_of_mem _ hr)) fun x => ?_
      have hx := hcov x
      rw [covers_cons, covers_cons] at hx
      constructor
      · intro hl
        have hlt := h.lt_of_covers hl
        exact (hx.mp (.inr hl)).resolve_left fun hin => by
          have := hin.2
          omega
      · intro hl
        have hlt := h'.lt_of_covers hl
        exact (hx.mpr (.inr hl)).resolve_left fun hin => by
          have := hin.2
          omega

/-- Spans of the given sizes one behind the other, from `a` on; none for a size of zero. -/
def laid : ℕ → List ℕ → List Span
  | _, [] => []
  | a, n :: ns => if n = 0 then laid a ns else ⟨a, n⟩ :: laid (a + n) ns

theorem laid_zero_cons (a : ℕ) (ns : List ℕ) : laid a (0 :: ns) = laid a ns := rfl

theorem laid_cons {a n : ℕ} (hn : n ≠ 0) (ns : List ℕ) : laid a (n :: ns) = ⟨a, n⟩ :: laid (a + n) ns := if_neg hn

theorem laid_append (a : ℕ) (ms ns : List ℕ) : laid a (ms ++ ns) = laid a ms ++ laid (a + ms.sum) ns := by
  induction ms generalizing a with
  | nil => simp [laid]
  | cons m ms ih =>
    by_cases hm : m = 0
    · simp [laid, hm, ih]
    · simp [laid, hm, ih, Nat.add_assoc]

theorem laid_bounds {a : ℕ} {ns : List ℕ} {p : Span} (hp : p ∈ laid a ns) : a ≤ p.start ∧ p.stop ≤ a + ns.sum := by
  induction ns generalizing a with
  | nil => exact absurd hp List.not_mem_nil
  | cons n ns ih =>
    rw [List.sum_cons]
    rw [laid] at hp
    split at hp
    · have := ih hp
      omega
    · rcases List.mem_cons.mp hp with rfl | hp
      · simp only [stop]
        omega
      · have := ih hp
        omega

theorem laid_eq_nil {a : ℕ} {ns : List ℕ} (h : ns.sum = 0) : laid a ns = [] := by
  induction ns with
  | nil => rfl
  | cons n ns ih =>
    rw [List.sum_cons] at h
    rw [laid, if_pos (by omega), ih (by omega)]

theorem laid_ascending (a : ℕ) (ns : List ℕ) : Ascending (laid a ns) := by
  induction ns generalizing a with
  | nil => exact List.Pairwise.nil
  | cons n ns ih =>
    rw [laid]
    split
    · exact ih a
    · exact List.pairwise_cons.mpr ⟨fun p hp => (laid_bounds hp).1, ih _⟩

theorem Ascending.apart (h : Ascending l) : l.Pairwise Apart := h.imp apart_of_stop_le

theorem countP_or {P Q : ℕ → Bool} {xs : List ℕ} (h : ∀ x ∈ xs, P x = true → Q x = false) :
    xs.countP (fun x => P x || Q x) = xs.countP P + xs.countP Q := by
  induction xs with
  | nil => rfl
  | cons x xs ih =>
    rw [List.countP_cons, List.countP_cons, List.countP_cons, ih fun y hy => h y (List.mem_cons_of_mem x hy)]
    cases hp : P x with
    | false =>
      simp
      omega
    | true =>
      simp [h x List.mem_cons_self hp]
      omega

theorem countP_has (p : Span) (n : ℕ) :
    (List.range n).countP (fun x => decide (p.Has x)) = min n p.stop - min n p.start := by
  induction n with
  | zero => simp
  | succ n ih =>
    rw [List.range_succ, List.countP_append, ih, List.countP_singleton]
    by_cases hn : p.Has n
    · rw [if_pos (decide_eq_true hn)]
      unfold Has stop at *
      omega
    · rw [if_neg (by simpa using hn)]
      unfold Has stop at *
      omega

/-- Spans that have no number in common and do not reach above `n` have `n` numbers at most. -/
theorem sum_size_le {n : ℕ} (hapart : l.Pairwise Apart) (hstop : ∀ p ∈ l, p.stop ≤ n) : (l.map size).sum ≤ n := by
  have hcount : (List.range n).countP (fun x => l.any fun p => decide (p.Has x)) = (l.map size).sum := by
    induction l with
    | nil => simp
    | cons p l ih =>
      obtain ⟨hp, hl⟩ := List.pairwise_cons.mp hapart
      have hrest := ih hl fun q hq => hstop q (List.mem_cons_of_mem p hq)
      have hp' := hstop p List.mem_cons_self
      simp only [List.any_cons]
      rw [countP_or, countP_has, hrest, List.map_cons, List.sum_cons]
      · unfold stop at hp' ⊢
        omega
      · intro x _ hx
        refine Bool.eq_false_iff.mpr fun hany => ?_
        obtain ⟨q, hq, hqx⟩ := List.any_eq_true.mp hany
        exact hp q hq x (of_decide_eq_true hx) (of_decide_eq_true hqx)
  rw [← hcount]
  calc (List.range n).countP _ ≤ (List.range n).length := List.countP_le_length
    _ = n := List.length_range

end Span

end FreeDos32
