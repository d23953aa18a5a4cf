import Mathlib.Data.List.Basic
import Mathlib.Logic.Function.Basic

namespace FreeDos32

variable {κ : Type} {next next' : κ → Option κ} {h t t' : Option κ} {x y : κ} {l l' : List κ}

/-- From the pointer `h` one comes through the cells of the list to the pointer `t`. -/
def Path (next : κ → Option κ) : Option κ → List κ → Option κ → Prop
  | h, [], t => h = t
  | h, x :: l, t => h = some x ∧ Path next (next x) l t

/-- The cells that are come to, `n` of them at most. -/
def cells (next : κ → Option κ) : ℕ → Option κ → List κ
  | 0, _ => []
  | _ + 1, none => []
  | n + 1, some x => x :: cells next n (next x)

namespace Path

theorem cells_eq {n : ℕ} (hp : Path next h l none) (hn : l.length ≤ n) : cells next n h = l := by
  induction l generalizing h n with
  | nil =>
    obtain rfl : h = none := hp
    cases n <;> rfl
  | cons x l ih =>
    obtain ⟨rfl, hl⟩ := hp
    obtain ⟨n, rfl⟩ := Nat.exists_eq_succ_of_ne_zero (Nat.ne_of_gt (Nat.lt_of_lt_of_le (Nat.succ_pos _) hn))
    rw [cells, ih hl (Nat.le_of_succ_le_succ hn)]

theorem congr (hp : Path next h l t) (hn : ∀ x ∈ l, next' x = next x) : Path next' h l t := by
  induction l generalizing h with
  | nil => exact hp
  | cons x l ih =>
    refine ⟨hp.1, ?_⟩
    rw [hn x List.mem_cons_self]
    exact ih hp.2 fun y hy => hn y (List.mem_cons_of_mem x hy)

theorem append_iff : Path next h (l ++ l') t ↔ ∃ m, Path next h l m ∧ Path next m l' t := by
  induction l generalizing h with
  | nil => simp [Path]
  | cons x l ih => simp only [List.cons_append, Path, ih, and_assoc, exists_and_left]

theorem retarget (hp : Path next h (l ++ [x]) t) (hn : ∀ y ∈ l, next' y = next y) (hx : next' x = t') :
    Path next' h (l ++ [x]) t' := by
  obtain ⟨m, hl, hm, -⟩ := append_iff.mp hp
  exact append_iff.mpr ⟨m, hl.congr hn, hm, hx⟩

theorem head_eq (hp : Path next h l none) : h = l.head? := by
  cases l with
  | nil => exact hp
  | cons x l => exact hp.1

theorem after (hp : Path next h (l ++ x :: l') none) : next x = l'.head? := by
  obtain ⟨m, -, -, hx⟩ := append_iff.mp hp
  exact hx.head_eq

/-- The cell `x` taken out: the pointer to it goes on to the cell behind it. -/
theorem remove (next' : κ → Option κ) (hp : Path next h (l ++ x :: l') t) (hn : ∀ y ∈ l ++ l', l.getLast? ≠ some y → next' y = next y)
    (hlast : ∀ y, l.getLast? = some y → next' y = next x) (hnd : (l ++ x :: l').Nodup) :
    Path next' (if l = [] then next x else h) (l ++ l') t := by
  obtain ⟨m, hl, hm, hx⟩ := append_iff.mp hp
  have hl' : Path next' (next x) l' t := hx.congr fun y hy => hn y (List.mem_append_right _ hy) fun he =>
    (List.nodup_append.mp hnd).2.2 _ (List.mem_of_getLast? he) _ (List.mem_cons_of_mem _ hy) rfl
  rcases List.eq_nil_or_concat' l with rfl | ⟨a, z, rfl⟩
  · rw [if_pos rfl]
    exact hl'
  · rw [if_neg (by simp)]
    have hnd' : (a ++ [z]).Nodup := (List.nodup_append.mp hnd).1
    refine append_iff.mpr ⟨next x, hl.retarget (fun y hy => ?_) (hlast z (by simp)), hl'⟩
    refine hn y (by simp [hy]) fun he => ?_
    obtain rfl : z = y := by simpa using he
    exact (List.nodup_append.mp hnd').2.2 _ hy _ (List.mem_singleton_self _) rfl

/-- A cell put in: the pointer there was now goes to it, and its own on to the cell behind. -/
theorem insert (next' : κ → Option κ) (hp : Path next h (l ++ l') t) (hx : x ∉ l ++ l')
    (hn : ∀ y ∈ l ++ l', l.getLast? ≠ some y → next' y = next y)
    (hlast : ∀ y, l.getLast? = some y → next' y = some x) (hnd : (l ++ l').Nodup)
    (hnew : Path next (next' x) l' t) : Path next' (if l = [] then some x else h) (l ++ x :: l') t := by
  obtain ⟨m, hl, -⟩ := append_iff.mp hp
  have hl' : Path next' (next' x) l' t := hnew.congr fun y hy => hn y (List.mem_append_right _ hy) fun he =>
    (List.nodup_append.mp hnd).2.2 _ (List.mem_of_getLast? he) _ hy rfl
  rcases List.eq_nil_or_concat' l with rfl | ⟨a, z, rfl⟩
  · rw [if_pos rfl]
    exact ⟨rfl, hl'⟩
  · rw [if_neg (by simp)]
    have hnd' : (a ++ [z]).Nodup := (List.nodup_append.mp hnd).1
    refine append_iff.mpr ⟨some x, hl.retarget (fun y hy => ?_) (hlast z (by simp)), rfl, hl'⟩
    refine hn y (by simp [hy]) fun he => ?_
    obtain rfl : z = y := by simpa using he
    exact (List.nodup_append.mp hnd').2.2 _ hy _ (List.mem_singleton_self _) rfl

end Path

end FreeDos32
