import Mathlib.Algebra.Ring.Nat
import Mathlib.Data.List.GetD
import Mathlib.Tactic.Common

namespace FreeDos32

/-- A memory of bytes whose 32-bit addresses wrap around. -/
abbrev Memory := BitVec 32 → BitVec 8

namespace Memory

variable {m : Memory} {a p q : BitVec 32} {n : ℕ}

/-- The byte lies in the `n` bytes from `a` on. -/
def Within (a : BitVec 32) (n : ℕ) (p : BitVec 32) : Prop := (p - a).toNat < n

instance : Decidable (Within a n p) := inferInstanceAs (Decidable (_ < _))

/-- Puts the bytes at `a` and the addresses that follow. -/
def put (m : Memory) (a : BitVec 32) (bs : List (BitVec 8)) : Memory := fun p => bs.getD (p - a).toNat (m p)

def fill (m : Memory) (a : BitVec 32) (n : ℕ) (b : BitVec 8) : Memory := fun p => if Within a n p then b else m p

/-- The little-endian word at `a`. -/
def word (m : Memory) (a : BitVec 32) : BitVec 32 := m (a + 3) ++ m (a + 2) ++ m (a + 1) ++ m a

def bytesOf (v : BitVec 32) : List (BitVec 8) :=
  [v.extractLsb' 0 8, v.extractLsb' 8 8, v.extractLsb' 16 8, v.extractLsb' 24 8]

def putWord (m : Memory) (a v : BitVec 32) : Memory := m.put a (bytesOf v)

/-- No byte belongs to both words. -/
def Apart (a b : BitVec 32) : Prop := ∀ p, Within a 4 p → ¬Within b 4 p

theorem put_of_not_within {bs : List (BitVec 8)} (h : ¬Within a bs.length p) : m.put a bs p = m p :=
  List.getD_eq_default _ _ (Nat.le_of_not_lt h)

theorem putWord_of_not_within {v : BitVec 32} (h : ¬Within a 4 p) : m.putWord a v p = m p :=
  put_of_not_within h

theorem toNat_add_sub_cancel {k : BitVec 32} : ((a + k) - a).toNat = k.toNat := by
  rw [BitVec.add_comm, BitVec.add_sub_cancel]

theorem word_putWord_self (v : BitVec 32) : (m.putWord a v).word a = v := by
  have h0 : (a - a).toNat = 0 := by simp
  simp only [word, putWord, put, toNat_add_sub_cancel, h0, bytesOf]
  show v.extractLsb' 24 8 ++ v.extractLsb' 16 8 ++ v.extractLsb' 8 8 ++ v.extractLsb' 0 8 = v
  apply BitVec.eq_of_getLsbD_eq
  intro i hi
  simp only [BitVec.getLsbD_append, BitVec.getLsbD_extractLsb']
  grind

theorem word_congr {m' : Memory} (h : ∀ p, Within a 4 p → m' p = m p) : m'.word a = m.word a := by
  have hk : ∀ k : BitVec 32, k.toNat < 4 → m' (a + k) = m (a + k) := fun k hk =>
    h _ (by rw [Within, toNat_add_sub_cancel]; exact hk)
  have h0 := h a (by simp [Within])
  rw [word, word, hk 3 (by decide), hk 2 (by decide), hk 1 (by decide), h0]

theorem word_putWord_of_apart {b v : BitVec 32} (h : Apart a b) : (m.putWord b v).word a = m.word a :=
  word_congr fun p hp => putWord_of_not_within (h p hp)

/-- Replaces the word at the first component by what the second one makes of it. -/
def patch (m : Memory) (e : BitVec 32 × (BitVec 32 → BitVec 32)) : Memory := m.putWord e.1 (e.2 (m.word e.1))

def patchAll (m : Memory) (l : List (BitVec 32 × (BitVec 32 → BitVec 32))) : Memory := l.foldl patch m

section Patch

variable {l l' pre post : List (BitVec 32 × (BitVec 32 → BitVec 32))} {e : BitVec 32 × (BitVec 32 → BitVec 32)}

theorem patchAll_append : m.patchAll (l ++ l') = (m.patchAll l).patchAll l' := List.foldl_append

theorem patchAll_of_not_within (h : ∀ e ∈ l, ¬Within e.1 4 p) : m.patchAll l p = m p := by
  induction l generalizing m with
  | nil => rfl
  | cons e l ih =>
    have hrest := ih (m := m.patch e) fun e' he' => h e' (List.mem_cons_of_mem e he')
    exact hrest.trans (putWord_of_not_within (h e List.mem_cons_self))

theorem word_patchAll_of_apart (h : ∀ e ∈ l, Apart a e.1) : (m.patchAll l).word a = m.word a :=
  word_congr fun p hp => patchAll_of_not_within fun e he => h e he p hp

/-- A word that no other patch touches is patched once. -/
theorem word_patchAll (h : ∀ e' ∈ pre ++ post, Apart e.1 e'.1) :
    (m.patchAll (pre ++ e :: post)).word e.1 = e.2 (m.word e.1) := by
  have hpre := word_patchAll_of_apart (m := m) fun e' he' => h e' (List.mem_append_left post he')
  have hcons : m.patchAll (pre ++ e :: post) = ((m.patchAll pre).patch e).patchAll post := patchAll_append
  rw [hcons, word_patchAll_of_apart fun e' he' => h e' (List.mem_append_right pre he')]
  show ((m.patchAll pre).putWord e.1 (e.2 ((m.patchAll pre).word e.1))).word e.1 = e.2 (m.word e.1)
  rw [word_putWord_self, hpre]

end Patch

section Blocks

/-- Puts several lists of bytes, one after the other. -/
def putAll (m : Memory) (l : List (BitVec 32 × List (BitVec 8))) : Memory := l.foldl (fun m e => m.put e.1 e.2) m

theorem fill_eq_put (b : BitVec 8) : m.fill a n b = m.put a (List.replicate n b) := by
  funext p
  by_cases h : Within a n p
  · rw [fill, if_pos h, put, List.getD_eq_getElem _ _ (by rw [List.length_replicate]; exact h), List.getElem_replicate]
  · rw [fill, if_neg h, put, List.getD_eq_default _ _ (by rw [List.length_replicate]; exact Nat.le_of_not_lt h)]

theorem putAll_of_not_within {l : List (BitVec 32 × List (BitVec 8))} (h : ∀ e ∈ l, ¬Within e.1 e.2.length p) :
    m.putAll l p = m p := by
  induction l generalizing m with
  | nil => rfl
  | cons e l ih =>
    exact (ih (m := m.put e.1 e.2) fun e' he' => h e' (List.mem_cons_of_mem e he')).trans
      (put_of_not_within (h e List.mem_cons_self))

theorem eq_add_ofNat (a p : BitVec 32) : p = a + BitVec.ofNat 32 (p - a).toNat := by
  rw [BitVec.ofNat_toNat, BitVec.setWidth_eq, BitVec.add_comm, BitVec.sub_add_cancel]

/-- A byte is as before if nothing is put there, and else what one of the lists has for it. -/
theorem putAll_cases (m : Memory) (l : List (BitVec 32 × List (BitVec 8))) (p : BitVec 32) :
    ((∀ e ∈ l, ¬Within e.1 e.2.length p) ∧ m.putAll l p = m p) ∨
      ∃ e ∈ l, Within e.1 e.2.length p ∧ m.putAll l p = e.2.getD (p - e.1).toNat 0 := by
  induction l generalizing m with
  | nil => exact Or.inl ⟨fun _ he => (List.not_mem_nil he).elim, rfl⟩
  | cons e l ih =>
    have hcons : m.putAll (e :: l) = (m.put e.1 e.2).putAll l := rfl
    rw [hcons]
    rcases ih (m.put e.1 e.2) with ⟨hfree, heq⟩ | ⟨e', he', hw, heq⟩
    · rw [heq]
      by_cases hw : Within e.1 e.2.length p
      · refine Or.inr ⟨e, List.mem_cons_self, hw, ?_⟩
        rw [put, List.getD_eq_getElem _ _ hw, List.getD_eq_getElem _ _ hw]
      · refine Or.inl ⟨fun e' he' => ?_, put_of_not_within hw⟩
        rcases List.mem_cons.mp he' with rfl | he'
        · exact hw
        · exact hfree e' he'
    · exact Or.inr ⟨e', List.mem_cons_of_mem e he', hw, heq⟩

theorem within_block_iff {a b : BitVec 32} {n len : ℕ} (hn : n < 2 ^ 32) :
    (∀ k < len, Within a n (b + BitVec.ofNat 32 k)) ↔ len = 0 ∨ (b - a).toNat + len ≤ n := by
  unfold Within
  constructor
  · intro h
    by_cases h0 : len = 0
    · exact Or.inl h0
    refine Or.inr ?_
    by_contra hlt
    rcases Nat.lt_or_ge (b - a).toNat n with hin | hin
    · have hk := h (n - (b - a).toNat) (by omega)
      bv_omega
    · have hk := h 0 (by omega)
      bv_omega
  · rintro (h0 | h) k hk
    · omega
    · bv_omega

theorem put_add {bs : List (BitVec 8)} {k : ℕ} (hk : k < 2 ^ 32) :
    m.put a bs (a + BitVec.ofNat 32 k) = bs.getD k (m (a + BitVec.ofNat 32 k)) := by
  rw [put, toNat_add_sub_cancel, BitVec.toNat_ofNat, Nat.mod_eq_of_lt hk]

theorem Within.exists_add (h : Within a n p) : ∃ k < n, p = a + BitVec.ofNat 32 k :=
  ⟨(p - a).toNat, h, eq_add_ofNat a p⟩

end Blocks

section Copy

variable {dest src : BitVec 32} {k size : ℕ}

/-- The `n` bytes from `a` on. -/
def bytes (m : Memory) (a : BitVec 32) (n : ℕ) : List (BitVec 8) := (List.range n).map fun k => m (a + BitVec.ofNat 32 k)

@[simp] theorem length_bytes (m : Memory) (a : BitVec 32) (n : ℕ) : (m.bytes a n).length = n := by simp [bytes]

/-- The memory after `n` bytes have been copied. -/
def copied (m : Memory) (dest src : BitVec 32) (n : ℕ) : Memory :=
  fun p => if Within dest n p then m (src + (p - dest)) else m p

@[simp] theorem copied_zero (m : Memory) (dest src : BitVec 32) : m.copied dest src 0 = m := rfl

theorem copied_add {i : ℕ} (hi : i < n) :
    m.copied dest src n (dest + BitVec.ofNat 32 i) = m (src + BitVec.ofNat 32 i) := by
  have hsub : dest + BitVec.ofNat 32 i - dest = BitVec.ofNat 32 i := by
    rw [BitVec.add_comm, BitVec.add_sub_cancel]
  rw [copied, if_pos, hsub]
  rw [Within, hsub, BitVec.toNat_ofNat]
  exact Nat.lt_of_le_of_lt (Nat.mod_le _ _) hi

theorem copied_of_not_within (h : ¬Within dest n p) : m.copied dest src n p = m p := if_neg h

/-- What has been copied is no part of the source, so a further piece is copied as it was. -/
theorem put_bytes_copied (hno : ∀ p, Within src size p → ¬Within dest size p) (hle : n + k ≤ size) (hs : size ≤ 2 ^ 32) :
    (m.copied dest src n).put (dest + BitVec.ofNat 32 n) ((m.copied dest src n).bytes (src + BitVec.ofNat 32 n) k) =
      m.copied dest src (n + k) := by
  funext p
  by_cases hnew : n ≤ (p - dest).toNat ∧ (p - dest).toNat < n + k
  · have hin : Within dest (n + k) p := hnew.2
    have hoff : (p - (dest + BitVec.ofNat 32 n)).toNat = (p - dest).toNat - n := by bv_omega
    have hsource : src + BitVec.ofNat 32 n + BitVec.ofNat 32 ((p - dest).toNat - n) = src + (p - dest) := by bv_omega
    have hout : ¬Within dest n (src + (p - dest)) := by
      intro hin'
      apply hno (src + (p - dest))
      · rw [Within, toNat_add_sub_cancel]
        omega
      · unfold Within at hin' ⊢
        omega
    rw [put, hoff, bytes, List.getD_eq_getElem _ _ (by rw [List.length_map, List.length_range]; omega), List.getElem_map,
      List.getElem_range, hsource, copied_of_not_within hout, copied, if_pos hin]
  · have hpast : ¬Within (dest + BitVec.ofNat 32 n) ((m.copied dest src n).bytes (src + BitVec.ofNat 32 n) k).length p := by
      rw [length_bytes, Within]
      bv_omega
    rw [put_of_not_within hpast, copied, copied]
    apply if_congr _ rfl rfl
    unfold Within
    omega

end Copy

end Memory

end FreeDos32
