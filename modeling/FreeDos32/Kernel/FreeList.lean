import FreeDos32.Kernel.Pmm

namespace FreeDos32.Kernel

open Span

variable {x y base size n : ℕ} {p r : Chunk} {l l' : List Chunk}

theorem dword_of_lt (h : x < 2 ^ 32) : dword x = x := Nat.mod_eq_of_lt h

theorem dsub_of_le (hle : y ≤ x) (hx : x < 2 ^ 32) : dsub x y = x - y := by
  unfold dsub dword
  omega

theorem dsub_add (h : x + y < 2 ^ 32) : dsub (x + y) y = x := by
  rw [dsub_of_le (Nat.le_add_left y x) h, Nat.add_sub_cancel]

theorem dsub_zero (hx : x < 2 ^ 32) : dsub x 0 = x := by
  rw [dsub_of_le (Nat.zero_le x) hx, Nat.sub_zero]

theorem link_of_ne {start : ℕ} (h : start ≠ 0) : link start size l = ⟨start, size⟩ :: l := if_neg h

/-- A chunk that can be on the free list. -/
structure ChunkOk (p : Chunk) : Prop where
  start_pos : 0 < p.start
  header : headerSize ≤ p.size
  stop_lt : p.stop < 2 ^ 32

theorem ChunkOk.size_pos (h : ChunkOk p) : 0 < p.size := Nat.lt_of_lt_of_le (by decide) h.header

theorem ChunkOk.chunkEnd_eq (h : ChunkOk p) : chunkEnd p = p.stop := dword_of_lt h.stop_lt

structure Listed (l : List Chunk) : Prop where
  ascending : Ascending l
  ok : ∀ p ∈ l, ChunkOk p

theorem Listed.nil : Listed [] := ⟨List.Pairwise.nil, by simp⟩

theorem Listed.tail (h : Listed (p :: l)) : Listed l :=
  ⟨(List.pairwise_cons.mp h.ascending).2, fun q hq => h.ok q (List.mem_cons_of_mem _ hq)⟩

theorem Listed.head (h : Listed (p :: l)) : ChunkOk p := h.ok p List.mem_cons_self

theorem Listed.pos (h : Listed l) : ∀ q ∈ l, 0 < q.size := fun q hq => (h.ok q hq).size_pos

theorem Listed.cons (h : Listed l) (hp : ChunkOk p) (hle : ∀ x, Covers l x → p.stop ≤ x) : Listed (p :: l) where
  ascending := h.ascending.cons h.pos hle
  ok := by
    intro q hq
    rcases List.mem_cons.mp hq with rfl | hq
    · exact hp
    · exact h.ok q hq

theorem Listed.le_of_covers (h : Listed (p :: l)) (hx : Covers l x) : p.stop ≤ x := h.ascending.le_of_covers hx

def Joined (l : List Chunk) (r : Chunk) (l' : List Chunk) : Prop := ∀ x, Covers l' x ↔ Covers l x ∨ r.Has x

/-- What `pmm_free` does to the list, and the size it then adds to `top.size`. -/
inductive Freed (base size : ℕ) : List Chunk → List Chunk → ℕ → Prop
  | insert {b : List Chunk} (hb : ∀ c ∈ b, base + size < c.start) : Freed base size b (link base size b) size
  | prev {p : Chunk} {b : List Chunk} (hp : p.stop = base) (hb : ∀ c ∈ b, base + size < c.start) :
    Freed base size (p :: b) (⟨p.start, p.size + size⟩ :: b) size
  | next {q : Chunk} {b : List Chunk} (hq : base + size = q.start) :
    Freed base size (q :: b) (link base (size + q.size) b) (size + q.size)
  | both {p q : Chunk} {b : List Chunk} (hp : p.stop = base) (hq : base + size = q.start) :
    Freed base size (p :: q :: b) (⟨p.start, p.size + (size + q.size)⟩ :: b) size
  | skip {p : Chunk} {l l' : List Chunk} {n : ℕ} (hp : p.stop < base) (h : Freed base size l l' n) :
    Freed base size (p :: l) (p :: l') n

theorem Listed.lt_of_lt_head (h : Listed (p :: l)) (hx : x < p.start) : ∀ c ∈ p :: l, x < c.start := by
  intro c hc
  rcases List.mem_cons.mp hc with rfl | hc
  · exact hx
  · have hle := (List.pairwise_cons.mp h.ascending).1 c hc
    unfold stop at hle
    omega

theorem pmmFreeLoop_freed (hl : Listed l) (hend : base + size < 2 ^ 32)
    (h : pmmFreeLoop base size l = some (l', n)) : Freed base size l l' n := by
  induction l generalizing l' with
  | nil =>
    simp only [pmmFreeLoop, Option.some.injEq, Prod.mk.injEq] at h
    obtain ⟨rfl, rfl⟩ := h
    exact .insert (by simp)
  | cons p rest ih =>
    have hp := hl.head
    have hstop := hp.stop_lt
    unfold pmmFreeLoop at h
    rw [hp.chunkEnd_eq, dword_of_lt hend] at h
    by_cases heq : base = p.stop
    · rw [if_pos heq] at h
      have hsum : p.start + p.size = base := heq.symm
      cases rest with
      | nil =>
        rw [dword_of_lt (by omega)] at h
        simp only [Option.some.injEq, Prod.mk.injEq] at h
        obtain ⟨rfl, rfl⟩ := h
        exact .prev heq.symm (by simp)
      | cons q rest =>
        have hq := hl.tail.head.stop_lt
        simp only at h
        split at h
        · next hadj =>
          have : dword (p.size + (size + q.size)) = p.size + (size + q.size) := by
            unfold stop at hq
            exact dword_of_lt (by omega)
          rw [this] at h
          simp only [Option.some.injEq, Prod.mk.injEq] at h
          obtain ⟨rfl, rfl⟩ := h
          exact .both heq.symm hadj
        · split at h
          · next hlt =>
            rw [dword_of_lt (by omega)] at h
            simp only [Option.some.injEq, Prod.mk.injEq] at h
            obtain ⟨rfl, rfl⟩ := h
            exact .prev heq.symm (hl.tail.lt_of_lt_head hlt)
          · cases h
    · rw [if_neg heq] at h
      by_cases hlt : base < p.stop
      · rw [if_pos hlt] at h
        split at h
        · next hle =>
          split at h
          · next hadj =>
            have : dword (size + p.size) = size + p.size := by
              unfold stop at hstop
              exact dword_of_lt (by omega)
            rw [this] at h
            simp only [Option.some.injEq, Prod.mk.injEq] at h
            obtain ⟨rfl, rfl⟩ := h
            exact .next hadj
          · simp only [Option.some.injEq, Prod.mk.injEq] at h
            obtain ⟨rfl, rfl⟩ := h
            exact .insert (hl.lt_of_lt_head (by omega))
        · cases h
      · rw [if_neg hlt] at h
        obtain ⟨⟨m, n'⟩, hm, heq'⟩ := Option.map_eq_some_iff.mp h
        simp only [Prod.mk.injEq] at heq'
        obtain ⟨rfl, rfl⟩ := heq'
        exact .skip (by omega) (ih hl.tail hm)

theorem listed_link (h : base ≠ 0 → Listed (⟨base, n⟩ :: l)) : Listed (link base n l) := by
  unfold link
  split
  · exact .nil
  · next hne => exact h hne

theorem covers_link (h : Covers (link base n l) x) : Covers (⟨base, n⟩ :: l) x := by
  unfold link at h
  split at h
  · exact absurd h (not_covers_nil x)
  · exact h

/-- Nothing but the region is added, wherever it starts. -/
theorem Freed.covers (h : Freed base size l l' n) (hx : Covers l' x) : Covers l x ∨ Has ⟨base, size⟩ x := by
  induction h with
  | insert hb =>
    rcases covers_cons.mp (covers_link hx) with hx | hx
    · exact .inr hx
    · exact .inl hx
  | @prev p b hp hb =>
    subst hp
    rw [covers_cons, has_add] at hx
    rw [covers_cons]
    rcases hx with (hx | hx) | hx
    · exact .inl (.inl hx)
    · exact .inr hx
    · exact .inl (.inr hx)
  | @next q b hq =>
    have hx := covers_link hx
    rw [covers_cons, has_add, hq] at hx
    rw [covers_cons]
    rcases hx with (hx | hx) | hx
    · exact .inr hx
    · exact .inl (.inl hx)
    · exact .inl (.inr hx)
  | @both p q b hp hq =>
    subst hp
    rw [covers_cons, has_add, has_add] at hx
    rw [covers_cons, covers_cons]
    rcases hx with (hx | hx | hx) | hx
    · exact .inl (.inl hx)
    · exact .inr hx
    · rw [show p.start + p.size + size = q.start from hq] at hx
      exact .inl (.inr (.inl hx))
    · exact .inl (.inr (.inr hx))
  | @skip p l l' n hp h ih =>
    rw [covers_cons] at hx ⊢
    rcases hx with hx | hx
    · exact .inl (.inl hx)
    · rcases ih hx with hx | hx
      · exact .inl (.inr hx)
      · exact .inr hx

/-- A region that does not start at the null pointer is added whole. -/
theorem Freed.joined (h : Freed base size l l' n) (hbase : base ≠ 0) : Joined l ⟨base, size⟩ l' := by
  intro x
  refine ⟨h.covers, ?_⟩
  induction h with
  | insert hb =>
    rw [link_of_ne hbase, covers_cons]
    exact Or.symm
  | @prev p b hp hb =>
    subst hp
    rw [covers_cons, covers_cons, has_add]
    rintro ((hx | hx) | hx)
    · exact .inl (.inl hx)
    · exact .inr hx
    · exact .inl (.inr hx)
  | @next q b hq =>
    rw [link_of_ne hbase, covers_cons, covers_cons, has_add, hq]
    rintro ((hx | hx) | hx)
    · exact .inl (.inr hx)
    · exact .inr hx
    · exact .inl (.inl hx)
  | @both p q b hp hq =>
    subst hp
    rw [covers_cons, covers_cons, covers_cons, has_add, has_add,
      show p.start + p.size + size = q.start from hq]
    rintro ((hx | hx | hx) | hx)
    · exact .inl (.inl hx)
    · exact .inl (.inr (.inr hx))
    · exact .inr hx
    · exact .inl (.inr (.inl hx))
  | @skip p l l' n hp h ih =>
    rw [covers_cons, covers_cons]
    rintro ((hx | hx) | hx)
    · exact .inl hx
    · exact .inr (ih (.inl hx))
    · exact .inr (ih (.inr hx))

theorem Freed.listed (h : Freed base size l l' n) (hl : Listed l) (hsize : headerSize ≤ size)
    (hend : base + size < 2 ^ 32) : Listed l' := by
  induction h with
  | insert hb =>
    refine listed_link fun hbase => hl.cons ⟨Nat.pos_of_ne_zero hbase, hsize, hend⟩ ?_
    rintro x ⟨c, hc, hx, -⟩
    exact Nat.le_trans (Nat.le_of_lt (hb c hc)) hx
  | @prev p b hp hb =>
    have hok := hl.head
    have hsum : p.start + p.size = base := hp
    refine hl.tail.cons ⟨hok.start_pos, Nat.le_add_right_of_le hok.header, ?_⟩ ?_
    · change p.start + (p.size + size) < _
      omega
    · rintro x ⟨c, hc, hx, -⟩
      have := hb c hc
      change p.start + (p.size + size) ≤ x
      omega
  | @next q b hq =>
    have hstop : base + (size + q.size) = q.stop := by
      unfold stop
      omega
    refine listed_link fun hbase => hl.tail.cons ⟨Nat.pos_of_ne_zero hbase, Nat.le_add_right_of_le hsize, ?_⟩ ?_
    · exact Nat.lt_of_le_of_lt (Nat.le_of_eq hstop) hl.head.stop_lt
    · intro x hx
      exact Nat.le_trans (Nat.le_of_eq hstop) (hl.le_of_covers hx)
  | @both p q b hp hq =>
    have hok := hl.head
    have hsum : p.start + p.size = base := hp
    have hstop : p.start + (p.size + (size + q.size)) = q.stop := by
      unfold stop
      omega
    refine hl.tail.tail.cons ⟨hok.start_pos, Nat.le_add_right_of_le hok.header, ?_⟩ ?_
    · exact Nat.lt_of_le_of_lt (Nat.le_of_eq hstop) hl.tail.head.stop_lt
    · intro x hx
      exact Nat.le_trans (Nat.le_of_eq hstop) (hl.tail.le_of_covers hx)
  | @skip p l l' n hp h ih =>
    refine (ih hl.tail).cons hl.head fun x hx => ?_
    rcases h.covers hx with hx | hx
    · exact hl.le_of_covers hx
    · exact Nat.le_trans (Nat.le_of_lt hp) hx.1

theorem Freed.separated (h : Freed base size l l' n) (hl : Listed l) (hs : Separated l) (hsize : headerSize ≤ size)
    (hend : base + size < 2 ^ 32) : Separated l' := by
  have hl' := h.listed hl hsize hend
  induction h with
  | insert hb =>
    unfold link
    split
    · exact .nil
    · exact List.pairwise_cons.mpr ⟨hb, hs⟩
  | @prev p b hp hb =>
    have hsum : p.start + p.size = base := hp
    refine List.pairwise_cons.mpr ⟨fun c hc => ?_, (List.pairwise_cons.mp hs).2⟩
    have := hb c hc
    change p.start + (p.size + size) < _
    omega
  | @next q b hq =>
    unfold link
    split
    · exact .nil
    · refine List.pairwise_cons.mpr ⟨fun c hc => ?_, (List.pairwise_cons.mp hs).2⟩
      have := (List.pairwise_cons.mp hs).1 c hc
      simp only [stop] at this ⊢
      omega
  | @both p q b hp hq =>
    have hsum : p.start + p.size = base := hp
    have hs := (List.pairwise_cons.mp hs).2
    refine List.pairwise_cons.mpr ⟨fun c hc => ?_, (List.pairwise_cons.mp hs).2⟩
    have := (List.pairwise_cons.mp hs).1 c hc
    simp only [stop] at this ⊢
    omega
  | @skip p l l' n hp h ih =>
    refine (ih hl.tail (List.pairwise_cons.mp hs).2 hl'.tail).cons hl'.tail.pos fun x hx => ?_
    rcases h.covers hx with hx | hx
    · exact hs.lt_of_covers hx
    · exact Nat.lt_of_lt_of_le hp hx.1

theorem pmmFreeLoop_isSome (hl : Listed l) (hsize : headerSize ≤ size) (hend : base + size < 2 ^ 32)
    (hapart : ∀ p ∈ l, Apart ⟨base, size⟩ p) : ∃ r, pmmFreeLoop base size l = some r := by
  have hpos : 0 < size := Nat.lt_of_lt_of_le (by decide) hsize
  induction l with
  | nil => exact ⟨_, rfl⟩
  | cons p rest ih =>
    have hp := hl.head
    have hap := (hapart p List.mem_cons_self).stop_le hpos hp.size_pos
    simp only [stop] at hap
    unfold pmmFreeLoop
    rw [hp.chunkEnd_eq, dword_of_lt hend]
    by_cases heq : base = p.stop
    · rw [if_pos heq]
      cases rest with
      | nil => exact ⟨_, rfl⟩
      | cons q rest =>
        have hq := hl.tail.head.size_pos
        have haq := (hapart q (by simp)).stop_le hpos hq
        have hpq := (List.pairwise_cons.mp hl.ascending).1 q (by simp)
        simp only [stop] at haq hpq heq
        by_cases hadj : base + size = q.start
        · exact ⟨_, if_pos hadj⟩
        · have hlt : base + size < q.start := by omega
          simp only [if_neg hadj, if_pos hlt]
          exact ⟨_, rfl⟩
    · rw [if_neg heq]
      by_cases hlt : base < p.stop
      · have hle : base + size ≤ p.start := by
          unfold stop at hlt
          omega
        rw [if_pos hlt, if_pos hle]
        split
        · exact ⟨_, rfl⟩
        · exact ⟨_, rfl⟩
      · rw [if_neg hlt]
        obtain ⟨r, hr⟩ := ih hl.tail fun q hq => hapart q (List.mem_cons_of_mem _ hq)
        rw [hr]
        exact ⟨_, rfl⟩

theorem remainder_zero (start : ℕ) : remainder start 0 l = l := if_pos (by decide)

theorem listed_remainder {start lsize : ℕ} (hl : Listed l) (hstart : 0 < start) (hend : start + lsize < 2 ^ 32)
    (hle : ∀ x, Covers l x → start + lsize ≤ x) : Listed (remainder start lsize l) := by
  unfold remainder
  split
  · exact hl
  · next hsize => exact listed_link fun _ => hl.cons ⟨hstart, Nat.le_of_not_lt hsize, hend⟩ hle

theorem covers_remainder {start lsize : ℕ} (h : Covers (remainder start lsize l) x) :
    Has ⟨start, lsize⟩ x ∨ Covers l x := by
  unfold remainder at h
  split at h
  · exact .inr h
  · exact covers_cons.mp (covers_link h)

/-- What is left when the region `r` is taken out of the chunk `p`. -/
def carve (p r : Chunk) (rest : List Chunk) : List Chunk :=
  remainder p.start (r.start - p.start) (remainder r.stop (p.stop - r.stop) rest)

/-- The region `r` is taken out of the chunk `p` of the list. -/
inductive Carved (r p : Chunk) : List Chunk → List Chunk → Prop
  | here {b : List Chunk} (hstart : p.start ≤ r.start) (hstop : r.stop ≤ p.stop) : Carved r p (p :: b) (carve p r b)
  | skip {q : Chunk} {l l' : List Chunk} (h : Carved r p l l') : Carved r p (q :: l) (q :: l')

theorem Carved.within (h : Carved r p l l') (hx : r.Has x) : Covers l x := by
  induction h with
  | here hstart hstop =>
    exact covers_cons.mpr (.inl ⟨Nat.le_trans hstart hx.1, Nat.lt_of_lt_of_le hx.2 hstop⟩)
  | skip h ih => exact covers_cons.mpr (.inr ih)

theorem Carved.stop_lt (h : Carved r p l l') (hl : Listed l) : r.stop < 2 ^ 32 := by
  induction h with
  | here hstart hstop => exact Nat.lt_of_le_of_lt hstop hl.head.stop_lt
  | skip h ih => exact ih hl.tail

theorem Carved.covers (h : Carved r p l l') (hx : Covers l' x) : Covers l x := by
  induction h with
  | here hstart hstop =>
    rw [covers_cons]
    have hr : r.start ≤ r.stop := Nat.le_add_right _ _
    rcases covers_remainder hx with hx | hx
    · left
      simp only [Has, stop] at *
      omega
    rcases covers_remainder hx with hx | hx
    · left
      simp only [Has, stop] at *
      omega
    · exact .inr hx
  | skip h ih =>
    rw [covers_cons] at hx ⊢
    exact hx.imp_right ih

theorem Carved.listed (h : Carved r p l l') (hl : Listed l) : Listed l' := by
  induction h with
  | here hstart hstop =>
    have hok := hl.head
    have hr : r.start ≤ r.stop := Nat.le_add_right _ _
    have hpos := hok.start_pos
    have hend := hok.stop_lt
    have hright : Listed (remainder r.stop (p.stop - r.stop) _) :=
      listed_remainder hl.tail (by omega) (by omega) fun x hx => by
        have := hl.le_of_covers hx
        omega
    refine listed_remainder hright hpos (by omega) fun x hx => ?_
    rcases covers_remainder hx with hx | hx
    · have := hx.1
      simp only at this
      omega
    · have := hl.le_of_covers hx
      omega
  | skip h ih => exact (ih hl.tail).cons hl.head fun x hx => hl.le_of_covers (h.covers hx)

theorem Carved.not_has (h : Carved r p l l') (hl : Listed l) (hx : Covers l' x) : ¬r.Has x := by
  induction h with
  | here hstart hstop =>
    intro hr
    rcases covers_remainder hx with hx | hx
    · simp only [Has, stop] at *
      omega
    rcases covers_remainder hx with hx | hx
    · simp only [Has, stop] at *
      omega
    · have := hl.le_of_covers hx
      have := hr.2
      omega
  | skip h ih =>
    rcases covers_cons.mp hx with hx | hx
    · intro hr
      have := hl.le_of_covers (h.within hr)
      have := hx.2
      omega
    · exact ih hl.tail hx

variable {test : Chunk → Bool} {repl : Chunk → List Chunk → List Chunk}

theorem splice_find (h : splice test repl l = some (p, l')) : l.find? test = some p := by
  induction l generalizing l' with
  | nil => cases h
  | cons q rest ih =>
    unfold splice at h
    split at h
    · next ht =>
      simp only [Option.some.injEq, Prod.mk.injEq] at h
      rw [List.find?_cons_of_pos ht, h.1]
    · next ht =>
      obtain ⟨⟨p', m⟩, hm, heq⟩ := Option.map_eq_some_iff.mp h
      simp only [Prod.mk.injEq] at heq
      rw [heq.1] at hm
      rw [List.find?_cons_of_neg (by simpa using ht)]
      exact ih hm

theorem splice_carved (h : splice test repl l = some (p, l')) (hl : Listed l) (hstart : p.start ≤ r.start)
    (hstop : r.stop ≤ p.stop) (hrepl : ∀ b, repl p b = carve p r b) : Carved r p l l' := by
  induction l generalizing l' with
  | nil => cases h
  | cons q rest ih =>
    unfold splice at h
    split at h
    · simp only [Option.some.injEq, Prod.mk.injEq] at h
      obtain ⟨rfl, rfl⟩ := h
      rw [hrepl]
      exact .here hstart hstop
    · obtain ⟨⟨p', m⟩, hm, heq⟩ := Option.map_eq_some_iff.mp h
      simp only [Prod.mk.injEq] at heq
      obtain ⟨rfl, rfl⟩ := heq
      exact .skip (ih hm hl.tail)

theorem pmmAllocAddress_spec {mp mp' : Mempool} {v : ℤ} (hl : Listed mp.chunks)
    (hfits : ∀ p ∈ mp.chunks.find? (addressTest base size), base + size ≤ p.stop)
    (h : pmmAllocAddress mp base size = (v, mp')) :
    v = -1 ∧ mp' = mp ∨
      v = 1 ∧ ∃ p, Carved ⟨base, size⟩ p mp.chunks mp'.chunks ∧
        mp'.size = dsub (dsub (dsub mp.size (lost (base - p.start))) (lost (p.stop - (base + size)))) size := by
  unfold pmmAllocAddress at h
  simp only at h
  split at h
  · next p chunks hs =>
    simp only [Prod.mk.injEq] at h
    obtain ⟨rfl, rfl⟩ := h
    have hfind := splice_find hs
    have hle := hfits p hfind
    have hok := hl.ok p (List.mem_of_find?_eq_some hfind)
    have htest := List.find?_some hfind
    simp only [addressTest, decide_eq_true_eq] at htest
    have hend : dword (base + size) = base + size := dword_of_lt (Nat.lt_of_le_of_lt hle hok.stop_lt)
    have hright : dsub (chunkEnd p) (dword (base + size)) = p.stop - (base + size) := by
      rw [hok.chunkEnd_eq, hend, dsub_of_le hle hok.stop_lt]
    refine .inr ⟨rfl, p, splice_carved hs hl htest.2 hle fun b => ?_, ?_⟩
    · rw [hright, hend]
      rfl
    · simp only [hright]
  · simp only [Prod.mk.injEq] at h
    exact .inl ⟨h.1.symm, h.2.symm⟩

theorem pmmAlloc_spec {mp mp' : Mempool} {v : ℕ} (hl : Listed mp.chunks) (h : pmmAlloc mp size = (v, mp')) :
    v = 0 ∧ mp' = mp ∨
      ∃ p, v = p.start ∧ 0 < p.start ∧ size ≤ p.size ∧ Carved ⟨p.start, size⟩ p mp.chunks mp'.chunks ∧
        mp'.size = dsub (dsub mp.size (lost (p.size - size))) size := by
  unfold pmmAlloc at h
  simp only at h
  split at h
  · next p chunks hs =>
    simp only [Prod.mk.injEq] at h
    obtain ⟨rfl, rfl⟩ := h
    have hfind := splice_find hs
    have hok := hl.ok p (List.mem_of_find?_eq_some hfind)
    have htest := List.find?_some hfind
    simp only [decide_eq_true_eq] at htest
    have hin : (⟨p.start, size⟩ : Chunk).stop ≤ p.stop := Nat.add_le_add_left htest _
    have hend : dword (p.start + size) = p.start + size := dword_of_lt (Nat.lt_of_le_of_lt hin hok.stop_lt)
    refine .inr ⟨p, rfl, hok.start_pos, htest, splice_carved hs hl (Nat.le_refl _) hin fun b => ?_, rfl⟩
    unfold carve
    simp only [hend, Nat.sub_self, remainder_zero]
    congr 1
    simp only [stop]
    omega
  · simp only [Prod.mk.injEq] at h
    exact .inl ⟨h.1.symm, h.2.symm⟩

theorem pmmAllocFrom_spec {mp mp' : Mempool} {v : ℕ} (hl : Listed mp.chunks)
    (hfits : ∀ p ∈ mp.chunks.find? (fromTest base size), size ≤ p.size)
    (h : pmmAllocFrom mp base size = (v, mp')) :
    v = 0 ∧ mp' = mp ∨ 0 < v ∧ mp'.size = mp.size ∧
      ∃ p ∈ mp.chunks, Carved ⟨v, size⟩ p mp.chunks mp'.chunks ∧ (v = p.start ∨ v + size = p.stop) := by
  unfold pmmAllocFrom at h
  simp only at h
  split at h
  · next p chunks hs =>
    simp only [Prod.mk.injEq] at h
    obtain ⟨rfl, rfl⟩ := h
    have hfind := splice_find hs
    have hle := hfits p hfind
    have hmem := List.mem_of_find?_eq_some hfind
    have hok := hl.ok p hmem
    have hpos := hok.start_pos
    have hstop : p.stop = p.start + p.size := rfl
    have hnew : dsub (chunkEnd p) size = p.stop - size := by
      rw [hok.chunkEnd_eq, dsub_of_le (by omega) hok.stop_lt]
    have hend : dword (p.start + size) = p.start + size := dword_of_lt (by have := hok.stop_lt; omega)
    have hright : dsub (chunkEnd p) (dword (p.start + size)) = p.stop - (p.start + size) := by
      rw [hok.chunkEnd_eq, hend, dsub_of_le (by omega) hok.stop_lt]
    by_cases hbase : base ≤ p.start
    · simp only [if_pos hbase]
      refine .inr ⟨hpos, trivial, p, hmem, splice_carved hs hl (Nat.le_refl _) ?_ fun b => ?_, .inl rfl⟩
      · simp only [stop]
        omega
      · simp only [if_pos hbase, carve, Nat.sub_self, remainder_zero]
        rw [hright, hend]
        rfl
    · simp only [if_neg hbase, hnew]
      refine .inr ⟨by omega, trivial, p, hmem, splice_carved hs hl ?_ ?_ fun b => ?_, .inr (by omega)⟩
      · simp only
        omega
      · simp only [stop]
        omega
      · have hsub : p.stop - (p.stop - size + size) = 0 := by omega
        simp only [if_neg hbase, hnew, carve]
        rw [show (⟨p.stop - size, size⟩ : Chunk).stop = p.stop - size + size from rfl, hsub, remainder_zero]
  · simp only [Prod.mk.injEq] at h
    exact .inl ⟨h.1.symm, h.2.symm⟩

/-- The region at `base` grows or shrinks at the cost of the chunk behind it. -/
inductive Resized (base oldsize newsize : ℕ) : List Chunk → List Chunk → Prop
  | here {p : Chunk} {b : List Chunk} (hp : p.start = base + oldsize) (hfits : base + newsize ≤ p.stop) :
    Resized base oldsize newsize (p :: b) (remainder (base + newsize) (p.stop - (base + newsize)) b)
  | skip {q : Chunk} {l l' : List Chunk} (hq : q.start < base + oldsize) (h : Resized base oldsize newsize l l') :
    Resized base oldsize newsize (q :: l) (q :: l')

variable {oldsize newsize : ℕ}

theorem pmmResizeLoop_resized (hl : Listed l) (hold : base + oldsize < 2 ^ 32) (hnew : newsize < 2 ^ 32)
    (hfits : ∀ p ∈ l, p.start = base + oldsize → newsize ≤ oldsize + p.size)
    (h : pmmResizeLoop base oldsize newsize l = some l') : Resized base oldsize newsize l l' := by
  induction l generalizing l' with
  | nil => cases h
  | cons p rest ih =>
    unfold pmmResizeLoop at h
    rw [dword_of_lt hold] at h
    split at h
    · next hp =>
      have hok := hl.head
      have hstop : p.stop = p.start + p.size := rfl
      have hlt := hok.stop_lt
      have hle := hfits p List.mem_cons_self hp.symm
      -- asize may stand for a negative number: the two sums below are still exact
      have hstart : dword (p.start + dsub newsize oldsize) = base + newsize := by
        simp only [dsub, dword]
        omega
      have hsize : dsub p.size (dsub newsize oldsize) = p.stop - (base + newsize) := by
        simp only [dsub, dword]
        omega
      simp only [hstart, hsize] at h
      have heq : l' = remainder (base + newsize) (p.stop - (base + newsize)) rest := by
        unfold remainder
        split at h
        · next hbig =>
          rw [if_neg (Nat.not_lt.mpr hbig)]
          exact (Option.some.inj h).symm
        · next hsmall =>
          rw [if_pos (Nat.lt_of_not_le hsmall)]
          split at h
          · cases h
          · exact (Option.some.inj h).symm
      rw [heq]
      exact .here hp.symm (by omega)
    · split at h
      · cases h
      · next hne hge =>
        obtain ⟨m, hm, rfl⟩ := Option.map_eq_some_iff.mp h
        exact .skip (by omega) (ih hl.tail (fun q hq => hfits q (List.mem_cons_of_mem _ hq)) hm)

theorem pmmResize_spec {mp mp' : Mempool} {v : ℕ} (hl : Listed mp.chunks) (hold : base + oldsize < 2 ^ 32)
    (hnew : newsize < 2 ^ 32) (hfits : ∀ p ∈ mp.chunks, p.start = base + oldsize → newsize ≤ oldsize + p.size)
    (h : pmmResize mp base oldsize newsize = (v, mp')) :
    v = 0 ∧ mp' = mp ∨ v = newsize ∧ mp'.size = mp.size ∧ Resized base oldsize newsize mp.chunks mp'.chunks := by
  unfold pmmResize at h
  split at h
  · next chunks hs =>
    simp only [Prod.mk.injEq] at h
    obtain ⟨rfl, rfl⟩ := h
    exact .inr ⟨rfl, rfl, pmmResizeLoop_resized hl hold hnew hfits hs⟩
  · simp only [Prod.mk.injEq] at h
    exact .inl ⟨h.1.symm, h.2.symm⟩

theorem Resized.stop_lt (h : Resized base oldsize newsize l l') (hl : Listed l) : base + newsize < 2 ^ 32 := by
  induction h with
  | here hp hfits => exact Nat.lt_of_le_of_lt hfits hl.head.stop_lt
  | skip hq h ih => exact ih hl.tail

theorem Resized.covers (h : Resized base oldsize newsize l l') (hx : Covers l' x) :
    Covers l x ∨ Has ⟨base, oldsize⟩ x ∧ base + newsize ≤ x := by
  induction h with
  | @here p b hp hfits =>
    rw [covers_cons]
    rcases covers_remainder hx with hx | hx
    · by_cases hlt : x < p.start
      · right
        simp only [Has, stop] at *
        omega
      · left; left
        simp only [Has, stop] at *
        omega
    · exact .inl (.inr hx)
  | skip hq h ih =>
    rw [covers_cons] at hx ⊢
    rcases hx with hx | hx
    · exact .inl (.inl hx)
    · exact (ih hx).imp_left .inr

theorem Resized.within (h : Resized base oldsize newsize l l') (hx : Has ⟨base, newsize⟩ x) :
    Covers l x ∨ Has ⟨base, oldsize⟩ x := by
  induction h with
  | @here p b hp hfits =>
    rw [covers_cons]
    by_cases hlt : x < p.start
    · right
      simp only [Has, stop] at *
      omega
    · left; left
      simp only [Has, stop] at *
      omega
  | skip hq h ih =>
    rw [covers_cons]
    exact ih.imp_left .inr

theorem stop_le_of_apart {q : Chunk} (hq : ChunkOk q) (hold : 0 < oldsize) (hlt : q.start < base + oldsize)
    (hapart : Apart ⟨base, oldsize⟩ q) : q.stop ≤ base := by
  have := hapart.stop_le hold hq.size_pos
  simp only [stop] at *
  omega

theorem Resized.listed (h : Resized base oldsize newsize l l') (hl : Listed l) (hold : 0 < oldsize)
    (hnew : 0 < newsize) (hapart : ∀ q ∈ l, Apart ⟨base, oldsize⟩ q) : Listed l' := by
  induction h with
  | @here p b hp hfits =>
    have hlt := hl.head.stop_lt
    refine listed_remainder hl.tail (by omega) (by omega) fun x hx => ?_
    have := hl.le_of_covers hx
    omega
  | skip hq h ih =>
    have hle := stop_le_of_apart hl.head hold hq (hapart _ List.mem_cons_self)
    refine (ih hl.tail fun q hq => hapart q (List.mem_cons_of_mem _ hq)).cons hl.head fun x hx => ?_
    rcases h.covers hx with hx | ⟨hx, -⟩
    · exact hl.le_of_covers hx
    · exact Nat.le_trans hle hx.1

theorem Resized.not_has (h : Resized base oldsize newsize l l') (hl : Listed l) (hold : 0 < oldsize)
    (hapart : ∀ q ∈ l, Apart ⟨base, oldsize⟩ q) (hx : Covers l' x) : ¬Has ⟨base, newsize⟩ x := by
  induction h with
  | @here p b hp hfits =>
    intro hr
    rcases covers_remainder hx with hx | hx
    · have h1 := hx.1
      have h2 := hr.2
      simp only [stop] at h1 h2
      omega
    · have := hl.le_of_covers hx
      have h2 := hr.2
      simp only [stop] at this h2 hfits
      omega
  | skip hq h ih =>
    rcases covers_cons.mp hx with hx | hx
    · have hle := stop_le_of_apart hl.head hold hq (hapart _ List.mem_cons_self)
      intro hr
      have h1 := hx.2
      have h2 := hr.1
      simp only at h2
      omega
    · exact ih hl.tail (fun q hq => hapart q (List.mem_cons_of_mem _ hq)) hx

end FreeDos32.Kernel
