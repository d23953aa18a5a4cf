import FreeDos32.Kernel.PmmRuns

namespace FreeDos32.Kernel

open Span

variable {given l l' : List Chunk} {mp mp' : Mempool} {r p : Chunk}

def sizes (l : List Chunk) : ℕ := (l.map Span.size).sum

theorem sizes_cons : sizes (p :: l) = p.size + sizes l := by simp [sizes]

theorem sizes_link {start n : ℕ} (h : start ≠ 0) : sizes (link start n l) = n + sizes l := by
  rw [link_of_ne h, sizes_cons]

theorem sizes_remainder {start : ℕ} (lsize : ℕ) (l : List Chunk) (h : start ≠ 0) :
    sizes (remainder start lsize l) + lost lsize = lsize + sizes l := by
  unfold remainder lost
  split
  · exact Nat.add_comm _ _
  · rw [sizes_link h, Nat.add_zero]

theorem Carved.sizes_eq (h : Carved r p l l') (hl : Listed l) :
    sizes l' + lost (r.start - p.start) + lost (p.stop - r.stop) + r.size = sizes l := by
  induction h with
  | @here b hstart hstop =>
    have hpos := hl.head.start_pos
    have hr : r.stop = r.start + r.size := rfl
    have hp : p.stop = p.start + p.size := rfl
    have hleft : p.start ≠ 0 := by omega
    have hright : r.stop ≠ 0 := by omega
    have h₁ := sizes_remainder (r.start - p.start) (remainder r.stop (p.stop - r.stop) b) hleft
    have h₂ := sizes_remainder (p.stop - r.stop) b hright
    rw [sizes_cons, carve]
    omega
  | skip h ih =>
    have := ih hl.tail
    rw [sizes_cons, sizes_cons]
    omega

theorem Freed.sizes_eq {base size n : ℕ} (h : Freed base size l l' n) (hbase : base ≠ 0) :
    sizes l' = sizes l + size := by
  induction h with
  | insert hb => rw [sizes_link hbase, Nat.add_comm]
  | prev hp hb => simp only [sizes_cons]; omega
  | next hq =>
    rw [sizes_link hbase, sizes_cons]
    omega
  | both hp hq => simp only [sizes_cons]; omega
  | skip hp h ih => simp only [sizes_cons, ih]; omega

/-- The merged size is counted only when the region is merged with the next chunk and no other. -/
theorem Freed.size_eq {base size n : ℕ} (h : Freed base size l l' n) (hl : Listed l)
    (hnext : (∃ p ∈ l, p.stop = base) ∨ ∀ q ∈ l, q.start ≠ base + size) : n = size := by
  induction h with
  | insert hb => rfl
  | prev hp hb => rfl
  | @next q b hq =>
    rcases hnext with ⟨p, hp, hstop⟩ | hnone
    · have hle : q.start ≤ p.start := by
        rcases List.mem_cons.mp hp with rfl | hp
        · exact Nat.le_refl _
        · exact Nat.le_trans (Nat.le_add_right _ _) ((List.pairwise_cons.mp hl.ascending).1 p hp)
      have := (hl.ok p hp).size_pos
      unfold stop at hstop
      omega
    · exact absurd hq.symm (hnone q List.mem_cons_self)
  | both hp hq => rfl
  | @skip p l l' n hp h ih =>
    refine ih hl.tail ?_
    rcases hnext with ⟨q, hq, hstop⟩ | hnone
    · rcases List.mem_cons.mp hq with rfl | hq
      · omega
      · exact .inl ⟨q, hq, hstop⟩
    · exact .inr fun q hq => hnone q (List.mem_cons_of_mem _ hq)

theorem Listed.sizes_lt (h : Listed l) : sizes l < 2 ^ 32 := by
  suffices hs : ∀ start, (∀ p ∈ l, start ≤ p.start) → start < 2 ^ 32 → start + sizes l < 2 ^ 32 by
    have := hs 0 (fun p _ => Nat.zero_le _) (by decide)
    omega
  induction l with
  | nil =>
    intro start _ hlt
    simpa [sizes] using hlt
  | cons p l ih =>
    intro start hle _
    have h₁ := hle p List.mem_cons_self
    have h₂ := ih h.tail p.stop (List.pairwise_cons.mp h.ascending).1 h.head.stop_lt
    rw [sizes_cons]
    unfold stop at h₂
    omega

/-- `top.size` is the free memory size. -/
def Mempool.Counted (mp : Mempool) : Prop := mp.size = sizes mp.chunks

instance (mp : Mempool) : Decidable mp.Counted := inferInstanceAs (Decidable (_ = _))

/-- What a request does to the pool; `none` stands for `fd32_abort`. -/
def PmmRequest.exec (mp : Mempool) : PmmRequest → Option Mempool
  | .alloc size => some (pmmAlloc mp size).2
  | .allocAddress base size => some (pmmAllocAddress mp base size).2
  | .allocFrom base size => some (pmmAllocFrom mp base size).2
  | .resize base oldsize newsize => some (pmmResize mp base oldsize newsize).2
  | .free base size => pmmFree mp base size

/-- The arguments are `DWORD`s. -/
def PmmRequest.Dwords : PmmRequest → Prop
  | .alloc size => size < 2 ^ 32
  | .allocAddress base size => base < 2 ^ 32 ∧ size < 2 ^ 32
  | .allocFrom base size => base < 2 ^ 32 ∧ size < 2 ^ 32
  | .resize base oldsize newsize => base < 2 ^ 32 ∧ oldsize < 2 ^ 32 ∧ newsize < 2 ^ 32
  | .free base size => base < 2 ^ 32 ∧ size < 2 ^ 32

/-- The list and `top.size` change alike. -/
def PmmRequest.Counts (mp : Mempool) : PmmRequest → Prop
  | .alloc _ => True
  | .allocAddress base size => ∀ p ∈ mp.chunks.find? (addressTest base size), base + size ≤ p.stop
  | .allocFrom base size => mp.chunks.find? (fromTest base size) = none ∨ size = 0
  | .resize base oldsize newsize => (∀ p ∈ mp.chunks, p.start ≠ dword (base + oldsize)) ∨ newsize = oldsize
  | .free base size => base ≠ 0 ∧ headerSize ≤ size ∧ base + size < 2 ^ 32 ∧
    ((∃ p ∈ mp.chunks, p.stop = base) ∨ ∀ q ∈ mp.chunks, q.start ≠ base + size)

instance (req : PmmRequest) : Decidable req.Dwords :=
  match req with
  | .alloc size => inferInstanceAs (Decidable (size < 2 ^ 32))
  | .allocAddress _ _ => inferInstanceAs (Decidable (_ ∧ _))
  | .allocFrom _ _ => inferInstanceAs (Decidable (_ ∧ _))
  | .resize _ _ _ => inferInstanceAs (Decidable (_ ∧ _ ∧ _))
  | .free _ _ => inferInstanceAs (Decidable (_ ∧ _))

instance (mp : Mempool) (req : PmmRequest) : Decidable (req.Counts mp) :=
  match req with
  | .alloc _ => inferInstanceAs (Decidable True)
  | .allocAddress base size =>
    inferInstanceAs (Decidable (∀ p ∈ mp.chunks.find? (addressTest base size), base + size ≤ p.stop))
  | .allocFrom _ _ => inferInstanceAs (Decidable (_ ∨ _))
  | .resize base oldsize newsize =>
    inferInstanceAs (Decidable ((∀ p ∈ mp.chunks, p.start ≠ dword (base + oldsize)) ∨ newsize = oldsize))
  | .free base size => inferInstanceAs (Decidable (base ≠ 0 ∧ headerSize ≤ size ∧ base + size < 2 ^ 32 ∧
    ((∃ p ∈ mp.chunks, p.stop = base) ∨ ∀ q ∈ mp.chunks, q.start ≠ base + size)))

/-- The pools that are reached from `pmm_init` by requests that satisfy `Ok`. -/
inductive PoolRun (Ok : Mempool → PmmRequest → Prop) : Mempool → Prop
  | init : PoolRun Ok pmmInit
  | next {mp mp' : Mempool} (h : PoolRun Ok mp) (req : PmmRequest) (hok : Ok mp req)
    (hexec : req.exec mp = some mp') : PoolRun Ok mp'

theorem splice_none {test : Chunk → Bool} {repl : Chunk → List Chunk → List Chunk} (h : l.find? test = none) :
    splice test repl l = none := by
  induction l with
  | nil => rfl
  | cons p rest ih =>
    rw [List.find?_cons] at h
    unfold splice
    split at h
    · cases h
    · next ht =>
      rw [if_neg (by simp [ht]), ih h]
      rfl

theorem lost_of_le {n : ℕ} (h : headerSize ≤ n) : lost n = 0 := if_neg (Nat.not_lt.mpr h)

theorem pmmResizeLoop_refused {base oldsize newsize : ℕ} (h : ∀ p ∈ l, p.start ≠ dword (base + oldsize)) :
    pmmResizeLoop base oldsize newsize l = none := by
  induction l with
  | nil => rfl
  | cons p rest ih =>
    have hp := h p List.mem_cons_self
    unfold pmmResizeLoop
    rw [if_neg hp.symm, ih fun q hq => h q (List.mem_cons_of_mem _ hq)]
    split
    · rfl
    · rfl

theorem pmmResizeLoop_same {base size : ℕ} (hl : Listed l) (hsize : size < 2 ^ 32)
    (h : pmmResizeLoop base size size l = some l') : l' = l := by
  induction l generalizing l' with
  | nil => cases h
  | cons p rest ih =>
    have hok := hl.head
    have hstop : p.start + p.size < 2 ^ 32 := hok.stop_lt
    have hsub : dsub size size = 0 := by rw [dsub_of_le (Nat.le_refl _) hsize, Nat.sub_self]
    unfold pmmResizeLoop at h
    have hzero : dsub p.size 0 = p.size := dsub_zero (by omega)
    have hstart : dword p.start = p.start := dword_of_lt (by omega)
    simp only [hsub, hzero, Nat.add_zero, hstart] at h
    split at h
    · simp only [if_pos hok.header, link_of_ne (Nat.ne_of_gt hok.start_pos), Option.some.injEq] at h
      exact h.symm
    · split at h
      · cases h
      · obtain ⟨m, hm, rfl⟩ := Option.map_eq_some_iff.mp h
        rw [ih hl.tail hm]

theorem PmmRequest.exec_counted {req : PmmRequest} (hl : Listed mp.chunks) (hc : mp.Counted) (hd : req.Dwords)
    (hcounts : req.Counts mp) (h : req.exec mp = some mp') : Listed mp'.chunks ∧ mp'.Counted := by
  have hlt := hl.sizes_lt
  cases req with
  | alloc size =>
    rcases hop : pmmAlloc mp size with ⟨v, mp₁⟩
    simp only [exec, hop, Option.some.injEq] at h
    subst h
    rcases pmmAlloc_spec hl hop with ⟨-, rfl⟩ | ⟨p, -, -, hle, hcarved, hsize⟩
    · exact ⟨hl, hc⟩
    · refine ⟨hcarved.listed hl, ?_⟩
      have hsum := hcarved.sizes_eq hl
      have hright : p.stop - (⟨p.start, size⟩ : Chunk).stop = p.size - size := by
        simp only [stop]
        omega
      have hleft : lost 0 = 0 := rfl
      simp only [hright, Nat.sub_self, hleft, Nat.add_zero] at hsum
      have hold : sizes mp.chunks = sizes mp₁.chunks + size + lost (p.size - size) := by omega
      unfold Mempool.Counted at hc ⊢
      rw [hsize, hc, hold, dsub_add (by omega), dsub_add (by omega)]
  | allocAddress base size =>
    rcases hop : pmmAllocAddress mp base size with ⟨v, mp₁⟩
    simp only [exec, hop, Option.some.injEq] at h
    subst h
    rcases pmmAllocAddress_spec hl hcounts hop with ⟨-, rfl⟩ | ⟨-, p, hcarved, hsize⟩
    · exact ⟨hl, hc⟩
    · refine ⟨hcarved.listed hl, ?_⟩
      have hsum := hcarved.sizes_eq hl
      simp only [stop] at hsum hsize
      have hold : sizes mp.chunks = sizes mp₁.chunks + size + lost (p.start + p.size - (base + size)) +
          lost (base - p.start) := by omega
      unfold Mempool.Counted at hc ⊢
      rw [hsize, hc, hold, dsub_add (by omega), dsub_add (by omega), dsub_add (by omega)]
  | allocFrom base size =>
    rcases hop : pmmAllocFrom mp base size with ⟨v, mp₁⟩
    simp only [exec, hop, Option.some.injEq] at h
    subst h
    rcases hcounts with hnone | rfl
    · simp only [pmmAllocFrom, splice_none hnone, Prod.mk.injEq] at hop
      obtain rfl := hop.2
      exact ⟨hl, hc⟩
    · rcases pmmAllocFrom_spec hl (fun p _ => Nat.zero_le _) hop with ⟨-, rfl⟩ | ⟨-, hsize, p, hp, hcarved, hv⟩
      · exact ⟨hl, hc⟩
      · refine ⟨hcarved.listed hl, ?_⟩
        have hsum := hcarved.sizes_eq hl
        -- one side of the empty region is the whole chunk and the other one is empty
        have hlost : lost (v - p.start) = 0 ∧ lost (p.stop - (v + 0)) = 0 := by
          have hheader := (hl.ok p hp).header
          rcases hv with rfl | hv
          · exact ⟨by rw [Nat.sub_self]; rfl, lost_of_le (by simp only [stop]; omega)⟩
          · refine ⟨lost_of_le ?_, by rw [hv, Nat.sub_self]; rfl⟩
            unfold stop at hv
            omega
        simp only [stop] at hsum hlost
        unfold Mempool.Counted at hc ⊢
        omega
  | resize base oldsize newsize =>
    rcases hcounts with hnone | rfl
    · simp only [exec, pmmResize, pmmResizeLoop_refused hnone, Option.some.injEq] at h
      subst h
      exact ⟨hl, hc⟩
    · simp only [exec, pmmResize] at h
      split at h
      · next chunks hloop =>
        simp only [Option.some.injEq] at h
        subst h
        obtain rfl := pmmResizeLoop_same hl hd.2.1 hloop
        exact ⟨hl, hc⟩
      · simp only [Option.some.injEq] at h
        subst h
        exact ⟨hl, hc⟩
  | free base size =>
    obtain ⟨hbase, hsize, hend, hnext⟩ := hcounts
    obtain ⟨n, hfreed, hcount⟩ := pmmFree_freed (r := ⟨base, size⟩) hl hend h
    have hl' := hfreed.listed hl hsize hend
    refine ⟨hl', ?_⟩
    have hsum := hfreed.sizes_eq hbase
    have hlt' := hl'.sizes_lt
    unfold Mempool.Counted at hc ⊢
    rw [hcount, hfreed.size_eq hl hnext, hc, hsum, dword_of_lt (by omega)]

/-- In a run whose every request counts what it does, `top.size` is the size of the free memory. -/
theorem poolRun_counted (h : PoolRun (fun mp req => req.Dwords ∧ req.Counts mp) mp) : mp.Counted := by
  have hinv : Listed mp.chunks ∧ mp.Counted := by
    induction h with
    | init => exact ⟨.nil, rfl⟩
    | next h req hok hexec ih => exact req.exec_counted ih.1 ih.2 hok.1 hok.2 hexec
  exact hinv.2

theorem poolRun_counted_pages : Mempool.Counted { size := 0x2000, chunks := [⟨0x1000, 0x1000⟩, ⟨0x3000, 0x1000⟩] } :=
  poolRun_counted <|
    .next (.next (.next (.next .init (.free 0x1000 0x1000) (by decide) rfl) (.free 0x3000 0x1000) (by decide) rfl)
      (.allocAddress 0x1100 0x100) (by decide) rfl) (.free 0x1100 0x100) (by decide) rfl

/-- Requests that lie inside of a free chunk lose the count: `pmm_alloc_from` and `pmm_resize` do not touch
`top.size`, and `pmm_free` adds the size of the next chunk once more when it merges the region with it. -/
theorem poolRun_miscounted :
    (∃ mp, PoolRun (fun mp req => req.Dwords ∧ req.Fits mp) mp ∧ ¬mp.Counted ∧ mp.size = 0x1000 ∧
      sizes mp.chunks = 0x800) ∧
    (∃ mp, PoolRun (fun mp req => req.Dwords ∧ req.Fits mp) mp ∧ ¬mp.Counted ∧ mp.size = 0x800 ∧
      sizes mp.chunks = 0x700) ∧
    ∃ mp, PoolRun (fun mp req => req.Dwords ∧ req.Fits mp) mp ∧ ¬mp.Counted ∧ mp.size = 0x3000 ∧
      sizes mp.chunks = 0x2000 := by
  refine ⟨⟨_, .next (.next .init (.free 0x1000 0x1000) (by decide) rfl) (.allocFrom 0 0x800) (by decide) rfl, ?_⟩,
    ⟨_, .next (.next (.next .init (.free 0x1000 0x1000) (by decide) rfl) (.alloc 0x800) (by decide) rfl)
      (.resize 0x1000 0x800 0x900) (by decide) rfl, ?_⟩,
    ⟨_, .next (.next .init (.free 0x2000 0x1000) (by decide) rfl) (.free 0x1000 0x1000) (by decide) rfl, ?_⟩⟩
  all_goals decide

end FreeDos32.Kernel
