import FreeDos32.Kernel.PmmCounter

namespace FreeDos32.Kernel

open Span

variable {mp mp' : Mempool} {a b l l' : List Chunk} {p q r : Chunk} {x base oldsize newsize size start lsize : ℕ}

section Inverse

theorem covers_remainder_iff (hstart : start ≠ 0) (hlost : lsize = 0 ∨ headerSize ≤ lsize) :
    Covers (remainder start lsize l) x ↔ Has ⟨start, lsize⟩ x ∨ Covers l x := by
  unfold remainder
  split
  · have hno : ¬Has ⟨start, lsize⟩ x := by
      simp only [Has, stop]
      omega
    rw [or_iff_right hno]
  · rw [link_of_ne hstart, covers_cons]

theorem separated_remainder (hs : Separated l) (hl : Listed l) (hlt : ∀ x, Covers l x → start + lsize < x) :
    Separated (remainder start lsize l) := by
  unfold remainder link
  split
  · exact hs
  · split
    · exact .nil
    · exact Separated.cons hs hl.pos hlt

/-- With nothing lost, the list and the region make up what was free before. -/
theorem Carved.restored (h : Carved r p l l') (hl : Listed l)
    (hleft : r.start - p.start = 0 ∨ headerSize ≤ r.start - p.start)
    (hright : p.stop - r.stop = 0 ∨ headerSize ≤ p.stop - r.stop) : Covers l' x ∨ r.Has x ↔ Covers l x := by
  induction h with
  | here hstart hstop =>
    have hpos := hl.head.start_pos
    have hle : r.start ≤ r.stop := Nat.le_add_right _ _
    rw [carve, covers_remainder_iff (by omega) hleft, covers_remainder_iff (by omega) hright, covers_cons]
    simp only [Has, stop] at *
    grind
  | skip h ih =>
    rw [covers_cons, covers_cons, or_assoc, ih hl.tail]

theorem Carved.separated (h : Carved r p l l') (hl : Listed l) (hs : Separated l) (hr : 0 < r.size) : Separated l' := by
  induction h with
  | @here b hstart hstop =>
    have hpos := hl.head.start_pos
    have hend := hl.head.stop_lt
    have hstop' : r.stop = r.start + r.size := rfl
    have hout : ∀ x, Covers b x → p.stop < x := fun x hx => hs.lt_of_covers hx
    have hright : Separated (remainder r.stop (p.stop - r.stop) b) := by
      apply separated_remainder (List.pairwise_cons.mp hs).2 hl.tail
      intro x hx
      have := hout x hx
      omega
    have hlisted : Listed (remainder r.stop (p.stop - r.stop) b) := by
      apply listed_remainder hl.tail (by omega) (by omega)
      intro x hx
      have := hout x hx
      omega
    apply separated_remainder hright hlisted
    intro x hx
    rcases covers_remainder hx with hx | hx
    · have := hx.1
      simp only at this
      omega
    · have := hout x hx
      omega
  | skip h ih =>
    have hl' := h.listed hl.tail
    apply Separated.cons (ih hl.tail (List.pairwise_cons.mp hs).2) hl'.pos
    intro x hx
    exact hs.lt_of_covers (h.covers hx)

theorem Carved.mem (h : Carved r p l l') : p ∈ l := by
  induction h with
  | here => exact List.mem_cons_self
  | skip h ih => exact List.mem_cons_of_mem _ ih

/-- Freeing what `pmm_alloc` has handed out restores the list, if nothing of the chunk was lost. -/
theorem pmmAlloc_pmmFree (hl : Listed mp.chunks) (hs : Separated mp.chunks) (hsize : headerSize ≤ size)
    (halloc : pmmAlloc mp size = (start, mp')) (hne : start ≠ 0)
    (hfit : ∀ p ∈ mp.chunks, p.start = start → p.size = size ∨ size + headerSize ≤ p.size) :
    ∃ mp'', pmmFree mp' start size = some mp'' ∧ mp''.chunks = mp.chunks := by
  rcases pmmAlloc_spec hl halloc with ⟨h0, -⟩ | ⟨p, rfl, hpos, hle, hcarved, -⟩
  · exact absurd h0 hne
  · have hok : RegionOk ⟨p.start, size⟩ := ⟨hsize, hcarved.stop_lt hl⟩
    have hl' := hcarved.listed hl
    have hs' := hcarved.separated hl hs (Nat.lt_of_lt_of_le (by decide) hsize)
    obtain ⟨mp'', hfree⟩ := pmmFree_isSome hl' hok fun x hx => hcarved.not_has hl hx
    obtain ⟨n, hfreed, -⟩ := pmmFree_freed hl' hok.stop_lt hfree
    refine ⟨mp'', hfree, ?_⟩
    have hl'' := pmmFree_listed hl' hok hfree
    apply (hfreed.separated hl' hs' hsize hok.stop_lt).eq_of_covers hs hl''.pos hl.pos
    intro x
    rw [hfreed.joined hne]
    apply hcarved.restored hl
    · simp
    · have := hfit p hcarved.mem rfl
      simp only [stop]
      omega

theorem pmmAlloc_pmmFree_pages : ∃ mp'', pmmFree { size := 0xF00, chunks := [⟨0x1100, 0xF00⟩] } 0x1000 0x100 = some mp'' ∧
    mp''.chunks = [⟨0x1000, 0x1000⟩] := by
  have halloc : pmmAlloc { size := 0x1000, chunks := [⟨0x1000, 0x1000⟩] } 0x100 =
      (0x1000, { size := 0xF00, chunks := [⟨0x1100, 0xF00⟩] }) := rfl
  have hl : Listed (Mempool.mk 0x1000 [⟨0x1000, 0x1000⟩]).chunks :=
    ⟨List.pairwise_singleton _ _, by simpa using ⟨by decide, by decide, by decide⟩⟩
  exact pmmAlloc_pmmFree hl (List.pairwise_singleton _ _) (by decide) halloc (by decide) (by decide)

end Inverse

section Resize

theorem Listed.eq_of_start (hl : Listed l) (hp : p ∈ l) (hq : q ∈ l) (h : p.start = q.start) : p = q := by
  induction l with
  | nil => cases hp
  | cons c l ih =>
    have hlt : ∀ {d}, d ∈ l → c.start < d.start := by
      intro d hd
      have hle := (List.pairwise_cons.mp hl.ascending).1 d hd
      have hpos := hl.head.size_pos
      unfold stop at hle
      omega
    rcases List.mem_cons.mp hp with hpc | hpl
    · rcases List.mem_cons.mp hq with hqc | hql
      · exact hpc.trans hqc.symm
      · exact absurd (hpc ▸ h) (Nat.ne_of_lt (hlt hql))
    · rcases List.mem_cons.mp hq with hqc | hql
      · exact absurd (hqc ▸ h).symm (Nat.ne_of_lt (hlt hpl))
      · exact ih hl.tail hpl hql

/-- What `pmm_resize` does when it gets to the chunk that starts where the region ends. -/
def resizeAt (p : Chunk) (oldsize newsize : ℕ) (rest : List Chunk) : Option (List Chunk) :=
  let asize := dsub newsize oldsize
  let lsize := dsub p.size asize
  if headerSize ≤ lsize then some (link (dword (p.start + asize)) lsize rest)
  else if 2 ^ 31 ≤ lsize then none
  else some rest

theorem pmmResizeLoop_at (newsize : ℕ) (hl : Listed (a ++ p :: b)) (hp : p.start = base + oldsize) :
    pmmResizeLoop base oldsize newsize (a ++ p :: b) = (resizeAt p oldsize newsize b).map (a ++ ·) := by
  have hlt : base + oldsize < 2 ^ 32 := by
    have hok := hl.ok p (by simp)
    have hstop := hok.stop_lt
    unfold stop at hstop
    omega
  induction a with
  | nil =>
    simp only [List.nil_append, pmmResizeLoop, dword_of_lt hlt, hp, if_true, resizeAt, Option.map_id']
  | cons c a ih =>
    have hle := (List.pairwise_cons.mp hl.ascending).1 p (by simp)
    have hpos := hl.head.size_pos
    unfold stop at hle
    have hne : base + oldsize ≠ c.start := by omega
    have hge : ¬base + oldsize < c.start := by omega
    rw [List.cons_append, pmmResizeLoop, dword_of_lt hlt, if_neg hne, if_neg hge, ih hl.tail, Option.map_map]
    rfl

theorem resizeAt_fits (hok : ChunkOk p) (hp : p.start = base + oldsize) (hnew : newsize < 2 ^ 32)
    (hfits : newsize ≤ oldsize + p.size) :
    resizeAt p oldsize newsize b = some (remainder (base + newsize) (p.stop - (base + newsize)) b) := by
  have hstop : p.stop = p.start + p.size := rfl
  have hlt := hok.stop_lt
  have hstart : dword (p.start + dsub newsize oldsize) = base + newsize := by
    simp only [dsub, dword]
    omega
  have hsize : dsub p.size (dsub newsize oldsize) = p.stop - (base + newsize) := by
    simp only [dsub, dword]
    omega
  simp only [resizeAt, hstart, hsize, remainder]
  split
  · next hbig => rw [if_neg (Nat.not_lt.mpr hbig)]
  · next hsmall =>
    have hlow : p.stop - (base + newsize) < headerSize := Nat.lt_of_not_le hsmall
    have hneg : ¬2 ^ 31 ≤ p.stop - (base + newsize) := by
      unfold headerSize at hlow
      omega
    rw [if_neg hneg, if_pos hlow]

/-- The branch that refuses the growth is never taken: a negative difference compares as a large one. -/
theorem resizeAt_isSome (b : List Chunk) (hok : ChunkOk p) (hold : oldsize < 2 ^ 32) (hnew : newsize < 2 ^ 32)
    (hover : oldsize + p.size < newsize) : ∃ l', resizeAt p oldsize newsize b = some l' := by
  have hheader := hok.header
  have hbig : headerSize ≤ dsub p.size (dsub newsize oldsize) := by
    simp only [headerSize, dsub, dword] at *
    omega
  exact ⟨_, if_pos hbig⟩

/-- `pmm_resize` returns the new size only when the free chunk behind the region is given or takes the difference. -/
def ResizeSound (mp : Mempool) (base oldsize newsize : ℕ) : Prop :=
  (∃ a p b, mp.chunks = a ++ p :: b ∧ p.start = base + oldsize ∧
    (newsize ≤ oldsize ∧ pmmResize mp base oldsize newsize =
        (newsize, { mp with chunks := a ++ ⟨base + newsize, p.size + (oldsize - newsize)⟩ :: b }) ∨
      newsize - oldsize ≤ p.size ∧ pmmResize mp base oldsize newsize =
        (newsize, { mp with chunks := a ++ if p.size - (newsize - oldsize) < headerSize then b
          else ⟨base + newsize, p.size - (newsize - oldsize)⟩ :: b }))) ∨
  (∀ p ∈ mp.chunks, p.start = base + oldsize → oldsize + p.size < newsize) ∧ pmmResize mp base oldsize newsize = (0, mp)

theorem ResizeSound.fits (h : ResizeSound mp base oldsize newsize) (hl : Listed mp.chunks) (hold : oldsize < 2 ^ 32)
    (hnew : newsize < 2 ^ 32) (hq : q ∈ mp.chunks) (hstart : q.start = base + oldsize) : newsize ≤ oldsize + q.size := by
  rcases h with ⟨a, p, b, hmp, hp, hres⟩ | ⟨hover, hres⟩
  · obtain rfl := hl.eq_of_start hq (by rw [hmp]; simp) (hstart.trans hp.symm)
    rcases hres with ⟨hle, -⟩ | ⟨hle, -⟩
    · exact Nat.le_add_right_of_le hle
    · omega
  · obtain ⟨a, b, hmp⟩ := List.append_of_mem hq
    have hlt := hover q hq hstart
    obtain ⟨l', hl'⟩ := resizeAt_isSome b (hl.ok q hq) hold hnew hlt
    have hrun := pmmResizeLoop_at newsize (hmp ▸ hl) hstart
    rw [← hmp, hl'] at hrun
    simp only [pmmResize, hrun, Option.map_some, Prod.mk.injEq] at hres
    omega

theorem pmmResize_sound_iff (hl : Listed mp.chunks) (hbase : 0 < base) (hold : base + oldsize < 2 ^ 32)
    (hnew : newsize < 2 ^ 32) : ResizeSound mp base oldsize newsize ↔
      ∀ p ∈ mp.chunks, p.start = base + oldsize → newsize ≤ oldsize + p.size := by
  constructor
  · intro h p hp hstart
    exact h.fits hl (by omega) hnew hp hstart
  · intro hfits
    by_cases hex : ∃ p ∈ mp.chunks, p.start = base + oldsize
    · obtain ⟨p, hp, hstart⟩ := hex
      obtain ⟨a, b, hmp⟩ := List.append_of_mem hp
      have hle := hfits p hp hstart
      have hrun := pmmResizeLoop_at newsize (hmp ▸ hl) hstart
      rw [← hmp, resizeAt_fits (hl.ok p hp) hstart hnew hle] at hrun
      have hstop : p.stop = p.start + p.size := rfl
      have hheader := (hl.ok p hp).header
      refine .inl ⟨a, p, b, hmp, hstart, ?_⟩
      rcases Nat.le_total newsize oldsize with hless | hmore
      · left
        have hsize : p.stop - (base + newsize) = p.size + (oldsize - newsize) := by omega
        have hbig : ¬p.size + (oldsize - newsize) < headerSize := by omega
        simp only [pmmResize, hrun, Option.map_some, hsize, remainder, if_neg hbig, link_of_ne (by omega : base + newsize ≠ 0)]
        exact ⟨hless, trivial⟩
      · right
        have hsize : p.stop - (base + newsize) = p.size - (newsize - oldsize) := by omega
        simp only [pmmResize, hrun, Option.map_some, hsize, remainder, link_of_ne (by omega : base + newsize ≠ 0)]
        exact ⟨by omega, trivial⟩
    · right
      have hnone : ∀ p ∈ mp.chunks, p.start ≠ base + oldsize := fun p hp he => hex ⟨p, hp, he⟩
      constructor
      · intro p hp he
        exact absurd he (hnone p hp)
      · rw [pmmResize, pmmResizeLoop_refused]
        rw [dword_of_lt hold]
        exact hnone

theorem listed_block : Listed [⟨0x1100, 0x100⟩] :=
  ⟨List.pairwise_singleton _ _, by simpa using ⟨by decide, by decide, by decide⟩⟩

theorem pmmResize_sound_block : ResizeSound { size := 0x100, chunks := [⟨0x1100, 0x100⟩] } 0x1000 0x100 0x180 :=
  (pmmResize_sound_iff listed_block (by decide) (by decide) (by decide)).mpr (by decide)

/-- The region is told to have grown over memory that is not free. -/
theorem pmmResize_unsound : Listed [⟨0x1100, 0x100⟩] ∧ Apart ⟨0x1000, 0x100⟩ ⟨0x1100, 0x100⟩ ∧
    (pmmResize { size := 0x100, chunks := [⟨0x1100, 0x100⟩] } 0x1000 0x100 0x1000).1 = 0x1000 ∧
    ¬ResizeSound { size := 0x100, chunks := [⟨0x1100, 0x100⟩] } 0x1000 0x100 0x1000 := by
  refine ⟨listed_block, apart_of_stop_le (by decide), rfl, fun h => ?_⟩
  have hle := h.fits listed_block (by decide) (by decide) List.mem_cons_self rfl
  simp at hle

end Resize

end FreeDos32.Kernel
