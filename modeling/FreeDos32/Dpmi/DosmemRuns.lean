import FreeDos32.Dpmi.Dosmem

namespace FreeDos32.Dpmi

open Kernel Span

variable {given taken taken' : List Chunk} {mp mp' : Mempool} {base n oldsize newsize seg size m : ℕ} {d : Dosmem}
  {t : DosmemTrack} {ts : List DosmemTrack} {b : Block} {bs : List Block} {g : DosGiven} {s s' : Blocks}

section Pool

theorem aligned_of_dvd (hdvd : 8 ∣ n) (hn : n + 7 < 2 ^ 32) : aligned n = n := by
  unfold aligned memoryAlignment
  rw [dword_of_lt hn]
  omega

theorem inv_perm (h : Session.Inv given ⟨mp, taken⟩) (hperm : taken.Perm taken') : Session.Inv given ⟨mp, taken'⟩ where
  listed := h.listed
  ok r hr := h.ok r (hperm.mem_iff.mpr hr)
  disjoint := hperm.pairwise h.disjoint fun hpq => hpq.symm
  takenNotFree r hr := h.takenNotFree r (hperm.mem_iff.mpr hr)
  freeGiven := h.freeGiven
  takenGiven r hr := h.takenGiven r (hperm.mem_iff.mpr hr)

theorem inv_poolGet (h : Session.Inv given ⟨mp, taken⟩) (hdvd : 8 ∣ n) (hpos : 0 < n) (hn : n + 7 < 2 ^ 32) :
    ((poolGet n mp).1 = 0 ∧ Session.Inv given ⟨(poolGet n mp).2, taken⟩) ∨
      0 < (poolGet n mp).1 ∧ Session.Inv given ⟨(poolGet n mp).2, ⟨(poolGet n mp).1, n⟩ :: taken⟩ := by
  have hstep : Session.step ⟨mp, taken⟩ (.alloc n) = some ⟨(pmmAlloc mp n).2,
      if (pmmAlloc mp n).1 = 0 then taken else ⟨(pmmAlloc mp n).1, n⟩ :: taken⟩ := rfl
  have hheader : headerSize ≤ n := by
    unfold headerSize
    omega
  have hadm : PmmRequest.Admissible ⟨mp, taken⟩ (.alloc n) := ⟨hheader, by omega⟩
  have hinv := Session.step_inv h hadm trivial hstep
  rw [poolGet, aligned_of_dvd hdvd hn]
  rcases Nat.eq_zero_or_pos (pmmAlloc mp n).1 with h0 | hpos
  · rw [if_pos h0] at hinv
    exact .inl ⟨h0, hinv⟩
  · rw [if_neg (Nat.ne_of_gt hpos)] at hinv
    exact .inr ⟨hpos, hinv⟩

theorem inv_poolFree (h : Session.Inv given ⟨mp, ⟨base, n⟩ :: taken⟩) (hdvd : 8 ∣ n) (hn : n + 7 < 2 ^ 32) :
    ∃ mp', poolFree base n mp = some mp' ∧ Session.Inv given ⟨mp', taken⟩ ∧
      (base ≠ 0 → ∀ x, Covers mp'.chunks x ↔ Covers mp.chunks x ∨ Has ⟨base, n⟩ x) := by
  have hok := h.ok ⟨base, n⟩ List.mem_cons_self
  have hfree : ∀ x, Covers mp.chunks x → ¬Has ⟨base, n⟩ x := h.takenNotFree ⟨base, n⟩ List.mem_cons_self
  obtain ⟨mp', hrun⟩ := pmmFree_isSome h.listed hok hfree
  have hinv := h.freed List.mem_cons_self hrun
  obtain ⟨k, hfreed, -⟩ := pmmFree_freed h.listed hok.stop_lt hrun
  refine ⟨mp', ?_, ?_, fun hbase => hfreed.joined hbase⟩
  · rw [poolFree, aligned_of_dvd hdvd hn]
    exact hrun
  · simpa using hinv

theorem pmmResize_fst (mp : Mempool) (base oldsize newsize : ℕ) :
    (pmmResize mp base oldsize newsize).1 = 0 ∨ (pmmResize mp base oldsize newsize).1 = newsize := by
  unfold pmmResize
  split
  · exact .inr rfl
  · exact .inl rfl

theorem inv_poolResize (h : Session.Inv given ⟨mp, ⟨base, oldsize⟩ :: taken⟩) (hold : 8 ∣ oldsize) (hnew : 8 ∣ newsize)
    (hpos : 0 < newsize) (holdlt : oldsize + 7 < 2 ^ 32) (hnewlt : newsize + 7 < 2 ^ 32)
    (hfits : ∀ p ∈ mp.chunks, p.start = base + oldsize → newsize ≤ oldsize + p.size) :
    ((poolResize base oldsize newsize mp).1 ≠ newsize ∧
        Session.Inv given ⟨(poolResize base oldsize newsize mp).2, ⟨base, oldsize⟩ :: taken⟩) ∨
      (poolResize base oldsize newsize mp).1 = newsize ∧
        Session.Inv given ⟨(poolResize base oldsize newsize mp).2, ⟨base, newsize⟩ :: taken⟩ := by
  have hstep : Session.step ⟨mp, ⟨base, oldsize⟩ :: taken⟩ (.resize base oldsize newsize) =
      some ⟨(pmmResize mp base oldsize newsize).2, if (pmmResize mp base oldsize newsize).1 = 0 then ⟨base, oldsize⟩ :: taken
        else ⟨base, newsize⟩ :: (⟨base, oldsize⟩ :: taken).erase ⟨base, oldsize⟩⟩ := rfl
  have hheader : headerSize ≤ newsize := by
    unfold headerSize
    omega
  have hadm : PmmRequest.Admissible ⟨mp, ⟨base, oldsize⟩ :: taken⟩ (.resize base oldsize newsize) :=
    ⟨List.mem_cons_self, hheader, by omega⟩
  have hinv := Session.step_inv h hadm hfits hstep
  rw [List.erase_cons_head] at hinv
  rw [poolResize, aligned_of_dvd hold holdlt, aligned_of_dvd hnew hnewlt]
  rcases pmmResize_fst mp base oldsize newsize with h0 | hnew
  · rw [if_pos h0] at hinv
    exact .inl ⟨by omega, hinv⟩
  · rw [if_neg (by omega)] at hinv
    exact .inr ⟨hnew, hinv⟩

end Pool

section Tracks

theorem find_perm (h : ts.find? (seg == ·.dosSeg) = some t) : ts.Perm (t :: ts.eraseP (seg == ·.dosSeg)) := by
  induction ts with
  | nil => cases h
  | cons c ts ih =>
    rw [List.find?_cons] at h
    rw [List.eraseP_cons]
    split at h
    · next hc =>
      cases h
      rw [hc]
      exact List.Perm.refl _
    · next hc =>
      rw [hc]
      exact ((ih h).cons c).trans (List.Perm.swap ..)

theorem setSize_header (seg size : ℕ) (ts : List DosmemTrack) :
    (setSize seg size ts).map DosmemTrack.header = ts.map DosmemTrack.header := by
  induction ts with
  | nil => rfl
  | cons c ts ih =>
    unfold setSize
    split
    · rfl
    · simp [ih]

theorem setSize_perm (size : ℕ) (h : ts.find? (seg == ·.dosSeg) = some t) :
    (setSize seg size ts).Perm ({ t with size } :: ts.eraseP (seg == ·.dosSeg)) := by
  induction ts with
  | nil => cases h
  | cons c ts ih =>
    rw [List.find?_cons] at h
    rw [List.eraseP_cons, setSize]
    split at h
    · next hc =>
      cases h
      rw [hc]
      exact List.Perm.refl _
    · next hc =>
      rw [hc]
      exact ((ih h).cons c).trans (List.Perm.swap ..)

end Tracks

section Inv

/-- The track of a block: its memory is as large as the block and what aligns it, and the segment is the first one in it. -/
structure Tracked (b : Block) (t : DosmemTrack) : Prop where
  seg : t.dosSeg = b.seg
  base_pos : 0 < t.base
  size : t.size = 16 * b.paragraphs + t.alignmentFix
  place : t.alignmentFix = 0 ∧ t.base = 16 * b.seg ∨
    t.alignmentFix = 16 ∧ t.base ≤ 16 * b.seg ∧ 16 * b.seg < t.base + 16

theorem Tracked.has (h : Tracked b t) {x : ℕ} (hx : b.range.Has x) : t.region.Has x := by
  have hsize := h.size
  have hplace := h.place
  simp only [Block.range, DosmemTrack.region, Has, stop] at *
  omega

theorem Tracked.has_seg (h : Tracked b t) (hpos : 0 < t.size) : t.region.Has (16 * b.seg) := by
  have hsize := h.size
  have hplace := h.place
  simp only [DosmemTrack.region, Has, stop] at *
  omega

theorem Tracked.dvd (h : Tracked b t) : 8 ∣ t.size := by
  have hsize := h.size
  have hplace := h.place
  omega

theorem tracked_find (h : List.Forall₂ Tracked bs ts) (hb : b ∈ bs) :
    ∃ t, ts.find? (b.seg == ·.dosSeg) = some t := by
  induction h with
  | nil => cases hb
  | @cons c u bs ts hcu _ ih =>
    rw [List.find?_cons]
    split
    · exact ⟨_, rfl⟩
    · next hne =>
      rcases List.mem_cons.mp hb with rfl | hb
      · simp [hcu.seg] at hne
      · exact ih hb

theorem tracked_seg (h : List.Forall₂ Tracked bs ts) : bs.map Block.seg = ts.map DosmemTrack.dosSeg := by
  induction h with
  | nil => rfl
  | cons hbt _ ih => rw [List.map_cons, List.map_cons, ih, hbt.seg]

theorem tracked_mem (h : List.Forall₂ Tracked bs ts) (hb : b ∈ bs) : ∃ t ∈ ts, Tracked b t := by
  induction h with
  | nil => cases hb
  | cons hcu _ ih =>
    rcases List.mem_cons.mp hb with rfl | hb
    · exact ⟨_, List.mem_cons_self, hcu⟩
    · obtain ⟨t, ht, hbt⟩ := ih hb
      exact ⟨t, List.mem_cons_of_mem _ ht, hbt⟩

theorem exists_tracked (h : List.Forall₂ Tracked bs ts) (ht : t ∈ ts) : ∃ b, Tracked b t := by
  induction h with
  | nil => cases ht
  | cons hcu _ ih =>
    rcases List.mem_cons.mp ht with rfl | ht
    · exact ⟨_, hcu⟩
    · exact ih ht

theorem tracked_erase (seg : ℕ) (h : List.Forall₂ Tracked bs ts) :
    List.Forall₂ Tracked (bs.eraseP (seg == ·.seg)) (ts.eraseP (seg == ·.dosSeg)) := by
  induction h with
  | nil => exact .nil
  | @cons b u bs ts hbu h ih =>
    rw [List.eraseP_cons, List.eraseP_cons, hbu.seg]
    cases hc : seg == b.seg with
    | true => exact h
    | false => exact .cons hbu ih

theorem tracked_set (h : List.Forall₂ Tracked bs ts) (hfind : ts.find? (seg == ·.dosSeg) = some t)
    (hsize : size = 16 * m + t.alignmentFix) :
    List.Forall₂ Tracked (setParagraphs seg m bs) (setSize seg size ts) := by
  induction h with
  | nil => exact .nil
  | @cons b u bs ts hbu h ih =>
    have hseg : (seg == b.seg) = (seg == u.dosSeg) := by rw [hbu.seg]
    rw [List.find?_cons] at hfind
    rw [setParagraphs, setSize, hseg]
    split at hfind
    · next hc =>
      cases hfind
      rw [hc]
      exact .cons ⟨hbu.seg, hbu.base_pos, hsize, hbu.place⟩ h
    · next hc =>
      rw [hc]
      exact .cons hbu (ih hfind)

theorem tracked_of_find (h : List.Forall₂ Tracked bs ts) (hnodup : (ts.map DosmemTrack.dosSeg).Nodup) (hb : b ∈ bs)
    (hfind : ts.find? (b.seg == ·.dosSeg) = some t) : Tracked b t := by
  induction h with
  | nil => cases hb
  | @cons c u bs ts hcu h ih =>
    obtain ⟨hu, hrest⟩ := List.nodup_cons.mp hnodup
    rw [List.find?_cons] at hfind
    split at hfind
    · next hseg =>
      cases hfind
      rcases List.mem_cons.mp hb with rfl | hb
      · exact hcu
      · obtain ⟨w, hw, hbw⟩ := tracked_mem h hb
        rw [← beq_iff_eq.mp hseg, ← hbw.seg] at hu
        exact absurd (List.mem_map_of_mem hw) hu
    · next hseg =>
      rcases List.mem_cons.mp hb with rfl | hb
      · simp [hcu.seg] at hseg
      · exact ih hrest hb hfind

theorem tracked_apart (h : List.Forall₂ Tracked bs ts) (hapart : ts.Pairwise fun t u => Apart t.region u.region) :
    bs.Pairwise fun b c => Apart b.range c.range := by
  induction h with
  | nil => exact .nil
  | @cons b t bs ts hbt h ih =>
    obtain ⟨hhead, htail⟩ := List.pairwise_cons.mp hapart
    apply List.pairwise_cons.mpr
    constructor
    · intro c hc x hx hcx
      obtain ⟨u, hu, hcu⟩ := tracked_mem h hc
      exact hhead u hu x (hbt.has hx) (hcu.has hcx)
    · exact ih htail

structure Blocks.Inv (g : DosGiven) (s : Blocks) : Prop where
  high : Session.Inv g.high ⟨s.dosmem.memory.highMemPool, s.dosmem.tracks.map DosmemTrack.header⟩
  dos : Session.Inv g.dos ⟨s.dosmem.memory.dosMemPool, s.dosmem.tracks.map DosmemTrack.region⟩
  tracked : List.Forall₂ Tracked s.blocks s.dosmem.tracks

theorem region_low (g : DosGiven) (h : Session.Inv g.dos ⟨mp, taken⟩) {r : Chunk} (hr : r ∈ taken) : r.stop ≤ 2 ^ 20 := by
  have hsize := (h.ok r hr).header
  obtain ⟨q, hq, hx⟩ := h.takenGiven r hr (r.stop - 1) ⟨by unfold headerSize at hsize; simp only [stop]; omega, by
    unfold headerSize at hsize; simp only [stop]; omega⟩
  have hlow := g.low q hq
  have := hx.2
  omega

theorem Blocks.Inv.distinct (h : s.Inv g) : (s.dosmem.tracks.map DosmemTrack.dosSeg).Nodup := by
  have hseg : ∀ t ∈ s.dosmem.tracks, t.region.Has (16 * t.dosSeg) := by
    have hpos : ∀ t ∈ s.dosmem.tracks, 0 < t.size := fun t ht =>
      Nat.lt_of_lt_of_le (by decide) (h.dos.ok t.region (List.mem_map_of_mem ht)).header
    intro t ht
    obtain ⟨b, hb⟩ := exists_tracked h.tracked ht
    rw [hb.seg]
    exact hb.has_seg (hpos t ht)
  apply List.pairwise_map.mpr
  apply (List.pairwise_map.mp h.dos.disjoint).imp_of_mem
  intro t u ht hu hapart he
  exact hapart _ (hseg t ht) (he ▸ hseg u hu)

end Inv

section Steps

theorem keepTrack_inv {p fix : ℕ} (hm : 0 < m) (hfix : fix = 0 ∧ base % 16 = 0 ∨ fix = 16) (hp : p ≠ 0)
    (hhigh : Session.Inv g.high ⟨d.memory.highMemPool, ⟨p, trackSize⟩ :: d.tracks.map DosmemTrack.header⟩)
    (hdos : base = 0 ∧ Session.Inv g.dos ⟨d.memory.dosMemPool, d.tracks.map DosmemTrack.region⟩ ∨
      0 < base ∧ Session.Inv g.dos ⟨d.memory.dosMemPool, ⟨base, 16 * m + fix⟩ :: d.tracks.map DosmemTrack.region⟩)
    (htracked : List.Forall₂ Tracked bs d.tracks) :
    ∃ r d', keepTrack p base (16 * m + fix) fix d = some (r, d') ∧
      Blocks.Inv g ⟨d', if r = 0 then bs else ⟨r, m⟩ :: bs⟩ := by
  rcases hdos with ⟨h0, hdos⟩ | ⟨hbase, hdos⟩
  · obtain ⟨mp', hfree, hinv, -⟩ := inv_poolFree hhigh (by decide) (by decide)
    refine ⟨0, { d with memory := { d.memory with highMemPool := mp' } }, ?_, hinv, hdos, htracked⟩
    rw [keepTrack, if_neg (by omega), memFree, hfree]
    rfl
  · have hlow := region_low g hdos List.mem_cons_self
    simp only [stop] at hlow
    have hseg : word (base / 16 + if base % 16 = 0 then 0 else 1) = base / 16 + if base % 16 = 0 then 0 else 1 := by
      apply Nat.mod_eq_of_lt
      split <;> omega
    have hplace : fix = 0 ∧ base = 16 * (base / 16 + if base % 16 = 0 then 0 else 1) ∨
        fix = 16 ∧ base ≤ 16 * (base / 16 + if base % 16 = 0 then 0 else 1) ∧
          16 * (base / 16 + if base % 16 = 0 then 0 else 1) < base + 16 := by
      split <;> omega
    refine ⟨_, _, if_pos hbase, ?_⟩
    simp only [hseg]
    generalize (base / 16 + if base % 16 = 0 then 0 else 1) = seg at hplace
    have hne : seg ≠ 0 := by omega
    rw [if_neg hp, if_neg hne]
    exact ⟨hhigh, hdos, .cons ⟨rfl, hbase, rfl, hplace⟩ htracked⟩

theorem dosAlloc_inv (h : s.Inv g) (hwords : size < 2 ^ 16) (hne : size ≠ 0)
    (hmem : ∃ p ∈ s.dosmem.memory.highMemPool.chunks, trackSize ≤ p.size) :
    ∃ r d, dosAlloc size s.dosmem = some (r, d) ∧ Blocks.Inv g ⟨d, if r = 0 then s.blocks else ⟨r, size⟩ :: s.blocks⟩ := by
  obtain ⟨⟨⟨high, dos⟩, ts⟩, bs⟩ := s
  obtain ⟨q, hq, hle⟩ := hmem
  have hp : (poolGet trackSize high).1 ≠ 0 := pmmAlloc_ne_zero h.high.listed hq hle
  have hhigh := (inv_poolGet h.high (n := trackSize) (by decide) (by decide) (by decide)).resolve_left fun h0 => hp h0.1
  have hdos := inv_poolGet h.dos (n := 16 * size + 0) (by omega) (by omega) (by omega)
  have hpsize : size * 16 = 16 * size + 0 := Nat.mul_comm ..
  simp only [dosAlloc, memGet, dosmemGet, Kernel.Memory.onHigh, Kernel.Memory.onDos, hpsize]
  generalize poolGet trackSize high = p at hp hhigh
  rcases hget : poolGet (16 * size + 0) dos with ⟨base, dos'⟩
  rw [hget] at hdos
  split
  · next hbase =>
    have hdos := (hdos.resolve_left fun h0 => by omega).2
    obtain ⟨mp', hfree, hinv, -⟩ := inv_poolFree hdos (by omega) (by omega)
    simp only [dosmemFree, hfree, Option.map_some, Option.bind_some]
    have hdos' := inv_poolGet hinv (n := 16 * size + 16) (by omega) (by omega) (by omega)
    exact keepTrack_inv (Nat.pos_of_ne_zero hne) (.inr rfl) hp hhigh.2 hdos' h.tracked
  · next hbase =>
    exact keepTrack_inv (Nat.pos_of_ne_zero hne) (.inl ⟨rfl, by omega⟩) hp hhigh.2 hdos h.tracked

theorem dosFree_inv (h : s.Inv g) (hfind : s.dosmem.find seg = some t) :
    ∃ d, dosFree seg s.dosmem = some (.ok (), d) ∧ Blocks.Inv g ⟨d, s.blocks.eraseP (seg == ·.seg)⟩ ∧
      ∀ x, Covers d.memory.dosMemPool.chunks x ↔ Covers s.dosmem.memory.dosMemPool.chunks x ∨ t.region.Has x := by
  obtain ⟨⟨⟨high, dos⟩, ts⟩, bs⟩ := s
  have hperm := find_perm hfind
  have hmem : t ∈ ts := List.mem_of_find?_eq_some hfind
  obtain ⟨b, hb⟩ := exists_tracked h.tracked hmem
  have hlow := region_low g h.dos (List.mem_map_of_mem hmem)
  simp only [DosmemTrack.region, stop] at hlow
  obtain ⟨dos', hdos, hinv, hcovers⟩ := inv_poolFree (inv_perm h.dos (hperm.map DosmemTrack.region)) hb.dvd (by omega)
  obtain ⟨high', hhigh, hinv', -⟩ := inv_poolFree (inv_perm h.high (hperm.map DosmemTrack.header)) (by decide) (by decide)
  refine ⟨⟨⟨high', dos'⟩, ts.eraseP (seg == ·.dosSeg)⟩, ?_, ⟨hinv', hinv, tracked_erase seg h.tracked⟩,
    hcovers (Nat.ne_of_gt hb.base_pos)⟩
  simp only [dosFree, hfind, dosmemFree, memFree, hdos, hhigh, Option.map_some, Option.bind_some]

theorem dosResize_inv (h : s.Inv g) (hfind : s.dosmem.find seg = some t) (hpos : 0 < 16 * m + t.alignmentFix)
    (hlt : 16 * m + t.alignmentFix < 2 ^ 16)
    (hfits : ∀ q ∈ s.dosmem.memory.dosMemPool.chunks, q.start = t.base + t.size → 16 * m + t.alignmentFix ≤ t.size + q.size) :
    Blocks.Inv g ⟨(dosResize seg m s.dosmem).2,
      if (dosResize seg m s.dosmem).1.isOk then setParagraphs seg m s.blocks else s.blocks⟩ := by
  obtain ⟨⟨⟨high, dos⟩, ts⟩, bs⟩ := s
  have hperm := find_perm hfind
  have hmem : t ∈ ts := List.mem_of_find?_eq_some hfind
  obtain ⟨b, hb⟩ := exists_tracked h.tracked hmem
  have hlow := region_low g h.dos (List.mem_map_of_mem hmem)
  simp only [DosmemTrack.region, stop] at hlow
  have hsize : word (word (m * 16) + t.alignmentFix) = 16 * m + t.alignmentFix := by
    simp only [word]
    omega
  have hdvd : 8 ∣ 16 * m + t.alignmentFix := by
    have hplace := hb.place
    omega
  have hrun := inv_poolResize (inv_perm h.dos (hperm.map DosmemTrack.region)) hb.dvd hdvd hpos (by omega) (by omega) hfits
  simp only [dosResize, hfind, dosmemResize, Kernel.Memory.onDos, hsize]
  rcases hrun with ⟨hno, hinv⟩ | ⟨hyes, hinv⟩
  · rw [if_neg hno]
    exact ⟨h.high, inv_perm hinv (hperm.map DosmemTrack.region).symm, h.tracked⟩
  · rw [if_pos hyes]
    refine ⟨?_, inv_perm hinv ?_, tracked_set h.tracked hfind rfl⟩
    · have hheader := setSize_header seg (16 * m + t.alignmentFix) ts
      change Session.Inv g.high ⟨high, (setSize seg (16 * m + t.alignmentFix) ts).map DosmemTrack.header⟩
      rw [hheader]
      exact h.high
    · exact ((setSize_perm (16 * m + t.alignmentFix) hfind).map DosmemTrack.region).symm

theorem step_inv {req : DosRequest} (h : s.Inv g) (hwords : req.Words) (hfits : req.Fits s)
    (hstep : Blocks.step req s = some s') : s'.Inv g := by
  cases req with
  | alloc size =>
    obtain ⟨r, d, hrun, hinv⟩ := dosAlloc_inv h hwords hfits.1 hfits.2
    simp only [Blocks.step, hrun, Option.map_some, Option.some.injEq] at hstep
    exact hstep ▸ hinv
  | resize seg m =>
    simp only [Blocks.step, Option.some.injEq] at hstep
    subst hstep
    cases hfind : s.dosmem.find seg with
    | none =>
      have hrun : dosResize seg m s.dosmem = (.error .efault, s.dosmem) := by rw [dosResize, hfind]
      rw [hrun]
      exact h
    | some t =>
      obtain ⟨hpos, hlt, hgrow⟩ := hfits t hfind
      exact dosResize_inv h hfind hpos hlt hgrow
  | free seg =>
    cases hfind : s.dosmem.find seg with
    | none =>
      simp only [Blocks.step, dosFree, hfind, Option.map_some, Option.some.injEq] at hstep
      exact hstep ▸ h
    | some t =>
      obtain ⟨d, hrun, hinv, -⟩ := dosFree_inv h hfind
      simp only [Blocks.step, hrun, Option.map_some, Option.some.injEq] at hstep
      exact hstep ▸ hinv

theorem starts_inv (h : g.Starts s) : s.Inv g := by
  obtain ⟨high, dos, hhigh, hdos, rfl⟩ := h
  exact ⟨giveAll_inv g.givenHigh hhigh, giveAll_inv g.givenDos hdos, .nil⟩

theorem Blocks.Inv.safe (h : s.Inv g) : s.Safe g where
  reserved b hb := by
    obtain ⟨t, hfind⟩ := tracked_find h.tracked hb
    have hmem : t.region ∈ s.dosmem.tracks.map DosmemTrack.region := List.mem_map_of_mem (List.mem_of_find?_eq_some hfind)
    have htracked := tracked_of_find h.tracked h.distinct hb hfind
    refine ⟨t, hfind, fun x => htracked.has, fun x hx => ⟨h.dos.takenGiven _ hmem x hx, fun hfree => ?_⟩⟩
    exact h.dos.takenNotFree _ hmem x hfree hx
  disjoint := tracked_apart h.tracked (List.pairwise_map.mp h.dos.disjoint)
  distinct := by
    rw [tracked_seg h.tracked]
    exact h.distinct
  frees b hb t hfind := by
    obtain ⟨d, hrun, -, hcovers⟩ := dosFree_inv h hfind
    exact ⟨d, hrun, hcovers⟩

/-- In a run whose every request fits, the blocks of DOS memory stay safe. -/
theorem dosRun_safe {s₀ : Blocks} (hstart : g.Starts s₀)
    (h : Reach Blocks.step (fun s req => req.Words ∧ req.Fits s) s₀ s) : s.Safe g := by
  have hinv : s.Inv g := by
    apply h.invariant (Blocks.Inv g) (starts_inv hstart)
    intro s req s' hs hok hstep
    exact step_inv hs hok.1 hok.2 hstep
  exact hinv.safe

def bootGiven : DosGiven where
  high := [⟨0x100000, 0x1000⟩]
  dos := [⟨0x500, 0x9FB00⟩]
  givenHigh := ⟨by simpa using ⟨by decide, by decide⟩, List.pairwise_singleton _ _⟩
  givenDos := ⟨by simpa using ⟨by decide, by decide⟩, List.pairwise_singleton _ _⟩
  low := by simp [stop]

def bootBlocks : Blocks where
  dosmem := {
    memory := { highMemPool := { size := 0x1000, chunks := [⟨0x100000, 0x1000⟩] },
                dosMemPool := { size := 0x9FB00, chunks := [⟨0x500, 0x9FB00⟩] } }
    tracks := [] }
  blocks := []

theorem bootBlocks_starts : bootGiven.Starts bootBlocks := ⟨_, _, rfl, rfl, rfl⟩

/-- A block is allocated, and grows. -/
def grownBlocks : Blocks where
  dosmem := {
    memory := { highMemPool := { size := 0xFF0, chunks := [⟨0x100010, 0xFF0⟩] },
                dosMemPool := { size := 0x9FA00, chunks := [⟨0x700, 0x9F900⟩] } }
    tracks := [⟨0x100000, 0x500, 0x200, 0, 0x50⟩] }
  blocks := [⟨0x50, 0x20⟩]

theorem grownBlocks_safe : grownBlocks.Safe bootGiven := by
  apply dosRun_safe bootBlocks_starts
  apply Reach.next (.next .start (.alloc 0x10) ?_ rfl) (.resize 0x50 0x20) ?_ rfl
  · exact ⟨by decide, by decide, _, List.mem_cons_self, by decide⟩
  · refine ⟨by decide, fun t ht => ?_⟩
    cases ht
    exact ⟨by decide, by decide, by decide⟩

/-- A block of no paragraphs has the same segment as the next one, and one of 64 KiB is resized to nothing. -/
theorem dosRun_unsafe :
    (∃ s, Reach Blocks.step (fun _ req => req.Words) bootBlocks s ∧ ¬s.Safe bootGiven ∧
      s.blocks = [⟨0x50, 0x10⟩, ⟨0x50, 0⟩]) ∧
    ∃ s, Reach Blocks.step (fun _ req => req.Words) bootBlocks s ∧ ¬s.Safe bootGiven ∧
      s.blocks = [⟨0x50, 0x1000⟩] ∧ s.dosmem.tracks.map DosmemTrack.size = [0] := by
  refine ⟨⟨_, .next (.next .start (.alloc 0) (by decide) rfl) (.alloc 0x10) (by decide) rfl, fun h => ?_, rfl⟩,
    ⟨_, .next (.next .start (.alloc 0x10) (by decide) rfl) (.resize 0x50 0x1000) ⟨by decide, by decide⟩ rfl, fun h => ?_,
      rfl, rfl⟩⟩
  · exact absurd h.distinct (by decide)
  · obtain ⟨t, hfind, hin, -⟩ := h.reserved ⟨0x50, 0x1000⟩ List.mem_cons_self
    cases hfind
    exact absurd (hin 0x500 (by decide)) (by decide)

end Steps

end FreeDos32.Dpmi
