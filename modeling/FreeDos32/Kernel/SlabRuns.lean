import FreeDos32.Kernel.PmmOrder
import FreeDos32.Kernel.Slabmem
import FreeDos32.Library.Count
import Mathlib.Data.List.Pairwise

namespace FreeDos32.Kernel

open Span

/-- A cache with the objects that its clients have and the pages that it has got. -/
structure SlabUse where
  slab : Slabmem
  live : List ℕ
  pages : List ℕ

inductive SlabRequest where
  | alloc
  | free (obj : ℕ)
  | write (a : ℕ) (b : BitVec 8)

namespace SlabUse

def objSize (s : SlabUse) : ℕ := s.slab.cache.objSize

/-- The bytes of an object. -/
def span (s : SlabUse) (obj : ℕ) : Span := ⟨obj, s.objSize⟩

def step : SlabRequest → SlabUse → Option SlabUse
  | .alloc, s =>
    let (obj, slab) := slabmemAlloc s.slab
    some { slab, live := if obj = 0 then s.live else obj :: s.live,
           pages := if s.slab.cache.freeObjs = 0 ∧ obj ≠ 0 then obj :: s.pages else s.pages }
  | .free obj, s => some { s with slab := slabmemFree obj s.slab, live := s.live.erase obj }
  | .write a b, s => some { s with slab := { s.slab with bytes := storeByte s.slab.bytes a b } }

/-- Only live objects are freed or written to. -/
def Allowed (s : SlabUse) : SlabRequest → Prop
  | .alloc => True
  | .free obj => obj ∈ s.live
  | .write a _ => ∃ obj ∈ s.live, (s.span obj).Has a

/-- A new cache, whatever the bytes of the memory are. -/
def start (objSize : ℕ) (bytes : Bytes) (memory : Memory) : SlabUse where
  slab := { cache := slabmemCreate objSize, bytes, memory }
  live := []
  pages := []

/-- The bytes of a page. -/
def page (p : ℕ) : Span := ⟨p, slabPageSize⟩

structure Safe (s : SlabUse) : Prop where
  disjoint : s.live.Pairwise fun o o' => Apart (s.span o) (s.span o')
  inside : ∀ o ∈ s.live, ∃ p ∈ s.pages, p ≤ o ∧ o + s.objSize ≤ p + 4092
  links : ∀ o ∈ s.live, ∀ p ∈ s.pages, Apart (s.span o) ⟨p + 4092, 4⟩
  nodup : s.pages.Nodup
  destroys : ∃ slab, slabmemDestroy s.slab = some (s.pages, slab) ∧ ∀ x, Covers slab.memory.highMemPool.chunks x ↔
    Covers s.slab.memory.highMemPool.chunks x ∨ ∃ p ∈ s.pages, (page p).Has x

/-- `Safe`, with what keeps it so: the two lists are threaded through the pages and through the objects that are not live. -/
structure Inv (s : SlabUse) (free : List ℕ) : Prop where
  listed : Listed s.slab.memory.highMemPool.chunks
  four_le : 4 ≤ s.objSize
  size_le : s.objSize ≤ 4092
  pageLinks : Path (linkAt s.slab.bytes 4092) (pointer s.slab.cache.pages) s.pages none
  freeLinks : Path (linkAt s.slab.bytes 0) (pointer s.slab.cache.freeObjs) free none
  pageOk : ∀ p ∈ s.pages, 0 < p ∧ p + 4096 < 2 ^ 32
  apart : s.pages.Pairwise fun p q => p + 4096 ≤ q ∨ q + 4096 ≤ p
  owned : ∀ p ∈ s.pages, ∀ x, Covers s.slab.memory.highMemPool.chunks x → ¬(page p).Has x
  slot : ∀ o ∈ s.live ++ free, ∃ p ∈ s.pages, o ∈ slots s.objSize (4092 / s.objSize) p
  nodup : (s.live ++ free).Nodup

variable {s s' : SlabUse} {free : List ℕ} {n k p q o o' a : ℕ}

theorem slots_bounds (h : o ∈ slots n (4092 / n) p) : p ≤ o ∧ o + n ≤ p + 4092 := by
  obtain ⟨k, hk, rfl⟩ := mem_slots.mp h
  have hle : (k + 1) * n ≤ 4092 := Nat.le_trans (Nat.mul_le_mul_right n hk) (Nat.div_mul_le_self 4092 n)
  rw [Nat.succ_mul] at hle
  omega

theorem slots_apart (h : o ∈ slots n k p) (h' : o' ∈ slots n k p) (hne : o ≠ o') : o + n ≤ o' ∨ o' + n ≤ o := by
  obtain ⟨i, -, rfl⟩ := mem_slots.mp h
  obtain ⟨j, -, rfl⟩ := mem_slots.mp h'
  rcases Nat.lt_trichotomy i j with hlt | rfl | hlt
  · have hle := Nat.mul_le_mul_right n hlt
    rw [Nat.succ_mul] at hle
    omega
  · exact absurd rfl hne
  · have hle := Nat.mul_le_mul_right n hlt
    rw [Nat.succ_mul] at hle
    omega

theorem addPage_links {t : Slabmem} (memory : Memory) (hpos : 0 < p) (hsize : 4 ≤ t.cache.objSize)
    (hle : t.cache.objSize ≤ 4092) (hend : p + 4096 < 2 ^ 32) (hold : t.cache.pages < 2 ^ 32) :
    Path (linkAt (addPage p memory t).bytes 0) (some p) (slots t.cache.objSize (4092 / t.cache.objSize) p) none ∧
      loadWord (addPage p memory t).bytes (p + 4092) = t.cache.pages ∧
      ∀ a, a + 4 ≤ p ∨ p + 4096 ≤ a → a + 4 ≤ 2 ^ 32 → loadWord (addPage p memory t).bytes a = loadWord t.bytes a := by
  have hcount : 0 < 4092 / t.cache.objSize := Nat.div_pos hle (by omega)
  have hdiv : 4092 / t.cache.objSize ≤ 4092 := Nat.div_le_self _ _
  obtain ⟨count, hn⟩ := Nat.exists_eq_add_of_le' hcount
  have hval : slabPageSize - pointerSize = 4092 := rfl
  have hsub : dsub ((slabPageSize - pointerSize) / t.cache.objSize) 1 = count := by
    rw [hval, hn, dsub_of_le (Nat.le_add_left 1 count) (by omega), Nat.add_sub_cancel]
  have hfit : (count + 1) * t.cache.objSize ≤ 4092 := hn ▸ Nat.div_mul_le_self 4092 t.cache.objSize
  rw [Nat.succ_mul] at hfit
  obtain ⟨hobj, hlinks, hframe⟩ := @linkObjs_spec t.bytes t.cache.objSize count p hsize (by omega)
  have hbytes : (addPage p memory t).bytes = storeWord (storeWord (linkObjs t.cache.objSize count p t.bytes).2
      (p + count * t.cache.objSize) 0) (p + 4092) t.cache.pages := by
    rw [addPage_bytes memory t (congrArg (fun n => linkObjs t.cache.objSize n p t.bytes) hsub), hobj, hval]
  rw [hbytes]
  refine ⟨?_, loadWord_storeWord_self hold, fun a ha hlt => ?_⟩
  · rw [hn]
    apply path_slots hpos
    · intro k hk
      have hmul := Nat.mul_le_mul_right t.cache.objSize hk
      rw [Nat.succ_mul] at hmul
      rw [loadWord_storeWord_of_apart (by omega) (by omega) (by omega),
        loadWord_storeWord_of_apart (by omega) (by omega) (by omega)]
      exact hlinks k hk
    · rw [loadWord_storeWord_of_apart (by omega) (by omega) (by omega)]
      exact loadWord_storeWord_self (by decide)
  · rw [loadWord_storeWord_of_apart (by omega) hlt (by omega), loadWord_storeWord_of_apart (by omega) hlt (by omega)]
    exact hframe a (by omega) hlt

theorem step_alloc (s : SlabUse) : step .alloc s = some ⟨(slabmemAlloc s.slab).2,
    if (slabmemAlloc s.slab).1 = 0 then s.live else (slabmemAlloc s.slab).1 :: s.live,
    if s.slab.cache.freeObjs = 0 ∧ (slabmemAlloc s.slab).1 ≠ 0 then (slabmemAlloc s.slab).1 :: s.pages else s.pages⟩ := rfl

namespace Inv

theorem pages_apart (h : s.Inv free) (hp : p ∈ s.pages) (hq : q ∈ s.pages) (hne : p ≠ q) :
    p + 4096 ≤ q ∨ q + 4096 ≤ p := by
  have hsymm : Std.Symm fun p q : ℕ => p + 4096 ≤ q ∨ q + 4096 ≤ p := ⟨fun _ _ h => h.symm⟩
  exact h.apart.forall hp hq hne

theorem bounds (h : s.Inv free) (ho : o ∈ s.live ++ free) :
    ∃ p ∈ s.pages, 0 < p ∧ p ≤ o ∧ o + s.objSize ≤ p + 4092 ∧ p + 4096 < 2 ^ 32 := by
  obtain ⟨p, hp, hslot⟩ := h.slot o ho
  obtain ⟨hle, hend⟩ := slots_bounds hslot
  obtain ⟨hpos, hlt⟩ := h.pageOk p hp
  exact ⟨p, hp, hpos, hle, hend, hlt⟩

theorem objects_apart (h : s.Inv free) (ho : o ∈ s.live ++ free) (ho' : o' ∈ s.live ++ free) (hne : o ≠ o') :
    o + s.objSize ≤ o' ∨ o' + s.objSize ≤ o := by
  obtain ⟨p, hp, hslot⟩ := h.slot o ho
  obtain ⟨q, hq, hslot'⟩ := h.slot o' ho'
  by_cases hpq : p = q
  · subst hpq
    exact slots_apart hslot hslot' hne
  · have hapart := h.pages_apart hp hq hpq
    have hb := slots_bounds hslot
    have hb' := slots_bounds hslot'
    omega

theorem link_apart (h : s.Inv free) (ho : o ∈ s.live ++ free) (hq : q ∈ s.pages) :
    o + s.objSize ≤ q + 4092 ∨ q + 4096 ≤ o := by
  obtain ⟨p, hp, hslot⟩ := h.slot o ho
  have hb := slots_bounds hslot
  by_cases hpq : p = q
  · subst hpq
    omega
  · have hapart := h.pages_apart hp hq hpq
    omega

/-- Words outside of the two lists may change. -/
theorem frame {m : Bytes} (h : s.Inv free) (hpages : ∀ p ∈ s.pages, loadWord m (p + 4092) = loadWord s.slab.bytes (p + 4092))
    (hfree : ∀ o ∈ free, loadWord m o = loadWord s.slab.bytes o) :
    Path (linkAt m 4092) (pointer s.slab.cache.pages) s.pages none ∧
      Path (linkAt m 0) (pointer s.slab.cache.freeObjs) free none := by
  constructor
  · apply h.pageLinks.congr
    intro p hp
    rw [linkAt, hpages p hp, linkAt]
  · apply h.freeLinks.congr
    intro o ho
    rw [linkAt, Nat.add_zero, hfree o ho, linkAt, Nat.add_zero]

theorem written (h : s.Inv free) (b : BitVec 8) (ho : o ∈ s.live) (ha : (s.span o).Has a) :
    Inv { s with slab := { s.slab with bytes := storeByte s.slab.bytes a b } } free := by
  have hmem := List.mem_append_left free ho
  obtain ⟨p, hp, hpos, hle, hend, hlt⟩ := h.bounds hmem
  simp only [Has, stop, span] at ha
  have hframe : ∀ c, (c + 4 ≤ o ∨ o + s.objSize ≤ c) → c + 4 ≤ 2 ^ 32 →
      loadWord (storeByte s.slab.bytes a b) c = loadWord s.slab.bytes c := by
    intro c hc hc'
    exact loadWord_storeByte (by omega) hc' (by omega)
  obtain ⟨hpages, hfree⟩ := h.frame (fun q hq => hframe _ (by have := h.link_apart hmem hq; omega) (by
      have := (h.pageOk q hq).2
      omega)) fun o' ho' => by
    have hne : o ≠ o' := fun he => (List.nodup_append.mp h.nodup).2.2 o ho o' ho' he
    have hmem' := List.mem_append_right s.live ho'
    have hapart := h.objects_apart hmem hmem' hne
    have hfour := h.four_le
    obtain ⟨q, hq, -, -, hend', hlt'⟩ := h.bounds hmem'
    exact hframe o' (by omega) (by omega)
  exact { h with pageLinks := hpages, freeLinks := hfree }

theorem freeObjs_lt (h : s.Inv free) : s.slab.cache.freeObjs < 2 ^ 32 := by
  rcases pointer_path h.freeLinks with ⟨h0, -⟩ | hmem
  · rw [h0]
    decide
  · obtain ⟨p, -, -, -, hend, hlt⟩ := h.bounds (List.mem_append_right s.live hmem)
    omega

theorem freed (h : s.Inv free) (ho : o ∈ s.live) :
    Inv { s with slab := slabmemFree o s.slab, live := s.live.erase o } (o :: free) := by
  have hmem := List.mem_append_left free ho
  obtain ⟨p, hp, hpos, hle, hend, hlt⟩ := h.bounds hmem
  have hfour := h.four_le
  have hperm : (s.live.erase o ++ o :: free).Perm (s.live ++ free) := by
    apply List.perm_middle.trans
    exact (List.perm_cons_erase ho).symm.append_right free
  have hframe : ∀ c, (c + 4 ≤ o ∨ o + s.objSize ≤ c) → c + 4 ≤ 2 ^ 32 →
      loadWord (storeWord s.slab.bytes o s.slab.cache.freeObjs) c = loadWord s.slab.bytes c := by
    intro c hc hc'
    exact loadWord_storeWord_of_apart (by omega) hc' (by omega)
  have hpages : ∀ q ∈ s.pages, loadWord (storeWord s.slab.bytes o s.slab.cache.freeObjs) (q + 4092) =
      loadWord s.slab.bytes (q + 4092) := by
    intro q hq
    have hapart := h.link_apart hmem hq
    have hok := (h.pageOk q hq).2
    exact hframe _ (by omega) (by omega)
  have hfree : ∀ o' ∈ free, loadWord (storeWord s.slab.bytes o s.slab.cache.freeObjs) o' = loadWord s.slab.bytes o' := by
    intro o' ho'
    have hne : o ≠ o' := (List.nodup_append.mp h.nodup).2.2 o ho o' ho'
    have hmem' := List.mem_append_right s.live ho'
    have hapart := h.objects_apart hmem hmem' hne
    obtain ⟨q, hq, -, -, hend', hlt'⟩ := h.bounds hmem'
    exact hframe o' (by omega) (by omega)
  obtain ⟨hpageLinks, hfreeLinks⟩ := h.frame hpages hfree
  have hhead : linkAt (storeWord s.slab.bytes o s.slab.cache.freeObjs) 0 o = pointer s.slab.cache.freeObjs := by
    rw [linkAt, Nat.add_zero, loadWord_storeWord_self h.freeObjs_lt]
  refine { h with pageLinks := hpageLinks, freeLinks := ?_, slot := ?_, nodup := ?_ }
  · refine ⟨pointer_pos (Nat.lt_of_lt_of_le hpos hle), ?_⟩
    simp only [slabmemFree]
    rw [hhead]
    exact hfreeLinks
  · intro o' ho'
    exact h.slot o' (hperm.mem_iff.mp ho')
  · exact hperm.nodup_iff.mpr h.nodup

theorem taken {t : Slabmem} {live pages : List ℕ} (h : Inv ⟨t, live, pages⟩ free) (hne : t.cache.freeObjs ≠ 0) :
    ∃ free', Inv ⟨(takeFree t).2, (takeFree t).1 :: live, pages⟩ free' := by
  cases free with
  | nil => exact absurd (pointer_path h.freeLinks) (by simp [hne])
  | cons o free' =>
    obtain ⟨hhead, hrest⟩ := h.freeLinks
    obtain rfl := pointer_eq_some hhead
    have hperm : (t.cache.freeObjs :: live ++ free').Perm (live ++ t.cache.freeObjs :: free') := List.perm_middle.symm
    refine ⟨free', { h with freeLinks := hrest, slot := ?_, nodup := ?_ }⟩
    · intro o' ho'
      exact h.slot o' (hperm.mem_iff.mp ho')
    · exact hperm.nodup_iff.mpr h.nodup

theorem pages_lt (h : s.Inv free) : s.slab.cache.pages < 2 ^ 32 := by
  rcases pointer_path h.pageLinks with ⟨h0, -⟩ | hmem
  · rw [h0]
    decide
  · have := (h.pageOk _ hmem).2
    omega

theorem added {memory : Memory} {c : Chunk} (h : s.Inv [])
    (hcarved : Carved (page p) c s.slab.memory.highMemPool.chunks memory.highMemPool.chunks) :
    Inv ⟨addPage p memory s.slab, s.live, p :: s.pages⟩ (slots s.objSize (4092 / s.objSize) p) := by
  have hpage : ∀ x, (page p).Has x → Covers s.slab.memory.highMemPool.chunks x := fun x hx => hcarved.within hx
  have hend : p + 4096 < 2 ^ 32 := hcarved.stop_lt h.listed
  have hnew : ∀ q ∈ s.pages, p + 4096 ≤ q ∨ q + 4096 ≤ p := by
    intro q hq
    have happart : Apart (page q) (page p) := fun x hx hx' => h.owned q hq x (hpage x hx') hx
    have := happart.stop_le (Nat.succ_pos _) (Nat.succ_pos _)
    simp only [stop, page, slabPageSize] at this
    omega
  have hpos : 0 < p := by
    obtain ⟨c', hc', hle', -⟩ := hpage p (has_start (Nat.succ_pos _))
    exact Nat.lt_of_lt_of_le (h.listed.ok c' hc').start_pos hle'
  obtain ⟨hpath, hlink, hframe⟩ := addPage_links memory hpos h.four_le h.size_le hend h.pages_lt
  have hlive : ∀ o ∈ s.live, o ∉ slots s.objSize (4092 / s.objSize) p := by
    intro o ho hslot
    obtain ⟨q, hq, -, hqo, hend', -⟩ := h.bounds (List.mem_append_left [] ho)
    have hb := slots_bounds hslot
    have hap := hnew q hq
    omega
  refine ⟨hcarved.listed h.listed, h.four_le, h.size_le, ?_, ?_, ?_, ?_, ?_, ?_, ?_⟩
  · have hnext : linkAt (addPage p memory s.slab).bytes 4092 p = pointer s.slab.cache.pages := congrArg pointer hlink
    refine ⟨pointer_pos hpos, ?_⟩
    dsimp only
    rw [hnext]
    apply h.pageLinks.congr
    intro q hq
    have hap := hnew q hq
    have hok := (h.pageOk q hq).2
    rw [linkAt, hframe _ (by omega) (by omega), linkAt]
  · have hfirst : pointer (addPage p memory s.slab).cache.freeObjs = some p := pointer_pos hpos
    dsimp only
    rw [hfirst]
    exact hpath
  · exact List.forall_mem_cons.mpr ⟨⟨hpos, hend⟩, h.pageOk⟩
  · exact List.pairwise_cons.mpr ⟨hnew, h.apart⟩
  · intro q hq x hx
    rcases List.mem_cons.mp hq with rfl | hq
    · exact hcarved.not_has h.listed hx
    · exact h.owned q hq x (hcarved.covers hx)
  · intro o ho
    rcases List.mem_append.mp ho with ho | ho
    · obtain ⟨q, hq, hslot⟩ := h.slot o (List.mem_append_left [] ho)
      exact ⟨q, List.mem_cons_of_mem p hq, hslot⟩
    · exact ⟨p, List.mem_cons_self, ho⟩
  · have hnodup := h.nodup
    rw [List.append_nil] at hnodup
    apply List.nodup_append.mpr
    refine ⟨hnodup, slots_nodup (Nat.lt_of_lt_of_le (by decide) h.four_le), ?_⟩
    rintro o ho o' ho' rfl
    exact hlive o ho ho'

theorem allocated (h : s.Inv free) (hstep : step .alloc s = some s') : ∃ free', s'.Inv free' := by
  obtain ⟨slab, live, pages⟩ := s
  rw [step_alloc] at hstep
  obtain rfl := Option.some.inj hstep
  dsimp only
  by_cases hnone : slab.cache.freeObjs = 0
  · rcases pointer_path h.freeLinks with ⟨-, rfl⟩ | hmem
    · by_cases hp : (memGet slabPageSize slab.memory).1 = 0
      · have hsame := memGet_refused h.listed hp
        have hrun : slabmemAlloc slab = (0, slab) := by
          rw [slabmemAlloc, if_pos hnone]
          simp only [hp, if_true, hsame]
        rw [hrun, if_pos rfl, if_neg fun hand => hand.2 rfl]
        exact ⟨[], h⟩
      · obtain ⟨c, hcarved⟩ := memGet_carved h.listed hp
        have hrun : slabmemAlloc slab = takeFree (addPage (memGet slabPageSize slab.memory).1
            (memGet slabPageSize slab.memory).2 slab) := by
          rw [slabmemAlloc, if_pos hnone]
          exact if_neg hp
        have hobj : (slabmemAlloc slab).1 = (memGet slabPageSize slab.memory).1 := by rw [hrun]; rfl
        rw [hobj, if_neg hp, if_pos ⟨hnone, hp⟩, hrun]
        exact (h.added hcarved).taken hp
    · obtain ⟨p, -, hpos, hle', -⟩ := h.bounds (List.mem_append_right live hmem)
      have hzero : p ≤ 0 := hnone ▸ hle'
      omega
  · have hrun : slabmemAlloc slab = takeFree slab := if_neg hnone
    have hobj : (takeFree slab).1 ≠ 0 := hnone
    rw [hrun, if_neg hobj, if_neg fun hand => hnone hand.1]
    exact h.taken hnone

theorem stepped {req : SlabRequest} (h : s.Inv free) (hok : s.Allowed req) (hstep : step req s = some s') :
    ∃ free', s'.Inv free' := by
  cases req with
  | alloc => exact h.allocated hstep
  | free obj =>
    obtain rfl := Option.some.inj hstep
    exact ⟨_, h.freed hok⟩
  | write a b =>
    obtain rfl := Option.some.inj hstep
    obtain ⟨o, ho, ha⟩ := hok
    exact ⟨_, h.written b ho ha⟩

end Inv

theorem releasePages_path {bytes : Bytes} {l : List ℕ} {bound a : ℕ} {memory memory' : Memory}
    (hpath : Path (linkAt bytes 4092) (pointer a) l none) (hbound : l.length ≤ bound)
    (hgive : giveAll memory.highMemPool (l.map page) = some memory'.highMemPool) (hdos : memory'.dosMemPool = memory.dosMemPool) :
    releasePages bytes bound a memory = some (l, memory') := by
  induction l generalizing a bound memory with
  | nil =>
    have ha : a = 0 := (pointer_path hpath).elim And.left fun hmem => absurd hmem List.not_mem_nil
    have hsame : memory' = memory := by
      obtain ⟨high, dos⟩ := memory
      obtain ⟨high', dos'⟩ := memory'
      obtain rfl := Option.some.inj hgive
      exact congrArg _ hdos
    rw [ha, hsame]
    cases bound <;> rfl
  | cons p l ih =>
    obtain ⟨hhead, hrest⟩ := hpath
    have hne : a ≠ 0 := by
      rintro rfl
      cases hhead
    obtain rfl := pointer_eq_some hhead
    obtain ⟨bound, rfl⟩ := Nat.exists_eq_add_of_le' (Nat.lt_of_lt_of_le (Nat.succ_pos _) hbound)
    obtain ⟨pool, hfree, hgive⟩ := Option.bind_eq_some_iff.mp hgive
    have hmem : memFree a slabPageSize memory = some { memory with highMemPool := pool } := congrArg (Option.map _) hfree
    have hih : releasePages bytes bound (loadWord bytes (a + 4092)) { memory with highMemPool := pool } = some (l, memory') :=
      ih hrest (Nat.le_of_succ_le_succ hbound) hgive hdos
    rw [releasePages, if_neg hne, hmem, Option.bind_some]
    exact congrArg (Option.map _) hih

theorem Inv.safe (h : s.Inv free) : s.Safe where
  disjoint := by
    have hnodup := (List.nodup_append.mp h.nodup).1
    apply List.Pairwise.imp_of_mem _ hnodup
    intro o o' ho ho' hne
    have hapart := h.objects_apart (List.mem_append_left free ho) (List.mem_append_left free ho') hne
    rcases hapart with hlt | hlt
    · exact apart_of_stop_le hlt
    · exact Apart.symm (apart_of_stop_le hlt)
  inside o ho := by
    obtain ⟨p, hp, -, hle, hend, -⟩ := h.bounds (List.mem_append_left free ho)
    exact ⟨p, hp, hle, hend⟩
  links o ho p hp := by
    rcases h.link_apart (List.mem_append_left free ho) hp with hlt | hlt
    · exact apart_of_stop_le hlt
    · exact Apart.symm (apart_of_stop_le hlt)
  nodup := h.apart.imp fun hpq => by omega
  destroys := by
    have hregion : ∀ r ∈ s.pages.map page, RegionOk r ∧ r.start ≠ 0 := by
      intro r hr
      obtain ⟨p, hp, rfl⟩ := List.mem_map.mp hr
      obtain ⟨hpos, hlt⟩ := h.pageOk p hp
      have hheader : headerSize ≤ slabPageSize := by decide
      exact ⟨⟨hheader, hlt⟩, Nat.ne_of_gt hpos⟩
    have hgiven : Given (s.pages.map page) := by
      refine ⟨fun r hr => (hregion r hr).1, List.pairwise_map.mpr (h.apart.imp ?_)⟩
      rintro p q (hpq | hpq)
      · exact apart_of_stop_le hpq
      · exact Apart.symm (apart_of_stop_le hpq)
    have howned : ∀ r ∈ s.pages.map page, ∀ x, Covers s.slab.memory.highMemPool.chunks x → ¬r.Has x := by
      intro r hr
      obtain ⟨p, hp, rfl⟩ := List.mem_map.mp hr
      exact h.owned p hp
    obtain ⟨pool, hgive⟩ := giveAll_isSome h.listed hgiven howned
    have hnodup : s.pages.Nodup := h.apart.imp fun hpq => by omega
    have hbound : s.pages.length ≤ 2 ^ 32 := length_le_of_lt hnodup fun p hp => Nat.lt_of_le_of_lt (Nat.le_add_right p 4096)
      (h.pageOk p hp).2
    have hrun : releasePages s.slab.bytes (2 ^ 32) s.slab.cache.pages s.slab.memory =
        some (s.pages, { s.slab.memory with highMemPool := pool }) := releasePages_path h.pageLinks hbound hgive rfl
    refine ⟨_, congrArg (Option.map _) hrun, fun x => ?_⟩
    rw [giveAll_joined h.listed hregion hgive]
    simp [Covers]

theorem start_inv {objSize : ℕ} {bytes : Bytes} {memory : Memory} (hl : Listed memory.highMemPool.chunks) (hsize : 4 ≤ objSize)
    (hle : objSize ≤ 4092) : (start objSize bytes memory).Inv [] where
  listed := hl
  four_le := hsize
  size_le := hle
  pageLinks := rfl
  freeLinks := rfl
  pageOk _ hp := absurd hp List.not_mem_nil
  apart := List.Pairwise.nil
  owned _ hp := absurd hp List.not_mem_nil
  slot _ ho := absurd ho List.not_mem_nil
  nodup := List.nodup_nil

theorem slabRun_safe {objSize : ℕ} {bytes : Bytes} {memory : Memory} (hl : Listed memory.highMemPool.chunks)
    (hsize : 4 ≤ objSize) (hle : objSize ≤ 4092) (h : Reach step Allowed (start objSize bytes memory) s) : s.Safe := by
  have hinv : ∃ free, s.Inv free := by
    apply h.invariant (fun s => ∃ free, Inv s free) ⟨[], start_inv hl hsize hle⟩
    rintro s req s' ⟨free, hs⟩ hok hstep
    exact hs.stepped hok hstep
  obtain ⟨free, hs⟩ := hinv
  exact hs.safe

section Sample

def sampleMemory : Memory where
  highMemPool := { size := 0x3000, chunks := [⟨0x100000, 0x3000⟩] }
  dosMemPool := { size := 0, chunks := [] }

/-- A cache of objects of 1000 bytes. -/
def sampleUse : SlabUse := start 1000 (fun _ => 0xAA) sampleMemory

def sampleWritten : SlabUse where
  slab := { (slabmemAlloc sampleUse.slab).2 with
    bytes := storeByte (slabmemAlloc sampleUse.slab).2.bytes 0x100003 0x55 }
  live := [0x100000]
  pages := [0x100000]

theorem sampleUse_alloc : (slabmemAlloc sampleUse.slab).1 = 0x100000 := rfl

theorem sampleUse_step : step .alloc sampleUse = some ⟨(slabmemAlloc sampleUse.slab).2, [0x100000], [0x100000]⟩ := by
  rw [step_alloc, sampleUse_alloc]
  rfl

theorem slabRun_safe_sample : Safe sampleWritten := by
  have hok : ChunkOk ⟨0x100000, 0x3000⟩ := ⟨by decide, by decide, by decide⟩
  have hl : Listed sampleMemory.highMemPool.chunks := ⟨List.pairwise_singleton _ _, by simpa [sampleMemory] using hok⟩
  have hrun : Reach step Allowed sampleUse sampleWritten := by
    apply Reach.next (.next .start .alloc trivial sampleUse_step) (.write 0x100003 0x55) _ rfl
    refine ⟨0x100000, List.mem_cons_self, ?_⟩
    show 0x100000 ≤ 0x100003 ∧ 0x100003 < 0x100000 + 1000
    decide
  exact slabRun_safe hl (by decide : 4 ≤ 1000) (by decide) hrun

end Sample

end SlabUse

end FreeDos32.Kernel
