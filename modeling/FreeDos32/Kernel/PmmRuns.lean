import FreeDos32.Kernel.FreeList
import Mathlib.Data.List.Perm.Basic

namespace FreeDos32.Kernel

open Span

inductive PmmRequest where
  | alloc (size : ℕ)
  | allocAddress (base size : ℕ)
  | allocFrom (base size : ℕ)
  | resize (base oldsize newsize : ℕ)
  | free (base size : ℕ)
  deriving DecidableEq

/-- The pool and the regions that its callers hold. -/
structure Session where
  pool : Mempool
  taken : List Chunk
  deriving DecidableEq

namespace Session

/-- A caller holds a region until it frees it; `none` stands for `fd32_abort`. -/
def step (s : Session) : PmmRequest → Option Session
  | .alloc size =>
    let (start, pool) := pmmAlloc s.pool size
    some { pool, taken := if start = 0 then s.taken else ⟨start, size⟩ :: s.taken }
  | .allocAddress base size =>
    let (res, pool) := pmmAllocAddress s.pool base size
    some { pool, taken := if res = 1 then ⟨base, size⟩ :: s.taken else s.taken }
  | .allocFrom base size =>
    let (start, pool) := pmmAllocFrom s.pool base size
    some { pool, taken := if start = 0 then s.taken else ⟨start, size⟩ :: s.taken }
  | .resize base oldsize newsize =>
    let (res, pool) := pmmResize s.pool base oldsize newsize
    some { pool, taken := if res = 0 then s.taken else ⟨base, newsize⟩ :: s.taken.erase ⟨base, oldsize⟩ }
  | .free base size =>
    (pmmFree s.pool base size).map fun pool => { pool, taken := s.taken.erase ⟨base, size⟩ }

end Session

def giveAll (mp : Mempool) : List Chunk → Option Mempool
  | [] => some mp
  | r :: rest => (pmmFree mp r.start r.size).bind fun mp' => giveAll mp' rest

structure RegionOk (r : Chunk) : Prop where
  header : headerSize ≤ r.size
  stop_lt : r.stop < 2 ^ 32

/-- Memory that the pool is started with. -/
structure Given (given : List Chunk) : Prop where
  ok : ∀ r ∈ given, RegionOk r
  apart : given.Pairwise Apart

/-- The sizes are those of `DWORD`s and hold a header; what is resized or freed was handed out. -/
def PmmRequest.Admissible (s : Session) : PmmRequest → Prop
  | .alloc size => headerSize ≤ size ∧ size < 2 ^ 32
  | .allocAddress base size => base < 2 ^ 32 ∧ headerSize ≤ size ∧ size < 2 ^ 32
  | .allocFrom base size => base < 2 ^ 32 ∧ headerSize ≤ size ∧ size < 2 ^ 32
  | .resize base oldsize newsize => ⟨base, oldsize⟩ ∈ s.taken ∧ headerSize ≤ newsize ∧ newsize < 2 ^ 32
  | .free base size => ⟨base, size⟩ ∈ s.taken

/-- The chunk that the loop stops at is large enough for the request. -/
def PmmRequest.Fits (mp : Mempool) : PmmRequest → Prop
  | .allocAddress base size => ∀ p ∈ mp.chunks.find? (addressTest base size), base + size ≤ p.stop
  | .allocFrom base size => ∀ p ∈ mp.chunks.find? (fromTest base size), size ≤ p.size
  | .resize base oldsize newsize => ∀ p ∈ mp.chunks, p.start = base + oldsize → newsize ≤ oldsize + p.size
  | _ => True

instance (s : Session) (req : PmmRequest) : Decidable (req.Admissible s) :=
  match req with
  | .alloc _ => inferInstanceAs (Decidable (_ ∧ _))
  | .allocAddress _ _ => inferInstanceAs (Decidable (_ ∧ _ ∧ _))
  | .allocFrom _ _ => inferInstanceAs (Decidable (_ ∧ _ ∧ _))
  | .resize _ _ _ => inferInstanceAs (Decidable (_ ∧ _ ∧ _))
  | .free base size => inferInstanceAs (Decidable ((⟨base, size⟩ : Chunk) ∈ s.taken))

instance (mp : Mempool) (req : PmmRequest) : Decidable (req.Fits mp) :=
  match req with
  | .alloc _ => inferInstanceAs (Decidable True)
  | .allocAddress base size =>
    inferInstanceAs (Decidable (∀ p ∈ mp.chunks.find? (addressTest base size), base + size ≤ p.stop))
  | .allocFrom base size => inferInstanceAs (Decidable (∀ p ∈ mp.chunks.find? (fromTest base size), size ≤ p.size))
  | .resize base oldsize newsize =>
    inferInstanceAs (Decidable (∀ p ∈ mp.chunks, p.start = base + oldsize → newsize ≤ oldsize + p.size))
  | .free _ _ => inferInstanceAs (Decidable True)

inductive PmmRun (Ok : Session → PmmRequest → Prop) (given : List Chunk) : Session → Prop
  | start {mp : Mempool} (h : giveAll pmmInit given = some mp) : PmmRun Ok given { pool := mp, taken := [] }
  | next {s s' : Session} (h : PmmRun Ok given s) (r : PmmRequest) (hok : Ok s r) (hstep : s.step r = some s') :
    PmmRun Ok given s'

/-- No memory is handed out twice, or handed out while it is free, or handed out without having been given. -/
structure Session.Safe (given : List Chunk) (s : Session) : Prop where
  nonWrapping : ∀ r ∈ s.taken, r.start + r.size < 2 ^ 32
  disjoint : s.taken.Pairwise Apart
  takenNotFree : ∀ r ∈ s.taken, ∀ p ∈ s.pool.chunks, Apart r p
  within : ∀ r ∈ s.taken, ∀ x, r.Has x → Covers given x
  ascending : s.pool.chunks.Pairwise fun p q => p.start < q.start
  chunksDisjoint : s.pool.chunks.Pairwise Apart

/-- `Safe`, with what keeps it so. -/
structure Session.Inv (given : List Chunk) (s : Session) : Prop where
  listed : Listed s.pool.chunks
  ok : ∀ r ∈ s.taken, RegionOk r
  disjoint : s.taken.Pairwise Apart
  takenNotFree : ∀ r ∈ s.taken, ∀ x, Covers s.pool.chunks x → ¬r.Has x
  freeGiven : ∀ x, Covers s.pool.chunks x → Covers given x
  takenGiven : ∀ r ∈ s.taken, ∀ x, r.Has x → Covers given x

variable {given l l' : List Chunk} {mp mp' : Mempool} {r p : Chunk} {s s' : Session}

theorem Session.Inv.safe (h : s.Inv given) : s.Safe given where
  nonWrapping r hr := (h.ok r hr).stop_lt
  disjoint := h.disjoint
  takenNotFree r hr p hp x hx hp' := h.takenNotFree r hr x ⟨p, hp, hp'⟩ hx
  within := h.takenGiven
  ascending := by
    refine h.listed.ascending.imp_of_mem fun hp _ hle => ?_
    have := (h.listed.ok _ hp).size_pos
    unfold stop at hle
    omega
  chunksDisjoint := h.listed.ascending.imp fun hle => apart_of_stop_le hle

theorem pmmFree_freed (hl : Listed mp.chunks) (hend : r.stop < 2 ^ 32) (h : pmmFree mp r.start r.size = some mp') :
    ∃ n, Freed r.start r.size mp.chunks mp'.chunks n ∧ mp'.size = dword (mp.size + n) := by
  obtain ⟨⟨m, n⟩, hm, rfl⟩ := Option.map_eq_some_iff.mp h
  exact ⟨n, pmmFreeLoop_freed hl hend hm, rfl⟩

theorem pmmFree_isSome (hl : Listed mp.chunks) (hr : RegionOk r) (hfree : ∀ x, Covers mp.chunks x → ¬r.Has x) :
    ∃ mp', pmmFree mp r.start r.size = some mp' := by
  have hapart : ∀ p ∈ mp.chunks, Apart ⟨r.start, r.size⟩ p := fun p hp x hx hpx => hfree x ⟨p, hp, hpx⟩ hx
  obtain ⟨m, hm⟩ := pmmFreeLoop_isSome hl hr.header hr.stop_lt hapart
  unfold pmmFree
  rw [hm]
  exact ⟨_, rfl⟩

theorem pmmFree_listed (hl : Listed mp.chunks) (hr : RegionOk r) (h : pmmFree mp r.start r.size = some mp') :
    Listed mp'.chunks := by
  obtain ⟨n, hfreed, -⟩ := pmmFree_freed hl hr.stop_lt h
  exact hfreed.listed hl hr.header hr.stop_lt

theorem pmmFree_covers {x : ℕ} (hl : Listed mp.chunks) (hr : RegionOk r)
    (h : pmmFree mp r.start r.size = some mp') (hx : Covers mp'.chunks x) : Covers mp.chunks x ∨ r.Has x := by
  obtain ⟨n, hfreed, -⟩ := pmmFree_freed hl hr.stop_lt h
  exact hfreed.covers hx

theorem giveAll_isSome (hl : Listed mp.chunks) (hg : Given given)
    (hfree : ∀ r ∈ given, ∀ x, Covers mp.chunks x → ¬r.Has x) : ∃ mp', giveAll mp given = some mp' := by
  induction given generalizing mp with
  | nil => exact ⟨mp, rfl⟩
  | cons r rest ih =>
    have hr := hg.ok r List.mem_cons_self
    have hap := List.pairwise_cons.mp hg.apart
    obtain ⟨mp₁, h₁⟩ := pmmFree_isSome hl hr (hfree r List.mem_cons_self)
    unfold giveAll
    rw [h₁]
    refine ih (pmmFree_listed hl hr h₁) ⟨fun q hq => hg.ok q (List.mem_cons_of_mem _ hq), hap.2⟩ ?_
    intro q hq x hx
    rcases pmmFree_covers hl hr h₁ hx with hx | hx
    · exact hfree q (List.mem_cons_of_mem _ hq) x hx
    · exact hap.1 q hq x hx

theorem giveAll_listed (hl : Listed mp.chunks) (hok : ∀ r ∈ given, RegionOk r) (h : giveAll mp given = some mp') :
    Listed mp'.chunks := by
  induction given generalizing mp with
  | nil =>
    obtain rfl := Option.some.inj h
    exact hl
  | cons r rest ih =>
    obtain ⟨mp₁, h₁, h⟩ := Option.bind_eq_some_iff.mp h
    exact ih (pmmFree_listed hl (hok r List.mem_cons_self) h₁) (fun q hq => hok q (List.mem_cons_of_mem _ hq)) h

theorem giveAll_covers {x : ℕ} (hl : Listed mp.chunks) (hok : ∀ r ∈ given, RegionOk r)
    (h : giveAll mp given = some mp') (hx : Covers mp'.chunks x) : Covers mp.chunks x ∨ Covers given x := by
  induction given generalizing mp with
  | nil =>
    obtain rfl := Option.some.inj h
    exact .inl hx
  | cons r rest ih =>
    obtain ⟨mp₁, h₁, h⟩ := Option.bind_eq_some_iff.mp h
    have hr := hok r List.mem_cons_self
    rw [covers_cons]
    rcases ih (pmmFree_listed hl hr h₁) (fun q hq => hok q (List.mem_cons_of_mem _ hq)) h with hx | hx
    · rcases pmmFree_covers hl hr h₁ hx with hx | hx
      · exact .inl hx
      · exact .inr (.inl hx)
    · exact .inr (.inr hx)

theorem giveAll_inv (hg : Given given) (h : giveAll pmmInit given = some mp) :
    Session.Inv given { pool := mp, taken := [] } where
  listed := giveAll_listed .nil hg.ok h
  ok := by simp
  disjoint := .nil
  takenNotFree := by simp
  freeGiven x hx := (giveAll_covers .nil hg.ok h hx).resolve_left (not_covers_nil x)
  takenGiven := by simp

theorem Session.Inv.carved (h : s.Inv given) (hc : Carved r p s.pool.chunks l') (hr : headerSize ≤ r.size) (n : ℕ) :
    Session.Inv given { pool := { size := n, chunks := l' }, taken := r :: s.taken } where
  listed := hc.listed h.listed
  ok := by
    intro q hq
    rcases List.mem_cons.mp hq with rfl | hq
    · exact ⟨hr, hc.stop_lt h.listed⟩
    · exact h.ok q hq
  disjoint := by
    refine List.pairwise_cons.mpr ⟨fun q hq x hx => ?_, h.disjoint⟩
    exact h.takenNotFree q hq x (hc.within hx)
  takenNotFree := by
    intro q hq x hx
    rcases List.mem_cons.mp hq with rfl | hq
    · exact hc.not_has h.listed hx
    · exact h.takenNotFree q hq x (hc.covers hx)
  freeGiven x hx := h.freeGiven x (hc.covers hx)
  takenGiven := by
    intro q hq x hx
    rcases List.mem_cons.mp hq with rfl | hq
    · exact h.freeGiven x (hc.within hx)
    · exact h.takenGiven q hq x hx

theorem Session.Inv.resized {base oldsize newsize : ℕ} (h : s.Inv given) (hmem : ⟨base, oldsize⟩ ∈ s.taken)
    (hnew : headerSize ≤ newsize) (hr : Resized base oldsize newsize s.pool.chunks l') (n : ℕ) :
    Session.Inv given { pool := { size := n, chunks := l' },
                        taken := ⟨base, newsize⟩ :: s.taken.erase ⟨base, oldsize⟩ } := by
  have hperm : s.taken.Perm (⟨base, oldsize⟩ :: s.taken.erase ⟨base, oldsize⟩) := List.perm_cons_erase hmem
  have hpos : 0 < oldsize := Nat.lt_of_lt_of_le (by decide) (h.ok _ hmem).header
  have hapart : ∀ q ∈ s.pool.chunks, Apart ⟨base, oldsize⟩ q := fun q hq x hx hqx =>
    h.takenNotFree _ hmem x ⟨q, hq, hqx⟩ hx
  have hold : ∀ q ∈ s.taken.erase ⟨base, oldsize⟩, Apart ⟨base, oldsize⟩ q :=
    (List.pairwise_cons.mp (hperm.pairwise h.disjoint fun hpq => hpq.symm)).1
  have hin : ∀ q ∈ s.taken.erase ⟨base, oldsize⟩, q ∈ s.taken := fun q hq => List.mem_of_mem_erase hq
  constructor
  case listed => exact hr.listed h.listed hpos (Nat.lt_of_lt_of_le (by decide) hnew) hapart
  case ok =>
    intro q hq
    rcases List.mem_cons.mp hq with rfl | hq
    · exact ⟨hnew, hr.stop_lt h.listed⟩
    · exact h.ok q (hin q hq)
  case disjoint =>
    refine List.pairwise_cons.mpr ⟨fun q hq x hx hqx => ?_, h.disjoint.sublist List.erase_sublist⟩
    rcases hr.within hx with hx | hx
    · exact h.takenNotFree q (hin q hq) x hx hqx
    · exact hold q hq x hx hqx
  case takenNotFree =>
    intro q hq x hx
    rcases List.mem_cons.mp hq with rfl | hq
    · exact hr.not_has h.listed hpos hapart hx
    · rcases hr.covers hx with hx | ⟨hx, -⟩
      · exact h.takenNotFree q (hin q hq) x hx
      · exact hold q hq x hx
  case freeGiven =>
    intro x hx
    rcases hr.covers hx with hx | ⟨hx, -⟩
    · exact h.freeGiven x hx
    · exact h.takenGiven _ hmem x hx
  case takenGiven =>
    intro q hq x hx
    rcases List.mem_cons.mp hq with rfl | hq
    · rcases hr.within hx with hx | hx
      · exact h.freeGiven x hx
      · exact h.takenGiven _ hmem x hx
    · exact h.takenGiven q (hin q hq) x hx

theorem Session.Inv.freed (h : s.Inv given) (hmem : r ∈ s.taken) (hf : pmmFree s.pool r.start r.size = some mp') :
    Session.Inv given { pool := mp', taken := s.taken.erase r } := by
  have hr := h.ok r hmem
  have hperm : s.taken.Perm (r :: s.taken.erase r) := List.perm_cons_erase hmem
  have hrest : ∀ q ∈ s.taken.erase r, Apart r q :=
    (List.pairwise_cons.mp (hperm.pairwise h.disjoint fun hpq => hpq.symm)).1
  have hin : ∀ q ∈ s.taken.erase r, q ∈ s.taken := fun q hq => List.mem_of_mem_erase hq
  constructor
  case listed => exact pmmFree_listed h.listed hr hf
  case ok => exact fun q hq => h.ok q (hin q hq)
  case disjoint => exact h.disjoint.sublist List.erase_sublist
  case takenNotFree =>
    intro q hq x hx
    rcases pmmFree_covers h.listed hr hf hx with hx | hx
    · exact h.takenNotFree q (hin q hq) x hx
    · exact hrest q hq x hx
  case freeGiven =>
    intro x hx
    rcases pmmFree_covers h.listed hr hf hx with hx | hx
    · exact h.freeGiven x hx
    · exact h.takenGiven r hmem x hx
  case takenGiven => exact fun q hq => h.takenGiven q (hin q hq)

theorem Session.step_inv {req : PmmRequest} (h : s.Inv given) (hadm : req.Admissible s) (hfits : req.Fits s.pool)
    (hstep : s.step req = some s') : s'.Inv given := by
  cases req with
  | alloc size =>
    rcases hop : pmmAlloc s.pool size with ⟨v, mp'⟩
    simp only [step, hop, Option.some.injEq] at hstep
    subst hstep
    rcases pmmAlloc_spec h.listed hop with ⟨rfl, rfl⟩ | ⟨p, rfl, hpos, -, hc, -⟩
    · exact h
    · rw [if_neg (Nat.ne_of_gt hpos)]
      exact h.carved hc hadm.1 _
  | allocAddress base size =>
    rcases hop : pmmAllocAddress s.pool base size with ⟨v, mp'⟩
    simp only [step, hop, Option.some.injEq] at hstep
    subst hstep
    rcases pmmAllocAddress_spec h.listed hfits hop with ⟨rfl, rfl⟩ | ⟨rfl, p, hc, -⟩
    · exact h
    · exact h.carved hc hadm.2.1 _
  | allocFrom base size =>
    rcases hop : pmmAllocFrom s.pool base size with ⟨v, mp'⟩
    simp only [step, hop, Option.some.injEq] at hstep
    subst hstep
    rcases pmmAllocFrom_spec h.listed hfits hop with ⟨rfl, rfl⟩ | ⟨hpos, -, p, -, hc, -⟩
    · exact h
    · rw [if_neg (Nat.ne_of_gt hpos)]
      exact h.carved hc hadm.2.1 _
  | resize base oldsize newsize =>
    obtain ⟨hmem, hnew, hlt⟩ := hadm
    rcases hop : pmmResize s.pool base oldsize newsize with ⟨v, mp'⟩
    simp only [step, hop, Option.some.injEq] at hstep
    subst hstep
    rcases pmmResize_spec h.listed (h.ok _ hmem).stop_lt hlt hfits hop with ⟨rfl, rfl⟩ | ⟨rfl, -, hr⟩
    · exact h
    · rw [if_neg (Nat.ne_of_gt (Nat.lt_of_lt_of_le (by decide) hnew))]
      exact h.resized hmem hnew hr _
  | free base size =>
    obtain ⟨mp', hf, rfl⟩ := Option.map_eq_some_iff.mp hstep
    exact h.freed hadm hf

/-- In a run whose every request fits the chunk that it is served from, what is handed out stays safe. -/
theorem pmmRun_safe (hg : Given given)
    (h : PmmRun (fun s req => req.Admissible s ∧ req.Fits s.pool) given s) : s.Safe given := by
  have hinv : s.Inv given := by
    induction h with
    | start h => exact giveAll_inv hg h
    | next h req hok hstep ih => exact Session.step_inv ih hok.1 hok.2 hstep
  exact hinv.safe

theorem given_two {q : Chunk} (hp : RegionOk p) (hq : RegionOk q) (hpq : Apart p q) : Given [p, q] where
  ok := by
    intro r hr
    simp only [List.mem_cons, List.not_mem_nil, or_false] at hr
    rcases hr with rfl | rfl
    · exact hp
    · exact hq
  apart := List.pairwise_pair.mpr hpq

theorem given_pages : Given [⟨0x3000, 0x1000⟩, ⟨0x1000, 0x1000⟩] :=
  given_two ⟨by decide, by decide⟩ ⟨by decide, by decide⟩ (apart_of_stop_le (by decide)).symm

theorem pmmRun_safe_pages : Session.Safe [⟨0x3000, 0x1000⟩, ⟨0x1000, 0x1000⟩]
    { pool := { size := 0x1800, chunks := [⟨0x1900, 0x700⟩, ⟨0x3000, 0x200⟩, ⟨0x3400, 0xC00⟩] },
      taken := [⟨0x1000, 0x900⟩, ⟨0x3200, 0x200⟩] } :=
  pmmRun_safe given_pages <|
    .next (.next (.next (.next (.next (.start rfl) (.alloc 0x800) (by decide) rfl)
      (.allocAddress 0x3100 0x100) (by decide) rfl) (.allocFrom 0x3000 0x200) (by decide) rfl)
      (.resize 0x1000 0x800 0x900) (by decide) rfl) (.free 0x3100 0x100) (by decide) rfl

/-- A request for more memory than there is wraps around and is granted. -/
theorem pmmRun_unsafe : ∃ given s, Given given ∧ PmmRun (fun s req => req.Admissible s) given s ∧ ¬s.Safe given := by
  refine ⟨_, _, given_pages, .next (.start rfl) (.allocAddress 0x1000 0x8000) (by decide) rfl, fun h => ?_⟩
  have hin : Covers [⟨0x3000, 0x1000⟩, ⟨0x1000, 0x1000⟩] 0x2000 :=
    h.within ⟨0x1000, 0x8000⟩ List.mem_cons_self 0x2000 (by decide)
  simp [Covers, Has, stop] at hin

end FreeDos32.Kernel
