import FreeDos32.Kernel.PmmRuns
import FreeDos32.Kernel.Mem
import FreeDos32.Library.Memory
import FreeDos32.Library.Path
import FreeDos32.Library.Runs

namespace FreeDos32.Kernel

open Span

abbrev Bytes := FreeDos32.Memory

def loadWord (m : Bytes) (a : ℕ) : ℕ := (m.word (BitVec.ofNat 32 a)).toNat

def storeWord (m : Bytes) (a v : ℕ) : Bytes := m.putWord (BitVec.ofNat 32 a) (BitVec.ofNat 32 v)

def storeByte (m : Bytes) (a : ℕ) (b : BitVec 8) : Bytes := m.put (BitVec.ofNat 32 a) [b]

/-- `SLABMEM_PAGE_SIZE` -/
def slabPageSize : ℕ := 4096

structure SlabCache where
  pages : ℕ
  objSize : ℕ
  freeObjs : ℕ
  deriving DecidableEq

/-- A cache, the bytes of the memory and the pools that its pages come from. -/
structure Slabmem where
  cache : SlabCache
  bytes : Bytes
  memory : Memory

/-- The loop over the objects of a new page; it ends at the last of them. -/
def linkObjs (objSize : ℕ) : ℕ → ℕ → Bytes → ℕ × Bytes
  | 0, obj, m => (obj, m)
  | count + 1, obj, m => linkObjs objSize count (dword (obj + objSize)) (storeWord m obj (dword (obj + objSize)))

/-- The objects of a new page become the list of free objects. -/
def addPage (page : ℕ) (memory : Memory) (s : Slabmem) : Slabmem :=
  let count := dsub ((slabPageSize - pointerSize) / s.cache.objSize) 1
  let last := linkObjs s.cache.objSize count page s.bytes
  let bytes := storeWord last.2 last.1 0
  { cache := { s.cache with pages := page, freeObjs := page },
    bytes := storeWord bytes (page + (slabPageSize - pointerSize)) s.cache.pages, memory }

def takeFree (s : Slabmem) : ℕ × Slabmem :=
  (s.cache.freeObjs, { s with cache := { s.cache with freeObjs := loadWord s.bytes s.cache.freeObjs } })

def slabmemAlloc (s : Slabmem) : ℕ × Slabmem :=
  if s.cache.freeObjs = 0 then
    let (page, memory) := memGet slabPageSize s.memory
    if page = 0 then (0, { s with memory }) else takeFree (addPage page memory s)
  else takeFree s

def slabmemFree (obj : ℕ) (s : Slabmem) : Slabmem :=
  { s with bytes := storeWord s.bytes obj s.cache.freeObjs, cache := { s.cache with freeObjs := obj } }

def slabmemCreate (objSize : ℕ) : SlabCache := ⟨0, objSize, 0⟩

/-- The pages that are released, in this order; `none` stands for `fd32_abort` or for more pages than the bound. -/
def releasePages (bytes : Bytes) : ℕ → ℕ → Memory → Option (List ℕ × Memory)
  | 0, page, memory => if page = 0 then some ([], memory) else none
  | bound + 1, page, memory =>
    if page = 0 then some ([], memory)
    else
      let next := loadWord bytes (page + (slabPageSize - pointerSize))
      (memFree page slabPageSize memory).bind fun memory =>
        (releasePages bytes bound next memory).map fun r => (page :: r.1, r.2)

/-- The loop is followed for as many pages as there are addresses. -/
def slabmemDestroy (s : Slabmem) : Option (List ℕ × Slabmem) :=
  (releasePages s.bytes (2 ^ 32) s.cache.pages s.memory).map fun r =>
    (r.1, { s with cache := { s.cache with pages := 0, freeObjs := 0 }, memory := r.2 })

section Words

variable {m : Bytes} {a b v : ℕ} {c : BitVec 8}

theorem loadWord_storeWord_self (hv : v < 2 ^ 32) : loadWord (storeWord m a v) a = v := by
  rw [loadWord, storeWord, Memory.word_putWord_self, BitVec.toNat_ofNat, Nat.mod_eq_of_lt hv]

theorem loadWord_storeWord_of_apart (h : a + 4 ≤ b ∨ b + 4 ≤ a) (ha : a + 4 ≤ 2 ^ 32) (hb : b + 4 ≤ 2 ^ 32) :
    loadWord (storeWord m b v) a = loadWord m a := by
  have happart : Memory.Apart (BitVec.ofNat 32 a) (BitVec.ofNat 32 b) := by
    intro p hpa hpb
    simp only [Memory.Within] at hpa hpb
    bv_omega
  rw [loadWord, storeWord, Memory.word_putWord_of_apart happart, loadWord]

theorem loadWord_storeByte (h : b < a ∨ a + 4 ≤ b) (ha : a + 4 ≤ 2 ^ 32) (hb : b < 2 ^ 32) :
    loadWord (storeByte m b c) a = loadWord m a := by
  have hword : (storeByte m b c).word (BitVec.ofNat 32 a) = m.word (BitVec.ofNat 32 a) := by
    apply Memory.word_congr
    intro p hp
    apply Memory.put_of_not_within
    simp only [Memory.Within, List.length_singleton] at *
    bv_omega
  rw [loadWord, hword, loadWord]

end Words

section Objects

variable {m : Bytes} {objSize count obj n a o o' p : ℕ}

/-- The addresses of `n` objects one behind the other. -/
def slots (objSize : ℕ) : ℕ → ℕ → List ℕ
  | 0, _ => []
  | n + 1, obj => obj :: slots objSize n (obj + objSize)

theorem mem_slots : o ∈ slots objSize n obj ↔ ∃ k < n, o = obj + k * objSize := by
  induction n generalizing obj with
  | zero => simp [slots]
  | succ n ih =>
    rw [slots, List.mem_cons, ih]
    constructor
    · rintro (rfl | ⟨k, hk, rfl⟩)
      · exact ⟨0, Nat.succ_pos n, by omega⟩
      · exact ⟨k + 1, Nat.succ_lt_succ hk, by rw [Nat.succ_mul]; omega⟩
    · rintro ⟨k, hk, rfl⟩
      cases k with
      | zero => exact .inl (by omega)
      | succ k => exact .inr ⟨k, Nat.lt_of_succ_lt_succ hk, by rw [Nat.succ_mul]; omega⟩

theorem slots_nodup (hsize : 0 < objSize) : (slots objSize n obj).Nodup := by
  induction n generalizing obj with
  | zero => exact List.nodup_nil
  | succ n ih =>
    apply List.nodup_cons.mpr ⟨?_, ih⟩
    rw [mem_slots]
    rintro ⟨k, -, hk⟩
    omega

def pointer (a : ℕ) : Option ℕ := if a = 0 then none else some a

theorem pointer_zero : pointer 0 = none := rfl

theorem pointer_pos (h : 0 < a) : pointer a = some a := if_neg (Nat.ne_of_gt h)

theorem pointer_eq_some (h : pointer a = some o) : a = o := by
  rw [pointer] at h
  split at h
  · cases h
  · exact Option.some.inj h

theorem pointer_path {next : ℕ → Option ℕ} {l : List ℕ} (h : Path next (pointer a) l none) : a = 0 ∧ l = [] ∨ a ∈ l := by
  by_cases ha : a = 0
  · rw [ha, pointer_zero] at h
    exact .inl ⟨ha, List.head?_eq_none_iff.mp h.head_eq.symm⟩
  · rw [pointer_pos (Nat.pos_of_ne_zero ha)] at h
    exact .inr (List.mem_of_head? h.head_eq.symm)

/-- The word that is `k` bytes behind, as a pointer. -/
def linkAt (m : Bytes) (k a : ℕ) : Option ℕ := pointer (loadWord m (a + k))

theorem slot_succ (obj k objSize : ℕ) : obj + (k + 1) * objSize = obj + objSize + k * objSize := by
  rw [Nat.succ_mul]
  omega

theorem linkObjs_spec (hsize : 4 ≤ objSize) (hend : obj + count * objSize + 4 ≤ 2 ^ 32) :
    (linkObjs objSize count obj m).1 = obj + count * objSize ∧
      (∀ k < count, loadWord (linkObjs objSize count obj m).2 (obj + k * objSize) = obj + (k + 1) * objSize) ∧
      ∀ a, a + 4 ≤ obj ∨ obj + count * objSize ≤ a → a + 4 ≤ 2 ^ 32 →
        loadWord (linkObjs objSize count obj m).2 a = loadWord m a := by
  induction count generalizing obj m with
  | zero => exact ⟨by simp [linkObjs], by simp, fun _ _ _ => rfl⟩
  | succ count ih =>
    rw [slot_succ] at hend
    have hnext : dword (obj + objSize) = obj + objSize := dword_of_lt (by omega)
    obtain ⟨hobj, hlinks, hframe⟩ := @ih (storeWord m obj (obj + objSize)) _ hend
    rw [linkObjs, hnext, slot_succ]
    refine ⟨hobj, fun k hk => ?_, fun a ha hlt => ?_⟩
    · cases k with
      | zero =>
        rw [Nat.zero_mul, Nat.add_zero, Nat.zero_add, Nat.one_mul, hframe _ (.inl (by omega)) (by omega)]
        exact loadWord_storeWord_self (by omega)
      | succ k =>
        rw [slot_succ, slot_succ obj (k + 1)]
        exact hlinks k (Nat.lt_of_succ_lt_succ hk)
    · rw [hframe a (by omega) hlt]
      exact loadWord_storeWord_of_apart (by omega) hlt (by omega)

theorem addPage_bytes {last : ℕ × Bytes} (memory : Memory) (s : Slabmem)
    (hlast : linkObjs s.cache.objSize (dsub ((slabPageSize - pointerSize) / s.cache.objSize) 1) p s.bytes = last) :
    (addPage p memory s).bytes =
      storeWord (storeWord last.2 last.1 0) (p + (slabPageSize - pointerSize)) s.cache.pages := by
  subst hlast
  rfl

theorem path_slots (hpos : 0 < obj) (hlinks : ∀ k < count, loadWord m (obj + k * objSize) = obj + (k + 1) * objSize)
    (hlast : loadWord m (obj + count * objSize) = 0) :
    Path (linkAt m 0) (some obj) (slots objSize (count + 1) obj) none := by
  induction count generalizing obj with
  | zero =>
    refine ⟨rfl, ?_⟩
    have h0 : linkAt m 0 obj = none := by
      rw [Nat.zero_mul] at hlast
      rw [linkAt, hlast, pointer_zero]
    exact h0
  | succ count ih =>
    have h0 : linkAt m 0 obj = some (obj + objSize) := by
      have hfirst := hlinks 0 (Nat.succ_pos _)
      rw [Nat.zero_mul, Nat.zero_add, Nat.one_mul] at hfirst
      rw [linkAt, hfirst, pointer_pos (by omega)]
    refine ⟨rfl, ?_⟩
    rw [h0]
    apply ih (by omega)
    · intro k hk
      rw [← slot_succ, ← slot_succ obj (k + 1)]
      exact hlinks (k + 1) (Nat.succ_lt_succ hk)
    · rw [← slot_succ]
      exact hlast

end Objects

end FreeDos32.Kernel
