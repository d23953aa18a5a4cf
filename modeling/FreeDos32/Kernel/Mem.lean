import FreeDos32.Kernel.PmmLaws

namespace FreeDos32.Kernel

open Span

/-- `CONFIG_MEMORY_ALIGNMENT` -/
def memoryAlignment : ℕ := 8

/-- `sizeof(void *)` -/
def pointerSize : ℕ := 4

def aligned (size : ℕ) : ℕ :=
  -- `& ~(CONFIG_MEMORY_ALIGNMENT - 1)` clears the low bits
  dword (size + (memoryAlignment - 1)) / memoryAlignment * memoryAlignment

structure Memory where
  highMemPool : Mempool
  dosMemPool : Mempool
  deriving DecidableEq

namespace Memory

def onHigh {α : Type} (f : Mempool → α × Mempool) (m : Memory) : α × Memory :=
  ((f m.highMemPool).1, { m with highMemPool := (f m.highMemPool).2 })

def onDos {α : Type} (f : Mempool → α × Mempool) (m : Memory) : α × Memory :=
  ((f m.dosMemPool).1, { m with dosMemPool := (f m.dosMemPool).2 })

end Memory

def poolGet (amount : ℕ) (mp : Mempool) : ℕ × Mempool := pmmAlloc mp (aligned amount)

def poolGetRegion (base size : ℕ) (mp : Mempool) : ℤ × Mempool := pmmAllocAddress mp base (aligned size)

def poolFree (base size : ℕ) (mp : Mempool) : Option Mempool := pmmFree mp base (aligned size)

def poolResize (base oldsize newsize : ℕ) (mp : Mempool) : ℕ × Mempool :=
  pmmResize mp base (aligned oldsize) (aligned newsize)

def memGet (amount : ℕ) (m : Memory) : ℕ × Memory := m.onHigh (poolGet amount)

def dosmemGet (amount : ℕ) (m : Memory) : ℕ × Memory := m.onDos (poolGet amount)

def memGetRegion (base size : ℕ) (m : Memory) : ℤ × Memory := m.onHigh (poolGetRegion base size)

def dosmemGetRegion (base size : ℕ) (m : Memory) : ℤ × Memory := m.onDos (poolGetRegion base size)

/-- `none` stands for `fd32_abort`. -/
def memFree (base size : ℕ) (m : Memory) : Option Memory :=
  (poolFree base size m.highMemPool).map fun pool => { m with highMemPool := pool }

def dosmemFree (base size : ℕ) (m : Memory) : Option Memory :=
  (poolFree base size m.dosMemPool).map fun pool => { m with dosMemPool := pool }

def dosmemResize (base oldsize newsize : ℕ) (m : Memory) : ℕ × Memory := m.onDos (poolResize base oldsize newsize)

variable {mp : Mempool} {l : List Chunk} {p : Chunk} {amount base size n start : ℕ}

theorem aligned_of_lt (h : size + 7 < 2 ^ 32) : size ≤ aligned size ∧ aligned size ≤ size + 7 := by
  unfold aligned memoryAlignment
  rw [dword_of_lt h]
  omega

theorem aligned_of_ge (h : 2 ^ 32 ≤ size + 7) (hsize : size < 2 ^ 32) : aligned size = 0 := by
  simp only [aligned, memoryAlignment, dword]
  omega

theorem aligned_lt (size : ℕ) : aligned size < 2 ^ 32 := by
  simp only [aligned, memoryAlignment, dword]
  omega

section Get

/-- The `size` bytes at `start` were free and are no longer. -/
def Removes (mp mp' : Mempool) (start size : ℕ) : Prop :=
  ∀ x, Has ⟨start, size⟩ x → Covers mp.chunks x ∧ ¬Covers mp'.chunks x

theorem Removes.mono {mp' : Mempool} (h : Removes mp mp' start n) (hle : size ≤ n) : Removes mp mp' start size := by
  intro x hx
  apply h
  simp only [Has, stop] at *
  omega

theorem Carved.removes {mp' : Mempool} (h : Carved ⟨start, size⟩ p mp.chunks mp'.chunks) (hl : Listed mp.chunks) :
    Removes mp mp' start size :=
  fun _ hx => ⟨h.within hx, fun hx' => h.not_has hl hx' hx⟩

theorem Listed.covers_lt (hl : Listed l) {x : ℕ} (hx : Covers l x) : x < 2 ^ 32 := by
  obtain ⟨p, hp, -, hlt⟩ := hx
  exact Nat.lt_trans hlt (hl.ok p hp).stop_lt

theorem pmmAlloc_removes (hl : Listed mp.chunks) (h : (pmmAlloc mp size).1 ≠ 0) :
    Removes mp (pmmAlloc mp size).2 (pmmAlloc mp size).1 size := by
  rcases hop : pmmAlloc mp size with ⟨v, mp'⟩
  rw [hop] at h
  rcases pmmAlloc_spec hl hop with ⟨h0, -⟩ | ⟨p, rfl, -, -, hcarved, -⟩
  · exact absurd h0 h
  · exact hcarved.removes hl

theorem memGet_carved {m : Memory} (hl : Listed m.highMemPool.chunks) (h : (memGet amount m).1 ≠ 0) :
    ∃ p, Carved ⟨(memGet amount m).1, aligned amount⟩ p m.highMemPool.chunks (memGet amount m).2.highMemPool.chunks := by
  simp only [memGet, Memory.onHigh, poolGet] at h ⊢
  rcases hop : pmmAlloc m.highMemPool (aligned amount) with ⟨v, mp'⟩
  rw [hop] at h
  rcases pmmAlloc_spec hl hop with ⟨h0, -⟩ | ⟨p, rfl, -, -, hcarved, -⟩
  · exact absurd h0 h
  · exact ⟨p, hcarved⟩

theorem memGet_refused {m : Memory} (hl : Listed m.highMemPool.chunks) (h : (memGet amount m).1 = 0) :
    (memGet amount m).2 = m := by
  simp only [memGet, Memory.onHigh, poolGet] at h ⊢
  rcases hop : pmmAlloc m.highMemPool (aligned amount) with ⟨v, mp'⟩
  rw [hop] at h
  rcases pmmAlloc_spec hl hop with ⟨-, rfl⟩ | ⟨p, rfl, hpos, -⟩
  · rfl
  · exact absurd h (Nat.ne_of_gt hpos)

theorem pmmAlloc_eq_zero (hl : Listed mp.chunks) (hnone : ∀ p ∈ mp.chunks, p.size < size) : (pmmAlloc mp size).1 = 0 := by
  rcases hop : pmmAlloc mp size with ⟨v, mp'⟩
  rcases pmmAlloc_spec hl hop with ⟨h0, -⟩ | ⟨p, -, -, hle, hcarved, -⟩
  · exact h0
  · exact absurd (hnone p hcarved.mem) (Nat.not_lt.mpr hle)

theorem pmmAlloc_ne_zero (hl : Listed mp.chunks) (hp : p ∈ mp.chunks) (hle : size ≤ p.size) : (pmmAlloc mp size).1 ≠ 0 := by
  have hfind : ∃ q, mp.chunks.find? (fun p => size ≤ p.size) = some q := by
    apply Option.isSome_iff_exists.mp
    rw [List.find?_isSome]
    exact ⟨p, hp, decide_eq_true hle⟩
  obtain ⟨q, hq⟩ := hfind
  have hsplice : ∀ {l : List Chunk} (repl : Chunk → List Chunk → List Chunk), l.find? (fun p => size ≤ p.size) = some q →
      ∃ l', splice (fun p => size ≤ p.size) repl l = some (q, l') := by
    intro l repl hfind
    induction l with
    | nil => cases hfind
    | cons c l ih =>
      rw [List.find?_cons] at hfind
      unfold splice
      split at hfind
      · next ht =>
        rw [if_pos ht]
        cases hfind
        exact ⟨_, rfl⟩
      · next ht =>
        obtain ⟨l', hl'⟩ := ih hfind
        rw [if_neg (by simp [ht]), hl']
        exact ⟨_, rfl⟩
  obtain ⟨l', hl'⟩ := hsplice (fun p rest => remainder (dword (p.start + size)) (p.size - size) rest) hq
  have hpos := (hl.ok q (List.mem_of_find?_eq_some hq)).start_pos
  simp only [pmmAlloc, hl']
  omega

/-- A request for nothing is granted where the first chunk starts, and nothing is taken out of it. -/
theorem pmmAlloc_zero (hl : Listed (p :: l)) (n : ℕ) : pmmAlloc ⟨n, p :: l⟩ 0 = (p.start, ⟨dsub (dsub n 0) 0, p :: l⟩) := by
  have hok := hl.head
  have hlt : p.start < 2 ^ 32 := Nat.lt_of_le_of_lt (Nat.le_add_right _ _) hok.stop_lt
  have hkeep : remainder (dword p.start) p.size l = p :: l := by
    rw [dword_of_lt hlt, remainder, if_neg (Nat.not_lt.mpr hok.header), link_of_ne (Nat.ne_of_gt hok.start_pos)]
  have hlost : lost p.size = 0 := if_neg (Nat.not_lt.mpr hok.header)
  simp [pmmAlloc, splice, hkeep, hlost]

/-- When the function gets `n` bytes for a request of `size`, it has to get all of them. -/
def GetSound (n size : ℕ) (mp : Mempool) : Prop :=
  (pmmAlloc mp n).1 ≠ 0 → Removes mp (pmmAlloc mp n).2 (pmmAlloc mp n).1 size

theorem getSound_of_le (hl : Listed mp.chunks) (hle : size ≤ n) : GetSound n size mp :=
  fun h => (pmmAlloc_removes hl h).mono hle

theorem not_getSound_zero (hl : Listed mp.chunks) (hne : mp.chunks ≠ []) (hsize : 0 < size) : ¬GetSound 0 size mp := by
  obtain ⟨m, l⟩ := mp
  cases l with
  | nil => exact absurd rfl hne
  | cons p l =>
    intro h
    have hrun := pmmAlloc_zero hl m
    unfold GetSound at h
    rw [hrun] at h
    have hpos := hl.head.start_pos
    have hx := (h (by simp only; omega) p.start ⟨Nat.le_refl _, by simp only [stop]; omega⟩).2
    exact hx (covers_cons.mpr (.inl (has_start hl.head.size_pos)))

theorem not_getSound_of_ge (hl : Listed mp.chunks) (hp : p ∈ mp.chunks) (hle : n ≤ p.size) (hsize : 2 ^ 32 ≤ size) :
    ¬GetSound n size mp := by
  intro h
  have hne := pmmAlloc_ne_zero hl hp hle
  have hx := (h hne ((pmmAlloc mp n).1 + (size - 1)) ⟨Nat.le_add_right _ _, by simp only [stop]; omega⟩).1
  have := hl.covers_lt hx
  omega

/-- The sum of the size and what is added to round it up does not wrap around, or no chunk is as large as what it wraps to. -/
theorem poolGet_sound_iff (hl : Listed mp.chunks) (hamount : amount < 2 ^ 32) :
    GetSound (aligned amount) amount mp ↔ amount + 7 < 2 ^ 32 ∨ ∀ p ∈ mp.chunks, p.size < aligned amount := by
  constructor
  · intro h
    by_contra hno
    rw [not_or, Nat.not_lt] at hno
    obtain ⟨hwrap, hnone⟩ := hno
    rw [aligned_of_ge hwrap hamount] at h hnone
    refine not_getSound_zero hl ?_ (by omega) h
    rintro hnil
    apply hnone
    rw [hnil]
    simp
  · rintro (hlt | hnone)
    · exact getSound_of_le hl (aligned_of_lt hlt).1
    · intro hne
      exact absurd (pmmAlloc_eq_zero hl hnone) hne

end Get

section Region

/-- A region that is granted lay in a chunk. -/
def RegionSound (base size : ℕ) (mp : Mempool) : Prop :=
  (poolGetRegion base size mp).1 = 1 → ∃ p ∈ mp.chunks, p.start ≤ base ∧ base + size ≤ p.stop

/-- The test of `pmm_alloc_address` passes although the chunk is too small: the end of the chunk is below the rounded size, or
the size has become zero when it was rounded. -/
def Wraps (base size : ℕ) (p : Chunk) : Prop :=
  p.start ≤ base ∧ (p.stop < aligned size ∧ base + aligned size ≤ p.stop + 2 ^ 32 ∨ 2 ^ 32 ≤ size + 7 ∧ base ≤ p.stop)

theorem addressTest_iff (hok : ChunkOk p) (hn : n < 2 ^ 32) : addressTest base n p = true ↔
    p.start ≤ base ∧ (base + n ≤ p.stop ∨ p.stop < n ∧ base + n ≤ p.stop + 2 ^ 32) := by
  have hlt := hok.stop_lt
  rw [addressTest, hok.chunkEnd_eq, decide_eq_true_eq, and_comm]
  simp only [dsub, dword]
  omega

theorem pmmAllocAddress_granted :
    (pmmAllocAddress mp base n).1 = 1 ↔ ∃ p ∈ mp.chunks, addressTest base n p = true := by
  have hfind : ∀ {l : List Chunk} (repl : Chunk → List Chunk → List Chunk), (splice (addressTest base n) repl l).isSome ↔
      ∃ p ∈ l, addressTest base n p = true := by
    intro l repl
    induction l with
    | nil => simp [splice]
    | cons c l ih =>
      by_cases ht : addressTest base n c = true
      · simp [splice, ht]
      · simp [splice, ht, ih]
  rw [← hfind fun p rest => remainder p.start (base - p.start)
    (remainder (dword (base + n)) (dsub (chunkEnd p) (dword (base + n))) rest)]
  simp only [pmmAllocAddress]
  split
  · next h => simp [h]
  · next h => simp [h]

theorem poolGetRegion_sound_iff (hl : Listed mp.chunks) (hsize : size < 2 ^ 32) :
    RegionSound base size mp ↔ (∃ p ∈ mp.chunks, p.start ≤ base ∧ base + size ≤ p.stop) ∨ ∀ p ∈ mp.chunks, ¬Wraps base size p := by
  unfold RegionSound poolGetRegion
  rw [pmmAllocAddress_granted]
  constructor
  · intro h
    by_contra hno
    obtain ⟨hnot, hwraps⟩ := not_or.mp hno
    apply hnot
    apply h
    by_contra hnone
    apply hwraps
    intro p hp hw
    apply hnone
    refine ⟨p, hp, (addressTest_iff (hl.ok p hp) (aligned_lt size)).mpr ⟨hw.1, ?_⟩⟩
    rcases hw.2 with hw | ⟨hover, hle⟩
    · exact .inr hw
    · rw [aligned_of_ge hover hsize]
      exact .inl hle
  · rintro (h | hnone) ⟨p, hp, htest⟩
    · exact h
    · obtain ⟨hstart, hfit⟩ := (addressTest_iff (hl.ok p hp) (aligned_lt size)).mp htest
      refine ⟨p, hp, hstart, ?_⟩
      by_contra hover
      apply hnone p hp
      refine ⟨hstart, ?_⟩
      rcases hfit with hfit | hfit
      · right
        by_contra hsmall
        have := aligned_of_lt (by omega : size + 7 < 2 ^ 32)
        omega
      · exact .inl hfit

end Region

end FreeDos32.Kernel
