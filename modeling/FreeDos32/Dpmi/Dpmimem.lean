import FreeDos32.Kernel.Mem

namespace FreeDos32.Dpmi

open Kernel Span

def memsig : ℕ := 0xFD32

/-- `sizeof(struct dpmimem_info)` -/
def infoSize : ℕ := 12

structure DpmimemInfo where
  signature : ℕ
  size : ℕ

/-- `top` has the headers that are linked behind the one of the current process, if that has one. -/
structure Dpmimem where
  memory : Kernel.Memory
  info : ℕ → DpmimemInfo
  top : Option (List ℕ)

/-- Returns the area and, when there is one, what is stored in `base`. -/
def dpmiAlloc (size : ℕ) (d : Dpmimem) : (ℕ × Option ℕ) × Dpmimem :=
  let (area, memory) := memGet (dword (size + infoSize)) d.memory
  if area = 0 then ((0, none), { d with memory })
  else
    ((area, some (dword (area + infoSize))), {
      memory
      info := Function.update d.info area { signature := memsig, size := size }
      top := d.top.map (area :: ·) })

variable {d : Dpmimem} {base size amount : ℕ}

def MemGetSound (amount : ℕ) (m : Kernel.Memory) : Prop :=
  (memGet amount m).1 ≠ 0 → Removes m.highMemPool (memGet amount m).2.highMemPool (memGet amount m).1 amount

def DosmemGetSound (amount : ℕ) (m : Kernel.Memory) : Prop :=
  (dosmemGet amount m).1 ≠ 0 → Removes m.dosMemPool (dosmemGet amount m).2.dosMemPool (dosmemGet amount m).1 amount

def DpmiAllocSound (size : ℕ) (d : Dpmimem) : Prop :=
  (dpmiAlloc size d).1.1 ≠ 0 →
    Removes d.memory.highMemPool (dpmiAlloc size d).2.memory.highMemPool (dpmiAlloc size d).1.1 (size + infoSize)

def MemGetRegionSound (base size : ℕ) (m : Kernel.Memory) : Prop :=
  (memGetRegion base size m).1 = 1 → ∃ p ∈ m.highMemPool.chunks, p.start ≤ base ∧ base + size ≤ p.stop

def DosmemGetRegionSound (base size : ℕ) (m : Kernel.Memory) : Prop :=
  (dosmemGetRegion base size m).1 = 1 → ∃ p ∈ m.dosMemPool.chunks, p.start ≤ base ∧ base + size ≤ p.stop

theorem dpmiAlloc_get (size : ℕ) (d : Dpmimem) : (dpmiAlloc size d).1.1 = (memGet (dword (size + infoSize)) d.memory).1 ∧
    (dpmiAlloc size d).2.memory = (memGet (dword (size + infoSize)) d.memory).2 := by
  simp only [dpmiAlloc]
  split
  · next h => exact ⟨h.symm, rfl⟩
  · exact ⟨rfl, rfl⟩

/-- The header is added to the size before it is rounded. -/
theorem dpmiAlloc_sound_iff (hl : Listed d.memory.highMemPool.chunks) :
    DpmiAllocSound size d ↔ size + infoSize + 7 < 2 ^ 32 ∨
      ∀ p ∈ d.memory.highMemPool.chunks, p.size < aligned (dword (size + infoSize)) := by
  obtain ⟨harea, hmemory⟩ := dpmiAlloc_get size d
  unfold DpmiAllocSound
  rw [harea, hmemory]
  change GetSound (aligned (dword (size + infoSize))) (size + infoSize) d.memory.highMemPool ↔ _
  by_cases hwrap : size + infoSize < 2 ^ 32
  · rw [dword_of_lt hwrap]
    exact poolGet_sound_iff hl hwrap
  · have hno : ¬size + infoSize + 7 < 2 ^ 32 := by omega
    simp only [hno, false_or]
    constructor
    · intro h p hp
      by_contra hle
      exact not_getSound_of_ge hl hp (Nat.le_of_not_lt hle) (Nat.le_of_not_lt hwrap) h
    · intro hnone hne
      exact absurd (pmmAlloc_eq_zero hl hnone) hne

/-- What is granted was free and as large as requested, unless the request wraps around to one that a chunk is large enough
for. -/
theorem allocation_sound_iff (hhigh : Listed d.memory.highMemPool.chunks) (hdos : Listed d.memory.dosMemPool.chunks)
    (hamount : amount < 2 ^ 32) (hsize : size < 2 ^ 32) :
    (MemGetSound amount d.memory ↔
        amount + 7 < 2 ^ 32 ∨ ∀ p ∈ d.memory.highMemPool.chunks, p.size < aligned amount) ∧
      (DosmemGetSound amount d.memory ↔
        amount + 7 < 2 ^ 32 ∨ ∀ p ∈ d.memory.dosMemPool.chunks, p.size < aligned amount) ∧
      (DpmiAllocSound amount d ↔ amount + infoSize + 7 < 2 ^ 32 ∨
        ∀ p ∈ d.memory.highMemPool.chunks, p.size < aligned (dword (amount + infoSize))) ∧
      (MemGetRegionSound base size d.memory ↔
        (∃ p ∈ d.memory.highMemPool.chunks, p.start ≤ base ∧ base + size ≤ p.stop) ∨
          ∀ p ∈ d.memory.highMemPool.chunks, ¬Wraps base size p) ∧
      (DosmemGetRegionSound base size d.memory ↔
        (∃ p ∈ d.memory.dosMemPool.chunks, p.start ≤ base ∧ base + size ≤ p.stop) ∨
          ∀ p ∈ d.memory.dosMemPool.chunks, ¬Wraps base size p) :=
  ⟨poolGet_sound_iff hhigh hamount, poolGet_sound_iff hdos hamount, dpmiAlloc_sound_iff hhigh,
    poolGetRegion_sound_iff hhigh hsize, poolGetRegion_sound_iff hdos hsize⟩

section Page

def pageMem : Dpmimem where
  memory := { highMemPool := { size := 0x1000, chunks := [⟨0x100000, 0x1000⟩] },
              dosMemPool := { size := 0x1000, chunks := [⟨0x1000, 0x1000⟩] } }
  info _ := { signature := 0, size := 0 }
  top := some []

theorem pageMem_listed : Listed pageMem.memory.highMemPool.chunks ∧ Listed pageMem.memory.dosMemPool.chunks := by
  constructor
  · exact ⟨List.pairwise_singleton _ _, by simpa [pageMem] using ⟨by decide, by decide, by decide⟩⟩
  · exact ⟨List.pairwise_singleton _ _, by simpa [pageMem] using ⟨by decide, by decide, by decide⟩⟩

theorem pageMem_sound : MemGetSound 0x100 pageMem.memory ∧ MemGetRegionSound 0x100000 0x100 pageMem.memory := by
  obtain ⟨hget, -, -, hregion, -⟩ := allocation_sound_iff pageMem_listed.1 pageMem_listed.2
    (by decide : 0x100 < 2 ^ 32) (by decide : 0x100 < 2 ^ 32)
  exact ⟨hget.mpr (.inl (by decide)), hregion.mpr (.inl ⟨_, List.mem_cons_self, by decide, by decide⟩)⟩

/-- A request for all but one byte of the address space is granted, and so is a region of this size. -/
theorem pageMem_unsound : (memGet 0xFFFFFFFF pageMem.memory).1 = 0x100000 ∧ ¬MemGetSound 0xFFFFFFFF pageMem.memory ∧
    (dpmiAlloc 0xFFFFFFFF pageMem).1.1 = 0x100000 ∧ ¬DpmiAllocSound 0xFFFFFFFF pageMem ∧
    (memGetRegion 0x100000 0xFFFFFFFF pageMem.memory).1 = 1 ∧ ¬MemGetRegionSound 0x100000 0xFFFFFFFF pageMem.memory := by
  have hget : ¬MemGetSound 0xFFFFFFFF pageMem.memory :=
    not_getSound_zero pageMem_listed.1 (List.cons_ne_nil _ _) (by decide)
  have halloc : ¬DpmiAllocSound 0xFFFFFFFF pageMem := by
    intro h
    have hno := (dpmiAlloc_sound_iff pageMem_listed.1).mp h
    simp [pageMem] at hno
    revert hno
    decide
  have hregion : ¬MemGetRegionSound 0x100000 0xFFFFFFFF pageMem.memory := by
    intro h
    obtain ⟨p, hp, -, hstop⟩ := h (by decide)
    obtain rfl := List.mem_singleton.mp hp
    revert hstop
    decide
  exact ⟨by decide, hget, by decide, halloc, by decide, hregion⟩

end Page

end FreeDos32.Dpmi
