import FreeDos32.Errno
import FreeDos32.Kernel.FreeList
import Mathlib.Data.Int.Order.Basic
import Mathlib.Logic.Function.Basic

namespace FreeDos32.Iso9660

open Kernel (dword)

abbrev Byte := BitVec 8

/-- `v->bytes_per_sector` -/
def bytesPerSector : ℕ := 2048

def logBytesPerSector : ℕ := 11

/-- The disc by bytes, and which of the reads of a sector fail. -/
structure Device where
  disc : ℕ → Byte
  fault : ℕ → Bool

/-- The data are the memory from the start of the buffer on. -/
structure Buffer where
  sector : ℕ
  block : ℕ
  valid : Bool
  data : ℕ → Byte

/-- `bufMiss` counts the sectors that have been asked for. -/
structure Volume where
  logBlockSize : ℕ
  bufMiss : ℕ
  buffer : Buffer

namespace Volume

variable (v : Volume)

def blockSize : ℕ := 2 ^ v.logBlockSize

def logBlocksPerSector : ℕ := logBytesPerSector - v.logBlockSize

def blocksPerSector : ℕ := 2 ^ v.logBlocksPerSector

/-- What `iso9660_mount` checks. -/
def SizeOk : Prop := v.logBlockSize = 9 ∨ v.logBlockSize = 10 ∨ v.logBlockSize = 11

instance : Decidable v.SizeOk := inferInstanceAs (Decidable (_ ∨ _))

end Volume

/-- After `iso9660_mount` nothing is in the buffer that counts. -/
def mounted (logBlockSize : ℕ) (data : ℕ → Byte) : Volume := ⟨logBlockSize, 0, ⟨0, 0, false, data⟩⟩

/-- The part of `iso9660_readbuf` for a block that is not in the buffer. -/
def fetch (dev : Device) (block : ℕ) (v : Volume) : Except Errno Unit × Volume :=
  let sector := block / 2 ^ v.logBlocksPerSector
  let buffer := { v.buffer with sector, block := sector * 2 ^ v.logBlocksPerSector, valid := false }
  if dev.fault v.bufMiss then (.error .eio, { v with bufMiss := v.bufMiss + 1, buffer })
  else (.ok (), { v with
    bufMiss := v.bufMiss + 1
    buffer := { buffer with valid := true, data := fun i =>
      if i < bytesPerSector then dev.disc (sector * bytesPerSector + i) else v.buffer.data i } })

/-- Returns the place of the block in the data of the buffer. -/
def readbuf (dev : Device) (block : ℕ) (v : Volume) : Except Errno ℕ × Volume :=
  if ¬v.buffer.valid ∨ block < v.buffer.block ∨ dword (v.buffer.block + v.blocksPerSector) ≤ block then
    match fetch dev block v with
    | (.error e, v) => (.error e, v)
    | (.ok (), v) => (.ok ((block - v.buffer.block) * 2 ^ logBytesPerSector), v)
  else (.ok ((block - v.buffer.block) * 2 ^ logBytesPerSector), v)

structure Holds (dev : Device) (v : Volume) : Prop where
  size : v.SizeOk
  block : v.buffer.block = v.buffer.sector * v.blocksPerSector
  data : v.buffer.valid → ∀ i < bytesPerSector, v.buffer.data i = dev.disc (v.buffer.sector * bytesPerSector + i)

variable {dev : Device} {v v' : Volume} {block res : ℕ}

theorem mounted_holds {logBlockSize : ℕ} (data : ℕ → Byte) (h : (mounted logBlockSize data).SizeOk) :
    Holds dev (mounted logBlockSize data) := ⟨h, (Nat.zero_mul _).symm, fun hv => nomatch hv⟩

theorem blocksPerSector_mul_blockSize (h : v.SizeOk) : v.blocksPerSector * v.blockSize = bytesPerSector := by
  rw [Volume.blocksPerSector, Volume.blockSize, Volume.logBlocksPerSector, ← Nat.pow_add]
  rcases h with h | h | h <;> rw [h] <;> rfl

theorem blockSize_dvd (h : v.SizeOk) : v.blockSize ∣ bytesPerSector :=
  ⟨v.blocksPerSector, by rw [Nat.mul_comm, blocksPerSector_mul_blockSize h]⟩

theorem blocksPerSector_pos (v : Volume) : 0 < v.blocksPerSector := Nat.two_pow_pos _

theorem blockSize_pos (v : Volume) : 0 < v.blockSize := Nat.two_pow_pos _

theorem fetch_holds (h : Holds dev v) (block : ℕ) :
    Holds dev (fetch dev block v).2 ∧ (fetch dev block v).2.logBlockSize = v.logBlockSize ∧
      (fetch dev block v).2.buffer.sector = block / v.blocksPerSector ∧
      ((fetch dev block v).1 = .ok () ∧ (fetch dev block v).2.buffer.valid ∨
        (fetch dev block v).1 = .error .eio ∧ ∃ k, dev.fault k) := by
  unfold fetch
  cases hf : dev.fault v.bufMiss with
  | true => exact ⟨⟨h.size, rfl, fun hv => nomatch hv⟩, rfl, rfl, .inr ⟨rfl, _, hf⟩⟩
  | false => exact ⟨⟨h.size, rfl, fun _ i hi => if_pos hi⟩, rfl, rfl, .inl ⟨rfl, rfl⟩⟩

theorem readbuf_cases (h : Holds dev v) (block : ℕ) :
    Holds dev (readbuf dev block v).2 ∧ (readbuf dev block v).2.logBlockSize = v.logBlockSize ∧
      ((readbuf dev block v).1 = .ok (block % v.blocksPerSector * bytesPerSector) ∧
          (readbuf dev block v).2.buffer.valid ∧ (readbuf dev block v).2.buffer.sector = block / v.blocksPerSector ∨
        (readbuf dev block v).1 = .error .eio ∧ ∃ k, dev.fault k) := by
  obtain ⟨hholds, hlog, hsector, hres⟩ := fetch_holds h block
  have hbps : (fetch dev block v).2.blocksPerSector = v.blocksPerSector := by
    rw [Volume.blocksPerSector, Volume.logBlocksPerSector, hlog]
    rfl
  have hbytes : 2 ^ logBytesPerSector = bytesPerSector := rfl
  have hdiv := Nat.div_add_mod' block v.blocksPerSector
  rw [readbuf]
  by_cases hmiss : ¬v.buffer.valid ∨ block < v.buffer.block ∨ dword (v.buffer.block + v.blocksPerSector) ≤ block
  · rw [if_pos hmiss]
    rcases hres with ⟨hok, hvalid⟩ | ⟨herror, hfault⟩
    · have hfetch : fetch dev block v = (.ok (), (fetch dev block v).2) := Prod.ext hok rfl
      rw [hfetch]
      refine ⟨hholds, hlog, .inl ⟨?_, hvalid, hsector⟩⟩
      have hplace := hholds.block
      rw [hsector, hbps] at hplace
      dsimp only
      rw [hplace, hbytes, show block - block / v.blocksPerSector * v.blocksPerSector = block % v.blocksPerSector by omega]
    · have hfetch : fetch dev block v = (.error .eio, (fetch dev block v).2) := Prod.ext herror rfl
      rw [hfetch]
      exact ⟨hholds, hlog, .inr ⟨rfl, hfault⟩⟩
  · rw [if_neg hmiss]
    simp only [not_or, not_not, Nat.not_lt, Nat.not_le] at hmiss
    obtain ⟨hvalid, hle, hlt⟩ := hmiss
    have hlt' : block < v.buffer.block + v.blocksPerSector := Nat.lt_of_lt_of_le hlt (Nat.mod_le _ _)
    have hblock := h.block
    have hsector' : v.buffer.sector = block / v.blocksPerSector := by
      rw [eq_comm, Nat.div_eq_iff (blocksPerSector_pos v)]
      constructor
      · rwa [← hblock]
      · rw [← hblock]
        omega
    refine ⟨h, rfl, .inl ⟨?_, hvalid, hsector'⟩⟩
    rw [hsector'] at hblock
    rw [hblock, hbytes, show block - block / v.blocksPerSector * v.blocksPerSector = block % v.blocksPerSector by omega]

/-- The bytes from the place `res` of the buffer on are the block. -/
def Right (dev : Device) (block res : ℕ) (v : Volume) : Prop :=
  ∀ i < v.blockSize, res + i < bytesPerSector ∧ v.buffer.data (res + i) = dev.disc (block * v.blockSize + i)

theorem right_iff (h : Holds dev v) (hvalid : v.buffer.valid) (hsector : v.buffer.sector = block / v.blocksPerSector) :
    Right dev block (block % v.blocksPerSector * bytesPerSector) v ↔ block % v.blocksPerSector = 0 := by
  constructor
  · intro hright
    have hlt := (hright 0 (blockSize_pos v)).1
    by_contra hne
    have hle : 1 * bytesPerSector ≤ block % v.blocksPerSector * bytesPerSector :=
      Nat.mul_le_mul_right _ (Nat.one_le_iff_ne_zero.mpr hne)
    omega
  · intro hzero i hi
    have hsize := blocksPerSector_mul_blockSize h.size
    have hle : v.blockSize ≤ bytesPerSector := hsize ▸ Nat.le_mul_of_pos_left _ (blocksPerSector_pos v)
    have hlt : i < bytesPerSector := Nat.lt_of_lt_of_le hi hle
    rw [hzero, Nat.zero_mul, Nat.zero_add, h.data hvalid i hlt, hsector, ← hsize, ← Nat.mul_assoc,
      Nat.div_mul_cancel (Nat.dvd_of_mod_eq_zero hzero)]
    exact ⟨hsize ▸ hlt, rfl⟩

/-- Calls one after the other: each one that does not fail returns the place of its block. -/
def RunRight (dev : Device) : List ℕ → Volume → Prop
  | [], _ => True
  | block :: blocks, v =>
    (∀ res, (readbuf dev block v).1 = .ok res → Right dev block res (readbuf dev block v).2) ∧
      RunRight dev blocks (readbuf dev block v).2

/-- Each block that can be read is the first one of its sector. -/
def RunFirst (dev : Device) : List ℕ → Volume → Prop
  | [], _ => True
  | block :: blocks, v =>
    (∀ res, (readbuf dev block v).1 = .ok res → block % v.blocksPerSector = 0) ∧
      RunFirst dev blocks (readbuf dev block v).2

theorem run_right_iff_of_holds (h : Holds dev v) (blocks : List ℕ) : RunRight dev blocks v ↔ RunFirst dev blocks v := by
  induction blocks generalizing v with
  | nil => exact Iff.rfl
  | cons block blocks ih =>
    obtain ⟨hholds, hlog, hres⟩ := readbuf_cases h block
    have hbps : (readbuf dev block v).2.blocksPerSector = v.blocksPerSector := by
      rw [Volume.blocksPerSector, Volume.logBlocksPerSector, hlog]
      rfl
    rw [RunRight, RunFirst, ih hholds]
    refine and_congr_left' (forall_congr' fun res => ?_)
    rcases hres with ⟨hok, hvalid, hsector⟩ | ⟨herror, -⟩
    · rw [hok]
      refine imp_congr_right fun hr => ?_
      obtain rfl := Except.ok.inj hr
      rw [← hbps] at hsector ⊢
      exact right_iff hholds hvalid hsector
    · rw [herror]
      exact iff_of_true (fun hr => nomatch hr) (fun hr => nomatch hr)

end FreeDos32.Iso9660
