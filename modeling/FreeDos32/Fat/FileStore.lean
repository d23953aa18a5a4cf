import FreeDos32.Library.Refinement
import FreeDos32.Fat.Truncate
import Mathlib.Algebra.BigOperators.Group.Finset.Basic

namespace FreeDos32.Fat

open Prog

/-- An open instance as its user knows it. -/
structure Handle where
  file : ℕ
  flags : ℕ
  pointer : ℕ
  deriving DecidableEq

def Handle.isNotReadable (h : Handle) : Bool := h.flags &&& oAccmode != oRdonly && h.flags &&& oAccmode != oRdwr

def Handle.isNotWriteable (h : Handle) : Bool := h.flags &&& oAccmode != oRdwr && h.flags &&& oAccmode != oWronly

/-- What the users of open files know of a volume: the bytes of the files, the clusters they take and those left.
There are no tables, no directory entries and no buffers. -/
structure FileStore where
  clusterBytes : ℕ
  free : ℕ
  bytes : ℕ → List UInt8
  clusters : ℕ → ℕ
  opened : List ℕ
  handles : ℕ → Handle

abbrev StoreM (α : Type) := Prog FileStore Errno α

namespace FileStore

variable {s t : FileStore} {c f g k n pos start : ℕ} {data new buffer : List UInt8}

def size (s : FileStore) (f : ℕ) : ℕ := (s.bytes f).length

/-- As many clusters as `n` bytes take. -/
def need (s : FileStore) (n : ℕ) : ℕ := (n + s.clusterBytes - 1) / s.clusterBytes

def room (s : FileStore) (f : ℕ) : ℕ := (s.clusters f + s.free) * s.clusterBytes

/-- The file holds `new` in `k` clusters. -/
def hold (f : ℕ) (new : List UInt8) (k : ℕ) (s : FileStore) : FileStore :=
  { s with
    bytes := Function.update s.bytes f new
    clusters := Function.update s.clusters f k
    free := s.free + s.clusters f - k }

def seek (c pos : ℕ) (s : FileStore) : FileStore :=
  { s with handles := Function.update s.handles c { s.handles c with pointer := pos } }

@[simp] theorem hold_clusterBytes : (s.hold f new k).clusterBytes = s.clusterBytes := rfl

@[simp] theorem hold_opened : (s.hold f new k).opened = s.opened := rfl

@[simp] theorem hold_handles : (s.hold f new k).handles = s.handles := rfl

@[simp] theorem hold_bytes : (s.hold f new k).bytes f = new := Function.update_self ..

@[simp] theorem hold_clusters : (s.hold f new k).clusters f = k := Function.update_self ..

theorem hold_bytes_ne (h : g ≠ f) : (s.hold f new k).bytes g = s.bytes g := Function.update_of_ne h ..

theorem hold_clusters_ne (h : g ≠ f) : (s.hold f new k).clusters g = s.clusters g := Function.update_of_ne h ..

@[simp] theorem seek_clusterBytes : (s.seek c pos).clusterBytes = s.clusterBytes := rfl

@[simp] theorem seek_opened : (s.seek c pos).opened = s.opened := rfl

@[simp] theorem seek_free : (s.seek c pos).free = s.free := rfl

@[simp] theorem seek_bytes : (s.seek c pos).bytes = s.bytes := rfl

@[simp] theorem seek_clusters : (s.seek c pos).clusters = s.clusters := rfl

@[simp] theorem seek_file (k : ℕ) : ((s.seek c pos).handles k).file = (s.handles k).file := by
  by_cases hk : k = c
  · subst hk
    simp [seek]
  · simp [seek, hk]

@[simp] theorem seek_flags (k : ℕ) : ((s.seek c pos).handles k).flags = (s.handles k).flags := by
  by_cases hk : k = c
  · subst hk
    simp [seek]
  · simp [seek, hk]

/-- Stores as much of `data` as there is room for. -/
def put (f pos : ℕ) (data : List UInt8) : StoreM ℕ := do
  let s ← Prog.state
  if data = [] then pure 0
  else if 0xFFFFFFFF < pos + data.length then Prog.fail .efbig
  else if s.room f ≤ pos then Prog.fail .enospc
  else
    let k := min data.length (s.room f - pos)
    Prog.update fun s =>
      s.hold f (spliced (s.bytes f) pos (data.take k)) (max (s.clusters f) (s.need (pos + k)))
    pure k

def read (c n : ℕ) : StoreM (List UInt8) := do
  let s ← Prog.state
  let h := s.handles c
  if h.isNotReadable = true then Prog.fail .ebadf
  else
    let data := ((s.bytes h.file).drop h.pointer).take n
    Prog.update (seek c (h.pointer + data.length))
    pure data

def lseek (c : ℕ) (offset : Int) (whence : Whence) : StoreM ℕ := do
  let s ← Prog.state
  let h := s.handles c
  let res : Int := match whence with
    | .seekSet => offset
    | .seekCur => offset + h.pointer
    | .seekEnd => offset + s.size h.file
  if res < 0 then Prog.fail .einval
  else
    Prog.update (seek c res.toNat)
    pure res.toNat

def writeAt (c f : ℕ) (buffer : List UInt8) (start : ℕ) (numWritten : Int) : StoreM Int := do
  let res ← put f start buffer
  if ssize res < 0 then pure (ssize res)
  else
    Prog.update (seek c (start + res))
    pure (numWritten + res)

/-- A gap behind the end of the file is filled with zeroes first, which are counted too. -/
def write (c : ℕ) (buffer : List UInt8) : StoreM Int := do
  let s ← Prog.state
  let h := s.handles c
  if h.isNotWriteable = true then Prog.fail .ebadf
  else if buffer = [] then pure 0
  else
    let start := if hasFlag h.flags oAppend then s.size h.file else h.pointer
    Prog.update (seek c start)
    if start > s.size h.file then
      let res ← put h.file (s.size h.file) (List.replicate ((start - s.size h.file) % 2 ^ 32) 0)
      let t ← Prog.state
      if ssize res < (start : Int) - t.size h.file then pure (ssize res)
      else writeAt c h.file buffer start (ssize res)
    else writeAt c h.file buffer start 0

def ftruncate (c : ℕ) (length : Int) : StoreM Int := do
  let s ← Prog.state
  let h := s.handles c
  if length < 0 then Prog.fail .einval
  else if h.isNotWriteable = true then Prog.fail .ebadf
  else
    let n := length.toNat
    if n < s.size h.file then
      -- a file that keeps its last cluster is not shortened
      if s.need n < s.clusters h.file then do
        Prog.update fun s => s.hold h.file ((s.bytes h.file).take n) (s.need n)
        pure 0
      else Prog.fail .enxio
    else if n > s.size h.file then
      let res ← put h.file (s.size h.file) (List.replicate ((n - s.size h.file) % 2 ^ 32) 0)
      pure (ssize res)
    else pure 0

/-- What `put` has done when it returns. -/
structure Put (f pos : ℕ) (data : List UInt8) (s : FileStore) (k : ℕ) (t : FileStore) : Prop where
  nonempty : data ≠ []
  fits : pos + data.length ≤ 0xFFFFFFFF
  room : pos < s.room f
  count : k = min data.length (s.room f - pos)
  after : t = s.hold f (spliced (s.bytes f) pos (data.take k)) (max (s.clusters f) (s.need (pos + k)))

theorem put_cases (h : (put f pos data).run s = (.ok k, t)) : (data = [] ∧ k = 0 ∧ t = s) ∨ Put f pos data s k t := by
  rw [put, run_bind_state] at h
  by_cases hnil : data = []
  · rw [if_pos hnil, run_pure] at h
    cases h
    exact .inl ⟨hnil, rfl, rfl⟩
  rw [if_neg hnil] at h
  by_cases hbig : 0xFFFFFFFF < pos + data.length
  · rw [if_pos hbig] at h
    cases congrArg Prod.fst h
  rw [if_neg hbig] at h
  by_cases hroom : s.room f ≤ pos
  · rw [if_pos hroom] at h
    cases congrArg Prod.fst h
  · rw [if_neg hroom, run_bind_update, run_pure] at h
    cases h
    exact .inr ⟨hnil, Nat.le_of_not_lt hbig, Nat.lt_of_not_le hroom, rfl, rfl⟩

theorem opened_put (h : (put f pos data).run s = (.ok k, t)) : t.opened = s.opened := by
  rcases put_cases h with ⟨-, -, rfl⟩ | h
  · rfl
  · rw [h.after]
    rfl

theorem handles_put (h : (put f pos data).run s = (.ok k, t)) : t.handles = s.handles := by
  rcases put_cases h with ⟨-, -, rfl⟩ | h
  · rfl
  · rw [h.after]
    rfl

theorem need_mul (s : FileStore) (hpos : 0 < s.clusterBytes) (k : ℕ) : s.need (k * s.clusterBytes) = k := by
  have hsum : k * s.clusterBytes + s.clusterBytes - 1 = (s.clusterBytes - 1) + k * s.clusterBytes := by omega
  rw [need, hsum, Nat.add_mul_div_right _ _ hpos, Nat.div_eq_of_lt (by omega), Nat.zero_add]

theorem need_le_iff (s : FileStore) (hpos : 0 < s.clusterBytes) : s.need n ≤ k ↔ n ≤ k * s.clusterBytes := by
  rw [need, ← Nat.lt_succ_iff, Nat.div_lt_iff_lt_mul hpos, Nat.succ_mul]
  omega

/-- After zeroes have been put behind a file as far as there is room, and more than half of the gap is filled. -/
theorem padded (hpos : 0 < s.clusterBytes) (hpast : s.size f < start)
    (h : (put f (s.size f) (List.replicate ((start - s.size f) % 2 ^ 32) 0)).run s = (.ok k, t))
    (hgo : ¬ssize k < (start : Int) - t.size f) : start ≤ t.size f ∨ t.free = 0 ∧ t.room f ≤ start := by
  rcases put_cases h with ⟨-, rfl, rfl⟩ | hput
  · refine absurd ?_ hgo
    rw [ssize_of_lt (by decide)]
    omega
  obtain ⟨-, -, hroom, hk, rfl⟩ := hput
  rw [List.length_replicate] at hk
  have hmod := Nat.mod_lt (start - s.size f) (by decide : 0 < 2 ^ 32)
  have hsize : (s.hold f (spliced (s.bytes f) (s.size f) ((List.replicate ((start - s.size f) % 2 ^ 32) 0).take k))
      (max (s.clusters f) (s.need (s.size f + k)))).size f = s.size f + k := by
    rw [size, hold_bytes, length_spliced, List.length_take, List.length_replicate]
    change max (s.size f) (s.size f + _) = _
    omega
  rw [hsize] at hgo ⊢
  by_cases hdone : start ≤ s.size f + k
  · exact .inl hdone
  have hcount : ssize k ≤ k := by
    rw [ssize]
    split <;> omega
  have hall : s.size f + k = s.room f := by omega
  have hneed : s.need (s.size f + k) = s.clusters f + s.free := by rw [hall, room, need_mul s hpos]
  have hfree : (s.hold f (spliced (s.bytes f) (s.size f) ((List.replicate ((start - s.size f) % 2 ^ 32) 0).take k))
      (max (s.clusters f) (s.need (s.size f + k)))).free = 0 := by
    change s.free + s.clusters f - max (s.clusters f) (s.need (s.size f + k)) = 0
    omega
  refine .inr ⟨hfree, ?_⟩
  rw [room, hfree, hold_clusters, hold_clusterBytes, Nat.add_zero, hneed, Nat.max_eq_right (Nat.le_add_right _ _)]
  change s.room f ≤ start
  omega

end FileStore

end FreeDos32.Fat
