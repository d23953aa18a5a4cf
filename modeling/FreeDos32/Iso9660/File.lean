import FreeDos32.Iso9660.Volume

namespace FreeDos32.Iso9660

open Kernel (dword)

def oAccmode : ℕ := 3

def oRdonly : ℕ := 0

/-- An open file; `magic` is whether the signature is there. -/
structure File where
  extent : ℕ
  dataLength : ℕ
  lenEar : ℕ
  filePointer : ℤ
  magic : Bool
  openFlags : ℕ

inductive Whence where
  | set
  | cur
  | end_
  | other
  deriving DecidableEq

def ssize (x : ℤ) : ℤ := (x + 2 ^ 31) % 2 ^ 32 - 2 ^ 31

def off (x : ℤ) : ℤ := (x + 2 ^ 63) % 2 ^ 64 - 2 ^ 63

/-- The result -22 stands for `-EINVAL`. -/
def lseek (offset : ℤ) (whence : Whence) (f : File) : ℤ × File :=
  let res := match whence with
    | .set => offset
    | .cur => off (offset + f.filePointer)
    | .end_ => off (offset + f.dataLength)
    | .other => -22
  (res, if 0 ≤ offset then { f with filePointer := res } else f)

def blockAt (f : File) (v : Volume) (offset : ℤ) : ℕ := ((f.extent + f.lenEar + offset / v.blockSize) % 2 ^ 32).toNat

def countAt (f : File) (v : Volume) (size k : ℕ) (offset : ℤ) : ℕ :=
  let count := v.blockSize - (offset % v.blockSize).toNat
  let count := if f.dataLength ≤ offset + count then (f.dataLength - offset).toNat else count
  if size < dword (k + count) then size - k else count

/-- The loop of `iso9660_read`, with the bytes it has copied; `none` when it reads outside of the buffer of the volume or has
not ended within `fuel` turns. -/
def readLoop (dev : Device) (f : File) (size : ℕ) :
    ℕ → ℕ → ℤ → List Byte → Volume → Option (Except Errno (ℕ × ℤ) × List Byte × Volume)
  | 0, _, _, _, _ => none
  | fuel + 1, k, offset, bytes, v =>
    if k < size ∧ offset < f.dataLength then
      let byteInBlock := (offset % v.blockSize).toNat
      let count := countAt f v size k offset
      match readbuf dev (blockAt f v offset) v with
      | (.error e, v) => some (.error e, bytes, v)
      | (.ok res, v) =>
        if res + byteInBlock + count ≤ bytesPerSector then
          readLoop dev f size fuel (dword (k + count)) (offset + count)
            (bytes ++ (List.range count).map fun i => v.buffer.data (res + byteInBlock + i)) v
        else none
    else some (.ok (k, offset), bytes, v)

/-- The result, the bytes that have been copied, and the file. -/
def read (dev : Device) (size : ℕ) (f : File) (v : Volume) : Option (Except Errno ℤ × List Byte × File × Volume) :=
  if ¬f.magic ∨ f.openFlags &&& oAccmode ≠ oRdonly then some (.error .ebadf, [], f, v)
  else match readLoop dev f size (size + 1) 0 f.filePointer [] v with
    | none => none
    | some (.error e, bytes, v) => some (.error e, bytes, f, v)
    | some (.ok (k, offset), bytes, v) => some (.ok (ssize k), bytes, { f with filePointer := offset }, v)

def fileByte (dev : Device) (v : Volume) (f : File) (i : ℕ) : Byte :=
  dev.disc (blockAt f v i * v.blockSize + i % v.blockSize)

def fileBytes (dev : Device) (v : Volume) (f : File) (offset n : ℕ) : List Byte :=
  (List.range n).map fun i => fileByte dev v f (offset + i)

variable {dev : Device} {f : File} {v v' : Volume} {size k o i n fuel : ℕ} {bytes : List Byte}

section Turn

theorem blockAt_natCast (f : File) (v : Volume) (o : ℕ) :
    blockAt f v o = (f.extent + f.lenEar + o / v.blockSize) % 2 ^ 32 := by
  rw [blockAt]
  have hcast : ((f.extent + f.lenEar + o / v.blockSize : ℤ) % 2 ^ 32) =
      (((f.extent + f.lenEar + o / v.blockSize) % 2 ^ 32 : ℕ) : ℤ) := by
    simp
  rw [hcast, Int.toNat_natCast]

theorem blockAt_same (hi : o % v.blockSize + i < v.blockSize) : blockAt f v (o + i : ℕ) = blockAt f v o := by
  have hdiv : (o + i) / v.blockSize = o / v.blockSize := by
    rw [Nat.add_div (blockSize_pos v), if_neg, Nat.add_zero, Nat.div_eq_of_lt (a := i) (by omega), Nat.add_zero]
    rw [Nat.mod_eq_of_lt (a := i) (by omega)]
    omega
  rw [blockAt_natCast, blockAt_natCast, hdiv]

theorem countAt_eq (hk : k < size) (ho : o < f.dataLength) (hfit : k + (f.dataLength - o) < 2 ^ 32) :
    countAt f v size k o = min (v.blockSize - o % v.blockSize) (min (f.dataLength - o) (size - k)) := by
  have hmod : ((o : ℤ) % v.blockSize).toNat = o % v.blockSize := by
    rw [← Int.natCast_emod, Int.toNat_natCast]
  have hlt := Nat.mod_lt o (blockSize_pos v)
  rw [countAt, hmod]
  by_cases hend : (f.dataLength : ℤ) ≤ o + (v.blockSize - o % v.blockSize : ℕ)
  · have hsub : ((f.dataLength : ℤ) - o).toNat = f.dataLength - o := by omega
    simp only [if_pos hend, hsub]
    rw [Kernel.dword_of_lt hfit]
    split <;> omega
  · simp only [if_neg hend]
    rw [Kernel.dword_of_lt (by omega)]
    split <;> omega

theorem countAt_bounds (hk : k < size) (ho : o < f.dataLength) (hfit : k + (f.dataLength - o) < 2 ^ 32) :
    0 < countAt f v size k o ∧ o % v.blockSize + countAt f v size k o ≤ v.blockSize ∧
      countAt f v size k o ≤ min (size - k) (f.dataLength - o) := by
  have hlt := Nat.mod_lt o (blockSize_pos v)
  rw [countAt_eq hk ho hfit]
  omega

theorem blockSize_le (h : v.SizeOk) : v.blockSize ≤ bytesPerSector := by
  rw [← blocksPerSector_mul_blockSize h]
  exact Nat.le_mul_of_pos_left _ (blocksPerSector_pos v)

theorem blocksPerSector_congr (h : v'.logBlockSize = v.logBlockSize) : v'.blocksPerSector = v.blocksPerSector := by
  rw [Volume.blocksPerSector, Volume.logBlocksPerSector, h]
  rfl

theorem blockSize_congr (h : v'.logBlockSize = v.logBlockSize) : v'.blockSize = v.blockSize := by
  rw [Volume.blockSize, h]
  rfl

theorem blockAt_congr (h : v'.logBlockSize = v.logBlockSize) (offset : ℤ) : blockAt f v' offset = blockAt f v offset := by
  rw [blockAt, blockSize_congr h]
  rfl

theorem fileBytes_congr (h : v'.logBlockSize = v.logBlockSize) (o n : ℕ) :
    fileBytes dev v' f o n = fileBytes dev v f o n := by
  unfold fileBytes fileByte
  simp only [blockAt_congr h, blockSize_congr h]

theorem fileBytes_add (o a n : ℕ) :
    fileBytes dev v f o (a + n) = fileBytes dev v f o a ++ fileBytes dev v f (o + a) n := by
  unfold fileBytes
  rw [List.range_add, List.map_append, List.map_map]
  congr 1
  apply List.map_congr_left
  intro i _
  rw [Function.comp, Nat.add_assoc]

theorem turn_bytes (hright : Right dev (blockAt f v o) 0 v') (hlog : v'.logBlockSize = v.logBlockSize)
    (hcount : o % v.blockSize + n ≤ v.blockSize) :
    (List.range n).map (fun i => v'.buffer.data (0 + o % v.blockSize + i)) = fileBytes dev v f o n := by
  apply List.map_congr_left
  intro i hi
  have hlt : o % v.blockSize + i < v.blockSize := by
    have := List.mem_range.mp hi
    omega
  have hdata := (hright (o % v.blockSize + i) (by rwa [blockSize_congr hlog])).2
  have hmod : (o + i) % v.blockSize = o % v.blockSize + i := by
    rw [Nat.add_mod, Nat.mod_eq_of_lt (a := i) (by omega), Nat.mod_eq_of_lt hlt]
  rw [Nat.add_assoc, hdata, fileByte, blockAt_same hlt, hmod, blockSize_congr hlog]

end Turn

section Loop

def First (f : File) (v : Volume) (o : ℕ) : Prop := blockAt f v o % v.blocksPerSector = 0

theorem first_congr (h : v'.logBlockSize = v.logBlockSize) : First f v' o ↔ First f v o := by
  rw [First, First, blockAt_congr h, blocksPerSector_congr h]

theorem readLoop_done (h : min (size - k) (f.dataLength - o) = 0) :
    readLoop dev f size (fuel + 1) k o bytes v = some (.ok (k, o), bytes, v) := by
  rw [readLoop, if_neg]
  omega

theorem readLoop_turn (fuel : ℕ) (bytes : List Byte) (hh : Holds dev v) (hk : k < size) (ho : o < f.dataLength) (hfit : k + (f.dataLength - o) < 2 ^ 32) :
    ∃ v', Holds dev v' ∧ v'.logBlockSize = v.logBlockSize ∧
      ((First f v o ∧ readLoop dev f size (fuel + 1) k o bytes v =
          readLoop dev f size fuel (k + countAt f v size k o) (o + countAt f v size k o : ℕ)
            (bytes ++ fileBytes dev v f o (countAt f v size k o)) v') ∨
        (¬First f v o ∧ readLoop dev f size (fuel + 1) k o bytes v = none) ∨
        (∃ j, dev.fault j) ∧ readLoop dev f size (fuel + 1) k o bytes v = some (.error .eio, bytes, v')) := by
  obtain ⟨hholds, hlog, hres⟩ := readbuf_cases hh (blockAt f v o)
  obtain ⟨hpos, hin, hle⟩ := countAt_bounds (v := v) hk ho hfit
  have hcond : k < size ∧ (o : ℤ) < f.dataLength := ⟨hk, Int.ofNat_lt.mpr ho⟩
  have hmod : ((o : ℤ) % v.blockSize).toNat = o % v.blockSize := by
    rw [← Int.natCast_emod, Int.toNat_natCast]
  have hsize := blockSize_le hh.size
  refine ⟨(readbuf dev (blockAt f v o) v).2, hholds, hlog, ?_⟩
  rw [readLoop, if_pos hcond]
  dsimp only
  rw [hmod]
  rcases hres with ⟨hok, hvalid, hsector⟩ | ⟨herror, hfault⟩
  · have hrun : readbuf dev (blockAt f v o) v =
        (.ok (blockAt f v o % v.blocksPerSector * bytesPerSector), (readbuf dev (blockAt f v o) v).2) := Prod.ext hok rfl
    rw [hrun]
    dsimp only
    by_cases hfirst : First f v o
    · left
      refine ⟨hfirst, ?_⟩
      have hright : Right dev (blockAt f v o) 0 (readbuf dev (blockAt f v o) v).2 := by
        rw [← blocksPerSector_congr hlog] at hsector
        have hiff := right_iff hholds hvalid hsector
        rw [blocksPerSector_congr hlog, hfirst, Nat.zero_mul] at hiff
        exact hiff.mpr rfl
      rw [hfirst, Nat.zero_mul, if_pos (by omega), turn_bytes hright hlog hin, Kernel.dword_of_lt (by omega)]
      rfl
    · right
      left
      refine ⟨hfirst, if_neg ?_⟩
      have hone : 1 * bytesPerSector ≤ blockAt f v o % v.blocksPerSector * bytesPerSector :=
        Nat.mul_le_mul_right _ (Nat.one_le_iff_ne_zero.mpr hfirst)
      omega
  · have hrun : readbuf dev (blockAt f v o) v = (.error .eio, (readbuf dev (blockAt f v o) v).2) := Prod.ext herror rfl
    rw [hrun]
    exact .inr (.inr ⟨hfault, rfl⟩)

theorem readLoop_first (fuel : ℕ) (bytes : List Byte) (hh : Holds dev v) (hfit : k + (f.dataLength - o) < 2 ^ 32)
    (hfuel : min (size - k) (f.dataLength - o) < fuel)
    (hfirst : ∀ i < min (size - k) (f.dataLength - o), First f v (o + i)) :
    ∃ v', Holds dev v' ∧ v'.logBlockSize = v.logBlockSize ∧
      (readLoop dev f size fuel k o bytes v =
          some (.ok (k + min (size - k) (f.dataLength - o), (o + min (size - k) (f.dataLength - o) : ℕ)),
            bytes ++ fileBytes dev v f o (min (size - k) (f.dataLength - o)), v') ∨
        (∃ j, dev.fault j) ∧ ∃ bytes', readLoop dev f size fuel k o bytes v = some (.error .eio, bytes', v')) := by
  induction fuel generalizing k o bytes v with
  | zero => cases hfuel
  | succ fuel ih =>
    by_cases hdone : min (size - k) (f.dataLength - o) = 0
    · refine ⟨v, hh, rfl, .inl ?_⟩
      rw [readLoop_done hdone, hdone]
      simp [fileBytes]
    · have hk : k < size := by omega
      have ho : o < f.dataLength := by omega
      obtain ⟨hpos, -, hle⟩ := countAt_bounds (v := v) hk ho hfit
      obtain ⟨v₁, hh₁, hlog₁, hturn⟩ := readLoop_turn fuel bytes hh hk ho hfit
      rcases hturn with ⟨-, hturn⟩ | ⟨hnot, -⟩ | ⟨hfault, hturn⟩
      · obtain ⟨v', hh', hlog', hrest⟩ := ih (v := v₁) (k := k + countAt f v size k o) (o := o + countAt f v size k o)
          (bytes ++ fileBytes dev v f o (countAt f v size k o)) hh₁ (by omega) (by omega) (by
            intro i hi
            rw [first_congr hlog₁, Nat.add_assoc]
            exact hfirst _ (by omega))
        refine ⟨v', hh', hlog'.trans hlog₁, ?_⟩
        have hsum : min (size - k) (f.dataLength - o) = countAt f v size k o +
            min (size - (k + countAt f v size k o)) (f.dataLength - (o + countAt f v size k o)) := by omega
        rw [hturn]
        rcases hrest with hok | hfail
        · left
          rw [hok, fileBytes_congr hlog₁, hsum, fileBytes_add, List.append_assoc, Nat.add_assoc, Nat.add_assoc]
        · exact .inr hfail
      · exact absurd (hfirst 0 (by omega)) hnot
      · exact ⟨v₁, hh₁, hlog₁, .inr ⟨hfault, bytes, hturn⟩⟩

theorem readLoop_not_first (fuel : ℕ) (bytes : List Byte) (hh : Holds dev v) (hfit : k + (f.dataLength - o) < 2 ^ 32)
    (hfault : ∀ j, dev.fault j = false) (hi : i < min (size - k) (f.dataLength - o)) (hnot : ¬First f v (o + i)) :
    readLoop dev f size fuel k o bytes v = none := by
  induction fuel generalizing k o i bytes v with
  | zero => rfl
  | succ fuel ih =>
    have hk : k < size := by omega
    have ho : o < f.dataLength := by omega
    obtain ⟨hpos, hin, hle⟩ := countAt_bounds (v := v) hk ho hfit
    obtain ⟨v₁, hh₁, hlog₁, hturn⟩ := readLoop_turn fuel bytes hh hk ho hfit
    rcases hturn with ⟨hfirst, hturn⟩ | ⟨-, hturn⟩ | ⟨⟨j, hj⟩, -⟩
    · have hge : countAt f v size k o ≤ i := by
        by_contra hlt
        have hsame : First f v (o + i) ↔ First f v o := by
          rw [First, First, blockAt_same (by omega)]
        exact hnot (hsame.mpr hfirst)
      rw [hturn]
      apply ih (i := i - countAt f v size k o) _ hh₁ (by omega) (by omega)
      rw [first_congr hlog₁, show o + countAt f v size k o + (i - countAt f v size k o) = o + i by omega]
      exact hnot
    · exact hturn
    · rw [hfault j] at hj
      cases hj

end Loop

end FreeDos32.Iso9660
