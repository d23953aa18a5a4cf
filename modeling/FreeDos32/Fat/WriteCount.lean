import FreeDos32.Fat.WriteLaw

namespace FreeDos32.Fat

open Prog

variable {G G' : Layout} {v w : Volume} {c k : ℕ}

/-- What the callers of `fat_write` rely on: it fails, or as many bytes as it returns have been stored where it starts
and the file pointer is behind them. -/
def CountsStored (G : Layout) (v : Volume) (c : ℕ) (buffer : List UInt8) : Outcome Errno Int × Volume → Prop
  | (.ok r, w) => ∃ k : ℕ, r = k ∧ k ≤ buffer.length ∧ (w.channels c).filePointer = writeStart v c buffer + k ∧
      ∃ G', Changed G v c (if k = 0 then contents G v (v.channels c).f
        else spliced (contents G v (v.channels c).f) (writeStart v c buffer) (buffer.take k)) G' w
  | (.error _, _) => True
  | (.hang, _) => False

/-- A file of `size` bytes, in clusters that together with the free ones have room for `room` bytes, is written to from
`start` on. Either that is inside the file and fewer than 2^31 bytes are stored; or there is nothing to pad, no room to
pad or too much of it, or the padding stops, before less than half is done or when nothing fits behind it. -/
def CountRight (size start n room : ℕ) : Prop :=
  if start ≤ size then 0xFFFFFFFF < start + n ∨ min n (room - start) < 2 ^ 31
  else
    let padding := (start - size) % 2 ^ 32
    let padded := min padding (room - size)
    padding = 0 ∨ 0xFFFFFFFF < size + padding ∨ padded = 0 ∨
      (padded < 2 ^ 31 ∧ start ≤ size + 2 * padded ∧ (0xFFFFFFFF < start + n ∨ room ≤ start))

theorem CountsStored.size {buffer : List UInt8} {r : Int} (h : CountsStored G v c buffer (.ok r, w)) (hr : r ≠ 0) :
    ∃ k : ℕ, r = k ∧ (w.files (v.channels c).f).de.fileSize =
      max (v.files (v.channels c).f).de.fileSize (writeStart v c buffer + k) := by
  obtain ⟨k, hk, hlen, -, G', hch⟩ := h
  refine ⟨k, hk, ?_⟩
  rw [if_neg (by omega)] at hch
  rw [hch.size, length_spliced, length_contents, List.length_take, Nat.min_eq_left hlen]

theorem ssize_of_lt (h : k < 2 ^ 31) : ssize k = k := if_pos h

theorem ssize_neg (h : 2 ^ 31 ≤ k) (hk : k < 2 ^ 32) : ssize k < 0 := by
  rw [ssize, if_neg (by omega)]
  omega

theorem fatWrite_counts_inside {buffer : List UInt8} (h : WellFormed G v) (hc : Usable G v c) (hw : Writable v c)
    (hne : buffer ≠ []) (hloop : 2 ^ 32 + v.geo.dataClusters ≤ v.geo.loopBound)
    (hpos : writeStart v c buffer ≤ (v.files (v.channels c).f).de.fileSize) :
    CountsStored G v c buffer ((fatWrite c buffer).run v) ↔ 0xFFFFFFFF < writeStart v c buffer + buffer.length ∨
      min buffer.length (capacity G v c - writeStart v c buffer) < 2 ^ 31 := by
  have hlen : 0 < buffer.length := List.length_pos_iff.mpr hne
  have hv₁ := Changed.of_still h hc hw.regular ((Still.refl h.toTidy).seek c (writeStart v c buffer))
  have hold₁ := hv₁.holds
  have hcap₁ := hv₁.capacity
  have hgeo₁ := hv₁.geo
  have hf₁ := hv₁.channelFile c
  have hsize₁ := hv₁.size
  rw [length_contents] at hsize₁
  rw [fatWrite_run hw hne, if_neg (Nat.not_lt.mpr hpos)]
  by_cases hfull : 0xFFFFFFFF < writeStart v c buffer + buffer.length ∨ capacity G v c ≤ writeStart v c buffer
  · obtain ⟨e, w, hrun⟩ := writeAtPointer_full hv₁.writes hne (by rw [hgeo₁]; exact hloop) (by rw [hcap₁]; exact hfull) 0
    rw [hrun]
    refine iff_of_true trivial ?_
    omega
  · obtain ⟨hfit, hroom⟩ := not_or.mp hfull
    obtain ⟨G', w, hx, hrun, hptr⟩ := writeAtPointer_run (writeStart v c buffer) hv₁.wellFormed hv₁.writes.usable
      hv₁.writes.regular hne (by rw [hf₁, hsize₁]; exact hpos) (Nat.le_of_not_lt hfit) (by rw [hgeo₁]; exact hloop)
      (by rw [hcap₁]; omega) 0 rfl
    rw [hcap₁] at hx hrun hptr
    rw [hf₁, hold₁] at hx
    rw [hrun]
    generalize hk : min buffer.length (capacity G v c - writeStart v c buffer) = k at *
    by_cases hbig : 2 ^ 31 ≤ k
    · rw [if_pos hbig]
      have hneg := ssize_neg hbig (by omega)
      refine iff_of_false (fun hcount => ?_) (by omega)
      obtain ⟨k', hk', -⟩ := hcount
      omega
    · rw [if_neg hbig]
      refine iff_of_true ⟨k, Int.zero_add _, by omega, hptr (by omega), G', ?_⟩ (by omega)
      rw [if_neg (by omega)]
      exact hv₁.trans hx

theorem fatWrite_counts_past {buffer : List UInt8} (h : WellFormed G v) (hc : Usable G v c) (hw : Writable v c)
    (hne : buffer ≠ []) (hloop : 2 ^ 32 + v.geo.dataClusters ≤ v.geo.loopBound) {padding padded : ℕ}
    (hpast : (v.files (v.channels c).f).de.fileSize < writeStart v c buffer)
    (hpadding : (writeStart v c buffer - (v.files (v.channels c).f).de.fileSize) % 2 ^ 32 = padding)
    (hpadded : padded = min padding (capacity G v c - (v.files (v.channels c).f).de.fileSize)) :
    CountsStored G v c buffer ((fatWrite c buffer).run v) ↔
      (padding = 0 ∨ 0xFFFFFFFF < (v.files (v.channels c).f).de.fileSize + padding ∨ padded = 0 ∨
        (padded < 2 ^ 31 ∧ writeStart v c buffer ≤ (v.files (v.channels c).f).de.fileSize + 2 * padded ∧
          (0xFFFFFFFF < writeStart v c buffer + buffer.length ∨ capacity G v c ≤ writeStart v c buffer))) := by
  have hlen : 0 < buffer.length := List.length_pos_iff.mpr hne
  have hv₁ := Changed.of_still h hc hw.regular ((Still.refl h.toTidy).seek c (writeStart v c buffer))
  have hold₁ := hv₁.holds
  have hcap₁ := hv₁.capacity
  have hgeo₁ := hv₁.geo
  have hf₁ := hv₁.channelFile c
  have hfiles₁ : (v.setChannel c fun x => { x with filePointer := writeStart v c buffer }).files = v.files := rfl
  have hptr₁ : ((v.setChannel c fun x => { x with filePointer := writeStart v c buffer }).channels c).filePointer =
      writeStart v c buffer := by rw [Volume.setChannel_self]
  rw [fatWrite_run hw hne, if_pos hpast, hpadding]
  generalize (v.setChannel c fun x => { x with filePointer := writeStart v c buffer }) = v₁ at *
  have hmod : padding < 2 ^ 32 ∧ padding ≤ writeStart v c buffer - (v.files (v.channels c).f).de.fileSize := by
    rw [← hpadding]
    exact ⟨Nat.mod_lt _ (by decide), Nat.mod_le _ _⟩
  by_cases hzero : padding = 0
  · -- 2^32 bytes or a multiple would have to be padded
    have hnothing : (fatDoWrite c none 0 (v.files (v.channels c).f).de.fileSize).run v₁ = (.ok 0, v₁) := rfl
    have hcompare : ssize 0 < (writeStart v c buffer : Int) - (v₁.files (v.channels c).f).de.fileSize := by
      rw [hfiles₁, ssize_of_lt (by decide)]
      omega
    rw [hzero, run_bind_ok hnothing, run_bind_state, if_pos hcompare]
    refine iff_of_true ⟨0, rfl, Nat.zero_le _, hptr₁, G, ?_⟩ (.inl rfl)
    rw [if_pos rfl]
    exact hv₁
  by_cases hfull : 0xFFFFFFFF < (v.files (v.channels c).f).de.fileSize + padding ∨
      capacity G v c ≤ (v.files (v.channels c).f).de.fileSize
  · obtain ⟨e, w, hrun⟩ := fatDoWrite_full none hv₁.writes (Nat.pos_of_ne_zero hzero) (by rw [hgeo₁]; exact hloop)
      (by rw [hcap₁]; exact hfull)
    rw [run_bind_error hrun]
    exact iff_of_true trivial (by omega)
  obtain ⟨hfit, hroom⟩ := not_or.mp hfull
  obtain ⟨G', w, hrun, hpad⟩ := padding_run hv₁.wellFormed hv₁.writes.usable hv₁.writes.regular (Nat.pos_of_ne_zero hzero)
    (by rw [hf₁, hfiles₁]; exact Nat.le_of_not_lt hfit) (by rw [hgeo₁]; exact hloop)
    (by rw [hf₁, hfiles₁, hcap₁]; omega) (k := padded) (by rw [hf₁, hfiles₁, hcap₁]; exact hpadded)
  rw [hf₁, hfiles₁] at hrun
  rw [hf₁, hold₁] at hpad
  have hall := hv₁.trans hpad
  have hsize := hall.size
  rw [List.length_append, List.length_replicate, length_contents] at hsize
  rw [run_bind_ok hrun, run_bind_state, hsize]
  by_cases hcompare : ssize padded < (writeStart v c buffer : Int) - ((v.files (v.channels c).f).de.fileSize + padded : ℕ)
  · -- some of the padding is counted as if it were the buffer's bytes
    rw [if_pos hcompare]
    refine iff_of_false (fun hcount => ?_) ?_
    · have hne0 : ssize padded ≠ 0 := by
        by_cases hbig : padded < 2 ^ 31
        · rw [ssize_of_lt hbig]
          omega
        · have := ssize_neg (Nat.le_of_not_lt hbig) (by omega)
          omega
      obtain ⟨k, hk, hsz⟩ := hcount.size hne0
      have hbig : padded < 2 ^ 31 := by
        by_contra hbig
        have := ssize_neg (Nat.le_of_not_lt hbig) (by omega)
        omega
      rw [ssize_of_lt hbig] at hk
      omega
    · by_cases hbig : padded < 2 ^ 31
      · rw [ssize_of_lt hbig] at hcompare
        omega
      · omega
  rw [if_neg hcompare]
  have hbig : padded < 2 ^ 31 := by
    by_contra hbig
    have := ssize_neg (Nat.le_of_not_lt hbig) (by omega)
    omega
  rw [ssize_of_lt hbig] at hcompare ⊢
  by_cases hfull' : 0xFFFFFFFF < writeStart v c buffer + buffer.length ∨ capacity G v c ≤ writeStart v c buffer
  · obtain ⟨e, x, hrun'⟩ := writeAtPointer_full hall.writes hne (by rw [hall.geo]; exact hloop)
      (by rw [hall.capacity]; exact hfull') padded
    rw [hrun']
    exact iff_of_true trivial (by omega)
  · -- the padding is there, and is counted too
    obtain ⟨hfit', hroom'⟩ := not_or.mp hfull'
    have hdone : (v.files (v.channels c).f).de.fileSize + padded = writeStart v c buffer := by
      have hsmall : (writeStart v c buffer - (v.files (v.channels c).f).de.fileSize) % 2 ^ 32 =
          writeStart v c buffer - (v.files (v.channels c).f).de.fileSize := Nat.mod_eq_of_lt (by omega)
      omega
    obtain ⟨G'', x, hx, hrun', -⟩ := writeAtPointer_run (writeStart v c buffer) hall.wellFormed hall.writes.usable
      hall.writes.regular hne (by rw [hall.channelFile, hsize, hdone]) (Nat.le_of_not_lt hfit')
      (by rw [hall.geo]; exact hloop) (by rw [hall.capacity]; omega) padded rfl
    rw [hall.capacity] at hx hrun'
    have hxsize := hx.size
    rw [hall.channelFile, hall.holds, length_spliced, List.length_append, List.length_replicate, length_contents, hdone,
      List.length_take] at hxsize
    rw [hrun']
    generalize hk : min buffer.length (capacity G v c - writeStart v c buffer) = k at *
    refine iff_of_false (fun hcount => ?_) (by omega)
    by_cases hneg : 2 ^ 31 ≤ k
    · rw [if_pos hneg] at hcount
      have := ssize_neg hneg (by omega)
      obtain ⟨k', hk', -⟩ := hcount
      omega
    · rw [if_neg hneg] at hcount
      obtain ⟨k', hk', hsz⟩ := hcount.size (by omega)
      omega

end FreeDos32.Fat
