import FreeDos32.Ata.Packet

namespace FreeDos32.Ata

open Kernel (dword dsub dword_of_lt)

variable {size n i total odd words : ℕ} {data : ℕ → BitVec 16} {a : Answer} {t t' : Packet} {polled : Bool}
  {ending : Ending} {res : Option Ending}

section Accesses

/-- The places that have been used are those the pointer has passed. -/
def Packet.Tracked (t : Packet) : Prop := ∀ k, k ∈ t.touched ↔ k < t.place

/-- Every word that has been stored or sent is in the first `size` bytes. -/
def Packet.InBuffer (size : ℕ) (t : Packet) : Prop := ∀ k ∈ t.touched, 2 * k + 2 ≤ size

theorem Packet.Tracked.inBuffer_iff (ht : t.Tracked) : t.InBuffer size ↔ 2 * t.place ≤ size := by
  constructor
  · intro hin
    cases hplace : t.place with
    | zero => exact Nat.zero_le size
    | succ k => exact hin k ((ht k).mpr (by omega))
  · intro hle k hk
    have hlt := (ht k).mp hk
    omega

/-- `n` accesses through the pointer. -/
structure Moved (n : ℕ) (t t' : Packet) : Prop where
  totalBytes : t'.totalBytes = t.totalBytes
  overflow : t'.overflow = t.overflow
  place : t'.place = t.place + n
  tracked : t.Tracked → t'.Tracked

theorem Moved.refl (t : Packet) : Moved 0 t t := ⟨rfl, rfl, rfl, id⟩

theorem Moved.trans {m : ℕ} {t'' : Packet} (h : Moved n t t') (h' : Moved m t' t'') : Moved (n + m) t t'' where
  totalBytes := h'.totalBytes.trans h.totalBytes
  overflow := h'.overflow.trans h.overflow
  place := by rw [h'.place, h.place, Nat.add_assoc]
  tracked ht := h'.tracked (h.tracked ht)

theorem tracked_cons (ht : t.Tracked) (k : ℕ) : k ∈ t.place :: t.touched ↔ k < t.place + 1 := by
  rw [List.mem_cons, ht k]
  omega

theorem store_moved (word : BitVec 16) (t : Packet) : Moved 1 t (t.store word) := ⟨rfl, rfl, rfl, tracked_cons⟩

theorem send_moved (t : Packet) : Moved 1 t t.send := ⟨rfl, rfl, rfl, tracked_cons⟩

theorem readWords_moved (data : ℕ → BitVec 16) (n i : ℕ) (t : Packet) : Moved n t (readWords data n i t) := by
  induction n generalizing i t with
  | zero => exact Moved.refl t
  | succ n ih =>
    rw [readWords, Nat.add_comm n 1]
    exact (store_moved (data i) t).trans (ih (i + 1) (t.store (data i)))

theorem writeWords_moved (n : ℕ) (t : Packet) : Moved n t (writeWords n t) := by
  induction n generalizing t with
  | zero => exact Moved.refl t
  | succ n ih =>
    rw [writeWords, Nat.add_comm n 1]
    exact (send_moved t).trans (ih t.send)

/-- The words are stored from an even distance to the end on, up to the end of the buffer or one byte behind it. -/
theorem readSome_moved (hsize : size < t.totalBytes) (htotal : t.totalBytes < 2 ^ 32) (hn : 2 * n ≤ t.totalBytes) :
    Moved ((size + 1 - (t.totalBytes - 2 * n)) / 2) t (readSome size data n i t) := by
  induction n generalizing i t with
  | zero =>
    have hnone : (size + 1 - (t.totalBytes - 2 * 0)) / 2 = 0 := by omega
    rw [hnone]
    exact Moved.refl t
  | succ n ih =>
    have hdiff : dsub t.totalBytes ((n + 1) * 2) = t.totalBytes - 2 * (n + 1) := by
      rw [Kernel.dsub_of_le (by omega) htotal, Nat.mul_comm]
    rw [readSome, hdiff]
    split
    · next hin =>
      have hcount : (size + 1 - (t.totalBytes - 2 * (n + 1))) / 2 = 1 + (size + 1 - (t.totalBytes - 2 * n)) / 2 := by omega
      rw [hcount]
      exact (store_moved (data i) t).trans (ih (t := t.store (data i)) hsize htotal (by simp only [Packet.store]; omega))
    · next hout =>
      have hcount : (size + 1 - (t.totalBytes - 2 * (n + 1))) / 2 = (size + 1 - (t.totalBytes - 2 * n)) / 2 := by omega
      rw [hcount]
      exact ih hsize htotal (by omega)

/-- The first word of an odd burst that is the first one stands one byte before the buffer, and is dropped. -/
theorem readSome_moved_first (hsize : size < t.totalBytes) (htotal : t.totalBytes < 2 ^ 32) (hn : 2 * n = t.totalBytes + 1) :
    Moved (size / 2) t (readSome size data n i t) := by
  cases n with
  | zero => omega
  | succ n =>
    have hdiff : dsub t.totalBytes ((n + 1) * 2) = 2 ^ 32 - 1 := by
      unfold dsub dword
      omega
    have hcount : size / 2 = (size + 1 - (t.totalBytes - 2 * n)) / 2 := by omega
    rw [readSome, hdiff, if_neg (by omega), hcount]
    exact readSome_moved hsize htotal (by omega)

end Accesses

section Bursts

/-- The bursts so far have `total` bytes, and `odd` of them have an odd count. Behind the end of the buffer nothing is stored. -/
structure Counted (size total odd : ℕ) (t : Packet) : Prop where
  totalBytes : t.totalBytes = total
  total_lt : total < 2 ^ 32
  odd_le : odd ≤ total
  place : total ≤ size → 2 * t.place = total + odd
  overflow : size < total → t.overflow = true ∧ total ≤ size + 2 ^ 24 ∧ size + 2 ^ 24 < 2 ^ 32 ∧
    (2 * t.place = size ∨ size < 2 ^ 16)
  inside : 2 * t.place ≤ size
  tracked : t.Tracked

/-- The total does not wrap around; a burst that fits does so with one byte more for each odd one; the first burst that does not
fit is the first of all and odd, or there is no odd one and the buffer has whole words, or it is too much anyway. -/
def Room (size total odd : ℕ) (a : Answer) : Prop :=
  total + a.count < 2 ^ 32 ∧
    (total + a.count ≤ size → total + a.count + (odd + a.count % 2) ≤ size) ∧
    (total ≤ size → size < total + a.count → a.io = true → size + 2 ^ 24 < 2 ^ 32 →
      total = 0 ∧ a.count % 2 = 1 ∨ odd = 0 ∧ a.count % 2 = 0 ∧ size % 2 = 0)

instance (size total odd : ℕ) (a : Answer) : Decidable (Room size total odd a) :=
  inferInstanceAs (Decidable (_ ∧ (_ → _) ∧ (_ → _ → _ → _ → _)))

/-- The driver does not give up. -/
def Continues (size total : ℕ) (a : Answer) : Prop :=
  total + a.count ≤ size ∨ a.io = true ∧ total + a.count ≤ size + 2 ^ 24 ∧ size + 2 ^ 24 < 2 ^ 32

instance (size total : ℕ) (a : Answer) : Decidable (Continues size total a) := inferInstanceAs (Decidable (_ ∨ _))

theorem Answer.count_lt (a : Answer) : a.count < 2 ^ 16 := by
  have hlow := a.countL.isLt
  have hhigh := a.countH.isLt
  unfold Answer.count
  omega

theorem Counted.wraps (hc : Counted size total odd t) (hsize : size < 2 ^ 32) (hwrap : 2 ^ 32 ≤ total + a.count) :
    dword (t.totalBytes + a.count) ≤ size ∧ 0 < (a.count + 1) / 2 ∧ size < 2 * (t.place + (a.count + 1) / 2) := by
  have hcount := a.count_lt
  have hlt := hc.total_lt
  rw [hc.totalBytes]
  have hrest : dword (total + a.count) < 2 ^ 16 := by
    unfold dword
    omega
  rcases Nat.lt_or_ge size total with hover | hfit
  · obtain ⟨-, hle, hroom, hplace⟩ := hc.overflow hover
    omega
  · have hplace := hc.place hfit
    omega

theorem moveBurst_fits (hle : dword (t.totalBytes + a.count) ≤ size) : ∃ t', moveBurst size a t = (none, t') ∧
    t'.place = t.place + (a.count + 1) / 2 ∧ t'.totalBytes = dword (t.totalBytes + a.count) ∧ (t.Tracked → t'.Tracked) := by
  unfold moveBurst
  dsimp only
  rw [if_neg (Nat.not_lt.mpr hle)]
  split
  · have hmoved := readWords_moved a.data ((a.count + 1) / 2) 0 { t with totalBytes := dword (t.totalBytes + a.count) }
    exact ⟨_, rfl, hmoved.place, hmoved.totalBytes, hmoved.tracked⟩
  · have hmoved := writeWords_moved ((a.count + 1) / 2) { t with totalBytes := dword (t.totalBytes + a.count) }
    exact ⟨_, rfl, hmoved.place, hmoved.totalBytes, hmoved.tracked⟩

theorem moveBurst_givesUp (hlt : size < dword (t.totalBytes + a.count))
    (hmuch : a.io = true → dword (size + 2 ^ 24) < dword (t.totalBytes + a.count)) :
    ∃ t', moveBurst size a t = (some (fail ataEpifatal), t') ∧ t'.place = t.place ∧ (t.Tracked → t'.Tracked) := by
  unfold moveBurst
  dsimp only
  rw [if_pos hlt]
  split
  · next hio =>
    have hmuch : dword (size + 1024 * 1024 * 16) < dword (t.totalBytes + a.count) := hmuch hio
    rw [if_pos hmuch]
    exact ⟨_, rfl, rfl, id⟩
  · exact ⟨_, rfl, rfl, id⟩

theorem readSome_burst (hsize : size < t.totalBytes) (htotal : t.totalBytes < 2 ^ 32) (hle : a.count ≤ t.totalBytes) :
    ∃ m, Moved m t (readSome size a.data ((a.count + 1) / 2) 0 t) ∧
      (t.totalBytes = a.count ∧ a.count % 2 = 1 ∧ m = size / 2 ∨
        ¬(t.totalBytes = a.count ∧ a.count % 2 = 1) ∧ m = (size + 1 + a.count % 2 - (t.totalBytes - a.count)) / 2) := by
  by_cases hfirst : t.totalBytes = a.count ∧ a.count % 2 = 1
  · exact ⟨_, readSome_moved_first hsize htotal (by omega), .inl ⟨hfirst.1, hfirst.2, rfl⟩⟩
  · exact ⟨_, readSome_moved hsize htotal (by omega), .inr ⟨hfirst, by omega⟩⟩

theorem moveBurst_drops (hlt : size < dword (t.totalBytes + a.count)) (hio : a.io = true)
    (hfew : dword (t.totalBytes + a.count) ≤ dword (size + 2 ^ 24)) : moveBurst size a t =
      (none, readSome size a.data ((a.count + 1) / 2) 0
        { t with totalBytes := dword (t.totalBytes + a.count), overflow := true }) := by
  unfold moveBurst
  dsimp only
  rw [if_pos hlt, if_pos hio]
  exact if_neg (Nat.not_lt.mpr hfew)

theorem Counted.drops (hc : Counted size total odd t) (hio : a.io = true) (hover : size < total + a.count)
    (hfew : total + a.count ≤ size + 2 ^ 24) (hlimit : size + 2 ^ 24 < 2 ^ 32) :
    ∃ t' m, moveBurst size a t = (none, t') ∧ t'.totalBytes = total + a.count ∧ t'.overflow = true ∧ t'.Tracked ∧
      t'.place = t.place + m ∧ (total = 0 ∧ a.count % 2 = 1 ∧ m = size / 2 ∨
        ¬(total = 0 ∧ a.count % 2 = 1) ∧ m = (size + 1 + a.count % 2 - total) / 2) := by
  have htotal : dword (t.totalBytes + a.count) = total + a.count := by rw [hc.totalBytes, dword_of_lt (by omega)]
  have hrun := moveBurst_drops (t := t) (htotal.symm ▸ hover) hio (by rw [htotal, dword_of_lt hlimit]; exact hfew)
  rw [htotal] at hrun
  obtain ⟨m, hmoved, hm⟩ := readSome_burst (a := a) (t := { t with totalBytes := total + a.count, overflow := true }) hover
    (by dsimp only; omega) (Nat.le_add_left ..)
  refine ⟨_, m, hrun, hmoved.totalBytes, hmoved.overflow, hmoved.tracked hc.tracked, hmoved.place, ?_⟩
  dsimp only at hm
  omega

theorem moveBurst_room (hc : Counted size total odd t) (hsize : size < 2 ^ 32) (hroom : Room size total odd a) :
    (Continues size total a ∧ ∃ t', moveBurst size a t = (none, t') ∧
        Counted size (total + a.count) (odd + a.count % 2) t') ∨
      ¬Continues size total a ∧ size < total + a.count ∧
        ∃ t', moveBurst size a t = (some (fail ataEpifatal), t') ∧ t'.place = t.place ∧ (t.Tracked → t'.Tracked) := by
  obtain ⟨hlt, hfits, hfirst⟩ := hroom
  have hodd := hc.odd_le
  have htotal : dword (t.totalBytes + a.count) = total + a.count := by rw [hc.totalBytes, dword_of_lt hlt]
  rcases Nat.lt_or_ge size (total + a.count) with hover | hfit
  · by_cases hmore : a.io = true ∧ total + a.count ≤ size + 2 ^ 24 ∧ size + 2 ^ 24 < 2 ^ 32
    · obtain ⟨hio, hfew, hlimit⟩ := hmore
      obtain ⟨t', m, hrun, htotal', hover', htracked, hplace, hm⟩ := hc.drops hio hover hfew hlimit
      have hcount := a.count_lt
      have hinside := hc.inside
      have hstored : 2 * t'.place ≤ size ∧ (2 * t'.place = size ∨ size < 2 ^ 16) := by
        rcases Nat.lt_or_ge size total with hbefore | hbefore
        · have hplace' := (hc.overflow hbefore).2.2.2
          omega
        · have hplace' := hc.place hbefore
          have hcase := hfirst hbefore hover hio hlimit
          omega
      exact .inl ⟨.inr ⟨hio, hfew, hlimit⟩, t', hrun, htotal', hlt, by omega, fun hfit => by omega,
        fun _ => ⟨hover', hfew, hlimit, hstored.2⟩, hstored.1, htracked⟩
    · refine .inr ⟨?_, hover, moveBurst_givesUp (by omega) fun hio => ?_⟩
      · rintro (hfit | hmore')
        · omega
        · exact hmore hmore'
      · rw [htotal]
        unfold dword
        simp only [hio, true_and] at hmore
        omega
  · obtain ⟨t', hrun, hplace, htotal', htracked⟩ := moveBurst_fits (a := a) (by omega : dword (t.totalBytes + a.count) ≤ size)
    have hbefore := hc.place (by omega)
    have hinside := hfits hfit
    refine .inl ⟨.inl hfit, t', hrun, htotal'.trans htotal, hlt, by omega, fun _ => by omega, fun hover => by omega, by omega,
      htracked hc.tracked⟩

theorem moveBurst_noRoom (hc : Counted size total odd t) (hsize : size < 2 ^ 32) (hno : ¬Room size total odd a) :
    size < 2 * (moveBurst size a t).2.place ∧ (moveBurst size a t).2.Tracked := by
  have hodd := hc.odd_le
  by_cases hwrap : 2 ^ 32 ≤ total + a.count
  · obtain ⟨hle, -, hout⟩ := hc.wraps hsize hwrap
    obtain ⟨t', hrun, hplace, -, htracked⟩ := moveBurst_fits hle
    rw [hrun]
    exact ⟨by dsimp only; omega, htracked hc.tracked⟩
  · have hlt := Nat.lt_of_not_le hwrap
    have htotal : dword (t.totalBytes + a.count) = total + a.count := by rw [hc.totalBytes, dword_of_lt hlt]
    rcases Nat.lt_or_ge size (total + a.count) with hover | hfit
    · have hfirst : total ≤ size ∧ a.io = true ∧ size + 2 ^ 24 < 2 ^ 32 ∧
          ¬(total = 0 ∧ a.count % 2 = 1 ∨ odd = 0 ∧ a.count % 2 = 0 ∧ size % 2 = 0) := by
        by_contra hnot
        refine hno ⟨hlt, fun hfit => absurd hfit (Nat.not_le.mpr hover), fun htotal _ hio hlimit => ?_⟩
        by_contra hcase
        exact hnot ⟨htotal, hio, hlimit, hcase⟩
      obtain ⟨hbefore, hio, hlimit, hcase⟩ := hfirst
      have hcount := a.count_lt
      have hplace' := hc.place hbefore
      have hinside := hc.inside
      obtain ⟨t', m, hrun, -, -, htracked, hplace, hm⟩ := hc.drops hio hover (by omega) hlimit
      rw [hrun]
      exact ⟨by dsimp only; omega, htracked⟩
    · obtain ⟨t', hrun, hplace, -, htracked⟩ := moveBurst_fits (htotal.symm ▸ hfit : dword (t.totalBytes + a.count) ≤ size)
      have hbefore := hc.place (by omega)
      have hout : size < total + a.count + (odd + a.count % 2) := by
        by_contra hin
        exact hno ⟨hlt, fun _ => by omega, fun _ hover => absurd hover (Nat.not_lt.mpr hfit)⟩
      rw [hrun]
      exact ⟨by dsimp only; omega, htracked hc.tracked⟩

theorem readSome_any (size : ℕ) (data : ℕ → BitVec 16) (n i : ℕ) (t : Packet) : ∃ m, Moved m t (readSome size data n i t) := by
  induction n generalizing i t with
  | zero => exact ⟨0, Moved.refl t⟩
  | succ n ih =>
    rw [readSome]
    split
    · obtain ⟨m, hmoved⟩ := ih (i + 1) (t.store (data i))
      exact ⟨1 + m, (store_moved (data i) t).trans hmoved⟩
    · exact ih (i + 1) t

/-- The pointer only moves forward. -/
def Grows (t t' : Packet) : Prop := t.place ≤ t'.place ∧ (t.Tracked → t'.Tracked)

theorem Moved.grows (h : Moved n t t') : Grows t t' := ⟨h.place ▸ Nat.le_add_right .., h.tracked⟩

theorem moveBurst_grows (size : ℕ) (a : Answer) (t : Packet) : Grows t (moveBurst size a t).2 := by
  unfold moveBurst
  dsimp only
  split
  · split
    · split
      · exact ⟨Nat.le_refl _, id⟩
      · obtain ⟨m, hmoved⟩ := readSome_any size a.data ((a.count + 1) / 2) 0
          { t with totalBytes := dword (t.totalBytes + a.count), overflow := true }
        exact hmoved.grows
    · exact ⟨Nat.le_refl _, id⟩
  · split
    · exact (readWords_moved a.data ((a.count + 1) / 2) 0 { t with totalBytes := dword (t.totalBytes + a.count) }).grows
    · exact (writeWords_moved ((a.count + 1) / 2) { t with totalBytes := dword (t.totalBytes + a.count) }).grows

theorem packetRound_grows (polled : Bool) (size : ℕ) (a : Answer) (t : Packet) : Grows t (packetRound polled size a t).2 := by
  unfold packetRound
  split
  · exact ⟨Nat.le_refl _, id⟩
  · split
    · exact moveBurst_grows size a t
    · exact ⟨Nat.le_refl _, id⟩

theorem packetLoop_grows (polled : Bool) (size : ℕ) (answers : List Answer) (t : Packet) :
    Grows t (packetLoop polled size answers t).2 := by
  induction answers generalizing t with
  | nil => exact ⟨Nat.le_refl _, id⟩
  | cons a rest ih =>
    have hround := packetRound_grows polled size a t
    rw [packetLoop]
    split
    · next t' heq =>
      rw [heq] at hround
      exact hround
    · next t' heq =>
      rw [heq] at hround
      have hrest := ih t'
      exact ⟨Nat.le_trans hround.1 hrest.1, fun ht => hrest.2 (hround.2 ht)⟩

end Bursts

section Runs

/-- The device has a burst for the driver. -/
def Answer.Burst (polled : Bool) (a : Answer) : Prop := a.late polled = none ∧ a.drq = true

instance (polled : Bool) (a : Answer) : Decidable (a.Burst polled) := inferInstanceAs (Decidable (_ ∧ _))

/-- The bytes that the device has offered or asked for. -/
def offered (polled : Bool) : List Answer → ℕ
  | [] => 0
  | a :: rest => if a.Burst polled then a.count + offered polled rest else 0

/-- Every burst that the driver takes is let in. -/
def StaysIn (polled : Bool) (size : ℕ) : ℕ → ℕ → List Answer → Prop
  | _, _, [] => True
  | total, odd, a :: rest =>
    a.Burst polled → Room size total odd a ∧
      (Continues size total a → StaysIn polled size (total + a.count) (odd + a.count % 2) rest)

instance decidableStaysIn (polled : Bool) (size : ℕ) :
    ∀ total odd answers, Decidable (StaysIn polled size total odd answers)
  | _, _, [] => isTrue trivial
  | total, odd, a :: rest =>
    have := decidableStaysIn polled size (total + a.count) (odd + a.count % 2) rest
    inferInstanceAs (Decidable (_ → _ ∧ (_ → _)))

/-- The accesses are in the buffer, and a call that has got more than the buffer holds does not end well. -/
def Contained (size more : ℕ) (r : Option Ending × Packet) : Prop :=
  r.2.InBuffer size ∧ ∀ ending, r.1 = some ending → size < more → ending.res ≠ 0

theorem Answer.late_ne {code : ℤ} (h : a.late polled = some code) : code ≠ 0 := by
  unfold Answer.late at h
  split at h <;> split at h <;> cases h <;> decide

theorem packetRound_burst (ha : a.Burst polled) : packetRound polled size a t = moveBurst size a t := by
  rw [packetRound, ha.1]
  exact if_pos ha.2

theorem Counted.ends (hc : Counted size total odd t) (ha : ¬a.Burst polled) :
    ∃ ending, packetRound polled size a t = (some ending, t) ∧ (size < total → ending.res ≠ 0) := by
  unfold packetRound
  split
  · next code hlate => exact ⟨_, rfl, fun _ => Answer.late_ne hlate⟩
  · next hlate =>
    rw [if_neg fun hdrq => ha ⟨hlate, hdrq⟩]
    refine ⟨_, rfl, fun hover => ?_⟩
    unfold finish
    rw [if_pos (hc.overflow hover).1]
    split
    · exact fun hzero => absurd hzero (by decide : ataEpipostcmd ≠ 0)
    · decide

/-- The induction is on the answers; each burst either keeps the invariant or leaves the buffer for good. -/
theorem packetLoop_contained_iff (hsize : size < 2 ^ 32) {answers : List Answer} (hc : Counted size total odd t) :
    Contained size (total + offered polled answers) (packetLoop polled size answers t) ↔
      StaysIn polled size total odd answers := by
  induction answers generalizing total odd t with
  | nil => exact ⟨fun _ => trivial, fun _ => ⟨hc.tracked.inBuffer_iff.mpr hc.inside, fun _ hend => nomatch hend⟩⟩
  | cons a rest ih =>
    unfold StaysIn offered packetLoop
    by_cases ha : a.Burst polled
    · rw [if_pos ha, packetRound_burst ha, ← Nat.add_assoc]
      by_cases hroom : Room size total odd a
      · rcases moveBurst_room hc hsize hroom with ⟨hgo, t', hrun, hc'⟩ | ⟨hstop, hover, t', hrun, hplace, htracked⟩
        · rw [hrun]
          exact (ih hc').trans ⟨fun hrest _ => ⟨hroom, fun _ => hrest⟩, fun hall => (hall ha).2 hgo⟩
        · rw [hrun]
          refine ⟨fun _ _ => ⟨hroom, fun hgo => absurd hgo hstop⟩, fun _ => ⟨?_, fun ending hend _ => ?_⟩⟩
          · exact (htracked hc.tracked).inBuffer_iff.mpr (hplace ▸ hc.inside)
          · cases hend
            decide
      · obtain ⟨hout, htracked⟩ := moveBurst_noRoom hc hsize hroom
        refine ⟨fun hcontained => absurd hcontained.1 ?_, fun hall => absurd (hall ha).1 hroom⟩
        split
        · next t' heq =>
          rw [heq] at hout htracked
          exact fun hin => absurd (htracked.inBuffer_iff.mp hin) (Nat.not_le.mpr hout)
        · next t' heq =>
          rw [heq] at hout htracked
          have hgrows := packetLoop_grows polled size rest t'
          intro hin
          have hle := (hgrows.2 htracked).inBuffer_iff.mp hin
          exact absurd hout (by have := hgrows.1; dsimp only; omega)
    · obtain ⟨ending, hrun, hres⟩ := hc.ends ha
      rw [if_neg ha, hrun]
      refine ⟨fun _ hburst => absurd hburst ha, fun _ => ⟨hc.tracked.inBuffer_iff.mpr hc.inside, fun e hend hmore => ?_⟩⟩
      cases hend
      exact hres hmore

theorem packetCommand_res {d : AtapiDevice} {select : ℤ} {first : Answer} (h : packetCommand d select first = some ending) :
    ending.res ≠ 0 := by
  unfold packetCommand at h
  split at h
  · next hselect =>
    cases h
    exact hselect
  · split at h
    · next code hlate =>
      cases h
      exact Answer.late_ne hlate
    · split at h
      · cases h
        exact (by decide : ataEpiprecmd ≠ 0)
      · cases h

/-- Either the device does not take the packet, or its bursts are let in. -/
theorem ataPacketPio_contained_iff (hsize : size < 2 ^ 32) (d : AtapiDevice) (packet : List (BitVec 16)) (buffer : ℕ → BitVec 16)
    (select : ℤ) (first : Answer) (answers : List Answer) :
    Contained size (offered d.polledMode answers) (ataPacketPio d packet buffer size select first answers) ↔
      packetCommand d select first ≠ none ∨ StaysIn d.polledMode size 0 0 answers := by
  have htracked : ∀ sent, (⟨0, false, 0, buffer, sent, []⟩ : Packet).Tracked := fun sent k => by simp
  unfold ataPacketPio
  split
  · next ending hcommand =>
    refine ⟨fun _ => .inl (by simp [hcommand]), fun _ => ⟨?_, fun e hend _ => ?_⟩⟩
    · exact (htracked []).inBuffer_iff.mpr (Nat.zero_le size)
    · cases hend
      exact packetCommand_res hcommand
  · next hcommand =>
    have hc : Counted size 0 0 ⟨0, false, 0, buffer, packet, []⟩ :=
      ⟨rfl, by decide, Nat.le_refl 0, fun _ => rfl, fun hover => absurd hover (Nat.not_lt_zero size), Nat.zero_le size,
        htracked packet⟩
    have hrun : Contained size (0 + offered d.polledMode answers) _ ↔ StaysIn d.polledMode size 0 0 answers :=
      packetLoop_contained_iff hsize hc
    rw [Nat.zero_add] at hrun
    rw [hrun]
    exact ⟨.inr, fun hcase => hcase.resolve_left fun hne => hne hcommand⟩

/-- A device that is ready to send `count` bytes. -/
def sending (count : BitVec 8) : Answer := ⟨false, 0x58, 0, 0x02, count, 0, fun _ => 0⟩

/-- A device that takes a packet, and one that has no more data. -/
def taking : Answer := ⟨false, 0x58, 0, 0x01, 0, 0, fun _ => 0⟩

def resting : Answer := ⟨false, 0x50, 0, 0x03, 0, 0, fun _ => 0⟩

theorem evenBursts_contained :
    Contained 36 (offered true [sending 32, sending 32, resting])
      (ataPacketPio ⟨true, false⟩ (List.replicate 6 0) (fun _ => 0) 36 0 taking [sending 32, sending 32, resting]) :=
  (ataPacketPio_contained_iff (by decide) _ _ _ _ _ _).mpr (.inr (by decide))

/-- Two bursts of one byte each are two words. -/
theorem oddBursts_notContained :
    ¬Contained 2 (offered true [sending 1, sending 1, resting])
      (ataPacketPio ⟨true, false⟩ (List.replicate 6 0) (fun _ => 0) 2 0 taking [sending 1, sending 1, resting]) :=
  fun hcontained => absurd (hcontained.1 1 (by decide)) (by decide)

end Runs

end FreeDos32.Ata
