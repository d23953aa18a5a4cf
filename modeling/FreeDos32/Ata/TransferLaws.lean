import FreeDos32.Ata.Transfer

namespace FreeDos32.Ata

open Kernel (dword dsub dword_of_lt)

variable {move : ℕ → Host → Host} {m k n count b bound start : ℕ} {h : Host} {d : AtaDevice} {s : Drive} {command : Command}
  {use48 : Bool}

section Blocks

/-- A counter of zero stands for as many sectors as there are values. -/
def amount (m count : ℕ) : ℕ := if count = 0 then m else count

def moveAll (move : ℕ → Host → Host) : ℕ → ℕ → Host → Host
  | 0, _, h => h
  | n + 1, b, h => moveAll move n (b + 1) (move b h)

theorem moveAll_add (n k b : ℕ) (h : Host) : moveAll move (n + k) b h = moveAll move k (b + n) (moveAll move n b h) := by
  induction n generalizing b h with
  | zero => rw [Nat.zero_add, Nat.add_zero, moveAll]
  | succ n ih => rw [Nat.succ_add, moveAll, ih, moveAll, Nat.add_assoc, Nat.add_comm 1 n]

theorem amount_pos (hm : 0 < m) (count : ℕ) : 0 < amount m count := by
  unfold amount
  split <;> omega

theorem count_dec (hm : 0 < m) (hc : count < m) : (count + (m - 1)) % m = amount m count - 1 := by
  unfold amount
  split
  · next h0 => rw [h0, Nat.zero_add, Nat.mod_eq_of_lt (by omega)]
  · have hsum : count + (m - 1) = count - 1 + m := by omega
    rw [hsum, Nat.add_mod_right, Nat.mod_eq_of_lt (by omega)]

theorem amount_of_ne (h : count ≠ 0) : amount m count = count := if_neg h

theorem moveBlock_last (hm : 0 < m) (hc : count < m) (hk : amount m count ≤ k) :
    moveBlock move m k count b h = (0, b + amount m count, moveAll move (amount m count) b h) := by
  induction k generalizing count b h with
  | zero => exact absurd (amount_pos hm count) (by omega)
  | succ k ih =>
    rw [moveBlock, count_dec hm hc]
    obtain ⟨n, hn⟩ := Nat.exists_eq_add_of_le' (amount_pos hm count)
    rw [hn, Nat.add_sub_cancel]
    split
    · next h0 => rw [h0]; rfl
    · next h0 =>
      have hlt : n < m := by
        unfold amount at hn
        split at hn <;> omega
      have hamount : amount m n = n := amount_of_ne h0
      have hk' : amount m n ≤ k := by
        rw [hamount]
        omega
      rw [ih hlt hk', hamount, moveAll, Nat.add_assoc, Nat.add_comm 1 n]

theorem moveBlock_more (hm : 0 < m) (hc : count < m) (h0 : 0 < k) (hk : k < amount m count) :
    moveBlock move m k count b h = (amount m count - k, b + k, moveAll move k b h) := by
  induction k generalizing count b h with
  | zero => exact absurd h0 (Nat.lt_irrefl 0)
  | succ k ih =>
    rw [moveBlock, count_dec hm hc]
    obtain ⟨n, hn⟩ := Nat.exists_eq_add_of_le' (amount_pos hm count)
    rw [hn, Nat.add_sub_cancel]
    have hne : n ≠ 0 := by omega
    have hlt : n < m := by
      unfold amount at hn
      split at hn <;> omega
    have hamount : amount m n = n := amount_of_ne hne
    rw [if_neg hne]
    cases k with
    | zero => rfl
    | succ k =>
      have hk' : k + 1 < amount m n := by
        rw [hamount]
        omega
      have hplace : b + 1 + (k + 1) = b + (k + 1 + 1) := by omega
      rw [ih hlt (Nat.succ_pos k) hk', hamount, hplace, Nat.add_sub_add_right]
      rfl

/-- Each transfer is one sector less for the drive, if it has any left. -/
def Consumes (move : ℕ → Host → Host) : Prop := ∀ b h, (move b h).drive.left = h.drive.left - 1

theorem Consumes.all (hmove : Consumes move) (n b : ℕ) (h : Host) : (moveAll move n b h).drive.left = h.drive.left - n := by
  induction n generalizing b h with
  | zero => rfl
  | succ n ih => rw [moveAll, ih, hmove, Nat.sub_sub, Nat.add_comm]

theorem moveBlocks_done (hmove : Consumes move) (hm : 0 < m) (hk : 0 < k) (hc : count < m) (hbound : amount m count ≤ bound)
    (hleft : amount m count ≤ h.drive.left) :
    moveBlocks move m k bound count b h = some (0, moveAll move (amount m count) b h) := by
  induction bound generalizing count b h with
  | zero => exact absurd (amount_pos hm count) (by omega)
  | succ bound ih =>
    have hpos := amount_pos hm count
    have hdrq : h.drive.drq := Nat.lt_of_lt_of_le hpos hleft
    rw [moveBlocks, if_neg (not_not_intro hdrq)]
    by_cases hlast : amount m count ≤ k
    · rw [moveBlock_last hm hc hlast]
      rfl
    · have hmore := Nat.lt_of_not_le hlast
      have hne : amount m count - k ≠ 0 := by omega
      have hlt : amount m count - k < m := by
        unfold amount
        split <;> omega
      have hrest : amount m (amount m count - k) = amount m count - k := amount_of_ne hne
      have hstep := hmove.all k b h
      rw [moveBlock_more hm hc hk hmore]
      dsimp only
      rw [if_neg hne, ih hlt (by omega) (by omega), hrest, ← moveAll_add, Nat.add_sub_cancel' (Nat.le_of_lt hmore)]

theorem moveBlocks_short (hmove : Consumes move) (hm : 0 < m) (hk : 0 < k) (hc : count < m) (hbound : amount m count ≤ bound)
    (hleft : h.drive.left = 0 ∨ h.drive.left + k ≤ amount m count) :
    ∃ h', moveBlocks move m k bound count b h = some (ataEdrqClear, h') := by
  induction bound generalizing count b h with
  | zero => exact absurd (amount_pos hm count) (by omega)
  | succ bound ih =>
    rw [moveBlocks]
    by_cases hdrq : h.drive.drq
    · have hpos : 0 < h.drive.left := hdrq
      have hmore : k < amount m count := by omega
      have hne : amount m count - k ≠ 0 := by omega
      have hlt : amount m count - k < m := by
        unfold amount
        split <;> omega
      have hrest : amount m (amount m count - k) = amount m count - k := amount_of_ne hne
      have hstep := hmove.all k b h
      rw [if_neg (not_not_intro hdrq), moveBlock_more hm hc hk hmore]
      dsimp only
      rw [if_neg hne]
      exact ih hlt (by omega) (by omega)
    · rw [if_pos hdrq]
      exact ⟨h, rfl⟩

end Blocks

section Registers

/-- The geometry fits into the registers, a block is shorter than a command, and only a device with LBA has 48 bits of it. -/
structure AtaDevice.Ok (d : AtaDevice) : Prop where
  totalBlocks_lt : d.totalBlocks < 2 ^ 32
  firstSector_lt : d.firstSector < 2 ^ 32
  heads : d.lba = false → 0 < d.heads ∧ d.heads ≤ 16
  sectors : d.lba = false → 0 < d.sectors ∧ d.sectors < 2 ^ 8
  lba48 : d.lba48 = true → d.lba = true
  sectorsPerBlock_lt : d.sectorsPerBlock < 2 ^ 8

theorem blockLength_pos (d : AtaDevice) : 0 < d.blockLength := by
  unfold AtaDevice.blockLength
  split <;> omega

/-- The address that comes out of the registers. -/
def AtaDevice.addressed (use48 : Bool) (start : ℕ) (d : AtaDevice) : ℕ :=
  if use48 then start else if d.lba then start % 2 ^ 28 else start % (65536 * d.heads * d.sectors)

theorem devhead_lba : ∀ x < 16, ∀ slave : Bool,
    (x ||| (if slave then 0x10 else 0) ||| 0x40 ||| 0xA0) % 256 % 16 = x ∧
      (x ||| (if slave then 0x10 else 0) ||| 0x40 ||| 0xA0) % 256 / 64 % 2 = 1 := by
  decide

theorem devhead_chs : ∀ x < 16, ∀ slave : Bool, (x ||| (if slave then 0x10 else 0) ||| 0xA0) % 256 % 16 = x ∧
    (x ||| (if slave then 0x10 else 0) ||| 0xA0) % 256 / 64 % 2 = 0 := by
  decide

theorem target_lba28 (hlba : d.lba = true) (count : ℕ) (s : Drive) :
    (writeRegStartCount start count false d s).target false = start % 2 ^ 28 := by
  obtain ⟨hhead, hbit⟩ := devhead_lba (start / 2 ^ 24 % 16) (Nat.mod_lt _ (by decide)) d.slave
  have htarget : (writeRegStartCount start count false d s).target false =
      start % 256 + start / 2 ^ 8 % 256 * 2 ^ 8 + start / 2 ^ 16 % 256 * 2 ^ 16 + start / 2 ^ 24 % 16 * 2 ^ 24 := by
    simp only [writeRegStartCount, hlba, if_true, Bool.false_eq_true, if_false, Drive.target, Drive.outbCnt, Drive.outbSect,
      Drive.outbCylL, Drive.outbCylH, Drive.outbDevhead, Latch.outb, AtaDevice.devBit, hhead, hbit]
  rw [htarget]
  omega

theorem target_lba48 (hlba : d.lba = true) (hstart : start < 2 ^ 32) (count : ℕ) (s : Drive) :
    (writeRegStartCount start count true d s).target true = start := by
  have htarget : (writeRegStartCount start count true d s).target true =
      start % 256 + start / 2 ^ 8 % 256 * 2 ^ 8 + start / 2 ^ 16 % 256 * 2 ^ 16 + start / 2 ^ 24 % 256 * 2 ^ 24 +
        start / 2 ^ 32 % 256 * 2 ^ 32 + start / 2 ^ 40 % 256 * 2 ^ 40 := by
    simp only [writeRegStartCount, hlba, if_true, Drive.target, Drive.outbCnt, Drive.outbSect, Drive.outbCylL, Drive.outbCylH,
      Latch.outb]
  rw [htarget]
  omega

theorem target_chs (hd : d.Ok) (hlba : d.lba = false) (hheads : s.heads = d.heads) (hsectors : s.sectors = d.sectors)
    (count : ℕ) : (writeRegStartCount start count use48 d s).target false = start % (65536 * d.heads * d.sectors) := by
  obtain ⟨hheadsPos, hheadsLe⟩ := hd.heads hlba
  obtain ⟨hsectorsPos, hsectorsLt⟩ := hd.sectors hlba
  have hlt : start / d.sectors % d.heads < 16 := Nat.lt_of_lt_of_le (Nat.mod_lt _ hheadsPos) hheadsLe
  obtain ⟨hhead, hbit⟩ := devhead_chs (start / d.sectors % d.heads) hlt d.slave
  have hmod := Nat.mod_lt start hsectorsPos
  have htarget : (writeRegStartCount start count use48 d s).target false =
      ((start / d.sectors / d.heads % 256 + start / d.sectors / d.heads / 2 ^ 8 % 256 * 2 ^ 8) * d.heads +
        start / d.sectors % d.heads) * d.sectors + ((start % d.sectors + 1) % 256 - 1) := by
    simp only [writeRegStartCount, hlba, Bool.false_eq_true, if_false, Drive.target, Drive.outbCnt, Drive.outbSect,
      Drive.outbCylL, Drive.outbCylH, Drive.outbDevhead, Latch.outb, AtaDevice.devBit, hhead, hbit, hheads, hsectors,
      Nat.zero_ne_one]
  have hcyl : start / d.sectors / d.heads % 256 + start / d.sectors / d.heads / 2 ^ 8 % 256 * 2 ^ 8 =
      start / d.sectors / d.heads % 65536 := by omega
  have hsect : (start % d.sectors + 1) % 256 - 1 = start % d.sectors := by omega
  have hprod : 65536 * d.heads * d.sectors = d.sectors * (d.heads * 65536) := by
    rw [Nat.mul_comm 65536, Nat.mul_comm]
  rw [htarget, hcyl, hsect, hprod, Nat.mod_mul, Nat.mod_mul]
  rw [Nat.mul_comm (start / d.sectors / d.heads % 65536), Nat.mul_comm _ d.sectors, Nat.add_comm (d.heads * _), Nat.add_comm]

theorem target_writeReg (hd : d.Ok) (hheads : s.heads = d.heads) (hsectors : s.sectors = d.sectors) (hstart : start < 2 ^ 32)
    (h48 : use48 = true → d.lba48 = true) (count : ℕ) :
    (writeRegStartCount start count use48 d s).target use48 = d.addressed use48 start := by
  unfold AtaDevice.addressed
  cases use48 with
  | true => exact target_lba48 (hd.lba48 (h48 rfl)) hstart count s
  | false =>
    cases hlba : d.lba with
    | true => exact target_lba28 hlba count s
    | false => exact target_chs hd hlba hheads hsectors count

/-- The count that comes out of the registers after `pio_data_in` has written a byte to them. -/
theorem quantity_in (start : ℕ) (hlba : use48 = true → d.lba = true) (hcount : count < 2 ^ 8) (s : Drive) :
    (writeRegStartCount start count use48 d s).quantity use48 = amount (if use48 then 65536 else 256) count := by
  have hdiv : count / 2 ^ 8 % 256 = 0 := by omega
  have hmod : count % 256 = count := Nat.mod_eq_of_lt hcount
  cases use48 with
  | true =>
    simp only [writeRegStartCount, hlba rfl, if_true, Drive.quantity, Drive.outbCnt, Drive.outbSect, Drive.outbCylL,
      Drive.outbCylH, Latch.outb, hdiv, hmod, Nat.zero_mul, Nat.zero_add]
    rfl
  | false =>
    have hcnt : (writeRegStartCount start count false d s).cnt.cur = count := hmod
    simp only [Drive.quantity, Bool.false_eq_true, if_false, hcnt]
    rfl

/-- After `pio_data_out` the low byte stands in both halves of the count. -/
theorem quantity_out (start : ℕ) (use48 : Bool) (d : AtaDevice) (hcount : count < 2 ^ 8) (s : Drive) :
    ((writeRegStartCount start count use48 d s).outbCnt count).quantity use48 =
      if use48 then amount 65536 (257 * count) else amount 256 count := by
  have hmod : count % 256 = count := Nat.mod_eq_of_lt hcount
  have hcur : ((writeRegStartCount start count use48 d s).outbCnt count).cnt = ⟨count, count⟩ := by
    simp only [Drive.outbCnt, Latch.outb, writeRegStartCount, hmod]
  have hsum : count * 256 + count = 257 * count := by omega
  cases use48 with
  | true =>
    simp only [Drive.quantity, hcur, if_true, hsum]
    rfl
  | false =>
    simp only [Drive.quantity, hcur, Bool.false_eq_true, if_false]
    rfl

theorem writeReg_frame (start count : ℕ) (use48 : Bool) (d : AtaDevice) (s : Drive) :
    (writeRegStartCount start count use48 d s).disk = s.disk ∧ (writeRegStartCount start count use48 d s).heads = s.heads ∧
      (writeRegStartCount start count use48 d s).sectors = s.sectors := by
  cases use48 <;> cases hlba : d.lba <;> simp [writeRegStartCount, hlba, Drive.outbCnt, Drive.outbSect, Drive.outbCylL,
    Drive.outbCylH, Drive.outbDevhead]

end Registers

section Commands

/-- No command is under way, and the drive is addressed with the geometry that the driver knows. -/
structure Host.Idle (d : AtaDevice) (h : Host) : Prop where
  left : h.drive.left = 0
  heads : h.drive.heads = d.heads
  sectors : h.drive.sectors = d.sectors

/-- A command for `quantity` sectors from `address` on is under way. -/
structure Given (d : AtaDevice) (address quantity : ℕ) (h h' : Host) : Prop where
  disk : h'.drive.disk = h.drive.disk
  buffer : h'.buffer = h.buffer
  heads : h'.drive.heads = d.heads
  sectors : h'.drive.sectors = d.sectors
  address : h'.drive.address = address
  left : h'.drive.left = quantity

theorem deviceSelect_idle (hawake : d.sleep = false) (h : Host) (hidle : h.Idle d) :
    ∃ h', deviceSelect d h = (0, h') ∧ h'.Idle d ∧ h'.drive.disk = h.drive.disk ∧ h'.buffer = h.buffer := by
  have hdrq : ¬h.drive.drq := by simp [Drive.drq, hidle.left]
  unfold deviceSelect
  rw [if_neg (by simp [hawake]), if_neg hdrq]
  split
  · exact ⟨_, rfl, ⟨hidle.left, hidle.heads, hidle.sectors⟩, rfl, rfl⟩
  · exact ⟨h, rfl, hidle, rfl, rfl⟩

theorem deviceSelect_busy (hleft : 0 < h.drive.left) (d : AtaDevice) : ∃ res, res ≠ 0 ∧ deviceSelect d h = (res, h) := by
  unfold deviceSelect
  split
  · exact ⟨_, by decide, rfl⟩
  · have hdrq : h.drive.drq := hleft
    rw [if_pos hdrq]
    exact ⟨_, by decide, rfl⟩

theorem deviceSelect_asleep (hsleep : d.sleep = true) (h : Host) : deviceSelect d h = (ataEsleep, h) := if_pos hsleep

theorem pioDataIn_idle (hd : d.Ok) (hawake : d.sleep = false) (hidle : h.Idle d) (hstart : start < 2 ^ 32)
    (h48 : use48 = true → d.lba48 = true) (hext : command.ext = use48) (hcount : count < 2 ^ 8) (b : ℕ) :
    ∃ h', Given d (d.addressed use48 start) (amount (if use48 then 65536 else 256) count) h h' ∧
      pioDataIn d count start b command use48 h = moveBlocks moveIn 256 d.blockLength 256 count b h' := by
  obtain ⟨h₁, hselect, hidle₁, hdisk, hbuffer⟩ := deviceSelect_idle hawake h hidle
  obtain ⟨hd', hh', hs'⟩ := writeReg_frame start count use48 d h₁.drive
  refine ⟨{ h₁ with drive := (writeRegStartCount start count use48 d h₁.drive).outbCommand command }, ?_, ?_⟩
  · refine ⟨hd'.trans hdisk, hbuffer, hh'.trans hidle₁.heads, hs'.trans hidle₁.sectors, ?_, ?_⟩
    · have htarget := target_writeReg hd hidle₁.heads hidle₁.sectors hstart h48 count
      rw [← hext] at htarget ⊢
      exact htarget
    · have hquantity := quantity_in start (fun h => hd.lba48 (h48 h)) hcount h₁.drive
      rw [← hext] at hquantity ⊢
      exact hquantity
  · rw [pioDataIn, hselect]
    dsimp only
    rw [if_neg (by simp), Nat.mod_eq_of_lt hcount]
    rfl

theorem pioDataOut_idle (hd : d.Ok) (hawake : d.sleep = false) (hidle : h.Idle d) (hstart : start < 2 ^ 32)
    (h48 : use48 = true → d.lba48 = true) (hext : command.ext = use48) (hcount : count < 2 ^ 8) (b : ℕ) :
    ∃ h', Given d (d.addressed use48 start) (if use48 then amount 65536 (257 * count) else amount 256 count) h h' ∧
      pioDataOut d count start b command use48 h = moveBlocks moveOut 65536 d.blockLength 65536 count b h' := by
  obtain ⟨h₁, hselect, hidle₁, hdisk, hbuffer⟩ := deviceSelect_idle hawake h hidle
  obtain ⟨hd', hh', hs'⟩ := writeReg_frame start count use48 d h₁.drive
  refine ⟨{ h₁ with drive := ((writeRegStartCount start count use48 d h₁.drive).outbCnt count).outbCommand command }, ?_, ?_⟩
  · refine ⟨hd'.trans hdisk, hbuffer, hh'.trans hidle₁.heads, hs'.trans hidle₁.sectors, ?_, ?_⟩
    · have htarget := target_writeReg hd hidle₁.heads hidle₁.sectors hstart h48 count
      rw [← hext] at htarget ⊢
      exact htarget
    · have hquantity := quantity_out start use48 d hcount h₁.drive
      rw [← hext] at hquantity ⊢
      exact hquantity
  · rw [pioDataOut, hselect]
    dsimp only
    rw [if_neg (by simp), Nat.mod_eq_of_lt (by omega)]
    rfl

end Commands

section Moves

theorem moveIn_consumes : Consumes moveIn := by
  intro b h
  show h.drive.insw.2.left = h.drive.left - 1
  unfold Drive.insw
  split
  · rfl
  · next hdrq =>
    simp only [Drive.drq] at hdrq
    dsimp only
    omega

theorem moveOut_consumes : Consumes moveOut := by
  intro b h
  unfold moveOut Drive.outsw
  split
  · rfl
  · next hdrq =>
    simp only [Drive.drq] at hdrq
    dsimp only
    omega

/-- What `n` sectors read make of the host. -/
structure MovedIn (n b : ℕ) (h h' : Host) : Prop where
  disk : h'.drive.disk = h.drive.disk
  heads : h'.drive.heads = h.drive.heads
  sectors : h'.drive.sectors = h.drive.sectors
  left : h'.drive.left = h.drive.left - n
  buffer : ∀ i, h'.buffer i = if b ≤ i ∧ i < b + n then h.drive.disk (h.drive.address + (i - b)) else h.buffer i

/-- What `n` sectors written make of the host. -/
structure MovedOut (n b : ℕ) (h h' : Host) : Prop where
  buffer : h'.buffer = h.buffer
  heads : h'.drive.heads = h.drive.heads
  sectors : h'.drive.sectors = h.drive.sectors
  left : h'.drive.left = h.drive.left - n
  disk : ∀ a, h'.drive.disk a = if h.drive.address ≤ a ∧ a < h.drive.address + n then h.buffer (b + (a - h.drive.address))
    else h.drive.disk a

theorem moveAll_in (hn : n ≤ h.drive.left) (b : ℕ) : MovedIn n b h (moveAll moveIn n b h) := by
  induction n generalizing b h with
  | zero => exact ⟨rfl, rfl, rfl, rfl, fun i => (if_neg (by omega)).symm⟩
  | succ n ih =>
    have hdrq : h.drive.drq := Nat.lt_of_lt_of_le (Nat.succ_pos n) hn
    have hstep : moveIn b h = { h with
        drive := { h.drive with address := h.drive.address + 1, left := h.drive.left - 1 },
        buffer := Function.update h.buffer b (h.drive.disk h.drive.address) } := by
      rw [moveIn, Drive.insw, if_pos hdrq]
    have hrest : n ≤ (moveIn b h).drive.left := by
      rw [moveIn_consumes]
      omega
    have hih := ih hrest (b + 1)
    rw [moveAll]
    rw [hstep] at hih ⊢
    refine ⟨hih.disk, hih.heads, hih.sectors, ?_, fun i => ?_⟩
    · rw [hih.left]
      dsimp only
      omega
    · rw [hih.buffer]
      dsimp only
      by_cases hi : i = b
      · rw [hi, if_neg (by omega), if_pos (by omega), Function.update_self, Nat.sub_self, Nat.add_zero]
      · rw [Function.update_of_ne hi]
        by_cases hin : b + 1 ≤ i ∧ i < b + 1 + n
        · have hplace : h.drive.address + 1 + (i - (b + 1)) = h.drive.address + (i - b) := by omega
          rw [if_pos hin, if_pos (by omega), hplace]
        · rw [if_neg hin, if_neg (by omega)]

theorem moveAll_out (hn : n ≤ h.drive.left) (b : ℕ) : MovedOut n b h (moveAll moveOut n b h) := by
  induction n generalizing b h with
  | zero => exact ⟨rfl, rfl, rfl, rfl, fun a => (if_neg (by omega)).symm⟩
  | succ n ih =>
    have hdrq : h.drive.drq := Nat.lt_of_lt_of_le (Nat.succ_pos n) hn
    have hstep : moveOut b h = { h with
        drive := { h.drive with
          disk := Function.update h.drive.disk h.drive.address (h.buffer b),
          address := h.drive.address + 1, left := h.drive.left - 1 } } := by
      rw [moveOut, Drive.outsw, if_pos hdrq]
    have hrest : n ≤ (moveOut b h).drive.left := by
      rw [moveOut_consumes]
      omega
    have hih := ih hrest (b + 1)
    rw [moveAll]
    rw [hstep] at hih ⊢
    refine ⟨hih.buffer, hih.heads, hih.sectors, ?_, fun a => ?_⟩
    · rw [hih.left]
      dsimp only
      omega
    · rw [hih.disk]
      dsimp only
      by_cases ha : a = h.drive.address
      · rw [ha, if_neg (by omega), if_pos (by omega), Function.update_self, Nat.sub_self, Nat.add_zero]
      · rw [Function.update_of_ne ha]
        by_cases hin : h.drive.address + 1 ≤ a ∧ a < h.drive.address + 1 + n
        · have hplace : b + 1 + (a - (h.drive.address + 1)) = b + (a - h.drive.address) := by omega
          rw [if_pos hin, if_pos (by omega), hplace]
        · rw [if_neg hin, if_neg (by omega)]

end Moves

section Rounds

/-- `n` sectors from `address` on come to the place `b` of the buffer. -/
structure ReadRound (d : AtaDevice) (address n b left : ℕ) (h h' : Host) : Prop where
  disk : h'.drive.disk = h.drive.disk
  heads : h'.drive.heads = d.heads
  sectors : h'.drive.sectors = d.sectors
  left : h'.drive.left = left
  buffer : ∀ i, h'.buffer i = if b ≤ i ∧ i < b + n then h.drive.disk (address + (i - b)) else h.buffer i

/-- `n` sectors from the place `b` of the buffer on come to `address`. -/
structure WriteRound (d : AtaDevice) (address n b left : ℕ) (h h' : Host) : Prop where
  buffer : h'.buffer = h.buffer
  heads : h'.drive.heads = d.heads
  sectors : h'.drive.sectors = d.sectors
  left : h'.drive.left = left
  disk : ∀ a, h'.drive.disk a = if address ≤ a ∧ a < address + n then h.buffer (b + (a - address)) else h.drive.disk a

theorem ReadRound.idle {address : ℕ} {h' : Host} (hr : ReadRound d address n b 0 h h') : h'.Idle d := ⟨hr.left, hr.heads, hr.sectors⟩

theorem WriteRound.idle {address : ℕ} {h' : Host} (hr : WriteRound d address n b 0 h h') : h'.Idle d :=
  ⟨hr.left, hr.heads, hr.sectors⟩

theorem amount_le (m : ℕ) (hc : count < m) : amount m count ≤ m := by
  unfold amount
  split <;> omega

/-- A command reads as many sectors as a `BYTE` counts, which may be fewer than the drive has been asked for. -/
theorem pioDataIn_run (hd : d.Ok) (hawake : d.sleep = false) (hidle : h.Idle d) (hstart : start < 2 ^ 32)
    (h48 : use48 = true → d.lba48 = true) (hext : command.ext = use48) (hcount : count < 2 ^ 8) (b : ℕ) :
    ∃ h', pioDataIn d count start b command use48 h = some (0, h') ∧
      ReadRound d (d.addressed use48 start) (amount 256 count) b
        (amount (if use48 then 65536 else 256) count - amount 256 count) h h' := by
  obtain ⟨h₁, hgiven, hrun⟩ := pioDataIn_idle hd hawake hidle hstart h48 hext hcount b
  have hle : amount 256 count ≤ h₁.drive.left := by
    rw [hgiven.left]
    cases use48 with
    | false => exact Nat.le_refl _
    | true =>
      show amount 256 count ≤ amount 65536 count
      unfold amount
      split <;> omega
  have hlt : count < 256 := hcount
  have hdone := moveBlocks_done (b := b) moveIn_consumes (by decide) (blockLength_pos d) hlt (amount_le 256 hlt) hle
  have hmoved := moveAll_in hle b
  refine ⟨_, hrun.trans hdone, hmoved.disk.trans hgiven.disk, hmoved.heads.trans hgiven.heads,
    hmoved.sectors.trans hgiven.sectors, ?_, fun i => ?_⟩
  · rw [hmoved.left, hgiven.left]
  · rw [hmoved.buffer, hgiven.disk, hgiven.address, hgiven.buffer]

theorem pioDataOut_run (hd : d.Ok) (hawake : d.sleep = false) (hidle : h.Idle d) (hstart : start < 2 ^ 32)
    (h48 : use48 = true → d.lba48 = true) (hext : command.ext = use48) (hcount : count < 2 ^ 8)
    (hne : use48 = true ∨ count ≠ 0) (b : ℕ) :
    ∃ h', pioDataOut d count start b command use48 h = some (0, h') ∧
      WriteRound d (d.addressed use48 start) (amount 65536 count) b (if use48 then 256 * count else 0) h h' := by
  obtain ⟨h₁, hgiven, hrun⟩ := pioDataOut_idle hd hawake hidle hstart h48 hext hcount b
  have hleft : h₁.drive.left = amount 65536 count + if use48 then 256 * count else 0 := by
    rw [hgiven.left]
    unfold amount
    cases use48 <;> simp at hne ⊢ <;> split <;> omega
  have hlt : count < 65536 := by omega
  have hle : amount 65536 count ≤ h₁.drive.left := hleft ▸ Nat.le_add_right _ _
  have hdone := moveBlocks_done (b := b) moveOut_consumes (by decide) (blockLength_pos d) hlt (amount_le 65536 hlt) hle
  have hmoved := moveAll_out hle b
  refine ⟨_, hrun.trans hdone, hmoved.buffer.trans hgiven.buffer, hmoved.heads.trans hgiven.heads,
    hmoved.sectors.trans hgiven.sectors, ?_, fun a => ?_⟩
  · rw [hmoved.left, hleft, Nat.add_sub_cancel_left]
  · rw [hmoved.disk, hgiven.disk, hgiven.address, hgiven.buffer]

/-- A full command of 256 sectors is asked for with a count of zero, and a `WORD` of zero counts many more. -/
theorem pioDataOut_short (hd : d.Ok) (hawake : d.sleep = false) (hidle : h.Idle d) (hstart : start < 2 ^ 32)
    (hext : command.ext = false) (b : ℕ) : ∃ h', pioDataOut d 0 start b command false h = some (ataEdrqClear, h') := by
  obtain ⟨h₁, hgiven, hrun⟩ := pioDataOut_idle hd hawake hidle hstart (by simp) hext (by decide : 0 < 2 ^ 8) b
  have hblock : d.blockLength ≤ 255 := by
    have := hd.sectorsPerBlock_lt
    unfold AtaDevice.blockLength
    split <;> omega
  have hleft : h₁.drive.left = 256 := hgiven.left
  have hhost : amount 65536 0 = 65536 := rfl
  rw [hrun]
  exact moveBlocks_short moveOut_consumes (by decide) (blockLength_pos d) (by decide) (amount_le 65536 (by decide))
    (.inr (by omega))

theorem pioDataIn_busy (hleft : 0 < h.drive.left) (d : AtaDevice) (count start b : ℕ) (command : Command) (use48 : Bool) :
    ∃ res, res ≠ 0 ∧ pioDataIn d count start b command use48 h = some (res, h) := by
  obtain ⟨res, hne, hselect⟩ := deviceSelect_busy hleft d
  refine ⟨res, hne, ?_⟩
  rw [pioDataIn, hselect]
  exact if_pos hne

end Rounds

end FreeDos32.Ata
