import FreeDos32.Ata.TransferLaws

namespace FreeDos32.Ata

open Kernel (dword dsub dword_of_lt)

/-- How many sectors of the request there are. -/
def sectorCount (start count : ℕ) (d : AtaDevice) : ℕ := min count (d.totalBlocks - start)

def firstAddress (start : ℕ) (d : AtaDevice) : ℕ := d.firstSector + start

/-- Whatever is on the disk and in the buffer, the sectors come to the buffer in order, and the command is carried out to its
end. -/
def ReadSound (start count : ℕ) (d : AtaDevice) : Prop :=
  ∀ h : Host, h.Idle d → ∃ d' h', ataRead start count d h = some ((sectorCount start count d : ℤ), d', h') ∧ h'.Idle d ∧
    h'.drive.disk = h.drive.disk ∧ ∀ i, h'.buffer i =
      if i < sectorCount start count d then h.drive.disk (firstAddress start d + i) else h.buffer i

def WriteSound (start count : ℕ) (d : AtaDevice) : Prop :=
  ∀ h : Host, h.Idle d → ∃ d' h', ataWrite start count d h = some ((sectorCount start count d : ℤ), d', h') ∧ h'.Idle d ∧
    h'.buffer = h.buffer ∧ ∀ a, h'.drive.disk a =
      if firstAddress start d ≤ a ∧ a < firstAddress start d + sectorCount start count d then h.buffer (a - firstAddress start d)
      else h.drive.disk a

/-- The addresses have 28 bits, or are those of the cylinders, and one command is enough, which has at most `limit` sectors. -/
def Short (limit start count : ℕ) (d : AtaDevice) : Prop :=
  firstAddress start d + sectorCount start count d ≤ 2 ^ 28 ∧ sectorCount start count d ≤ limit ∧
    (d.lba = false → firstAddress start d < 65536 * d.heads * d.sectors)

/-- Addresses of 48 bits are used, of which there are 32. -/
def Extended (start count : ℕ) (d : AtaDevice) : Prop :=
  2 ^ 28 < firstAddress start d + sectorCount start count d ∧ firstAddress start d + sectorCount start count d ≤ 2 ^ 32 ∧
    d.lba48 = true

/-- Nothing is asked for, and the test for 28 bits, which looks one sector back, lets this pass. -/
def Nothing (start count : ℕ) (d : AtaDevice) : Prop :=
  count = 0 ∧ (d.lba48 = true ∨ 0 < dword (firstAddress start d) ∧ dword (firstAddress start d) ≤ 2 ^ 28)

/-- The request can be carried out; the sum that is tested does not wrap around. -/
def Fits (limit : ℕ) (last : ℕ → Prop) (start count : ℕ) (d : AtaDevice) : Prop :=
  d.totalBlocks ≤ start ∨ start + count < 2 ^ 32 ∧
    (Nothing start count d ∨ 0 < count ∧ d.sleep = false ∧
      (Short limit start count d ∨ Extended start count d ∧ last (sectorCount start count d)))

variable {start count b c n bound : ℕ} {d d' : AtaDevice} {h h' : Host} {pio : Pio} {res : ℤ} {command : Command}
  {single multiple singleExt multipleExt : Command}

section Arithmetic

theorem clamped_eq (hd : d.Ok) (hlt : start < d.totalBlocks) (hsum : start + count < 2 ^ 32) :
    (if d.totalBlocks < dword (start + count) then dsub d.totalBlocks start else count) = sectorCount start count d := by
  have htotal := hd.totalBlocks_lt
  unfold sectorCount
  rw [dword_of_lt hsum, Kernel.dsub_of_le (Nat.le_of_lt hlt) htotal]
  split <;> omega

theorem clamped_of_wrap (hd : d.Ok) (hlt : start < d.totalBlocks) (hcount : count < 2 ^ 32) (hsum : 2 ^ 32 ≤ start + count) :
    (if d.totalBlocks < dword (start + count) then dsub d.totalBlocks start else count) = count ∧
      sectorCount start count d < count := by
  have htotal := hd.totalBlocks_lt
  have hwrap : dword (start + count) < start := by
    unfold dword
    omega
  rw [if_neg (by omega)]
  unfold sectorCount
  omega

theorem sectorCount_pos (hlt : start < d.totalBlocks) : 0 < sectorCount start count d ↔ 0 < count := by
  unfold sectorCount
  omega

theorem addressed_le (use48 : Bool) (a : ℕ) (d : AtaDevice) : d.addressed use48 a ≤ a := by
  unfold AtaDevice.addressed
  split
  · exact Nat.le_refl a
  · split <;> exact Nat.mod_le ..

theorem dword_le (a : ℕ) : dword a ≤ a := Nat.mod_le ..

theorem short_iff (hd : d.Ok) {limit : ℕ} (hlimit : limit ≤ 256) (hpos : 0 < sectorCount start count d)
    (hle : sectorCount start count d ≤ limit) : Short limit start count d ↔
      ¬2 ^ 28 ≤ dsub (dword (dword (firstAddress start d) + sectorCount start count d)) 1 ∧
        d.addressed false (dword (firstAddress start d)) = firstAddress start d := by
  have hprod : d.lba = false → 65536 * d.heads * d.sectors ≤ 2 ^ 28 := by
    intro hlba
    have h1 : d.heads ≤ 16 := (hd.heads hlba).2
    have h2 : d.sectors < 2 ^ 8 := (hd.sectors hlba).2
    calc 65536 * d.heads * d.sectors ≤ 65536 * 16 * 2 ^ 8 := Nat.mul_le_mul (Nat.mul_le_mul_left _ h1) (Nat.le_of_lt h2)
      _ = 2 ^ 28 := by decide
  unfold Short
  constructor
  · rintro ⟨hend, -, hchs⟩
    have hsame : dword (firstAddress start d) = firstAddress start d := dword_of_lt (by omega)
    rw [hsame]
    constructor
    · simp only [dsub, dword]
      omega
    · unfold AtaDevice.addressed
      rw [if_neg (by decide)]
      split
      · exact Nat.mod_eq_of_lt (by omega)
      · next hlba => exact Nat.mod_eq_of_lt (hchs (by simpa using hlba))
  · rintro ⟨hlow, haddr⟩
    have hle' := addressed_le false (dword (firstAddress start d)) d
    have hsame : dword (firstAddress start d) = firstAddress start d := Nat.le_antisymm (dword_le _) (by omega)
    rw [hsame] at hlow haddr
    have hlt : firstAddress start d < 2 ^ 28 ∧ (d.lba = false → firstAddress start d < 65536 * d.heads * d.sectors) := by
      unfold AtaDevice.addressed at haddr
      rw [if_neg (by decide)] at haddr
      split at haddr
      · next hlba =>
        exact ⟨haddr ▸ Nat.mod_lt _ (by decide), fun hnot => by simp [hlba] at hnot⟩
      · next hlba =>
        have hno : d.lba = false := by simpa using hlba
        have hmod : firstAddress start d < 65536 * d.heads * d.sectors := by
          rw [← haddr]
          exact Nat.mod_lt _ (Nat.mul_pos (Nat.mul_pos (by decide) (hd.heads hno).1) (hd.sectors hno).1)
        exact ⟨Nat.lt_of_lt_of_le hmod (hprod hno), fun _ => hmod⟩
    refine ⟨?_, hle, hlt.2⟩
    simp only [dsub, dword] at hlow
    omega

theorem extended_iff (hpos : 0 < sectorCount start count d) (hle : sectorCount start count d ≤ 65536) :
    Extended start count d ↔
      2 ^ 28 ≤ dsub (dword (dword (firstAddress start d) + sectorCount start count d)) 1 ∧
        dword (firstAddress start d) = firstAddress start d ∧ d.lba48 = true := by
  unfold Extended dsub dword
  constructor
  · rintro ⟨hlow, hend, h48⟩
    refine ⟨?_, ?_, h48⟩ <;> omega
  · rintro ⟨hhigh, hsame, h48⟩
    refine ⟨?_, ?_, h48⟩ <;> omega

theorem fits_iff (hd : d.Ok) {limit : ℕ} {last : ℕ → Prop} (hlimit : limit ≤ 256) (hlast : ∀ n, last n → n ≤ 65536)
    (hlt : start < d.totalBlocks) (hcount : 0 < count) : Fits limit last start count d ↔
      start + count < 2 ^ 32 ∧ d.sleep = false ∧ ∃ use48, (use48 = true → d.lba48 = true) ∧
        (use48 = true ↔ 2 ^ 28 ≤ dsub (dword (dword (firstAddress start d) + sectorCount start count d)) 1) ∧
        d.addressed use48 (dword (firstAddress start d)) = firstAddress start d ∧
        if use48 then last (sectorCount start count d) else sectorCount start count d ≤ limit := by
  have hpos := (sectorCount_pos hlt).mpr hcount
  unfold Fits
  constructor
  · intro hfits
    obtain ⟨hsum, hcase⟩ := hfits.resolve_left (Nat.not_le.mpr hlt)
    obtain ⟨-, hawake, hcase⟩ := hcase.resolve_left fun hnothing => absurd hnothing.1 (Nat.ne_of_gt hcount)
    refine ⟨hsum, hawake, ?_⟩
    rcases hcase with hshort | ⟨hext, hn⟩
    · obtain ⟨hlow, haddr⟩ := (short_iff hd hlimit hpos hshort.2.1).mp hshort
      exact ⟨false, by simp, ⟨fun hb => absurd hb (by decide), fun hb => absurd hb hlow⟩, haddr, hshort.2.1⟩
    · obtain ⟨hhigh, haddr, h48⟩ := (extended_iff hpos (hlast _ hn)).mp hext
      exact ⟨true, fun _ => h48, ⟨fun _ => hhigh, fun _ => rfl⟩, haddr, hn⟩
  · rintro ⟨hsum, hawake, use48, h48, hhigh, haddr, hn⟩
    refine .inr ⟨hsum, .inr ⟨hcount, hawake, ?_⟩⟩
    cases use48 with
    | false => exact .inl ((short_iff hd hlimit hpos hn).mpr ⟨fun hb => absurd (hhigh.mpr hb) (by decide), haddr⟩)
    | true => exact .inr ⟨(extended_iff hpos (hlast _ hn)).mpr ⟨hhigh.mp rfl, haddr, h48 rfl⟩, hn⟩

theorem int_eq {m n : ℕ} (hm : m < 2 ^ 32) (h : int m = n) : m = n := by
  unfold int at h
  split at h <;> omega

theorem int_of_lt (hn : n < 2 ^ 31) : int n = n := if_pos hn

end Arithmetic

section Returns

theorem commandLoop_res {f : ℕ → ℕ → Host → Option (ℤ × Host)} {maxPerCmd : ℕ}
    (hrun : commandLoop f maxPerCmd bound c b h = some (res, h')) : res = 0 ∨ res = -1 := by
  induction bound generalizing c b h with
  | zero =>
    rw [commandLoop] at hrun
    split at hrun
    · cases hrun
      exact .inl rfl
    · cases hrun
  | succ bound ih =>
    rw [commandLoop] at hrun
    split at hrun
    · cases hrun
      exact .inl rfl
    · split at hrun
      · obtain ⟨r, -, hrun⟩ := Option.bind_eq_some_iff.mp hrun
        split at hrun
        · cases hrun
          exact .inr rfl
        · exact ih hrun
      · obtain ⟨r, -, hrun⟩ := Option.map_eq_some_iff.mp hrun
        cases hrun
        split
        · exact .inr rfl
        · exact .inl rfl

theorem ataCommands_returns {maxPerCmd : ℕ} {use48 : Bool}
    (hrun : ataCommands pio command maxPerCmd use48 start c d h = some ((n : ℤ), d', h')) :
    int c = n ∧ commandLoop (fun k b => pio k start b command use48) maxPerCmd c c 0 h = some (0, h') := by
  obtain ⟨⟨res, h₁⟩, hloop, heq⟩ := Option.map_eq_some_iff.mp hrun
  rcases commandLoop_res hloop with rfl | rfl
  · rw [if_neg (by simp), Prod.mk.injEq, Prod.mk.injEq] at heq
    obtain ⟨hint, -, rfl⟩ := heq
    exact ⟨hint, hloop⟩
  · rw [if_pos (by simp), Prod.mk.injEq] at heq
    exact absurd heq.1 (by omega)

/-- Which of the commands is given. -/
def chosen (single multiple singleExt multipleExt : Command) (use48 : Bool) (d : AtaDevice) : Command :=
  if use48 then if d.sectorsPerBlock ≠ 0 then multipleExt else singleExt
  else if d.sectorsPerBlock ≠ 0 then multiple else single

theorem chosen_ext (h : single.ext = false ∧ multiple.ext = false ∧ singleExt.ext = true ∧ multipleExt.ext = true) (use48 : Bool)
    (d : AtaDevice) : (chosen single multiple singleExt multipleExt use48 d).ext = use48 := by
  obtain ⟨h1, h2, h3, h4⟩ := h
  unfold chosen
  cases use48 <;> simp <;> split <;> assumption

def readCommand (use48 : Bool) (d : AtaDevice) : Command :=
  chosen .readSectors .readMultiple .readSectorsExt .readMultipleExt use48 d

def writeCommand (use48 : Bool) (d : AtaDevice) : Command :=
  chosen .writeSectors .writeMultiple .writeSectorsExt .writeMultipleExt use48 d

theorem readCommand_ext (use48 : Bool) (d : AtaDevice) : (readCommand use48 d).ext = use48 := chosen_ext (by decide) use48 d

theorem writeCommand_ext (use48 : Bool) (d : AtaDevice) : (writeCommand use48 d).ext = use48 := chosen_ext (by decide) use48 d

theorem ataTransfer_returns (hlt : start < d.totalBlocks)
    (hclamp : (if d.totalBlocks < dword (start + count) then dsub d.totalBlocks start else count) = c)
    (hrun : ataTransfer pio single multiple singleExt multipleExt start count d h = some ((n : ℤ), d', h')) :
    int c = n ∧ ∃ use48, (use48 = true → d.lba48 = true) ∧
      (use48 = true ↔ 2 ^ 28 ≤ dsub (dword (dword (firstAddress start d) + c)) 1) ∧
      commandLoop (fun k b => pio k (dword (firstAddress start d)) b (chosen single multiple singleExt multipleExt use48 d) use48)
        (if use48 then 65536 else 256) c c 0 h = some (0, h') := by
  have hcomm : start + d.firstSector = firstAddress start d := Nat.add_comm ..
  rw [ataTransfer, if_neg (Nat.not_le.mpr hlt), hclamp, hcomm] at hrun
  dsimp only at hrun
  split at hrun
  · next hhigh =>
    split at hrun
    · next h48 =>
      obtain ⟨hint, hloop⟩ := ataCommands_returns hrun
      exact ⟨hint, true, fun _ => h48, ⟨fun _ => hhigh, fun _ => rfl⟩, hloop⟩
    · cases hrun
  · next hlow =>
    obtain ⟨hint, hloop⟩ := ataCommands_returns hrun
    exact ⟨hint, false, by simp, ⟨fun hb => absurd hb (by decide), fun hb => absurd hb hlow⟩, hloop⟩

theorem ataCommands_ok {maxPerCmd : ℕ} {use48 : Bool}
    (hloop : commandLoop (fun k b => pio k start b command use48) maxPerCmd c c 0 h = some (0, h')) :
    ∃ d', ataCommands pio command maxPerCmd use48 start c d h = some (int c, d', h') := by
  rw [ataCommands, hloop]
  exact ⟨_, rfl⟩

theorem ataTransfer_ok (hd : d.Ok) (hlt : start < d.totalBlocks) (hsum : start + count < 2 ^ 32) (use48 : Bool)
    (h48 : use48 = true → d.lba48 = true)
    (hhigh : use48 = true ↔ 2 ^ 28 ≤ dsub (dword (dword (firstAddress start d) + sectorCount start count d)) 1)
    (hloop : commandLoop (fun k b =>
        pio k (dword (firstAddress start d)) b (chosen single multiple singleExt multipleExt use48 d) use48)
      (if use48 then 65536 else 256) (sectorCount start count d) (sectorCount start count d) 0 h = some (0, h')) :
    ∃ d', ataTransfer pio single multiple singleExt multipleExt start count d h =
      some (int (sectorCount start count d), d', h') := by
  have hcomm : start + d.firstSector = firstAddress start d := Nat.add_comm ..
  rw [ataTransfer, if_neg (Nat.not_le.mpr hlt), clamped_eq hd hlt hsum, hcomm]
  dsimp only
  cases use48 with
  | true =>
    rw [if_pos (hhigh.mp rfl), if_pos (h48 rfl)]
    exact ataCommands_ok hloop
  | false =>
    rw [if_neg fun hle => absurd (hhigh.mpr hle) (by decide)]
    exact ataCommands_ok hloop

theorem sectorCount_past (hle : d.totalBlocks ≤ start) (count : ℕ) : sectorCount start count d = 0 := by
  unfold sectorCount
  omega

theorem ataTransfer_none (hd : d.Ok) (h : Host)
    (hnone : d.totalBlocks ≤ start ∨ start + count < 2 ^ 32 ∧ Nothing start count d) : sectorCount start count d = 0 ∧
      ∃ d', ataTransfer pio single multiple singleExt multipleExt start count d h =
        some ((sectorCount start count d : ℤ), d', h) := by
  by_cases hle : d.totalBlocks ≤ start
  · rw [sectorCount_past hle]
    exact ⟨rfl, d, if_pos hle⟩
  · obtain ⟨hsum, hzero, hpass⟩ := hnone.resolve_left hle
    have hn : sectorCount start count d = 0 := by simp [sectorCount, hzero]
    refine ⟨hn, ?_⟩
    have hint : ((sectorCount start count d : ℕ) : ℤ) = int (sectorCount start count d) := by
      rw [hn]
      rfl
    rw [hint]
    apply ataTransfer_ok hd (Nat.lt_of_not_le hle) hsum
      (decide (2 ^ 28 ≤ dsub (dword (dword (firstAddress start d) + sectorCount start count d)) 1))
    · intro hhigh
      rw [decide_eq_true_iff, hn] at hhigh
      rcases hpass with h48 | ⟨hpos, hle⟩
      · exact h48
      · have hlt := Nat.mod_lt (firstAddress start d) (by decide : 0 < 2 ^ 32)
        simp only [dsub, dword] at hhigh hpos hle
        omega
    · exact decide_eq_true_iff
    · rw [hn]
      rfl

theorem clamped_lt (start : ℕ) (d : AtaDevice) (hcount : count < 2 ^ 32) :
    (if d.totalBlocks < dword (start + count) then dsub d.totalBlocks start else count) < 2 ^ 32 := by
  split
  · exact Nat.mod_lt _ (by decide)
  · exact hcount

theorem request_of_run (hd : d.Ok) (hlt : start < d.totalBlocks) (hcount : count < 2 ^ 32)
    (hrun : ataTransfer pio single multiple singleExt multipleExt start count d h =
      some ((sectorCount start count d : ℤ), d', h')) : start + count < 2 ^ 32 ∧ ∃ use48, (use48 = true → d.lba48 = true) ∧
      (use48 = true ↔ 2 ^ 28 ≤ dsub (dword (dword (firstAddress start d) + sectorCount start count d)) 1) ∧
      commandLoop (fun k b => pio k (dword (firstAddress start d)) b (chosen single multiple singleExt multipleExt use48 d) use48)
        (if use48 then 65536 else 256) (sectorCount start count d) (sectorCount start count d) 0 h = some (0, h') := by
  obtain ⟨hint, use48, h48, hhigh, hloop⟩ := ataTransfer_returns hlt rfl hrun
  have hsame := int_eq (clamped_lt start d hcount) hint
  rw [hsame] at hhigh hloop
  refine ⟨?_, use48, h48, hhigh, hloop⟩
  by_contra hwrap
  obtain ⟨hclamp, hless⟩ := clamped_of_wrap hd hlt hcount (Nat.le_of_not_lt hwrap)
  omega

theorem nothing_of_high (hzero : count = 0) {use48 : Bool} (h48 : use48 = true → d.lba48 = true)
    (hhigh : use48 = true ↔ 2 ^ 28 ≤ dsub (dword (dword (firstAddress start d) + sectorCount start count d)) 1) :
    Nothing start count d := by
  refine ⟨hzero, ?_⟩
  cases use48 with
  | true => exact .inl (h48 rfl)
  | false =>
    have hlow : ¬2 ^ 28 ≤ dsub (dword (dword (firstAddress start d) + sectorCount start count d)) 1 :=
      fun hb => absurd (hhigh.mpr hb) (by decide)
    have hn : sectorCount start count d = 0 := by simp [sectorCount, hzero]
    have hfirst := Nat.mod_lt (firstAddress start d) (by decide : 0 < 2 ^ 32)
    rw [hn] at hlow
    simp only [dsub, dword] at hlow ⊢
    omega

end Returns

section Rounds

theorem commandLoop_once {f : ℕ → ℕ → Host → Option (ℤ × Host)} {maxPerCmd : ℕ} (hpos : 0 < n)
    (hle : n < maxPerCmd ∧ f (n % 2 ^ 8) 0 h = some (0, h') ∨ n = maxPerCmd ∧ f 0 0 h = some (0, h')) :
    commandLoop f maxPerCmd n n 0 h = some (0, h') := by
  obtain ⟨bound, hbound⟩ := Nat.exists_eq_add_of_le' hpos
  rw [hbound, commandLoop, ← hbound, if_neg (by omega)]
  rcases hle with ⟨hlt, hrun⟩ | ⟨heq, hrun⟩
  · rw [if_neg (by omega), hrun]
    rfl
  · rw [if_pos (by omega), hrun, ← heq, Nat.sub_self]
    cases bound <;> rfl

@[simp]
theorem commandLoop_zero (f : ℕ → ℕ → Host → Option (ℤ × Host)) (maxPerCmd bound b : ℕ) (h : Host) :
    commandLoop f maxPerCmd bound 0 b h = some (0, h) := by
  cases bound <;> rfl

theorem commandLoop_first {f : ℕ → ℕ → Host → Option (ℤ × Host)} {maxPerCmd : ℕ} (hpos : 0 < c)
    (hrun : commandLoop f maxPerCmd bound c b h = some (0, h')) :
    c < maxPerCmd ∧ f (c % 2 ^ 8) b h = some (0, h') ∨
      ∃ h₁ bound', maxPerCmd ≤ c ∧ f 0 b h = some (0, h₁) ∧
        commandLoop f maxPerCmd bound' (c - maxPerCmd) (b + maxPerCmd) h₁ = some (0, h') := by
  cases bound with
  | zero =>
    rw [commandLoop, if_neg (by omega)] at hrun
    cases hrun
  | succ bound =>
    rw [commandLoop, if_neg (by omega)] at hrun
    split at hrun
    · next hle =>
      obtain ⟨⟨res, h₁⟩, hfirst, hrest⟩ := Option.bind_eq_some_iff.mp hrun
      by_cases hres : res = 0
      · subst hres
        rw [if_neg (by simp)] at hrest
        exact .inr ⟨h₁, bound, hle, hfirst, hrest⟩
      · rw [if_pos hres] at hrest
        cases hrest
    · next hlt =>
      obtain ⟨⟨res, h₁⟩, hfirst, heq⟩ := Option.map_eq_some_iff.mp hrun
      by_cases hres : res = 0
      · subst hres
        rw [if_neg (by simp)] at heq
        cases heq
        exact .inl ⟨Nat.lt_of_not_le hlt, hfirst⟩
      · rw [if_pos hres] at heq
        cases heq

end Rounds

end FreeDos32.Ata
