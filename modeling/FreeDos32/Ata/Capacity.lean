import FreeDos32.Ata.Sound

namespace FreeDos32.Ata

open Kernel (dword dsub dword_of_lt)

variable {start count b c n bound first : ℕ} {d d' : AtaDevice} {h h' : Host} {pio : Pio} {command : Command}
  {single multiple singleExt multipleExt : Command}

section Commands

theorem amount_mod (hpos : 0 < n) (hle : n ≤ 256) : amount 256 (n % 2 ^ 8) = n := by
  unfold amount
  split <;> omega

theorem Fits.cases {limit : ℕ} {last : ℕ → Prop} (hd : d.Ok) (hlimit : limit ≤ 256) (hlast : ∀ n, last n → n ≤ 65536)
    (hfits : Fits limit last start count d) :
    (d.totalBlocks ≤ start ∨ start + count < 2 ^ 32 ∧ Nothing start count d) ∨
      start < d.totalBlocks ∧ 0 < sectorCount start count d ∧ start + count < 2 ^ 32 ∧ d.sleep = false ∧
        ∃ use48, (use48 = true → d.lba48 = true) ∧
          (use48 = true ↔ 2 ^ 28 ≤ dsub (dword (dword (firstAddress start d) + sectorCount start count d)) 1) ∧
          d.addressed use48 (dword (firstAddress start d)) = firstAddress start d ∧
          if use48 then last (sectorCount start count d) else sectorCount start count d ≤ limit := by
  by_cases hpast : d.totalBlocks ≤ start
  · exact .inl (.inl hpast)
  · have hlt := Nat.lt_of_not_le hpast
    rcases hfits.resolve_left hpast with ⟨hsum, hnothing | ⟨hcount, -, -⟩⟩
    · exact .inl (.inr ⟨hsum, hnothing⟩)
    · exact .inr ⟨hlt, (sectorCount_pos hlt).mpr hcount, (fits_iff hd hlimit hlast hlt hcount).mp hfits⟩

theorem awake_of_loop {f : ℕ → ℕ → Host → Option (ℤ × Host)} {maxPerCmd : ℕ} (hpos : 0 < c)
    (hasleep : d.sleep = true → ∀ k b h, f k b h = some (ataEsleep, h))
    (hrun : commandLoop f maxPerCmd bound c b h = some (0, h')) : d.sleep = false := by
  by_contra hsleep
  have hall := hasleep (by simpa using hsleep)
  rcases commandLoop_first hpos hrun with ⟨-, hfirst⟩ | ⟨h₁, bound', -, hfirst, -⟩ <;>
  · rw [hall] at hfirst
    cases hfirst

end Commands

section Reads

theorem readSound_of_fits (hd : d.Ok) (hfits : Fits 256 (· < 256) start count d) : ReadSound start count d := by
  intro h hidle
  have hlast : ∀ n, n < 256 → n ≤ 65536 := fun n hn => by omega
  rcases hfits.cases hd (Nat.le_refl 256) hlast with hnone | ⟨hlt, hpos, hsum, hawake, use48, h48, hhigh, haddr, hn⟩
  · obtain ⟨hn, d', hrun⟩ := ataTransfer_none hd h hnone
    refine ⟨d', h, hrun, hidle, rfl, fun i => ?_⟩
    rw [hn, if_neg (Nat.not_lt_zero i)]
  · have hfirst : dword (firstAddress start d) < 2 ^ 32 := Nat.mod_lt _ (by decide)
    have hmod : sectorCount start count d % 2 ^ 8 < 2 ^ 8 := Nat.mod_lt _ (by decide)
    obtain ⟨h', hpio, hround⟩ := pioDataIn_run hd hawake hidle hfirst h48 (readCommand_ext use48 d) hmod 0
    have hleft : sectorCount start count d ≤ 256 ∧
        amount (if use48 then 65536 else 256) (sectorCount start count d % 2 ^ 8) = sectorCount start count d := by
      cases use48 with
      | false => exact ⟨hn, amount_mod hpos hn⟩
      | true =>
        replace hn : sectorCount start count d < 256 := hn
        have hsame : sectorCount start count d % 2 ^ 8 = sectorCount start count d := Nat.mod_eq_of_lt hn
        rw [hsame]
        exact ⟨Nat.le_of_lt hn, amount_of_ne (Nat.ne_of_gt hpos)⟩
    rw [haddr, hleft.2, amount_mod hpos hleft.1, Nat.sub_self] at hround
    have hloop : commandLoop (fun k b => pioDataIn d k (dword (firstAddress start d)) b (readCommand use48 d) use48)
        (if use48 then 65536 else 256) (sectorCount start count d) (sectorCount start count d) 0 h = some (0, h') := by
      apply commandLoop_once hpos
      by_cases hfull : use48 = false ∧ sectorCount start count d = 256
      · rw [hfull.2] at hpio
        exact .inr ⟨by simp [hfull], hpio⟩
      · refine .inl ⟨?_, hpio⟩
        cases use48 with
        | true => exact Nat.lt_of_lt_of_le hn (by decide)
        | false => exact Nat.lt_of_le_of_ne hn (by simpa using hfull)
    obtain ⟨d', hrun⟩ := ataTransfer_ok hd hlt hsum use48 h48 hhigh hloop
    rw [int_of_lt (by omega)] at hrun
    refine ⟨d', h', hrun, hround.idle, hround.disk, fun i => ?_⟩
    rw [hround.buffer]
    simp

/-- The commands of a loop all read the sectors from the same address on. -/
theorem readLoop_again (hd : d.Ok) (hawake : d.sleep = false) (hidle : h.Idle d) (hfirst : first < 2 ^ 32)
    (hext : command.ext = false) (hpos : 0 < c)
    (hrun : commandLoop (fun k b => pioDataIn d k first b command false) 256 bound c b h = some (0, h')) :
    h'.buffer b = h.drive.disk (d.addressed false first) ∧
      (256 < c → h'.buffer (b + 256) = h.drive.disk (d.addressed false first)) ∧ ∀ i < b, h'.buffer i = h.buffer i := by
  induction c using Nat.strongRecOn generalizing bound b h with
  | ind c ih =>
    rcases commandLoop_first hpos hrun with ⟨hlt, hpio⟩ | ⟨h₁, bound', hle, hpio, hrest⟩
    · obtain ⟨h₂, hpio', hround⟩ := pioDataIn_run hd hawake hidle hfirst (by simp) hext (Nat.mod_lt c (by decide)) b
      rw [hpio', Option.some.injEq, Prod.mk.injEq] at hpio
      obtain ⟨-, rfl⟩ := hpio
      have hpos' := amount_pos (m := 256) (by decide) (c % 2 ^ 8)
      refine ⟨?_, fun hmore => absurd hmore (Nat.not_lt.mpr (Nat.le_of_lt hlt)), fun i hi => ?_⟩
      · rw [hround.buffer, if_pos (by omega), Nat.sub_self, Nat.add_zero]
      · rw [hround.buffer, if_neg (by omega)]
    · obtain ⟨h₂, hpio', hround⟩ := pioDataIn_run hd hawake hidle hfirst (by simp) hext (by decide : 0 < 2 ^ 8) b
      rw [hpio', Option.some.injEq, Prod.mk.injEq] at hpio
      obtain ⟨-, rfl⟩ := hpio
      have hamount : amount 256 0 = 256 := rfl
      have hbuffer := hround.buffer
      rw [hamount] at hbuffer
      by_cases hlast : c - 256 = 0
      · rw [hlast, commandLoop_zero, Option.some.injEq, Prod.mk.injEq] at hrest
        obtain ⟨-, rfl⟩ := hrest
        refine ⟨?_, fun hmore => absurd hlast (by omega), fun i hi => ?_⟩
        · rw [hbuffer, if_pos (by omega), Nat.sub_self, Nat.add_zero]
        · rw [hbuffer, if_neg (by omega)]
      · obtain ⟨hplace, -, hbefore⟩ := ih (c - 256) (by omega) hround.idle (by omega) hrest
        refine ⟨?_, fun _ => ?_, fun i hi => ?_⟩
        · rw [hbefore b (by omega), hbuffer, if_pos (by omega), Nat.sub_self, Nat.add_zero]
        · rw [hplace, hround.disk]
        · rw [hbefore i (by omega), hbuffer, if_neg (by omega)]

/-- With 48 bits the drive is asked for more than is read, unless the count is less than 256. -/
theorem readLoop_ext (hd : d.Ok) (hawake : d.sleep = false) (hidle : h.Idle d) (hfirst : first < 2 ^ 32)
    (h48 : d.lba48 = true) (hext : command.ext = true) (hpos : 0 < c)
    (hrun : commandLoop (fun k b => pioDataIn d k first b command true) 65536 bound c b h = some (0, h'))
    (hdone : h'.Idle d) : c % 2 ^ 8 ≠ 0 ∧ ReadRound d first (c % 2 ^ 8) b 0 h h' := by
  rcases commandLoop_first hpos hrun with ⟨hlt, hpio⟩ | ⟨h₁, bound', hle, hpio, hrest⟩
  · obtain ⟨h₂, hpio', hround⟩ := pioDataIn_run hd hawake hidle hfirst (fun _ => h48) hext (Nat.mod_lt c (by decide)) b
    rw [hpio', Option.some.injEq, Prod.mk.injEq] at hpio
    obtain ⟨-, rfl⟩ := hpio
    have hleft := hround.left.symm.trans hdone.left
    have hne : c % 2 ^ 8 ≠ 0 := by
      intro hzero
      rw [hzero] at hleft
      cases hleft
    refine ⟨hne, ?_⟩
    rw [hleft, amount_of_ne hne] at hround
    exact hround
  · obtain ⟨h₂, hpio', hround⟩ := pioDataIn_run hd hawake hidle hfirst (fun _ => h48) hext (by decide : 0 < 2 ^ 8) b
    rw [hpio', Option.some.injEq, Prod.mk.injEq] at hpio
    obtain ⟨-, rfl⟩ := hpio
    have hleft : h₂.drive.left = 65280 := hround.left
    by_cases hlast : c - 65536 = 0
    · rw [hlast, commandLoop_zero, Option.some.injEq, Prod.mk.injEq] at hrest
      obtain ⟨-, rfl⟩ := hrest
      exact absurd hdone.left (by omega)
    · rcases commandLoop_first (by omega) hrest with ⟨-, hnext⟩ | ⟨h₃, bound₃, -, hnext, -⟩ <;>
      · obtain ⟨res, hres, hbusy⟩ := pioDataIn_busy (h := h₂) (by omega) d _ first (b + 65536) command true
        rw [hbusy, Option.some.injEq, Prod.mk.injEq] at hnext
        exact absurd hnext.1 hres

/-- A sector of equal words. -/
def fill (w : BitVec 16) : Sector := fun _ => w

theorem fill_inj {v w : BitVec 16} (h : fill v = fill w) : v = w := congrFun h 0

/-- A host that has not given a command yet. -/
def freshHost (disk buffer : ℕ → Sector) (d : AtaDevice) : Host where
  drive := ⟨disk, d.heads, d.sectors, ⟨0, 0⟩, ⟨0, 0⟩, ⟨0, 0⟩, ⟨0, 0⟩, 0, 0, 0⟩
  currentDevBit := 0
  buffer := buffer

theorem freshHost_idle (disk buffer : ℕ → Sector) (d : AtaDevice) : (freshHost disk buffer d).Idle d := ⟨rfl, rfl, rfl⟩

/-- The disk on which only the first sector of the request is marked tells the address and the end of what has been read. -/
theorem fits_of_readSound (hd : d.Ok) (hcount : count < 2 ^ 32) (hsound : ReadSound start count d) :
    Fits 256 (· < 256) start count d := by
  by_cases hpast : d.totalBlocks ≤ start
  · exact .inl hpast
  have hlt := Nat.lt_of_not_le hpast
  let disk : ℕ → Sector := fun a => if a = firstAddress start d then fill 1 else fill 0
  have hmark : ∀ a, disk a = fill 1 → a = firstAddress start d := by
    intro a ha
    by_contra hne
    rw [show disk a = fill 0 from if_neg hne] at ha
    exact absurd (fill_inj ha) (by decide)
  have hdisk : ∀ a, disk a ≠ fill 2 := by
    intro a
    show (if a = firstAddress start d then fill 1 else fill 0) ≠ fill 2
    split <;> exact fun heq => absurd (fill_inj heq) (by decide)
  have hidle := freshHost_idle disk (fun _ => fill 2) d
  obtain ⟨d', h', hrun, hdone, -, hbuffer⟩ := hsound _ hidle
  obtain ⟨hsum, use48, h48, hhigh, hloop⟩ := request_of_run hd hlt hcount hrun
  rcases Nat.eq_zero_or_pos count with hzero | hcount
  · exact .inr ⟨hsum, .inl (nothing_of_high hzero h48 hhigh)⟩
  have hpos : 0 < sectorCount start count d := (sectorCount_pos hlt).mpr hcount
  have hawake := awake_of_loop hpos (fun hsleep k b h => by rw [pioDataIn, deviceSelect_asleep hsleep]; rfl) hloop
  have hfirst : dword (firstAddress start d) < 2 ^ 32 := Nat.mod_lt _ (by decide)
  have hstart : h'.buffer 0 = fill 1 := by
    rw [hbuffer, if_pos hpos]
    exact if_pos rfl
  apply (fits_iff hd (Nat.le_refl 256) (fun n hn => Nat.le_trans (Nat.le_of_lt hn) (by decide)) hlt hcount).mpr
  refine ⟨hsum, hawake, use48, h48, hhigh, ?_⟩
  cases use48 with
  | false =>
    obtain ⟨hplace, hagain, -⟩ := readLoop_again hd hawake hidle hfirst (readCommand_ext false d) hpos hloop
    have haddr := hmark _ (hplace.symm.trans hstart)
    refine ⟨haddr, Nat.le_of_not_lt fun hmore => ?_⟩
    -- the second command reads the marked sector once more
    have hsecond := hagain hmore
    rw [Nat.zero_add, hbuffer, if_pos hmore, haddr] at hsecond
    have := hmark _ (hsecond.trans (if_pos rfl))
    omega
  | true =>
    obtain ⟨hne, hround⟩ := readLoop_ext hd hawake hidle hfirst (h48 rfl) (readCommand_ext true d) hpos hloop hdone
    have hplace := hround.buffer 0
    rw [if_pos (by omega), hstart] at hplace
    refine ⟨hmark _ hplace.symm, Nat.lt_of_not_le fun hmore => ?_⟩
    -- the sectors from the remainder on have not been read
    have hmissed := hround.buffer (sectorCount start count d % 2 ^ 8)
    rw [if_neg (by omega), hbuffer, if_pos (by omega)] at hmissed
    exact hdisk _ hmissed

theorem readSound_iff (hd : d.Ok) (hcount : count < 2 ^ 32) :
    ReadSound start count d ↔ Fits 256 (· < 256) start count d :=
  ⟨fits_of_readSound hd hcount, readSound_of_fits hd⟩

end Reads

section Writes

theorem writeSound_of_fits (hd : d.Ok) (hfits : Fits 255 (· = 65536) start count d) : WriteSound start count d := by
  intro h hidle
  have hlast : ∀ n, n = 65536 → n ≤ 65536 := fun n hn => Nat.le_of_eq hn
  rcases hfits.cases hd (by decide) hlast with hnone | ⟨hlt, hpos, hsum, hawake, use48, h48, hhigh, haddr, hn⟩
  · obtain ⟨hn, d', hrun⟩ := ataTransfer_none hd h hnone
    refine ⟨d', h, hrun, hidle, rfl, fun a => ?_⟩
    rw [hn, if_neg (by omega)]
  · have hfirst : dword (firstAddress start d) < 2 ^ 32 := Nat.mod_lt _ (by decide)
    have hmod : sectorCount start count d % 2 ^ 8 < 2 ^ 8 := Nat.mod_lt _ (by decide)
    have hne : use48 = true ∨ sectorCount start count d % 2 ^ 8 ≠ 0 := by
      cases use48 with
      | true => exact .inl rfl
      | false =>
        replace hn : sectorCount start count d ≤ 255 := hn
        exact .inr (by omega)
    obtain ⟨h', hpio, hround⟩ := pioDataOut_run hd hawake hidle hfirst h48 (writeCommand_ext use48 d) hmod hne 0
    have hcount : amount 65536 (sectorCount start count d % 2 ^ 8) = sectorCount start count d ∧
        (if use48 then 256 * (sectorCount start count d % 2 ^ 8) else 0) = 0 := by
      cases use48 with
      | true =>
        replace hn : sectorCount start count d = 65536 := hn
        rw [hn]
        decide
      | false =>
        replace hn : sectorCount start count d ≤ 255 := hn
        have hsame : sectorCount start count d % 2 ^ 8 = sectorCount start count d := Nat.mod_eq_of_lt (by omega)
        rw [hsame]
        exact ⟨amount_of_ne (Nat.ne_of_gt hpos), rfl⟩
    rw [haddr, hcount.1, hcount.2] at hround
    have hloop : commandLoop (fun k b => pioDataOut d k (dword (firstAddress start d)) b (writeCommand use48 d) use48)
        (if use48 then 65536 else 256) (sectorCount start count d) (sectorCount start count d) 0 h = some (0, h') := by
      apply commandLoop_once hpos
      cases use48 with
      | true =>
        replace hn : sectorCount start count d = 65536 := hn
        rw [hn] at hpio
        exact .inr ⟨hn, hpio⟩
      | false => exact .inl ⟨Nat.lt_of_le_of_lt hn (by decide), hpio⟩
    have hint : sectorCount start count d < 2 ^ 31 := by
      cases use48 with
      | true => exact Nat.lt_of_le_of_lt (Nat.le_of_eq hn) (by decide)
      | false => exact Nat.lt_of_le_of_lt hn (by decide)
    obtain ⟨d', hrun⟩ := ataTransfer_ok hd hlt hsum use48 h48 hhigh hloop
    rw [int_of_lt hint] at hrun
    refine ⟨d', h', hrun, hround.idle, hround.buffer, fun a => ?_⟩
    rw [hround.disk, Nat.zero_add]

theorem writeLoop_short (hd : d.Ok) (hawake : d.sleep = false) (hidle : h.Idle d) (hfirst : first < 2 ^ 32)
    (hext : command.ext = false) (hpos : 0 < c)
    (hrun : commandLoop (fun k b => pioDataOut d k first b command false) 256 bound c b h = some (0, h')) :
    c ≤ 255 ∧ WriteRound d (d.addressed false first) c b 0 h h' := by
  rcases commandLoop_first hpos hrun with ⟨hlt, hpio⟩ | ⟨h₁, bound', -, hpio, -⟩
  · have hsame : c % 2 ^ 8 = c := Nat.mod_eq_of_lt hlt
    rw [hsame] at hpio
    obtain ⟨h₂, hpio', hround⟩ := pioDataOut_run hd hawake hidle hfirst (by simp) hext hlt (.inr (Nat.ne_of_gt hpos)) b
    rw [hpio', Option.some.injEq, Prod.mk.injEq] at hpio
    obtain ⟨-, rfl⟩ := hpio
    rw [amount_of_ne (Nat.ne_of_gt hpos)] at hround
    exact ⟨Nat.le_of_lt_succ hlt, hround⟩
  · obtain ⟨h₂, hpio'⟩ := pioDataOut_short hd hawake hidle hfirst hext b
    rw [hpio'] at hpio
    cases hpio

/-- What a command writes to the first address comes from its own part of the buffer. -/
theorem writeLoop_again (hd : d.Ok) (hawake : d.sleep = false) (hidle : h.Idle d) (hfirst : first < 2 ^ 32)
    (h48 : d.lba48 = true) (hext : command.ext = true) (hpos : 0 < c)
    (hrun : commandLoop (fun k b => pioDataOut d k first b command true) 65536 bound c b h = some (0, h')) :
    ∃ j, b ≤ j ∧ h'.drive.disk first = h.buffer j := by
  induction c using Nat.strongRecOn generalizing bound b h with
  | ind c ih =>
    rcases commandLoop_first hpos hrun with ⟨hlt, hpio⟩ | ⟨h₁, bound', hle, hpio, hrest⟩
    · obtain ⟨h₂, hpio', hround⟩ :=
        pioDataOut_run hd hawake hidle hfirst (fun _ => h48) hext (Nat.mod_lt c (by decide)) (.inl rfl) b
      rw [hpio', Option.some.injEq, Prod.mk.injEq] at hpio
      obtain ⟨-, rfl⟩ := hpio
      have hpos' := amount_pos (m := 65536) (by decide) (c % 2 ^ 8)
      refine ⟨b, Nat.le_refl b, ?_⟩
      have hdisk := hround.disk first
      rw [show d.addressed true first = first from rfl, if_pos (by omega), Nat.sub_self, Nat.add_zero] at hdisk
      exact hdisk
    · obtain ⟨h₂, hpio', hround⟩ :=
        pioDataOut_run hd hawake hidle hfirst (fun _ => h48) hext (by decide : 0 < 2 ^ 8) (.inl rfl) b
      rw [hpio', Option.some.injEq, Prod.mk.injEq] at hpio
      obtain ⟨-, rfl⟩ := hpio
      by_cases hlast : c - 65536 = 0
      · rw [hlast, commandLoop_zero, Option.some.injEq, Prod.mk.injEq] at hrest
        obtain ⟨-, rfl⟩ := hrest
        refine ⟨b, Nat.le_refl b, ?_⟩
        have hdisk := hround.disk first
        rw [show d.addressed true first = first from rfl, show amount 65536 0 = 65536 from rfl, if_pos (by omega),
          Nat.sub_self, Nat.add_zero] at hdisk
        exact hdisk
      · obtain ⟨j, hj, hplace⟩ := ih (c - 65536) (by omega) hround.idle (by omega) hrest
        refine ⟨j, by omega, ?_⟩
        rw [hplace, hround.buffer]

/-- The buffer in which only the first sector is marked tells the address and the end of what has been written. -/
theorem fits_of_writeSound (hd : d.Ok) (hcount : count < 2 ^ 32) (hsound : WriteSound start count d) :
    Fits 255 (· = 65536) start count d := by
  by_cases hpast : d.totalBlocks ≤ start
  · exact .inl hpast
  have hlt := Nat.lt_of_not_le hpast
  let buffer : ℕ → Sector := fun i => if i = 0 then fill 1 else fill 0
  have hrest : ∀ i, 0 < i → buffer i = fill 0 := fun i hi => if_neg (Nat.ne_of_gt hi)
  have hidle := freshHost_idle (fun _ => fill 2) buffer d
  obtain ⟨d', h', hrun, hdone, -, hdisk⟩ := hsound _ hidle
  have hmark : ∀ a, h'.drive.disk a = fill 1 → a = firstAddress start d := by
    intro a ha
    rw [hdisk] at ha
    split at ha
    · next hin =>
      by_contra hne
      have hzero := ha.symm.trans (hrest (a - firstAddress start d) (by omega))
      exact absurd (fill_inj hzero) (by decide)
    · exact absurd (fill_inj ha) (by decide)
  obtain ⟨hsum, use48, h48, hhigh, hloop⟩ := request_of_run hd hlt hcount hrun
  rcases Nat.eq_zero_or_pos count with hzero | hcount
  · exact .inr ⟨hsum, .inl (nothing_of_high hzero h48 hhigh)⟩
  have hpos : 0 < sectorCount start count d := (sectorCount_pos hlt).mpr hcount
  have hawake := awake_of_loop hpos (fun hsleep k b h => by rw [pioDataOut, deviceSelect_asleep hsleep]; rfl) hloop
  have hfirst : dword (firstAddress start d) < 2 ^ 32 := Nat.mod_lt _ (by decide)
  apply (fits_iff hd (by decide) (fun n hn => Nat.le_of_eq hn) hlt hcount).mpr
  refine ⟨hsum, hawake, use48, h48, hhigh, ?_⟩
  cases use48 with
  | false =>
    obtain ⟨hle, hround⟩ := writeLoop_short hd hawake hidle hfirst (writeCommand_ext false d) hpos hloop
    have hplace := hround.disk (d.addressed false (dword (firstAddress start d)))
    rw [if_pos (by omega), Nat.sub_self] at hplace
    exact ⟨hmark _ hplace, hle⟩
  | true =>
    have haddr : d.addressed true (dword (firstAddress start d)) = dword (firstAddress start d) := rfl
    rw [haddr]
    rcases commandLoop_first hpos hloop with ⟨hless, hpio⟩ | ⟨h₁, bound', hle, hpio, hnext⟩
    · replace hless : sectorCount start count d < 65536 := hless
      obtain ⟨h₂, hpio', hround⟩ := pioDataOut_run hd hawake hidle hfirst h48 (writeCommand_ext true d)
        (Nat.mod_lt (sectorCount start count d) (by decide)) (.inl rfl) 0
      obtain ⟨-, rfl⟩ := Prod.mk.inj (Option.some.inj (hpio.symm.trans hpio'))
      have hleft : 256 * (sectorCount start count d % 2 ^ 8) = 0 := hround.left.symm.trans hdone.left
      have hmod : sectorCount start count d % 2 ^ 8 = 0 := by omega
      rw [hmod, haddr] at hround
      have hwritten := hround.disk
      rw [show amount 65536 0 = 65536 from rfl] at hwritten
      have hplace := hwritten (dword (firstAddress start d))
      rw [if_pos (by omega), Nat.sub_self] at hplace
      have hsame := hmark _ hplace
      rw [hsame] at hwritten
      -- the drive takes the sector after the last one as well
      have hafter := hwritten (firstAddress start d + sectorCount start count d)
      rw [if_pos (by omega), hdisk, if_neg (by omega), Nat.add_sub_cancel_left, Nat.zero_add] at hafter
      exact absurd (fill_inj (hafter.trans (hrest _ hpos))) (by decide)
    · replace hle : 65536 ≤ sectorCount start count d := hle
      obtain ⟨h₂, hpio', hround⟩ := pioDataOut_run hd hawake hidle hfirst h48 (writeCommand_ext true d)
        (by decide : 0 < 2 ^ 8) (.inl rfl) 0
      obtain ⟨-, rfl⟩ := Prod.mk.inj (Option.some.inj (hpio.symm.trans hpio'))
      by_cases hlast : sectorCount start count d - 65536 = 0
      · rw [if_pos rfl, hlast, commandLoop_zero] at hnext
        obtain ⟨-, rfl⟩ := Prod.mk.inj (Option.some.inj hnext)
        have hplace := hround.disk (dword (firstAddress start d))
        rw [haddr, show amount 65536 0 = 65536 from rfl, if_pos (by omega), Nat.sub_self] at hplace
        have hfull : sectorCount start count d ≤ 65536 := Nat.sub_eq_zero_iff_le.mp hlast
        exact ⟨hmark _ hplace, Nat.le_antisymm hfull hle⟩
      · -- the second command writes another part of the buffer to the first address
        obtain ⟨j, hj, hplace⟩ := writeLoop_again hd hawake hround.idle hfirst (h48 rfl) (writeCommand_ext true d)
          (Nat.pos_of_ne_zero hlast) hnext
        have hle := dword_le (firstAddress start d)
        rw [hround.buffer, hdisk] at hplace
        replace hplace := hplace.trans (hrest j (by simp at hj; omega))
        split at hplace
        · rw [Nat.sub_eq_zero_of_le hle] at hplace
          exact absurd (fill_inj hplace) (by decide)
        · exact absurd (fill_inj hplace) (by decide)

theorem writeSound_iff (hd : d.Ok) (hcount : count < 2 ^ 32) :
    WriteSound start count d ↔ Fits 255 (· = 65536) start count d :=
  ⟨fits_of_writeSound hd hcount, writeSound_of_fits hd⟩

end Writes

/-- A read has at most 256 sectors, a write 255; with 48 bits a read has less than 256, and a write 65536 exactly. -/
theorem ataTransfers_sound_iff (hd : d.Ok) (hcount : count < 2 ^ 32) :
    (ReadSound start count d ↔ Fits 256 (· < 256) start count d) ∧
      (WriteSound start count d ↔ Fits 255 (· = 65536) start count d) :=
  ⟨readSound_iff hd hcount, writeSound_iff hd hcount⟩

/-- A partition behind the first track of a disk with 28 bits. -/
def partition28 : AtaDevice := ⟨4096, 63, 16, 63, true, false, 0, false, false, false⟩

theorem partition28_ok : partition28.Ok := ⟨by decide, by decide, by decide, by decide, by decide, by decide⟩

theorem partition28_sound : ReadSound 8 256 partition28 ∧ WriteSound 8 255 partition28 := by
  constructor
  · refine (ataTransfers_sound_iff partition28_ok (by decide)).1.mpr (.inr ⟨by decide, .inr ⟨by decide, rfl, .inl ?_⟩⟩)
    exact ⟨by decide, by decide, by decide⟩
  · refine (ataTransfers_sound_iff partition28_ok (by decide)).2.mpr (.inr ⟨by decide, .inr ⟨by decide, rfl, .inl ?_⟩⟩)
    exact ⟨by decide, by decide, by decide⟩

/-- The second command reads the first sectors again, and a write of 256 sectors is given up. -/
theorem partition28_unsound : partition28.Ok ∧ ¬ReadSound 8 257 partition28 ∧ ¬WriteSound 8 256 partition28 := by
  refine ⟨partition28_ok, fun hsound => ?_, fun hsound => ?_⟩
  · obtain hpast | ⟨-, hcase⟩ := (readSound_iff partition28_ok (by decide)).mp hsound
    · exact absurd hpast (by decide)
    · rcases hcase with hnothing | ⟨-, -, hshort | hext⟩
      · exact absurd hnothing.1 (by decide)
      · exact absurd hshort.2.1 (by decide)
      · exact absurd hext.1.2.2 (by decide)
  · obtain hpast | ⟨-, hcase⟩ := (writeSound_iff partition28_ok (by decide)).mp hsound
    · exact absurd hpast (by decide)
    · rcases hcase with hnothing | ⟨-, -, hshort | hext⟩
      · exact absurd hnothing.1 (by decide)
      · exact absurd hshort.2.1 (by decide)
      · exact absurd hext.1.2.2 (by decide)

end FreeDos32.Ata
