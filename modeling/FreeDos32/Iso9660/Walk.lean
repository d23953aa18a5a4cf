import FreeDos32.Iso9660.Directory
import FreeDos32.Iso9660.Reading

namespace FreeDos32.Iso9660

/-- What a directory record at a place of a disc is like: it ends in the sector in which it begins, and its identifier has no
dot behind the semicolon. -/
structure RecordOk (disc : ℕ → Byte) (p : ℕ) : Prop where
  pos : disc p ≠ 0
  id : 33 + (record disc p).lenFi ≤ (record disc p).lenDr
  sector : p % bytesPerSector + (record disc p).lenDr ≤ bytesPerSector
  version : ∀ i j, i < (record disc p).lenFi → j < i → (record disc p).fileId i = 0x2E → (record disc p).fileId j ≠ 0x3B

/-- The places of the records of a directory from the place `p` to its end; zeros fill a sector after its last record. -/
inductive Laid (disc : ℕ → Byte) (limit : ℕ) : ℕ → List ℕ → Prop where
  | done : Laid disc limit limit []
  | record {p : ℕ} {ps : List ℕ} : RecordOk disc p → p + (record disc p).lenDr ≤ limit →
      Laid disc limit (p + (Iso9660.record disc p).lenDr) ps → Laid disc limit p (p :: ps)
  | padding {p : ℕ} {ps : List ℕ} : p < limit → disc p = 0 → p % bytesPerSector ≠ 0 →
      Laid disc limit (min limit ((p / bytesPerSector + 1) * bytesPerSector)) ps → Laid disc limit p ps

/-- Where the data of a file start, behind its extended attribute record. -/
def start (f : File) (v : Volume) : ℕ := (f.extent + f.lenEar) * v.blockSize

theorem start_congr (f : File) {v v' : Volume} (h : v'.logBlockSize = v.logBlockSize) : start f v' = start f v := by
  rw [start, start, blockSize_congr h]

/-- An open directory whose data are whole sectors. -/
structure Directory (dev : Device) (f : File) (v : Volume) (ps : List ℕ) : Prop where
  opened : f.Opened
  length : f.dataLength % bytesPerSector = 0
  nonempty : f.dataLength ≠ 0
  fits : f.extent + f.lenEar + f.dataLength / v.blockSize < 2 ^ 32
  laid : Laid dev.disc (start f v + f.dataLength) (start f v) ps

variable {dev : Device} {f : File} {v v' : Volume} {p q o k fuel limit block : ℕ} {ps ps' : List ℕ} {disc data : ℕ → Byte}

section Readbuf

theorem readbuf_first_cases (hh : Holds dev v) (hblock : block % v.blocksPerSector = 0) :
    ∃ v', Holds dev v' ∧ v'.logBlockSize = v.logBlockSize ∧
      (readbuf dev block v = (.ok 0, v') ∧
          (∀ i < bytesPerSector, v'.buffer.data i = dev.disc (block * v.blockSize + i)) ∨
        readbuf dev block v = (.error .eio, v') ∧ ∃ j, dev.fault j) := by
  obtain ⟨hholds, hlog, hres⟩ := readbuf_cases hh block
  refine ⟨(readbuf dev block v).2, hholds, hlog, ?_⟩
  rcases hres with ⟨hok, hvalid, hsector⟩ | ⟨herror, hfault⟩
  · left
    constructor
    · refine Prod.ext ?_ rfl
      rw [hok, hblock, Nat.zero_mul]
    · intro i hi
      have hplace : block / v.blocksPerSector * bytesPerSector = block * v.blockSize := by
        rw [← blocksPerSector_mul_blockSize hh.size, ← Nat.mul_assoc, Nat.div_mul_cancel (Nat.dvd_of_mod_eq_zero hblock)]
      rw [hholds.data hvalid i hi, hsector, hplace]
  · exact .inr ⟨Prod.ext herror rfl, hfault⟩

theorem readbuf_first (hh : Holds dev v) (hfault : ∀ j, dev.fault j = false) (hblock : block % v.blocksPerSector = 0) :
    ∃ v', readbuf dev block v = (.ok 0, v') ∧ Holds dev v' ∧ v'.logBlockSize = v.logBlockSize ∧
      ∀ i < bytesPerSector, v'.buffer.data i = dev.disc (block * v.blockSize + i) := by
  obtain ⟨v', hholds, hlog, ⟨hread, hdata⟩ | ⟨-, j, hj⟩⟩ := readbuf_first_cases hh hblock
  · exact ⟨v', hread, hholds, hlog, hdata⟩
  · rw [hfault j] at hj
    cases hj

theorem readbuf_not_first (hh : Holds dev v) (hfault : ∀ j, dev.fault j = false) (hblock : block % v.blocksPerSector ≠ 0) :
    ∃ res v', readbuf dev block v = (.ok res, v') ∧ bytesPerSector ≤ res := by
  obtain ⟨-, -, hres⟩ := readbuf_cases hh block
  rcases hres with ⟨hok, -, -⟩ | ⟨-, j, hj⟩
  · exact ⟨_, _, Prod.ext hok rfl, Nat.le_mul_of_pos_left _ (Nat.pos_of_ne_zero hblock)⟩
  · rw [hfault j] at hj
    cases hj

end Readbuf

section Place

theorem Directory.blockAt_eq (hd : Directory dev f v ps) (ho : o < f.dataLength) :
    blockAt f v o = f.extent + f.lenEar + o / v.blockSize := by
  have hfits := hd.fits
  have hle : o / v.blockSize ≤ f.dataLength / v.blockSize := Nat.div_le_div_right (Nat.le_of_lt ho)
  rw [blockAt_natCast, Nat.mod_eq_of_lt (by omega)]

theorem Directory.place_eq (hd : Directory dev f v ps) (ho : o < f.dataLength) :
    blockAt f v o * v.blockSize + o % v.blockSize = start f v + o := by
  rw [hd.blockAt_eq ho, start, Nat.add_mul, Nat.add_assoc, Nat.div_add_mod']

theorem place_mod (hs : v.SizeOk) (block i : ℕ) (hi : i < v.blockSize) :
    (block * v.blockSize + i) % bytesPerSector = block % v.blocksPerSector * v.blockSize + i := by
  have hsize := blocksPerSector_mul_blockSize hs
  have hlt : block % v.blocksPerSector * v.blockSize + i < bytesPerSector := by
    have hr : block % v.blocksPerSector + 1 ≤ v.blocksPerSector := Nat.mod_lt _ (blocksPerSector_pos v)
    have hmul := Nat.mul_le_mul_right v.blockSize hr
    rw [Nat.add_mul, Nat.one_mul, hsize] at hmul
    omega
  have hsplit : block * v.blockSize + i =
      block % v.blocksPerSector * v.blockSize + i + bytesPerSector * (block / v.blocksPerSector) := by
    have hmul : (block % v.blocksPerSector + v.blocksPerSector * (block / v.blocksPerSector)) * v.blockSize =
        block % v.blocksPerSector * v.blockSize + v.blocksPerSector * v.blockSize * (block / v.blocksPerSector) := by
      rw [Nat.add_mul, Nat.mul_right_comm v.blocksPerSector]
    rw [Nat.mod_add_div, hsize] at hmul
    omega
  rw [hsplit, Nat.add_mul_mod_self_left, Nat.mod_eq_of_lt hlt]

theorem Directory.first_iff (hd : Directory dev f v ps) (hs : v.SizeOk) (ho : o < f.dataLength) :
    blockAt f v o % v.blocksPerSector = 0 ↔ (start f v + o) % bytesPerSector < v.blockSize := by
  have hlt := Nat.mod_lt o (blockSize_pos v)
  rw [← hd.place_eq ho, place_mod hs _ _ hlt]
  constructor
  · intro hzero
    rwa [hzero, Nat.zero_mul, Nat.zero_add]
  · intro hle
    by_contra hne
    have hone : 1 * v.blockSize ≤ blockAt f v o % v.blocksPerSector * v.blockSize :=
      Nat.mul_le_mul_right _ (Nat.pos_of_ne_zero hne)
    omega

theorem Directory.mod_of_first (hd : Directory dev f v ps) (hs : v.SizeOk) (ho : o < f.dataLength)
    (hfirst : blockAt f v o % v.blocksPerSector = 0) : (start f v + o) % bytesPerSector = o % v.blockSize := by
  rw [← hd.place_eq ho, place_mod hs _ _ (Nat.mod_lt _ (blockSize_pos v)), hfirst, Nat.zero_mul, Nat.zero_add]

end Place

section Turn

theorem Directory.congr (hd : Directory dev f v ps) (hlog : v'.logBlockSize = v.logBlockSize) : Directory dev f v' ps := by
  have hstart : start f v' = start f v := start_congr f hlog
  constructor
  · exact hd.opened
  · exact hd.length
  · exact hd.nonempty
  · rw [blockSize_congr hlog]
    exact hd.fits
  · rw [hstart]
    exact hd.laid

theorem Directory.seek (hd : Directory dev f v ps) (x : ℤ) : Directory dev { f with filePointer := x } v ps :=
  ⟨⟨hd.opened.magic, hd.opened.rdonly, hd.opened.length⟩, hd.length, hd.nonempty, hd.fits, hd.laid⟩

theorem readdirLoop_end (h : f.dataLength ≤ o) : readdirLoop dev f (fuel + 1) o v = some (.error .enmfile, v) := by
  rw [readdirLoop, if_pos (Int.ofNat_le.mpr h)]

variable (hd : Directory dev f v ps) (hh : Holds dev v) (hfault : ∀ j, dev.fault j = false) (ho : o < f.dataLength)
include hd hh ho

theorem readdirLoop_first_cases (fuel : ℕ) (hfirst : (start f v + o) % bytesPerSector < v.blockSize) :
    ∃ v', Holds dev v' ∧ v'.logBlockSize = v.logBlockSize ∧
      ((∀ i, o % v.blockSize + i < bytesPerSector → v'.buffer.data (o % v.blockSize + i) = dev.disc (start f v + o + i)) ∧
          (dev.disc (start f v + o) = 0 → readdirLoop dev f (fuel + 1) o v =
            readdirLoop dev f fuel (o + (bytesPerSector - (start f v + o) % bytesPerSector) : ℕ) v') ∧
          (RecordOk dev.disc (start f v + o) → readdirLoop dev f (fuel + 1) o v =
            if (record dev.disc (start f v + o)).lenFi < 60 then
              some (.ok ⟨0, blockAt f v o, o % v.blockSize, (o + (record dev.disc (start f v + o)).lenDr : ℕ)⟩, v')
            else none) ∨
        readdirLoop dev f (fuel + 1) o v = some (.error .eio, v') ∧ ∃ j, dev.fault j) := by
  have hblock := (hd.first_iff hh.size ho).mpr hfirst
  obtain ⟨v', hholds, hlog, ⟨hread, hdata⟩ | ⟨hread, hfault⟩⟩ := readbuf_first_cases hh hblock
  · have hmod := hd.mod_of_first hh.size ho hblock
    have hlt := Nat.mod_lt o (blockSize_pos v)
    have hle := blockSize_le hh.size
    have hcast : ((o : ℤ) % v'.blockSize).toNat = o % v.blockSize := by
      rw [blockSize_congr hlog, ← Int.natCast_emod, Int.toNat_natCast]
    have hbyte : ∀ i, o % v.blockSize + i < bytesPerSector →
        v'.buffer.data (o % v.blockSize + i) = dev.disc (start f v + o + i) := by
      intro i hi
      rw [hdata _ hi, ← Nat.add_assoc, hd.place_eq ho]
    have hzero := hbyte 0 (by omega)
    rw [Nat.add_zero, Nat.add_zero] at hzero
    refine ⟨v', hholds, hlog, .inl ⟨hbyte, ?_, ?_⟩⟩
    · intro hpad
      rw [readdirLoop, if_neg (by omega), hread]
      dsimp only
      rw [hcast, Nat.zero_add, if_neg (by omega), hzero, hpad, if_pos rfl, hmod]
      rfl
    · intro hr
      have hid := hr.id
      have hsector := hr.sector
      rw [hmod] at hsector
      have hlenDr : (record v'.buffer.data (o % v.blockSize)).lenDr = (record dev.disc (start f v + o)).lenDr :=
        congrArg BitVec.toNat hzero
      have hlenFi : (record v'.buffer.data (o % v.blockSize)).lenFi = (record dev.disc (start f v + o)).lenFi :=
        congrArg BitVec.toNat (hbyte 32 (by omega))
      have hfits : (record v'.buffer.data (o % v.blockSize)).Fits (o % v.blockSize) 60 ↔
          (record dev.disc (start f v + o)).lenFi < 60 := by
        rw [DirRecord.Fits, hlenFi]
        omega
      rw [readdirLoop, if_neg (by omega), hread]
      dsimp only
      rw [hcast, Nat.zero_add, if_neg (by omega), hzero, if_neg hr.pos, hlenDr, blockAt_congr hlog]
      by_cases hid' : (record dev.disc (start f v + o)).lenFi < 60
      · rw [if_pos hid', if_pos (hfits.mpr hid')]
        rfl
      · rw [if_neg hid', if_neg (mt hfits.mp hid')]
  · refine ⟨v', hholds, hlog, .inr ⟨?_, hfault⟩⟩
    rw [readdirLoop, if_neg (by omega), hread]

include hfault

theorem readdirLoop_first (fuel : ℕ) (hfirst : (start f v + o) % bytesPerSector < v.blockSize) :
    ∃ v', Holds dev v' ∧ v'.logBlockSize = v.logBlockSize ∧
      (dev.disc (start f v + o) = 0 → readdirLoop dev f (fuel + 1) o v =
        readdirLoop dev f fuel (o + (bytesPerSector - (start f v + o) % bytesPerSector) : ℕ) v') ∧
      (RecordOk dev.disc (start f v + o) → readdirLoop dev f (fuel + 1) o v =
        if (record dev.disc (start f v + o)).lenFi < 60 then
          some (.ok ⟨0, blockAt f v o, o % v.blockSize, (o + (record dev.disc (start f v + o)).lenDr : ℕ)⟩, v')
        else none) := by
  obtain ⟨v', hholds, hlog, ⟨-, hturn⟩ | ⟨-, j, hj⟩⟩ := readdirLoop_first_cases hd hh ho fuel hfirst
  · exact ⟨v', hholds, hlog, hturn⟩
  · rw [hfault j] at hj
    cases hj

theorem readdirLoop_not_first (fuel : ℕ) (hnot : ¬(start f v + o) % bytesPerSector < v.blockSize) :
    readdirLoop dev f (fuel + 1) o v = none := by
  obtain ⟨res, v', hread, hres⟩ := readbuf_not_first hh hfault (mt (hd.first_iff hh.size ho).mp hnot)
  rw [readdirLoop, if_neg (by omega), hread]
  dsimp only
  rw [if_pos (by omega)]

end Turn

section Readdirs

theorem sector_end (x : ℕ) : x + (bytesPerSector - x % bytesPerSector) = (x / bytesPerSector + 1) * bytesPerSector := by
  unfold bytesPerSector
  omega

theorem sector_le (hlimit : limit % bytesPerSector = 0) (hp : p < limit) :
    (p / bytesPerSector + 1) * bytesPerSector ≤ limit := by
  unfold bytesPerSector at *
  omega

/-- From the place `p` on, each place that `iso9660_do_readdir` looks at is in the first block of its sector, and each
identifier fits its array. -/
def Reads (disc : ℕ → Byte) (blockSize p : ℕ) (ps : List ℕ) : Prop :=
  p % bytesPerSector < blockSize ∧
    ∀ q ∈ ps, (record disc q).lenFi < 60 ∧ (q + (record disc q).lenDr) % bytesPerSector < blockSize

def resume (dev : Device) (fuel : ℕ) (f : File) : Option (Except Errno Entry × Volume) → Option (List ℕ)
  | none => none
  | some (.error e, _) => if e = .enmfile then some [] else none
  | some (.ok entry, v) => (readdirs dev fuel { f with filePointer := entry.next } v).map fun places =>
      (entry.deBlock * v.blockSize + entry.deBlkofs) :: places

theorem readdirs_succ (fuel : ℕ) : readdirs dev (fuel + 1) f v =
    resume dev fuel f (readdirLoop dev f (f.dataLength + 1) f.filePointer v) := by
  rw [readdirs, doReaddir]
  cases readdirLoop dev f (f.dataLength + 1) f.filePointer v with
  | none => rfl
  | some r => cases r with
    | mk res v => cases res <;> rfl

theorem map_cons_eq_some {x : Option (List ℕ)} : x.map (p :: ·) = some ps' ↔ ∃ qs, x = some qs ∧ ps' = p :: qs := by
  rw [Option.map_eq_some_iff]
  exact exists_congr fun qs => and_congr_right fun _ => eq_comm

theorem resume_laid {ps₀ : List ℕ} (hfault : ∀ j, dev.fault j = false) (hl : Laid dev.disc limit p ps)
    (hd : Directory dev f v ps₀) (hh : Holds dev v) (hlimit : limit = start f v + f.dataLength)
    (hstart : start f v % bytesPerSector = 0) (hp : p = start f v + o) (hk : f.dataLength - o < k)
    (hfuel : f.dataLength - o ≤ fuel) :
    resume dev fuel f (readdirLoop dev f k o v) = some ps' ↔ Reads dev.disc v.blockSize p ps ∧ ps' = ps := by
  have hlength := hd.length
  obtain ⟨k, rfl⟩ : ∃ m, k = m + 1 := ⟨k - 1, by omega⟩
  induction hl generalizing f v o k fuel ps' with
  | done =>
    rw [readdirLoop_end (by omega), hlimit, Reads, Nat.add_mod, hstart, hlength]
    simpa [resume, eq_comm] using fun _ : [] = ps' => blockSize_pos v
  | @record p ps hr hle hl ih =>
    have ho : o < f.dataLength := by
      have hid := hr.id
      omega
    subst hp
    by_cases hfirst : (start f v + o) % bytesPerSector < v.blockSize
    · obtain ⟨v', hh', hlog, -, hturn⟩ := readdirLoop_first hd hh hfault ho k hfirst
      rw [hturn hr]
      by_cases hid : (record dev.disc (start f v + o)).lenFi < 60
      · obtain ⟨fuel, rfl⟩ : ∃ m, fuel = m + 1 := ⟨fuel - 1, by omega⟩
        rw [if_pos hid, resume, readdirs_succ]
        have hstart' : start f v' = start f v := start_congr f hlog
        have hplace : blockAt f v o * v'.blockSize + o % v.blockSize = start f v + o := by
          rw [blockSize_congr hlog, hd.place_eq ho]
        have hrest (qs : List ℕ) := @ih { f with filePointer := (o + (record dev.disc (start f v + o)).lenDr : ℕ) } v'
          (o + (record dev.disc (start f v + o)).lenDr) fuel qs ((hd.congr hlog).seek _) hh' (hlimit.trans (by rw [← hstart']; rfl))
          (by rw [← hstart] ; exact congrArg (· % bytesPerSector) hstart') (by rw [Nat.add_assoc, ← hstart']; rfl)
          (by have := hr.id; dsimp only; omega) hlength f.dataLength (by dsimp only; omega)
        dsimp only at hrest ⊢
        rw [hplace, map_cons_eq_some]
        simp only [hrest, blockSize_congr hlog]
        constructor
        · rintro ⟨qs, ⟨⟨hmod, hreads⟩, rfl⟩, rfl⟩
          exact ⟨⟨hfirst, List.forall_mem_cons.mpr ⟨⟨hid, hmod⟩, hreads⟩⟩, rfl⟩
        · rintro ⟨⟨-, hreads⟩, rfl⟩
          obtain ⟨⟨-, hmod⟩, hreads⟩ := List.forall_mem_cons.mp hreads
          exact ⟨ps, ⟨⟨hmod, hreads⟩, rfl⟩, rfl⟩
      · rw [if_neg hid]
        exact iff_of_false (fun h => nomatch h) (fun h => hid (h.1.2 _ List.mem_cons_self).1)
    · rw [readdirLoop_not_first hd hh hfault ho k hfirst]
      exact iff_of_false (fun h => nomatch h) (fun h => hfirst h.1.1)
  | @padding p ps hlt hzero hmod hl ih =>
    subst hp
    have ho : o < f.dataLength := by omega
    by_cases hfirst : (start f v + o) % bytesPerSector < v.blockSize
    · obtain ⟨v', hh', hlog, hturn, -⟩ := readdirLoop_first hd hh hfault ho k hfirst
      rw [hturn hzero]
      obtain ⟨k, rfl⟩ : ∃ m, k = m + 1 := ⟨k - 1, by omega⟩
      have hstart' : start f v' = start f v := start_congr f hlog
      have hwhole : limit % bytesPerSector = 0 := by rw [hlimit, Nat.add_mod, hstart, hlength]; rfl
      have hnext : start f v' + (o + (bytesPerSector - (start f v + o) % bytesPerSector)) =
          ((start f v + o) / bytesPerSector + 1) * bytesPerSector := by
        rw [hstart', ← Nat.add_assoc, sector_end]
      rw [Nat.min_eq_right (sector_le hwhole hlt)] at hl ih
      have hrest := @ih f v' (o + (bytesPerSector - (start f v + o) % bytesPerSector)) fuel ps' (hd.congr hlog) hh'
        (by rw [hstart', hlimit]) (by rw [hstart', hstart]) hnext.symm (by omega) hlength k (by
          have := Nat.mod_lt (start f v + o) (show 0 < bytesPerSector by decide)
          omega)
      refine hrest.trans (and_congr_left' ?_)
      rw [Reads, Reads, Nat.mul_mod_left, blockSize_congr hlog]
      exact and_congr_left' (iff_of_true (blockSize_pos v) hfirst)
    · rw [readdirLoop_not_first hd hh hfault ho k hfirst]
      exact iff_of_false (fun h => nomatch h) (fun h => hfirst h.1.1)

theorem readdirs_eq_some_iff (hfault : ∀ j, dev.fault j = false) (hd : Directory dev f v ps) (hh : Holds dev v)
    (hpointer : f.filePointer = 0) (hstart : start f v % bytesPerSector = 0) :
    readdirs dev (f.dataLength + 1) f v = some ps' ↔ Reads dev.disc v.blockSize (start f v) ps ∧ ps' = ps := by
  rw [readdirs_succ, hpointer]
  exact resume_laid hfault hd.laid hd hh rfl hstart (o := 0) rfl (Nat.lt_succ_self _) (Nat.le_refl _)

theorem readdirs_eq_none (hfault : ∀ j, dev.fault j = false) (hd : Directory dev f v ps) (hh : Holds dev v)
    (hpointer : f.filePointer = 0) (hstart : start f v % bytesPerSector ≠ 0) : readdirs dev (f.dataLength + 1) f v = none := by
  have ho : 0 < f.dataLength := Nat.pos_of_ne_zero hd.nonempty
  have hnot : ¬(start f v + 0) % bytesPerSector < v.blockSize := by
    intro hfirst
    have hblock := (hd.first_iff hh.size ho).mpr hfirst
    rw [Nat.add_zero] at *
    exact hstart ((hd.mod_of_first hh.size ho hblock).trans (Nat.zero_mod _))
  have hnone := readdirLoop_not_first hd hh hfault ho f.dataLength hnot
  rw [readdirs_succ, hpointer]
  exact congrArg (resume dev _ f) hnone

end Readdirs

section Sample

def oneRecord : Device := ⟨fun i => if i = 43008 then 34 else 0, fun _ => false⟩

theorem oneRecord_laid : Laid oneRecord.disc (43008 + 2048) 43008 [43008] := by
  refine .record ⟨by decide, by decide, by decide, fun i j hi => absurd hi (Nat.not_lt_zero i)⟩ (by decide) ?_
  refine .padding (by decide) (by decide) (by decide) ?_
  have hend : min (43008 + 2048) ((43042 / bytesPerSector + 1) * bytesPerSector) = 43008 + 2048 := by decide
  rw [show 43008 + (record oneRecord.disc 43008).lenDr = 43042 by decide, hend]
  exact .done

theorem oneRecord_directory {extent lenEar flags : ℕ} (h : extent + lenEar = 21) (hflags : flags &&& oAccmode = oRdonly) :
    Directory oneRecord ⟨extent, 2048, lenEar, 0, true, flags⟩ (mounted 11 fun _ => 0) [43008] := by
  have hstart : start ⟨extent, 2048, lenEar, 0, true, flags⟩ (mounted 11 fun _ => 0) = 43008 := by
    change (extent + lenEar) * _ = _
    rw [h]
    rfl
  refine ⟨⟨rfl, hflags, show 2048 < 2 ^ 32 by decide⟩, Nat.mod_self 2048, show 2048 ≠ 0 by decide, ?_, ?_⟩
  · change extent + lenEar + _ < _
    rw [h]
    exact show 21 + 2048 / 2 ^ 11 < 2 ^ 32 by decide
  · rw [hstart]
    exact oneRecord_laid

end Sample

end FreeDos32.Iso9660
