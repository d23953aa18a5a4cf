import FreeDos32.Floppy.Blockio
import FreeDos32.Kernel.FreeList

namespace FreeDos32.Floppy

open Fdc
open Kernel (dword dword_of_lt)

variable {n bound count start lba : ℕ} {f f' : Floppy} {m m' : Medium} {fmt : FloppyFormat} {nocache : Bool}
  {sectors : List Sector}

section Geometry

theorem cylinderSize_pos (hok : fmt.Ok) : 0 < fmt.cylinderSize := by
  obtain ⟨-, hspt, hheads, -⟩ := hok
  apply Nat.mul_pos hspt
  rcases hheads with h | h <;> rw [h] <;> decide

theorem chs_has (m : Medium) (hlba : lba < m.fmt.size) : m.Has (m.fmt.chs lba) := by
  have hcyl := cylinderSize_pos m.ok
  obtain ⟨hsize, hspt, -, -⟩ := m.ok
  have hmod := Nat.mod_lt lba hcyl
  refine ⟨?_, ?_, ?_, ?_⟩
  · rw [hsize] at hlba
    exact Nat.div_lt_of_lt_mul hlba
  · exact Nat.div_lt_of_lt_mul hmod
  · exact Nat.succ_pos _
  · exact Nat.mod_lt _ hspt

theorem chs_inj {a b : ℕ} (h : fmt.chs a = fmt.chs b) : a = b := by
  injection h with hc hh hs
  have hrest : a % fmt.cylinderSize = b % fmt.cylinderSize := by
    rw [← Nat.div_add_mod (a % fmt.cylinderSize) fmt.secPerTrk, hh, Nat.add_right_cancel hs, Nat.div_add_mod]
  rw [← Nat.div_add_mod a fmt.cylinderSize, hc, hrest, Nat.div_add_mod]

theorem sector_write (m : Medium) (a b : ℕ) (sector : Sector) :
    (m.write (m.fmt.chs a) sector).sector b = if b = a then sector else m.sector b := by
  show Function.update m.data (m.fmt.chs a) sector (m.fmt.chs b) = _
  split
  · next h => rw [h, Function.update_self]
  · next h => exact Function.update_of_ne (fun heq => h (chs_inj heq)) ..

/-- The sectors of a cylinder are those of its tracks one after the other. -/
theorem sector_cylinder (m : Medium) (c : ℕ) {i : ℕ} (hi : i < m.fmt.cylinderSize) :
    m.sector (c * m.fmt.cylinderSize + i) = m.data ⟨c, i / m.fmt.secPerTrk, i % m.fmt.secPerTrk + 1⟩ := by
  have hcyl : 0 < m.fmt.cylinderSize := Nat.lt_of_le_of_lt (Nat.zero_le i) hi
  have hdiv : (c * m.fmt.cylinderSize + i) / m.fmt.cylinderSize = c := by
    rw [Nat.mul_comm, Nat.mul_add_div hcyl, Nat.div_eq_of_lt hi, Nat.add_zero]
  have hmod : (c * m.fmt.cylinderSize + i) % m.fmt.cylinderSize = i := by
    rw [Nat.mul_comm, Nat.mul_add_mod, Nat.mod_eq_of_lt hi]
  unfold Medium.sector FloppyFormat.chs
  rw [hdiv, hmod]

/-- The sectors from `start` on. -/
def sectorsOf (m : Medium) (start n : ℕ) : List Sector := (List.range n).map fun i => m.sector (start + i)

theorem sectorsOf_add (m : Medium) (start k n : ℕ) : sectorsOf m start (k + n) = sectorsOf m start k ++ sectorsOf m (start + k) n := by
  simp [sectorsOf, List.range_add, Function.comp_def, Nat.add_assoc]

theorem sectorsOf_succ (m : Medium) (start n : ℕ) : sectorsOf m start (n + 1) = m.sector start :: sectorsOf m (start + 1) n := by
  rw [Nat.add_comm, sectorsOf_add]
  rfl

end Geometry

section States

/-- The driver knows the disk that is in the drive. -/
structure Logged (f : Floppy) (m : Medium) : Prop where
  changeline : f.fdd.changeline = false
  changed : f.fdd.changed = false
  medium : f.fdd.medium = some m
  fmt : f.fdd.fmt = m.fmt
  cylinderSize : f.cylinderSize = m.fmt.cylinderSize

/-- The cached sectors are those of the disk, unless they are marked as bad. -/
def Cached (f : Floppy) (m : Medium) : Prop :=
  f.valid = true → f.bad = false → ∀ i < f.cylinderSize, f.start + i < m.fmt.size → f.data i = m.sector (f.start + i)

/-- An exchange of the disk is seen, and without one the cache is right. -/
structure Coherent (f : Floppy) : Prop where
  changed : f.fdd.changed = true → f.fdd.changeline = true
  medium : f.fdd.medium = none → f.fdd.changeline = true
  current : ∀ m, f.fdd.changeline = false → f.fdd.medium = some m → Logged f m ∧ Cached f m

theorem Logged.lbaToChs (h : Logged f m) (hstart : start < m.fmt.size) : f.lbaToChs (dword start) = some (m.fmt.chs start) := by
  have hlt := m.ok.2.2.2
  rw [dword_of_lt (by omega), Floppy.lbaToChs, h.fmt, h.cylinderSize, if_neg (by omega)]
  rfl

theorem Logged.readSector (h : Logged f m) (hstart : start < m.fmt.size) : f.readSector start = .ok (m.sector start) := by
  rw [Floppy.readSector, h.lbaToChs hstart]
  dsimp only
  rw [Fdd.fdcRead, h.changeline, h.medium]
  dsimp only
  rw [if_neg (by decide), if_pos (chs_has m hstart)]
  rfl

theorem Logged.readUncached (h : Logged f m) (hend : start + n ≤ m.fmt.size) :
    Floppy.readUncached n start f = .ok (sectorsOf m start n) := by
  induction n generalizing start with
  | zero => rfl
  | succ n ih =>
    rw [Floppy.readUncached, h.readSector (by omega), ih (by omega), sectorsOf_succ]
    rfl

end States

section Reads

/-- After a miss the cylinder of the sector is in the cache, or it is marked as bad. -/
theorem Logged.fill (h : Logged f m) (hstart : start < m.fmt.size) :
    ∃ f', f.fill start = .ok f' ∧ Logged f' m ∧ Cached f' m ∧ f'.Hit start := by
  have hcyl := cylinderSize_pos m.ok
  have hdiv : start / m.fmt.cylinderSize * m.fmt.cylinderSize ≤ start ∧
      start < start / m.fmt.cylinderSize * m.fmt.cylinderSize + m.fmt.cylinderSize := by
    have hmod := Nat.mod_lt start hcyl
    have hsum := Nat.div_add_mod' start m.fmt.cylinderSize
    omega
  rw [Floppy.fill, h.lbaToChs hstart]
  dsimp only
  rw [Fdd.fdcReadCylinder, h.changeline, h.medium]
  dsimp only
  rw [if_neg (by decide), h.fmt, h.cylinderSize]
  split
  · next heq =>
    split at heq <;> cases heq
  · exact ⟨_, rfl, ⟨h.changeline, h.changed, h.medium, h.fmt, rfl⟩, fun _ hbad => Bool.noConfusion hbad, rfl, hdiv⟩
  · next data heq =>
    refine ⟨_, rfl, ⟨h.changeline, h.changed, h.medium, h.fmt, rfl⟩, fun _ _ i hi _ => ?_, rfl, hdiv⟩
    replace hi : i < m.fmt.cylinderSize := hi
    have htwo : m.fmt.cylinderSize ≤ m.fmt.secPerTrk * 2 := by
      apply Nat.mul_le_mul_left
      rcases m.ok.2.2.1 with hheads | hheads <;> rw [hheads]
      decide
    split at heq
    · cases heq
      dsimp only
      rw [if_pos (by omega)]
      exact (sector_cylinder m (start / m.fmt.cylinderSize) hi).symm
    · cases heq

/-- The sectors come in order, some from the cache and some from the disk; the induction is on the rounds. -/
theorem Logged.readCached (h : Logged f m) (hcached : Cached f m) (hn : n ≤ bound) (hend : start + n ≤ m.fmt.size) :
    ∃ f', Floppy.readCached bound n start f = some (.ok (sectorsOf m start n), f') ∧
      Logged f' m ∧ Cached f' m := by
  induction bound generalizing n start f with
  | zero =>
    rw [Nat.le_zero.mp hn]
    exact ⟨f, rfl, h, hcached⟩
  | succ bound ih =>
    rw [Floppy.readCached]
    by_cases hzero : n = 0
    · rw [if_pos hzero, hzero]
      exact ⟨f, rfl, h, hcached⟩
    rw [if_neg hzero]
    have hlookup : ∃ f₁, (if f.Hit start then Except.ok f else f.fill start) = .ok f₁ ∧ Logged f₁ m ∧ Cached f₁ m ∧
        f₁.Hit start := by
      split
      · next hhit => exact ⟨f, rfl, h, hcached, hhit⟩
      · exact h.fill (by omega)
    obtain ⟨f₁, heq, h₁, hcached₁, hvalid, hfrom, hto⟩ := hlookup
    rw [heq]
    dsimp only
    by_cases hbad : f₁.bad = true
    · -- one sector comes from the disk
      obtain ⟨f', hrun, h', hcached'⟩ := ih h₁ hcached₁ (by omega : n - 1 ≤ bound)
        (by omega : start + 1 + (n - 1) ≤ m.fmt.size)
      have hone : n = n - 1 + 1 := by omega
      rw [if_pos hbad, h₁.readSector (by omega)]
      dsimp only
      rw [hrun]
      refine ⟨f', ?_, h', hcached'⟩
      rw [hone, sectorsOf_succ]
      rfl
    · have hunchanged : f₁.fdd.fdcDiskChanged = false := by simp [Fdd.fdcDiskChanged, h₁.changeline, h₁.changed]
      rw [if_neg hbad, hunchanged, if_neg (by decide)]
      generalize hk : (if n < f₁.start + f₁.cylinderSize - start then n else f₁.start + f₁.cylinderSize - start) = k
      have hbounds : 0 < k ∧ k ≤ n ∧ start + k ≤ f₁.start + f₁.cylinderSize := by
        rw [← hk]
        split <;> omega
      obtain ⟨hpos, hle, hcyl⟩ := hbounds
      have hcopy : (List.range k).map (fun i => f₁.data (start - f₁.start + i)) = sectorsOf m start k := by
        apply List.map_congr_left
        intro i hi
        have hlt := List.mem_range.mp hi
        have hplace : f₁.start + (start - f₁.start + i) = start + i := by omega
        rw [hcached₁ hvalid (by simpa using hbad) _ (by omega) (by omega), hplace]
      obtain ⟨f', hrun, h', hcached'⟩ := ih h₁ hcached₁ (by omega : n - k ≤ bound)
        (by omega : start + k + (n - k) ≤ m.fmt.size)
      rw [hrun, hcopy]
      refine ⟨f', ?_, h', hcached'⟩
      have hsum : n = k + (n - k) := by omega
      rw [hsum, sectorsOf_add, Nat.add_sub_cancel_left]
      rfl

theorem readSector_exchanged (h : f.fdd.changeline = true) (start : ℕ) : ∃ e, f.readSector start = .error e := by
  unfold Floppy.readSector
  split
  · exact ⟨_, rfl⟩
  · rw [Fdd.fdcRead, if_pos h]
    exact ⟨_, rfl⟩

theorem fill_exchanged (h : f.fdd.changeline = true) (start : ℕ) : ∃ e, f.fill start = .error e := by
  unfold Floppy.fill
  split
  · exact ⟨_, rfl⟩
  · rw [Fdd.fdcReadCylinder, if_pos h]
    exact ⟨_, rfl⟩

theorem readUncached_exchanged (h : f.fdd.changeline = true) (hn : 0 < n) (start : ℕ) :
    ∃ e, Floppy.readUncached n start f = .error e := by
  obtain ⟨k, rfl⟩ := Nat.exists_eq_add_of_le' hn
  obtain ⟨e, herror⟩ := readSector_exchanged h start
  rw [Floppy.readUncached, herror]
  exact ⟨e, rfl⟩

/-- Neither the cache nor the disk gives a sector as long as an exchange is reported. -/
theorem readCached_exchanged (h : f.fdd.changeline = true) (hn : 0 < n) (hbound : n ≤ bound) (start : ℕ) :
    ∃ e, Floppy.readCached bound n start f = some (.error e, f) := by
  obtain ⟨k, rfl⟩ := Nat.exists_eq_add_of_le' (Nat.lt_of_lt_of_le hn hbound)
  rw [Floppy.readCached, if_neg (Nat.ne_of_gt hn)]
  by_cases hhit : f.Hit start
  · rw [if_pos hhit]
    dsimp only
    split
    · obtain ⟨e, herror⟩ := readSector_exchanged h start
      rw [herror]
      exact ⟨e, rfl⟩
    · have hchanged : f.fdd.fdcDiskChanged = true := by simp [Fdd.fdcDiskChanged, h]
      rw [if_pos hchanged]
      exact ⟨_, rfl⟩
  · obtain ⟨e, herror⟩ := fill_exchanged h start
    rw [if_neg hhit, herror]
    exact ⟨e, rfl⟩

theorem Logged.floppyRead (h : Logged f m) (hcached : Cached f m) (hend : start + n ≤ m.fmt.size) (nocache : Bool) :
    ∃ f', f.floppyRead n start nocache = some (.ok (sectorsOf m start n), f') ∧ Logged f' m ∧ Cached f' m := by
  unfold Floppy.floppyRead
  cases nocache with
  | true =>
    rw [if_pos rfl, h.readUncached hend]
    exact ⟨f, rfl, h, hcached⟩
  | false =>
    rw [if_neg (by decide)]
    exact h.readCached hcached (Nat.le_refl n) hend

theorem floppyRead_zero (start : ℕ) (nocache : Bool) (f : Floppy) : f.floppyRead 0 start nocache = some (.ok [], f) := by
  cases nocache <;> rfl

theorem floppyRead_exchanged (h : f.fdd.changeline = true) (hn : 0 < n) (start : ℕ) (nocache : Bool) :
    ∃ e, f.floppyRead n start nocache = some (.error e, f) := by
  unfold Floppy.floppyRead
  cases nocache with
  | true =>
    obtain ⟨e, herror⟩ := readUncached_exchanged h hn start
    rw [if_pos rfl, herror]
    exact ⟨e, rfl⟩
  | false => exact readCached_exchanged h hn (Nat.le_refl n) start

end Reads

section Writes

/-- What is in the cache of the sectors that are written around it. -/
def WrittenAround (sectors : List Sector) (start : ℕ) (f : Floppy) : Prop :=
  f.bad = false → ∀ i (hi : i < sectors.length), f.Hit (start + i) → f.data (start + i - f.start) = sectors.get ⟨i, hi⟩

theorem cacheWrite_frame (nocache : Bool) (start : ℕ) (sector : Sector) (f : Floppy) :
    (f.cacheWrite nocache start sector).fdd = f.fdd ∧ (f.cacheWrite nocache start sector).cylinderSize = f.cylinderSize ∧
      (f.cacheWrite nocache start sector).start = f.start ∧ (f.cacheWrite nocache start sector).valid = f.valid ∧
      (f.cacheWrite nocache start sector).bad = f.bad := by
  unfold Floppy.cacheWrite
  split <;> exact ⟨rfl, rfl, rfl, rfl, rfl⟩

theorem floppyWrite_exchanged (h : f.fdd.changeline = true) (nocache : Bool) (sectors : List Sector) (start : ℕ) :
    (f.floppyWrite nocache sectors start).2.fdd = f.fdd := by
  cases sectors with
  | nil => rfl
  | cons sector rest =>
    have hfdd := (cacheWrite_frame nocache start sector f).1
    rw [Floppy.floppyWrite]
    split
    · exact hfdd
    · rw [Fdd.fdcWrite, hfdd, if_pos h]
      exact hfdd

theorem cacheWrite_cached (hcached : Cached f m) {sector : Sector}
    (haround : nocache = true → f.bad = false → f.Hit start → f.data (start - f.start) = sector) :
    Cached (f.cacheWrite nocache start sector) (m.write (m.fmt.chs start) sector) := by
  obtain ⟨-, hcyl, hplace, hvalid, hbad⟩ := cacheWrite_frame nocache start sector f
  unfold Cached
  rw [hcyl, hplace, hvalid, hbad]
  intro hv hb i hi hlt
  have hdisk := hcached hv hb i hi hlt
  rw [sector_write]
  unfold Floppy.cacheWrite
  split
  · next hboth =>
    obtain ⟨-, -, hfrom, hto⟩ := hboth
    by_cases hsame : f.start + i = start
    · rw [if_pos hsame, ← hsame, Nat.add_sub_cancel_left]
      exact Function.update_self ..
    · rw [if_neg hsame, ← hdisk]
      exact Function.update_of_ne (by omega) ..
  · next hnot =>
    split
    · next hsame =>
      have hhit : f.Hit start := ⟨hv, by omega, by omega⟩
      have hno : nocache = true := by
        by_contra hcache
        exact hnot ⟨by simpa using hcache, hhit⟩
      have hsector := haround hno hb hhit
      rw [← hsame, Nat.add_sub_cancel_left] at hsector
      exact hsector
    · exact hdisk

theorem Logged.writeSector (h : Logged f m) (hcached : Cached f m) (hstart : start < m.fmt.size) {sector : Sector}
    (haround : nocache = true → f.bad = false → f.Hit start → f.data (start - f.start) = sector) (rest : List Sector) :
    ∃ f', f.floppyWrite nocache (sector :: rest) start = f'.floppyWrite nocache rest (start + 1) ∧
      Logged f' (m.write (m.fmt.chs start) sector) ∧ Cached f' (m.write (m.fmt.chs start) sector) ∧
      (nocache = true → f'.data = f.data) ∧ f'.cylinderSize = f.cylinderSize ∧ f'.start = f.start ∧ f'.valid = f.valid ∧
      f'.bad = f.bad := by
  obtain ⟨hfdd, hframe⟩ := cacheWrite_frame nocache start sector f
  have hlogged : Logged (f.cacheWrite nocache start sector) m :=
    ⟨hfdd ▸ h.changeline, hfdd ▸ h.changed, hfdd ▸ h.medium, hfdd ▸ h.fmt, hframe.1.trans h.cylinderSize⟩
  have hafter := cacheWrite_cached hcached haround
  rw [Floppy.floppyWrite, hlogged.lbaToChs hstart]
  dsimp only
  rw [Fdd.fdcWrite, hlogged.changeline, hlogged.medium]
  dsimp only
  rw [if_neg (by decide), if_pos (chs_has m hstart)]
  refine ⟨_, rfl, ⟨rfl, hlogged.changed, rfl, hlogged.fmt, hlogged.cylinderSize⟩, hafter, ?_, hframe⟩
  intro hno
  unfold Floppy.cacheWrite
  rw [if_neg (by simp [hno])]

theorem Logged.floppyWrite (h : Logged f m) (hcached : Cached f m) (hend : start + sectors.length ≤ m.fmt.size)
    (haround : nocache = true → WrittenAround sectors start f) :
    ∃ m' f', f.floppyWrite nocache sectors start = (.ok (), f') ∧ Logged f' m' ∧ Cached f' m' := by
  induction sectors generalizing start f m with
  | nil => exact ⟨m, f, rfl, h, hcached⟩
  | cons sector rest ih =>
    rw [List.length_cons] at hend
    have hfirst : nocache = true → f.bad = false → f.Hit start → f.data (start - f.start) = sector :=
      fun hno hbad hhit => haround hno hbad 0 (Nat.succ_pos _) hhit
    obtain ⟨f₁, heq, h₁, hcached₁, hdata, hcyl, hplace, hvalid, hbad⟩ := h.writeSector hcached (by omega) hfirst rest
    rw [heq]
    refine ih h₁ hcached₁ (by show start + 1 + rest.length ≤ m.fmt.size; omega) fun hno hb i hi hhit => ?_
    have hshift : start + 1 + i = start + (i + 1) := by omega
    have hhit' : f.Hit (start + (i + 1)) := by
      unfold Floppy.Hit at hhit ⊢
      rw [hvalid, hplace, hcyl, hshift] at hhit
      exact hhit
    rw [hdata hno, hplace, hshift]
    exact haround hno (hbad ▸ hb) (i + 1) (Nat.succ_lt_succ hi) hhit'

end Writes

section Runs

/-- The sectors of a call are sectors of the disk that is in the drive. -/
def InRange (f : Floppy) : Floppy.Event → Prop
  | .read count start _ => ∀ m, f.fdd.medium = some m → start + count ≤ m.fmt.size
  | .write sectors start _ => ∀ m, f.fdd.medium = some m → start + sectors.length ≤ m.fmt.size
  | .revalidate => True
  | .exchange _ => True

/-- A write without the cache leaves the cached cylinder as it is, and a disk that is logged has cylinders as long as those of the
disk before it, and the cached sectors are its own. -/
def Keeps (f : Floppy) : Floppy.Event → Prop
  | .write sectors start nocache => f.fdd.changeline = false → nocache = true → WrittenAround sectors start f
  | .revalidate => ∀ m, f.fdd.medium = some m → f.cylinderSize = m.fmt.cylinderSize ∧ Cached f m
  | .read .. => True
  | .exchange _ => True

/-- A call returns, without an exchange it gives the sectors of the disk, and it gives no others at any time. -/
def ReadsRight (f : Floppy) : Prop :=
  ∀ count start nocache, InRange f (.read count start nocache) →
    ∃ res f', f.floppyRead count start nocache = some (res, f') ∧
      (∀ m, f.fdd.medium = some m → f.fdd.fdcDiskChanged = false → res = .ok (sectorsOf m start count)) ∧
      ∀ sectors, res = .ok sectors → sectors.length = count ∧
        ∀ i (hi : i < sectors.length), ∃ m, f.fdd.medium = some m ∧ sectors.get ⟨i, hi⟩ = m.sector (start + i)

theorem Coherent.readsRight (h : Coherent f) : ReadsRight f := by
  intro count start nocache hrange
  rcases Nat.eq_zero_or_pos count with rfl | hpos
  · refine ⟨_, f, floppyRead_zero start nocache f, fun m _ _ => rfl, fun sectors hok => ?_⟩
    cases hok
    exact ⟨rfl, fun i hi => absurd hi (Nat.not_lt_zero i)⟩
  cases hline : f.fdd.changeline with
  | true =>
    obtain ⟨e, hrun⟩ := floppyRead_exchanged hline hpos start nocache
    refine ⟨_, f, hrun, fun m _ hunchanged => ?_, fun sectors hok => nomatch hok⟩
    simp [Fdd.fdcDiskChanged, hline] at hunchanged
  | false =>
    cases hmedium : f.fdd.medium with
    | none => exact absurd (h.medium hmedium) (by simp [hline])
    | some m =>
      obtain ⟨hlogged, hcached⟩ := h.current m hline hmedium
      obtain ⟨f', hrun, -, -⟩ := hlogged.floppyRead hcached (hrange m hmedium) nocache
      refine ⟨_, f', hrun, fun m' hsame _ => ?_, fun sectors hok => ?_⟩
      · cases hsame
        rfl
      · cases hok
        refine ⟨by simp [sectorsOf], fun i hi => ⟨m, rfl, ?_⟩⟩
        simp [sectorsOf]

theorem Coherent.of_exchanged (hline : f.fdd.changeline = true) : Coherent f :=
  ⟨fun _ => hline, fun _ => hline, fun _ hnot => absurd hline (by simp [hnot])⟩

theorem Logged.coherent (h : Logged f m) (hcached : Cached f m) : Coherent f where
  changed hchanged := absurd hchanged (by simp [h.changed])
  medium hnone := absurd (hnone.symm.trans h.medium) (by simp)
  current m' _ hsome := by
    cases hsome.symm.trans h.medium
    exact ⟨h, hcached⟩

theorem floppyOpen_coherent (hopen : f.floppyOpen = (.ok (), f')) : Coherent f' := by
  unfold Floppy.floppyOpen at hopen
  split at hopen
  · cases hopen
  · unfold Fdd.fdcLogDisk at hopen
    cases hmedium : f.fdd.medium with
    | none =>
      rw [hmedium] at hopen
      cases hopen
    | some m =>
      rw [hmedium] at hopen
      cases hopen
      exact Logged.coherent (m := m) ⟨rfl, rfl, rfl, rfl, rfl⟩ fun hvalid => Bool.noConfusion hvalid

theorem Coherent.revalidate (h : Coherent f) (hkeeps : Keeps f .revalidate) : Coherent f.floppyRevalidate.2 := by
  unfold Floppy.floppyRevalidate
  split
  · exact h
  · unfold Fdd.fdcLogDisk
    cases hmedium : f.fdd.medium with
    | none => exact Coherent.of_exchanged (h.medium hmedium)
    | some m =>
      obtain ⟨hcyl, hcached⟩ := hkeeps m hmedium
      exact Logged.coherent (m := m) ⟨rfl, rfl, rfl, rfl, hcyl⟩ hcached

theorem Coherent.step (h : Coherent f) (e : Floppy.Event) (hrange : InRange f e) (hkeeps : Keeps f e) : Coherent (f.step e) := by
  cases e with
  | revalidate => exact h.revalidate hkeeps
  | exchange medium => exact Coherent.of_exchanged rfl
  | read count start nocache =>
    cases hline : f.fdd.changeline with
    | true =>
      rcases Nat.eq_zero_or_pos count with rfl | hpos
      · rw [Floppy.step, floppyRead_zero]
        exact h
      · obtain ⟨e, hrun⟩ := floppyRead_exchanged hline hpos start nocache
        rw [Floppy.step, hrun]
        exact h
    | false =>
      cases hmedium : f.fdd.medium with
      | none => exact absurd (h.medium hmedium) (by simp [hline])
      | some m =>
        obtain ⟨hlogged, hcached⟩ := h.current m hline hmedium
        obtain ⟨f', hrun, hlogged', hcached'⟩ := hlogged.floppyRead hcached (hrange m hmedium) nocache
        rw [Floppy.step, hrun]
        exact hlogged'.coherent hcached'
  | write sectors start nocache =>
    cases hline : f.fdd.changeline with
    | true =>
      apply Coherent.of_exchanged
      show (f.floppyWrite nocache sectors start).2.fdd.changeline = true
      rw [floppyWrite_exchanged hline, hline]
    | false =>
      cases hmedium : f.fdd.medium with
      | none => exact absurd (h.medium hmedium) (by simp [hline])
      | some m =>
        obtain ⟨hlogged, hcached⟩ := h.current m hline hmedium
        obtain ⟨m', f', hrun, hlogged', hcached'⟩ := hlogged.floppyWrite hcached (hrange m hmedium) (hkeeps hline)
        show Coherent (f.floppyWrite nocache sectors start).2
        rw [hrun]
        exact hlogged'.coherent hcached'

/-- Every event of a run is in range, and meets the condition in the state in which it happens. -/
def Allowed : List Floppy.Event → Floppy → Prop
  | [], _ => True
  | e :: events, f => InRange f e ∧ Keeps f e ∧ Allowed events (f.step e)

theorem Coherent.run (h : Coherent f) {events : List Floppy.Event} (hall : Allowed events f) : Coherent (f.run events) := by
  induction events generalizing f with
  | nil => exact h
  | cons e events ih => exact ih (h.step e hall.1 hall.2.1) hall.2.2

/-- In every state that a run reaches from an open on, the reads are right, with the cache and without it. -/
theorem run_readsRight (hopen : f.floppyOpen = (.ok (), f')) (events : List Floppy.Event) (hall : Allowed events f') :
    ReadsRight (f'.run events) :=
  ((floppyOpen_coherent hopen).run hall).readsRight

/-- A disk of 360 KB with equal words everywhere. -/
def plainDisk (w : BitVec 8) : Medium := ⟨⟨720, 9, 2, 40⟩, by decide, fun _ _ => w⟩

/-- A drive with such a disk, before the open and after it. -/
def plainFloppy (locked : Bool) : Floppy :=
  ⟨⟨some (plainDisk 0), false, false, ⟨720, 9, 2, 40⟩, ⟨720, 9, 2, 40⟩⟩, locked, 18, fun _ _ => 0, 0, false, false⟩

theorem plainFloppy_open : (plainFloppy false).floppyOpen = (.ok (), plainFloppy true) := rfl

/-- A read of the first cylinder and a write to the second one. -/
theorem plainFloppy_readsRight :
    ReadsRight ((plainFloppy true).run [.read 2 0 false, .write [fun _ => 1] 18 true, .exchange none, .revalidate]) := by
  refine run_readsRight plainFloppy_open _
    ⟨fun m hm => ?_, trivial, fun m hm => ?_, fun _ _ _ i hi hhit => ?_, trivial, trivial, trivial, (fun m hm => nomatch hm), trivial⟩
  · cases hm
    decide
  · have hmedium : ((plainFloppy true).step (.read 2 0 false)).fdd.medium = some (plainDisk 0) := rfl
    cases hmedium.symm.trans hm
    decide
  · have hto : 18 + i < 0 + 18 := hhit.2.2
    omega

theorem not_readsRight_of_stale {old new : Sector} (hmedium : f.fdd.medium = some m) (hunchanged : f.fdd.fdcDiskChanged = false)
    (hsize : 1 ≤ m.fmt.size) (hread : (f.floppyRead 1 0 false).map (·.1) = some (.ok [old])) (hnew : m.sector 0 = new)
    (hne : old ≠ new) : ¬ReadsRight f := by
  intro hright
  have hrange : InRange f (.read 1 0 false) := by
    intro m' hm'
    cases hmedium.symm.trans hm'
    exact hsize
  obtain ⟨res, f', hrun, hcurrent, -⟩ := hright 1 0 false hrange
  rw [hrun, hcurrent m hmedium hunchanged] at hread
  have hsame : [m.sector 0] = [old] := Except.ok.inj (Option.some.inj hread)
  exact hne ((List.cons.inj hsame).1.symm.trans hnew)

/-- What a write without the cache has put on the disk is not what a read gives from the cache, and after a revalidation the
cache still holds the sectors of the disk before. -/
theorem plainFloppy_stale :
    ¬ReadsRight ((plainFloppy true).run [.read 1 0 false, .write [fun _ => 1] 0 true]) ∧
      ¬ReadsRight ((plainFloppy true).run [.read 1 0 false, .exchange (some (plainDisk 1)), .revalidate]) := by
  have hne : (fun _ => 0 : Sector) ≠ fun _ => 1 := fun heq => absurd (congrFun heq 0) (by decide)
  constructor
  · exact not_readsRight_of_stale rfl rfl (by decide) rfl rfl hne
  · exact not_readsRight_of_stale rfl rfl (by decide) rfl rfl hne

end Runs

end FreeDos32.Floppy
