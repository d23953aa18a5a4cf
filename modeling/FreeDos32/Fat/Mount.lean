import FreeDos32.Fat.Skeleton
import FreeDos32.Fat.Table

namespace FreeDos32.Fat

open Prog

structure BlockMediumInfo where
  blocksCount : ℕ
  blockBytes : ℕ

/-! The fields of the BIOS parameter block in the boot sector. -/

namespace Bpb

variable (boot : SectorData)

def bytesPerSector : ℕ := get16 boot 11

def sectorsPerCluster : ℕ := (boot 13).toNat

def reservedSectors : ℕ := get16 boot 14

def numFats : ℕ := (boot 16).toNat

def rootEntries : ℕ := get16 boot 17

def mediaId : ℕ := (boot 21).toNat

def extFlags : ℕ := get16 boot 40

def fsVersion : ℕ := get16 boot 42

def rootCluster : ℕ := get32 boot 44

def fsinfoSector : ℕ := get16 boot 48

def numSectors : ℕ := if get16 boot 19 = 0 then get32 boot 32 else get16 boot 19

def fatSize : ℕ := if get16 boot 22 = 0 then get32 boot 36 else get16 boot 22

end Bpb

def logBytesPerSector? (n : ℕ) : Option ℕ :=
  if n = 512 then some 9 else if n = 1024 then some 10 else if n = 2048 then some 11
  else if n = 4096 then some 12 else none

def logSectorsPerCluster? (n : ℕ) : Option ℕ :=
  if n = 1 then some 0 else if n = 2 then some 1 else if n = 4 then some 2 else if n = 8 then some 3
  else if n = 16 then some 4 else if n = 32 then some 5 else if n = 64 then some 6
  else if n = 128 then some 7 else none

def fatTypeOf (dataClusters : ℕ) : FatType :=
  if dataClusters < 4085 then .fat12 else if dataClusters < 65525 then .fat16 else .fat32

/-- The calculations of `fat_mount` that only need the boot sector, in the arithmetic of 32-bit words. -/
def Bpb.geometry (boot : SectorData) (logBytes logSectors loopBound : ℕ) : Geometry :=
  let fatSize := Bpb.fatSize boot
  let fatStart := Bpb.reservedSectors boot
  let numFats := Bpb.numFats boot
  let rootSector := (fatStart + numFats * fatSize) % 2 ^ 32
  let rootSize := (Bpb.rootEntries boot * 32 + (2 ^ logBytes - 1)) / 2 ^ logBytes
  let dataStart := (rootSector + rootSize) % 2 ^ 32
  let dataClusters := (Bpb.numSectors boot + (2 ^ 32 - dataStart)) % 2 ^ 32 / 2 ^ logSectors
  { fatType := fatTypeOf dataClusters
    numFats := numFats
    logBytesPerSector := logBytes
    logSectorsPerCluster := logSectors
    activeFat := 0
    fatSize := fatSize
    fatStart := fatStart
    rootSector := rootSector
    rootSize := rootSize
    dataStart := dataStart
    rootCluster := 0
    dataClusters := dataClusters
    loopBound := loopBound }

/-- The checks of `fat_mount` on the boot sector. -/
def mountGeometry (boot : SectorData) (bmi : BlockMediumInfo) (loopBound : ℕ) : Except Errno Geometry :=
  if get16 boot 510 ≠ 0xAA55 then .error .enodev
  else if Bpb.numSectors boot = 0 then .error .enodev
  else if Bpb.numSectors boot > bmi.blocksCount % 2 ^ 32 then .error .enodev
  else match logBytesPerSector? (Bpb.bytesPerSector boot), logSectorsPerCluster? (Bpb.sectorsPerCluster boot) with
    | some logBytes, some logSectors =>
      if Bpb.mediaId boot ≠ 0xF0 ∧ Bpb.mediaId boot < 0xF8 then .error .enodev
      else .ok (Bpb.geometry boot logBytes logSectors loopBound)
    | _, _ => .error .enodev

def fatFsiSig1 : ℕ := 0x41615252
def fatFsiSig2 : ℕ := 0x61417272
def fatFsiSig3 : ℕ := 0xAA550000

def bufDword (b i : ℕ) : FatM ℕ := do
  let bytes ← bufBytes b i 4
  pure (get32 (Direntry.ofBytes bytes) 0)

/-- The part of `fat_mount` for FAT32 volumes. -/
def mountFat32 (boot : SectorData) : FatM Unit := do
  if Bpb.fsVersion boot ≠ 0 then Prog.fail .enodev
  else
    let (b, res) ← fatReadbuf (Bpb.fsinfoSector boot) none
    let sig1 ← bufDword b res
    let sig2 ← bufDword b (res + 484)
    let sig3 ← bufDword b (res + 508)
    if sig1 ≠ fatFsiSig1 ∨ sig2 ≠ fatFsiSig2 ∨ sig3 ≠ fatFsiSig3 then Prog.fail .enodev
    else
      let free ← bufDword b (res + 488)
      let next ← bufDword b (res + 492)
      Prog.update fun v =>
        { v with
          freeClusters := free
          nextFree := next
          geo := { v.geo with activeFat := Bpb.extFlags boot % 16, rootCluster := Bpb.rootCluster boot } }

def scanLoop : ℕ → ℕ → ℕ → FatM ℕ
  | _, 0, free => pure free
  | k, n + 1, free => do
    let v ← Prog.state
    let res ← vFatRead k v.geo.activeFat
    scanLoop (k + 1) n (if res = 0 then free + 1 else free)

def scanFreeClusters : FatM ℕ := do
  let v ← Prog.state
  let free ← scanLoop 2 ((v.geo.dataClusters + 2) % 2 ^ 32 - 2) 0
  -- the count is returned as an int
  if free < 2 ^ 31 then pure free else Prog.fail .eio

/-- `fat_mount` from the FAT type on; `nlsGet` is what `nls_get` returns. -/
def mountRest (boot : SectorData) (nlsGet : Except Errno Unit) : FatM Unit := do
  let v ← Prog.state
  Prog.when (v.geo.fatType = .fat32) (mountFat32 boot)
  let v ← Prog.state
  Prog.when (v.freeClusters = fatFsiNa ∨ v.freeClusters > (v.geo.dataClusters + 1) % 2 ^ 32) do
    let free ← scanFreeClusters
    Prog.update fun v => { v with freeClusters := free }
  Prog.ofExcept nlsGet

/-- Mounts the volume on a device that can be opened, with memory for its buffers. `device s` is what a transfer
of the block `s` leaves in the place of the sector `s` in a buffer. -/
def fatMount (bmi : BlockMediumInfo) (device : ℕ → SectorData) (env : Env) (nlsGet : Except Errno Unit)
    (loopBound : ℕ) : Outcome Errno Volume :=
  match mountGeometry (device 0) bmi loopBound with
  | .error e => .error e
  | .ok geo =>
    match (mountRest (device 0) nlsGet).run (freshVolume geo env device bmi.blocksCount fatFsiNa) with
    | (.ok (), v) => .ok v
    | (.error e, _) => .error e
    | (.hang, _) => .hang

/-- The relations of a geometry that later code relies on without checking them again. -/
structure Consistent (g : Geometry) (volSectors blockBytes : ℕ) : Prop where
  dataStart : g.dataStart ≤ volSectors
  tables : ∀ k < g.numFats, ∀ n ≤ g.dataClusters + 1,
    (k * g.fatSize + g.fatStart) * g.bytesPerSector ≤ entryAddr g k n ∧
      entryAddr g k n + entrySize g.fatType ≤ ((k + 1) * g.fatSize + g.fatStart) * g.bytesPerSector
  activeFat : g.activeFat < g.numFats
  clusters : ∀ c, 2 ≤ c → c ≤ g.dataClusters + 1 → ∀ i < g.sectorsPerCluster, g.clusterSector c + i < volSectors
  rootCluster : g.fatType = .fat32 → 2 ≤ g.rootCluster ∧ g.rootCluster ≤ g.dataClusters + 1
  blockSize : g.bytesPerSector = blockBytes

namespace Bpb

variable (boot : SectorData)

def metaSectors : ℕ :=
  reservedSectors boot + numFats boot * fatSize boot +
    (rootEntries boot * 32 + (bytesPerSector boot - 1)) / bytesPerSector boot

def clusterCount : ℕ := (numSectors boot - metaSectors boot % 2 ^ 32) / sectorsPerCluster boot

end Bpb

/-- The checks on the boot sector that `fat_mount` does not make. -/
structure BpbOk (boot : SectorData) (blockBytes : ℕ) : Prop where
  fits : Bpb.metaSectors boot % 2 ^ 32 ≤ Bpb.numSectors boot
  table : entryOffset (fatTypeOf (Bpb.clusterCount boot)) (Bpb.clusterCount boot + 1) +
    entrySize (fatTypeOf (Bpb.clusterCount boot)) ≤ Bpb.fatSize boot * Bpb.bytesPerSector boot
  fats : Bpb.numFats boot ≠ 0
  activeFat : 65525 ≤ Bpb.clusterCount boot → Bpb.extFlags boot % 16 < Bpb.numFats boot
  rootCluster : 65525 ≤ Bpb.clusterCount boot →
    2 ≤ Bpb.rootCluster boot ∧ Bpb.rootCluster boot ≤ Bpb.clusterCount boot + 1
  blockSize : Bpb.bytesPerSector boot = blockBytes

variable {boot : SectorData} {bmi : BlockMediumInfo} {loopBound : ℕ} {g : Geometry} {logBytes logSectors n : ℕ}

theorem logBytesPerSector_some (h : logBytesPerSector? n = some logBytes) : n = 2 ^ logBytes := by
  unfold logBytesPerSector? at h
  grind

theorem logSectorsPerCluster_some (h : logSectorsPerCluster? n = some logSectors) : n = 2 ^ logSectors := by
  unfold logSectorsPerCluster? at h
  grind

theorem fatTypeOf_fat32 : fatTypeOf n = .fat32 ↔ 65525 ≤ n := by
  unfold fatTypeOf
  grind

theorem get16_lt (de : Direntry) (o : ℕ) : get16 de o < 2 ^ 16 := by
  have h0 := (de o).toNat_lt
  have h1 := (de (o + 1)).toNat_lt
  unfold get16
  omega

theorem get32_lt (de : Direntry) (o : ℕ) : get32 de o < 2 ^ 32 := by
  have h0 := get16_lt de o
  have h1 := get16_lt de (o + 2)
  unfold get32
  omega

theorem numSectors_lt (boot : SectorData) : Bpb.numSectors boot < 2 ^ 32 := by
  unfold Bpb.numSectors
  split
  · exact get32_lt boot 32
  · exact Nat.lt_trans (get16_lt boot 19) (by decide)

theorem mountGeometry_ok (h : mountGeometry boot bmi loopBound = .ok g) :
    ∃ logBytes logSectors, g = Bpb.geometry boot logBytes logSectors loopBound ∧
      Bpb.bytesPerSector boot = 2 ^ logBytes ∧ Bpb.sectorsPerCluster boot = 2 ^ logSectors := by
  unfold mountGeometry at h
  split at h
  · cases h
  split at h
  · cases h
  split at h
  · cases h
  split at h
  · next logBytes logSectors hb hs =>
    split at h
    · cases h
    · exact ⟨logBytes, logSectors, (Except.ok.inj h).symm, logBytesPerSector_some hb, logSectorsPerCluster_some hs⟩
  · cases h

/-- The geometry with what only the boot sector of a FAT32 volume has. -/
def mountedGeometry (boot : SectorData) (g : Geometry) : Geometry :=
  if g.fatType = .fat32 then
    { g with activeFat := Bpb.extFlags boot % 16, rootCluster := Bpb.rootCluster boot }
  else g

theorem mountFat32_geo :
    Triple (fun v => v.geo = g) (mountFat32 boot)
      (fun _ v => v.geo = { g with activeFat := Bpb.extFlags boot % 16, rootCluster := Bpb.rootCluster boot })
      fun _ _ => True := by
  have hbuf : ∀ s b, Keeps Volume.geo (fatReadbuf s b) := fun s b _ => rfl
  have hdword : ∀ b i, Keeps Volume.geo (bufDword b i) := fun b i => .bind (.reads _) fun _ => .pure _
  unfold mountFat32
  refine .ite (fun _ => .fail fun _ _ => trivial) fun _ => ?_
  refine (hbuf _ _).bind_triple (P := (· = g)) (fun r => ?_) fun _ _ _ => trivial
  obtain ⟨b, res⟩ := r
  refine (hdword _ _).bind_triple (P := (· = g)) (fun _ => ?_) fun _ _ _ => trivial
  refine (hdword _ _).bind_triple (P := (· = g)) (fun _ => ?_) fun _ _ _ => trivial
  refine (hdword _ _).bind_triple (P := (· = g)) (fun _ => ?_) fun _ _ _ => trivial
  refine .ite (fun _ => .fail fun _ _ => trivial) fun _ => ?_
  refine (hdword _ _).bind_triple (P := (· = g)) (fun _ => ?_) fun _ _ _ => trivial
  refine (hdword _ _).bind_triple (P := (· = g)) (fun _ => ?_) fun _ _ _ => trivial
  refine .update fun v hv => ?_
  rw [← hv]

theorem scanLoop_neutral (k n free : ℕ) : Neutral (scanLoop k n free) := by
  induction n generalizing k free with
  | zero => exact .pure _
  | succ n ih => exact .bind .state fun _ => .bind (Neutral.vFatRead _ _) fun _ => ih _ _

theorem scanFreeClusters_geo : Keeps Volume.geo scanFreeClusters := by
  have h : Neutral scanFreeClusters :=
    .bind .state fun _ => .bind (scanLoop_neutral _ _ _) fun _ => .ite (.pure _) (.fail _)
  exact fun v => congrArg Skeleton.geo (h.skeleton v)

theorem mountRest_geo (nlsGet : Except Errno Unit) :
    Triple (fun v => v.geo = g) (mountRest boot nlsGet) (fun _ v => v.geo = mountedGeometry boot g) fun _ _ => True := by
  unfold mountRest
  refine .bind_state fun u hu => ?_
  subst hu
  refine .bind (R := fun _ v => v.geo = mountedGeometry boot u.geo) ?_ fun _ => ?_
  · unfold mountedGeometry
    refine .when (fun hc => ?_) fun hc v hv => ?_
    · rw [if_pos hc]
      exact mountFat32_geo.conseq (fun _ h => h.2) (fun _ _ h => h) fun _ _ h => h
    · rw [if_neg hc]
      exact hv.2
  · refine .bind_state fun w hw => ?_
    have hscan : Keeps Volume.geo (scanFreeClusters >>= fun free => Prog.update fun v => { v with freeClusters := free }) :=
      .bind scanFreeClusters_geo fun _ => .update fun _ => rfl
    suffices hrest : Triple (fun v : Volume => v.geo = mountedGeometry boot u.geo) _
        (fun _ (v : Volume) => v.geo = mountedGeometry boot u.geo) fun _ _ => True from
      hrest.conseq (fun _ h => h.2) (fun _ _ h => h) fun _ _ h => h
    refine Keeps.bind_triple (P := (· = mountedGeometry boot u.geo)) (.when hscan) (fun _ => ?_) fun _ _ _ => trivial
    have hnls : Keeps Volume.geo (Prog.ofExcept nlsGet) := .ofExcept nlsGet
    exact (hnls.triple (· = mountedGeometry boot u.geo)).conseq (fun _ h => h) (fun _ _ h => h) fun _ _ _ => trivial

theorem fatMount_geo {device : ℕ → SectorData} {env : Env} {nlsGet : Except Errno Unit} {v : Volume}
    (h : fatMount bmi device env nlsGet loopBound = .ok v) :
    ∃ g, mountGeometry (device 0) bmi loopBound = .ok g ∧ v.geo = mountedGeometry (device 0) g := by
  unfold fatMount at h
  split at h
  · cases h
  · next g hg =>
    refine ⟨g, hg, ?_⟩
    have htriple : Triple (fun v => v.geo = g) (mountRest (device 0) nlsGet)
        (fun _ v => v.geo = mountedGeometry (device 0) g) fun _ _ => True := mountRest_geo nlsGet
    have hrest := htriple (freshVolume g env device bmi.blocksCount fatFsiNa) rfl
    split at h
    · next w hrun =>
      rw [hrun] at hrest
      cases h
      exact hrest
    · cases h
    · cases h

section Calculated

variable (logSectors loopBound : ℕ) (hb : Bpb.bytesPerSector boot = 2 ^ logBytes)

include hb in
theorem geometry_dataStart :
    (Bpb.geometry boot logBytes logSectors loopBound).dataStart = Bpb.metaSectors boot % 2 ^ 32 := by
  unfold Bpb.metaSectors
  rw [hb]
  exact Nat.mod_add_mod _ _ _

include hb in
theorem geometry_dataClusters (hs : Bpb.sectorsPerCluster boot = 2 ^ logSectors)
    (hfits : Bpb.metaSectors boot % 2 ^ 32 ≤ Bpb.numSectors boot) :
    (Bpb.geometry boot logBytes logSectors loopBound).dataClusters = Bpb.clusterCount boot := by
  have hlt := numSectors_lt boot
  have hdata := geometry_dataStart logSectors loopBound hb
  change (Bpb.numSectors boot + (2 ^ 32 - (Bpb.geometry boot logBytes logSectors loopBound).dataStart)) % 2 ^ 32 /
    2 ^ logSectors = _
  rw [hdata, Bpb.clusterCount, hs]
  congr 1
  omega

end Calculated

theorem mountedGeometry_eq (boot : SectorData) (g : Geometry) :
    mountedGeometry boot g = { g with
      activeFat := if g.fatType = .fat32 then Bpb.extFlags boot % 16 else g.activeFat
      rootCluster := if g.fatType = .fat32 then Bpb.rootCluster boot else g.rootCluster } := by
  unfold mountedGeometry
  split
  · rfl
  · rfl

theorem clusters_below {volSectors c i : ℕ} (hstart : g.dataStart ≤ volSectors)
    (hcount : g.dataClusters = (volSectors - g.dataStart) / g.sectorsPerCluster) (hc : 2 ≤ c)
    (hle : c ≤ g.dataClusters + 1) (hi : i < g.sectorsPerCluster) : g.clusterSector c + i < volSectors := by
  have hmul : (c - 2 + 1) * g.sectorsPerCluster ≤ volSectors - g.dataStart :=
    calc (c - 2 + 1) * g.sectorsPerCluster ≤ g.dataClusters * g.sectorsPerCluster :=
          Nat.mul_le_mul_right _ (by omega)
      _ ≤ volSectors - g.dataStart := by
          rw [hcount]
          exact Nat.div_mul_le_self _ _
  rw [Nat.add_mul, Nat.one_mul] at hmul
  unfold Geometry.clusterSector
  omega

theorem tables_iff (hn : g.numFats ≠ 0) :
    (∀ k < g.numFats, ∀ n ≤ g.dataClusters + 1,
      (k * g.fatSize + g.fatStart) * g.bytesPerSector ≤ entryAddr g k n ∧
        entryAddr g k n + entrySize g.fatType ≤ ((k + 1) * g.fatSize + g.fatStart) * g.bytesPerSector) ↔
      entryOffset g.fatType (g.dataClusters + 1) + entrySize g.fatType ≤ g.fatSize * g.bytesPerSector := by
  have hnext : ∀ k, ((k + 1) * g.fatSize + g.fatStart) * g.bytesPerSector =
      (k * g.fatSize + g.fatStart) * g.bytesPerSector + g.fatSize * g.bytesPerSector := by
    intro k
    rw [← Nat.add_mul, Nat.add_mul k, Nat.one_mul]
    congr 1
    omega
  constructor
  · intro h
    have h0 := (h 0 (Nat.pos_of_ne_zero hn) _ (Nat.le_refl _)).2
    rw [entryAddr, hnext] at h0
    omega
  · intro h k _ n hle
    have hmono := entryOffset_mono g.fatType hle
    rw [entryAddr, hnext]
    omega

/-- The geometry of a mounted volume is consistent just when the boot sector passes the checks that are missing. -/
theorem fatMount_consistent {device : ℕ → SectorData} {env : Env} {nlsGet : Except Errno Unit} {v : Volume}
    (h : fatMount bmi device env nlsGet loopBound = .ok v) :
    Consistent v.geo (Bpb.numSectors (device 0)) bmi.blockBytes ↔ BpbOk (device 0) bmi.blockBytes := by
  obtain ⟨g, hg, hv⟩ := fatMount_geo h
  obtain ⟨logBytes, logSectors, rfl, hb, hs⟩ := mountGeometry_ok hg
  have hstart := geometry_dataStart logSectors loopBound hb
  have hcount := geometry_dataClusters logSectors loopBound hb hs
  have htype : (Bpb.geometry (device 0) logBytes logSectors loopBound).fatType =
      fatTypeOf (Bpb.geometry (device 0) logBytes logSectors loopBound).dataClusters := rfl
  generalize hgeo : Bpb.geometry (device 0) logBytes logSectors loopBound = g at *
  rw [hv, mountedGeometry_eq]
  have hbytes : g.bytesPerSector = Bpb.bytesPerSector (device 0) := by rw [hb, ← hgeo]; rfl
  have hsectors : g.sectorsPerCluster = Bpb.sectorsPerCluster (device 0) := by rw [hs, ← hgeo]; rfl
  have hfats : g.numFats = Bpb.numFats (device 0) := by rw [← hgeo]; rfl
  have hsize : g.fatSize = Bpb.fatSize (device 0) := by rw [← hgeo]; rfl
  have hactive : g.activeFat = 0 := by rw [← hgeo]; rfl
  constructor
  · intro hc
    have hfits : Bpb.metaSectors (device 0) % 2 ^ 32 ≤ Bpb.numSectors (device 0) := hstart ▸ hc.dataStart
    have hcount := hcount hfits
    have hne : g.numFats ≠ 0 := fun h0 => Nat.not_lt_zero _ (h0 ▸ hc.activeFat)
    have htable := (tables_iff hne).mp hc.tables
    have hfat32 : 65525 ≤ Bpb.clusterCount (device 0) → g.fatType = .fat32 := fun h => by
      rw [htype, hcount, fatTypeOf_fat32]
      exact h
    constructor
    case fits => exact hfits
    case table =>
      change entryOffset g.fatType (g.dataClusters + 1) + entrySize g.fatType ≤ g.fatSize * g.bytesPerSector at htable
      rw [htype, hcount, hsize, hbytes] at htable
      exact htable
    case fats => exact hfats ▸ hne
    case activeFat =>
      intro h
      have := hc.activeFat
      simp only [if_pos (hfat32 h)] at this
      exact hfats ▸ this
    case rootCluster =>
      intro h
      have := hc.rootCluster (hfat32 h)
      simp only [if_pos (hfat32 h), hcount] at this
      exact this
    case blockSize => exact hbytes ▸ hc.blockSize
  · intro hok
    have hcount := hcount hok.fits
    have hle : g.dataStart ≤ Bpb.numSectors (device 0) := hstart ▸ hok.fits
    have hne : g.numFats ≠ 0 := hfats ▸ hok.fats
    have hfat32 : g.fatType = .fat32 → 65525 ≤ Bpb.clusterCount (device 0) := fun h => by
      rw [htype, hcount, fatTypeOf_fat32] at h
      exact h
    constructor
    case dataStart => exact hle
    case tables =>
      refine (tables_iff hne).mpr ?_
      rw [htype, hcount, hsize, hbytes]
      exact hok.table
    case activeFat =>
      simp only
      split
      · next h => exact hfats ▸ hok.activeFat (hfat32 h)
      · rw [hactive]
        exact Nat.pos_of_ne_zero hne
    case clusters =>
      intro c hc hlast i hi
      refine clusters_below (g := g) hle ?_ hc hlast hi
      rw [hcount, hsectors, hstart, Bpb.clusterCount]
    case rootCluster =>
      intro h
      simp only at h
      simp only [if_pos h, hcount]
      exact hok.rootCluster (hfat32 h)
    case blockSize => exact hbytes.trans hok.blockSize

theorem Outcome.exists_ok {ε α : Type} {o : Outcome ε α} {P : α → Prop} [DecidablePred P]
    (h : (match o with
      | .ok a => decide (P a)
      | _ => false) = true) : ∃ a, o = .ok a ∧ P a := by
  cases o with
  | ok a => exact ⟨a, rfl, of_decide_eq_true h⟩
  | error e => cases h
  | hang => cases h

def floppyBoot (fatSize : UInt8) : SectorData :=
  overlay 11 [0, 2, 1, 1, 0, 2, 16, 0, 10, 0, 0xF0, fatSize, 0] (overlay 510 [0x55, 0xAA] fun _ => 0)

def floppyDevice (fatSize : UInt8) : ℕ → SectorData := fun s => if s = 0 then floppyBoot fatSize else fun _ => 0

theorem fatMount_consistent_floppy :
    ∃ v, fatMount ⟨10, 512⟩ (floppyDevice 1) quietEnv (.ok ()) 1000 = .ok v ∧ Consistent v.geo 10 512 := by
  obtain ⟨v, hv, -⟩ := Outcome.exists_ok (o := fatMount ⟨10, 512⟩ (floppyDevice 1) quietEnv (.ok ()) 1000)
    (P := fun _ => True) (by decide +kernel)
  exact ⟨v, hv, (fatMount_consistent hv).mpr ⟨by decide, by decide, by decide, by decide, by decide, by decide⟩⟩

/-- A volume whose FAT has no sectors at all is mounted. -/
theorem fatMount_inconsistent :
    ∃ v, fatMount ⟨10, 512⟩ (floppyDevice 0) quietEnv (.ok ()) 1000 = .ok v ∧
      ¬Consistent v.geo (Bpb.numSectors (floppyDevice 0 0)) 512 := by
  obtain ⟨v, hv, hsize, hfats⟩ := Outcome.exists_ok (o := fatMount ⟨10, 512⟩ (floppyDevice 0) quietEnv (.ok ()) 1000)
    (P := fun v => v.geo.fatSize = 0 ∧ v.geo.numFats = 2) (by decide +kernel)
  refine ⟨v, hv, fun hc => ?_⟩
  have htable := (tables_iff (by omega)).mp hc.tables
  have hpos : 0 < entrySize v.geo.fatType := by cases v.geo.fatType <;> decide
  rw [hsize] at htable
  omega

end FreeDos32.Fat
