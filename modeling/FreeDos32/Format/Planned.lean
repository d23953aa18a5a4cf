import FreeDos32.Fat.Mounting
import FreeDos32.Format.Written

namespace FreeDos32.Format

open Prog Fat

def formatType (d : Drive) : FatType := if d.bpb.sectorsPerFat = 0 then .fat32 else d.param.fatType

def sizedBpb (d : Drive) : StdBpb :=
  if formatType d = .fat32 then { d.bpb with rootDirectoryEntries := 0 } else roundRootEntries d.bpb

/-- The first sector behind the FATs. -/
def behindFats (d : Drive) : ℕ := d.bpb.reservedSectors.toNat + fatSectors d.bpb d.xbpb * d.bpb.numberOfFats.toNat

/-- The program's variables once `Get_FS_Info` has gone through the parameters. -/
def sized (d : Drive) : Drive :=
  { d with
    param := { d.param with fatType := formatType d }
    bpb := sizedBpb d
    fileSysInfo :=
      { startFatSector := d.bpb.reservedSectors.toNat
        numberFatSectors := fatSectors d.bpb d.xbpb
        startRootDirSect := behindFats d
        numberRootDirSect := if formatType d = .fat32 then max 32 d.bpb.sectorsPerCluster.toNat
          else (sizedBpb d).rootDirectoryEntries.toNat / 16
        totalClusters := (totalSectors d.bpb - (behindFats d + (sizedBpb d).rootDirectoryEntries.toNat / 16)) /
          d.bpb.sectorsPerCluster.toNat } }

/-- The program's variables once the place of the FSInfo sector is known. -/
def placed (d : Drive) : Drive :=
  { d with xbpb := if d.param.fatType = .fat32 then infoPlaces d.bpb d.xbpb else d.xbpb }

/-- The program's variables once the boot sector has been made. -/
def planned (d : Drive) : Drive := placed (sized d)

def Drive.rootEntrySectors (d : Drive) : ℕ := d.bpb.rootDirectoryEntries.toNat / 16

/-- The parameters describe a file system: sectors and clusters have a size that is supported, the areas follow one
another on the drive, the FATs have room for all clusters, the type is the one that the number of clusters stands
for, and on FAT32 the FSInfo sector can be written and the root directory starts with cluster 2. -/
structure Formattable (d : Drive) (blocks : ℕ) : Prop where
  bytes : d.bpb.bytesPerSector = 512
  cluster : (logSectorsPerCluster? d.bpb.sectorsPerCluster.toNat).isSome
  reserved : 0 < d.bpb.reservedSectors.toNat
  fats : d.bpb.numberOfFats = 1 ∨ d.bpb.numberOfFats = 2
  media : d.bpb.mediaDescriptor = 0xF0 ∨ 0xF8 ≤ d.bpb.mediaDescriptor
  more : 1 < d.fileSysInfo.numberFatSectors * d.bpb.numberOfFats.toNat
  below : d.fileSysInfo.startRootDirSect + 20 < 2 ^ 32
  areas : d.fileSysInfo.startRootDirSect + d.rootEntrySectors ≤ totalSectors d.bpb
  blocks : totalSectors d.bpb ≤ blocks ∧ blocks < 2 ^ 32
  type : d.param.fatType = fatTypeOf d.fileSysInfo.totalClusters
  table : entryOffset d.param.fatType (d.fileSysInfo.totalClusters + 1) + entrySize d.param.fatType ≤
    d.fileSysInfo.numberFatSectors * 512
  clusters : d.fileSysInfo.totalClusters < 0x0FFFFFF5
  version : d.param.fatType = .fat32 → d.xbpb.fileSystemVersion = 0
  active : d.param.fatType = .fat32 → d.xbpb.extFlags.toNat % 16 < d.bpb.numberOfFats.toNat
  start : d.param.fatType = .fat32 → d.xbpb.rootDirStartLow = 2 ∧ d.xbpb.rootDirStartHigh = 0
  info : d.param.fatType = .fat32 → InfoSafe d
  chain : d.param.fatType = .fat32 → rootClusters d ≤ d.fileSysInfo.totalClusters

variable {d e : Drive} {blocks : ℕ}

theorem planned_bpb (d : Drive) : (planned d).bpb = (sized d).bpb := rfl

theorem planned_param (d : Drive) : (planned d).param = (sized d).param := rfl

theorem planned_fileSysInfo (d : Drive) : (planned d).fileSysInfo = (sized d).fileSysInfo := rfl

section Sized

theorem or_fifteen (n : ℕ) : 16 ∣ (n ||| 15) + 1 := by
  have hlow : ∀ k < 16, k ||| 15 = 15 := by decide
  have hmod : (n ||| 15) % 2 ^ 4 = 15 := by
    rw [Nat.or_mod_two_pow]
    apply hlow
    exact Nat.mod_lt n (by decide)
  omega

theorem roundRootEntries_dvd {b : StdBpb} (h : b.bytesPerSector = 512) :
    16 ∣ (roundRootEntries b).rootDirectoryEntries.toNat := by
  have hentries : (512 : UInt16) / 32 - 1 = 15 := by decide
  unfold roundRootEntries
  rw [h]
  dsimp only
  rw [hentries]
  split
  · have hdvd := or_fifteen b.rootDirectoryEntries.toNat
    change 16 ∣ (((b.rootDirectoryEntries ||| 15) + 1 : UInt16)).toNat
    rw [UInt16.toNat_add, UInt16.toNat_or]
    change 16 ∣ ((b.rootDirectoryEntries.toNat ||| 15) + 1) % 65536
    omega
  · next hzero =>
    have hand : (b.rootDirectoryEntries &&& 15).toNat = 0 := by
      rw [not_not.mp hzero]
      rfl
    rw [UInt16.toNat_and] at hand
    change b.rootDirectoryEntries.toNat &&& (2 ^ 4 - 1) = 0 at hand
    rw [Nat.and_two_pow_sub_one_eq_mod] at hand
    apply Nat.dvd_of_mod_eq_zero
    exact hand

theorem sizedBpb_eq (d : Drive) :
    sizedBpb d = { d.bpb with rootDirectoryEntries := (sizedBpb d).rootDirectoryEntries } := by
  unfold sizedBpb
  split
  · rfl
  · unfold roundRootEntries
    dsimp only
    split
    · rfl
    · rfl

theorem sizedBpb_entries (ht : formatType d = .fat32) : (sizedBpb d).rootDirectoryEntries.toNat = 0 := by
  rw [sizedBpb, if_pos ht]
  rfl

theorem sizedBpb_dvd (h : d.bpb.bytesPerSector = 512) : 16 ∣ (sizedBpb d).rootDirectoryEntries.toNat := by
  unfold sizedBpb
  split
  · exact Nat.dvd_zero 16
  · apply roundRootEntries_dvd
    exact h

/-- The parameters that `Get_FS_Info` can go through. -/
structure Sizable (d : Drive) : Prop where
  bytes : d.bpb.bytesPerSector = 512
  cluster : d.bpb.sectorsPerCluster ≠ 0
  fats : d.bpb.numberOfFats = 1 ∨ d.bpb.numberOfFats = 2
  areas : behindFats d + (sizedBpb d).rootDirectoryEntries.toNat / 16 ≤ totalSectors d.bpb

theorem totalSectors_lt (b : StdBpb) : totalSectors b < 2 ^ 32 := by
  have hhigh := b.largeSectorCountHigh.toNat_lt
  have hlow := b.largeSectorCountLow.toNat_lt
  have hsmall := b.totalSectors.toNat_lt
  unfold totalSectors
  split
  · omega
  · omega

/-- The variables once the place of the root directory is known. -/
def located (d : Drive) : Drive :=
  { d with
    param := { d.param with fatType := formatType d }
    fileSysInfo := { d.fileSysInfo with
      startFatSector := d.bpb.reservedSectors.toNat
      numberFatSectors := fatSectors d.bpb d.xbpb
      startRootDirSect := behindFats d } }

/-- The variables once its size is known as well. -/
def rooted (d : Drive) : Drive :=
  { located d with
    bpb := sizedBpb d
    fileSysInfo := { (located d).fileSysInfo with
      numberRootDirSect := if formatType d = .fat32 then max 32 d.bpb.sectorsPerCluster.toNat
        else (sizedBpb d).rootDirectoryEntries.toNat / 16 } }

theorem sizeRootDirectory_run (h : d.bpb.bytesPerSector = 512) : sizeRootDirectory.run (located d) = (.ok (), rooted d) := by
  have hentries : ¬(512 : UInt16) / 32 = 0 := by decide
  have hzero : ¬(512 : UInt16) = 0 := by decide
  have htype : (located d).param.fatType = formatType d := rfl
  rw [sizeRootDirectory, run_bind_state, htype]
  by_cases ht : formatType d = .fat32
  · have hbytes : (located d).bpb.bytesPerSector = 512 := h
    have hsize : 32 * max 512 ((512 : UInt16).toNat / 32 * d.bpb.sectorsPerCluster.toNat) / (512 : UInt16).toNat =
        max 32 d.bpb.sectorsPerCluster.toNat := by
      change 32 * max 512 (16 * d.bpb.sectorsPerCluster.toNat) / 512 = _
      omega
    rw [if_neg (not_not.mpr ht)]
    dsimp only
    rw [hbytes, if_neg hzero, run_update, rooted, if_pos ht, sizedBpb, if_pos ht, ← hsize, ← h]
    rfl
  · have hbytes : (roundRootEntries d.bpb).bytesPerSector = 512 := by
      have hround := sizedBpb_eq d
      rw [sizedBpb, if_neg ht] at hround
      rw [hround]
      exact h
    rw [if_pos ht]
    dsimp only
    rw [show (located d).bpb = d.bpb from rfl, hbytes, if_neg hentries, run_update, rooted, if_neg ht, sizedBpb, if_neg ht]
    rfl

theorem clusterCount_run (h : Sizable d) :
    clusterCount.run (rooted d) = (.ok (sized d).fileSysInfo.totalClusters, rooted d) := by
  have hareas := h.areas
  have htotal := totalSectors_lt d.bpb
  have hbpb : totalSectors (rooted d).bpb = totalSectors d.bpb ∧ (rooted d).bpb.sectorsPerCluster = d.bpb.sectorsPerCluster := by
    change totalSectors (sizedBpb d) = _ ∧ (sizedBpb d).sectorsPerCluster = _
    rw [sizedBpb_eq]
    exact ⟨rfl, rfl⟩
  have hinfo : (rooted d).fileSysInfo.startRootDirSect = behindFats d := rfl
  have htype : (rooted d).param.fatType = formatType d := rfl
  rw [clusterCount, run_bind_state, hbpb.1, hbpb.2, if_neg h.cluster, hinfo, htype]
  refine congrArg (fun k => (Outcome.ok (k / d.bpb.sectorsPerCluster.toNat), rooted d)) ?_
  by_cases ht : formatType d = .fat32
  · rw [if_neg (not_not.mpr ht), sizedBpb_entries ht]
    omega
  · have hsize : (rooted d).fileSysInfo.numberRootDirSect = (sizedBpb d).rootDirectoryEntries.toNat / 16 := if_neg ht
    rw [if_pos ht, hsize]
    omega

theorem getFsInfo_run (h : Sizable d) : getFsInfo.run d = (.ok (), sized d) := by
  have hareas := h.areas
  have htotal := totalSectors_lt d.bpb
  have hsum : (fatSectors d.bpb d.xbpb * d.bpb.numberOfFats.toNat + d.bpb.reservedSectors.toNat) % 2 ^ 32 = behindFats d := by
    rw [behindFats] at hareas ⊢
    omega
  have hparam : (if d.bpb.sectorsPerFat = 0 then { d.param with fatType := .fat32 } else d.param) =
      { d.param with fatType := formatType d } := by
    rw [formatType]
    split
    · rfl
    · rfl
  have hchecks : ¬((sizedBpb d).bytesPerSector ≠ 512 ∨ (sizedBpb d).numberOfFats < 1 ∨ (sizedBpb d).numberOfFats > 2) := by
    rw [sizedBpb_eq]
    rcases h.fats with hfats | hfats
    · simp [h.bytes, hfats]
    · simp [h.bytes, hfats]
  rw [getFsInfo, run_bind_update]
  dsimp only
  rw [hsum, hparam]
  refine (run_bind_ok (sizeRootDirectory_run h.bytes)).trans ?_
  rw [run_bind_ok (clusterCount_run h), run_bind_update, run_bind_state]
  exact congrArg (fun x => Prog.run x (sized d)) (if_neg hchecks)

end Sized

theorem totalSectors_sized (d : Drive) : totalSectors (sized d).bpb = totalSectors d.bpb := by
  change totalSectors (sizedBpb d) = _
  rw [sizedBpb_eq]
  rfl

theorem Formattable.sizable (h : Formattable (planned d) blocks) : Sizable d := by
  have hbytes := h.bytes
  have hcluster := h.cluster
  have hfats := h.fats
  have hareas := h.areas
  rw [planned_bpb] at hbytes hcluster hfats
  rw [Drive.rootEntrySectors, planned_fileSysInfo, planned_bpb, totalSectors_sized] at hareas
  change (sizedBpb d).bytesPerSector = 512 at hbytes
  change (logSectorsPerCluster? (sizedBpb d).sectorsPerCluster.toNat).isSome at hcluster
  change (sizedBpb d).numberOfFats = 1 ∨ (sizedBpb d).numberOfFats = 2 at hfats
  rw [sizedBpb_eq] at hbytes hcluster hfats
  refine ⟨hbytes, ?_, hfats, hareas⟩
  intro hzero
  rw [hzero] at hcluster
  revert hcluster
  decide

section BootSector

/-- The place of the fields behind the parameter block. -/
def extPlace (p : Drive) : ℕ := if p.param.fatType = .fat32 then 64 else 36

/-- What stands in the boot sector before the boot code. -/
def bootFields (p : Drive) : List UInt8 :=
  createBootSectStart p.param.fatType ++ p.bpb.bytes ++ (if p.param.fatType = .fat32 then p.xbpb.bytes else []) ++
    createBootSectExt p.param p.clock

def bootSector (p : Drive) : SectorData := overlay 510 [0x55, 0xAA] (overlay 0 (bootFields p ++ p.bootCode) blankSector)

theorem length_start (t : FatType) : (createBootSectStart t).length = 11 := by
  cases t
  · rfl
  · rfl
  · rfl

theorem length_bpb (b : StdBpb) : b.bytes.length = 25 := by
  simp [StdBpb.bytes, le16]

theorem length_xbpb (x : Fat32Bpb) : x.bytes.length = 28 := by
  simp [Fat32Bpb.bytes, le16]

theorem length_label (p : FormatParam) : p.label.length = 11 := by
  simp only [FormatParam.label, List.length_append, List.length_take, List.length_replicate]
  omega

theorem length_ext (p : FormatParam) (c : Clock) : (createBootSectExt p c).length = 26 := by
  have htype : (fileSystemType p.fatType).length = 8 := by
    cases p.fatType
    · rfl
    · rfl
    · rfl
  have hname : (if p.v then p.label else [0x4E, 0x4F, 0x20, 0x4E, 0x41, 0x4D, 0x45, 0x20, 0x20, 0x20, 0x20]).length = 11 := by
    split
    · exact length_label p
    · rfl
  simp only [createBootSectExt, List.length_append, hname, htype]
  rfl

theorem length_bootFields (p : Drive) : (bootFields p).length = extPlace p + 26 := by
  simp only [bootFields, List.length_append, length_start, length_bpb, length_ext, extPlace]
  split
  · rw [length_xbpb]
  · rfl

theorem chooseInfoSector_when (d : Drive) (bytes : List UInt8) :
    (Prog.when (d.param.fatType = .fat32) chooseInfoSector).run (d.fill bytes) = (.ok (), (placed d).fill bytes) := by
  by_cases ht : d.param.fatType = .fat32
  · rw [when_pos ht, chooseInfoSector, run_update, placed, if_pos ht]
    rfl
  · rw [when_neg ht, placed, if_neg ht]
    rfl

theorem xbpb_when (d p : Drive) {bytes : List UInt8} (hlen : bytes.length = 36) :
    (Prog.when (d.param.fatType = .fat32) (dosmemput p.xbpb.bytes 36)).run (p.fill bytes) =
      (.ok (), p.fill (bytes ++ if d.param.fatType = .fat32 then p.xbpb.bytes else [])) := by
  by_cases ht : d.param.fatType = .fat32
  · rw [when_pos ht, if_pos ht]
    exact fill_put hlen _ p
  · rw [when_neg ht, if_neg ht, List.append_nil]
    rfl

theorem createBootSector_run (d : Drive) :
    createBootSector.run d = (.ok (), { placed d with sectorBuffer := bootSector (placed d) }) := by
  have hclear : clearSectorBuffer.run d = (.ok (), d.fill []) := by
    rw [fill_empty]
    rfl
  have hparam : (placed d).param = d.param := rfl
  have hstart : (dosmemput (createBootSectStart d.param.fatType) 0).run (d.fill []) = (.ok (), d.fill _) := fill_put rfl _ d
  rw [List.nil_append] at hstart
  have hbpb : (dosmemput d.bpb.bytes 11).run (d.fill (createBootSectStart d.param.fatType)) = (.ok (), d.fill _) :=
    fill_put (length_start _) _ d
  have hlen : (createBootSectStart d.param.fatType ++ d.bpb.bytes).length = 36 := by
    rw [List.length_append, length_start, length_bpb]
  rw [createBootSector, run_bind_state, run_bind_ok hclear, run_bind_ok hstart, run_bind_ok hbpb,
    run_bind_ok (chooseInfoSector_when d _), run_bind_state]
  generalize hp : placed d = p at *
  have hbpb' : p.bpb = d.bpb := by rw [← hp, placed]
  change (do
    Prog.when (p.param.fatType = .fat32) (dosmemput p.xbpb.bytes 36)
    dosmemput (createBootSectExt p.param p.clock) (if p.param.fatType = .fat32 then 64 else 36)
    dosmemput p.bootCode ((if p.param.fatType = .fat32 then 64 else 36) + 26)
    dosmemput [0x55, 0xAA] 510 : FormatM Unit).run _ = _
  have hx := xbpb_when p p hlen
  rw [run_bind_ok hx]
  have hplace : (createBootSectStart d.param.fatType ++ d.bpb.bytes ++
      if p.param.fatType = .fat32 then p.xbpb.bytes else []).length = if p.param.fatType = .fat32 then 64 else 36 := by
    rw [List.length_append, hlen]
    split
    · rw [length_xbpb]
    · rfl
  rw [run_bind_ok (fill_put hplace _ p)]
  have hfields : bootFields p = createBootSectStart d.param.fatType ++ d.bpb.bytes ++
      (if p.param.fatType = .fat32 then p.xbpb.bytes else []) ++ createBootSectExt p.param p.clock := by
    rw [bootFields, hbpb', ← hparam]
  have hcode : (dosmemput p.bootCode ((if p.param.fatType = .fat32 then 64 else 36) + 26)).run (p.fill (bootFields p)) =
      (.ok (), p.fill (bootFields p ++ p.bootCode)) := fill_put (length_bootFields p) _ p
  rw [← hfields, run_bind_ok hcode, dosmemput, run_update]
  rfl

/-- The boot sector shows the parameters. -/
theorem bootSector_fields {p : Drive} {i : ℕ} (hi : i < extPlace p) : bootSector p i = (bootFields p).getD i 0 := by
  have hplace : extPlace p ≤ 64 := by
    unfold extPlace
    split
    · exact Nat.le_refl 64
    · decide
  have hlen := length_bootFields p
  have hat := @overlay_at 0 (bootFields p ++ p.bootCode) blankSector i (by rw [List.length_append]; omega)
  rw [Nat.zero_add] at hat
  rw [bootSector, overlay_of_lt (by omega), hat, List.getD_append _ _ _ _ (by omega)]

theorem bootSector_bpb (p : Drive) {i : ℕ} (hi : i < 25) : bootSector p (11 + i) = p.bpb.bytes.getD i 0 := by
  have hplace : 36 ≤ extPlace p := by
    unfold extPlace
    split
    · decide
    · exact Nat.le_refl 36
  have hstart := length_start p.param.fatType
  have hbpb := length_bpb p.bpb
  rw [bootSector_fields (by omega), bootFields, List.append_assoc, List.append_assoc,
    List.getD_append_right _ _ _ _ (by omega), hstart, Nat.add_sub_cancel_left, List.getD_append _ _ _ _ (by omega)]

theorem bootSector_xbpb {p : Drive} (ht : p.param.fatType = .fat32) {i : ℕ} (hi : i < 28) :
    bootSector p (36 + i) = p.xbpb.bytes.getD i 0 := by
  have hplace : extPlace p = 64 := if_pos ht
  have hstart := length_start p.param.fatType
  have hlen : (createBootSectStart p.param.fatType ++ p.bpb.bytes).length = 36 := by
    rw [List.length_append, hstart, length_bpb]
  rw [bootSector_fields (by omega), bootFields, if_pos ht, List.append_assoc (_ ++ _),
    List.getD_append_right _ _ _ _ (by omega), hlen, Nat.add_sub_cancel_left,
    List.getD_append _ _ _ _ (by rw [length_xbpb]; omega)]

theorem bootSector_flag (p : Drive) : get16 (bootSector p) 510 = 0xAA55 := by
  have h0 : bootSector p 510 = 0x55 := overlay_at (i := 0) (by decide)
  have h1 : bootSector p 511 = 0xAA := overlay_at (i := 1) (by decide)
  rw [get16, h0, h1]
  rfl

theorem get16_le16 {b : SectorData} {o : ℕ} {x : UInt16} (h0 : b o = UInt8.ofNat x.toNat)
    (h1 : b (o + 1) = UInt8.ofNat (x.toNat / 256)) : get16 b o = x.toNat := by
  have hx := x.toNat_lt
  rw [get16, h0, h1, UInt8.toNat_ofNat', UInt8.toNat_ofNat']
  omega

end BootSector

section Run

theorem rootClusters_planned (ht : (planned d).param.fatType = .fat32) :
    rootClusters (planned d) = max 32 (planned d).bpb.sectorsPerCluster.toNat / (planned d).bpb.sectorsPerCluster.toNat := by
  have hsize : (planned d).fileSysInfo.numberRootDirSect = max 32 d.bpb.sectorsPerCluster.toNat := if_pos ht
  have hcluster : (planned d).bpb.sectorsPerCluster = d.bpb.sectorsPerCluster := by
    rw [planned_bpb]
    change (sizedBpb d).sectorsPerCluster = _
    rw [sizedBpb_eq]
  rw [rootClusters, hsize, hcluster]

theorem Formattable.clusterSize (h : Formattable d blocks) : ∃ k ≤ 7, d.bpb.sectorsPerCluster.toNat = 2 ^ k := by
  obtain ⟨k, hk⟩ := Option.isSome_iff_exists.mp h.cluster
  refine ⟨k, ?_, logSectorsPerCluster_some hk⟩
  unfold logSectorsPerCluster? at hk
  grind

theorem Formattable.arranged (h : Formattable (planned d) blocks) : Arranged (planned d) where
  fats := h.fats
  start := by
    rw [planned_fileSysInfo, planned_bpb]
    change d.bpb.reservedSectors.toNat = (sizedBpb d).reservedSectors.toNat
    rw [sizedBpb_eq]
  reserved := h.reserved
  root := by
    rw [planned_fileSysInfo, planned_bpb]
    change behindFats d = d.bpb.reservedSectors.toNat + fatSectors d.bpb d.xbpb * (sizedBpb d).numberOfFats.toNat
    rw [sizedBpb_eq]
    rfl
  more := h.more
  below := h.below
  chain := by
    intro ht
    obtain ⟨k, hk, hsize⟩ := h.clusterSize
    rw [rootClusters_planned ht, hsize]
    have hpos : 0 < 2 ^ k := Nat.two_pow_pos k
    have hle : max 32 (2 ^ k) ≤ 126 * 2 ^ k := by omega
    apply Nat.div_le_of_le_mul
    rwa [Nat.mul_comm]

theorem createFileSystem_eq (loopBound : ℕ) :
    createFileSystem loopBound = getFsInfo >>= fun _ => createBootSector >>= fun _ => writeSystem loopBound := rfl

theorem createFileSystem_run {loopBound : ℕ} (h : Formattable (planned d) blocks)
    (hloop : (planned d).fileSysInfo.numberFatSectors * (planned d).bpb.numberOfFats.toNat < loopBound) :
    ∃ e, (createFileSystem loopBound).run d = (.ok (), e) ∧ Formatted (planned d) e (bootSector (planned d)) := by
  generalize hboot : ({ planned d with sectorBuffer := bootSector (planned d) } : Drive) = b
  have hsame : Same (planned d) b := by
    rw [← hboot]
    exact ⟨rfl, rfl, rfl, rfl, rfl, rfl⟩
  have hrun : createBootSector.run (sized d) = (.ok (), b) := by
    rw [createBootSector_run, ← hboot]
    rfl
  have hbound : b.fileSysInfo.numberFatSectors * b.bpb.numberOfFats.toNat < loopBound := by
    rw [hsame.fileSysInfo, hsame.bpb]
    exact hloop
  obtain ⟨e, hwrite, hformatted⟩ := writeSystem_run (h.arranged.congr hsame) hbound
  have hbuffer : b.sectorBuffer = bootSector (planned d) := by rw [← hboot]
  refine ⟨e, ?_, ?_⟩
  · rw [createFileSystem_eq, run_bind_ok (getFsInfo_run h.sizable), run_bind_ok hrun]
    exact hwrite
  · rw [hbuffer] at hformatted
    refine ⟨hsame.trans hformatted.same, hformatted.boot, fun ht hsafe => ?_, fun s hlo hhi => ?_, fun s hlo hhi => ?_⟩
    · rw [← hsame.infoSector, ← hsame.xbpb]
      exact hformatted.info (by rw [hsame.param]; exact ht) (hsame.infoSafe hsafe)
    · rw [← hsame.fatSector, ← hsame.fileSysInfo]
      rw [← hsame.fileSysInfo] at hlo hhi
      exact hformatted.fats s hlo hhi
    · rw [← hsame.rootSector]
      rw [← hsame.fileSysInfo] at hlo hhi
      exact hformatted.root s hlo hhi

end Run

end FreeDos32.Format
