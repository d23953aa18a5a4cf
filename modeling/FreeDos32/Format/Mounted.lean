import FreeDos32.Format.Planned

namespace FreeDos32.Format

open Prog Fat

variable {d e p : Drive} {blocks loopBound k n i : ℕ}

/-- The root directory's clusters on FAT32, which start with cluster 2. -/
def rootChain (p : Drive) : List ℕ := if p.param.fatType = .fat32 then List.range' 2 (rootClusters p) else []

def Drive.geometry (p : Drive) (loopBound : ℕ) : Geometry where
  fatType := p.param.fatType
  numFats := p.bpb.numberOfFats.toNat
  logBytesPerSector := 9
  logSectorsPerCluster := (logSectorsPerCluster? p.bpb.sectorsPerCluster.toNat).getD 0
  activeFat := if p.param.fatType = .fat32 then p.xbpb.extFlags.toNat % 16 else 0
  fatSize := p.fileSysInfo.numberFatSectors
  fatStart := p.bpb.reservedSectors.toNat
  rootSector := p.fileSysInfo.startRootDirSect
  rootSize := p.rootEntrySectors
  dataStart := p.fileSysInfo.startRootDirSect + p.rootEntrySectors
  rootCluster := if p.param.fatType = .fat32 then 2 else 0
  dataClusters := p.fileSysInfo.totalClusters
  loopBound := loopBound

section Fields

theorem boot_get16 (p : Drive) {x : UInt16} (i : ℕ) (hi : i + 1 < 25) (h0 : p.bpb.bytes.getD i 0 = UInt8.ofNat x.toNat)
    (h1 : p.bpb.bytes.getD (i + 1) 0 = UInt8.ofNat (x.toNat / 256)) : get16 (bootSector p) (11 + i) = x.toNat := by
  apply get16_le16
  · rw [bootSector_bpb p (by omega), h0]
  · rw [Nat.add_assoc, bootSector_bpb p hi, h1]

theorem boot_get16_xbpb {x : UInt16} (ht : p.param.fatType = .fat32) (i : ℕ) (hi : i + 1 < 28)
    (h0 : p.xbpb.bytes.getD i 0 = UInt8.ofNat x.toNat) (h1 : p.xbpb.bytes.getD (i + 1) 0 = UInt8.ofNat (x.toNat / 256)) :
    get16 (bootSector p) (36 + i) = x.toNat := by
  apply get16_le16
  · rw [bootSector_xbpb ht (by omega), h0]
  · rw [Nat.add_assoc, bootSector_xbpb ht hi, h1]

theorem boot_byte (p : Drive) {x : UInt8} (i : ℕ) (hi : i < 25) (h : p.bpb.bytes.getD i 0 = x) :
    (bootSector p (11 + i)).toNat = x.toNat := by rw [bootSector_bpb p hi, h]

theorem boot_bytesPerSector (p : Drive) : Bpb.bytesPerSector (bootSector p) = p.bpb.bytesPerSector.toNat :=
  boot_get16 p 0 (by decide) (by simp [StdBpb.bytes, le16]) (by simp [StdBpb.bytes, le16])

theorem boot_sectorsPerCluster (p : Drive) : Bpb.sectorsPerCluster (bootSector p) = p.bpb.sectorsPerCluster.toNat :=
  boot_byte p 2 (by decide) (by simp [StdBpb.bytes, le16])

theorem boot_reservedSectors (p : Drive) : Bpb.reservedSectors (bootSector p) = p.bpb.reservedSectors.toNat :=
  boot_get16 p 3 (by decide) (by simp [StdBpb.bytes, le16]) (by simp [StdBpb.bytes, le16])

theorem boot_numFats (p : Drive) : Bpb.numFats (bootSector p) = p.bpb.numberOfFats.toNat :=
  boot_byte p 5 (by decide) (by simp [StdBpb.bytes, le16])

theorem boot_rootEntries (p : Drive) : Bpb.rootEntries (bootSector p) = p.bpb.rootDirectoryEntries.toNat :=
  boot_get16 p 6 (by decide) (by simp [StdBpb.bytes, le16]) (by simp [StdBpb.bytes, le16])

theorem boot_mediaId (p : Drive) : Bpb.mediaId (bootSector p) = p.bpb.mediaDescriptor.toNat :=
  boot_byte p 10 (by decide) (by simp [StdBpb.bytes, le16])

theorem toNat_eq_zero {x : UInt16} : x.toNat = 0 ↔ x = 0 :=
  ⟨fun h => UInt16.toNat_inj.mp h, fun h => congrArg UInt16.toNat h⟩

theorem boot_numSectors (p : Drive) : Bpb.numSectors (bootSector p) = totalSectors p.bpb := by
  have hsmall : get16 (bootSector p) 19 = p.bpb.totalSectors.toNat := boot_get16 p 8 (by decide) (by simp [StdBpb.bytes, le16]) (by simp [StdBpb.bytes, le16])
  have hlow : get16 (bootSector p) 32 = p.bpb.largeSectorCountLow.toNat := boot_get16 p 21 (by decide) (by simp [StdBpb.bytes, le16]) (by simp [StdBpb.bytes, le16])
  have hhigh : get16 (bootSector p) 34 = p.bpb.largeSectorCountHigh.toNat := boot_get16 p 23 (by decide) (by simp [StdBpb.bytes, le16]) (by simp [StdBpb.bytes, le16])
  rw [Bpb.numSectors, totalSectors, get32, hsmall, hlow, hhigh]
  simp only [toNat_eq_zero]
  split
  · omega
  · rfl

theorem boot_fatSize (h : p.bpb.sectorsPerFat = 0 → p.param.fatType = .fat32) :
    Bpb.fatSize (bootSector p) = fatSectors p.bpb p.xbpb := by
  have hsmall : get16 (bootSector p) 22 = p.bpb.sectorsPerFat.toNat := boot_get16 p 11 (by decide) (by simp [StdBpb.bytes, le16]) (by simp [StdBpb.bytes, le16])
  rw [Bpb.fatSize, fatSectors, hsmall]
  simp only [toNat_eq_zero]
  split
  · next hzero =>
    have hlow : get16 (bootSector p) 36 = p.xbpb.fatSizeLow.toNat := boot_get16_xbpb (h hzero) 0 (by decide) rfl rfl
    have hhigh : get16 (bootSector p) 38 = p.xbpb.fatSizeHigh.toNat := boot_get16_xbpb (h hzero) 2 (by decide) rfl rfl
    rw [get32, hlow, hhigh]
    omega
  · rfl

theorem boot_extFlags (ht : p.param.fatType = .fat32) : Bpb.extFlags (bootSector p) = p.xbpb.extFlags.toNat :=
  boot_get16_xbpb ht 4 (by decide) rfl rfl

theorem boot_fsVersion (ht : p.param.fatType = .fat32) : Bpb.fsVersion (bootSector p) = p.xbpb.fileSystemVersion.toNat :=
  boot_get16_xbpb ht 6 (by decide) rfl rfl

theorem boot_rootCluster (ht : p.param.fatType = .fat32) : Bpb.rootCluster (bootSector p) =
    p.xbpb.rootDirStartLow.toNat + 65536 * p.xbpb.rootDirStartHigh.toNat := by
  have hlow : get16 (bootSector p) 44 = p.xbpb.rootDirStartLow.toNat := boot_get16_xbpb ht 8 (by decide) rfl rfl
  have hhigh : get16 (bootSector p) 46 = p.xbpb.rootDirStartHigh.toNat := boot_get16_xbpb ht 10 (by decide) rfl rfl
  rw [Bpb.rootCluster, get32, hlow, hhigh]

theorem boot_fsinfoSector (ht : p.param.fatType = .fat32) :
    Bpb.fsinfoSector (bootSector p) = p.xbpb.infoSectorNumber.toNat := boot_get16_xbpb ht 12 (by decide) rfl rfl

end Fields

section Entries

theorem length_chainBytes (n cnum : ℕ) : (chainBytes n cnum).length = 4 * n := by
  induction n generalizing cnum with
  | zero => rfl
  | succ n ih =>
    rw [chainBytes, List.length_append, ih]
    split
    · simp
      omega
    · simp
      omega

/-- What the entry of cluster `cnum + i` is followed by. -/
def chainNext (n cnum i : ℕ) : ℕ := if i + 1 = n then fatEoc else cnum + i + 1

theorem chainBytes_getD {cnum j : ℕ} (hi : i < n) (hj : j < 4) (hc : cnum + n < 256) :
    (chainBytes n cnum).getD (4 * i + j) 0 = (le32 (chainNext n cnum i)).getD j 0 := by
  induction n generalizing cnum i with
  | zero => omega
  | succ n ih =>
    have hlen : (if n = 0 then [0xFF, 0xFF, 0xFF, 0x0F] else [UInt8.ofNat (cnum + 1), 0, 0, 0]).length = 4 := by
      split
      · rfl
      · rfl
    rw [chainBytes]
    cases i with
    | zero =>
      rw [Nat.mul_zero, Nat.zero_add, List.getD_append _ _ _ _ (by omega), chainNext]
      by_cases hn : n = 0
      · have heoc : le32 fatEoc = [0xFF, 0xFF, 0xFF, 0x0F] := by decide
        subst hn
        rw [if_pos rfl, if_pos rfl, heoc]
      · have hne : ¬0 + 1 = n + 1 := by omega
        rw [if_neg hn, if_neg hne, Nat.add_zero, le32, le16, le16]
        have hsmall : (cnum + 1) / 256 = 0 := by omega
        have hlarge : (cnum + 1) / 65536 = 0 := by omega
        rw [hsmall, hlarge]
        rfl
    | succ i =>
      have hnext : chainNext (n + 1) cnum (i + 1) = chainNext n (cnum + 1) i := by
        rw [chainNext, chainNext]
        split_ifs <;> first | rfl | omega
      have hplace : 4 * (i + 1) + j - 4 = 4 * i + j := by omega
      rw [List.getD_append_right _ _ _ _ (by omega), hlen, hplace, hnext]
      exact ih (by omega) (by omega)

theorem length_fatMarks (h : Arranged p) : (fatMarks p).length ≤ 512 := by
  have hchain := h.chain
  rw [fatMarks]
  cases ht : p.param.fatType with
  | fat12 => simp
  | fat16 => simp
  | fat32 =>
    have hle := hchain ht
    simp only [List.length_append, length_chainBytes]
    simp
    omega

theorem overlay_blank (bytes : List UInt8) (i : ℕ) : overlay 0 bytes blankSector i = bytes.getD i 0 := by
  by_cases hi : i < bytes.length
  · have hat := @overlay_at 0 bytes blankSector i hi
    rwa [Nat.zero_add] at hat
  · rw [overlay_of_ge (by omega), List.getD_eq_default _ _ (by omega)]
    rfl

/-- Each FAT starts with its marks; the rest of it is zero. -/
theorem fat_byte {boot : SectorData} {o : ℕ} (h : Arranged p) (hf : Formatted p e boot) (hk : k < p.bpb.numberOfFats.toNat)
    (ho : o < p.fileSysInfo.numberFatSectors * 512) :
    image (p.geometry loopBound) e.sectors ((k * p.fileSysInfo.numberFatSectors + p.bpb.reservedSectors.toNat) * 512 + o) =
      (fatMarks p).getD o 0 := by
  have hlen := length_fatMarks h
  have hstart := h.start
  have hroot := h.root
  generalize hsize : p.fileSysInfo.numberFatSectors = size at *
  have hsplit : (k * size + p.bpb.reservedSectors.toNat) * 512 + o =
      (k * size + p.bpb.reservedSectors.toNat + o / 512) * 512 + o % 512 := by omega
  have hrow : o / 512 < size := by omega
  have hfats : k = 0 ∨ k = 1 ∧ p.bpb.numberOfFats = 2 := by
    rcases h.fats with hone | htwo
    · rw [hone] at hk
      exact .inl (Nat.lt_one_iff.mp hk)
    · rw [htwo] at hk
      change k < 2 at hk
      rcases (by omega : k = 0 ∨ k = 1) with h0 | h1
      · exact .inl h0
      · exact .inr ⟨h1, htwo⟩
  have hinside : k * size + p.bpb.reservedSectors.toNat + o / 512 < p.fileSysInfo.startRootDirSect := by
    have hle : (k + 1) * size ≤ size * p.bpb.numberOfFats.toNat := by
      rw [Nat.mul_comm]
      exact Nat.mul_le_mul_left _ hk
    rw [Nat.add_mul, Nat.one_mul] at hle
    omega
  have hfat := hf.fats (k * size + p.bpb.reservedSectors.toNat + o / 512) (by omega) hinside
  have hoffset : o % 512 < (p.geometry loopBound).bytesPerSector := Nat.mod_lt o (by decide : 0 < 512)
  rw [hsplit]
  refine (image_sector _ hoffset).trans ?_
  rw [hfat, hsize, fatSector, hstart]
  by_cases hfirst : o / 512 = 0
  · have hin : k * size + p.bpb.reservedSectors.toNat + o / 512 = p.bpb.reservedSectors.toNat ∨
        p.bpb.numberOfFats = 2 ∧ k * size + p.bpb.reservedSectors.toNat + o / 512 = p.bpb.reservedSectors.toNat + size := by
      rcases hfats with rfl | ⟨rfl, htwo⟩
      · left
        omega
      · right
        exact ⟨htwo, by omega⟩
    have hsame : o % 512 = o := by omega
    rw [if_pos hin, overlay_blank, hsame]
  · have hout : ¬(k * size + p.bpb.reservedSectors.toNat + o / 512 = p.bpb.reservedSectors.toNat ∨
        p.bpb.numberOfFats = 2 ∧ k * size + p.bpb.reservedSectors.toNat + o / 512 = p.bpb.reservedSectors.toNat + size) := by
      rcases hfats with rfl | ⟨rfl, -⟩
      · omega
      · omega
    rw [if_neg hout, List.getD_eq_default _ _ (by omega)]
    rfl

/-- What the entries are: those of the root directory's clusters are linked, all others are zero. -/
def entryOf (p : Drive) (n : ℕ) : ℕ := if n - 2 < (rootChain p).length then chainNext (rootChain p).length 2 (n - 2) else 0

theorem chainNext_ne_zero (n c i : ℕ) : chainNext n c i ≠ 0 := by
  rw [chainNext]
  split
  · decide
  · exact Nat.succ_ne_zero _

theorem entryOf_eq_zero : entryOf p n = 0 ↔ ¬n - 2 < (rootChain p).length := by
  rw [entryOf]
  split
  · next hin => exact iff_of_false (chainNext_ne_zero _ _ _) (not_not.mpr hin)
  · next hout => exact iff_of_true rfl hout

theorem length_rootChain (p : Drive) : (rootChain p).length = if p.param.fatType = .fat32 then rootClusters p else 0 := by
  rw [rootChain]
  split
  · exact List.length_range'
  · rfl

theorem fatEntry_formatted {boot : SectorData} (h : Formattable p blocks) (ha : Arranged p) (hf : Formatted p e boot)
    (hk : k < p.bpb.numberOfFats.toNat) (hn : 2 ≤ n) (hle : n ≤ p.fileSysInfo.totalClusters + 1) :
    fatEntry (p.geometry loopBound) (image (p.geometry loopBound) e.sectors) k n = entryOf p n := by
  have hmono := entryOffset_mono p.param.fatType hle
  have htable := h.table
  have hbyte : ∀ j < entrySize p.param.fatType, image (p.geometry loopBound) e.sectors
      (entryAddr (p.geometry loopBound) k n + j) = (fatMarks p).getD (entryOffset p.param.fatType n + j) 0 := by
    intro j hj
    have hinside : entryOffset p.param.fatType n + j < p.fileSysInfo.numberFatSectors * 512 := by omega
    rw [entryAddr, Nat.add_assoc]
    exact fat_byte ha hf hk hinside
  have hchain := length_rootChain p
  unfold fatEntry
  dsimp only
  generalize image (p.geometry loopBound) e.sectors = m at *
  generalize entryAddr (p.geometry loopBound) k n = a at *
  have htype : (p.geometry loopBound).fatType = p.param.fatType := rfl
  rw [htype]
  have hnone : p.param.fatType ≠ .fat32 → entryOf p n = 0 := by
    intro ht
    rw [entryOf, hchain, if_neg ht]
    exact if_neg (Nat.not_lt_zero _)
  cases ht : p.param.fatType with
  | fat12 =>
    rw [ht] at hbyte hnone
    have hmarks : (fatMarks p).length = 3 := by rw [fatMarks, ht]; rfl
    have h0 := hbyte 0 (by decide)
    have h1 := hbyte 1 (by decide)
    rw [entryOffset, List.getD_eq_default _ _ (by omega)] at h0 h1
    rw [Nat.add_zero] at h0
    rw [hnone (by decide), h0, h1, unpack12]
    simp
  | fat16 =>
    rw [ht] at hbyte hnone
    have hmarks : (fatMarks p).length = 4 := by rw [fatMarks, ht]; rfl
    have h0 := hbyte 0 (by decide)
    have h1 := hbyte 1 (by decide)
    rw [entryOffset, List.getD_eq_default _ _ (by omega)] at h0 h1
    rw [Nat.add_zero] at h0
    rw [hnone (by decide), h0, h1]
    simp
  | fat32 =>
    rw [ht] at hbyte
    rw [if_pos ht] at hchain
    have hroom := ha.chain ht
    have hmarks : fatMarks p = [p.bpb.mediaDescriptor, 0xFF, 0xFF, 0x0F, 0xFF, 0xFF, 0xFF, 0x0F] ++
        chainBytes (rootClusters p) 2 := by rw [fatMarks, ht]; rfl
    have hentry : ∀ j < 4, m (a + j) = (le32 (entryOf p n)).getD j 0 := by
      intro j hj
      have hplace : 4 * n + j - 8 = 4 * (n - 2) + j := by omega
      rw [hbyte j hj, entryOffset, hmarks, List.getD_append_right _ _ _ _ (by simp; omega)]
      change (chainBytes (rootClusters p) 2).getD (4 * n + j - 8) 0 = _
      rw [hplace, entryOf, hchain]
      by_cases hin : n - 2 < rootClusters p
      · rw [if_pos hin, chainBytes_getD hin hj (by omega)]
      · have hzero : ∀ j < 4, (le32 0).getD j 0 = 0 := by decide
        rw [if_neg hin, hzero j hj, List.getD_eq_default _ _ (by rw [length_chainBytes]; omega)]
    have hvalue : entryOf p n = fatEoc ∨ entryOf p n < 256 := by
      rw [entryOf, chainNext, hchain]
      split_ifs <;> omega
    dsimp only
    rw [get32_le32 (entryOf p n) _ hentry]
    rcases hvalue with heoc | hsmall
    · rw [heoc]
      rfl
    · rw [if_neg (by omega)]
      omega

theorem links_range' {t : ℕ → ℕ} {c : ℕ} (h : ∀ i < n, t (c + i) = chainNext n c i) : Links t fatEoc (List.range' c n) := by
  induction n generalizing c with
  | zero => trivial
  | succ n ih =>
    have hfirst := h 0 (Nat.succ_pos n)
    have hrest : Links t fatEoc (List.range' (c + 1) n) := by
      apply ih
      intro i hi
      have hnext := h (i + 1) (Nat.succ_lt_succ hi)
      rw [Nat.add_assoc c, Nat.add_comm 1, hnext, chainNext, chainNext]
      split_ifs <;> omega
    rw [List.range'_succ]
    cases n with
    | zero => exact hfirst
    | succ n =>
      rw [List.range'_succ] at hrest ⊢
      exact ⟨hfirst, hrest⟩

theorem table_formatted {boot : SectorData} (h : Formattable p blocks) (ha : Arranged p) (hf : Formatted p e boot)
    (hn : 2 ≤ n) (hle : n ≤ p.fileSysInfo.totalClusters + 1) :
    table (p.geometry loopBound) (image (p.geometry loopBound) e.sectors) n = entryOf p n := by
  apply fatEntry_formatted h ha hf _ hn hle
  change (if p.param.fatType = .fat32 then p.xbpb.extFlags.toNat % 16 else 0) < p.bpb.numberOfFats.toNat
  split
  · next ht => exact h.active ht
  · rcases ha.fats with hfats | hfats
    · rw [hfats]
      decide
    · rw [hfats]
      decide

theorem length_rootChain_le (h : Formattable p blocks) : (rootChain p).length ≤ p.fileSysInfo.totalClusters := by
  rw [length_rootChain]
  split
  · next ht => exact h.chain ht
  · exact Nat.zero_le _

theorem rootChain_eq (p : Drive) : rootChain p = List.range' 2 (rootChain p).length := by
  rw [length_rootChain, rootChain]
  split
  · rfl
  · rfl

theorem zeros_formatted {boot : SectorData} (h : Formattable p blocks) (ha : Arranged p) (hf : Formatted p e boot) :
    zeros (p.geometry loopBound) (image (p.geometry loopBound) e.sectors) =
      p.fileSysInfo.totalClusters - (rootChain p).length := by
  have hle := length_rootChain_le h
  have hmem : ∀ i, i + 2 ∈ rootChain p ↔ i < (rootChain p).length := by
    intro i
    rw [rootChain_eq p, List.mem_range'_1, List.length_range']
    omega
  have hcount := @countP_mem (rootChain p) (by rw [rootChain_eq]; exact List.nodup_range') 2 p.fileSysInfo.totalClusters
    (by
      intro x hx
      rw [rootChain_eq, List.mem_range'_1] at hx
      omega)
  have hsplit := List.length_eq_countP_add_countP (l := List.range p.fileSysInfo.totalClusters)
    fun i => decide (i + 2 ∈ rootChain p)
  rw [List.length_range, hcount] at hsplit
  have hzeros : zeros (p.geometry loopBound) (image (p.geometry loopBound) e.sectors) =
      (List.range p.fileSysInfo.totalClusters).countP fun i => decide ¬decide (i + 2 ∈ rootChain p) = true := by
    apply List.countP_congr
    intro i hi
    have hlt : i < p.fileSysInfo.totalClusters := List.mem_range.mp hi
    rw [table_formatted h ha hf (by omega) (by omega)]
    simp only [beq_iff_eq, decide_eq_true_eq, entryOf_eq_zero, hmem, Nat.add_sub_cancel]
  omega

end Entries

section Boot

/-- The numbers that the program has worked out fit the parameters. -/
structure Counted (p : Drive) : Prop where
  type : p.bpb.sectorsPerFat = 0 → p.param.fatType = .fat32
  size : p.fileSysInfo.numberFatSectors = fatSectors p.bpb p.xbpb
  entries : 16 ∣ p.bpb.rootDirectoryEntries.toNat
  noEntries : p.param.fatType = .fat32 → p.rootEntrySectors = 0
  root : p.rootEntrySectors ≤ p.fileSysInfo.numberRootDirSect
  small : p.fileSysInfo.numberRootDirSect ≤ 4095
  chain : p.param.fatType = .fat32 → 0 < rootClusters p
  clusters : p.fileSysInfo.totalClusters = (totalSectors p.bpb - (p.fileSysInfo.startRootDirSect + p.rootEntrySectors)) /
    p.bpb.sectorsPerCluster.toNat

theorem fatSectors_infoPlaces (b : StdBpb) (x : Fat32Bpb) : fatSectors b (infoPlaces b x) = fatSectors b x := by
  unfold infoPlaces
  split
  · split
    · rfl
    · rfl
  · rfl

theorem fatSectors_planned (d : Drive) : fatSectors (planned d).bpb (planned d).xbpb = fatSectors d.bpb d.xbpb := by
  have hsame : ∀ x, fatSectors (sizedBpb d) x = fatSectors d.bpb x := by
    intro x
    rw [sizedBpb_eq]
    rfl
  rw [planned, placed]
  dsimp only
  split
  · exact (fatSectors_infoPlaces _ _).trans (hsame _)
  · exact hsame _

theorem planned_counted (h : Formattable (planned d) blocks) : Counted (planned d) where
  type := by
    intro hzero
    have hsame : (planned d).bpb.sectorsPerFat = d.bpb.sectorsPerFat := by
      change (sizedBpb d).sectorsPerFat = _
      rw [sizedBpb_eq]
    rw [hsame] at hzero
    exact if_pos hzero
  size := (fatSectors_planned d).symm
  entries := sizedBpb_dvd h.sizable.bytes
  noEntries := by
    intro ht
    change (sizedBpb d).rootDirectoryEntries.toNat / 16 = 0
    rw [sizedBpb_entries ht]
  root := by
    change (sizedBpb d).rootDirectoryEntries.toNat / 16 ≤ if formatType d = .fat32 then _ else _
    split
    · next ht =>
      rw [sizedBpb_entries ht]
      exact Nat.zero_le _
    · exact Nat.le_refl _
  small := by
    change (if formatType d = .fat32 then _ else _) ≤ 4095
    split
    · have hcluster := d.bpb.sectorsPerCluster.toNat_lt
      omega
    · have hentries := (sizedBpb d).rootDirectoryEntries.toNat_lt
      omega
  chain := by
    intro ht
    obtain ⟨k, -, hsize⟩ := h.clusterSize
    rw [rootClusters_planned ht, hsize]
    exact Nat.div_pos (Nat.le_max_right _ _) (Nat.two_pow_pos k)
  clusters := by
    have hcluster : (planned d).bpb.sectorsPerCluster = d.bpb.sectorsPerCluster := by
      change (sizedBpb d).sectorsPerCluster = _
      rw [sizedBpb_eq]
    rw [hcluster, planned_bpb, totalSectors_sized]
    rfl

theorem boot_rootSize (hc : Counted p) :
    (p.bpb.rootDirectoryEntries.toNat * 32 + (512 - 1)) / 512 = p.rootEntrySectors := by
  obtain ⟨q, hq⟩ := hc.entries
  rw [Drive.rootEntrySectors, hq]
  omega

theorem boot_metaSectors (h : Formattable p blocks) (ha : Arranged p) (hc : Counted p) :
    Bpb.metaSectors (bootSector p) = p.fileSysInfo.startRootDirSect + p.rootEntrySectors := by
  have hroot := ha.root
  rw [Bpb.metaSectors, boot_reservedSectors, boot_numFats, boot_fatSize hc.type, boot_rootEntries, boot_bytesPerSector,
    h.bytes, ← hc.size, show (512 : UInt16).toNat = 512 from rfl, boot_rootSize hc, Nat.mul_comm, hroot, ha.start]

theorem Formattable.areas_lt (h : Formattable p blocks) :
    p.fileSysInfo.startRootDirSect + p.rootEntrySectors < 2 ^ 32 := by
  have hareas := h.areas
  have htotal := totalSectors_lt p.bpb
  omega

theorem boot_clusterCount (h : Formattable p blocks) (ha : Arranged p) (hc : Counted p) :
    Bpb.clusterCount (bootSector p) = p.fileSysInfo.totalClusters := by
  rw [Bpb.clusterCount, boot_metaSectors h ha hc, boot_numSectors, boot_sectorsPerCluster, hc.clusters,
    Nat.mod_eq_of_lt h.areas_lt]

theorem bootSector_ok (h : Formattable p blocks) (ha : Arranged p) (hc : Counted p) : BootOk (bootSector p) ⟨blocks, 512⟩ := by
  have hcount := boot_clusterCount h ha hc
  have hmeta := boot_metaSectors h ha hc
  have hfat32 : 65525 ≤ p.fileSysInfo.totalClusters → p.param.fatType = .fat32 := by
    intro hlarge
    rw [h.type, fatTypeOf_fat32]
    exact hlarge
  refine ⟨⟨?_, ?_, ?_, ?_, ?_, ?_⟩, ?_, ?_, ?_, h.blocks.2⟩
  · rw [hmeta, boot_numSectors, Nat.mod_eq_of_lt h.areas_lt]
    exact h.areas
  · rw [hcount, ← h.type, boot_fatSize hc.type, ← hc.size, boot_bytesPerSector, h.bytes]
    exact h.table
  · rw [boot_numFats]
    rcases ha.fats with hfats | hfats
    · rw [hfats]
      decide
    · rw [hfats]
      decide
  · rw [hcount]
    intro hlarge
    rw [boot_extFlags (hfat32 hlarge), boot_numFats]
    exact h.active (hfat32 hlarge)
  · rw [hcount]
    intro hlarge
    obtain ⟨hlow, hhigh⟩ := h.start (hfat32 hlarge)
    rw [boot_rootCluster (hfat32 hlarge), hlow, hhigh, show (2 : UInt16).toNat + 65536 * (0 : UInt16).toNat = 2 from rfl]
    omega
  · rw [boot_bytesPerSector, h.bytes]
    rfl
  · rw [boot_reservedSectors]
    exact h.reserved
  · rw [hmeta]
    exact h.areas_lt
  · rw [hcount]
    exact h.clusters

/-- The geometry without what a boot sector has for FAT32 only. -/
def Drive.plainGeometry (p : Drive) (loopBound : ℕ) : Geometry :=
  { p.geometry loopBound with activeFat := 0, rootCluster := 0 }

theorem bootSector_geometry (h : Formattable p blocks) (ha : Arranged p) (hc : Counted p)
    (hk : logSectorsPerCluster? p.bpb.sectorsPerCluster.toNat = some k) (loopBound : ℕ) :
    Bpb.geometry (bootSector p) 9 k loopBound = p.plainGeometry loopBound := by
  have hbytes : Bpb.bytesPerSector (bootSector p) = 2 ^ 9 := by rw [boot_bytesPerSector, h.bytes]; rfl
  have hcluster : Bpb.sectorsPerCluster (bootSector p) = 2 ^ k := by
    rw [boot_sectorsPerCluster, logSectorsPerCluster_some hk]
  have hdata := geometry_dataStart k loopBound hbytes
  have hclusters := geometry_dataClusters k loopBound hbytes hcluster (bootSector_ok h ha hc).fits
  rw [boot_metaSectors h ha hc, Nat.mod_eq_of_lt h.areas_lt] at hdata
  rw [boot_clusterCount h ha hc] at hclusters
  have hsize : Bpb.fatSize (bootSector p) = p.fileSysInfo.numberFatSectors := by rw [boot_fatSize hc.type, hc.size]
  have hroot : (p.bpb.reservedSectors.toNat + p.bpb.numberOfFats.toNat * p.fileSysInfo.numberFatSectors) % 2 ^ 32 =
      p.fileSysInfo.startRootDirSect := by
    have hbelow := h.below
    rw [Nat.mul_comm, ← ha.start, ← ha.root, Nat.mod_eq_of_lt (by omega)]
  have hentries : (p.bpb.rootDirectoryEntries.toNat * 32 + (2 ^ 9 - 1)) / 2 ^ 9 = p.rootEntrySectors := boot_rootSize hc
  unfold Bpb.geometry at hdata hclusters ⊢
  simp only [hsize, boot_reservedSectors, boot_numFats, boot_rootEntries, hroot, hentries] at hdata hclusters ⊢
  rw [hdata] at hclusters
  simp only [Drive.plainGeometry, Drive.geometry, hdata, hclusters, h.type, hk, Option.getD_some]

theorem bootSector_mount (h : Formattable p blocks) (ha : Arranged p) (hc : Counted p) (loopBound : ℕ) :
    mountGeometry (bootSector p) ⟨blocks, 512⟩ loopBound = .ok (p.plainGeometry loopBound) := by
  obtain ⟨k, hk⟩ := Option.isSome_iff_exists.mp h.cluster
  obtain ⟨hsectors, hblocks⟩ := h.blocks
  have hareas := h.areas
  have hreserved := h.reserved
  have hstart := ha.start
  have hroot := ha.root
  have hpositive : ¬totalSectors p.bpb = 0 := by omega
  have hroom : ¬totalSectors p.bpb > blocks % 2 ^ 32 := by omega
  have hmedia : ¬(p.bpb.mediaDescriptor.toNat ≠ 0xF0 ∧ p.bpb.mediaDescriptor.toNat < 0xF8) := by
    rintro ⟨hne, hlt⟩
    rcases h.media with heq | hle
    · rw [heq] at hne
      exact hne rfl
    · have hle' : 0xF8 ≤ p.bpb.mediaDescriptor.toNat := hle
      omega
  have hlog : logBytesPerSector? (Bpb.bytesPerSector (bootSector p)) = some 9 := by
    rw [boot_bytesPerSector, h.bytes]
    rfl
  rw [mountGeometry, boot_numSectors, if_neg (not_not.mpr (bootSector_flag p)), if_neg hpositive, if_neg hroom, hlog,
    boot_sectorsPerCluster, hk, boot_mediaId, ← bootSector_geometry h ha hc hk]
  exact if_neg hmedia

theorem bootSector_mounted (h : Formattable p blocks) (loopBound : ℕ) :
    mountedGeometry (bootSector p) (p.plainGeometry loopBound) = p.geometry loopBound := by
  have htype : (p.plainGeometry loopBound).fatType = p.param.fatType := rfl
  by_cases ht : p.param.fatType = .fat32
  · rw [mountedGeometry, htype, if_pos ht, boot_extFlags ht, boot_rootCluster ht, (h.start ht).1, (h.start ht).2]
    simp only [Drive.plainGeometry, Drive.geometry, if_pos ht]
    rfl
  · rw [mountedGeometry, htype, if_neg ht, Drive.plainGeometry]
    simp only [Drive.geometry, if_neg ht]

end Boot

section Info

theorem get32_overlay {bytes : List UInt8} {o o' : ℕ} (h : o' + 4 ≤ o ∨ o + bytes.length ≤ o') (b : SectorData) :
    get32 (overlay o bytes b) o' = get32 b o' := by
  have hbyte : ∀ j < 4, overlay o bytes b (o' + j) = b (o' + j) := by
    intro j hj
    rcases h with hlow | hhigh
    · exact overlay_of_lt (by omega)
    · exact overlay_of_ge (by omega)
  have h0 := hbyte 0 (by decide)
  rw [Nat.add_zero] at h0
  rw [get32, get32, get16, get16, get16, get16, h0, hbyte 1 (by decide), hbyte 2 (by decide), Nat.add_assoc o' 2 1,
    hbyte 3 (by decide)]

theorem get32_overlay_le32 (o x : ℕ) (b : SectorData) : get32 (overlay o (le32 x) b) o = x % 2 ^ 32 := by
  have hat : ∀ j < 4, overlay o (le32 x) b (o + j) = (le32 x).getD j 0 := fun j hj => overlay_at hj
  exact get32_le32 x (fun j => overlay o (le32 x) b (o + j)) hat

theorem fsinfo_ok (h : Formattable p blocks) (ha : Arranged p) (hf : Formatted p e (bootSector p))
    (ht : p.param.fatType = .fat32) (loopBound : ℕ) : FsinfoOk (bootSector p) (p.geometry loopBound) e.sectors blocks := by
  have hsafe := h.info ht
  have hbefore := (infoActive_iff.mp hsafe.1).1
  have hareas := h.areas
  have hblocks := h.blocks
  have hroot := ha.root
  have hstart := ha.start
  have hsector := hf.info ht hsafe
  have hcount := @zeros_formatted _ _ _ loopBound _ h ha hf
  have hchain := h.chain ht
  have hclusters := h.clusters
  rw [length_rootChain, if_pos ht] at hcount
  constructor
  case version =>
    rw [boot_fsVersion ht, h.version ht]
    rfl
  case inside =>
    rw [boot_fsinfoSector ht]
    omega
  all_goals rw [boot_fsinfoSector ht, hsector, infoSector]
  case sig1 =>
    rw [get32_overlay (.inl (by decide)), get32_overlay (.inl (by decide)), get32_overlay (.inl (by decide)),
      get32_overlay (.inl (by decide)), get32_overlay_le32]
    rfl
  case sig2 =>
    rw [get32_overlay (.inl (by decide)), get32_overlay (.inl (by decide)), get32_overlay (.inl (by decide)),
      get32_overlay_le32]
    rfl
  case sig3 =>
    rw [get32_overlay_le32]
    rfl
  case free =>
    left
    rw [get32_overlay (.inl (by decide)), get32_overlay (.inl (by decide)), get32_overlay_le32, hcount]
    omega

end Info

section Directory

theorem posAddr_root {pos a : ℕ} (h : Formattable p blocks) (hc : Counted p)
    (hp : posAddr (p.geometry loopBound) (rootChain p) 0 pos = some a) :
    a = p.fileSysInfo.startRootDirSect * 512 + pos ∧ pos < p.fileSysInfo.numberRootDirSect * 512 := by
  by_cases ht : p.param.fatType = .fat32
  · have hcluster : ¬(p.geometry loopBound).rootCluster = 0 := by
      change ¬(if p.param.fatType = .fat32 then 2 else 0) = 0
      rw [if_pos ht]
      decide
    have hstart : (p.geometry loopBound).dataStart = p.fileSysInfo.startRootDirSect := by
      change p.fileSysInfo.startRootDirSect + p.rootEntrySectors = _
      rw [hc.noEntries ht, Nat.add_zero]
    obtain ⟨k, hk⟩ := Option.isSome_iff_exists.mp h.cluster
    have hlog : (p.geometry loopBound).logSectorsPerCluster = k := by
      simp only [Drive.geometry, hk, Option.getD_some]
    have hbytes : (p.geometry loopBound).bytesPerCluster = 2 ^ k * 512 := by
      rw [Geometry.bytesPerCluster, hlog, Nat.add_comm, Nat.pow_add]
      rfl
    have hfits : rootClusters p * 2 ^ k ≤ p.fileSysInfo.numberRootDirSect := by
      rw [rootClusters, logSectorsPerCluster_some hk]
      exact Nat.div_mul_le_self _ _
    have hlen : (rootChain p).length = rootClusters p := by rw [length_rootChain, if_pos ht]
    rw [posAddr, if_neg fun hzero => hcluster hzero.2, hbytes] at hp
    obtain ⟨c, hget, rfl⟩ := Option.map_eq_some_iff.mp hp
    obtain ⟨hlt, hvalue⟩ := List.getElem?_eq_some_iff.mp hget
    rw [hlen] at hlt
    have hc2 : c = 2 + pos / (2 ^ k * 512) := by
      rw [← hvalue]
      simp only [rootChain, if_pos ht, List.getElem_range', Nat.one_mul]
    have hsector : (p.geometry loopBound).clusterAddr c =
        (pos / (2 ^ k * 512) * 2 ^ k + p.fileSysInfo.startRootDirSect) * 512 := by
      rw [Geometry.clusterAddr, Geometry.clusterSector, hc2, Nat.add_sub_cancel_left, hstart, Geometry.sectorsPerCluster, hlog]
      rfl
    have hdiv := Nat.div_add_mod pos (2 ^ k * 512)
    have hmod := Nat.mod_lt pos (Nat.mul_pos (Nat.two_pow_pos k) (by decide : 0 < 512))
    have hrow : (pos / (2 ^ k * 512) + 1) * (2 ^ k * 512) ≤ p.fileSysInfo.numberRootDirSect * 512 := by
      rw [← Nat.mul_assoc]
      exact Nat.mul_le_mul_right 512 (Nat.le_trans (Nat.mul_le_mul_right _ hlt) hfits)
    rw [hsector]
    generalize pos / (2 ^ k * 512) = q at *
    generalize pos % (2 ^ k * 512) = r at *
    rw [Nat.mul_comm] at hdiv
    rw [Nat.add_mul, Nat.one_mul] at hrow
    rw [Nat.add_mul, Nat.mul_assoc]
    omega
  · have hcluster : (p.geometry loopBound).rootCluster = 0 := if_neg ht
    rw [posAddr, if_pos ⟨rfl, hcluster⟩] at hp
    split at hp
    · next hlt =>
      have hlt' : pos < p.rootEntrySectors * 512 := hlt
      exact ⟨(Option.some.inj hp).symm, Nat.lt_of_lt_of_le hlt' (Nat.mul_le_mul_right 512 hc.root)⟩
    · cases hp

theorem labelSector_attr (d : Drive) : labelSector d 11 = fatAVolid := by
  rw [labelSector, overlay_of_lt (by decide)]
  exact overlay_at (i := 0) (by decide)

theorem labelSector_rest (d : Drive) (hi : 32 ≤ i) : labelSector d i = 0 := by
  have hlabel := length_label d.param
  have hstamp : (labelStamp d.clock).length = 4 := rfl
  rw [labelSector, overlay_of_ge (by omega), overlay_of_ge (by simp; omega), overlay_of_ge (by omega)]
  rfl

/-- No slot of the root directory is in use but the one of the label. -/
theorem rootSector_slot (d : Drive) (s : ℕ) {o : ℕ} (ho : 32 ∣ o) {de : Direntry} (hde : ∀ j < 32, de j = rootSector d s (o + j)) :
    ¬de.Live := by
  rintro ⟨-, hend, hvolid, -⟩
  have h0 := hde 0 (by decide)
  have h11 := hde 11 (by decide)
  rw [rootSector] at h0 h11
  split at h0
  · next hlabel =>
    rw [if_pos hlabel] at h11
    by_cases hfirst : o = 0
    · subst hfirst
      rw [Nat.zero_add, labelSector_attr] at h11
      rw [Direntry.attr, h11] at hvolid
      revert hvolid
      decide
    · have hlarge : 32 ≤ o + 0 := Nat.le_of_dvd (by omega) ho
      rw [labelSector_rest d hlarge] at h0
      exact hend h0
  · exact hend h0

theorem image_ok (h : Formattable p blocks) (ha : Arranged p) (hc : Counted p) (hf : Formatted p e (bootSector p))
    (loopBound : ℕ) : ImageOk
      (rootOnly (p.geometry loopBound) (image (p.geometry loopBound) e.sectors) (rootChain p)) (p.geometry loopBound)
      (image (p.geometry loopBound) e.sectors) := by
  have hle := length_rootChain_le h
  have hmem : ∀ x ∈ rootChain p, 2 ≤ x ∧ x < 2 + (rootChain p).length := by
    intro x hx
    rwa [rootChain_eq, List.mem_range'_1] at hx
  apply rootOnly_imageOk
  · change (rootChain p).headD 0 = if p.param.fatType = .fat32 then 2 else 0
    rw [rootChain]
    split
    · next ht =>
      obtain ⟨n, hn⟩ := Nat.exists_eq_succ_of_ne_zero (Nat.ne_of_gt (hc.chain ht))
      rw [hn]
      rfl
    · rfl
  · have hlinks : ∀ i < (rootChain p).length,
        table (p.geometry loopBound) (image (p.geometry loopBound) e.sectors) (2 + i) = chainNext (rootChain p).length 2 i := by
      intro i hi
      rw [table_formatted h ha hf (by omega) (by omega), entryOf, Nat.add_sub_cancel_left, if_pos hi]
    rw [rootChain_eq p]
    exact links_range' hlinks
  · intro x hx
    have hrange := hmem x hx
    refine ⟨hrange.1, ?_⟩
    change x ≤ p.fileSysInfo.totalClusters + 1
    omega
  · rw [rootChain_eq]
    exact List.nodup_range'
  · intro pos a hpos hp
    obtain ⟨rfl, hlt⟩ := posAddr_root h hc hp
    have hrow : pos / 512 < p.fileSysInfo.numberRootDirSect := Nat.div_lt_of_lt_mul (by omega)
    have hoffset : 32 ∣ pos % 512 := (Nat.dvd_mod_iff (by decide)).mpr hpos
    have hsector := hf.root (p.fileSysInfo.startRootDirSect + pos / 512) (by omega) (by omega)
    apply rootSector_slot p (p.fileSysInfo.startRootDirSect + pos / 512) hoffset
    intro j hj
    have hplace : p.fileSysInfo.startRootDirSect * 512 + pos + j =
        (p.fileSysInfo.startRootDirSect + pos / 512) * 512 + (pos % 512 + j) := by omega
    have hinside : pos % 512 + j < (p.geometry loopBound).bytesPerSector := by
      change pos % 512 + j < 512
      omega
    rw [slotAt, hplace, ← hsector]
    exact image_sector _ hinside
  · intro pos a hp
    have hlt := (posAddr_root h hc hp).2
    have hsmall := hc.small
    omega

end Directory

theorem formatted_mounts {env : Env} (h : Formattable p blocks) (ha : Arranged p) (hc : Counted p)
    (hf : Formatted p e (bootSector p)) (loopBound : ℕ) :
    ∃ v, fatMount ⟨blocks, 512⟩ e.sectors env (.ok ()) loopBound = .ok v ∧ v.geo = p.geometry loopBound ∧
      v.freeClusters = p.fileSysInfo.totalClusters - (rootChain p).length ∧ v.byte = image v.geo e.sectors ∧
      WellFormed (rootOnly v.geo (image v.geo e.sectors) (rootChain p)) v := by
  have hmount := bootSector_mount h ha hc loopBound
  have hmounted := bootSector_mounted h loopBound
  have hok := mountGeometry_geoOk hmount (bootSector_ok h ha hc)
  rw [hmounted] at hok
  have hboot := hf.boot
  rw [← hboot] at hmount hmounted
  have hinfo : p.param.fatType = .fat32 → FsinfoOk (e.sectors 0) (p.geometry loopBound) e.sectors blocks := by
    rw [hboot]
    intro ht
    exact fsinfo_ok h ha hf ht loopBound
  obtain ⟨c, next, hrun, hbuffered⟩ := @fatMount_run _ e.sectors ⟨blocks, 512⟩ env loopBound hmount
    (by rw [hmounted]; exact hok) (by rw [hmounted]; exact hinfo)
  rw [hmounted] at hrun hbuffered
  refine ⟨_, hrun, rfl, ?_, hbuffered.byte, ?_⟩
  · exact zeros_formatted h ha hf
  · exact mountedVolume_wellFormed hok (image_ok h ha hc hf loopBound) hbuffered

/-- A drive that has been formatted can be mounted: the volume has the geometry that was asked for, no file, every
cluster free but those of the root directory, and is in order. -/
theorem createFileSystem_mounts {env : Env} {formatBound : ℕ} (h : Formattable (planned d) blocks)
    (hloop : (planned d).fileSysInfo.numberFatSectors * (planned d).bpb.numberOfFats.toNat < formatBound) (loopBound : ℕ) :
    ∃ e v, (createFileSystem formatBound).run d = (.ok (), e) ∧
      fatMount ⟨blocks, 512⟩ e.sectors env (.ok ()) loopBound = .ok v ∧ v.geo = (planned d).geometry loopBound ∧
      v.freeClusters = (planned d).fileSysInfo.totalClusters - (rootChain (planned d)).length ∧
      v.byte = image v.geo e.sectors ∧
      WellFormed (rootOnly v.geo (image v.geo e.sectors) (rootChain (planned d))) v := by
  obtain ⟨e, hrun, hf⟩ := createFileSystem_run h hloop
  obtain ⟨v, hv⟩ := @formatted_mounts e _ blocks env h h.arranged (planned_counted h) hf loopBound
  exact ⟨e, v, hrun, hv⟩

/-- A hard disk of 200000 sectors. -/
def hardDisk : Drive where
  bpb := ⟨512, 1, 32, 2, 512, 0, 0xF8, 0, 63, 16, 0, 0, 3392, 3⟩
  xbpb := ⟨1600, 0, 0, 0, 2, 0, 0, 0, Vector.replicate 12 0⟩
  param := ⟨.hard, .fat16, true, [0x44, 0x4F, 0x53]⟩
  clock := ⟨2005, 1, 1, 12, 0, 0, 0⟩
  bootCode := [0xCD, 0x19]
  fileSysInfo := ⟨0, 0, 0, 0, 0⟩
  sectorBuffer := fun _ => 0xF6
  hugeSectorBuffer := fun _ _ => 0xF6
  sectors := fun _ _ => 0xF6

theorem hardDisk_formattable : Formattable (planned hardDisk) 200000 where
  bytes := rfl
  cluster := rfl
  reserved := by decide
  fats := .inr rfl
  media := .inr (by decide)
  more := by decide
  below := by decide
  areas := by decide
  blocks := by decide
  type := by decide
  table := by decide
  clusters := by decide
  version := fun _ => rfl
  active := fun _ => by decide
  start := fun _ => ⟨rfl, rfl⟩
  info := fun _ => ⟨by decide, fun _ => by decide⟩
  chain := fun _ => by decide

theorem createFileSystem_mounts_hardDisk : ∃ e v, (createFileSystem 4000).run hardDisk = (.ok (), e) ∧
    fatMount ⟨200000, 512⟩ e.sectors quietEnv (.ok ()) 1000 = .ok v ∧ v.geo = (planned hardDisk).geometry 1000 ∧
    v.freeClusters = (planned hardDisk).fileSysInfo.totalClusters - (rootChain (planned hardDisk)).length ∧
    v.byte = image v.geo e.sectors ∧
    WellFormed (rootOnly v.geo (image v.geo e.sectors) (rootChain (planned hardDisk))) v :=
  createFileSystem_mounts hardDisk_formattable (by decide) 1000

end FreeDos32.Format
