import FreeDos32.Fat.Alloc
import FreeDos32.Fat.Media

namespace FreeDos32.Fat

open Prog

def entrySize : FatType → ℕ
  | .fat12 => 2
  | .fat16 => 2
  | .fat32 => 4

/-- The FAT type is chosen by the number of clusters. -/
def clusterLimit : FatType → ℕ
  | .fat12 => 4085
  | .fat16 => 65525
  | .fat32 => 0x0FFFFFF5

def eocStart : FatType → ℕ
  | .fat12 => 0x0FF8
  | .fat16 => 0xFFF8
  | .fat32 => 0x0FFFFFF8

/-- Each copy of the table is on the device and holds the entries of all clusters, at offsets of 32 bits. -/
structure TableOk (g : Geometry) (deviceEnd : ℕ) : Prop where
  sector : 9 ≤ g.logBytesPerSector
  table : entryOffset g.fatType (g.dataClusters + 1) + entrySize g.fatType ≤ g.fatSize * g.bytesPerSector
  device : g.fatStart + g.numFats * g.fatSize ≤ deviceEnd
  sectors : deviceEnd ≤ 2 ^ 32
  offset : entryOffset g.fatType (g.dataClusters + 1) < 2 ^ 32

/-- What `fat_mount` computes or checks, and a table that has room for its entries. -/
structure GeoOk (g : Geometry) (deviceEnd : ℕ) : Prop where
  sector : 9 ≤ g.logBytesPerSector
  active : g.activeFat < g.numFats
  reserved : 0 < g.fatStart
  table : entryOffset g.fatType (g.dataClusters + 1) + entrySize g.fatType ≤ g.fatSize * g.bytesPerSector
  root : g.rootSector = g.fatStart + g.numFats * g.fatSize
  data : g.dataStart = g.rootSector + g.rootSize
  device : g.dataStart + g.dataClusters * g.sectorsPerCluster ≤ deviceEnd
  sectors : deviceEnd ≤ 2 ^ 32
  clusters : g.dataClusters < clusterLimit g.fatType
  fixedRoot : g.fatType ≠ .fat32 → g.rootCluster = 0
  rootCluster : g.fatType = .fat32 → 2 ≤ g.rootCluster ∧ g.rootCluster ≤ g.dataClusters + 1

theorem floppyGeometry_geoOk : GeoOk floppyGeometry 10 where
  sector := by decide
  active := by decide
  reserved := by decide
  table := by decide
  root := by decide
  data := by decide
  device := by decide
  sectors := by decide
  clusters := by decide
  fixedRoot := fun _ => rfl
  rootCluster := fun h => by cases h

/-- The address of entry `n` in the `k`-th copy of the table. -/
def entryAddr (g : Geometry) (k n : ℕ) : ℕ :=
  (k * g.fatSize + g.fatStart) * g.bytesPerSector + entryOffset g.fatType n

/-- The entries of the `k`-th copy of the table are on the device, at offsets of 32 bits. -/
structure EntriesOk (g : Geometry) (deviceEnd k : ℕ) : Prop where
  sector : 9 ≤ g.logBytesPerSector
  device : entryAddr g k (g.dataClusters + 1) + entrySize g.fatType ≤ deviceEnd * g.bytesPerSector
  sectors : deviceEnd ≤ 2 ^ 32
  offset : entryOffset g.fatType (g.dataClusters + 1) < 2 ^ 32

def fatEntry (g : Geometry) (m : ℕ → UInt8) (k n : ℕ) : ℕ :=
  let a := entryAddr g k n
  match g.fatType with
  | .fat12 => unpack12 n (m a) (m (a + 1))
  | .fat16 =>
    let c := (m a).toNat + 256 * (m (a + 1)).toNat
    if c ≥ 0xFFF8 then fatEoc else c
  | .fat32 =>
    let c := get32 (fun i => m (a + i)) 0 % 0x10000000
    if c ≥ 0x0FFFFFF8 then fatEoc else c

def entryBytes (g : Geometry) (m : ℕ → UInt8) (k n value : ℕ) : List UInt8 :=
  let a := entryAddr g k n
  match g.fatType with
  | .fat12 =>
    let p := pack12 n (if value = fatEoc then 0x0FFF else value) (m a) (m (a + 1))
    [p.1, p.2]
  | .fat16 => le16 (if value = fatEoc then 0xFFFF else value)
  | .fat32 => le32 (get32 (fun i => m (a + i)) 0 / 0x10000000 * 0x10000000 + value % 0x10000000)

def setEntry (g : Geometry) (k n value : ℕ) (m : ℕ → UInt8) : ℕ → UInt8 :=
  overlay (entryAddr g k n) (entryBytes g m k n value) m

variable {g : Geometry} {e : ℕ} {m : ℕ → UInt8} {k k' n n' value : ℕ}

theorem length_entryBytes (g : Geometry) (m : ℕ → UInt8) (k n value : ℕ) :
    (entryBytes g m k n value).length = entrySize g.fatType := by
  unfold entryBytes
  cases g.fatType <;> simp [entrySize, le16, le32]

theorem entryOffset_mono (t : FatType) (h : n ≤ n') : entryOffset t n ≤ entryOffset t n' := by
  cases t <;> simp only [entryOffset] <;> omega

theorem overlay_of_lt {o : ℕ} {bytes : List UInt8} {d : ℕ → UInt8} {i : ℕ} (h : i < o) : overlay o bytes d i = d i :=
  if_neg (by omega)

theorem overlay_of_ge {o : ℕ} {bytes : List UInt8} {d : ℕ → UInt8} {i : ℕ} (h : o + bytes.length ≤ i) :
    overlay o bytes d i = d i := if_neg (by omega)

theorem overlay_at {o : ℕ} {bytes : List UInt8} {d : ℕ → UInt8} {i : ℕ} (h : i < bytes.length) :
    overlay o bytes d (o + i) = bytes.getD i 0 := by
  rw [overlay, if_pos (by omega), Nat.add_sub_cancel_left]

theorem overlay_overlay (o : ℕ) (bytes : List UInt8) (d : ℕ → UInt8) :
    overlay o bytes (overlay o bytes d) = overlay o bytes d := by
  funext i
  by_cases h : o ≤ i ∧ i < o + bytes.length
  · rw [overlay, overlay, if_pos h, if_pos h]
  · rw [overlay, if_neg h]

theorem overlay_cons (o : ℕ) (x : UInt8) (bytes : List UInt8) (d : ℕ → UInt8) :
    overlay (o + 1) bytes (overlay o [x] d) = overlay o (x :: bytes) d := by
  funext i
  by_cases hi : i < o + 1
  · rw [overlay_of_lt hi]
    by_cases ho : i < o
    · rw [overlay_of_lt ho, overlay_of_lt ho]
    · obtain rfl : i = o := by omega
      simp [overlay]
  · rw [overlay, overlay, overlay]
    simp only [List.length_cons, List.length_nil]
    by_cases hin : i < o + 1 + bytes.length
    · rw [if_pos (by omega), if_pos (by omega), show i - o = i - (o + 1) + 1 by omega, List.getD_cons_succ]
    · rw [if_neg (by omega), if_neg (by omega), if_neg (by omega)]

theorem GeoOk.tableOk (h : GeoOk g e) : TableOk g e where
  sector := h.sector
  table := h.table
  device := by
    have := h.root
    have := h.data
    have := h.device
    omega
  sectors := h.sectors
  offset := by
    have := h.clusters
    cases ht : g.fatType <;> rw [ht] at this <;> simp only [clusterLimit] at this <;> simp only [entryOffset] <;> omega

theorem TableOk.entry_bounds (h : TableOk g e) (hk : k < g.numFats) (hn : n ≤ g.dataClusters + 1) :
    (k * g.fatSize + g.fatStart) * g.bytesPerSector ≤ entryAddr g k n ∧
      entryAddr g k n + entrySize g.fatType ≤ ((k + 1) * g.fatSize + g.fatStart) * g.bytesPerSector ∧
      ((k + 1) * g.fatSize + g.fatStart) * g.bytesPerSector ≤
        (g.fatStart + g.numFats * g.fatSize) * g.bytesPerSector := by
  have hoff := entryOffset_mono g.fatType hn
  have htable := h.table
  have hcopy : (k + 1) * g.fatSize ≤ g.numFats * g.fatSize := Nat.mul_le_mul_right _ hk
  refine ⟨Nat.le_add_right _ _, ?_, ?_⟩
  · rw [entryAddr, show (k + 1) * g.fatSize + g.fatStart = k * g.fatSize + g.fatStart + g.fatSize by
      rw [Nat.add_mul]
      omega, Nat.add_mul _ g.fatSize]
    omega
  · apply Nat.mul_le_mul_right
    omega

theorem TableOk.entriesOk (h : TableOk g e) (hk : k < g.numFats) : EntriesOk g e k where
  sector := h.sector
  device := by
    obtain ⟨-, hcopy, hcopies⟩ := h.entry_bounds hk (Nat.le_refl _)
    have hend := Nat.mul_le_mul_right g.bytesPerSector h.device
    omega
  sectors := h.sectors
  offset := h.offset

theorem EntriesOk.entry_le (h : EntriesOk g e k) (hn : n ≤ g.dataClusters + 1) :
    entryAddr g k n + entrySize g.fatType ≤ e * g.bytesPerSector := by
  have hoff := entryOffset_mono g.fatType hn
  have hlast := h.device
  unfold entryAddr at hlast ⊢
  omega

theorem GeoOk.entry_bounds (h : GeoOk g e) (hk : k < g.numFats) (hn : n ≤ g.dataClusters + 1) :
    (k * g.fatSize + g.fatStart) * g.bytesPerSector ≤ entryAddr g k n ∧
      entryAddr g k n + entrySize g.fatType ≤ ((k + 1) * g.fatSize + g.fatStart) * g.bytesPerSector ∧
      ((k + 1) * g.fatSize + g.fatStart) * g.bytesPerSector ≤ g.rootSector * g.bytesPerSector := by
  rw [h.root]
  exact h.tableOk.entry_bounds hk hn

theorem toNat_low_nibble (x : UInt8) (y : ℕ) :
    ((x &&& 0x0F) ||| UInt8.ofNat (y * 16)).toNat = x.toNat % 16 + y % 16 * 16 := by
  have hand : x.toNat &&& 15 = x.toNat % 16 := Nat.and_two_pow_sub_one_eq_mod x.toNat 4
  have hy : y * 16 % 256 = (y % 16) <<< 4 := by
    rw [Nat.shiftLeft_eq]
    omega
  simp only [UInt8.toNat_or, UInt8.toNat_and, UInt8.toNat_ofNat', UInt8.reduceToNat]
  rw [hand, show (2 : ℕ) ^ 8 = 256 from rfl, hy, Nat.or_comm, ← Nat.shiftLeft_add_eq_or_of_lt (by omega),
    Nat.shiftLeft_eq]
  omega

theorem toNat_high_nibble (x : UInt8) (y : ℕ) (hy : y < 16) :
    ((x &&& 0xF0) ||| UInt8.ofNat y).toNat = x.toNat / 16 * 16 + y := by
  have hand : x.toNat &&& 240 = (x.toNat / 16) <<< 4 := by
    have hx := x.toNat_lt
    have h1 : x.toNat &&& 240 = ((x.toNat >>> 4) &&& 15) <<< 4 := by
      apply Nat.eq_of_testBit_eq
      intro i
      have h240 : (240 : ℕ) = 15 <<< 4 := rfl
      rw [h240]
      simp only [Nat.testBit_and, Nat.testBit_shiftLeft, Nat.testBit_shiftRight]
      by_cases hi : 4 ≤ i
      · simp [hi, Nat.add_sub_cancel' hi]
      · simp [hi]
    rw [h1, Nat.and_two_pow_sub_one_eq_mod _ 4, Nat.shiftRight_eq_div_pow, Nat.mod_eq_of_lt (by omega)]
  simp only [UInt8.toNat_or, UInt8.toNat_and, UInt8.toNat_ofNat', UInt8.reduceToNat]
  rw [hand, Nat.mod_eq_of_lt (by omega : y < 2 ^ 8), ← Nat.shiftLeft_add_eq_or_of_lt (by omega), Nat.shiftLeft_eq]

/-- Values that stand for the next cluster of a chain, for its end or for a free cluster. -/
def EntryValue (g : Geometry) (value : ℕ) : Prop := value ≤ g.dataClusters + 1 ∨ value = fatEoc

/-- Values that an entry can hold. -/
def EntryCode (t : FatType) (value : ℕ) : Prop := value < eocStart t ∨ value = fatEoc

theorem GeoOk.entryCode (h : GeoOk g e) (hv : EntryValue g value) : EntryCode g.fatType value := by
  have := h.clusters
  refine hv.imp_left fun hle => ?_
  cases ht : g.fatType <;> rw [ht] at this <;> simp only [clusterLimit] at this <;> simp only [eocStart] <;> omega

theorem get32_le32 (x : ℕ) (d : ℕ → UInt8) (hd : ∀ i < 4, d i = (le32 x).getD i 0) : get32 d 0 = x % 2 ^ 32 := by
  have h0 := hd 0 (by omega)
  have h1 := hd 1 (by omega)
  have h2 := hd 2 (by omega)
  have h3 := hd 3 (by omega)
  simp only [le32, le16, List.cons_append, List.nil_append, List.getD_cons_zero, List.getD_cons_succ] at h0 h1 h2 h3
  simp only [get32, get16, Nat.zero_add, h0, h1, h2, h3, UInt8.toNat_ofNat']
  omega

theorem fatEntry_setEntry (hv : EntryCode g.fatType value) (k n : ℕ) :
    fatEntry g (setEntry g k n value m) k n = value := by
  have hlen := length_entryBytes g m k n value
  have hat : ∀ i < entrySize g.fatType, setEntry g k n value m (entryAddr g k n + i) =
      (entryBytes g m k n value).getD i 0 := fun i hi => overlay_at (hlen ▸ hi)
  generalize setEntry g k n value m = m' at hat
  unfold fatEntry
  unfold entryBytes at hat
  unfold EntryCode fatEoc at hv
  unfold fatEoc at *
  cases ht : g.fatType <;> rw [ht] at hat hv <;> simp only [entrySize, eocStart] at hat hv ⊢
  case fat12 =>
    have h0 := hat 0 (by omega)
    have h1 := hat 1 (by omega)
    simp only [Nat.add_zero, List.getD_cons_zero, List.getD_cons_succ] at h0 h1
    rw [h0, h1]
    unfold unpack12 pack12 fatEoc
    by_cases hodd : n % 2 = 1
    · simp only [hodd, if_true, toNat_low_nibble, UInt8.toNat_ofNat']
      split <;> split <;> omega
    · simp only [hodd, if_false, UInt8.toNat_ofNat']
      rw [toNat_high_nibble _ _ (by omega)]
      split <;> split <;> omega
  case fat16 =>
    have h0 := hat 0 (by omega)
    have h1 := hat 1 (by omega)
    simp only [Nat.add_zero, le16, List.getD_cons_zero, List.getD_cons_succ] at h0 h1
    rw [h0, h1, UInt8.toNat_ofNat', UInt8.toNat_ofNat']
    split <;> split <;> omega
  case fat32 =>
    rw [get32_le32 _ (fun i => m' (entryAddr g k n + i)) hat]
    split <;> omega

theorem fatEntry_congr {m' : ℕ → UInt8}
    (hm : ∀ i < entrySize g.fatType, m' (entryAddr g k n + i) = m (entryAddr g k n + i)) :
    fatEntry g m' k n = fatEntry g m k n := by
  unfold fatEntry
  cases ht : g.fatType <;> rw [ht] at hm <;> simp only [entrySize] at hm ⊢
  case fat12 =>
    have h0 := hm 0 (by omega)
    rw [Nat.add_zero] at h0
    rw [h0, hm 1 (by omega)]
  case fat16 =>
    have h0 := hm 0 (by omega)
    rw [Nat.add_zero] at h0
    rw [h0, hm 1 (by omega)]
  case fat32 =>
    simp only [get32, get16, Nat.zero_add]
    rw [hm 0 (by omega), hm 1 (by omega), hm 2 (by omega), hm 3 (by omega)]

theorem fatEntry_setEntry_of_disjoint
    (h : entryAddr g k n + entrySize g.fatType ≤ entryAddr g k' n' ∨
      entryAddr g k' n' + entrySize g.fatType ≤ entryAddr g k n) :
    fatEntry g (setEntry g k n value m) k' n' = fatEntry g m k' n' := by
  have hlen := length_entryBytes g m k n value
  apply fatEntry_congr
  intro i hi
  rcases h with h | h
  · exact overlay_of_ge (by omega)
  · exact overlay_of_lt (by omega)

/-- An entry of 12 bits shares a byte with the next or the previous one, and leaves their half alone. -/
theorem fat12_neighbour (ht : g.fatType = .fat12) (hn : n' = n + 1 ∨ n = n' + 1) (k : ℕ) :
    fatEntry g (setEntry g k n value m) k n' = fatEntry g m k n' := by
  have hlen := length_entryBytes g m k n value
  rw [ht, entrySize] at hlen
  by_cases hparity : (n % 2 = 0 ∧ n' = n + 1) ∨ (n % 2 = 1 ∧ n = n' + 1)
  · have haddr : (n % 2 = 0 → entryAddr g k n' = entryAddr g k n + 1) ∧
        (n % 2 = 1 → entryAddr g k n = entryAddr g k n' + 1) := by
      simp only [entryAddr, ht, entryOffset]
      omega
    have h0 : setEntry g k n value m (entryAddr g k n) = (entryBytes g m k n value).getD 0 0 :=
      overlay_at (i := 0) (by omega)
    have h1 : setEntry g k n value m (entryAddr g k n + 1) = (entryBytes g m k n value).getD 1 0 :=
      overlay_at (i := 1) (by omega)
    have hother : ∀ a, a < entryAddr g k n ∨ entryAddr g k n + 2 ≤ a → setEntry g k n value m a = m a := by
      rintro a (ha | ha)
      · exact overlay_of_lt ha
      · exact overlay_of_ge (by omega)
    generalize setEntry g k n value m = m' at h0 h1 hother
    unfold entryBytes at h0 h1
    simp only [ht, List.getD_cons_zero, List.getD_cons_succ, pack12] at h0 h1
    simp only [fatEntry, ht, unpack12]
    rcases hparity with ⟨heven, hnext⟩ | ⟨hodd, hprev⟩
    · have hn' : n' % 2 = 1 := by omega
      have hne : ¬n % 2 = 1 := by omega
      rw [if_neg hne] at h1
      rw [haddr.1 heven, h1, hother _ (.inr (by omega))]
      simp only [hn', if_true]
      rw [toNat_high_nibble _ _ (by omega)]
      have : ∀ x y z : ℕ, z < 16 → (x / 16 * 16 + z + 256 * y) / 16 = (x + 256 * y) / 16 := by omega
      rw [this _ _ _ (by omega)]
    · have hn' : ¬n' % 2 = 1 := by omega
      rw [if_pos hodd] at h0
      rw [hother (entryAddr g k n') (.inl (by have := haddr.2 hodd; omega)), ← haddr.2 hodd, h0]
      simp only [hn', if_false]
      rw [toNat_low_nibble]
      have : ∀ x y z : ℕ, (x + 256 * (y % 16 + z * 16)) % 4096 = (x + 256 * y) % 4096 := by omega
      rw [this]
  · apply fatEntry_setEntry_of_disjoint
    simp only [entryAddr, ht, entryOffset, entrySize]
    omega

theorem fatEntry_setEntry_ne (h : TableOk g e) (hk : k < g.numFats) (hn : n ≤ g.dataClusters + 1) (hk' : k' < g.numFats)
    (hn' : n' ≤ g.dataClusters + 1) (hne : k' ≠ k ∨ n' ≠ n) :
    fatEntry g (setEntry g k n value m) k' n' = fatEntry g m k' n' := by
  by_cases hkk : k' = k
  · subst hkk
    have hnn : n' ≠ n := by simpa using hne
    cases ht : g.fatType
    case fat12 =>
      by_cases hnear : n' = n + 1 ∨ n = n' + 1
      · exact fat12_neighbour ht hnear k'
      · apply fatEntry_setEntry_of_disjoint
        simp only [entryAddr, ht, entryOffset, entrySize]
        omega
    all_goals
      apply fatEntry_setEntry_of_disjoint
      simp only [entryAddr, ht, entryOffset, entrySize]
      omega
  · have hb := h.entry_bounds hk hn
    have hb' := h.entry_bounds hk' hn'
    have hcopies : ∀ {i j : ℕ}, i < j →
        ((i + 1) * g.fatSize + g.fatStart) * g.bytesPerSector ≤ (j * g.fatSize + g.fatStart) * g.bytesPerSector := by
      intro i j hij
      have := Nat.mul_le_mul_right g.fatSize (Nat.succ_le_of_lt hij)
      exact Nat.mul_le_mul_right _ (by simpa using this)
    apply fatEntry_setEntry_of_disjoint
    rcases Nat.lt_or_gt_of_ne hkk with hlt | hlt
    · right
      have := hcopies hlt
      omega
    · left
      have := hcopies hlt
      omega

theorem setEntry_outside (h : GeoOk g e) (hk : k < g.numFats) (hn : n ≤ g.dataClusters + 1) {a : ℕ}
    (ha : g.rootSector * g.bytesPerSector ≤ a) : setEntry g k n value m a = m a := by
  have hb := h.entry_bounds hk hn
  have hlen := length_entryBytes g m k n value
  exact overlay_of_ge (by omega)

theorem fatEntry_outside {m' : ℕ → UInt8} (h : GeoOk g e) (hk : k < g.numFats) (hn : n ≤ g.dataClusters + 1)
    (hm : ∀ a < g.rootSector * g.bytesPerSector, m' a = m a) : fatEntry g m' k n = fatEntry g m k n := by
  have hb := h.entry_bounds hk hn
  exact fatEntry_congr fun i hi => hm _ (by omega)

section Access

variable {v : Volume} (hm : MediaOk v) (hg : EntriesOk v.geo v.cache.deviceEnd k) (hn : n ≤ v.geo.dataClusters + 1)

include hg hn in
theorem fatSeek_run {t : FatType} (ht : v.geo.fatType = t) :
    ∃ s o, (fatSeek t n k).run v = (.ok (s, o), v) ∧ o < v.geo.bytesPerSector ∧
      s * v.geo.bytesPerSector + o = entryAddr v.geo k n ∧ s < v.cache.deviceEnd ∧
      o = entryOffset t n % v.geo.bytesPerSector ∧
      (o + entrySize t ≤ v.geo.bytesPerSector ∨ s + 1 < v.cache.deviceEnd) := by
  have hpos := bytesPerSector_pos v.geo
  have hb := hg.entry_le hn
  have hmod := Nat.mod_lt (entryOffset t n) hpos
  have hdiv := Nat.div_add_mod (entryOffset t n) v.geo.bytesPerSector
  have haddr : (k * v.geo.fatSize + v.geo.fatStart + entryOffset t n / v.geo.bytesPerSector) * v.geo.bytesPerSector +
      entryOffset t n % v.geo.bytesPerSector = entryAddr v.geo k n := by
    rw [entryAddr, ht, Nat.add_mul _ (entryOffset t n / _), Nat.mul_comm (entryOffset t n / _)]
    omega
  have hoff : entryOffset t n % 2 ^ 32 = entryOffset t n := by
    have := entryOffset_mono v.geo.fatType hn
    have := hg.offset
    rw [ht] at *
    exact Nat.mod_eq_of_lt (by omega)
  have hlast : (v.geo.dataClusters + 1) % 2 ^ 32 = v.geo.dataClusters + 1 := by
    have := hg.offset
    apply Nat.mod_eq_of_lt
    cases ht : v.geo.fatType <;> rw [ht] at this <;> simp only [entryOffset] at this <;> omega
  generalize hs : k * v.geo.fatSize + v.geo.fatStart + entryOffset t n / v.geo.bytesPerSector = s at haddr
  generalize ho : entryOffset t n % v.geo.bytesPerSector = o at haddr hmod
  rw [ht] at hb
  have hsize : 0 < entrySize t := by cases t <;> decide
  have hbefore : ∀ x, x * v.geo.bytesPerSector < v.cache.deviceEnd * v.geo.bytesPerSector → x < v.cache.deviceEnd :=
    fun x hx => Nat.lt_of_mul_lt_mul_right hx
  have hlt := hbefore s (by omega)
  refine ⟨s, o, ?_, hmod, haddr, hlt, rfl, ?_⟩
  · have hs32 : s % 2 ^ 32 = s := Nat.mod_eq_of_lt (Nat.lt_of_lt_of_le hlt hg.sectors)
    simp only [fatSeek, run_bind_state, hlast, if_neg (Nat.not_lt.mpr hn), run_pure, hoff, hs, ho, hs32]
  · by_cases hspan : o + entrySize t ≤ v.geo.bytesPerSector
    · exact .inl hspan
    · refine .inr (hbefore (s + 1) ?_)
      rw [Nat.add_mul]
      omega

include hg in
theorem entry_in_sector {t : FatType} (ht : t ≠ .fat12) (n : ℕ) :
    entryOffset t n % v.geo.bytesPerSector + entrySize t ≤ v.geo.bytesPerSector := by
  have hbytes : 512 ∣ v.geo.bytesPerSector := Nat.pow_dvd_pow 2 hg.sector
  have hsize : entrySize t ∣ v.geo.bytesPerSector := by
    apply Nat.dvd_trans ?_ hbytes
    cases t <;> decide
  have hoff : entrySize t ∣ entryOffset t n := by
    cases t
    · exact absurd rfl ht
    · exact Nat.dvd_mul_right 2 n
    · exact Nat.dvd_mul_right 4 n
  have hmod : entrySize t ∣ entryOffset t n % v.geo.bytesPerSector := (Nat.dvd_mod_iff hsize).mpr hoff
  have hlt := Nat.mod_lt (entryOffset t n) (bytesPerSector_pos v.geo)
  obtain ⟨x, hx⟩ := hmod
  obtain ⟨y, hy⟩ := hsize
  rw [hx, hy] at hlt ⊢
  have := Nat.lt_of_mul_lt_mul_left hlt
  calc entrySize t * x + entrySize t = entrySize t * (x + 1) := by rw [Nat.mul_add, Nat.mul_one]
    _ ≤ entrySize t * y := Nat.mul_le_mul_left _ this

include hm hg hn in
theorem fat12Read_run (ht : v.geo.fatType = .fat12) :
    ∃ w, (fat12Read n k).run v = (.ok (fatEntry v.geo v.byte k n), w) ∧ Recached v.byte v w := by
  obtain ⟨s, o, hseek, ho, haddr, hs, -, hspan⟩ := fatSeek_run hg hn ht
  by_cases hin : o < v.geo.bytesPerSector - 1
  · obtain ⟨r, w, hrun, hw, hseat, -, -⟩ := fatReadbuf_run hm hs none (by simp)
    have hlsb := run_bufByte hseat hw.media (o := o) (hw.geo ▸ ho)
    have hmsb := run_bufByte hseat hw.media (o := o + 1) (by rw [hw.geo]; omega)
    rw [hw.geo, hw.byte, haddr, Nat.add_comm r.2] at hlsb
    rw [hw.geo, hw.byte, ← Nat.add_assoc (s * _), haddr, Nat.add_comm r.2, Nat.add_right_comm] at hmsb
    refine ⟨w, ?_, hw⟩
    rw [fat12Read, run_bind_ok hseek, run_bind_state, run_bind_ok hrun]
    dsimp only
    rw [if_pos hin, run_bind_ok hlsb, run_bind_ok hmsb]
    simp only [run_pure, fatEntry, ht]
  · have hs' : s + 1 < v.cache.deviceEnd := by
      rw [entrySize] at hspan
      omega
    obtain ⟨r, w, r', w', hrun, hrun', hw, hseat, hseat'⟩ := fatReadbuf_two hm hs hs'
    have hnext : (s + 1) * v.geo.bytesPerSector + 0 = entryAddr v.geo k n + 1 := by
      rw [Nat.add_mul]
      omega
    have hlsb := run_bufByte hseat hw.media (o := o) (hw.geo ▸ ho)
    have hmsb := run_bufByte hseat' hw.media (o := 0) (hw.geo ▸ bytesPerSector_pos v.geo)
    rw [hw.geo, hw.byte, haddr, Nat.add_comm r.2] at hlsb
    rw [hw.geo, hw.byte, hnext, Nat.add_zero] at hmsb
    refine ⟨w', ?_, hw⟩
    rw [fat12Read, run_bind_ok hseek, run_bind_state, run_bind_ok hrun]
    dsimp only
    rw [if_neg hin, run_bind_ok hrun', run_bind_ok hlsb, run_bind_ok hmsb]
    simp only [run_pure, fatEntry, ht]

include hm hg hn in
theorem fat16Read_run (ht : v.geo.fatType = .fat16) :
    ∃ w, (fat16Read n k).run v = (.ok (fatEntry v.geo v.byte k n), w) ∧ Recached v.byte v w := by
  obtain ⟨s, o, hseek, ho, haddr, hs, hoff, -⟩ := fatSeek_run hg hn ht
  have hin := entry_in_sector hg (t := .fat16) (by decide) n
  rw [← hoff, entrySize] at hin
  obtain ⟨r, w, hrun, hw, hseat, -, -⟩ := fatReadbuf_run hm hs none (by simp)
  have hlsb := run_bufByte hseat hw.media (o := o) (hw.geo ▸ ho)
  have hmsb := run_bufByte hseat hw.media (o := o + 1) (by rw [hw.geo]; omega)
  rw [hw.geo, hw.byte, haddr, Nat.add_comm r.2] at hlsb
  rw [hw.geo, hw.byte, ← Nat.add_assoc (s * _), haddr, Nat.add_comm r.2, Nat.add_right_comm] at hmsb
  refine ⟨w, ?_, hw⟩
  rw [fat16Read, run_bind_ok hseek, run_bind_ok hrun]
  dsimp only
  rw [run_bind_ok hlsb, run_bind_ok hmsb]
  simp only [run_pure, fatEntry, ht]

theorem get32_bytesAt (m : ℕ → UInt8) (a : ℕ) :
    get32 (Direntry.ofBytes (bytesAt m a 4)) 0 = get32 (fun i => m (a + i)) 0 := by
  simp [get32, get16, Direntry.ofBytes, bytesAt, List.range_succ]

include hm hg hn in
theorem fat32Read_run (ht : v.geo.fatType = .fat32) :
    ∃ w, (fat32Read n k).run v = (.ok (fatEntry v.geo v.byte k n), w) ∧ Recached v.byte v w := by
  obtain ⟨s, o, hseek, ho, haddr, hs, hoff, -⟩ := fatSeek_run hg hn ht
  have hin := entry_in_sector hg (t := .fat32) (by decide) n
  rw [← hoff, entrySize] at hin
  obtain ⟨r, w, hrun, hw, hseat, -, -⟩ := fatReadbuf_run hm hs none (by simp)
  have hbytes := run_bufBytes hseat hw.media (o := o) (n := 4) (hw.geo ▸ ho) (hw.geo ▸ hin)
  rw [hw.geo, hw.byte, haddr, Nat.add_comm r.2] at hbytes
  refine ⟨w, ?_, hw⟩
  rw [fat32Read, run_bind_ok hseek, run_bind_ok hrun]
  dsimp only
  rw [run_bind_ok hbytes]
  simp only [run_pure, fatEntry, ht, get32_bytesAt]

include hm hg hn in
theorem vFatRead_run :
    ∃ w, (vFatRead n k).run v = (.ok (fatEntry v.geo v.byte k n), w) ∧ Recached v.byte v w := by
  rw [vFatRead, run_bind_state]
  cases ht : v.geo.fatType with
  | fat12 => exact fat12Read_run hm hg hn ht
  | fat16 => exact fat16Read_run hm hg hn ht
  | fat32 => exact fat32Read_run hm hg hn ht

include hm hg hn in
theorem fat12Write_run (ht : v.geo.fatType = .fat12) (value : ℕ) :
    ∃ w, (fat12Write n k value).run v = (.ok (), w) ∧ Recached (setEntry v.geo k n value v.byte) v w := by
  obtain ⟨s, o, hseek, ho, haddr, hs, -, hspan⟩ := fatSeek_run hg hn ht
  by_cases hin : o < v.geo.bytesPerSector - 1
  · obtain ⟨r, w, hrun, hw, hseat, -, -⟩ := fatReadbuf_run hm hs none (by simp)
    have hlsb := run_bufByte hseat hw.media (o := o) (hw.geo ▸ ho)
    have hmsb := run_bufByte hseat hw.media (o := o + 1) (by rw [hw.geo]; omega)
    rw [hw.geo, hw.byte, haddr, Nat.add_comm r.2] at hlsb
    rw [hw.geo, hw.byte, ← Nat.add_assoc (s * _), haddr, Nat.add_comm r.2, Nat.add_right_comm] at hmsb
    obtain ⟨c, d, hwrite, hdirty, hre, -⟩ := bufWrite_dirty hseat hw.media (o := o) (hw.geo ▸ ho)
      (entryBytes v.geo v.byte k n value) (by rw [length_entryBytes, ht, entrySize, hw.geo]; omega) false
    rw [hw.geo, hw.byte, haddr] at hre
    refine ⟨w.setCache d, ?_, hw.trans hre⟩
    rw [Nat.add_comm r.2] at hwrite
    simp only [entryBytes, ht] at hwrite
    rw [fat12Write, run_bind_ok hseek, run_bind_state, run_bind_ok hrun]
    dsimp only
    rw [if_pos hin, run_bind_ok hlsb, run_bind_ok hmsb, run_bind_ok hwrite, hdirty _ rfl]
    rfl
  · have hs' : s + 1 < v.cache.deviceEnd := by
      rw [entrySize] at hspan
      omega
    obtain ⟨r, w, r', w', hrun, hrun', hw, hseat, hseat'⟩ := fatReadbuf_two hm hs hs'
    have hnext : (s + 1) * v.geo.bytesPerSector + 0 = entryAddr v.geo k n + 1 := by
      rw [Nat.add_mul]
      omega
    have hpos := bytesPerSector_pos v.geo
    have hlsb := run_bufByte hseat hw.media (o := o) (hw.geo ▸ ho)
    have hmsb := run_bufByte hseat' hw.media (o := 0) (hw.geo ▸ hpos)
    rw [hw.geo, hw.byte, haddr, Nat.add_comm r.2] at hlsb
    rw [hw.geo, hw.byte, hnext, Nat.add_zero] at hmsb
    let p := pack12 n (if value = fatEoc then 0x0FFF else value) (v.byte (entryAddr v.geo k n))
      (v.byte (entryAddr v.geo k n + 1))
    obtain ⟨t, hwrite, hre⟩ := bufWrite_two hseat hseat' hw.media 0 (o := o) (hw.geo ▸ ho) (hw.geo ▸ hpos)
      [p.1] [p.2] (by rw [hw.geo]; exact ho) (by rw [hw.geo]; exact hpos)
    rw [hw.geo, hw.byte, haddr, hnext] at hre
    rw [Nat.add_comm r.2, Nat.add_zero] at hwrite
    refine ⟨t, ?_, ?_⟩
    · rw [fat12Write, run_bind_ok hseek, run_bind_state, run_bind_ok hrun]
      dsimp only
      rw [if_neg hin, run_bind_ok hrun', run_bind_ok hlsb, run_bind_ok hmsb]
      exact hwrite
    · rw [overlay_cons] at hre
      have hbytes : entryBytes v.geo v.byte k n value = [p.1, p.2] := by simp only [entryBytes, ht, p]
      rw [setEntry, hbytes]
      exact hw.trans hre

include hm hg hn in
theorem fat16Write_run (ht : v.geo.fatType = .fat16) (value : ℕ) :
    ∃ w, (fat16Write n k value).run v = (.ok (), w) ∧ Recached (setEntry v.geo k n value v.byte) v w := by
  obtain ⟨s, o, hseek, ho, haddr, hs, hoff, -⟩ := fatSeek_run hg hn ht
  have hin := entry_in_sector hg (t := .fat16) (by decide) n
  rw [← hoff] at hin
  obtain ⟨r, w, hrun, hw, hseat, -, -⟩ := fatReadbuf_run hm hs none (by simp)
  obtain ⟨c, d, hwrite, hdirty, hre, -⟩ := bufWrite_dirty hseat hw.media (o := o) (hw.geo ▸ ho)
    (entryBytes v.geo v.byte k n value) (by rw [length_entryBytes, ht, hw.geo]; exact hin) false
  rw [hw.geo, hw.byte, haddr] at hre
  refine ⟨w.setCache d, ?_, hw.trans hre⟩
  rw [Nat.add_comm r.2] at hwrite
  simp only [entryBytes, ht] at hwrite
  rw [fat16Write, run_bind_ok hseek, run_bind_ok hrun]
  dsimp only
  rw [run_bind_ok hwrite, hdirty _ rfl]
  rfl

include hm hg hn in
theorem fat32Write_run (ht : v.geo.fatType = .fat32) (value : ℕ) :
    ∃ w, (fat32Write n k value).run v = (.ok (), w) ∧ Recached (setEntry v.geo k n value v.byte) v w := by
  obtain ⟨s, o, hseek, ho, haddr, hs, hoff, -⟩ := fatSeek_run hg hn ht
  have hin := entry_in_sector hg (t := .fat32) (by decide) n
  rw [← hoff] at hin
  obtain ⟨r, w, hrun, hw, hseat, -, -⟩ := fatReadbuf_run hm hs none (by simp)
  have hbytes := run_bufBytes hseat hw.media (o := o) (n := 4) (hw.geo ▸ ho) (hw.geo ▸ hin)
  obtain ⟨c, d, hwrite, hdirty, hre, -⟩ := bufWrite_dirty hseat hw.media (o := o) (hw.geo ▸ ho)
    (entryBytes v.geo v.byte k n value) (by rw [length_entryBytes, ht, hw.geo]; exact hin) false
  rw [hw.geo, hw.byte, haddr, Nat.add_comm r.2] at hbytes
  rw [hw.geo, hw.byte, haddr] at hre
  refine ⟨w.setCache d, ?_, hw.trans hre⟩
  rw [Nat.add_comm r.2] at hwrite
  simp only [entryBytes, ht] at hwrite
  rw [fat32Write, run_bind_ok hseek, run_bind_ok hrun]
  dsimp only
  rw [run_bind_ok hbytes, get32_bytesAt, run_bind_ok hwrite, hdirty _ rfl]
  rfl

include hm hg hn in
theorem vFatWrite_run (value : ℕ) :
    ∃ w, (vFatWrite n k value).run v = (.ok (), w) ∧ Recached (setEntry v.geo k n value v.byte) v w := by
  rw [vFatWrite, run_bind_state]
  cases ht : v.geo.fatType with
  | fat12 => exact fat12Write_run hm hg hn ht value
  | fat16 => exact fat16Write_run hm hg hn ht value
  | fat32 => exact fat32Write_run hm hg hn ht value

end Access

/-- The value at entry `n` of all copies of the table from the `k`-th on. -/
def setCopies (g : Geometry) (n value : ℕ) : ℕ → ℕ → (ℕ → UInt8) → ℕ → UInt8
  | _, 0, m => m
  | k, j + 1, m => setCopies g n value (k + 1) j (setEntry g k n value m)

theorem writeFatCopies_run {v : Volume} (hm : MediaOk v) (hg : GeoOk v.geo v.cache.deviceEnd)
    (hn : n ≤ v.geo.dataClusters + 1) (value : ℕ) {j : ℕ} (hk : k + j ≤ v.geo.numFats) :
    ∃ w, (writeFatCopies n value k j).run v = (.ok (), w) ∧ Recached (setCopies v.geo n value k j v.byte) v w := by
  induction j generalizing k v with
  | zero => exact ⟨v, rfl, .refl hm⟩
  | succ j ih =>
    obtain ⟨w, hrun, hw⟩ := vFatWrite_run hm (hg.tableOk.entriesOk (by omega : k < v.geo.numFats)) hn value
    have hg' : GeoOk w.geo w.cache.deviceEnd := by
      rw [hw.geo, hw.shape.deviceEnd]
      exact hg
    obtain ⟨t, hrun', ht⟩ := ih hw.media hg' (by rw [hw.geo]; exact hn) (k := k + 1) (by rw [hw.geo]; omega)
    refine ⟨t, ?_, ?_⟩
    · rw [writeFatCopies, run_bind_ok hrun, hrun']
    · rw [hw.geo, hw.byte] at ht
      exact hw.trans ht

def storeEntry (g : Geometry) (n value : ℕ) (m : ℕ → UInt8) : ℕ → UInt8 := setCopies g n value 0 g.numFats m

theorem writeFatEntry_run {v : Volume} (hm : MediaOk v) (hg : GeoOk v.geo v.cache.deviceEnd)
    (hn : n ≤ v.geo.dataClusters + 1) (value : ℕ) :
    ∃ w, (writeFatEntry n value).run v = (.ok (), w) ∧ Recached (storeEntry v.geo n value v.byte) v w :=
  writeFatCopies_run hm hg hn value (by omega)

theorem readFatEntry_on {v : Volume} (hm : MediaOk v) (hg : EntriesOk v.geo v.cache.deviceEnd v.geo.activeFat)
    (hn : n ≤ v.geo.dataClusters + 1) :
    ∃ w, (readFatEntry n).run v = (.ok (fatEntry v.geo v.byte v.geo.activeFat n), w) ∧ Recached v.byte v w := by
  rw [readFatEntry, run_bind_state]
  exact vFatRead_run hm hg hn

theorem readFatEntry_run {v : Volume} (hm : MediaOk v) (hg : GeoOk v.geo v.cache.deviceEnd)
    (hn : n ≤ v.geo.dataClusters + 1) :
    ∃ w, (readFatEntry n).run v = (.ok (fatEntry v.geo v.byte v.geo.activeFat n), w) ∧ Recached v.byte v w :=
  readFatEntry_on hm (hg.tableOk.entriesOk hg.active) hn

theorem readFatEntry_past {v : Volume} (hn : v.geo.dataClusters + 1 < n) :
    (readFatEntry n).run v = (.error .enxio, v) := by
  have hseek : ∀ t, (fatSeek t n v.geo.activeFat).run v = (.error .enxio, v) := fun t => by
    have hpast : n > (v.geo.dataClusters + 1) % 2 ^ 32 := Nat.lt_of_le_of_lt (Nat.mod_le _ _) hn
    simp only [fatSeek, run_bind_state, if_pos hpast, run_fail]
  simp only [readFatEntry, run_bind_state, vFatRead]
  cases v.geo.fatType
  · exact run_bind_error (hseek _)
  · exact run_bind_error (hseek _)
  · exact run_bind_error (hseek _)

theorem setCopies_outside (h : GeoOk g e) (hn : n ≤ g.dataClusters + 1) {a : ℕ}
    (ha : g.rootSector * g.bytesPerSector ≤ a) {j : ℕ} (hk : k + j ≤ g.numFats) :
    setCopies g n value k j m a = m a := by
  induction j generalizing k m with
  | zero => rfl
  | succ j ih =>
    rw [setCopies, ih (by omega), setEntry_outside h (by omega) hn ha]

theorem fatEntry_setCopies (h : GeoOk g e) (hv : EntryValue g value) (hn : n ≤ g.dataClusters + 1)
    (hn' : n' ≤ g.dataClusters + 1) (hk' : k' < g.numFats) {j : ℕ} (hk : k + j ≤ g.numFats) :
    fatEntry g (setCopies g n value k j m) k' n' =
      if n' = n ∧ k ≤ k' ∧ k' < k + j then value else fatEntry g m k' n' := by
  induction j generalizing k m with
  | zero =>
    rw [if_neg (by omega)]
    rfl
  | succ j ih =>
    rw [setCopies, ih (by omega)]
    by_cases hkk : k' = k ∧ n' = n
    · obtain ⟨rfl, rfl⟩ := hkk
      rw [if_neg (by omega), if_pos (by omega), fatEntry_setEntry (h.entryCode hv)]
    · rw [fatEntry_setEntry_ne h.tableOk (by omega) hn hk' hn' (by omega)]
      exact if_congr (by omega) rfl rfl

theorem fatEntry_storeEntry (h : GeoOk g e) (hv : EntryValue g value) (hn : n ≤ g.dataClusters + 1)
    (hn' : n' ≤ g.dataClusters + 1) (hk' : k' < g.numFats) :
    fatEntry g (storeEntry g n value m) k' n' = if n' = n then value else fatEntry g m k' n' := by
  rw [storeEntry, fatEntry_setCopies h hv hn hn' hk' (by omega)]
  exact if_congr (by omega) rfl rfl

theorem storeEntry_outside (h : GeoOk g e) (hn : n ≤ g.dataClusters + 1) {a : ℕ}
    (ha : g.rootSector * g.bytesPerSector ≤ a) : storeEntry g n value m a = m a :=
  setCopies_outside h hn ha (by omega)

theorem firstCluster_setFirstCluster (de : Direntry) {x : ℕ} (hx : x < 2 ^ 32) : (de.setFirstCluster x).firstCluster = x := by
  simp only [Direntry.setFirstCluster, Direntry.firstCluster, get16, overlay, le16, List.length_cons, List.length_nil]
  simp
  omega

theorem setFirstCluster_other (de : Direntry) (x : ℕ) {i : ℕ} (hi : i < 20) : (de.setFirstCluster x) i = de i := by
  rw [Direntry.setFirstCluster, overlay_of_lt (by omega), overlay_of_lt hi]

theorem setFirstCluster_above (de : Direntry) (x : ℕ) {i : ℕ} (hi : 28 ≤ i) : (de.setFirstCluster x) i = de i := by
  rw [Direntry.setFirstCluster, overlay_of_ge (by simpa [le16] using hi), overlay_of_ge (by simp [le16]; omega)]

end FreeDos32.Fat
