import FreeDos32.Fat.Fsinfo
import FreeDos32.Fat.Reading

namespace FreeDos32.Fat

open Prog

/-- The bytes of a device in one row. -/
def image (g : Geometry) (device : ℕ → SectorData) (a : ℕ) : UInt8 :=
  device (a / g.bytesPerSector) (a % g.bytesPerSector)

variable {G : Layout} {g : Geometry} {device : ℕ → SectorData} {bmi : BlockMediumInfo} {env : Env} {loopBound : ℕ}
  {u v w : Volume} {r : ℕ × ℕ} {s o n k free : ℕ}

theorem image_sector (s : ℕ) (ho : o < g.bytesPerSector) : image g device (s * g.bytesPerSector + o) = device s o := by
  rw [image, sector_div _ _ ho, sector_mod _ _ ho]

theorem freshVolume_byte (geo : Geometry) (device : ℕ → SectorData) (deviceEnd free : ℕ) :
    (freshVolume geo env device deviceEnd free).byte = image geo device := rfl

/-- A device on which the files and directories are laid out as `G` says, while nothing is open. -/
structure ImageOk (G : Layout) (g : Geometry) (m : ℕ → UInt8) : Prop where
  settled : G.Settled
  entries : Entries G g m
  root : (G.chain 0).headD 0 = g.rootCluster
  files : ∀ p ∈ G.owners, p ≠ 0 → (slotAt m p).firstCluster = (G.chain p).headD 0 ∧
    ((slotAt m p).isDir = false → 0 < (slotAt m p).fileSize → (slotAt m p).firstCluster ≠ 0)
  names : G.named → ∀ p ∈ G.owners, p ≠ 0 → ∀ i < 11, m (p + i) = G.name p i
  chains : Chains (table g m) fatEoc g.InRange G.owners G.chain
  reserved : ∀ k < g.numFats, ∀ n ≤ 1, fatEntry g m k n = G.reserved k n

/-- The FSInfo sector of a FAT32 volume; its count is right or is known to be wrong. -/
structure FsinfoOk (boot : SectorData) (g : Geometry) (device : ℕ → SectorData) (blocksCount : ℕ) : Prop where
  version : Bpb.fsVersion boot = 0
  inside : Bpb.fsinfoSector boot < blocksCount
  sig1 : get32 (device (Bpb.fsinfoSector boot)) 0 = fatFsiSig1
  sig2 : get32 (device (Bpb.fsinfoSector boot)) 484 = fatFsiSig2
  sig3 : get32 (device (Bpb.fsinfoSector boot)) 508 = fatFsiSig3
  free : get32 (device (Bpb.fsinfoSector boot)) 488 = zeros g (image g device) ∨
    get32 (device (Bpb.fsinfoSector boot)) 488 = fatFsiNa ∨
    g.dataClusters + 1 < get32 (device (Bpb.fsinfoSector boot)) 488

section Scan

/-- The entries from `k` on that are zero. -/
def zerosFrom (g : Geometry) (m : ℕ → UInt8) (k n : ℕ) : ℕ := (List.range n).countP fun i => table g m (i + k) == 0

theorem zerosFrom_succ (g : Geometry) (m : ℕ → UInt8) (k n : ℕ) :
    zerosFrom g m k (n + 1) = (if table g m k = 0 then 1 else 0) + zerosFrom g m (k + 1) n := by
  rw [zerosFrom, zerosFrom, List.range_succ_eq_map, List.countP_cons, List.countP_map, Nat.add_comm]
  congr 1
  · simp
  · apply List.countP_congr
    intro i _
    simp [Nat.add_comm, Nat.add_left_comm]

theorem scanLoop_run (hm : MediaOk v) (hg : GeoOk v.geo v.cache.deviceEnd) (hk : k + n ≤ v.geo.dataClusters + 2) :
    ∃ w, (scanLoop k n free).run v = (.ok (free + zerosFrom v.geo v.byte k n), w) ∧ Recached v.byte v w := by
  induction n generalizing k free v with
  | zero => exact ⟨v, rfl, .refl hm⟩
  | succ n ih =>
    obtain ⟨x, hread, hx⟩ := vFatRead_run (n := k) hm (hg.tableOk.entriesOk hg.active) (by omega)
    have hshape := hx.shape.deviceEnd
    obtain ⟨w, hrun, hw⟩ := @ih x (k + 1) (if table v.geo v.byte k = 0 then free + 1 else free)
      hx.media (by rw [hx.geo, hshape]; exact hg) (by rw [hx.geo]; omega)
    rw [hx.geo, hx.byte] at hrun
    refine ⟨w, ?_, ?_⟩
    · rw [scanLoop, run_bind_state, run_bind_ok hread]
      refine hrun.trans ?_
      rw [zerosFrom_succ]
      split <;> simp [Nat.add_assoc]
    · have hall := hx.trans hw
      rwa [hx.byte] at hall

theorem scanFreeClusters_run (hm : MediaOk v) (hg : GeoOk v.geo v.cache.deviceEnd) :
    ∃ w, scanFreeClusters.run v = (.ok (zeros v.geo v.byte), w) ∧ Recached v.byte v w := by
  have hlt := hg.dataClusters_lt
  have hcount : (v.geo.dataClusters + 2) % 2 ^ 32 - 2 = v.geo.dataClusters := by omega
  obtain ⟨w, hrun, hw⟩ := @scanLoop_run v v.geo.dataClusters 2 0 hm hg (by omega)
  have hle : zerosFrom v.geo v.byte 2 v.geo.dataClusters ≤ v.geo.dataClusters :=
    Nat.le_trans List.countP_le_length (Nat.le_of_eq List.length_range)
  refine ⟨w, ?_, hw⟩
  rw [scanFreeClusters, run_bind_state, hcount, run_bind_ok hrun, Nat.zero_add]
  exact congrArg (fun x => Prog.run x w) (if_pos (by omega))

end Scan

section Fat32

theorem bufDword_run (h : Seat s r v) (hm : MediaOk v) (ho : o + 4 ≤ v.geo.bytesPerSector) :
    (bufDword r.1 (r.2 + o)).run v = (.ok (get32 (fun i => v.byte (s * v.geo.bytesPerSector + o + i)) 0), v) := by
  have hbytes := run_bufBytes h hm (o := o) (n := 4) (by omega) ho
  rw [bufDword, run_bind_ok hbytes, get32_bytesAt]
  rfl

theorem get32_image (s : ℕ) (ho : o + 4 ≤ g.bytesPerSector) :
    get32 (fun i => image g device (s * g.bytesPerSector + o + i)) 0 = get32 (device s) o := by
  have hbyte : ∀ i < 4, image g device (s * g.bytesPerSector + o + i) = device s (o + i) := by
    intro i hi
    rw [Nat.add_assoc, image_sector s (by omega)]
  simp only [get32, get16, hbyte 0 (by decide), hbyte (0 + 1) (by decide), hbyte (0 + 2) (by decide),
    hbyte (0 + 2 + 1) (by decide)]
  rfl

/-- A volume as `fat_mount` leaves it. -/
def mountedVolume (g : Geometry) (env : Env) (device : ℕ → SectorData) (deviceEnd free : ℕ) (c : Cache SectorData)
    (next : ℕ) : Volume :=
  { freshVolume g env device deviceEnd free with cache := c, nextFree := next }

/-- The buffers show the device. -/
def Buffered (g : Geometry) (env : Env) (device : ℕ → SectorData) (deviceEnd : ℕ) (c : Cache SectorData) : Prop :=
  Recached (image g device) (freshVolume g env device deviceEnd 0) ((freshVolume g env device deviceEnd 0).setCache c)

theorem bytesPerSector_mounted (boot : SectorData) (g : Geometry) :
    (mountedGeometry boot g).bytesPerSector = g.bytesPerSector := by
  rw [mountedGeometry_eq]
  rfl

theorem image_mounted (boot : SectorData) (g : Geometry) (device : ℕ → SectorData) :
    image (mountedGeometry boot g) device = image g device := by
  funext a
  rw [image, image, bytesPerSector_mounted]

variable {boot : SectorData} {deviceEnd : ℕ}

theorem mountFat32_run (hlog : 9 ≤ g.logBytesPerSector) (ht : g.fatType = .fat32)
    (hi : FsinfoOk boot (mountedGeometry boot g) device deviceEnd) (free : ℕ) :
    ∃ c next, (mountFat32 boot).run (freshVolume g env device deviceEnd free) =
      (.ok (), mountedVolume (mountedGeometry boot g) env device deviceEnd
        (get32 (device (Bpb.fsinfoSector boot)) 488) c next) ∧
      Buffered (mountedGeometry boot g) env device deviceEnd c := by
  have hm := freshVolume_mediaOk g env device deviceEnd free
  obtain ⟨r, w, hrun, hw, hseat, -, -⟩ := fatReadbuf_run hm hi.inside none (by simp)
  have hgeo : w.geo = g := hw.geo
  have hbyte : w.byte = image g device := hw.byte
  have hsize : 512 ≤ g.bytesPerSector := Nat.pow_le_pow_right (Nat.succ_pos 1) hlog
  have hdword : ∀ o, o + 4 ≤ 512 → (bufDword r.1 (r.2 + o)).run w = (.ok (get32 (device (Bpb.fsinfoSector boot)) o), w) := by
    intro o ho
    have hread := bufDword_run hseat hw.media (o := o) (by rw [hgeo]; omega)
    rw [hgeo, hbyte, get32_image _ (by omega)] at hread
    exact hread
  have hfirst := hdword 0 (by decide)
  rw [Nat.add_zero] at hfirst
  have heq := hw.eq
  have hmounted : mountedGeometry boot g =
      { g with activeFat := Bpb.extFlags boot % 16, rootCluster := Bpb.rootCluster boot } := if_pos ht
  refine ⟨w.cache, get32 (device (Bpb.fsinfoSector boot)) 492, ?_, ?_⟩
  · rw [mountFat32, if_neg (by simp [hi.version]), run_bind_ok hrun]
    dsimp only
    rw [run_bind_ok hfirst, run_bind_ok (hdword 484 (by decide)), run_bind_ok (hdword 508 (by decide)),
      if_neg (by simp [hi.sig1, hi.sig2, hi.sig3]), run_bind_ok (hdword 488 (by decide)),
      run_bind_ok (hdword 492 (by decide)), hmounted, heq]
    rfl
  · have hlog : w.cache.logBytesPerSector = g.logBytesPerSector := hw.media.log.trans (congrArg _ hgeo)
    rw [Buffered, image_mounted, hmounted]
    refine ⟨⟨hw.media.cache, hlog, hw.media.two, hw.media.perBuffer, hw.media.room⟩, rfl, hw.shape, ?_⟩
    rw [← hbyte, heq]
    rfl

end Fat32

section Mounted

variable {boot : SectorData} {deviceEnd : ℕ}

theorem scan_run {c : Cache SectorData} {next : ℕ} (hg : GeoOk g deviceEnd) (hc : Buffered g env device deviceEnd c) :
    ∃ c', (scanFreeClusters >>= fun k => Prog.update fun v : Volume => { v with freeClusters := k }).run
        (mountedVolume g env device deviceEnd free c next) =
      (.ok (), mountedVolume g env device deviceEnd (zeros g (image g device)) c' next) ∧
      Buffered g env device deviceEnd c' := by
  have hm : MediaOk (mountedVolume g env device deviceEnd free c next) := hc.media.of_same rfl rfl
  have hbyte : (mountedVolume g env device deviceEnd free c next).byte = image g device := hc.byte
  have hend : c.deviceEnd = deviceEnd := hc.shape.deviceEnd
  obtain ⟨w, hrun, hw⟩ := scanFreeClusters_run hm (show GeoOk g c.deviceEnd from hend ▸ hg)
  rw [hbyte] at hrun hw
  have heq := hw.eq
  have hgeo : w.geo = g := hw.geo
  refine ⟨w.cache, ?_, hw.media.of_same rfl hgeo.symm, rfl, hc.shape.trans hw.shape, ?_⟩
  · rw [run_bind_ok hrun, heq]
    rfl
  · rw [← hw.byte, heq]
    rfl

/-- A count that is wrong is found again. -/
theorem mountCount_run {c : Cache SectorData} (hg : GeoOk g deviceEnd) (hc : Buffered g env device deviceEnd c)
    (hfree : free = zeros g (image g device) ∨ free = fatFsiNa ∨ g.dataClusters + 1 < free) :
    ∃ c', (Prog.when (free = fatFsiNa ∨ free > (g.dataClusters + 1) % 2 ^ 32)
        (scanFreeClusters >>= fun k => Prog.update fun v : Volume => { v with freeClusters := k })).run
        (mountedVolume g env device deviceEnd free c n) =
      (.ok (), mountedVolume g env device deviceEnd (zeros g (image g device)) c' n) ∧
      Buffered g env device deviceEnd c' := by
  have hlt := hg.dataClusters_lt
  have hle := zeros_le g (image g device)
  have hna : fatFsiNa = 0xFFFFFFFF := rfl
  rw [Nat.mod_eq_of_lt (by omega)]
  by_cases hwrong : free = fatFsiNa ∨ free > g.dataClusters + 1
  · rw [when_pos hwrong]
    exact scan_run hg hc
  · obtain rfl : free = zeros g (image g device) := by tauto
    rw [when_neg hwrong]
    exact ⟨c, rfl, hc⟩

theorem mountRest_run (hlog : 9 ≤ g.logBytesPerSector) (hg : GeoOk (mountedGeometry boot g) deviceEnd)
    (hi : g.fatType = .fat32 → FsinfoOk boot (mountedGeometry boot g) device deviceEnd) :
    ∃ c next, (mountRest boot (.ok ())).run (freshVolume g env device deviceEnd fatFsiNa) =
      (.ok (), mountedVolume (mountedGeometry boot g) env device deviceEnd
        (zeros (mountedGeometry boot g) (image (mountedGeometry boot g) device)) c next) ∧
      Buffered (mountedGeometry boot g) env device deviceEnd c := by
  rw [mountRest, run_bind_state]
  by_cases ht : g.fatType = .fat32
  · obtain ⟨c, next, hrun, hc⟩ := mountFat32_run hlog ht (hi ht) fatFsiNa
    obtain ⟨c', hcount, hc'⟩ := mountCount_run (n := next) hg hc (hi ht).free
    refine ⟨c', next, ?_, hc'⟩
    rw [when_pos (show (freshVolume g env device deviceEnd fatFsiNa).geo.fatType = .fat32 from ht), run_bind_ok hrun,
      run_bind_state]
    exact run_bind_ok hcount
  · have hsame : mountedGeometry boot g = g := if_neg ht
    rw [hsame] at hg ⊢
    have hc : Buffered g env device deviceEnd (freshVolume g env device deviceEnd 0).cache :=
      .refl (freshVolume_mediaOk g env device deviceEnd 0)
    obtain ⟨c', hcount, hc'⟩ := mountCount_run (n := fatFsiNa) hg hc (.inr (.inl rfl))
    refine ⟨c', fatFsiNa, ?_, hc'⟩
    rw [when_neg (show ¬(freshVolume g env device deviceEnd fatFsiNa).geo.fatType = .fat32 from ht), run_bind_pure,
      run_bind_state]
    exact run_bind_ok hcount

theorem fatMount_run (hgeo : mountGeometry (device 0) bmi loopBound = .ok g)
    (hg : GeoOk (mountedGeometry (device 0) g) bmi.blocksCount)
    (hi : g.fatType = .fat32 → FsinfoOk (device 0) (mountedGeometry (device 0) g) device bmi.blocksCount) :
    ∃ c next, fatMount bmi device env (.ok ()) loopBound = .ok (mountedVolume (mountedGeometry (device 0) g) env device
        bmi.blocksCount (zeros (mountedGeometry (device 0) g) (image (mountedGeometry (device 0) g) device)) c next) ∧
      Buffered (mountedGeometry (device 0) g) env device bmi.blocksCount c := by
  have hlog : 9 ≤ g.logBytesPerSector := by
    have hsector := hg.sector
    rwa [mountedGeometry_eq] at hsector
  obtain ⟨c, next, hrun, hc⟩ := mountRest_run hlog hg hi
  refine ⟨c, next, ?_, hc⟩
  rw [fatMount, hgeo]
  dsimp only
  rw [hrun]

end Mounted

section Order

variable {deviceEnd next : ℕ} {c : Cache SectorData}

/-- A volume on which nothing is open yet is in order when its device is. -/
theorem mountedVolume_wellFormed (hg : GeoOk g deviceEnd) (hm : ImageOk G g (image g device))
    (hc : Buffered g env device deviceEnd c) :
    WellFormed G (mountedVolume g env device deviceEnd (zeros g (image g device)) c next) where
  sound := ⟨hc.media.of_same rfl rfl, show GeoOk g c.deviceEnd from hc.shape.deviceEnd.symm ▸ hg⟩
  order := by
    have hbyte : (mountedVolume g env device deviceEnd (zeros g (image g device)) c next).byte = image g device := hc.byte
    rw [hbyte]
    refine ⟨⟨hm.entries, ⟨?_, ?_, hm.root, ?_⟩, ⟨?_, ?_, ⟨rfl, rfl, show hasAttr fatADir fatADir = true by decide, rfl⟩, ?_⟩, fun hn => ⟨?_, ?_, ?_⟩⟩,
      hm.chains, hm.reserved, rfl⟩
    · rintro f ⟨⟩
    · rintro f ⟨⟩
    · intro p hp hp0 hgone _
      exact hm.files p hp hp0
    · rintro d ⟨⟩
    · rintro d ⟨⟩
    · rintro c ⟨⟩
    · intro p hp hp0 hgone
      exact hm.names hn p hp hp0
    · rintro f ⟨⟩
    · rw [hm.settled.stale]
      rintro f ⟨⟩
  cursors := by rintro c ⟨⟩
  settled := hm.settled
  full := by rintro f ⟨⟩

end Order

section BootSector

variable {boot : SectorData} {blockBytes logBytes logSectors : ℕ}

/-- All that has to be right in a boot sector besides what `fat_mount` checks. -/
structure BootOk (boot : SectorData) (bmi : BlockMediumInfo) : Prop extends BpbOk boot bmi.blockBytes where
  reserved : 0 < Bpb.reservedSectors boot
  areas : Bpb.metaSectors boot < 2 ^ 32
  clusters : Bpb.clusterCount boot < 0x0FFFFFF5
  blocks : bmi.blocksCount < 2 ^ 32

theorem mountGeometry_sectors (h : mountGeometry boot bmi loopBound = .ok g) :
    Bpb.numSectors boot ≤ bmi.blocksCount % 2 ^ 32 ∧ 9 ≤ g.logBytesPerSector := by
  unfold mountGeometry at h
  split at h
  · cases h
  split at h
  · cases h
  split at h
  · cases h
  next hsectors =>
  split at h
  · next logBytes logSectors hb hs =>
    split at h
    · cases h
    · obtain rfl := Except.ok.inj h
      refine ⟨by omega, ?_⟩
      change 9 ≤ logBytes
      unfold logBytesPerSector? at hb
      grind
  · cases h

theorem mountGeometry_geoOk (h : mountGeometry boot bmi loopBound = .ok g) (hok : BootOk boot bmi) :
    GeoOk (mountedGeometry boot g) bmi.blocksCount := by
  obtain ⟨hsectors, hlog⟩ := mountGeometry_sectors h
  obtain ⟨logBytes, logSectors, rfl, hb, hs⟩ := mountGeometry_ok h
  have hfits := hok.fits
  have hmeta := hok.areas
  have hblocks := hok.blocks
  rw [Nat.mod_eq_of_lt hok.areas] at hfits
  rw [Nat.mod_eq_of_lt hblocks] at hsectors
  have hstart := geometry_dataStart logSectors loopBound hb
  have hcount := geometry_dataClusters logSectors loopBound hb hs hok.fits
  rw [Nat.mod_eq_of_lt hok.areas] at hstart
  have hroot : Bpb.reservedSectors boot + Bpb.numFats boot * Bpb.fatSize boot < 2 ^ 32 := by
    rw [Bpb.metaSectors] at hmeta
    exact Nat.lt_of_le_of_lt (Nat.le_add_right _ _) hmeta
  have hmul : Bpb.clusterCount boot * 2 ^ logSectors ≤ Bpb.numSectors boot - Bpb.metaSectors boot := by
    rw [← hs, Bpb.clusterCount, Nat.mod_eq_of_lt hok.areas]
    exact Nat.div_mul_le_self _ _
  have htype : fatTypeOf (Bpb.clusterCount boot) = .fat32 → 65525 ≤ Bpb.clusterCount boot := fatTypeOf_fat32.mp
  rw [mountedGeometry_eq]
  generalize hgeo : Bpb.geometry boot logBytes logSectors loopBound = g at *
  have hft : g.fatType = fatTypeOf (Bpb.clusterCount boot) := by
    rw [← hcount, ← hgeo]
    rfl
  have hfields : g.numFats = Bpb.numFats boot ∧ g.fatSize = Bpb.fatSize boot ∧ g.fatStart = Bpb.reservedSectors boot ∧
      g.bytesPerSector = Bpb.bytesPerSector boot ∧ g.activeFat = 0 ∧ g.rootCluster = 0 ∧ g.sectorsPerCluster = 2 ^ logSectors ∧
      g.rootSector = Bpb.reservedSectors boot + Bpb.numFats boot * Bpb.fatSize boot ∧
      g.dataStart = (g.rootSector + g.rootSize) % 2 ^ 32 := by
    rw [← hgeo]
    exact ⟨rfl, rfl, rfl, hb.symm, rfl, rfl, rfl, Nat.mod_eq_of_lt hroot, rfl⟩
  obtain ⟨hfats, hsize, hfs, hbytes, hactive, hrc, hspc, hrs, hds⟩ := hfields
  have hrsize : g.rootSize = (Bpb.rootEntries boot * 32 + (Bpb.bytesPerSector boot - 1)) / Bpb.bytesPerSector boot := by
    rw [← hgeo, hb]
    rfl
  constructor
  case sector => exact hlog
  case active =>
    change (if g.fatType = .fat32 then Bpb.extFlags boot % 16 else g.activeFat) < g.numFats
    rw [hfats]
    split
    · next ht => exact hok.activeFat (htype (hft ▸ ht))
    · rw [hactive]
      exact Nat.pos_of_ne_zero hok.fats
  case reserved => exact hfs ▸ hok.reserved
  case table =>
    change entryOffset g.fatType (g.dataClusters + 1) + entrySize g.fatType ≤ g.fatSize * g.bytesPerSector
    rw [hft, hcount, hsize, hbytes]
    exact hok.table
  case root =>
    change g.rootSector = g.fatStart + g.numFats * g.fatSize
    rw [hrs, hfs, hfats, hsize]
  case data =>
    change g.dataStart = g.rootSector + g.rootSize
    rw [hstart, hrs, hrsize, Bpb.metaSectors]
  case device =>
    change g.dataStart + g.dataClusters * g.sectorsPerCluster ≤ bmi.blocksCount
    rw [hstart, hcount, hspc]
    omega
  case sectors => exact Nat.le_of_lt hblocks
  case clusters =>
    change g.dataClusters < clusterLimit g.fatType
    have hlimit := hok.clusters
    rw [hft, hcount, fatTypeOf]
    split
    · assumption
    split
    · assumption
    · exact hlimit
  case fixedRoot =>
    intro ht
    change (if g.fatType = .fat32 then Bpb.rootCluster boot else g.rootCluster) = 0
    rw [if_neg ht, hrc]
  case rootCluster =>
    intro ht
    change 2 ≤ (if g.fatType = .fat32 then Bpb.rootCluster boot else g.rootCluster) ∧
      (if g.fatType = .fat32 then Bpb.rootCluster boot else g.rootCluster) ≤ g.dataClusters + 1
    rw [if_pos ht, hcount]
    exact hok.rootCluster (htype (hft ▸ ht))

end BootSector

section RootOnly

variable {m : ℕ → UInt8} {l : List ℕ}

/-- A volume with nothing on it but its root directory. -/
def rootOnly (g : Geometry) (m : ℕ → UInt8) (l : List ℕ) : Layout where
  owners := {0}
  chain := fun _ => l
  named := True
  name := fun _ _ => 0
  fresh := True
  reserved := fatEntry g m
  loose := ∅
  gone := ∅
  goneFiles := ∅
  goneNodes := ∅
  stale := ∅

theorem rootOnly_imageOk (hroot : l.headD 0 = g.rootCluster) (hlinks : Links (table g m) fatEoc l)
    (hrange : ∀ k ∈ l, g.InRange k) (hnodup : l.Nodup)
    (hslots : ∀ pos p, 32 ∣ pos → posAddr g l 0 pos = some p → ¬(slotAt m p).Live)
    (hsize : ∀ pos p, posAddr g l 0 pos = some p → pos < 65535 * 32) : ImageOk (rootOnly g m l) g m where
  settled := ⟨rfl, rfl, rfl, rfl, rfl⟩
  entries :=
    { root := rfl
      slots := by
        rintro a rfl _ pos p hpos hp hlive
        exact absurd hlive (hslots pos p hpos hp)
      linked := fun p hp h0 => absurd hp h0
      inside := fun p hp h0 => absurd hp h0
      size := by
        rintro a rfl _ pos p hp
        exact hsize pos p hp }
  root := hroot
  files := fun p hp h0 => absurd hp h0
  names := fun _ p hp h0 => absurd hp h0
  chains :=
    { links := fun _ _ => hlinks
      ok := fun _ _ => hrange
      nodup := fun _ _ => hnodup
      disjoint := by
        rintro i rfl j rfl hne
        exact absurd rfl hne }
  reserved := fun _ _ _ _ => rfl

end RootOnly

/-- Mounting a device in order gives a volume in order, whose free clusters have been counted. -/
theorem fatMount_wellFormed (hgeo : mountGeometry (device 0) bmi loopBound = .ok g) (hboot : BootOk (device 0) bmi)
    (hi : g.fatType = .fat32 → FsinfoOk (device 0) (mountedGeometry (device 0) g) device bmi.blocksCount)
    (hm : ImageOk G (mountedGeometry (device 0) g) (image (mountedGeometry (device 0) g) device)) :
    ∃ v, fatMount bmi device env (.ok ()) loopBound = .ok v ∧ v.geo = mountedGeometry (device 0) g ∧
      v.byte = image v.geo device ∧ v.filesOpen = [] ∧ v.channelsOpen = [] ∧ WellFormed G v := by
  have hg := mountGeometry_geoOk hgeo hboot
  obtain ⟨c, next, hrun, hc⟩ := @fatMount_run g device bmi env loopBound hgeo hg hi
  exact ⟨_, hrun, rfl, hc.byte, rfl, rfl, mountedVolume_wellFormed hg hm hc⟩

theorem fatMount_wellFormed_floppy : ∃ v, fatMount ⟨10, 512⟩ (floppyDevice 1) quietEnv (.ok ()) 1000 = .ok v ∧
    v.geo = floppyGeometry ∧ v.byte = image v.geo (floppyDevice 1) ∧ v.filesOpen = [] ∧ v.channelsOpen = [] ∧
    WellFormed (rootOnly floppyGeometry (image floppyGeometry (floppyDevice 1)) []) v := by
  have hgeo : mountGeometry (floppyDevice 1 0) ⟨10, 512⟩ 1000 = .ok floppyGeometry := by
    have hbytes : logBytesPerSector? (Bpb.bytesPerSector (floppyDevice 1 0)) = some 9 := by decide
    have hsectors : logSectorsPerCluster? (Bpb.sectorsPerCluster (floppyDevice 1 0)) = some 0 := by decide
    have hgeometry : Bpb.geometry (floppyDevice 1 0) 9 0 1000 = floppyGeometry := by
      simp only [Bpb.geometry, floppyGeometry, Geometry.mk.injEq]
      decide +kernel
    rw [mountGeometry, if_neg (by decide), if_neg (by decide), if_neg (by decide), hbytes, hsectors, ← hgeometry]
    exact if_neg (by decide)
  have hboot : BootOk (floppyDevice 1 0) ⟨10, 512⟩ := by
    refine ⟨⟨by decide, by decide, by decide, by decide, by decide, by decide⟩, Nat.one_pos, ?_, ?_, ?_⟩
    · change 4 < 2 ^ 32
      decide
    · change 6 < 0x0FFFFFF5
      decide
    · change 10 < 2 ^ 32
      decide
  have hplace : ∀ {pos p}, posAddr floppyGeometry [] 0 pos = some p → pos < 512 ∧ p = 1536 + pos := by
    intro pos p hp
    rw [posAddr, if_pos ⟨rfl, rfl⟩] at hp
    split at hp
    · next hlt => exact ⟨hlt, (Option.some.inj hp).symm⟩
    · cases hp
  have hm : ImageOk (rootOnly floppyGeometry (image floppyGeometry (floppyDevice 1)) []) floppyGeometry
      (image floppyGeometry (floppyDevice 1)) := by
    refine rootOnly_imageOk rfl trivial (List.forall_mem_nil _) .nil ?_ fun pos p hp => ?_
    · rintro pos p - hp hlive
      obtain ⟨hlt, rfl⟩ := hplace hp
      have hsector : ¬(1536 + pos) / 512 = 0 := by omega
      exact hlive.2.1 (congrFun (if_neg hsector) _)
    · have hlt := (hplace hp).1
      omega
  have hsame : mountedGeometry (floppyDevice 1 0) floppyGeometry = floppyGeometry := if_neg (by decide)
  have hnofat32 : floppyGeometry.fatType ≠ .fat32 := by decide
  have hall := @fatMount_wellFormed _ _ _ _ quietEnv _ hgeo hboot (fun h => absurd h hnofat32)
    (by rw [hsame]; exact hm)
  rwa [hsame] at hall

end FreeDos32.Fat
