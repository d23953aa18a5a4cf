import FreeDos32.Leanfs.FindFree
import FreeDos32.Leanfs.Mkfs

namespace FreeDos32.Leanfs

open Prog
open Fat (overlay overlay_of_lt overlay_of_ge overlay_at get16 get32)

variable {v w : Volume} {x : Format} {m : ℕ → UInt8} {b c d i j k n r t : ℕ}

/-- Calls of `leanfs_bitmap_set`. -/
def bitmapSetAll : List (ℕ × Bool) → LeanM Unit
  | [] => pure ()
  | (cluster, allocate) :: calls => do
    leanfsBitmapSet cluster allocate
    bitmapSetAll calls

/-- The count of free clusters is the number of clear bits, and a search finds the lowest of them if there is any. -/
structure Volume.Accounted (v : Volume) : Prop where
  count : v.freeClustersCount = v.numFree
  lowest : ∀ k, (∃ w, leanfsBitmapFindFree.run v = (.ok k, w)) ↔
    k < v.clustersCount ∧ v.allocated k = false ∧ ∀ i < k, v.allocated i = true
  full : (∃ w, leanfsBitmapFindFree.run v = (.error .enospc, w)) ↔ ∀ k < v.clustersCount, v.allocated k = true

/-- The bitmap is accounted for after all calls for clusters that the volume has. -/
def Volume.Accounts (v : Volume) : Prop := ∀ calls : List (ℕ × Bool), (∀ call ∈ calls, call.1 < v.clustersCount) →
  ∃ w, (bitmapSetAll calls).run v = (.ok (), w) ∧ w.clustersCount = v.clustersCount ∧ w.Accounted

namespace Counted

theorem bitmapSet (h : Counted v) (hk : k < v.clustersCount) (a : Bool) :
    ∃ w, (leanfsBitmapSet k a).run v = (.ok (), w) ∧ Counted w ∧ w.clustersCount = v.clustersCount := by
  have htouch := h.touch (v.bitmapCluster k)
  by_cases ha : v.allocated k = a
  · exact ⟨_, bitmapSet_same h hk ha, htouch, rfl⟩
  · have hne : v.allocated k = !a := Bool.eq_not.mpr ha
    exact ⟨_, bitmapSet_run h hk hne, htouch.mark hk hne, rfl⟩

theorem bitmapSetAll {calls : List (ℕ × Bool)} (h : Counted v) (hcalls : ∀ call ∈ calls, call.1 < v.clustersCount) :
    ∃ w, (bitmapSetAll calls).run v = (.ok (), w) ∧ Counted w ∧ w.clustersCount = v.clustersCount := by
  induction calls generalizing v with
  | nil => exact ⟨v, rfl, h, rfl⟩
  | cons call calls ih =>
    obtain ⟨u, hrun, hu, hcount⟩ := h.bitmapSet (hcalls call List.mem_cons_self) call.2
    obtain ⟨w, hrest, hw, hcount'⟩ := ih hu fun c hc => hcount ▸ hcalls c (List.mem_cons_of_mem _ hc)
    exact ⟨w, (run_bind_ok hrun).trans hrest, hw, hcount'.trans hcount⟩

theorem accounted_search (h : Counted v) : v.Accounted := by
  rcases Nat.eq_zero_or_pos v.numFree with hzero | hpos
  · have hused : ∀ k < v.clustersCount, v.allocated k = true := by
      intro k hk
      have := List.countP_eq_zero.mp hzero k (List.mem_range.mpr hk)
      simpa using this
    have hrun := bitmapFindFree_full h hused
    refine ⟨h.accounted, fun k => ?_, fun _ => hused, fun _ => ⟨v, hrun⟩⟩
    simp only [hrun, Prod.mk.injEq, reduceCtorEq, false_and, exists_false, false_iff]
    rintro ⟨hk, hfree, -⟩
    rw [hused k hk] at hfree
    cases hfree
  · obtain ⟨n, hn, hfree, hfirst⟩ := exists_first_free hpos
    obtain ⟨w, hrun, -⟩ := bitmapFindFree_scanned h hn hfree hfirst
    refine ⟨h.accounted, fun k => ?_, ?_⟩
    · constructor
      · rintro ⟨u, hu⟩
        rw [hrun] at hu
        cases hu
        exact ⟨hn, hfree, hfirst⟩
      · rintro ⟨-, hk, hbefore⟩
        rcases Nat.lt_trichotomy k n with hlt | rfl | hlt
        · rw [hfirst k hlt] at hk
          cases hk
        · exact ⟨w, hrun⟩
        · rw [hbefore n hlt] at hfree
          cases hfree
    · simp only [hrun, Prod.mk.injEq, reduceCtorEq, false_and, exists_false, false_iff]
      intro hused
      rw [hused n hn] at hfree
      cases hfree

theorem accounts (h : Counted v) : v.Accounts := by
  intro calls hcalls
  obtain ⟨w, hrun, hw, hcount⟩ := h.bitmapSetAll hcalls
  exact ⟨w, hrun, hcount, hw.accounted_search⟩

end Counted

/-- Bit `t` of a cluster, as the bytes are written. -/
def bitAt (m : ℕ → UInt8) (t : ℕ) : Bool := (m (t / 8)).toNat.testBit (t % 8)

theorem testBit_byte_add (b : UInt8) (n t : ℕ) :
    (b.toNat + 256 * n).testBit t = if t < 8 then b.toNat.testBit t else n.testBit (t - 8) := by
  rw [Nat.add_comm]
  exact Nat.testBit_two_pow_mul_add n b.toNat_lt t

/-- The setter and the search see the bits in words. -/
theorem testBit_word (m : ℕ → UInt8) (k : ℕ) (hr : r < 32) : (word m k).testBit r = bitAt m (32 * k + r) := by
  have hword : word m k = (m (4 * k)).toNat + 256 * ((m (4 * k + 1)).toNat + 256 * ((m (4 * k + 2)).toNat +
      256 * (m (4 * k + 3)).toNat)) := by
    simp only [word, get32, get16, Nat.add_assoc, Nat.reduceAdd]
    omega
  have hsplit := Nat.div_add_mod r 8
  have hbit := Nat.mod_lt r (by decide : 0 < 8)
  generalize r / 8 = i at hsplit
  generalize r % 8 = s at hsplit hbit
  have hi : i = 0 ∨ i = 1 ∨ i = 2 ∨ i = 3 := by omega
  have hat : bitAt m (32 * k + r) = (m (4 * k + i)).toNat.testBit s := by
    rw [bitAt, show (32 * k + r) / 8 = 4 * k + i by omega, show (32 * k + r) % 8 = s by omega]
  rw [hat, hword, ← hsplit]
  simp only [testBit_byte_add]
  rcases hi with rfl | rfl | rfl | rfl
  · rw [if_pos (by omega), Nat.mul_zero, Nat.zero_add, Nat.add_zero]
  · rw [if_neg (by omega), if_pos (by omega), Nat.mul_one, Nat.add_sub_cancel_left]
  · rw [if_neg (by omega), if_neg (by omega), if_pos (by omega)]
    congr 1
    omega
  · rw [if_neg (by omega), if_neg (by omega), if_neg (by omega)]
    congr 1
    omega

theorem bitAt_setBit (m : ℕ → UInt8) (k : ℕ) {bit : ℕ} (hbit : bit < 8) (t : ℕ) :
    bitAt (overlay k [m k ||| 1 <<< UInt8.ofNat bit] m) t = (bitAt m t || decide (t = 8 * k + bit)) := by
  by_cases hk : t / 8 = k
  · have hat : overlay k [m k ||| 1 <<< UInt8.ofNat bit] m (t / 8) = m k ||| 1 <<< UInt8.ofNat bit := by
      rw [hk]
      exact overlay_at (i := 0) Nat.one_pos
    have hshift : (1 <<< UInt8.ofNat bit : UInt8).toNat = 2 ^ bit := by
      have hpow : 2 ^ bit < 2 ^ 8 := Nat.pow_lt_pow_right (by decide) hbit
      rw [UInt8.toNat_shiftLeft, UInt8.toNat_ofNat', Nat.mod_eq_of_lt (Nat.lt_trans hbit (by decide)),
        Nat.mod_eq_of_lt hbit, UInt8.toNat_one, Nat.one_shiftLeft, Nat.mod_eq_of_lt hpow]
    rw [bitAt, bitAt, hat, hk, UInt8.toNat_or, hshift, Nat.testBit_or, Nat.testBit_two_pow]
    congr 1
    rw [decide_eq_decide]
    omega
  · have hat : overlay k [m k ||| 1 <<< UInt8.ofNat bit] m (t / 8) = m (t / 8) := by
      rcases Nat.lt_or_gt_of_ne hk with h | h
      · exact overlay_of_lt h
      · exact overlay_of_ge h
    rw [bitAt, hat, decide_eq_false (by omega), Bool.or_false, bitAt]

/-- What the loop leaves that has begun at bit `p`, with the bit of `cluster`. -/
structure Filled (x : Format) (fuel cluster p : ℕ) (buffer : ℕ → UInt8) (res : ℕ × (ℕ → UInt8)) : Prop where
  next : res.1 = min (cluster + fuel) (x.rootStartCluster + 1)
  bits : ∀ t < x.clusterBytes * 8, bitAt res.2 t =
    (bitAt buffer t || decide (p ≤ t ∧ cluster + t ≤ p + x.rootStartCluster))

theorem Filled.step {fuel cluster p bit : ℕ} {buffer : ℕ → UInt8} {res : ℕ × (ℕ → UInt8)} (hbit : bit < 8)
    (hroot : cluster ≤ x.rootStartCluster)
    (h : Filled x fuel (cluster + 1) p (overlay k [buffer k ||| 1 <<< UInt8.ofNat bit] buffer) res)
    (hp : p = 8 * k + bit + 1) : Filled x (fuel + 1) cluster (8 * k + bit) buffer res := by
  constructor
  · rw [h.next]
    omega
  · intro t ht
    rw [h.bits t ht, bitAt_setBit buffer k hbit, Bool.or_assoc, ← Bool.decide_or]
    congr 1
    rw [decide_eq_decide]
    omega

theorem Filled.stop {fuel cluster p : ℕ} {buffer : ℕ → UInt8} (hle : cluster ≤ x.rootStartCluster + 1)
    (hend : cluster = x.rootStartCluster + 1 ∨ fuel = 0 ∧ p = x.clusterBytes * 8) :
    Filled x fuel cluster p buffer (cluster, buffer) := by
  constructor
  · dsimp only
    omega
  · intro t ht
    rw [decide_eq_false (by omega), Bool.or_false]

/-- The loop sets bits until it has set that of the root directory or the cluster is full. -/
theorem fillBits_filled {fuel cluster bit : ℕ} {buffer : ℕ → UInt8} (hbit : bit < 8)
    (hfuel : 8 * k + bit + fuel = x.clusterBytes * 8) (hle : cluster ≤ x.rootStartCluster + 1) :
    Filled x fuel cluster (8 * k + bit) buffer (x.fillBits fuel cluster k bit buffer) := by
  induction fuel generalizing cluster k bit buffer with
  | zero => exact .stop hle (.inr ⟨rfl, hfuel⟩)
  | succ fuel ih =>
    rw [Format.fillBits]
    by_cases hroot : cluster ≤ x.rootStartCluster
    · rw [if_pos ⟨hroot, by omega⟩]
      dsimp only
      split
      · exact Filled.step hbit hroot (ih (by decide) (by omega) (by omega)) (by omega)
      · exact Filled.step hbit hroot (ih (by omega) (by omega) (by omega)) rfl
    · rw [if_neg (fun h => hroot h.1)]
      exact .stop hle (.inl (by omega))

/-- The clusters that the bitmap is written to have the bits of the clusters up to the root directory. -/
theorem writeBitmap_bits (x : Format) {j n cluster : ℕ} (disk : ℕ → ℕ → UInt8)
    (hcluster : cluster = min (j * (x.clusterBytes * 8)) (x.rootStartCluster + 1)) :
    (∀ b, b < x.bitmapStartCluster + j ∨ x.bitmapStartCluster + j + n ≤ b → x.writeBitmap n j cluster disk b = disk b) ∧
      ∀ i < n, ∀ t < x.clusterBytes * 8, bitAt (x.writeBitmap n j cluster disk (x.bitmapStartCluster + (j + i))) t =
        decide ((j + i) * (x.clusterBytes * 8) + t ≤ x.rootStartCluster) := by
  induction n generalizing j cluster disk with
  | zero => exact ⟨fun b _ => rfl, fun i hi => absurd hi (Nat.not_lt_zero i)⟩
  | succ n ih =>
    obtain ⟨hnext, hbits⟩ : Filled x (x.clusterBytes * 8) cluster (8 * 0 + 0) (fun _ => 0)
        (x.fillBits (x.clusterBytes * 8) cluster 0 0 fun _ => 0) := by
      apply fillBits_filled
      · decide
      · omega
      · omega
    rw [Format.writeBitmap]
    generalize x.fillBits (x.clusterBytes * 8) cluster 0 0 (fun _ => 0) = filled at hnext hbits ⊢
    have hcluster' : filled.1 = min ((j + 1) * (x.clusterBytes * 8)) (x.rootStartCluster + 1) := by
      rw [hnext, Nat.succ_mul]
      omega
    obtain ⟨hother, hafter⟩ := ih (fun b => if b = x.bitmapStartCluster + j then filled.2 else disk b) hcluster'
    constructor
    · intro b hb
      rw [hother b (by omega), if_neg (by omega)]
    · intro i hi t ht
      cases i with
      | zero =>
        have hzero : bitAt (fun _ => 0) t = false := Nat.zero_testBit _
        change bitAt (x.writeBitmap n (j + 1) filled.1 _ (x.bitmapStartCluster + j)) t =
          decide (j * (x.clusterBytes * 8) + t ≤ _)
        rw [hother (x.bitmapStartCluster + j) (by omega), if_pos rfl, hbits t ht]
        rw [hzero, Bool.false_or, decide_eq_decide]
        omega
      | succ i =>
        have hshift : j + (i + 1) = j + 1 + i := by omega
        rw [hshift]
        exact hafter i (by omega) t ht

namespace Format

theorem freeClustersCount_lt (x : Format) : x.freeClustersCount < 2 ^ 32 := Nat.mod_lt _ (by decide)

/-- The words of the superblock that a mounted volume is described by. -/
structure Described (x : Format) (sb : ℕ → UInt8) : Prop where
  magic : word sb 0 = leanfsSbMagic
  logs : sb 74 = UInt8.ofNat x.logBytesPerSector ∧ sb 75 = UInt8.ofNat x.logSectorsPerCluster
  backup : word sb 19 = x.backupSuper % 2 ^ 32
  count : word sb 20 = x.clusters
  free : word sb 21 = x.freeClustersCount
  start : word sb 22 = x.bitmapStartCluster % 2 ^ 32
  root : word sb 23 = x.rootStartCluster % 2 ^ 32

theorem superFields_described (x : Format) : x.Described x.superFields := by
  unfold superFields
  constructor
  · iterate 5 rw [word_setWord_ne (by decide)]
    rw [word_congr (m := setWord 0 leanfsSbMagic fun _ => 0) fun j _ hj => overlay_of_lt (by omega),
      word_setWord_of_lt (by decide)]
  · iterate 5 rw [setWord_outside (by decide)]
    constructor
    · exact overlay_at (i := 0) Nat.two_pos
    · iterate 5 rw [setWord_outside (by decide)]
      exact overlay_at (i := 1) Nat.one_lt_two
  · iterate 2 rw [word_setWord_ne (by decide)]
    exact word_setWord_self ..
  · iterate 4 rw [word_setWord_ne (by decide)]
    exact word_setWord_of_lt x.clusters_lt ..
  · exact word_setWord_of_lt x.freeClustersCount_lt ..
  · iterate 3 rw [word_setWord_ne (by decide)]
    exact word_setWord_self ..
  · rw [word_setWord_ne (by decide)]
    exact word_setWord_self ..

theorem Described.congr {sb sb' : ℕ → UInt8} (h : x.Described sb) (hmagic : ∀ i < 4, sb' i = sb i)
    (hfields : ∀ i, 72 ≤ i → i < 100 → sb' i = sb i) : x.Described sb' where
  magic := by rw [word_congr fun j _ hj => hmagic j hj, h.magic]
  logs := by rw [hfields 74 (by decide) (by decide), hfields 75 (by decide) (by decide)]; exact h.logs
  backup := by rw [word_congr fun j hj hj' => hfields j (by omega) (by omega), h.backup]
  count := by rw [word_congr fun j hj hj' => hfields j (by omega) (by omega), h.count]
  free := by rw [word_congr fun j hj hj' => hfields j (by omega) (by omega), h.free]
  start := by rw [word_congr fun j hj hj' => hfields j (by omega) (by omega), h.start]
  root := by rw [word_congr fun j hj hj' => hfields j (by omega) (by omega), h.root]

theorem superBlock_described (x : Format) : x.Described x.superBlock := by
  apply x.superFields_described.congr
  · intro i hi
    rw [superBlock, overlay_of_lt (by omega), setWord_outside (by omega), setWord_outside (by omega)]
  · intro i hi hi'
    rw [superBlock, overlay_of_ge, setWord_outside (by omega), setWord_outside (by omega)]
    exact Nat.le_trans (by decide) hi

theorem rootStartCluster_eq (x : Format) : x.rootStartCluster = x.bitmapStartCluster + x.bitmapClustersCount + 1 := rfl

theorem clusterBytes_pos (x : Format) : 0 < x.clusterBytes := Nat.two_pow_pos _

theorem bitmapClustersCount_lt (x : Format) (h : 512 ≤ x.clusterBytes) : x.bitmapClustersCount < 2 ^ 20 + 1 := by
  apply (Nat.div_lt_iff_lt_mul (by omega)).mpr
  have := Nat.mod_lt (x.clusters + x.clusterBytes * 8 - 1) (by decide : 0 < 2 ^ 32)
  omega

/-- The clusters after `mkleanfs` has written them. -/
structure Written (x : Format) (disk : ℕ → ℕ → UInt8) : Prop where
  start : x.bitmapStartCluster = 1
  large : 512 ≤ x.clusterBytes
  small : x.clusterBytes < 2 ^ 29
  super : ∀ i < x.sectorBytes, disk 0 (x.sectorBytes + i) = x.superBlock i
  backup : disk x.backupSuper = x.superBlock
  bits : ∀ i < x.bitmapClustersCount, ∀ t < x.clusterBytes * 8,
    bitAt (disk (1 + i)) t = decide (i * (x.clusterBytes * 8) + t ≤ x.rootStartCluster)

theorem mkleanfs_written {disk : ℕ → ℕ → UInt8} (h : x.mkleanfs = some disk) : x.Written disk := by
  unfold mkleanfs at h
  split at h
  · cases h
  · next hok =>
    cases h
    have hstart : x.bitmapStartCluster = 1 := if_neg fun h0 => hok (.inl h0)
    have hroot := x.rootStartCluster_eq
    have hbackup : x.backupSuper = x.bitmapStartCluster + x.bitmapClustersCount := rfl
    have hfirst : 0 = min (0 * (x.clusterBytes * 8)) (x.rootStartCluster + 1) := by omega
    obtain ⟨hother, hbits⟩ := writeBitmap_bits x (n := x.bitmapClustersCount)
      (writeCluster x.backupSuper x.superBlock (x.writeSector x.superBlock x.device)) hfirst
    constructor
    · exact hstart
    · omega
    · omega
    · intro i hi
      rw [writeCluster, Function.update_of_ne (by omega), hother 0 (by omega), writeCluster,
        Function.update_of_ne (by omega), writeSector, if_pos (by omega), Nat.add_sub_cancel_left]
    · rw [writeCluster, Function.update_of_ne (by omega), hother x.backupSuper (by omega), writeCluster,
        Function.update_self]
    · intro i hi t ht
      have hat := hbits i hi t ht
      rw [hstart, Nat.zero_add] at hat
      rw [writeCluster, Function.update_of_ne (by omega)]
      exact hat

/-- A volume that has been mounted after `mkleanfs`. -/
structure Mounted (x : Format) (v : Volume) : Prop where
  written : x.Written v.clusters
  log : v.logClusterBytes = x.logBytesPerSector + x.logSectorsPerCluster
  count : v.clustersCount = x.clusters
  start : v.bitmapStartCluster = 1
  root : v.rootStartCluster = x.rootStartCluster
  free : v.freeClustersCount = x.freeClustersCount
  buffers : BuffersOk v
  device : x.rootStartCluster < v.deviceEnd

theorem leanfsMount_mounted {env : Env} (h : x.leanfsMount env = some v) : x.Mounted v := by
  obtain ⟨disk, hmk, hv⟩ := Option.bind_eq_some_iff.mp h
  have hw := mkleanfs_written hmk
  dsimp only at hv
  split at hv
  · next hok =>
    have hsb : x.Described fun i => disk 0 (x.sectorBytes + i) := by
      apply x.superBlock_described.congr
      · exact fun i hi => hw.super i (by omega)
      · exact fun i _ hi => hw.super i (by omega)
    have hlog : x.logBytesPerSector + x.logSectorsPerCluster < 29 :=
      (Nat.pow_lt_pow_iff_right (by decide)).mp hw.small
    have hcount := x.bitmapClustersCount_lt hw.large
    have hstart := hw.start
    have hroot := x.rootStartCluster_eq
    cases hv
    constructor
    · exact hw
    · change (disk 0 (x.sectorBytes + 74)).toNat + (disk 0 (x.sectorBytes + 75)).toNat = _
      rw [hsb.logs.1, hsb.logs.2, UInt8.toNat_ofNat', UInt8.toNat_ofNat', Nat.mod_eq_of_lt (by omega),
        Nat.mod_eq_of_lt (by omega)]
    · exact hsb.count
    · exact hsb.start.trans (by omega)
    · exact hsb.root.trans (Nat.mod_eq_of_lt (by omega))
    · exact hsb.free
    · exact List.reverse_perm _
    · exact Nat.lt_of_lt_of_le (Nat.lt_succ_self _) (Nat.le_max_right ..)
  · cases hv

namespace Mounted

theorem bytes (h : x.Mounted v) : v.clusterBytes = x.clusterBytes := by
  rw [Volume.clusterBytes, h.log, clusterBytes]

theorem bitmapCluster_eq (h : x.Mounted v) (k : ℕ) : v.bitmapCluster k = k / (x.clusterBytes * 8) + 1 := by
  rw [Volume.bitmapCluster, h.bytes, h.start]

/-- The bit of a cluster, where the formatter has put it. -/
theorem allocated_eq (h : x.Mounted v) (k : ℕ) : v.allocated k =
    bitAt (v.clusters (k / (x.clusterBytes * 8) + 1)) (k % (x.clusterBytes * 8)) := by
  rw [Volume.allocated, testBit_word _ _ (Nat.mod_lt _ (by decide)), Nat.div_add_mod, h.bitmapCluster_eq, h.bytes]

theorem div_lt_bitmapClustersCount (hfit : x.clusters + x.clusterBytes * 8 ≤ 2 ^ 32) (hk : k < x.clusters) :
    k / (x.clusterBytes * 8) < x.bitmapClustersCount := by
  have hpos := x.clusterBytes_pos
  have hceil : x.bitmapClustersCount = (x.clusters - 1) / (x.clusterBytes * 8) + 1 := by
    rw [bitmapClustersCount, Nat.mod_eq_of_lt (by omega), ← Nat.add_div_right _ (by omega)]
    congr 1
    omega
  rw [hceil]
  exact Nat.lt_succ_of_le (Nat.div_le_div_right (by omega))

/-- The clusters up to the root directory are used. -/
theorem allocated_iff (h : x.Mounted v) (hfit : x.clusters + x.clusterBytes * 8 ≤ 2 ^ 32) (hk : k < x.clusters) :
    v.allocated k = decide (k ≤ x.rootStartCluster) := by
  have hpos := x.clusterBytes_pos
  rw [h.allocated_eq, Nat.add_comm, h.written.bits _ (div_lt_bitmapClustersCount hfit hk) _ (Nat.mod_lt _ (by omega)),
    Nat.mul_comm, Nat.div_add_mod]

theorem countP_range_lt (r n : ℕ) : (List.range n).countP (fun k => !decide (k ≤ r)) = n - (r + 1) := by
  induction n with
  | zero => simp
  | succ n ih =>
    rw [List.range_succ, List.countP_append, ih, List.countP_singleton]
    by_cases hn : n ≤ r
    · rw [decide_eq_true hn, if_neg (by decide)]
      omega
    · rw [decide_eq_false hn, if_pos (by decide)]
      omega

theorem numFree_eq (h : x.Mounted v) (hfit : x.clusters + x.clusterBytes * 8 ≤ 2 ^ 32) :
    v.numFree = x.clusters - (x.rootStartCluster + 1) := by
  rw [Volume.numFree, h.count, ← countP_range_lt]
  apply List.countP_congr
  intro k hk
  rw [h.allocated_iff hfit (List.mem_range.mp hk)]

theorem freeClustersCount_eq (h : x.Mounted v) (hroot : x.rootStartCluster < x.clusters) :
    v.freeClustersCount = x.clusters - (x.rootStartCluster + 1) := by
  have hlt := x.clusters_lt
  rw [h.free, freeClustersCount]
  omega

theorem counted (h : x.Mounted v) (hroot : x.rootStartCluster < x.clusters)
    (hfit : x.clusters + x.clusterBytes * 8 ≤ 2 ^ 32) : Counted v where
  log := by
    have hlarge := h.written.large
    rw [← h.bytes] at hlarge
    have hlog : 2 ^ 2 ≤ 2 ^ v.logClusterBytes := Nat.le_trans (by decide) hlarge
    exact (Nat.pow_le_pow_iff_right (by decide)).mp hlog
  device k hk := by
    rw [h.count] at hk
    have hdiv := div_lt_bitmapClustersCount hfit hk
    have hdev := h.device
    rw [x.rootStartCluster_eq, h.written.start] at hdev
    rw [h.bitmapCluster_eq]
    omega
  buffers := h.buffers
  accounted := by rw [h.freeClustersCount_eq hroot, h.numFree_eq hfit]

/-- The sum for the rounding wraps, and the bitmap has no clusters: the backup of the superblock is where it is to be. -/
theorem backup_bitmap (h : x.Mounted v) (hfit : 2 ^ 32 < x.clusters + x.clusterBytes * 8) :
    x.rootStartCluster = 2 ∧ v.clusters 1 = x.superBlock := by
  have hlt := x.clusters_lt
  have hsmall := h.written.small
  have hcount : x.bitmapClustersCount = 0 := by
    rw [bitmapClustersCount, Nat.div_eq_zero_iff]
    omega
  have hbackup : x.backupSuper = 1 := by rw [backupSuper, h.written.start, hcount]
  constructor
  · rw [rootStartCluster, hbackup]
  · rw [← hbackup]
    exact h.written.backup

theorem allocated_magic (h : x.Mounted v) (hfit : 2 ^ 32 < x.clusters + x.clusterBytes * 8) (hk : k < 32) :
    v.allocated k = leanfsSbMagic.testBit k := by
  have hlarge := h.written.large
  have hbit := testBit_word x.superBlock 0 hk
  rw [x.superBlock_described.magic, Nat.mul_zero, Nat.zero_add] at hbit
  rw [h.allocated_eq, Nat.div_eq_of_lt (by omega), Nat.mod_eq_of_lt (by omega), Nat.zero_add, (h.backup_bitmap hfit).2,
    hbit]

/-- More bits than those of the first three clusters are set, since the bitmap begins with the magic number. -/
theorem numFree_lt_freeClustersCount (h : x.Mounted v) (hfit : 2 ^ 32 < x.clusters + x.clusterBytes * 8) :
    v.numFree < v.freeClustersCount := by
  have hsmall := h.written.small
  have hroot := (h.backup_bitmap hfit).1
  have hset : ∀ k ∈ [2, 3, 6, 8], v.allocated k = true := by
    intro k hk
    have hlt : ∀ k ∈ [2, 3, 6, 8], k < 32 ∧ leanfsSbMagic.testBit k = true := by decide
    rw [h.allocated_magic hfit (hlt k hk).1]
    exact (hlt k hk).2
  have hsub : [2, 3, 6, 8].Sublist (List.range v.clustersCount) := by
    have hnine : [2, 3, 6, 8].Sublist (List.range 9) := by decide
    apply hnine.trans
    apply List.range_sublist.mpr
    rw [h.count]
    omega
  have hused := hsub.countP_le (p := v.allocated)
  rw [List.countP_eq_length.mpr hset] at hused
  have hall := List.length_eq_countP_add_countP v.allocated (l := List.range v.clustersCount)
  simp only [List.length_range, decide_not, Bool.decide_eq_true, List.length_cons, List.length_nil] at hall hused
  have hfree : x.clusters = (List.range v.clustersCount).countP v.allocated + v.numFree := h.count ▸ hall
  rw [h.freeClustersCount_eq (by omega)]
  omega

theorem sound (h : x.Mounted v) (hroot : x.rootStartCluster < x.clusters)
    (hfit : x.clusters + x.clusterBytes * 8 ≤ 2 ^ 32) (hlog : x.logBytesPerSector + x.logSectorsPerCluster ≤ 12)
    (hdev : x.clusters ≤ v.deviceEnd) : Sound v := by
  have hbitmap : ∀ k < v.clustersCount, k / (v.clusterBytes * 8) + v.bitmapStartCluster < v.rootStartCluster := by
    intro k hk
    rw [h.count] at hk
    have hdiv := div_lt_bitmapClustersCount hfit hk
    have hstart := h.written.start
    have hr := x.rootStartCluster_eq
    rw [h.bytes, h.start, h.root]
    omega
  constructor
  · refine ⟨⟨?_, h.log ▸ hlog⟩, h.count ▸ x.clusters_lt, hbitmap, ?_, h.count ▸ hdev⟩
    · have hlarge : 2 ^ 9 ≤ v.clusterBytes := by
        rw [h.bytes]
        exact h.written.large
      exact (Nat.pow_le_pow_iff_right (by decide)).mp hlarge
    · rw [h.root, h.count]
      exact hroot
  · exact h.buffers
  · intro k hk
    rw [h.root] at hk
    rw [h.allocated_iff hfit (by omega)]
    exact decide_eq_true (by omega)
  · exact (h.counted hroot hfit).accounted

theorem not_accounts (h : x.Mounted v) (hfit : 2 ^ 32 < x.clusters + x.clusterBytes * 8) : ¬v.Accounts := by
  intro hall
  obtain ⟨w, hrun, -, hw⟩ := hall [] fun _ hcall => nomatch hcall
  cases hrun
  exact absurd hw.count (Nat.ne_of_gt (h.numFree_lt_freeClustersCount hfit))

end Mounted

/-- The bitmap of a formatted volume is accounted for exactly if the number of its clusters can be rounded up in 32
bits to what the bitmap has bits for. -/
theorem leanfsMount_accounts {env : Env} (h : x.leanfsMount env = some v) (hroot : x.rootStartCluster + 1 < x.clusters) :
    v.Accounts ↔ x.clusters + x.clusterBytes * 8 - 1 < 2 ^ 32 := by
  have hm := leanfsMount_mounted h
  constructor
  · intro hall
    by_contra hwrap
    exact hm.not_accounts (by omega) hall
  · intro hfit
    exact (hm.counted (by omega) (by omega)).accounts

/-- As `main` calls `mkleanfs`. -/
def testFormat : Format := ⟨1440, by decide, 9, 1, fun _ _ => 0, 0⟩

theorem leanfsMount_accounts_test : ∃ v, testFormat.leanfsMount ⟨fun _ => false, fun _ => 0⟩ = some v ∧ v.Accounts := by
  obtain ⟨v, hv⟩ := Option.isSome_iff_exists.mp
    (show (testFormat.leanfsMount ⟨fun _ => false, fun _ => 0⟩).isSome = true by decide +kernel)
  exact ⟨v, hv, (leanfsMount_accounts hv (by decide)).mpr (by decide)⟩

/-- With as many clusters as 32 bits can count, the bitmap is that of no cluster. -/
def hugeFormat : Format := ⟨2 ^ 32 - 1, by decide, 9, 1, fun _ _ => 0, 0⟩

theorem hugeFormat_not_accounts : ∃ v, hugeFormat.leanfsMount ⟨fun _ => false, fun _ => 0⟩ = some v ∧
    hugeFormat.rootStartCluster + 1 < hugeFormat.clusters ∧ ¬v.Accounts := by
  obtain ⟨v, hv⟩ := Option.isSome_iff_exists.mp
    (show (hugeFormat.leanfsMount ⟨fun _ => false, fun _ => 0⟩).isSome = true by decide +kernel)
  exact ⟨v, hv, by decide, (leanfsMount_mounted hv).not_accounts (by decide)⟩

end Format

end FreeDos32.Leanfs
