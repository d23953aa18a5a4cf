import FreeDos32.Leanfs.Buffers
import FreeDos32.Library.Count
import Mathlib.Data.Nat.Bitwise

namespace FreeDos32.Leanfs

open Prog

variable {v w : Volume} {p : BufPtr} {a : Bool} {b c d j k n : ℕ}

/-- A mounted volume as `mkleanfs` makes them. -/
structure Geo (v : Volume) : Prop where
  log : 9 ≤ v.logClusterBytes ∧ v.logClusterBytes ≤ 12
  count : v.clustersCount < 2 ^ 32
  bitmap : ∀ k < v.clustersCount, k / (v.clusterBytes * 8) + v.bitmapStartCluster < v.rootStartCluster
  root : v.rootStartCluster < v.clustersCount
  device : v.clustersCount ≤ v.deviceEnd

theorem Geo.clusterBytes (h : Geo v) :
    v.clusterBytes = 512 ∨ v.clusterBytes = 1024 ∨ v.clusterBytes = 2048 ∨ v.clusterBytes = 4096 := by
  obtain ⟨h9, h12⟩ := h.log
  have hlog : v.logClusterBytes = 9 ∨ v.logClusterBytes = 10 ∨ v.logClusterBytes = 11 ∨ v.logClusterBytes = 12 := by omega
  unfold Volume.clusterBytes
  rcases hlog with hl | hl | hl | hl <;> rw [hl] <;> decide

theorem Geo.iclusterCount_pos (h : Geo v) : 0 < v.iclusterCount := by
  have := h.clusterBytes
  unfold Volume.iclusterCount
  omega

theorem Geo.clusterBytes_pos (h : Geo v) : 0 < v.clusterBytes := by
  have := h.clusterBytes
  omega

/-- The cluster of the bitmap that has the bit of a cluster. -/
def Volume.bitmapCluster (v : Volume) (k : ℕ) : ℕ := k / (v.clusterBytes * 8) + v.bitmapStartCluster

/-- The bit of a cluster in the bitmap. -/
def Volume.allocated (v : Volume) (k : ℕ) : Bool :=
  (word (v.clusters (v.bitmapCluster k)) (k % (v.clusterBytes * 8) / 32)).testBit (k % (v.clusterBytes * 8) % 32)

def Volume.numFree (v : Volume) : ℕ := (List.range v.clustersCount).countP fun k => !v.allocated k

/-- A volume with its buffers and its bitmap in order. -/
structure Sound (v : Volume) : Prop where
  geo : Geo v
  buffers : BuffersOk v
  system : ∀ k < v.rootStartCluster, v.allocated k = true
  accounted : v.freeClustersCount = v.numFree

/-- The buffers and the bitmap are in order, whichever clusters are free. -/
structure Counted (v : Volume) : Prop where
  log : 2 ≤ v.logClusterBytes
  device : ∀ k < v.clustersCount, v.bitmapCluster k < v.deviceEnd
  buffers : BuffersOk v
  accounted : v.freeClustersCount = v.numFree

/-- Whatever may be in a buffer that a search of the bitmap gives up is no part of a file. -/
theorem Geo.bitmapCluster_lt (h : Geo v) (hk : k < v.clustersCount) : v.bitmapCluster k < v.rootStartCluster := h.bitmap k hk

theorem Geo.bitmapCluster_device (h : Geo v) (hk : k < v.clustersCount) : v.bitmapCluster k < v.deviceEnd :=
  Nat.lt_of_lt_of_le (Nat.lt_trans (h.bitmapCluster_lt hk) h.root) h.device

theorem Sound.counted (h : Sound v) : Counted v where
  log := Nat.le_trans (by decide) h.geo.log.1
  device _ hk := h.geo.bitmapCluster_device hk
  buffers := h.buffers
  accounted := h.accounted

theorem testBit_or_bit (m i j : ℕ) : (m ||| 1 <<< i).testBit j = (decide (j = i) || m.testBit j) := by
  rw [Nat.testBit_or, Nat.one_shiftLeft, Nat.testBit_two_pow, Bool.or_comm]
  simp only [eq_comm]

theorem testBit_and_not_bit {i j : ℕ} (m : ℕ) (hj : j < 32) :
    (m &&& (0xFFFFFFFF ^^^ 1 <<< i)).testBit j = (decide (j ≠ i) && m.testBit j) := by
  have hones : (0xFFFFFFFF : ℕ).testBit j = true := by
    rw [show (0xFFFFFFFF : ℕ) = 2 ^ 32 - 1 from rfl, Nat.testBit_two_pow_sub_one]
    exact decide_eq_true hj
  rw [Nat.testBit_and, Nat.testBit_xor, hones, Nat.one_shiftLeft, Nat.testBit_two_pow, Bool.and_comm]
  by_cases hij : i = j
  · simp [hij]
  · simp [hij, Ne.symm hij]

/-- The word of the bitmap with a bit changed. -/
def withBit (map i : ℕ) (a : Bool) : ℕ := if a then map ||| 1 <<< i else map &&& (0xFFFFFFFF ^^^ 1 <<< i)

theorem withBit_lt {map i : ℕ} (hmap : map < 2 ^ 32) (hi : i < 32) (a : Bool) : withBit map i a < 2 ^ 32 := by
  cases a with
  | true =>
    apply Nat.or_lt_two_pow hmap
    rw [Nat.one_shiftLeft]
    exact Nat.pow_lt_pow_right (by decide) hi
  | false => exact Nat.lt_of_le_of_lt Nat.and_le_left hmap

theorem testBit_withBit {map i j : ℕ} (hj : j < 32) (a : Bool) :
    (withBit map i a).testBit j = if j = i then a else map.testBit j := by
  cases a with
  | true =>
    rw [withBit, if_pos rfl, testBit_or_bit]
    by_cases h : j = i <;> simp [h]
  | false =>
    rw [withBit, if_neg Bool.false_ne_true, testBit_and_not_bit _ hj]
    by_cases h : j = i <;> simp [h]

/-- The volume after the bit of a cluster has been changed. -/
def Volume.mark (k : ℕ) (a : Bool) (v : Volume) : Volume := { v.setCluster (v.bitmapCluster k) (setWord
      (k % (v.clusterBytes * 8) / 32) (withBit (word (v.clusters (v.bitmapCluster k)) (k % (v.clusterBytes * 8) / 32))
      (k % (v.clusterBytes * 8) % 32) a)) with
  freeClustersCount := if a then v.freeClustersCount - 1 else v.freeClustersCount + 1 }

theorem mark_clusters (h : c ≠ v.bitmapCluster k) (a : Bool) : (v.mark k a).clusters c = v.clusters c := if_neg h

/-- Bits in one place are the bit of one cluster. -/
theorem bit_inj {N k k' : ℕ} (hdiv : k / N = k' / N) (hword : k % N / 32 = k' % N / 32)
    (hbit : k % N % 32 = k' % N % 32) : k = k' := by
  have hmod : k % N = k' % N := by omega
  rw [← Nat.div_add_mod k N, ← Nat.div_add_mod k' N, hdiv, hmod]

theorem allocated_mark (v : Volume) (k k' : ℕ) (a : Bool) :
    (v.mark k a).allocated k' = if k' = k then a else v.allocated k' := by
  have hlt := withBit_lt (word_lt (v.clusters (v.bitmapCluster k)) (k % (v.clusterBytes * 8) / 32))
    (Nat.mod_lt (k % (v.clusterBytes * 8)) (by decide : 0 < 32)) a
  change (word ((v.mark k a).clusters (v.bitmapCluster k')) (k' % (v.clusterBytes * 8) / 32)).testBit
    (k' % (v.clusterBytes * 8) % 32) = _
  by_cases hc : v.bitmapCluster k' = v.bitmapCluster k
  · rw [hc, Volume.mark]
    dsimp only [Volume.setCluster]
    rw [if_pos rfl]
    by_cases hw : k' % (v.clusterBytes * 8) / 32 = k % (v.clusterBytes * 8) / 32
    · rw [hw, word_setWord_of_lt hlt, testBit_withBit (Nat.mod_lt _ (by decide))]
      by_cases hb : k' % (v.clusterBytes * 8) % 32 = k % (v.clusterBytes * 8) % 32
      · have hk : k' = k := bit_inj (Nat.add_right_cancel hc) hw hb
        rw [if_pos hb, if_pos hk]
      · have hk : k' ≠ k := fun he => hb (by rw [he])
        rw [if_neg hb, if_neg hk, Volume.allocated, hc, hw]
    · have hk : k' ≠ k := fun he => hw (by rw [he])
      rw [word_setWord_ne hw, if_neg hk, Volume.allocated, hc]
  · have hk : k' ≠ k := fun he => hc (by rw [he])
    rw [mark_clusters hc, if_neg hk]
    rfl

theorem numFree_mark_false (hk : k < v.clustersCount) (ha : v.allocated k = true) :
    (v.mark k false).numFree = v.numFree + 1 := by
  symm
  apply countP_range_flip hk
  · rw [allocated_mark, if_pos rfl]
    rfl
  · rw [ha]
    rfl
  · intro i hi hne
    rw [allocated_mark, if_neg hne]

theorem numFree_mark_true (hk : k < v.clustersCount) (ha : v.allocated k = false) :
    (v.mark k true).numFree + 1 = v.numFree := by
  apply countP_range_flip hk
  · rw [ha]
    rfl
  · rw [allocated_mark, if_pos rfl]
    rfl
  · intro i hi hne
    rw [allocated_mark, if_neg hne]

theorem numFree_lt (hk : k < v.clustersCount) (ha : v.allocated k = true) : v.numFree < v.clustersCount := by
  unfold Volume.numFree
  apply Nat.lt_of_le_of_ne
  · have := List.countP_le_length (p := fun k => !v.allocated k) (l := List.range v.clustersCount)
    rwa [List.length_range] at this
  · intro he
    have hall := List.countP_eq_length.mp (he.trans List.length_range.symm)
    have := hall k (List.mem_range.mpr hk)
    rw [ha] at this
    cases this

/-- Reading into a buffer leaves the bitmap as it is. -/
theorem Sound.touch (h : Sound v) (c : ℕ) : Sound (v.touch c) where
  geo := ⟨h.geo.log, h.geo.count, h.geo.bitmap, h.geo.root, h.geo.device⟩
  buffers := h.buffers.touch c
  system := h.system
  accounted := h.accounted

theorem Counted.touch (h : Counted v) (c : ℕ) : Counted (v.touch c) where
  log := h.log
  device := h.device
  buffers := h.buffers.touch c
  accounted := h.accounted

theorem Counted.mark (h : Counted v) (hk : k < v.clustersCount) (ha : v.allocated k = !a) : Counted (v.mark k a) where
  log := h.log
  device := h.device
  buffers := h.buffers
  accounted := by
    cases a with
    | false =>
      rw [numFree_mark_false hk ha, ← h.accounted]
      rfl
    | true =>
      have := numFree_mark_true hk ha
      change v.freeClustersCount - 1 = _
      rw [h.accounted]
      omega

theorem Sound.mark (h : Sound v) (hk : k < v.clustersCount) (hroot : v.rootStartCluster ≤ k)
    (ha : v.allocated k = !a) : Sound (v.mark k a) where
  geo := ⟨h.geo.log, h.geo.count, h.geo.bitmap, h.geo.root, h.geo.device⟩
  buffers := h.buffers
  system i hi := by
    rw [allocated_mark, if_neg (Nat.ne_of_lt (Nat.lt_of_lt_of_le hi hroot))]
    exact h.system i hi
  accounted := (h.counted.mark hk ha).accounted

/-- Changes the bit of a cluster that has the other value. -/
theorem bitmapSet_run (h : Counted v) (hk : k < v.clustersCount) (ha : v.allocated k = !a) :
    (leanfsBitmapSet k a).run v = (.ok (), (v.touch (v.bitmapCluster k)).mark k a) := by
  obtain ⟨b, hrun, hch⟩ := readbuf_run h.buffers (p := .null) trivial (.inl nofun) (h.device k hk)
  rw [leanfsBitmapSet, run_bind_state, hch.touch]
  dsimp only
  refine (run_bind_ok hrun).trans ?_
  rw [run_bind_state, useBuffer_data]
  unfold Volume.allocated at ha
  cases a with
  | true =>
    have hpos : (v.useBuffer b (v.bitmapCluster k)).freeClustersCount ≠ 0 := by
      have := numFree_mark_true hk ha
      change v.freeClustersCount ≠ 0
      rw [h.accounted]
      omega
    rw [if_pos rfl, when_pos (by exact ha), if_neg hpos]
    exact run_bind_ok (poke_run (useBuffer_held_self ..) _)
  | false =>
    have hlt : ¬(v.useBuffer b (v.bitmapCluster k)).clustersCount ≤
        (v.useBuffer b (v.bitmapCluster k)).freeClustersCount := by
      have := numFree_lt hk ha
      change ¬v.clustersCount ≤ v.freeClustersCount
      rw [h.accounted]
      omega
    rw [if_neg Bool.false_ne_true, when_pos (by exact ha), if_neg hlt]
    exact run_bind_ok (poke_run (useBuffer_held_self ..) _)

/-- Leaves the bit of a cluster that has the value as it is. -/
theorem bitmapSet_same (h : Counted v) (hk : k < v.clustersCount) (ha : v.allocated k = a) :
    (leanfsBitmapSet k a).run v = (.ok (), v.touch (v.bitmapCluster k)) := by
  obtain ⟨b, hrun, hch⟩ := readbuf_run h.buffers (p := .null) trivial (.inl nofun) (h.device k hk)
  rw [leanfsBitmapSet, run_bind_state, hch.touch]
  dsimp only
  refine (run_bind_ok hrun).trans ?_
  rw [run_bind_state, useBuffer_data]
  unfold Volume.allocated Volume.bitmapCluster at ha
  cases a with
  | true =>
    rw [if_pos rfl, when_neg]
    · rfl
    · exact fun hfree => Bool.false_ne_true (hfree.symm.trans ha)
  | false =>
    rw [if_neg Bool.false_ne_true, when_neg]
    · rfl
    · exact fun hused => Bool.false_ne_true (ha.symm.trans hused)

end FreeDos32.Leanfs
