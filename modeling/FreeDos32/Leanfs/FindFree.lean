import FreeDos32.Leanfs.Bitmap
import Mathlib.Data.Nat.Find

namespace FreeDos32.Leanfs

open Prog

variable {v w : Volume} {map : ℕ → ℕ} {p : BufPtr} {b bit c cluster d i j k n q r t word' : ℕ}

theorem findFreeBit_found (hbit : ∀ i < t, word'.testBit (bit + i) = true) (ht : word'.testBit (bit + t) = false)
    (htn : t < n) (hc : cluster + t < c) : findFreeBit word' c n bit cluster = .ok (cluster + t) := by
  induction n generalizing t bit cluster with
  | zero => omega
  | succ n ih =>
    rw [findFreeBit, if_pos (by omega)]
    cases t with
    | zero =>
      rw [Nat.add_zero] at ht
      rw [ht, if_neg Bool.false_ne_true]
      rfl
    | succ t =>
      have hfirst : word'.testBit bit = true := hbit 0 t.succ_pos
      have hrest : ∀ i < t, word'.testBit (bit + 1 + i) = true := by
        intro i hi
        rw [Nat.add_right_comm]
        exact hbit (i + 1) (by omega)
      rw [← Nat.add_assoc, Nat.add_right_comm] at ht
      rw [if_pos hfirst, ih hrest ht (by omega) (by omega), Nat.add_right_comm, Nat.add_assoc]

theorem findFreeWord_found (hfull : ∀ i < q, map (k + i) = 0xFFFFFFFF) (hbit : ∀ i < r, (map (k + q)).testBit i = true)
    (hr : (map (k + q)).testBit r = false) (h32 : r < 32) (hq : q < n) (hc : cluster + (32 * q + r) < c) :
    findFreeWord map c n k cluster = .ok (cluster + (32 * q + r)) := by
  induction n generalizing q k cluster with
  | zero => omega
  | succ n ih =>
    rw [findFreeWord, if_pos (by omega)]
    cases q with
    | zero =>
      rw [Nat.add_zero] at hbit hr
      have hne : map k ≠ 0xFFFFFFFF := by
        intro he
        rw [he, show (0xFFFFFFFF : ℕ) = 2 ^ 32 - 1 from rfl, Nat.testBit_two_pow_sub_one] at hr
        exact of_decide_eq_false hr h32
      have hfound : findFreeBit (map k) c 32 0 cluster = .ok (cluster + r) := by
        apply findFreeBit_found _ _ h32 (by omega)
        · simpa only [Nat.zero_add] using hbit
        · rwa [Nat.zero_add]
      rw [if_pos hne, hfound, Nat.mul_zero, Nat.zero_add]
    | succ q =>
      have hfirst : map k = 0xFFFFFFFF := hfull 0 q.succ_pos
      have hshift : ∀ i, k + (i + 1) = k + 1 + i := fun i => by omega
      rw [hshift] at hbit hr
      rw [if_neg (not_not.mpr hfirst), ih (fun i hi => hshift i ▸ hfull (i + 1) (by omega)) hbit hr (by omega) (by omega)]
      congr 1
      omega

theorem findFreeWord_full (hfull : ∀ i < n, map (k + i) = 0xFFFFFFFF) (hc : cluster + 32 * n ≤ c) :
    findFreeWord map c n k cluster = .error (cluster + 32 * n) := by
  induction n generalizing k cluster with
  | zero => rfl
  | succ n ih =>
    have hfirst : map k = 0xFFFFFFFF := hfull 0 n.succ_pos
    have hshift : ∀ i, k + (i + 1) = k + 1 + i := fun i => by omega
    rw [findFreeWord, if_pos (by omega), if_neg (not_not.mpr hfirst),
      ih (fun i hi => hshift i ▸ hfull (i + 1) (by omega)) (by omega)]
    congr 1
    omega

theorem Volume.bitmap_pos (v : Volume) : 0 < v.clusterBytes * 8 := Nat.mul_pos (Nat.two_pow_pos _) (by decide)

theorem Volume.bitmap_words (h : 2 ≤ v.logClusterBytes) : 32 * (v.clusterBytes / 4) = v.clusterBytes * 8 := by
  have hdvd : 4 ∣ v.clusterBytes := Nat.pow_dvd_pow 2 h
  have := Nat.mul_div_cancel' hdvd
  omega

/-- The bits of the `j`-th cluster of the bitmap. -/
theorem allocated_word (ht : 32 * q + r < v.clusterBytes * 8) (hr : r < 32) :
    v.allocated (j * (v.clusterBytes * 8) + (32 * q + r)) =
      (word (v.clusters (j + v.bitmapStartCluster)) q).testBit r := by
  have hpos : 0 < v.clusterBytes * 8 := v.bitmap_pos
  have hdiv : (j * (v.clusterBytes * 8) + (32 * q + r)) / (v.clusterBytes * 8) = j := by
    rw [Nat.mul_comm, Nat.mul_add_div hpos, Nat.div_eq_of_lt ht, Nat.add_zero]
  have hmod : (j * (v.clusterBytes * 8) + (32 * q + r)) % (v.clusterBytes * 8) = 32 * q + r := by
    rw [Nat.mul_comm, Nat.mul_add_mod, Nat.mod_eq_of_lt ht]
  rw [Volume.allocated, Volume.bitmapCluster, hdiv, hmod, Nat.mul_add_div (by decide), Nat.div_eq_of_lt hr,
    Nat.mul_add_mod, Nat.mod_eq_of_lt hr, Nat.add_zero]

theorem word_eq_ones {m : ℕ → UInt8} (h : ∀ i < 32, (word m q).testBit i = true) : word m q = 0xFFFFFFFF := by
  apply Nat.eq_of_testBit_eq
  intro i
  rw [show (0xFFFFFFFF : ℕ) = 2 ^ 32 - 1 from rfl, Nat.testBit_two_pow_sub_one]
  by_cases hi : i < 32
  · rw [h i hi, decide_eq_true hi]
  · rw [decide_eq_false hi]
    exact Nat.testBit_lt_two_pow (Nat.lt_of_lt_of_le (word_lt m q) (Nat.pow_le_pow_right (by decide) (by omega)))

/-- What a search of the bitmap leaves behind that was begun with buffer `p`. -/
structure Searched (v : Volume) (p : BufPtr) (k : ℕ) (w : Volume) : Prop where
  reread : Reread v w
  buffers : BuffersOk w
  buffered : w.Buffered (v.bitmapCluster k)
  keeps : ∀ s e, v.held s = some e → v.rootStartCluster ≤ e → v.given p ≠ some s → w.held s = some e

/-- The same, as far as clusters after the one of the bitmap are concerned in which it ends. -/
structure Scanned (v : Volume) (p : BufPtr) (k : ℕ) (w : Volume) : Prop where
  reread : Reread v w
  buffers : BuffersOk w
  buffered : w.Buffered (v.bitmapCluster k)
  keeps : ∀ s e, v.held s = some e → v.bitmapCluster k < e → v.given p ≠ some s → w.held s = some e

theorem Scanned.searched (h : Scanned v p k w) (hg : Geo v) (hk : k < v.clustersCount) : Searched v p k w where
  reread := h.reread
  buffers := h.buffers
  buffered := h.buffered
  keeps s e hs he := h.keeps s e hs (Nat.lt_of_lt_of_le (hg.bitmapCluster_lt hk) he)

section

variable (hlog : 2 ≤ v.logClusterBytes) (hfirst : ∀ i < k, v.allocated i = true) (hlt : k < v.clustersCount)
  (hread : (leanfsReadbuf (j + v.bitmapStartCluster) p).run v = (.ok b, v.useBuffer b (j + v.bitmapStartCluster)))

include hlog hfirst hlt hread

/-- The loop over the clusters of the bitmap, where it finds the cluster. -/
theorem findFreeLoop_here (hk : v.allocated k = false) (hj : j = k / (v.clusterBytes * 8)) (n : ℕ) :
    (findFreeLoop (n + 1) (j + v.bitmapStartCluster) (j * (v.clusterBytes * 8)) p).run v =
      (.ok k, v.useBuffer b (j + v.bitmapStartCluster)) := by
  have hle := Nat.div_mul_le_self k (v.clusterBytes * 8)
  have hmod := Nat.lt_div_mul_add (a := k) v.bitmap_pos
  rw [← hj] at hle hmod
  obtain ⟨t, rfl⟩ := Nat.exists_eq_add_of_le hle
  have ht : t < v.clusterBytes * 8 := by omega
  have hsplit := Nat.div_add_mod t 32
  have hr := Nat.mod_lt t (by decide : 0 < 32)
  have hwords := v.bitmap_words hlog
  rw [← hsplit, allocated_word (by omega) hr] at hk
  have hfound : findFreeWord (word (v.clusters (j + v.bitmapStartCluster)))
      (v.useBuffer b (j + v.bitmapStartCluster)).clustersCount
      ((v.useBuffer b (j + v.bitmapStartCluster)).clusterBytes / 4) 0 (j * (v.clusterBytes * 8)) =
        .ok (j * (v.clusterBytes * 8) + t) := by
    change findFreeWord _ v.clustersCount (v.clusterBytes / 4) 0 _ = _
    rw [← hsplit]
    apply findFreeWord_found
    · intro i hi
      apply word_eq_ones
      intro r hr'
      rw [Nat.zero_add, ← allocated_word (by omega) hr']
      exact hfirst _ (by omega)
    · intro i hi
      rw [Nat.zero_add, ← allocated_word (by omega) (by omega)]
      exact hfirst _ (by omega)
    · rwa [Nat.zero_add]
    · exact hr
    · omega
    · omega
  rw [findFreeLoop, run_bind_state, if_pos (by omega), run_bind_ok hread, run_bind_state, useBuffer_data,
    hfound]
  rfl

/-- A round of the loop that finds none. -/
theorem findFreeLoop_next (hj : j < k / (v.clusterBytes * 8)) (n : ℕ) :
    (findFreeLoop (n + 1) (j + v.bitmapStartCluster) (j * (v.clusterBytes * 8)) p).run v =
      (findFreeLoop n (j + 1 + v.bitmapStartCluster) ((j + 1) * (v.clusterBytes * 8)) (.buf b)).run
        (v.useBuffer b (j + v.bitmapStartCluster)) := by
  have hle := Nat.div_mul_le_self k (v.clusterBytes * 8)
  have hmul := Nat.mul_le_mul_right (v.clusterBytes * 8) (Nat.succ_le_of_lt hj)
  rw [Nat.succ_mul] at hmul
  have hwords := v.bitmap_words hlog
  have hpos := v.bitmap_pos
  have hfull : findFreeWord (word (v.clusters (j + v.bitmapStartCluster)))
      (v.useBuffer b (j + v.bitmapStartCluster)).clustersCount
      ((v.useBuffer b (j + v.bitmapStartCluster)).clusterBytes / 4) 0 (j * (v.clusterBytes * 8)) =
        .error (j * (v.clusterBytes * 8) + 32 * (v.clusterBytes / 4)) := by
    change findFreeWord _ v.clustersCount (v.clusterBytes / 4) 0 _ = _
    apply findFreeWord_full
    · intro i hi
      apply word_eq_ones
      intro r hr
      rw [Nat.zero_add, ← allocated_word (by omega) hr]
      exact hfirst _ (by omega)
    · omega
  rw [findFreeLoop, run_bind_state, if_pos (by omega), run_bind_ok hread, run_bind_state, useBuffer_data,
    hfull]
  dsimp only
  rw [hwords, Nat.succ_mul, Nat.add_right_comm j]

end

/-- The search ends at the first cluster that is free. -/
theorem findFreeLoop_found (hlog : 2 ≤ v.logClusterBytes) (hdev : v.bitmapCluster k < v.deviceEnd) (hb : BuffersOk v)
    (hp : p.Valid) (hset : p ≠ .unset) (hfirst : ∀ i < k, v.allocated i = true) (hk : v.allocated k = false)
    (hlt : k < v.clustersCount) (hj : j + d = k / (v.clusterBytes * 8)) (n : ℕ) :
    ∃ w, (findFreeLoop (n + d + 1) (j + v.bitmapStartCluster) (j * (v.clusterBytes * 8)) p).run v = (.ok k, w) ∧
      Scanned v p k w := by
  have hin : j + v.bitmapStartCluster ≤ v.bitmapCluster k := by
    rw [Volume.bitmapCluster, ← hj]
    omega
  have hdev' := Nat.lt_of_le_of_lt hin hdev
  induction d generalizing v j p with
  | zero =>
    obtain ⟨b, hrun, hch⟩ := readbuf_run hb hp (.inl hset) hdev'
    refine ⟨_, findFreeLoop_here hlog hfirst hlt hrun hk hj n, Reread.useBuffer .., hb.useBuffer hch.lt _, ?_,
      fun s e hs _ hne => hch.keeps hs hne⟩
    rw [Volume.bitmapCluster, ← hj]
    exact ⟨b, hch.lt, useBuffer_held_self ..⟩
  | succ d ih =>
    have hnext : j + 1 + d = k / (v.clusterBytes * 8) := by rw [Nat.add_right_comm]; exact hj
    have hin' : j + 1 + v.bitmapStartCluster ≤ v.bitmapCluster k := by
      rw [Volume.bitmapCluster, ← hnext]
      omega
    obtain ⟨b, hrun, hch⟩ := readbuf_run hb hp (.inl hset) hdev'
    obtain ⟨w, hrest, hw⟩ := ih (v := v.useBuffer b (j + v.bitmapStartCluster)) (p := .buf b) (j := j + 1)
      hlog hdev (hb.useBuffer hch.lt _) hch.lt nofun hfirst hk hlt hnext hin' (Nat.lt_of_le_of_lt hin' hdev)
    refine ⟨w, ?_, (Reread.useBuffer ..).trans hw.reread, hw.buffers, hw.buffered, fun s e hs he hne => ?_⟩
    · rw [← Nat.add_assoc]
      exact (findFreeLoop_next hlog hfirst hlt hrun (by omega) (n + d + 1)).trans hrest
    · have hs' := hch.keeps hs hne
      refine hw.keeps s e hs' he fun hgiven => ?_
      obtain rfl := Option.some.inj hgiven
      rw [useBuffer_held_self] at hs'
      have := Option.some.inj hs'
      omega

/-- A volume with a free cluster has a first one. -/
theorem exists_first_free (h : 0 < v.numFree) :
    ∃ k < v.clustersCount, v.allocated k = false ∧ ∀ i < k, v.allocated i = true := by
  have hex : ∃ k, k < v.clustersCount ∧ v.allocated k = false := by
    obtain ⟨k, hk, ha⟩ := List.countP_pos_iff.mp h
    exact ⟨k, List.mem_range.mp hk, by simpa using ha⟩
  refine ⟨Nat.find hex, (Nat.find_spec hex).1, (Nat.find_spec hex).2, fun i hi => ?_⟩
  have hno := Nat.find_min hex hi
  have hlt := Nat.lt_trans hi (Nat.find_spec hex).1
  simpa [hlt] using hno

theorem bitmapFindFree_scanned (h : Counted v) (hlt : k < v.clustersCount) (hk : v.allocated k = false)
    (hfirst : ∀ i < k, v.allocated i = true) : ∃ w, leanfsBitmapFindFree.run v = (.ok k, w) ∧ Scanned v .null k w := by
  have hpos : v.freeClustersCount ≠ 0 := by
    have := numFree_mark_true hlt hk
    rw [h.accounted]
    omega
  have hdiv : k / (v.clusterBytes * 8) ≤ v.clustersCount := Nat.le_trans (Nat.div_le_self ..) (Nat.le_of_lt hlt)
  obtain ⟨n, hn⟩ := Nat.exists_eq_add_of_le hdiv
  obtain ⟨w, hrun, hw⟩ := findFreeLoop_found (d := k / (v.clusterBytes * 8)) (p := .null) h.log (h.device k hlt)
    h.buffers trivial nofun hfirst hk hlt (Nat.zero_add _) n
  refine ⟨w, ?_, hw⟩
  rw [leanfsBitmapFindFree, run_bind_state, if_neg hpos, ← hrun, hn, Nat.zero_add, Nat.zero_mul, Nat.add_comm n]

theorem bitmapFindFree_full (h : Counted v) (hused : ∀ k < v.clustersCount, v.allocated k = true) :
    leanfsBitmapFindFree.run v = (.error .enospc, v) := by
  have hzero : v.freeClustersCount = 0 := by
    rw [h.accounted, Volume.numFree, List.countP_eq_zero]
    intro k hk
    rw [hused k (List.mem_range.mp hk)]
    decide
  rw [leanfsBitmapFindFree, run_bind_state, if_pos hzero]
  rfl

theorem bitmapFindFree_run (hs : Sound v) (hlt : k < v.clustersCount) (hk : v.allocated k = false)
    (hfirst : ∀ i < k, v.allocated i = true) :
    ∃ w, leanfsBitmapFindFree.run v = (.ok k, w) ∧ Searched v .null k w := by
  obtain ⟨w, hrun, hw⟩ := bitmapFindFree_scanned hs.counted hlt hk hfirst
  exact ⟨w, hrun, hw.searched hs.geo hlt⟩

end FreeDos32.Leanfs
