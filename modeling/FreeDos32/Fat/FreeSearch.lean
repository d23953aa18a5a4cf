import FreeDos32.Fat.EntryCodec
import FreeDos32.Fat.Layout

namespace FreeDos32.Fat

open Prog

variable {v w : Volume} {m : ℕ → UInt8} {i j k n : ℕ}

theorem Recached.entriesOk (h : Recached m v w) (hg : EntriesOk v.geo v.cache.deviceEnd k) :
    EntriesOk w.geo w.cache.deviceEnd k := by
  rw [h.geo, h.shape.deviceEnd]
  exact hg

/-- The volume with `v->next_free` set. -/
def Volume.hinted (k : ℕ) (v : Volume) : Volume := { v with nextFree := k, fsinfoChanged := true }

/-- The entry of a cluster in the active copy of the table. -/
def Volume.entry (v : Volume) (n : ℕ) : ℕ := table v.geo v.byte n

theorem Recached.entry (h : Recached v.byte v w) (n : ℕ) : w.entry n = v.entry n := by
  rw [Volume.entry, Volume.entry, h.geo, h.byte]

/-- What a search of the clusters from `lo` up to `hi` comes to: the first one that is free, or none. -/
inductive RangeScanned (v : Volume) (lo hi : ℕ) : Outcome Errno ℕ × Volume → Prop
  | found {n : ℕ} {w : Volume} (hlo : lo ≤ n) (hhi : n < hi) (hfree : v.entry n = 0)
    (hfirst : ∀ i, lo ≤ i → i < n → v.entry i ≠ 0) (hw : Recached v.byte v w) : RangeScanned v lo hi (.ok n, w.hinted n)
  | none {w : Volume} (hused : ∀ i, lo ≤ i → i < hi → v.entry i ≠ 0) (hw : Recached v.byte v w) :
    RangeScanned v lo hi (.error .enospc, w)

theorem findFreeClusterInRange_scanned (hm : MediaOk v) (hg : EntriesOk v.geo v.cache.deviceEnd v.geo.activeFat)
    (hk : k + j ≤ v.geo.dataClusters + 2) : RangeScanned v k (k + j) ((findFreeClusterInRange k j).run v) := by
  induction j generalizing k v with
  | zero => exact .none (fun i hlo hhi => absurd hhi (Nat.not_lt.mpr hlo)) (.refl hm)
  | succ j ih =>
    obtain ⟨u, hrun, hu⟩ := readFatEntry_on hm hg (n := k) (by omega)
    rw [findFreeClusterInRange, run_bind_ok hrun]
    by_cases h0 : v.entry k = 0
    · have hentry : fatEntry v.geo v.byte v.geo.activeFat k = 0 := h0
      rw [if_pos hentry, run_bind_update]
      exact .found (Nat.le_refl k) (by omega) h0 (fun i hlo hhi => absurd hhi (Nat.not_lt.mpr hlo)) hu
    · have hentry : fatEntry v.geo v.byte v.geo.activeFat k ≠ 0 := h0
      have hrest := ih hu.media (hu.geo ▸ hu.entriesOk hg) (k := k + 1) (by rw [hu.geo]; omega)
      have hstep : ∀ i, (k + 1 ≤ i → v.entry i ≠ 0) → k ≤ i → v.entry i ≠ 0 := by
        intro i hi hki
        rcases Nat.eq_or_lt_of_le hki with rfl | hlt
        · exact h0
        · exact hi hlt
      rw [if_neg hentry]
      have hsum : k + 1 + j = k + (j + 1) := by omega
      rw [hsum] at hrest
      generalize (findFreeClusterInRange (k + 1) j).run u = res at hrest ⊢
      cases hrest with
      | found hlo hhi hfree hfirst hw =>
        rw [hu.entry] at hfree
        apply RangeScanned.found (by omega) hhi hfree _ (hu.byte ▸ hu.trans hw)
        intro i hki hi
        exact hstep i (fun hlo => hu.entry i ▸ hfirst i hlo hi) hki
      | none hused hw =>
        apply RangeScanned.none _ (hu.byte ▸ hu.trans hw)
        intro i hki hi
        exact hstep i (fun hlo => hu.entry i ▸ hused i hlo hi) hki

instance (g : Geometry) (n : ℕ) : Decidable (g.InRange n) := inferInstanceAs (Decidable (_ ∧ _))

/-- Where the search starts. -/
def Volume.hint (v : Volume) : ℕ := if v.geo.InRange v.nextFree then v.nextFree else 2

theorem Volume.hint_range (v : Volume) : 2 ≤ v.hint ∧ v.hint ≤ v.geo.dataClusters + 2 := by
  rw [Volume.hint]
  split
  · next h => exact ⟨h.1, Nat.le_succ_of_le h.2⟩
  · exact ⟨le_rfl, Nat.le_add_left 2 _⟩

/-- The first free cluster at or after the hint, or else the first one from 2. -/
structure Volume.FirstFree (v : Volume) (k : ℕ) : Prop where
  range : v.geo.InRange k
  free : v.entry k = 0
  first : (v.hint ≤ k ∧ ∀ i, v.hint ≤ i → i < k → v.entry i ≠ 0) ∨
    (k < v.hint ∧ (∀ i, v.hint ≤ i → i ≤ v.geo.dataClusters + 1 → v.entry i ≠ 0) ∧ ∀ i, 2 ≤ i → i < k → v.entry i ≠ 0)

/-- What a search of the volume is to come to. -/
inductive FreeChosen (v : Volume) : Outcome Errno ℕ × Volume → Prop
  | found {k : ℕ} {w : Volume} (hk : v.FirstFree k) (hw : Recached v.byte v w) : FreeChosen v (.ok k, w.hinted k)
  | none {w : Volume} (hused : ∀ i, v.geo.InRange i → v.entry i ≠ 0) (hw : Recached v.byte v w) :
    FreeChosen v (.error .enospc, w.hinted fatFsiNa)

theorem hint_eq (hg : EntriesOk v.geo v.cache.deviceEnd k) :
    (if v.nextFree = fatFsiNa ∨ v.nextFree < 2 ∨ v.nextFree > v.geo.dataClusters + 1 then 2 else v.nextFree) = v.hint := by
  have hna : v.geo.dataClusters + 1 < fatFsiNa := by
    have := hg.offset
    unfold fatFsiNa
    cases ht : v.geo.fatType <;> rw [ht] at this <;> simp only [entryOffset] at this <;> omega
  have hiff : v.geo.InRange v.nextFree ↔ 2 ≤ v.nextFree ∧ v.nextFree ≤ v.geo.dataClusters + 1 := Iff.rfl
  rw [Volume.hint, ← ite_not]
  apply if_congr _ rfl rfl
  rw [hiff]
  omega

theorem RangeScanned.run_attempt {x : FatM ℕ} (h : RangeScanned v i j (x.run v)) :
    (∃ n w, i ≤ n ∧ n < j ∧ v.entry n = 0 ∧ (∀ l, i ≤ l → l < n → v.entry l ≠ 0) ∧ Recached v.byte v w ∧
      x.attempt.run v = (.ok (.ok n), w.hinted n)) ∨
    ∃ w, (∀ l, i ≤ l → l < j → v.entry l ≠ 0) ∧ Recached v.byte v w ∧ x.attempt.run v = (.ok (.error .enospc), w) := by
  generalize hrun : x.run v = res at h
  cases h with
  | found hlo hhi hfree hfirst hw => exact .inl ⟨_, _, hlo, hhi, hfree, hfirst, hw, run_attempt_ok hrun⟩
  | none hused hw => exact .inr ⟨_, hused, hw, run_attempt_error hrun⟩

theorem findFreeCluster_chosen (hm : MediaOk v) (hg : EntriesOk v.geo v.cache.deviceEnd v.geo.activeFat) :
    FreeChosen v (findFreeCluster.run v) := by
  have hrange := v.hint_range
  rw [findFreeCluster, run_bind_state]
  dsimp only
  rw [hint_eq hg]
  have hscan := findFreeClusterInRange_scanned hm hg (k := v.hint) (j := v.geo.dataClusters + 2 - v.hint) (by omega)
  rw [Nat.add_sub_of_le hrange.2] at hscan
  obtain ⟨n, w, hlo, hhi, hfree, hfirst, hw, hrun⟩ | ⟨u, hused, hu, hrun⟩ := hscan.run_attempt
  · rw [run_bind_ok hrun]
    exact .found ⟨⟨by omega, by omega⟩, hfree, .inl ⟨hlo, hfirst⟩⟩ hw
  · have hrest := findFreeClusterInRange_scanned hu.media (hu.geo ▸ hu.entriesOk hg) (k := 2) (j := v.hint - 2)
      (by rw [hu.geo]; omega)
    rw [Nat.add_sub_of_le hrange.1] at hrest
    rw [run_bind_ok hrun]
    dsimp only
    obtain ⟨n, w, hlo, hhi, hfree, hfirst, hw, hrun'⟩ | ⟨w, hused', hw, hrun'⟩ := hrest.run_attempt
    · rw [run_bind_ok hrun']
      apply FreeChosen.found _ (hu.byte ▸ hu.trans hw)
      refine ⟨⟨hlo, by omega⟩, hu.entry n ▸ hfree, .inr ⟨hhi, ?_, ?_⟩⟩
      · exact fun i hi hin => hused i hi (by omega)
      · exact fun i hi hin => hu.entry i ▸ hfirst i hi hin
    · rw [run_bind_ok hrun']
      apply FreeChosen.none _ (hu.byte ▸ hu.trans hw)
      intro i hi
      rcases Nat.lt_or_ge i v.hint with hlt | hge
      · exact hu.entry i ▸ hused' i hi.1 hlt
      · exact hused i hge (by have := hi.2; omega)

/-- A search returns the cluster that it is to choose and makes it the next hint, and it fails for want of a
free cluster exactly when there is none. -/
structure Volume.FindsFree (v : Volume) : Prop where
  result : (∃ k w, findFreeCluster.run v = (.ok k, w) ∧ v.FirstFree k ∧ w.nextFree = k) ∨
    ∃ w, findFreeCluster.run v = (.error .enospc, w) ∧ w.nextFree = fatFsiNa
  full_iff : (∃ w, findFreeCluster.run v = (.error .enospc, w)) ↔ ∀ n, v.geo.InRange n → v.entry n ≠ 0

theorem findFreeCluster_findsFree (hm : MediaOk v) (hg : EntriesOk v.geo v.cache.deviceEnd v.geo.activeFat) :
    v.FindsFree := by
  have hchosen := findFreeCluster_chosen hm hg
  generalize hrun : findFreeCluster.run v = res at hchosen
  cases hchosen with
  | @found k w hk hw =>
    constructor
    · exact .inl ⟨k, _, hrun, hk, rfl⟩
    · rw [hrun]
      simp only [Prod.mk.injEq, reduceCtorEq, false_and, exists_false, false_iff]
      exact fun hused => hused k hk.range hk.free
  | none hused hw =>
    constructor
    · exact .inr ⟨_, hrun, rfl⟩
    · exact ⟨fun _ => hused, fun _ => ⟨_, hrun⟩⟩

theorem findFreeCluster_findsFree_floppy : ({ emptyFloppy with nextFree := 5 } : Volume).FindsFree := by
  apply findFreeCluster_findsFree
  · exact (freshVolume_mediaOk floppyGeometry quietEnv _ 10 6).of_same rfl rfl
  · exact floppyGeometry_geoOk.tableOk.entriesOk (by decide)

/-- A table with zeros and, in entry 2^30 + 1, a seven. -/
def hugeVolume : Volume :=
  { freshVolume hugeGeometry quietEnv (fun s i => if s = 2 ^ 23 + 32 ∧ i = 4 then 7 else 0) (2 ^ 30 + 2 ^ 23 + 33)
      (2 ^ 30) with nextFree := 2 ^ 30 + 1 }

/-- The search sees entry 1 in the place of entry 2^30 + 1. -/
theorem findFreeCluster_wraps : ¬∀ v : Volume, MediaOk v → 9 ≤ v.geo.logBytesPerSector →
    entryAddr v.geo v.geo.activeFat (v.geo.dataClusters + 1) + entrySize v.geo.fatType ≤
      v.cache.deviceEnd * v.geo.bytesPerSector → v.cache.deviceEnd ≤ 2 ^ 32 → v.FindsFree := by
  intro hall
  have hfree := hall hugeVolume ((freshVolume_mediaOk hugeGeometry quietEnv _ _ 0).of_same rfl rfl) (by decide) (by decide) (by decide)
  have hrun : (findFreeCluster.run hugeVolume).1 = .ok (2 ^ 30 + 1) := by decide +kernel
  have hused : hugeVolume.entry (2 ^ 30 + 1) = 7 := by decide +kernel
  obtain ⟨k, w, hk, hfirst, -⟩ | ⟨w, hk, -⟩ := hfree.result
  · rw [hk] at hrun
    have hfound := hfirst.free
    cases hrun
    rw [hused] at hfound
    cases hfound
  · rw [hk] at hrun
    cases hrun

end FreeDos32.Fat
