import FreeDos32.Fat.Table

namespace FreeDos32.Fat

open Prog

variable {v : Volume} {k n value : ℕ}

theorem Recached.tableOk {m : ℕ → UInt8} {w : Volume} (h : Recached m v w) (hg : TableOk v.geo v.cache.deviceEnd) :
    TableOk w.geo w.cache.deviceEnd := by
  rw [h.geo, h.shape.deviceEnd]
  exact hg

/-- A store to an entry of 28 bits keeps the bits above it. -/
theorem setEntry_reserved {g : Geometry} {m : ℕ → UInt8} (ht : g.fatType = .fat32) :
    (setEntry g k n value m (entryAddr g k n + 3)).toNat / 16 = (m (entryAddr g k n + 3)).toNat / 16 := by
  have hlen : 3 < (entryBytes g m k n value).length := by
    rw [length_entryBytes, ht]
    decide
  have hb := (m (entryAddr g k n + 3)).toNat_lt
  have h0 := (m (entryAddr g k n)).toNat_lt
  have h1 := (m (entryAddr g k n + 1)).toNat_lt
  have h2 := (m (entryAddr g k n + 2)).toNat_lt
  rw [setEntry, overlay_at hlen]
  simp only [entryBytes, ht, le32, le16, List.cons_append, List.nil_append, List.getD_cons_succ, List.getD_cons_zero,
    UInt8.toNat_ofNat', get32, get16, Nat.zero_add, Nat.add_zero, Nat.reduceAdd]
  omega

/-- A value that is stored in an entry of one copy of the table is read back from it, and nothing else that
can be read from the table changes. -/
theorem fatWrite_fatRead (hm : MediaOk v) (hg : TableOk v.geo v.cache.deviceEnd) (hk : k < v.geo.numFats)
    (hn : n ≤ v.geo.dataClusters + 1) (hv : value < eocStart v.geo.fatType ∨ value = fatEoc) :
    ∃ w, (vFatWrite n k value).run v = (.ok (), w) ∧
      (∃ w', (vFatRead n k).run w = (.ok value, w')) ∧
      (∀ k' < v.geo.numFats, ∀ n' ≤ v.geo.dataClusters + 1, k' ≠ k ∨ n' ≠ n →
        ∃ old v' w', (vFatRead n' k').run v = (.ok old, v') ∧ (vFatRead n' k').run w = (.ok old, w')) ∧
      (v.geo.fatType = .fat32 →
        (w.byte (entryAddr v.geo k n + 3)).toNat / 16 = (v.byte (entryAddr v.geo k n + 3)).toNat / 16) := by
  obtain ⟨w, hrun, hw⟩ := vFatWrite_run hm (hg.entriesOk hk) hn value
  have hgw := hw.tableOk hg
  have hread : ∀ k' < v.geo.numFats, ∀ n' ≤ v.geo.dataClusters + 1,
      ∃ w', (vFatRead n' k').run w = (.ok (fatEntry v.geo (setEntry v.geo k n value v.byte) k' n'), w') := by
    intro k' hk' n' hn'
    obtain ⟨w', hrun', -⟩ := vFatRead_run hw.media (hgw.entriesOk (hw.geo ▸ hk')) (hw.geo ▸ hn')
    rw [hw.geo, hw.byte] at hrun'
    exact ⟨w', hrun'⟩
  refine ⟨w, hrun, ?_, ?_, ?_⟩
  · obtain ⟨w', hrun'⟩ := hread k hk n hn
    rw [fatEntry_setEntry hv] at hrun'
    exact ⟨w', hrun'⟩
  · intro k' hk' n' hn' hne
    obtain ⟨v', hv', -⟩ := vFatRead_run hm (hg.entriesOk hk') hn'
    obtain ⟨w', hrun'⟩ := hread k' hk' n' hn'
    rw [fatEntry_setEntry_ne hg hk hn hk' hn' hne] at hrun'
    exact ⟨_, v', w', hv', hrun'⟩
  · intro ht
    rw [hw.byte]
    exact setEntry_reserved ht

/-- A FAT12 volume whose table has two sectors, the last sector of one buffer and the first one of another. -/
def splitTableGeometry : Geometry :=
  { floppyGeometry with
    fatSize := 2, fatStart := 7, rootSector := 11, dataStart := 12, dataClusters := 400 }

/-- Entry 341 spans across the two sectors. -/
theorem fatWrite_fatRead_split :
    ∃ w, (vFatWrite 341 0 0xABC).run (freshVolume splitTableGeometry quietEnv (fun _ _ => 0) 412 400) = (.ok (), w) ∧
      ∃ w', (vFatRead 341 0).run w = (.ok 0xABC, w') := by
  have hvalue : 0xABC < eocStart splitTableGeometry.fatType ∨ 0xABC = fatEoc := .inl (by decide)
  obtain ⟨w, hrun, hread, -⟩ := fatWrite_fatRead (k := 0) (n := 341)
    (freshVolume_mediaOk splitTableGeometry quietEnv (fun _ _ => 0) 412 400)
    ⟨by decide, by decide, by decide, by decide, by decide⟩ (by decide) (by decide) hvalue
  exact ⟨w, hrun, hread⟩

/-- A volume of 512 GiB with clusters of one sector: more clusters than 28 bits can count. -/
def hugeGeometry : Geometry where
  fatType := .fat32
  numFats := 1
  logBytesPerSector := 9
  logSectorsPerCluster := 0
  activeFat := 0
  fatSize := 2 ^ 23 + 1
  fatStart := 32
  rootSector := 2 ^ 23 + 33
  rootSize := 0
  dataStart := 2 ^ 23 + 33
  rootCluster := 2
  dataClusters := 2 ^ 30
  loopBound := 1000

/-- The offset of entry 2^30 + 1 wraps to the one of entry 1, which a store to the former changes. -/
theorem fat32_entries_alias :
    entryOffset .fat32 (hugeGeometry.dataClusters + 1) + 4 ≤ hugeGeometry.fatSize * hugeGeometry.bytesPerSector ∧
      let v := freshVolume hugeGeometry quietEnv (fun _ _ => 0) (2 ^ 30 + 2 ^ 23 + 33) (2 ^ 30)
      ((vFatRead 1 0).run v).1 = .ok 0 ∧
      ((vFatWrite (2 ^ 30 + 1) 0 7).run v).1 = .ok () ∧
      ((vFatRead 1 0).run ((vFatWrite (2 ^ 30 + 1) 0 7).run v).2).1 = .ok 7 := by
  decide +kernel

end FreeDos32.Fat
