import FreeDos32.Fat.Layout

namespace FreeDos32.Fat

variable {g : Geometry} {e a a' p p' pos pos' k k' i : ℕ} {l l' : List ℕ}

theorem bytesPerCluster_eq (g : Geometry) : g.bytesPerCluster = g.sectorsPerCluster * g.bytesPerSector := by
  rw [Geometry.bytesPerCluster, Nat.pow_add, Nat.mul_comm]
  rfl

theorem bytesPerCluster_pos (g : Geometry) : 0 < g.bytesPerCluster := Nat.two_pow_pos _

theorem sectorsPerCluster_pos (g : Geometry) : 0 < g.sectorsPerCluster := Nat.two_pow_pos _

theorem GeoOk.dvd_sector (h : GeoOk g e) : 512 ∣ g.bytesPerSector := Nat.pow_dvd_pow 2 h.sector

theorem GeoOk.slot_dvd_sector (h : GeoOk g e) : 32 ∣ g.bytesPerSector := Nat.dvd_trans (by decide) h.dvd_sector

theorem GeoOk.slot_dvd_cluster (h : GeoOk g e) : 32 ∣ g.bytesPerCluster := by
  rw [bytesPerCluster_eq]
  exact Nat.dvd_trans h.slot_dvd_sector (Nat.dvd_mul_left _ _)

theorem clusterAddr_eq (g : Geometry) (k : ℕ) :
    g.clusterAddr k = (k - 2) * g.bytesPerCluster + g.dataStart * g.bytesPerSector := by
  rw [Geometry.clusterAddr, Geometry.clusterSector, Nat.add_mul, bytesPerCluster_eq, Nat.mul_assoc]

theorem clusterAddr_le (g : Geometry) (k : ℕ) : g.dataStart * g.bytesPerSector ≤ g.clusterAddr k := by
  rw [clusterAddr_eq]
  omega

theorem GeoOk.cluster_end (h : GeoOk g e) (hk : g.InRange k) :
    g.clusterAddr k + g.bytesPerCluster ≤ e * g.bytesPerSector := by
  have hdev := Nat.mul_le_mul_right g.bytesPerSector h.device
  have hk' : (k - 2 + 1) * g.bytesPerCluster ≤ g.dataClusters * g.bytesPerCluster :=
    Nat.mul_le_mul_right _ (by unfold Geometry.InRange at hk; omega)
  rw [Nat.add_mul, Nat.mul_assoc, ← bytesPerCluster_eq] at hdev
  rw [Nat.add_mul, Nat.one_mul] at hk'
  rw [clusterAddr_eq]
  omega

theorem cluster_unique (hk : g.InRange k) (hk' : g.InRange k') {o o' : ℕ} (ho : o < g.bytesPerCluster)
    (ho' : o' < g.bytesPerCluster) (he : g.clusterAddr k + o = g.clusterAddr k' + o') : k = k' ∧ o = o' := by
  rw [clusterAddr_eq, clusterAddr_eq] at he
  have hpos := bytesPerCluster_pos g
  have hdiv : ∀ {x o : ℕ}, o < g.bytesPerCluster → (x * g.bytesPerCluster + o) / g.bytesPerCluster = x := by
    intro x o ho
    rw [Nat.mul_comm, Nat.mul_add_div hpos, Nat.div_eq_of_lt ho, Nat.add_zero]
  have hsame : (k - 2) * g.bytesPerCluster + o = (k' - 2) * g.bytesPerCluster + o' := by omega
  have hkk : k - 2 = k' - 2 := by rw [← hdiv ho (x := k - 2), ← hdiv ho' (x := k' - 2), hsame]
  unfold Geometry.InRange at hk hk'
  rw [hkk] at hsame
  omega

theorem posAddr_fixed (hroot : g.rootCluster = 0) (h : posAddr g l 0 pos = some p) :
    pos < g.rootSize * g.bytesPerSector ∧ p = g.rootSector * g.bytesPerSector + pos := by
  rw [posAddr, if_pos ⟨rfl, hroot⟩] at h
  split at h
  · cases h
    exact ⟨‹_›, rfl⟩
  · cases h

theorem posAddr_chain (hroot : ¬(a = 0 ∧ g.rootCluster = 0)) :
    posAddr g l a pos = some p ↔
      ∃ k, l[pos / g.bytesPerCluster]? = some k ∧ g.clusterAddr k + pos % g.bytesPerCluster = p := by
  rw [posAddr, if_neg hroot, Option.map_eq_some_iff]

theorem posAddr_cases (h : posAddr g l a pos = some p) :
    ((a = 0 ∧ g.rootCluster = 0) ∧ pos < g.rootSize * g.bytesPerSector ∧
        p = g.rootSector * g.bytesPerSector + pos) ∨
      (¬(a = 0 ∧ g.rootCluster = 0) ∧
        ∃ k, l[pos / g.bytesPerCluster]? = some k ∧ p = g.clusterAddr k + pos % g.bytesPerCluster) := by
  by_cases hroot : a = 0 ∧ g.rootCluster = 0
  · obtain ⟨rfl, hr⟩ := hroot
    exact .inl ⟨⟨rfl, hr⟩, posAddr_fixed hr h⟩
  · obtain ⟨k, hk, hp⟩ := (posAddr_chain hroot).mp h
    exact .inr ⟨hroot, k, hk, hp.symm⟩

theorem GeoOk.root_le_data (h : GeoOk g e) : g.rootSector * g.bytesPerSector ≤ g.dataStart * g.bytesPerSector :=
  Nat.mul_le_mul_right _ (by rw [h.data]; omega)

theorem GeoOk.posAddr_le (h : GeoOk g e) (hp : posAddr g l a pos = some p) : g.rootSector * g.bytesPerSector ≤ p := by
  rcases posAddr_cases hp with ⟨-, -, rfl⟩ | ⟨-, k, -, rfl⟩
  · omega
  · have := h.root_le_data
    have := clusterAddr_le g k
    omega

theorem GeoOk.two_le_root (h : GeoOk g e) : 2 ≤ g.rootSector := by
  have hpos : 0 < g.numFats * g.fatSize := by
    apply Nat.mul_pos (Nat.lt_of_le_of_lt (Nat.zero_le _) h.active)
    apply Nat.pos_of_ne_zero
    intro h0
    have htable := h.table
    rw [h0, Nat.zero_mul] at htable
    have : 0 < entrySize g.fatType := by cases g.fatType <;> decide
    omega
  have := h.root
  have := h.reserved
  omega

theorem GeoOk.one_lt_device (h : GeoOk g e) : 1 < e := by
  have := h.two_le_root
  have := h.data
  have := h.device
  omega

theorem GeoOk.posAddr_dvd (h : GeoOk g e) (hp : posAddr g l a pos = some p) (hpos : 32 ∣ pos) : 32 ∣ p := by
  rcases posAddr_cases hp with ⟨-, -, rfl⟩ | ⟨-, k, -, rfl⟩
  · exact Nat.dvd_add (Nat.dvd_trans h.slot_dvd_sector (Nat.dvd_mul_left _ _)) hpos
  · apply Nat.dvd_add (Nat.dvd_trans h.slot_dvd_sector (Nat.dvd_mul_left _ _))
    exact (Nat.dvd_mod_iff h.slot_dvd_cluster).mpr hpos

theorem slot_mod {n : ℕ} (hn : 32 ∣ n) (hpos : 32 ∣ pos) (h0 : 0 < n) (hi : i < 32) :
    (pos + i) / n = pos / n ∧ (pos + i) % n = pos % n + i := by
  obtain ⟨x, rfl⟩ := hn
  obtain ⟨y, rfl⟩ := hpos
  have hx : 0 < x := Nat.pos_of_mul_pos_left h0
  rw [Nat.mul_mod_mul_left, Nat.mul_div_mul_left _ _ (by omega : 0 < 32)]
  have hmod := Nat.mod_lt y hx
  have hdm := Nat.div_add_mod y x
  have hdiv : (32 * y + i) / (32 * x) = y / x := by
    rw [← Nat.div_div_eq_div_mul, show (32 * y + i) / 32 = y by omega]
  refine ⟨hdiv, ?_⟩
  have hall := Nat.div_add_mod (32 * y + i) (32 * x)
  rw [hdiv] at hall
  have hexp : 32 * x * (y / x) + 32 * (y % x) = 32 * y := by
    rw [Nat.mul_assoc, ← Nat.mul_add, hdm]
  omega

theorem GeoOk.posAddr_slot (h : GeoOk g e) (hp : posAddr g l a pos = some p) (hpos : 32 ∣ pos) (hi : i < 32) :
    posAddr g l a (pos + i) = some (p + i) := by
  rcases posAddr_cases hp with ⟨⟨rfl, hroot⟩, hlt, rfl⟩ | ⟨hroot, k, hk, rfl⟩
  · have hend : 32 ∣ g.rootSize * g.bytesPerSector := Nat.dvd_trans h.slot_dvd_sector (Nat.dvd_mul_left _ _)
    rw [posAddr, if_pos ⟨rfl, hroot⟩, if_pos (by omega), Nat.add_assoc]
  · have hs := slot_mod h.slot_dvd_cluster hpos (bytesPerCluster_pos g) hi
    rw [posAddr_chain hroot]
    exact ⟨k, by rw [hs.1]; exact hk, by rw [hs.2, Nat.add_assoc]⟩

section Chains

variable {t : ℕ → ℕ} {os : Set ℕ} {chain : ℕ → List ℕ} (h : GeoOk g e) (hc : Chains t fatEoc g.InRange os chain)

include h hc in
theorem Chains.posAddr_lt (ha : a ∈ os) (hp : posAddr g (chain a) a pos = some p) : p < e * g.bytesPerSector := by
  rcases posAddr_cases hp with ⟨-, hlt, rfl⟩ | ⟨-, k, hk, rfl⟩
  · have hd := h.device
    have hs : (g.rootSector + g.rootSize) * g.bytesPerSector ≤ e * g.bytesPerSector :=
      Nat.mul_le_mul_right _ (by rw [← h.data]; omega)
    rw [Nat.add_mul] at hs
    omega
  · have := h.cluster_end (hc.ok a ha k (List.mem_of_getElem? hk))
    have := Nat.mod_lt pos (bytesPerCluster_pos g)
    omega

include h hc in
theorem Chains.posAddr_unique (ha : a ∈ os) (ha' : a' ∈ os) (hp : posAddr g (chain a) a pos = some p)
    (hp' : posAddr g (chain a') a' pos' = some p) : a = a' ∧ pos = pos' := by
  have hroot : ∀ {k pos : ℕ}, pos < g.rootSize * g.bytesPerSector →
      g.rootSector * g.bytesPerSector + pos < g.clusterAddr k := by
    intro k pos hlt
    have hle := clusterAddr_le g k
    have hd := congrArg (· * g.bytesPerSector) h.data
    simp only [Nat.add_mul] at hd
    omega
  rcases posAddr_cases hp with ⟨⟨rfl, hr⟩, hlt, rfl⟩ | ⟨hn, k, hk, rfl⟩
  · rcases posAddr_cases hp' with ⟨⟨rfl, -⟩, hlt', he⟩ | ⟨-, k', -, he⟩
    · exact ⟨rfl, by omega⟩
    · have := hroot (k := k') hlt
      omega
  · rcases posAddr_cases hp' with ⟨-, hlt', he⟩ | ⟨hn', k', hk', he⟩
    · have := hroot (k := k) hlt'
      omega
    · have hm := List.mem_of_getElem? hk
      have hm' := List.mem_of_getElem? hk'
      have hmod := Nat.mod_lt pos (bytesPerCluster_pos g)
      have hmod' := Nat.mod_lt pos' (bytesPerCluster_pos g)
      obtain ⟨rfl, ho⟩ := cluster_unique (hc.ok a ha k hm) (hc.ok a' ha' k' hm') hmod hmod' he
      have haa : a = a' := by
        by_contra hne
        exact hc.disjoint a ha a' ha' hne k hm hm'
      subst haa
      obtain ⟨hj, -⟩ := List.getElem?_eq_some_iff.mp hk
      have hidx : pos / g.bytesPerCluster = pos' / g.bytesPerCluster :=
        (List.getElem?_inj hj (hc.nodup a ha)).mp (hk.trans hk'.symm)
      refine ⟨rfl, ?_⟩
      rw [← Nat.div_add_mod pos g.bytesPerCluster, ← Nat.div_add_mod pos' g.bytesPerCluster, hidx, ho]

end Chains

end FreeDos32.Fat
