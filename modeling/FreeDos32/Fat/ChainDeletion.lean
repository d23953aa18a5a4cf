import FreeDos32.Fat.Fsinfo
import FreeDos32.Fat.Layout
import FreeDos32.Library.Erasing

namespace FreeDos32.Fat

open Prog

variable {v w : Volume} {n fuel : ℕ}

/-- Where the entry of a cluster leads to, if it is an entry and not an end mark. -/
def chainLink (v : Volume) (n : ℕ) : Option ℕ :=
  if v.geo.dataClusters + 1 < n ∨ table v.geo v.byte n = fatEoc then none else some (table v.geo v.byte n)

theorem chainLink_stored (hg : GeoOk v.geo v.cache.deviceEnd) (hgeo : w.geo = v.geo)
    (hbyte : w.byte = storeEntry v.geo n 0 v.byte) (hn : n ≤ v.geo.dataClusters + 1) :
    chainLink w = Function.update (chainLink v) n (some 0) := by
  funext k
  have hentry : ∀ k ≤ v.geo.dataClusters + 1, table w.geo w.byte k = if k = n then 0 else table v.geo v.byte k := by
    intro k hk
    rw [hgeo, hbyte]
    exact fatEntry_storeEntry hg (.inl (Nat.zero_le _)) hn hk hg.active
  rcases Nat.lt_or_ge (v.geo.dataClusters + 1) k with hk | hk
  · have hne : k ≠ n := by omega
    rw [Function.update_of_ne hne, chainLink, chainLink, hgeo, if_pos (.inl hk), if_pos (.inl hk)]
  by_cases hkn : k = n
  · subst hkn
    rw [Function.update_self, chainLink, hentry k hn, if_pos rfl, hgeo, if_neg]
    unfold fatEoc
    omega
  · rw [Function.update_of_ne hkn, chainLink, chainLink, hentry k hk, if_neg hkn, hgeo]

theorem deleteCluster_run (hm : MediaOk v) (hg : GeoOk v.geo v.cache.deviceEnd) (hn : n ≤ v.geo.dataClusters + 1) :
    ∃ w, MediaOk w ∧ GeoOk w.geo w.cache.deviceEnd ∧ chainLink w = Function.update (chainLink v) n (some 0) ∧
      ∀ fuel, (deleteClustersLoop (fuel + 1) n).run v = (if table v.geo v.byte n = fatEoc then pure ()
        else deleteClustersLoop fuel (table v.geo v.byte n)).run w := by
  obtain ⟨u, hread, hu⟩ := readFatEntry_run hm hg hn
  have hug : GeoOk u.geo u.cache.deviceEnd := by
    rw [hu.geo, hu.shape.deviceEnd]
    exact hg
  obtain ⟨x, hwrite, hx⟩ := writeFatEntry_run hu.media hug (n := n) (by rw [hu.geo]; exact hn) 0
  have hgeo : x.geo = v.geo := hx.geo.trans hu.geo
  have hbyte : x.byte = storeEntry v.geo n 0 v.byte := by rw [hx.byte, hu.geo, hu.byte]
  refine ⟨{ x with freeClusters := (x.freeClusters + 1) % 2 ^ 32, fsinfoChanged := true },
    ⟨hx.media.1, hx.media.2, hx.media.3, hx.media.4, hx.media.5⟩, ?_, chainLink_stored hg hgeo hbyte hn, fun fuel => ?_⟩
  · show GeoOk x.geo x.cache.deviceEnd
    rw [hgeo, hx.shape.deviceEnd, hu.shape.deviceEnd]
    exact hg
  · rw [deleteClustersLoop, run_bind_ok hread, run_bind_ok hwrite, run_bind_update]
    rfl

/-- Deleting a chain walks over the table and makes each entry that it has read lead to entry 0. -/
theorem deleteClustersLoop_hang_iff (hm : MediaOk v) (hg : GeoOk v.geo v.cache.deviceEnd) :
    ((deleteClustersLoop fuel n).run v).1 = .hang ↔ eraseWalk 0 fuel (chainLink v) n = false := by
  induction fuel generalizing v n with
  | zero => exact ⟨fun _ => rfl, fun _ => rfl⟩
  | succ fuel ih =>
    rw [eraseWalk]
    rcases Nat.lt_or_ge (v.geo.dataClusters + 1) n with hn | hn
    · rw [deleteClustersLoop, run_bind_error (readFatEntry_past hn), chainLink, if_pos (.inl hn)]
      simp
    obtain ⟨w, hw, hwg, hlink, hrun⟩ := deleteCluster_run hm hg hn
    rw [hrun]
    by_cases heoc : table v.geo v.byte n = fatEoc
    · rw [if_pos heoc, chainLink, if_pos (.inr heoc)]
      simp
    · have hnext : chainLink v n = some (table v.geo v.byte n) :=
        if_neg fun h => h.elim (fun hlt => absurd hlt (Nat.not_lt.mpr hn)) heoc
      rw [if_neg heoc, hnext]
      have hrest := ih (n := table v.geo v.byte n) hw hwg
      rwa [hlink] at hrest

section Faults

theorem readFatEntry_blindUntil (n : ℕ) : BlindUntil Volume.faultless (readFatEntry n) := by
  have hseek : ∀ t k, BlindUntil Volume.faultless (fatSeek t n k) := fun t k =>
    .bind_state (fun _ => rfl) fun v => .ite (.fail _) (.pure _)
  have hbyte : ∀ b i, BlindUntil Volume.faultless (bufByte b i) := fun b i => .reads fun _ => rfl
  have hbuf : ∀ s, BlindUntil Volume.faultless (fatReadbuf s none) := fun s =>
    onCache_blindUntil (Cache.fatReadbuf_blindUntil _ _)
  refine .bind_state (fun _ => rfl) fun v => .bind_state (fun _ => rfl) fun u => ?_
  cases u.geo.fatType
  · refine .bind (hseek _ _) fun r => .bind_state (fun _ => rfl) fun x => .bind (hbuf _) fun b => ?_
    refine .ite (.bind (hbyte _ _) fun _ => .bind (hbyte _ _) fun _ => .pure _) ?_
    exact .bind (hbuf _) fun _ => .bind (hbyte _ _) fun _ => .bind (hbyte _ _) fun _ => .pure _
  · exact .bind (hseek _ _) fun r => .bind (hbuf _) fun b => .bind (hbyte _ _) fun _ => .bind (hbyte _ _) fun _ => .pure _
  · exact .bind (hseek _ _) fun r => .bind (hbuf _) fun b => .bind (.reads fun _ => rfl) fun _ => .pure _

theorem writeFatEntry_blindUntil (n value : ℕ) : BlindUntil Volume.faultless (writeFatEntry n value) := by
  have hseek : ∀ t k, BlindUntil Volume.faultless (fatSeek t n k) := fun t k =>
    .bind_state (fun _ => rfl) fun v => .ite (.fail _) (.pure _)
  have hbyte : ∀ b i, BlindUntil Volume.faultless (bufByte b i) := fun b i => .reads fun _ => rfl
  have hbuf : ∀ s, BlindUntil Volume.faultless (fatReadbuf s none) := fun s =>
    onCache_blindUntil (Cache.fatReadbuf_blindUntil _ _)
  have hwrite : ∀ b i bytes, BlindUntil Volume.faultless (bufWrite b i bytes) := fun b i bytes =>
    .bind_state (fun _ => rfl) fun _ => onCache_blindUntil (.update fun _ => rfl)
  have hdirty : ∀ b, BlindUntil Volume.faultless (fatDirtybuf b false) := fun b =>
    (onCache_blind (Cache.fatDirtybuf_blind b)).blindUntil
  have hone : ∀ k, BlindUntil Volume.faultless (vFatWrite n k value) := by
    intro k
    refine .bind_state (fun _ => rfl) fun u => ?_
    cases u.geo.fatType
    · refine .bind (hseek _ _) fun r => .bind_state (fun _ => rfl) fun x => .bind (hbuf _) fun b => .ite ?_ ?_
      · exact .bind (hbyte _ _) fun _ => .bind (hbyte _ _) fun _ => .bind (hwrite _ _ _) fun _ => hdirty _
      · exact .bind (hbuf _) fun _ => .bind (hbyte _ _) fun _ => .bind (hbyte _ _) fun _ =>
          .bind (hwrite _ _ _) fun _ => .bind (hwrite _ _ _) fun _ => .bind (hdirty _) fun _ => hdirty _
    · exact .bind (hseek _ _) fun r => .bind (hbuf _) fun b => .bind (hwrite _ _ _) fun _ => hdirty _
    · exact .bind (hseek _ _) fun r => .bind (hbuf _) fun b => .bind (.reads fun _ => rfl) fun _ =>
        .bind (hwrite _ _ _) fun _ => hdirty _
  have hcopies : ∀ j k, BlindUntil Volume.faultless (writeFatCopies n value k j) := by
    intro j
    induction j with
    | zero => exact fun _ => .pure ()
    | succ j ih => exact fun k => .bind (hone k) fun _ => ih (k + 1)
  exact .bind_state (fun _ => rfl) fun v => hcopies _ _

theorem deleteClustersLoop_blindUntil (fuel n : ℕ) : BlindUntil Volume.faultless (deleteClustersLoop fuel n) := by
  induction fuel generalizing n with
  | zero => exact .diverge
  | succ fuel ih =>
    refine .bind (readFatEntry_blindUntil n) fun next => .bind (writeFatEntry_blindUntil n 0) fun _ => ?_
    exact .bind (.update fun _ => rfl) fun _ => .ite (.pure ()) (ih next)

end Faults

/-- The loop of `fat_delete_clusters` comes to an end. -/
def DeletionEnds (v : Volume) (start : ℕ) : Prop := ∃ fuel, ((deleteClustersLoop fuel start).run v).1 ≠ .hang

theorem mem_range_of_chainLink {v : Volume} {n : ℕ} (h : chainLink v n ≠ none) :
    n ∈ List.range (v.geo.dataClusters + 2) := by
  rw [List.mem_range]
  by_contra hlt
  exact h (if_pos (.inl (Nat.le_of_not_lt hlt)))

/-- Deleting the chain from `start` on ends if this chain or the one from entry 0 comes to an end mark or to a number that
is no cluster's, whichever transfers fail; and if none fails, only then. -/
theorem fatDeleteClusters_ends_iff (hm : MediaOk v.faultless) (hg : GeoOk v.geo v.cache.deviceEnd) (start : ℕ) :
    ((Leaves (chainLink v) start ∨ Leaves (chainLink v) 0) → DeletionEnds v start) ∧
      ((∀ k, v.cache.fault k = false) → DeletionEnds v start →
        Leaves (chainLink v) start ∨ Leaves (chainLink v) 0) := by
  have hiff := fun fuel => @deleteClustersLoop_hang_iff _ start fuel hm hg
  constructor
  · intro hleave
    obtain ⟨fuel, hfuel⟩ := (exists_eraseWalk_iff fun _ => mem_range_of_chainLink).mpr hleave
    refine ⟨fuel, fun hhang => ?_⟩
    have hquiet := (hiff fuel).mp ((deleteClustersLoop_blindUntil fuel start).hang hhang)
    exact Bool.noConfusion (hquiet.symm.trans hfuel)
  · rintro hnone ⟨fuel, hfuel⟩
    have hquiet : v.faultless = v := by
      rw [Volume.faultless, Cache.faultless, ← funext hnone]
      rfl
    refine (exists_eraseWalk_iff fun _ => mem_range_of_chainLink).mp ⟨fuel, ?_⟩
    by_contra hwalk
    rw [hquiet] at hiff
    exact hfuel ((hiff fuel).mpr (Bool.eq_false_of_not_eq_true hwalk))

/-- A small FAT12 volume where clusters 2 and 3 lead to each other. -/
def loopFloppy : Volume := freshVolume floppyGeometry quietEnv
  (fun s i => if s = 1 ∨ s = 2 then [0xF8, 0xFF, 0xFF, 0x03, 0x20, 0x00].getD i 0 else 0) 10 4

theorem fatDeleteClusters_ends_loopFloppy : DeletionEnds loopFloppy 2 := by
  refine (fatDeleteClusters_ends_iff (v := loopFloppy) (freshVolume_mediaOk _ _ _ _ _) floppyGeometry_geoOk 2).1 ?_
  exact .inr (.stop (by decide +kernel))

/-- Two files without clusters are deleted. The first deletion clears entry 0, which leads to itself then. -/
theorem fatDeleteClusters_emptyFiles : ∃ w, (fatDeleteClusters 0).run emptyFloppy = (.ok (), w) ∧ ¬DeletionEnds w 0 := by
  obtain ⟨w, hm, hg, hlink, hrun⟩ := deleteCluster_run (v := emptyFloppy) (n := 0) (freshVolume_mediaOk _ _ _ _ _)
    floppyGeometry_geoOk (Nat.zero_le _)
  have heoc : table emptyFloppy.geo emptyFloppy.byte 0 = fatEoc := by decide +kernel
  refine ⟨w, ?_, ?_⟩
  · have hbound := hrun 999
    rw [if_pos heoc] at hbound
    exact hbound
  · rintro ⟨fuel, hfuel⟩
    refine hfuel ((deleteClustersLoop_hang_iff hm hg).mpr (Bool.eq_false_of_not_eq_true fun hwalk => ?_))
    have hself : chainLink w 0 = some 0 := by rw [hlink, Function.update_self]
    exact not_leaves_self hself ((eraseWalk_leaves hwalk).elim id id)

end FreeDos32.Fat
