import FreeDos32.Fat.Truncate

namespace FreeDos32.Fat

open Prog

variable {G G' : Layout} {v w : Volume} {c k n r size offset fuel : ℕ} {hint : Option ℕ}

theorem SectorFound.full (h : SectorFound v.geo false (G.chain (v.home c)) (offset / v.geo.bytesPerSector) k none) :
    (G.chain (v.home c)).length * v.geo.bytesPerCluster ≤ offset := by
  obtain ⟨hlen, -⟩ := h.2 rfl
  have hsec := (Nat.le_div_iff_mul_le (sectorsPerCluster_pos v.geo)).mp hlen
  have hmul := Nat.mul_le_mul_right v.geo.bytesPerSector hsec
  have hdiv := Nat.div_mul_le_self offset v.geo.bytesPerSector
  rw [bytesPerCluster_eq, ← Nat.mul_assoc]
  omega

/-- The loop of `fat_do_write` takes no cluster that it does not store to. -/
theorem doWriteLoop_taken (buffer : Option (List UInt8)) (h : Writes G v c) (hk : k ≤ size)
    (hend : offset + (size - k) < 2 ^ 32) (hhint : ∀ j, hint = some j → j < v.cache.numBuffers)
    (hfuel : size - k + v.freeClusters < fuel)
    (hoff : offset ≤ (G.chain (v.home c)).length * v.geo.bytesPerCluster)
    (hrun : (doWriteLoop c buffer size fuel k offset hint).run v = (.ok r, w)) :
    v.freeClusters + (G.chain (v.home c)).length ≤ w.freeClusters +
      max (G.chain (v.home c)).length (clustersFor v.geo (offset + min (size - k) (capacity G v c - offset))) := by
  induction fuel generalizing G v k offset hint with
  | zero => omega
  | succ fuel ih =>
    rw [doWriteLoop] at hrun
    by_cases hdone : k ≥ size
    · rw [if_pos hdone] at hrun
      have hw : v = w := congrArg Prod.snd hrun
      rw [← hw]
      omega
    rw [if_neg hdone, run_bind_state] at hrun
    have hmod := Nat.mod_lt offset (bytesPerSector_pos v.geo)
    obtain ⟨s, x, hget, hx, -, -, hon, hfound⟩ := fatGetFileSector_run h.sound h.onChain (offset / v.geo.bytesPerSector)
    have hstill : Still G v x := h.still_refl.onChain hx hon
    have hxw : Writes G x c := h.still hstill
    have hxgrown : Grown G v c G x := .of_still h hstill
    have hxnum : x.cache.numBuffers = v.cache.numBuffers := hx.shape.num
    have hroot : v.atFixedRoot c = false := h.chained.notFixed
    rw [hroot] at hfound
    rw [run_bind_ok hget] at hrun
    have hcap := hxgrown.capacity
    cases s with
    | none =>
      have hpast := hfound.full
      have hlast : G.chain (x.home c) ≠ [] → (G.chain (x.home c)).getLast? = some (x.channels c).cluster := by
        rw [hstill.home]
        exact (hfound.2 rfl).2
      rcases fatAppendCluster_run hxw.chained hxw.still_refl hlast with ⟨y, z, happ, ha, hch⟩ | ⟨⟨z, happ, hz⟩, hfull⟩
      · obtain ⟨hgrown, hfree, -⟩ := hxw.appended ha hch
        have hall := hxgrown.trans hgrown
        have hxfree : x.freeClusters = v.freeClusters := congrArg Books.freeClusters hstill.books
        have hchain : (G.setChain (x.home c) (G.chain (x.home c) ++ [y]) G.loose).chain (v.home c) =
            G.chain (v.home c) ++ [y] := by rw [hstill.home, Layout.setChain_self]
        have hlen := congrArg List.length hchain
        rw [List.length_append, List.length_singleton] at hlen
        rw [run_bind_ok (run_attempt_ok happ)] at hrun
        have hih := ih hall.writes hk hend (by rw [hall.numBuffers]; exact hhint) (by omega)
          (by rw [hall.home, hall.geo, hlen, Nat.add_mul]; omega) hrun
        rw [hall.capacity, hall.home, hall.geo, hlen] at hih
        -- the new cluster is stored to
        have hroom : ((G.chain (v.home c)).length + 1) * v.geo.bytesPerCluster ≤ capacity G v c :=
          Nat.mul_le_mul_right _ (by omega)
        have hpos := bytesPerCluster_pos v.geo
        rw [Nat.add_mul, Nat.one_mul] at hroom
        have hneed : (G.chain (v.home c)).length + 1 ≤
            clustersFor v.geo (offset + min (size - k) (capacity G v c - offset)) := by
          by_contra hle
          have := (clustersFor_le_iff v.geo).mp (Nat.le_of_lt_succ (Nat.lt_of_not_le hle))
          omega
        omega
      · rw [run_bind_ok (run_attempt_error happ)] at hrun
        by_cases hk0 : k = 0
        · dsimp only at hrun
          rw [if_neg fun hc => hc.2 hk0] at hrun
          cases congrArg Prod.fst hrun
        · dsimp only at hrun
          rw [if_pos ⟨rfl, hk0⟩] at hrun
          have hw : z = w := congrArg Prod.snd hrun
          have hzfree : z.freeClusters = v.freeClusters := congrArg Books.freeClusters (hstill.trans hz).books
          rw [← hw, hzfree]
          omega
    | some s =>
      dsimp only at hrun
      generalize hn₁ : (if k + (v.geo.bytesPerSector - offset % v.geo.bytesPerSector) > size then size - k
        else v.geo.bytesPerSector - offset % v.geo.bytesPerSector) = n₁ at hrun
      have hn₁' : 0 < n₁ ∧ k + n₁ ≤ size ∧ offset % v.geo.bytesPerSector + n₁ ≤ v.geo.bytesPerSector := by
        rw [← hn₁]
        split <;> omega
      have hne : G.chain (x.home c) ≠ [] := by
        rw [hstill.home]
        intro hnil
        have hat := hfound.2 rfl
        rw [hnil] at hat
        cases hat
      obtain ⟨hgrown, -⟩ := hxw.growTo hne (n := offset + n₁) (by omega)
      have hall := hxgrown.trans hgrown
      have hfound' : SectorFound (x.growTo c (offset + n₁)).geo false (G.chain ((x.growTo c (offset + n₁)).home c))
          (offset / v.geo.bytesPerSector) (x.channels c).cluster (some s) := by
        rw [hall.geo, hall.home]
        exact hfound
      obtain ⟨b, y, z, t, h1, h2, h3, hst, -, hb⟩ := hall.writes.store (writeSlice buffer k n₁) hint hfound'
        (o := offset % v.geo.bytesPerSector) (by rw [hall.geo, length_writeSlice]; exact hn₁'.2.2)
        (by rw [length_writeSlice]; exact hn₁'.1) (by rw [hall.numBuffers]; exact hhint)
        (hasFlag (v.channels c).flags oFsync)
      have hgrow : (Prog.update (fun v => if hasAttr (v.files (v.channels c).f).de.attr fatADir = false ∧
          offset + n₁ ≥ (v.files (v.channels c).f).de.fileSize
          then v.setFile (v.channels c).f fun f => { f with de := f.de.setFileSize (offset + n₁) }
          else v) : FatM Unit).run x = (.ok (), x.growTo c (offset + n₁)) := rfl
      rw [run_bind_ok hgrow, run_bind_ok h1, run_bind_ok h2, run_bind_ok h3] at hrun
      have hst' := hall.trans hst.toGrown
      have hsame : t.freeClusters = v.freeClusters := by
        obtain ⟨l, hG, hl⟩ := hst'.chain
        have hnil : (G.chain (v.home c)).length = (G.chain (v.home c) ++ l).length := by
          have hself := congrArg (fun G : Layout => (G.chain (v.home c)).length) hG
          rw [Layout.setChain_self] at hself
          exact hself
        rw [List.length_append] at hnil
        omega
      have hroom := hfound.room
      rw [Nat.add_mul, Nat.one_mul] at hroom
      have hdm : offset / v.geo.bytesPerSector * v.geo.bytesPerSector + offset % v.geo.bytesPerSector = offset := by
        rw [Nat.mul_comm]
        exact Nat.div_add_mod _ _
      have hih := ih hst'.writes hn₁'.2.1 (by omega) (by rintro _ ⟨⟩; rw [hst.numBuffers]; exact hb) (by omega)
        (by rw [hst'.home, hst'.geo]; omega) hrun
      rw [hst'.capacity, hst'.home, hst'.geo, hsame] at hih
      have hcap : (G.chain (v.home c)).length * v.geo.bytesPerCluster ≤ capacity G v c :=
        Nat.mul_le_mul_right _ (Nat.le_add_right _ _)
      have hsum : offset + n₁ + min (size - (k + n₁)) (capacity G v c - (offset + n₁)) =
          offset + min (size - k) (capacity G v c - offset) := by omega
      rw [hsum] at hih
      exact hih

theorem fatTimestamps_free : Keeps Volume.freeClusters fatTimestamps :=
  .bind .state fun _ => .bind (.update fun _ => rfl) fun _ => .pure _

theorem onCache_free {α : Type} (x : Prog (Cache SectorData) Errno α) : Keeps Volume.freeClusters (onCache x) :=
  fun _ => rfl

theorem bufferDataWrite_free (i : ℕ) (bytes : List UInt8) : Keeps Volume.freeClusters (bufferDataWrite i bytes) :=
  .bind .state fun _ => .ite (.bind .state fun _ => onCache_free _) (.pure _)

theorem fatSync_free : Keeps Volume.freeClusters fatSync := by
  refine .bind .state fun _ => .bind (.when ?_) fun _ => onCache_free _
  refine .bind .state fun _ => .bind (onCache_free _) fun _ => .bind (bufferDataWrite_free _ _) fun _ => ?_
  refine .bind (bufferDataWrite_free _ _) fun _ => .bind (.attempt (onCache_free _)) fun _ => ?_
  exact .update fun _ => rfl

theorem fatDoWrite_taken (buffer : Option (List UInt8)) (h : WellFormed G v) (hc : Usable G v c)
    (hd : (v.files (v.channels c).f).de.isDir = false) (hn : 0 < n)
    (hpos : offset ≤ (v.files (v.channels c).f).de.fileSize) (hfit : offset + n ≤ 0xFFFFFFFF)
    (hloop : 2 ^ 32 + v.geo.dataClusters ≤ v.geo.loopBound) (hroom : offset < capacity G v c)
    (hk : k = min n (capacity G v c - offset)) :
    ∃ G' w, (fatDoWrite c buffer n offset).run v = (.ok k, w) ∧
      Changed G v c (spliced (contents G v (v.channels c).f) offset (writeSlice buffer 0 k)) G' w ∧
      (G'.chain (v.home c)).length = max (G.chain (v.home c)).length (clustersFor v.geo (offset + k)) := by
  obtain ⟨G', w, hrun, hw⟩ := fatDoWrite_contents buffer h hc hd hn hpos hfit hloop hroom
  rw [← hk] at hrun hw
  refine ⟨G', w, hrun, hw, ?_⟩
  have hwrites := h.writes hc hd
  have hfull : (v.files (v.channels c).f).de.fileSize ≤ (G.chain (v.home c)).length * v.geo.bytesPerCluster :=
    h.full _ hc.file hd
  have hfree : v.freeClusters ≤ v.geo.dataClusters := hwrites.chained.free ▸ zeros_le _ _
  have htaken : v.freeClusters + (G.chain (v.home c)).length ≤ w.freeClusters +
      max (G.chain (v.home c)).length (clustersFor v.geo (offset + k)) := by
    have hreg : hasAttr (v.files (v.channels c).f).de.attr fatADir = false := hd
    rw [fatDoWrite, run_bind_state] at hrun
    dsimp only at hrun
    rw [if_neg (by omega), if_neg (fun hc => by rw [hreg] at hc; exact absurd hc.1 (by decide)), if_neg (by omega)] at hrun
    obtain ⟨r, x, hx, hrest⟩ := exists_of_bind_ok hrun
    have hloop' := doWriteLoop_taken buffer hwrites (Nat.zero_le n) (by omega) (by simp) (by omega) (by omega) hx
    rw [Nat.sub_zero, ← hk] at hloop'
    have hsame : w.freeClusters = x.freeClusters := by
      have hkeep : Keeps Volume.freeClusters (do
          Prog.when (hasAttr (v.files (v.channels c).f).de.attr fatADir = false) do
            let now ← fatTimestamps
            Prog.update (Volume.setFile (v.channels c).f (File.stampModified now))
          Prog.when (hasFlag (v.channels c).flags oSync = true) fatSync
          pure r : FatM ℕ) := by
        refine .bind (.when (.bind fatTimestamps_free fun _ => .update fun _ => rfl)) fun _ => ?_
        exact .bind (.when fatSync_free) fun _ => .pure _
      have hx' := hkeep x
      rw [hrest] at hx'
      exact hx'
    omega
  obtain ⟨l, hG, hl⟩ := hw.chain
  have hchain : (G'.chain (v.home c)).length = (G.chain (v.home c)).length + l.length := by
    rw [hG, Layout.setChain_self, List.length_append]
  have hlow : clustersFor v.geo (offset + k) ≤ (G'.chain (v.home c)).length := by
    have hfull' : (w.files (v.channels c).f).de.fileSize ≤ (G'.chain (v.home c)).length * v.geo.bytesPerCluster := by
      have := hw.wellFormed.full _ hw.writes.usable.file hw.writes.regular
      rw [hw.channelFile, hw.fileAddr, hw.geo] at this
      exact this
    rw [hw.size, length_spliced, length_writeSlice] at hfull'
    exact (clustersFor_le_iff v.geo).mpr (by omega)
  omega

/-- Where the file is full and no cluster is left, nothing is stored. -/
theorem fatDoWrite_nospace (buffer : Option (List UInt8)) (h : WellFormed G v) (hc : Usable G v c)
    (hd : (v.files (v.channels c).f).de.isDir = false) (hn : 0 < n) (hfit : offset + n ≤ 0xFFFFFFFF)
    (hloop : 2 ^ 32 + v.geo.dataClusters ≤ v.geo.loopBound) (hnone : v.freeClusters = 0)
    (hfull : capacity G v c ≤ offset) :
    ∃ w, (fatDoWrite c buffer n offset).run v = (.error .enospc, w) ∧ Still G v w := by
  have hreg : hasAttr (v.files (v.channels c).f).de.attr fatADir = false := hd
  have hwrites := h.writes hc hd
  rw [capacity, hnone, Nat.add_zero] at hfull
  obtain ⟨s, x, hget, hx, -, -, hon, hfound⟩ := fatGetFileSector_run h.sound hwrites.onChain (offset / v.geo.bytesPerSector)
  have hstill : Still G v x := hwrites.still_refl.onChain hx hon
  have hxw := hwrites.still hstill
  have hroot : v.atFixedRoot c = false := hwrites.chained.notFixed
  rw [hroot] at hfound
  obtain ⟨fuel, hfuel⟩ : ∃ fuel, v.geo.loopBound = fuel + 1 := ⟨v.geo.loopBound - 1, by omega⟩
  rw [fatDoWrite, run_bind_state]
  dsimp only
  rw [if_neg (by omega), if_neg (fun hc => by rw [hreg] at hc; exact absurd hc.1 (by decide)), if_neg (by omega), hfuel]
  cases s with
  | some s =>
    have hroom := hfound.room
    have hmod := Nat.div_add_mod offset v.geo.bytesPerSector
    have hlt := Nat.mod_lt offset (bytesPerSector_pos v.geo)
    rw [Nat.add_mul, Nat.one_mul, Nat.mul_comm] at hroom
    omega
  | none =>
    have hlast : G.chain (x.home c) ≠ [] → (G.chain (x.home c)).getLast? = some (x.channels c).cluster := by
      rw [hstill.home]
      exact (hfound.2 rfl).2
    have hxfree : x.freeClusters = 0 := (congrArg Books.freeClusters hstill.books).trans hnone
    rcases fatAppendCluster_run hxw.chained hxw.still_refl hlast with ⟨y, z, -, ha, hch⟩ | ⟨⟨z, happ, hz⟩, -⟩
    · obtain ⟨-, hfree, -⟩ := hxw.appended ha hch
      omega
    · refine ⟨z, ?_, hstill.trans hz⟩
      apply run_bind_error
      rw [doWriteLoop, if_neg (by omega), run_bind_state, run_bind_ok hget]
      dsimp only
      rw [run_bind_ok (run_attempt_error happ)]
      rfl

end FreeDos32.Fat
