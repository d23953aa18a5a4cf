import FreeDos32.Fat.CacheInvariant
import FreeDos32.Fat.CacheRuns

namespace FreeDos32.Fat

open Prog

/-- The volume as one array of bytes, as readers see it. -/
def Volume.byte (v : Volume) (a : ℕ) : UInt8 :=
  v.cache.logical (a / v.geo.bytesPerSector) (a % v.geo.bytesPerSector)

/-- The buffers of a mounted volume. As many sectors as `fat_mount` makes room for are too few for the
misplaced store of `fat_sync` to end up in one of them. -/
structure MediaOk (v : Volume) : Prop where
  cache : v.cache.Ok
  log : v.cache.logBytesPerSector = v.geo.logBytesPerSector
  two : 2 ≤ v.cache.numBuffers
  perBuffer : 2 ≤ v.cache.sectorsPerBuffer
  room : v.cache.numBuffers * v.cache.sectorsPerBuffer ≤ 512

theorem freshVolume_mediaOk (geo : Geometry) (env : Env) (device : ℕ → SectorData) (deviceEnd freeClusters : ℕ) :
    MediaOk (freshVolume geo env device deviceEnd freeClusters) where
  cache :=
    { noFault := fun _ => rfl
      perBuffer := Nat.succ_pos _
      some := Nat.succ_pos _
      lru := .refl _
      aligned := fun _ _ h => absurd h Bool.false_ne_true
      extent := fun _ _ h => absurd h Bool.false_ne_true
      clean := fun _ _ h => absurd h Bool.false_ne_true
      unique := fun _ _ _ _ h => absurd h Bool.false_ne_true }
  log := rfl
  two := Nat.le_of_ble_eq_true rfl
  perBuffer := Nat.le_of_ble_eq_true rfl
  room := Nat.le_of_ble_eq_true rfl

/-- `w` differs from `v` in the buffers at most, and readers see `m`. -/
structure Recached (m : ℕ → UInt8) (v w : Volume) : Prop where
  media : MediaOk w
  eq : w = v.setCache w.cache
  shape : Cache.SameShape v.cache w.cache
  byte : w.byte = m

variable {m m' : ℕ → UInt8} {u v w : Volume} {s o n b : ℕ} {r : ℕ × ℕ}

theorem MediaOk.of_same (h : MediaOk v) (hc : w.cache = v.cache) (hg : w.geo = v.geo) : MediaOk w := by
  obtain ⟨h1, h2, h3, h4, h5⟩ := h
  rw [← hc] at h1 h2 h3 h4 h5
  rw [← hg] at h2
  exact ⟨h1, h2, h3, h4, h5⟩

theorem bytesPerSector_pos (g : Geometry) : 0 < g.bytesPerSector := Nat.two_pow_pos _

theorem Recached.geo (h : Recached m v w) : w.geo = v.geo := by
  rw [h.eq]
  rfl

theorem Recached.refl (h : MediaOk v) : Recached v.byte v v := ⟨h, rfl, .refl _, rfl⟩

theorem Recached.trans (h : Recached m u v) (h' : Recached m' v w) : Recached m' u w := by
  refine ⟨h'.media, ?_, h.shape.trans h'.shape, h'.byte⟩
  have hv := h.eq
  have hw := h'.eq
  generalize v.cache = c at hv
  generalize w.cache = d at hw
  subst hv hw
  rfl

theorem MediaOk.recached (h : MediaOk v) {c : Cache SectorData} (hok : c.Ok) (hsh : Cache.SameShape v.cache c)
    (hm : ∀ a, c.logical (a / v.geo.bytesPerSector) (a % v.geo.bytesPerSector) = m a) :
    Recached m v (v.setCache c) where
  media := by
    refine ⟨hok, ?_, ?_, ?_, ?_⟩
    · exact hsh.log.trans h.log
    · exact hsh.num.symm ▸ h.two
    · exact hsh.perBuffer.symm ▸ h.perBuffer
    · have h1 := hsh.num
      have h2 := hsh.perBuffer
      simp only [Volume.setCache, h1, h2]
      exact h.room
  eq := rfl
  shape := hsh
  byte := funext hm

theorem sector_div (g : Geometry) (s : ℕ) (ho : o < g.bytesPerSector) :
    (s * g.bytesPerSector + o) / g.bytesPerSector = s := by
  rw [Nat.mul_comm, Nat.mul_add_div (bytesPerSector_pos g), Nat.div_eq_of_lt ho, Nat.add_zero]

theorem sector_mod (g : Geometry) (s : ℕ) (ho : o < g.bytesPerSector) :
    (s * g.bytesPerSector + o) % g.bytesPerSector = o := by
  rw [Nat.mul_comm, Nat.mul_add_mod, Nat.mod_eq_of_lt ho]

theorem byte_sector (v : Volume) (s : ℕ) (ho : o < v.geo.bytesPerSector) :
    v.byte (s * v.geo.bytesPerSector + o) = v.cache.logical s o := by
  rw [Volume.byte, sector_div _ _ ho, sector_mod _ _ ho]

/-- What `fat_readbuf` returns for a sector: a buffer that holds it and the offset of the sector there. -/
structure Seat (s : ℕ) (r : ℕ × ℕ) (v : Volume) : Prop where
  lt : r.1 < v.cache.numBuffers
  covers : (v.cache.buffers r.1).Covers s
  offset : r.2 = (s - (v.cache.buffers r.1).sector) * v.geo.bytesPerSector

theorem fatReadbuf_run (h : MediaOk v) (hs : s < v.cache.deviceEnd) (hint : Option ℕ)
    (hhint : ∀ k, hint = some k → k < v.cache.numBuffers) :
    ∃ r w, (fatReadbuf s hint).run v = (.ok r, w) ∧ Recached v.byte v w ∧ Seat s r w ∧
      w.cache.buffersLru = v.cache.buffersLru.erase r.1 ++ [r.1] ∧
      ∀ k ≠ v.cache.victim hint, w.cache.buffers k = v.cache.buffers k := by
  obtain ⟨b, d, hrun, hok, hl, hsh, hb, hcov, hlru, hother⟩ := h.cache.fatReadbuf_ok hhint hs
  refine ⟨_, v.setCache d, run_onCache hrun, ?_, ⟨?_, hcov, ?_⟩, hlru, hother⟩
  · exact h.recached hok hsh fun a => by rw [hl, Volume.byte]
  · exact hsh.num.symm ▸ hb
  · simp only [Volume.setCache, Nat.shiftLeft_eq, h.log, Geometry.bytesPerSector]

theorem Seat.index (h : Seat s r v) (ho : o < v.geo.bytesPerSector) :
    (r.2 + o) / v.geo.bytesPerSector = s - (v.cache.buffers r.1).sector ∧
      (r.2 + o) % v.geo.bytesPerSector = o := by
  rw [h.offset]
  exact ⟨sector_div _ _ ho, sector_mod _ _ ho⟩

theorem Seat.data (h : Seat s r v) (hm : MediaOk v) (ho : o < v.geo.bytesPerSector) :
    (v.cache.buffers r.1).data (s - (v.cache.buffers r.1).sector) o = v.byte (s * v.geo.bytesPerSector + o) := by
  rw [byte_sector v s ho, hm.cache.logical_covered h.lt h.covers]

theorem run_bufByte (h : Seat s r v) (hm : MediaOk v) (ho : o < v.geo.bytesPerSector) :
    (bufByte r.1 (r.2 + o)).run v = (.ok (v.byte (s * v.geo.bytesPerSector + o)), v) := by
  rw [bufByte, run_reads, (h.index ho).1, (h.index ho).2, h.data hm ho]

def bytesAt (m : ℕ → UInt8) (a n : ℕ) : List UInt8 := (List.range n).map fun j => m (a + j)

theorem run_bufBytes (h : Seat s r v) (hm : MediaOk v) (ho : o < v.geo.bytesPerSector)
    (hn : o + n ≤ v.geo.bytesPerSector) :
    (bufBytes r.1 (r.2 + o) n).run v = (.ok (bytesAt v.byte (s * v.geo.bytesPerSector + o) n), v) := by
  rw [bufBytes, run_reads, (h.index ho).1, (h.index ho).2, bytesAt]
  congr 2
  apply List.map_congr_left
  intro j hj
  have hj' : o + j < v.geo.bytesPerSector := by
    rw [List.mem_range] at hj
    omega
  rw [h.data hm hj', Nat.add_assoc]

theorem overlay_sector (g : Geometry) (L : ℕ → SectorData) (bytes : List UInt8) (ho : o + bytes.length ≤ g.bytesPerSector)
    (a : ℕ) :
    Function.update L s (overlay o bytes (L s)) (a / g.bytesPerSector) (a % g.bytesPerSector) =
      overlay (s * g.bytesPerSector + o) bytes (fun a => L (a / g.bytesPerSector) (a % g.bytesPerSector)) a := by
  have hdiv := Nat.div_add_mod a g.bytesPerSector
  have hmod := Nat.mod_lt a (bytesPerSector_pos g)
  by_cases hs : a / g.bytesPerSector = s
  · subst hs
    have hsub : a % g.bytesPerSector - o = a - (a / g.bytesPerSector * g.bytesPerSector + o) := by
      rw [Nat.mul_comm]
      omega
    have hcond : (o ≤ a % g.bytesPerSector ∧ a % g.bytesPerSector < o + bytes.length) ↔
        (a / g.bytesPerSector * g.bytesPerSector + o ≤ a ∧
          a < a / g.bytesPerSector * g.bytesPerSector + o + bytes.length) := by
      rw [Nat.mul_comm]
      omega
    rw [Function.update_self]
    unfold overlay
    rw [hsub]
    exact if_congr hcond rfl rfl
  · rw [Function.update_of_ne hs]
    unfold overlay
    rw [if_neg]
    rintro ⟨h1, h2⟩
    apply hs
    have hlt : a < (s + 1) * g.bytesPerSector := by
      rw [Nat.add_mul]
      omega
    exact Nat.div_eq_of_lt_le (by omega) hlt

/-- A store to a held sector that is then marked dirty writes to the volume; what happens to the rest of
the state between the two does not matter. -/
theorem bufWrite_dirty (h : Seat s r v) (hm : MediaOk v) (ho : o < v.geo.bytesPerSector) (bytes : List UInt8)
    (hlen : o + bytes.length ≤ v.geo.bytesPerSector) (writeThrough : Bool) :
    ∃ c d, (bufWrite r.1 (r.2 + o) bytes).run v = (.ok (), v.setCache c) ∧
      (∀ x : Volume, x.cache = c → (fatDirtybuf r.1 writeThrough).run x = (.ok (), x.setCache d)) ∧
      Recached (overlay (s * v.geo.bytesPerSector + o) bytes v.byte) v (v.setCache d) ∧
      ∀ k t, (d.buffers k).Covers t ↔ (v.cache.buffers k).Covers t := by
  obtain ⟨d, hrun, hok, hl, hsh, -, hcov⟩ := hm.cache.poke_dirty h.lt h.covers (overlay o bytes) writeThrough
  refine ⟨((Cache.pokeSector r.1 (s - (v.cache.buffers r.1).sector) (overlay o bytes)).run v.cache).2, d, ?_, ?_, ?_,
    hcov⟩
  · rw [bufWrite, run_bind_state, (h.index ho).1, (h.index ho).2]
    rfl
  · intro x hx
    apply run_onCache
    rw [hx, ← hrun]
    rfl
  · apply hm.recached hok hsh
    intro a
    rw [hl, overlay_sector _ _ _ hlen]
    rfl

theorem fatDirtybuf_run (h : Seat s r v) (hm : MediaOk v) :
    ∃ w, (fatDirtybuf r.1 false).run v = (.ok (), w) ∧ Recached v.byte v w := by
  obtain ⟨d, hrun, hok, hl, hsh, -, -⟩ := hm.cache.poke_dirty h.lt h.covers id false
  have hpoke : (Cache.pokeSector r.1 (s - (v.cache.buffers r.1).sector) id).run v.cache = (.ok (), v.cache) := by
    have hself : v.cache.setBuffer r.1 (v.cache.buffers r.1) = v.cache := by
      unfold Cache.setBuffer
      congr 1
      funext k
      split
      · rename_i hk
        rw [hk]
      · rfl
    simpa [Cache.pokeSector] using hself
  rw [run_bind_ok hpoke] at hrun
  refine ⟨_, run_onCache hrun, hm.recached hok hsh fun a => ?_⟩
  rw [hl]
  simp [Volume.byte]

theorem ne_victim (hm : MediaOk w) {l : List ℕ} (hlru : w.cache.buffersLru = l ++ [r.1]) :
    r.1 ≠ w.cache.victim none := by
  have hperm := hm.cache.lru
  have hlen := hperm.length_eq
  have hnodup := hperm.nodup_iff.mpr List.nodup_range
  have htwo := hm.two
  rw [Cache.victim, Option.getD_none, hlru]
  rw [hlru] at hlen hnodup
  cases l with
  | nil =>
    simp at hlen
    omega
  | cons x l =>
    intro he
    simp only [List.cons_append, List.headD_cons] at he
    subst he
    simp at hnodup

theorem fatReadbuf_two {s' : ℕ} (h : MediaOk v) (hs : s < v.cache.deviceEnd) (hs' : s' < v.cache.deviceEnd) :
    ∃ r w r' w', (fatReadbuf s none).run v = (.ok r, w) ∧ (fatReadbuf s' none).run w = (.ok r', w') ∧
      Recached v.byte v w' ∧ Seat s r w' ∧ Seat s' r' w' := by
  obtain ⟨r, w, hrun, hw, hseat, hlru, -⟩ := fatReadbuf_run h hs none (by simp)
  obtain ⟨r', w', hrun', hw', hseat', -, hother⟩ := fatReadbuf_run hw.media
    (hw.shape.deviceEnd.symm ▸ hs') none (by simp)
  have hsame := hother r.1 (ne_victim hw.media hlru)
  refine ⟨r, w, r', w', hrun, hrun', ?_, ⟨?_, ?_, ?_⟩, hseat'⟩
  · have := hw.trans hw'
    rwa [hw.byte] at this
  · exact hw'.shape.num.symm ▸ hseat.lt
  · rw [hsame]
    exact hseat.covers
  · rw [hsame, hw'.geo]
    exact hseat.offset

theorem Seat.of_covers (h : Seat s r v) (hm : MediaOk v) (hw : Recached m v w)
    (hcov : ∀ k t, (w.cache.buffers k).Covers t ↔ (v.cache.buffers k).Covers t) : Seat s r w := by
  have hcov' := (hcov r.1 s).mpr h.covers
  have hlt : r.1 < w.cache.numBuffers := hw.shape.num.symm ▸ h.lt
  refine ⟨hlt, hcov', ?_⟩
  rw [h.offset, hm.cache.sector_eq h.lt h.covers, hw.media.cache.sector_eq hlt hcov', hw.shape.perBuffer, hw.geo]

namespace Cache

variable {α : Type}

def poked (b k : ℕ) (g : α → α) (c : Cache α) : Cache α := c.setBuffer b
  { c.buffers b with data := fun j => if j = k then g ((c.buffers b).data j) else (c.buffers b).data j }

def marked (b : ℕ) (c : Cache α) : Cache α := c.setBuffer b { c.buffers b with dirty := true }

theorem run_pokeSector (b k : ℕ) (g : α → α) (c : Cache α) : (pokeSector b k g).run c = (.ok (), c.poked b k g) := rfl

theorem run_fatDirtybuf {b : ℕ} {c : Cache α} (hv : (c.buffers b).valid = true) :
    (fatDirtybuf b false).run c = (.ok (), c.marked b) := by
  rw [fatDirtybuf, run_bind_state, if_pos hv]
  rfl

theorem poked_valid (b k i : ℕ) (g : α → α) (c : Cache α) :
    ((c.poked b k g).buffers i).valid = (c.buffers i).valid := by
  by_cases hi : i = b
  · rw [hi, poked, setBuffer_same]
  · rw [poked, setBuffer_other hi]

theorem marked_valid (b i : ℕ) (c : Cache α) : ((c.marked b).buffers i).valid = (c.buffers i).valid := by
  by_cases hi : i = b
  · rw [hi, marked, setBuffer_same]
  · rw [marked, setBuffer_other hi]

theorem marked_poked (b b' k : ℕ) (g : α → α) (c : Cache α) : (c.poked b' k g).marked b = (c.marked b).poked b' k g := by
  unfold marked poked
  by_cases he : b' = b
  · subst he
    simp only [setBuffer_setBuffer, setBuffer_same]
  · have he' : b ≠ b' := fun h => he h.symm
    rw [setBuffer_other he, setBuffer_other he']
    unfold setBuffer
    congr 1
    funext j
    by_cases hj : j = b
    · simp [hj, he']
    · simp [hj]

theorem Ok.marked_poked {c : Cache α} (h : c.Ok) {b s : ℕ} (hb : b < c.numBuffers) (hc : (c.buffers b).Covers s)
    (g : α → α) :
    let d := (c.poked b (s - (c.buffers b).sector) g).marked b
    d.Ok ∧ d.logical = Function.update c.logical s (g (c.logical s)) ∧ SameShape c d ∧
      ∀ k t, (d.buffers k).Covers t ↔ (c.buffers k).Covers t := by
  obtain ⟨d, hrun, hok, hl, hsh, -, hcov⟩ := h.poke_dirty hb hc g false
  rw [run_bind_ok (run_pokeSector _ _ _ _), run_fatDirtybuf (by rw [poked_valid]; exact hc.1)] at hrun
  cases hrun
  exact ⟨hok, hl, hsh, hcov⟩

end Cache

theorem run_fatDirtybuf {c : Cache SectorData} (v : Volume) (hv : (c.buffers b).valid = true) :
    (fatDirtybuf b false).run (v.setCache c) = (.ok (), v.setCache (c.marked b)) :=
  run_onCache (v := v.setCache c) (Cache.run_fatDirtybuf hv)

theorem run_bufWrite (h : Seat s r v) (ho : o < v.geo.bytesPerSector) (c : Cache SectorData) (bytes : List UInt8) :
    (bufWrite r.1 (r.2 + o) bytes).run (v.setCache c) =
      (.ok (), v.setCache (c.poked r.1 (s - (v.cache.buffers r.1).sector) (overlay o bytes))) := by
  have hidx := h.index ho
  rw [bufWrite, run_bind_state]
  change (onCache (Cache.pokeSector r.1 ((r.2 + o) / v.geo.bytesPerSector) (overlay ((r.2 + o) % v.geo.bytesPerSector)
    bytes))).run (v.setCache c) = _
  rw [hidx.1, hidx.2]
  rfl

def stored (s : ℕ) (r : ℕ × ℕ) (o : ℕ) (bytes : List UInt8) (c : Cache SectorData) : Cache SectorData :=
  (c.poked r.1 (s - (c.buffers r.1).sector) (overlay o bytes)).marked r.1

theorem recached_stored (h : Seat s r v) (hm : MediaOk v) (bytes : List UInt8)
    (hlen : o + bytes.length ≤ v.geo.bytesPerSector) :
    Recached (overlay (s * v.geo.bytesPerSector + o) bytes v.byte) v (v.setCache (stored s r o bytes v.cache)) ∧
      ∀ k t, ((stored s r o bytes v.cache).buffers k).Covers t ↔ (v.cache.buffers k).Covers t := by
  obtain ⟨hok, hl, hsh, hcov⟩ := hm.cache.marked_poked h.lt h.covers (overlay o bytes)
  refine ⟨hm.recached hok hsh fun a => ?_, hcov⟩
  rw [stored, hl, overlay_sector _ _ _ hlen]
  rfl

theorem bufWrite_two {s' : ℕ} {r' : ℕ × ℕ} (h : Seat s r v) (h' : Seat s' r' v) (hm : MediaOk v) (o' : ℕ)
    (ho : o < v.geo.bytesPerSector) (ho' : o' < v.geo.bytesPerSector) (bytes bytes' : List UInt8)
    (hlen : o + bytes.length ≤ v.geo.bytesPerSector) (hlen' : o' + bytes'.length ≤ v.geo.bytesPerSector) :
    ∃ w, (do
        bufWrite r.1 (r.2 + o) bytes
        bufWrite r'.1 (r'.2 + o') bytes'
        fatDirtybuf r.1 false
        fatDirtybuf r'.1 false).run v = (.ok (), w) ∧
      Recached (overlay (s' * v.geo.bytesPerSector + o') bytes' (overlay (s * v.geo.bytesPerSector + o) bytes v.byte))
        v w := by
  obtain ⟨hre, hcov⟩ := recached_stored h hm bytes hlen
  have hseat := h'.of_covers hm hre hcov
  obtain ⟨hre', -⟩ := recached_stored hseat hre.media bytes' (o := o') hlen'
  have hsector : s' - ((stored s r o bytes v.cache).buffers r'.1).sector = s' - (v.cache.buffers r'.1).sector :=
    Nat.eq_of_mul_eq_mul_right (bytesPerSector_pos v.geo) (hseat.offset.symm.trans h'.offset)
  have hvalid : ((v.cache.poked r.1 (s - (v.cache.buffers r.1).sector) (overlay o bytes)).poked r'.1
      (s' - (v.cache.buffers r'.1).sector) (overlay o' bytes')).buffers r.1 |>.valid := by
    rw [Cache.poked_valid, Cache.poked_valid]
    exact h.covers.1
  refine ⟨_, ?_, hre.byte ▸ hre.trans hre'⟩
  change Prog.run _ (v.setCache v.cache) = _
  rw [run_bind_ok (run_bufWrite h ho v.cache bytes), run_bind_ok (run_bufWrite h' ho' _ bytes'),
    run_bind_ok (run_fatDirtybuf v hvalid), run_fatDirtybuf v (by
      rw [Cache.marked_valid, Cache.poked_valid, Cache.poked_valid]
      exact h'.covers.1)]
  rw [Cache.marked_poked r.1 r'.1, ← hsector]
  rfl

theorem bufferDataWrite_past (h : MediaOk v) {i : ℕ} (bytes : List UInt8)
    (hi : v.cache.numBuffers * (v.geo.bytesPerSector * v.cache.sectorsPerBuffer) ≤ i) :
    (bufferDataWrite i bytes).run v = (.ok (), v) := by
  have hsize : 0 < v.geo.bytesPerSector * v.cache.sectorsPerBuffer :=
    Nat.mul_pos (bytesPerSector_pos _) h.cache.perBuffer
  have hnot : ¬i / (v.geo.bytesPerSector * v.cache.sectorsPerBuffer) < v.cache.numBuffers := by
    rw [Nat.not_lt, Nat.le_div_iff_mul_le hsize]
    exact hi
  simp only [bufferDataWrite, run_bind_state, if_neg hnot, run_pure]

/-- The store meant for the FSInfo sector goes astray. -/
theorem syncFsinfo_run (h : MediaOk v) (hdev : 1 < v.cache.deviceEnd) :
    ∃ w, syncFsinfo.run v = (.ok (), w) ∧ Recached v.byte { v with fsinfoChanged := false } w := by
  obtain ⟨r, w, hrun, hw, hseat, -, -⟩ := fatReadbuf_run h hdev none (by simp)
  have hbase : (w.cache.buffers r.1).sector = 0 := by
    have hdvd := hw.media.cache.aligned r.1 hseat.lt hseat.covers.1
    have hle := hseat.covers.2.1
    have htwo := hw.media.perBuffer
    by_contra hne
    have := Nat.le_of_dvd (Nat.pos_of_ne_zero hne) hdvd
    omega
  have hoff : r.2 = w.geo.bytesPerSector := by
    rw [hseat.offset, hbase]
    simp
  have hgeo : v.geo.bytesPerSector = w.geo.bytesPerSector := by rw [hw.geo]
  have hper : v.cache.sectorsPerBuffer = w.cache.sectorsPerBuffer := hw.shape.perBuffer.symm
  have hroom : w.cache.numBuffers * (w.geo.bytesPerSector * w.cache.sectorsPerBuffer) ≤
      512 * w.geo.bytesPerSector := by
    have := Nat.mul_le_mul_right w.geo.bytesPerSector hw.media.room
    calc w.cache.numBuffers * (w.geo.bytesPerSector * w.cache.sectorsPerBuffer)
        = w.cache.numBuffers * w.cache.sectorsPerBuffer * w.geo.bytesPerSector := by
          rw [Nat.mul_comm w.geo.bytesPerSector, Nat.mul_assoc]
      _ ≤ 512 * w.geo.bytesPerSector := this
  have hpast : ∀ k, w.cache.numBuffers * (w.geo.bytesPerSector * w.cache.sectorsPerBuffer) ≤
      r.1 * (v.geo.bytesPerSector * v.cache.sectorsPerBuffer) + 512 * r.2 + k := by
    intro k
    rw [hoff]
    omega
  obtain ⟨x, hdirty, hx⟩ := fatDirtybuf_run hseat hw.media
  refine ⟨{ x with fsinfoChanged := false }, ?_, ?_⟩
  · rw [syncFsinfo, run_bind_state, run_bind_ok hrun]
    dsimp only
    rw [run_bind_ok (bufferDataWrite_past hw.media _ (hpast _)),
      run_bind_ok (bufferDataWrite_past hw.media _ (hpast _)), run_bind_ok (run_attempt_ok hdirty)]
    rfl
  · have hvx := hw.trans hx
    rw [hw.byte] at hvx
    refine ⟨⟨hvx.media.1, hvx.media.2, hvx.media.3, hvx.media.4, hvx.media.5⟩, ?_, hvx.shape, hvx.byte⟩
    have heq := hvx.eq
    generalize x.cache = c at heq
    subst heq
    rfl

theorem flushBuffers_run (h : MediaOk v) :
    ∃ w, (onCache (Cache.flushBuffers 0 v.cache.numBuffers)).run v = (.ok (), w) ∧ Recached v.byte v w := by
  obtain ⟨d, hrun, hok, hl, hsh, -, -, -⟩ := h.cache.flushBuffers_ok v.cache.numBuffers (k := 0) (by omega)
  exact ⟨_, run_onCache hrun, h.recached hok hsh fun a => by rw [hl, Volume.byte]⟩

theorem fatSync_run (h : MediaOk v) (hdev : 1 < v.cache.deviceEnd) :
    ∃ w x, fatSync.run v = (.ok (), w) ∧ Recached v.byte { v with fsinfoChanged := x } w := by
  rw [fatSync]
  by_cases hc : v.geo.fatType = .fat32 ∧ v.fsinfoChanged = true
  · obtain ⟨w, hrun, hw⟩ := syncFsinfo_run h hdev
    obtain ⟨t, hrun', ht⟩ := flushBuffers_run hw.media
    refine ⟨t, false, ?_, ?_⟩
    · rw [run_bind_state, when_pos hc, run_bind_ok hrun, ← hrun', hw.shape.num]
    · have := hw.trans ht
      rwa [hw.byte] at this
  · obtain ⟨t, hrun', ht⟩ := flushBuffers_run h
    refine ⟨t, v.fsinfoChanged, ?_, ht⟩
    rw [run_bind_state, when_neg hc]
    exact hrun'

end FreeDos32.Fat
