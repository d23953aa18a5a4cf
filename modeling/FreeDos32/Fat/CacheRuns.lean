import FreeDos32.Fat.CacheInvariant
import FreeDos32.Fat.Volume

namespace FreeDos32.Fat

structure Mounted (v : Volume) : Prop where
  noFault : ∀ k, v.cache.fault k = false
  perBuffer : 0 < v.cache.sectorsPerBuffer
  some : 0 < v.cache.numBuffers
  invalid : ∀ b, (v.cache.buffers b).valid = false
  lru : v.cache.buffersLru = List.range v.cache.numBuffers

/-- The caller's store of a whole sector at a byte offset of a buffer, then `fat_dirtybuf`. -/
def storeSector (b offset : ℕ) (x : SectorData) (writeThrough : Bool) : FatM Unit := do
  let v ← Prog.state
  onCache (Cache.pokeSector b (offset >>> v.cache.logBytesPerSector) fun _ => x)
  fatDirtybuf b writeThrough

/-- The runs of the buffer cache: `returned` lists the buffers `fat_readbuf` has returned, `stored` is
what has been stored last at each sector, or what the device held. A sector can be stored to as long
as the buffer that was returned for it still holds it. -/
inductive BufferRun (v₀ : Volume) : List ℕ → (ℕ → SectorData) → Volume → Prop
  | mount : BufferRun v₀ [] v₀.cache.device v₀
  | read {returned stored v w s hint b offset} (h : BufferRun v₀ returned stored v)
      (hhint : ∀ k, hint = some k → k ∈ returned)
      (hrun : (fatReadbuf s hint).run v = (.ok (b, offset), w)) : BufferRun v₀ (b :: returned) stored w
  | readError {returned stored v w s hint e} (h : BufferRun v₀ returned stored v)
      (hhint : ∀ k, hint = some k → k ∈ returned)
      (hrun : (fatReadbuf s hint).run v = (.error e, w)) : BufferRun v₀ returned stored w
  | store {returned stored v w s b x writeThrough r} (h : BufferRun v₀ returned stored v)
      (hb : b ∈ returned) (hs : (v.cache.buffers b).Covers s)
      (hrun : (storeSector b ((s - (v.cache.buffers b).sector) <<< v.cache.logBytesPerSector) x
        writeThrough).run v = (r, w)) : BufferRun v₀ returned (Function.update stored s x) w
  | sync {returned stored v w r} (h : BufferRun v₀ returned stored v)
      (hrun : fatSync.run v = (r, w)) : BufferRun v₀ returned stored w

theorem Mounted.ok {v : Volume} (h : Mounted v) : v.cache.Ok where
  noFault := h.noFault
  perBuffer := h.perBuffer
  some := h.some
  lru := by rw [h.lru]
  aligned b _ hv := by simp [h.invalid b] at hv
  extent b _ hv := by simp [h.invalid b] at hv
  clean b _ hv := by simp [h.invalid b] at hv
  unique b _ _ _ hv := by simp [h.invalid b] at hv

theorem Mounted.logical {v : Volume} (h : Mounted v) : v.cache.logical = v.cache.device := by
  funext s
  exact Cache.Ok.logical_uncovered fun b _ hc => by simp [Buffer.Covers, h.invalid b] at hc

theorem run_onCache {α : Type} {x : Prog (Cache SectorData) Errno α} {v : Volume} {r : Outcome Errno α}
    {c : Cache SectorData} (h : x.run v.cache = (r, c)) : (onCache x).run v = (r, v.setCache c) := by
  rw [onCache, Prog.run_within, h]

theorem run_fatSync {v : Volume} (h : v.geo.fatType ≠ .fat32) :
    fatSync.run v = (onCache (Cache.flushBuffers 0 v.cache.numBuffers)).run v := by
  rw [fatSync, Prog.run_bind_state, Prog.when_neg (fun hc => h hc.1)]
  rfl

theorem run_storeSector {v : Volume} {b s : ℕ} (x : SectorData) (writeThrough : Bool) :
    (storeSector b ((s - (v.cache.buffers b).sector) <<< v.cache.logBytesPerSector) x writeThrough).run v =
      (onCache (do
        Cache.pokeSector b (s - (v.cache.buffers b).sector) fun _ => x
        Cache.fatDirtybuf b writeThrough)).run v := by
  rw [storeSector, Prog.run_bind_state, Nat.shiftLeft_shiftRight]
  rfl

/-- What holds of the volume all along a run. -/
structure BufferInv (returned : List ℕ) (stored : ℕ → SectorData) (v : Volume) : Prop where
  ok : v.cache.Ok
  logical : v.cache.logical = stored
  returned : ∀ b ∈ returned, b < v.cache.numBuffers
  notFat32 : v.geo.fatType ≠ .fat32

variable {v₀ v w : Volume} {returned : List ℕ} {stored : ℕ → SectorData}

namespace BufferInv

theorem hint_lt (h : BufferInv returned stored v) {hint : Option ℕ} (hhint : ∀ k, hint = some k → k ∈ returned) :
    ∀ k, hint = some k → k < v.cache.numBuffers := fun k hk => h.returned k (hhint k hk)

theorem of_cache (h : BufferInv returned stored v) {c : Cache SectorData} {m : ℕ → SectorData}
    (hok : c.Ok) (hl : c.logical = m) (hsh : Cache.SameShape v.cache c) :
    BufferInv returned m (v.setCache c) :=
  ⟨hok, hl, fun b hb => hsh.num ▸ h.returned b hb, h.notFat32⟩

theorem readbuf (h : BufferInv returned stored v) {s : ℕ} {hint : Option ℕ}
    (hhint : ∀ k, hint = some k → k ∈ returned) (hs : s < v.cache.deviceEnd) :
    ∃ b offset w, (fatReadbuf s hint).run v = (.ok (b, offset), w) ∧ BufferInv (b :: returned) stored w ∧
      (w.cache.buffers b).data (offset >>> w.cache.logBytesPerSector) = stored s := by
  obtain ⟨b, d, hrun, hok, hl, hsh, hb, hcov, -, -⟩ := h.ok.fatReadbuf_ok (h.hint_lt hhint) hs
  have hinv := h.of_cache hok (hl.trans h.logical) hsh
  refine ⟨b, _, v.setCache d, run_onCache hrun, ⟨hinv.ok, hinv.logical, ?_, hinv.notFat32⟩, ?_⟩
  · intro k hk
    rcases List.mem_cons.mp hk with rfl | hk
    · exact hsh.num.symm ▸ hb
    · exact hinv.returned k hk
  · have hlog := hok.logical_covered (hsh.num.symm ▸ hb) hcov
    rw [hl, h.logical] at hlog
    rw [hlog]
    simp only [Volume.setCache, hsh.log, Nat.shiftLeft_shiftRight]

theorem readbuf_past (h : BufferInv returned stored v) {s : ℕ} {hint : Option ℕ}
    (hhint : ∀ k, hint = some k → k ∈ returned) (hs : ¬s < v.cache.deviceEnd) :
    ∃ w, (fatReadbuf s hint).run v = (.error .eio, w) ∧ BufferInv returned stored w := by
  obtain ⟨d, hrun, hok, hl, hsh⟩ := h.ok.fatReadbuf_past (h.hint_lt hhint) hs
  exact ⟨_, run_onCache hrun, h.of_cache hok (hl.trans h.logical) hsh⟩

theorem store (h : BufferInv returned stored v) {s b : ℕ} (hb : b ∈ returned)
    (hs : (v.cache.buffers b).Covers s) (x : SectorData) (writeThrough : Bool) :
    ∃ w, (storeSector b ((s - (v.cache.buffers b).sector) <<< v.cache.logBytesPerSector) x
        writeThrough).run v = (.ok (), w) ∧ BufferInv returned (Function.update stored s x) w := by
  obtain ⟨d, hrun, hok, hl, hsh, -, -⟩ := h.ok.poke_dirty (h.returned b hb) hs (fun _ => x) writeThrough
  refine ⟨v.setCache d, ?_, h.of_cache hok (h.logical ▸ hl) hsh⟩
  rw [run_storeSector]
  exact run_onCache hrun

theorem sync (h : BufferInv returned stored v) :
    ∃ w, fatSync.run v = (.ok (), w) ∧ BufferInv returned stored w ∧ w.cache.device = stored := by
  obtain ⟨d, hrun, hok, hl, hsh, -, hclean, -⟩ :=
    h.ok.flushBuffers_ok v.cache.numBuffers (k := 0) (by omega)
  have hinv := h.of_cache hok (hl.trans h.logical) hsh
  refine ⟨v.setCache d, (run_fatSync h.notFat32).trans (run_onCache hrun), hinv, ?_⟩
  refine (hok.device_eq_logical fun b hb => hclean b (.inr ⟨Nat.zero_le b, ?_⟩)).trans hinv.logical
  rw [Nat.zero_add, ← hsh.num]
  exact hb

end BufferInv

theorem BufferRun.inv (h₀ : Mounted v₀) (ht : v₀.geo.fatType ≠ .fat32)
    (h : BufferRun v₀ returned stored v) : BufferInv returned stored v := by
  induction h with
  | mount => exact ⟨h₀.ok, h₀.logical, by simp, ht⟩
  | @read returned stored v w s hint b offset _ hhint hrun ih =>
    by_cases hs : s < v.cache.deviceEnd
    · obtain ⟨b', offset', w', hrun', hinv, -⟩ := ih.readbuf hhint hs
      cases hrun.symm.trans hrun'
      exact hinv
    · obtain ⟨w', hrun', -⟩ := ih.readbuf_past hhint hs
      cases hrun.symm.trans hrun'
  | @readError returned stored v w s hint e _ hhint hrun ih =>
    by_cases hs : s < v.cache.deviceEnd
    · obtain ⟨b', offset', w', hrun', -⟩ := ih.readbuf hhint hs
      cases hrun.symm.trans hrun'
    · obtain ⟨w', hrun', hinv⟩ := ih.readbuf_past hhint hs
      cases hrun.symm.trans hrun'
      exact hinv
  | store _ hb hs hrun ih =>
    obtain ⟨w', hrun', hinv⟩ := ih.store hb hs _ _
    cases hrun.symm.trans hrun'
    exact hinv
  | sync _ hrun ih =>
    obtain ⟨w', hrun', hinv, -⟩ := ih.sync
    cases hrun.symm.trans hrun'
    exact hinv

/-- In every state of every run: `fat_readbuf` succeeds on the sectors of the device and points at what
was stored there last, no two buffers hold the same sector, the LRU list has each buffer once, and
`fat_sync` succeeds and leaves that same array on the device. -/
theorem bufferRun_transparent (h₀ : Mounted v₀) (ht : v₀.geo.fatType ≠ .fat32)
    (h : BufferRun v₀ returned stored v) :
    (∀ s hint, (∀ k, hint = some k → k ∈ returned) → s < v.cache.deviceEnd →
      ∃ b offset w, (fatReadbuf s hint).run v = (.ok (b, offset), w) ∧
        (w.cache.buffers b).data (offset >>> w.cache.logBytesPerSector) = stored s) ∧
    (∀ b < v.cache.numBuffers, ∀ b' < v.cache.numBuffers, ∀ s,
      (v.cache.buffers b).Covers s → (v.cache.buffers b').Covers s → b = b') ∧
    v.cache.buffersLru.Perm (List.range v.cache.numBuffers) ∧
    ∃ w, fatSync.run v = (.ok (), w) ∧ w.cache.device = stored := by
  have hinv := h.inv h₀ ht
  refine ⟨?_, ?_, hinv.ok.lru, ?_⟩
  · intro s hint hhint hs
    obtain ⟨b, offset, w, hrun, -, hdata⟩ := hinv.readbuf hhint hs
    exact ⟨b, offset, w, hrun, hdata⟩
  · intro b hb b' hb' s hc hc'
    exact hinv.ok.covers_unique hb hb' hc hc'
  · obtain ⟨w, hrun, -, hdev⟩ := hinv.sync
    exact ⟨w, hrun, hdev⟩

theorem bufferRun_transparent_floppy : ∃ v, BufferRun emptyFloppy [0] (Function.update emptyFloppy.cache.device 1
    fun _ => 7) v ∧ ∃ w, fatSync.run v = (.ok (), w) ∧ w.cache.device 1 0 = 7 := by
  have hm : Mounted emptyFloppy := ⟨fun _ => rfl, by decide, by decide, fun _ => rfl, rfl⟩
  have hread : BufferRun emptyFloppy [0] emptyFloppy.cache.device ((fatReadbuf 1 none).run emptyFloppy).2 :=
    .read .mount (fun _ hk => absurd hk (by simp)) (show (fatReadbuf 1 none).run emptyFloppy = (.ok (0, 512), _) from rfl)
  have hr : BufferRun emptyFloppy [0] (Function.update emptyFloppy.cache.device 1 fun _ => 7) _ :=
    .store hread (List.mem_singleton.mpr rfl) (by decide)
      (show (storeSector 0 _ (fun _ => 7) false).run _ = (.ok (), _) from rfl)
  obtain ⟨-, -, -, w, hw, hd⟩ := bufferRun_transparent hm (by decide) hr
  refine ⟨_, hr, w, hw, ?_⟩
  rw [hd, Function.update_self]

end FreeDos32.Fat
