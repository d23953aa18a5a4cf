import FreeDos32.Fat.Media
import FreeDos32.Fat.Mount
import FreeDos32.Library.Blind

namespace FreeDos32.Fat

open Prog

namespace Cache

variable {α : Type}

/-- The cache over a device that never fails. -/
def faultless (c : Cache α) : Cache α := { c with fault := fun _ => false }

theorem fatBlockdevWrite_blindUntil (b count start : ℕ) :
    BlindUntil faultless (fatBlockdevWrite b count start : Prog (Cache α) Errno ℕ) := by
  intro c
  rw [fatBlockdevWrite, run_bind_state, run_bind_update]
  cases hf : c.fault c.transfers
  · rfl
  · trivial

theorem fatBlockdevRead_blindUntil (b count start : ℕ) :
    BlindUntil faultless (fatBlockdevRead b count start : Prog (Cache α) Errno ℕ) := by
  intro c
  rw [fatBlockdevRead, run_bind_state, run_bind_update]
  cases hf : c.fault c.transfers
  · rfl
  · trivial

theorem flushBuffer_blindUntil (b : ℕ) : BlindUntil faultless (flushBuffer b : Prog (Cache α) Errno Unit) :=
  .bind_state (fun _ => rfl) fun _ =>
    .ite (.bind (fatBlockdevWrite_blindUntil _ _ _) fun _ => .ite (.fail _) (.update fun _ => rfl))
      (.pure _)

theorem flushBuffers_blindUntil (k n : ℕ) : BlindUntil faultless (flushBuffers k n : Prog (Cache α) Errno Unit) := by
  induction n generalizing k with
  | zero => exact .pure ()
  | succ n ih => exact .bind (flushBuffer_blindUntil k) fun _ => ih (k + 1)

theorem loadBuffer_blindUntil (s b : ℕ) : BlindUntil faultless (loadBuffer s b : Prog (Cache α) Errno Unit) :=
  .bind (flushBuffer_blindUntil b) fun _ => .bind_state (fun _ => rfl) fun _ => .bind (.update fun _ => rfl) fun _ =>
    .bind (fatBlockdevRead_blindUntil _ _ _) fun _ => .ite (.fail _) (.update fun _ => rfl)

theorem fatReadbuf_blindUntil (s : ℕ) (hint : Option ℕ) :
    BlindUntil faultless (fatReadbuf s hint : Prog (Cache α) Errno (ℕ × ℕ)) := by
  refine .bind_state (fun _ => rfl) fun c => ?_
  have hrest : ∀ b, BlindUntil faultless (do
      Prog.update (touch b)
      Prog.reads (ε := Errno) fun c : Cache α => (b, (s - (c.buffers b).sector) <<< c.logBytesPerSector)) :=
    fun b => .bind (.update fun _ => rfl) fun _ => .reads fun _ => rfl
  exact .ite (.bind (loadBuffer_blindUntil _ _) fun _ => hrest _) (hrest _)

theorem fatDirtybuf_blind (b : ℕ) : Blind faultless (fatDirtybuf b false : Prog (Cache α) Errno Unit) :=
  .bind_state (fun _ => rfl) fun _ => .ite (.bind (.update fun _ => rfl) fun _ => .pure _) (.fail _)

end Cache

def Volume.faultless (v : Volume) : Volume := v.setCache v.cache.faultless

section Faults

variable {α : Type}

theorem onCache_blindUntil {x : Prog (Cache SectorData) Errno α} (h : BlindUntil Cache.faultless x) :
    BlindUntil Volume.faultless (onCache x) := .within (fun _ => rfl) (fun _ _ => rfl) h

theorem onCache_blind {x : Prog (Cache SectorData) Errno α} (h : Blind Cache.faultless x) :
    Blind Volume.faultless (onCache x) := .within (fun _ => rfl) (fun _ _ => rfl) h

theorem bufferDataWrite_blind (i : ℕ) (bytes : List UInt8) : Blind Volume.faultless (bufferDataWrite i bytes) :=
  .bind_state (fun _ => rfl) fun _ => .ite (.bind_state (fun _ => rfl) fun _ => onCache_blind (.update fun _ => rfl)) (.pure _)

theorem fatSync_blindUntil : BlindUntil Volume.faultless fatSync := by
  refine .bind_state (fun _ => rfl) fun v => .bind (.when ?_) fun _ => onCache_blindUntil (Cache.flushBuffers_blindUntil _ _)
  refine .bind_state (fun _ => rfl) fun v => .bind (onCache_blindUntil (Cache.fatReadbuf_blindUntil _ _)) fun r => ?_
  refine .bind (bufferDataWrite_blind _ _).blindUntil fun _ => .bind (bufferDataWrite_blind _ _).blindUntil fun _ => ?_
  exact .bind (onCache_blind (Cache.fatDirtybuf_blind _)).attempt.blindUntil fun _ => .update fun _ => rfl

end Faults

/-- The two fields of the FSInfo sector that change, from byte 488 on. -/
def fsinfoFields (v : Volume) : List UInt8 := le32 v.freeClusters ++ le32 v.nextFree

/-- The FSInfo sector on the device has the volume's numbers, and nothing else has been changed. -/
structure FsinfoWritten (s : ℕ) (v w : Volume) : Prop where
  fields : ∀ i < 8, w.cache.device s (488 + i) = (fsinfoFields v).getD i 0
  others : ∀ t, ∀ o < v.geo.bytesPerSector, ¬(t = s ∧ 488 ≤ o ∧ o < 496) → w.cache.device t o = v.cache.logical t o

/-- The FSInfo sector has the volume's numbers already. -/
def FsinfoCurrent (s : ℕ) (v : Volume) : Prop := ∀ i < 8, v.cache.logical s (488 + i) = (fsinfoFields v).getD i 0

variable {v w : Volume} {s : ℕ}

theorem fatSync_device (hm : MediaOk v.faultless) (hfat : v.geo.fatType = .fat32) (hchanged : v.fsinfoChanged = true)
    (hrun : fatSync.run v = (.ok (), w)) {o : ℕ} (t : ℕ) (ho : o < v.geo.bytesPerSector) :
    w.cache.device t o = v.cache.logical t o := by
  have hquiet := fatSync_blindUntil.ok v () w hrun
  have hdev : 1 < v.faultless.cache.deviceEnd := by
    by_contra hdev
    have hnone : ∀ k, (none : Option ℕ) = some k → k < v.faultless.cache.numBuffers := nofun
    obtain ⟨d, hread, -⟩ := hm.cache.fatReadbuf_past hnone hdev
    rw [fatSync, run_bind_state, when_pos ⟨hfat, hchanged⟩, run_bind_error (t := v.faultless.setCache d)] at hquiet
    · cases hquiet
    · rw [syncFsinfo, run_bind_state]
      exact run_bind_error (run_onCache hread)
  obtain ⟨x, hsync, hx⟩ := syncFsinfo_run hm hdev
  obtain ⟨d, hflush, hok, hl, hsh, -, hclean, -⟩ := hx.media.cache.flushBuffers_ok x.cache.numBuffers (k := 0) (by omega)
  have hw : w.faultless = x.setCache d := by
    rw [fatSync, run_bind_state, when_pos ⟨hfat, hchanged⟩, run_bind_ok hsync] at hquiet
    have hnum : v.faultless.cache.numBuffers = x.cache.numBuffers := hx.shape.num.symm
    rw [hnum, run_onCache hflush] at hquiet
    exact (congrArg Prod.snd hquiet).symm
  have hdevice : d.device = d.logical :=
    hok.device_eq_logical fun b hb => hclean b (.inr ⟨Nat.zero_le b, by rw [Nat.zero_add, ← hsh.num]; exact hb⟩)
  calc w.cache.device t o = w.faultless.cache.device t o := rfl
    _ = x.cache.logical t o := by
        rw [hw]
        change d.device t o = _
        rw [hdevice, hl]
    _ = x.byte (t * v.geo.bytesPerSector + o) := by
        have hgeo : x.geo = v.geo := hx.geo
        rw [← hgeo] at ho ⊢
        exact (byte_sector x t ho).symm
    _ = v.faultless.byte (t * v.geo.bytesPerSector + o) := by rw [hx.byte]
    _ = v.cache.logical t o := byte_sector v.faultless t ho

/-- The counts never get into the FSInfo sector: `fat_sync` does what it should just when they are there. -/
theorem fatSync_fsinfo (hm : MediaOk v.faultless) (hlog : 9 ≤ v.geo.logBytesPerSector) (hfat : v.geo.fatType = .fat32)
    (hchanged : v.fsinfoChanged = true) (hrun : fatSync.run v = (.ok (), w)) :
    FsinfoWritten s v w ↔ FsinfoCurrent s v := by
  have hdev := fun {o} t ho => fatSync_device (o := o) hm hfat hchanged hrun t ho
  have hbytes : 512 ≤ v.geo.bytesPerSector := Nat.pow_le_pow_right (Nat.succ_pos 1) hlog
  constructor
  · intro h i hi
    rw [← hdev s (by omega)]
    exact h.fields i hi
  · intro h
    refine ⟨fun i hi => ?_, fun t o ho _ => hdev t ho⟩
    rw [hdev s (by omega)]
    exact h i hi

/-- A FAT32 volume of 70000 sectors; its FSInfo sector is 1 and tells of five free clusters. -/
def bigDevice : ℕ → SectorData := fun s =>
  if s = 0 then
    overlay 11 [0, 2, 1, 2, 0, 1, 0, 0, 0, 0, 0xF8] (overlay 32 [0x70, 0x11, 1, 0, 0x58, 2, 0, 0, 0, 0, 0, 0, 2, 0, 0, 0, 1]
      (overlay 510 [0x55, 0xAA] fun _ => 0))
  else if s = 1 then
    overlay 0 (le32 fatFsiSig1) (overlay 484 (le32 fatFsiSig2 ++ le32 5 ++ le32 fatFsiNa) (overlay 508 (le32 fatFsiSig3) fun _ => 0))
  else fun _ => 0

def bigGeometry : Geometry := mountedGeometry (bigDevice 0) (Bpb.geometry (bigDevice 0) 9 0 1000)

def bigVolume : Volume := { freshVolume bigGeometry quietEnv bigDevice 70000 5 with fsinfoChanged := true }

theorem fatSync_fsinfo_current : ∃ w, fatSync.run bigVolume = (.ok (), w) ∧ FsinfoWritten 1 bigVolume w := by
  have hm := freshVolume_mediaOk bigGeometry quietEnv bigDevice 70000 5
  have hbig : MediaOk bigVolume := ⟨hm.cache, hm.log, hm.two, hm.perBuffer, hm.room⟩
  have hfaultless : MediaOk bigVolume.faultless := hbig
  obtain ⟨w, _, hrun, -⟩ := fatSync_run hbig (by decide)
  refine ⟨w, hrun, (fatSync_fsinfo hfaultless (by decide) (by decide) rfl hrun).mpr ?_⟩
  unfold FsinfoCurrent
  decide

/-- What `find_free_cluster` notes after the volume is mounted does not come to the device. -/
theorem fatSync_fsinfo_lost :
    ∃ v w x, fatMount ⟨70000, 512⟩ bigDevice quietEnv (.ok ()) 1000 = .ok v ∧ findFreeCluster.run v = (.ok 2, w) ∧
      w.fsinfoChanged = true ∧ fatSync.run w = (.ok (), x) ∧ ¬FsinfoWritten (Bpb.fsinfoSector (bigDevice 0)) w x := by
  obtain ⟨v, hv, hfind, hchanged, hsync, hnext, hdev⟩ := Outcome.exists_ok (o := fatMount ⟨70000, 512⟩ bigDevice quietEnv (.ok ()) 1000)
    (P := fun v => (findFreeCluster.run v).1 = .ok 2 ∧ (findFreeCluster.run v).2.fsinfoChanged = true ∧
      (fatSync.run (findFreeCluster.run v).2).1 = .ok () ∧ (findFreeCluster.run v).2.nextFree = 2 ∧
      (fatSync.run (findFreeCluster.run v).2).2.cache.device 1 492 = 0xFF) (by decide +kernel)
  refine ⟨v, _, _, hv, Prod.ext hfind rfl, hchanged, Prod.ext hsync rfl, fun h => ?_⟩
  have hfield := h.fields 4 (by decide)
  rw [fsinfoFields, hnext] at hfield
  have hsector : Bpb.fsinfoSector (bigDevice 0) = 1 := by decide
  have hlow : (le32 (findFreeCluster.run v).2.freeClusters ++ le32 2).getD 4 0 = 2 := rfl
  rw [hsector, hlow] at hfield
  exact absurd (hdev.symm.trans hfield) (by decide)

end FreeDos32.Fat
