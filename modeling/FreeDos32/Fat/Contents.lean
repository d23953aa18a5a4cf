import FreeDos32.Fat.Release

namespace FreeDos32.Fat

open Prog

variable {G : Layout} {b : Books} {g : Geometry} {e : ℕ} {m m' : ℕ → UInt8} {u v w : Volume} {a c x f n pos : ℕ}

theorem Found.lt (ho : Orderly G (books u) u.byte) (hc : Usable G u c) (hv : Still G u v) {i s : ℕ}
    (h : Found G u c i (some s) w) : s < v.cache.deviceEnd := by
  have hg : GeoOk u.geo v.cache.deviceEnd := hv.geo ▸ hv.sound.geo
  have hat := h.1 0 (bytesPerSector_pos _)
  have hlt := Chains.posAddr_lt hg ho.chains (hc.owner ho) hat
  rw [Nat.add_zero] at hlt
  exact Nat.lt_of_mul_lt_mul_right hlt

section Read

variable (ho : Orderly G (books u) u.byte) (hc : Usable G u c)

include ho hc in
theorem readLoop_still (size fuel k offset : ℕ) {hint : Option ℕ} (hhint : ∀ k, hint = some k → k < u.cache.numBuffers) :
    Triple (Still G u) (readLoop c size fuel k offset hint) (fun _ => Still G u) (fun _ _ => False) := by
  induction fuel generalizing k offset hint with
  | zero => exact .pure fun _ h => h
  | succ fuel ih =>
    refine .bind_state fun y hy => .ite (fun _ => .pure fun _ h => h.2) fun _ => ?_
    refine .bind ((fatGetFileSector_still ho hc _).conseq (fun _ h => h.2) (fun _ _ h => h) fun _ _ h => h) fun r => ?_
    cases r with
    | none => exact .pure fun _ h => h.1
    | some s =>
      rintro v ⟨hv, hfound⟩
      have hnum : v.cache.numBuffers = u.cache.numBuffers := congrArg Books.numBuffers hv.books
      obtain ⟨r, w, hrun, hw, hseat, -, -⟩ := fatReadbuf_run hv.sound.media (hfound.lt ho hc hv) hint
        (by rw [hnum]; exact hhint)
      rw [run_bind_ok hrun]
      simp only [bufBytes, run_bind_reads]
      refine Triple.bind (P := Still G u) (R := fun _ => Still G u) (Q := fun _ => Still G u) (E := fun _ _ => False)
        (ih _ _ ?_) (fun _ => .pure fun _ h => h) w (hv.recached hw)
      rintro _ ⟨⟩
      rw [← hnum, ← hw.shape.num]
      exact hseat.lt

/-- What reading the slot at position `pos` of a directory gives. -/
structure SlotRead (G : Layout) (u : Volume) (c pos : ℕ) (de : List UInt8) (w : Volume) : Prop where
  still : Still G u w
  bytes : de = (G.at u.geo (u.home c) pos).elim [] fun p => bytesAt u.byte p 32
  cluster : de ≠ [] → ¬(u.home c = 0 ∧ u.geo.rootCluster = 0) →
    (G.chain (u.home c))[pos / u.geo.bytesPerCluster]? = some (w.channels c).cluster

theorem fatRead_slot (ho : Orderly G (books u) u.byte) (hc : Usable G u c)
    (hd : (u.files (u.channels c).f).de.isDir = true) (hpos : 32 ∣ pos) :
    Triple (fun v => Still G u v ∧ (v.channels c).filePointer = pos) (fatRead c 32)
      (fun bytes w => SlotRead G u c pos bytes w ∧ (w.channels c).filePointer = pos + bytes.length)
      (fun _ => Still G u) := by
  rintro v ⟨hv, rfl⟩
  by_cases hno : (v.channels c).magic = false ∨ (v.channels c).isNotReadable = true
  · rw [fatRead, run_bind_state]
    dsimp only
    rw [if_pos hno]
    exact hv
  · have hr : (v.channels c).Reads := by
      rw [not_or, Bool.not_eq_false, Bool.not_eq_true] at hno
      exact ⟨hno.1, hno.2⟩
    have hde : (v.files (v.channels c).f).de.isDir = true := by
      rw [hv.channelFile, show (v.files (u.channels c).f).de = _ from congrArg FileInfo.de (hv.file _)]
      exact hd
    obtain ⟨w, hrun, hw, -, hon, hfp, hcl⟩ := fatRead_run hv.sound (hc.onChain ho hv) hde hr hpos
    rw [hc.atFixedRoot ho hv, hv.geo, hv.byte] at hrun hfp
    rw [hc.atFixedRoot ho hv, hv.geo] at hcl
    rw [hrun]
    refine ⟨⟨hv.onChain hw hon, ?_, fun hne hroot => hcl ?_ (decide_eq_false hroot)⟩, hfp⟩
    · rw [Layout.at, posAddr_eq]
      rfl
    · intro hnone
      rw [slotBytes, hnone] at hne
      exact hne rfl

end Read

theorem setChain_same (G : Layout) (a : ℕ) : G.setChain a (G.chain a) G.loose = G := by
  rw [Layout.setChain, Function.update_eq_self]

theorem Orderly.setFile {y : FileInfo} (h : Orderly G b m) (hf : f ∈ b.filesOpen) (hfg : f ∉ G.goneFiles)
    (haddr : y.addr b.geo = b.fileAddr f) (hy : FileOk G b.geo m y) (hname : ∀ i < 11, y.de i = (b.file f).de i)
    (hst : f ∉ G.stale ∨ y.deChanged = false) : Orderly G (b.setFile f y) m := by
  have hown : b.fileAddr f ∈ G.owners := (h.files.file f hf hfg).owner
  have hrec := Recorded.setFile h.toRecorded hf hfg haddr (.refl _ h.entries hown)
    (by rw [setChain_same]; exact hy) hname hst
  rw [setChain_same] at hrec
  exact { hrec with chains := h.chains, reserved := h.reserved, free := h.free }

theorem Tidy.setFile {g : File → File} (h : Tidy G v) (hf : f ∈ v.filesOpen) (hfg : f ∉ G.goneFiles)
    (haddr : (g (v.files f)).info.addr v.geo = (books v).fileAddr f) (hy : FileOk G v.geo v.byte (g (v.files f)).info)
    (hname : ∀ i < 11, (g (v.files f)).de i = (v.files f).de i) (hst : f ∉ G.stale ∨ (g (v.files f)).deChanged = false) :
    Tidy G (v.setFile f g) := by
  refine ⟨h.sound.of_same rfl rfl, ?_, fun k hk hkg => ?_⟩
  · rw [books_setFile]
    exact h.order.setFile hf hfg haddr hy hname hst
  · have hcur := h.cursors k hk hkg
    unfold CursorOk at hcur ⊢
    rw [books_setFile, Books.setFile_addr haddr]
    exact hcur

theorem live_of_name {de de' : Direntry} (hname : ∀ i < 11, de' i = de i)
    (hattr : hasAttr de'.attr fatAVolid = hasAttr de.attr fatAVolid) : de'.Live ↔ de.Live := by
  have hn : de'.name = de.name := by
    unfold Direntry.name
    apply List.map_congr_left
    intro i hi
    exact hname i (List.mem_range.mp hi)
  simp only [Direntry.Live, hn, hname 0 (by omega), hattr]

theorem FileOk.touch {y : FileInfo} {de : Direntry} (h : FileOk G g m y) (hname : ∀ i < 11, de i = y.de i)
    (hvol : hasAttr de.attr fatAVolid = hasAttr y.de.attr fatAVolid)
    (hdir : hasAttr de.attr fatADir = hasAttr y.de.attr fatADir) (hfc : de.firstCluster = y.de.firstCluster)
    (hsize : y.de.isDir = false → 0 < de.fileSize → y.firstCluster ≠ 0) :
    FileOk G g m { y with de := de, deChanged := true } where
  place := h.place
  owner := h.owner
  first := h.first
  de := hfc.trans h.de
  dir := by
    change hasAttr de.attr fatADir = true ↔ _
    rw [hdir]
    exact h.dir
  live h0 := (live_of_name hname hvol).mpr (h.live h0)
  flushed hc := absurd hc (by simp)
  size hd hs := by
    change hasAttr de.attr fatADir = false at hd
    rw [hdir] at hd
    exact hsize hd hs
  shows hd h0 := by
    change hasAttr de.attr fatADir = true ∨ _ at hd
    rw [hdir] at hd
    exact h.shows hd h0

theorem hasAttr_archiv {bit : UInt8} (a : UInt8) (h : fatAArchiv &&& bit = 0) :
    hasAttr (a ||| fatAArchiv) bit = hasAttr a bit := by
  have hand : (a ||| fatAArchiv) &&& bit = a &&& bit := by
    apply UInt8.eq_of_toBitVec_eq
    have h' : fatAArchiv.toBitVec &&& bit.toBitVec = 0#8 := congrArg UInt8.toBitVec h
    rw [UInt8.toBitVec_and, UInt8.toBitVec_or, BitVec.and_or_distrib_right, h', BitVec.or_zero, UInt8.toBitVec_and]
  rw [hasAttr, hasAttr, hand]

theorem Tidy.recached (h : Tidy G v) (hw : Recached m v w) (hs : SameSlots G v.geo v.byte m)
    (hout : ∀ x < v.geo.rootSector * v.geo.bytesPerSector, m x = v.byte x) : Tidy G w := by
  refine ⟨hw.sound h.sound, ?_, hw.cursors h.cursors⟩
  rw [hw.books, hw.byte]
  refine h.order.sameSlots hs (fun n hn => ?_) fun k hk n hn => ?_
  · exact fatEntry_outside h.sound.geo h.sound.geo.active hn hout
  · exact fatEntry_outside h.sound.geo hk (by omega) hout

theorem sameSlots_refl (G : Layout) (g : Geometry) (m : ℕ → UInt8) : SameSlots G g m m :=
  fun _ _ _ _ _ _ _ => .inl fun _ _ => rfl

theorem Tidy.setFsinfo (h : Tidy G v) (x : Bool) : Tidy G { v with fsinfoChanged := x } :=
  ⟨h.sound.of_same rfl rfl, h.order, h.cursors⟩

theorem fatSync_tidy (h : Tidy G v) : ∃ w, fatSync.run v = (.ok (), w) ∧ Tidy G w ∧ books w = books v ∧
    w.byte = v.byte ∧ w.channels = v.channels := by
  obtain ⟨w, x, hrun, hw⟩ := fatSync_run h.sound.media h.sound.geo.one_lt_device
  have hx := h.setFsinfo x
  exact ⟨w, hrun, hx.recached hw (sameSlots_refl _ _ _) fun _ _ => rfl, hw.books, hw.byte, hw.channels⟩

end FreeDos32.Fat
