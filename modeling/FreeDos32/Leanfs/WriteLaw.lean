import FreeDos32.Fat.WriteLaw
import FreeDos32.Leanfs.Truncate
import FreeDos32.Leanfs.Writing

namespace FreeDos32.Leanfs

open Prog
open Fat (spliced spliced_inside length_spliced hasFlag)

variable {v w u : Volume} {x y z : Node} {buffer bytes bytes' : List UInt8} {f k m n lo hi pos size : ℕ}

theorem slice_all (buffer : List UInt8) : slice (some buffer) 0 buffer.length = buffer := by
  apply List.ext_getElem
  · exact length_slice ..
  · intro i hi hi'
    simp [slice, hi']

theorem getElem_contents (h : k < (contents v f x).length) : (contents v f x)[k] = v.fileByte x k := by
  simp [contents]

theorem getElem_spliced {old : List UInt8} (hpos : pos ≤ old.length) (h : k < (spliced old pos bytes).length) :
    (spliced old pos bytes)[k] =
      if k < pos then old.getD k 0 else if k < pos + bytes.length then bytes.getD (k - pos) 0 else old.getD k 0 := by
  rw [length_spliced] at h
  have htake : (old.take pos).length = pos := by
    rw [List.length_take]
    exact Nat.min_eq_left hpos
  simp only [spliced_inside hpos]
  by_cases hlt : k < pos
  · rw [if_pos hlt, List.getElem_append_left (by simp; omega), List.getElem_append_left (by omega), List.getElem_take,
      List.getD_eq_getElem _ _ (by omega)]
  · have hge := Nat.le_of_not_lt hlt
    rw [if_neg hlt]
    by_cases hin : k < pos + bytes.length
    · rw [if_pos hin, List.getElem_append_left (by simp; omega), List.getElem_append_right (by omega),
        List.getD_eq_getElem _ _ (by omega)]
      simp only [htake]
    · rw [if_neg hin, List.getElem_append_right (by simp; omega), List.getElem_drop, List.getD_eq_getElem _ _ (by omega)]
      congr 1
      rw [List.length_append, htake]
      omega

/-- A file reads as the old bytes with the new ones in place. -/
theorem Wrote.contents (h : Wrote v f x pos bytes w y) (hx : FileOk v f x) (hpos : pos ≤ (v.inode f).fileSize) :
    contents w f y = spliced (contents v f x) pos bytes := by
  apply List.ext_getElem
  · rw [length_contents, length_spliced, length_contents, h.size]
  · intro i hi hi'
    have hroom := hx.room
    have hold : ∀ i < (v.inode f).fileSize, (Leanfs.contents v f x).getD i 0 = v.fileByte x i := fun i hi => by
      rw [List.getD_eq_getElem _ _ (by rwa [length_contents]), getElem_contents]
    rw [length_contents, h.size] at hi
    rw [getElem_contents, getElem_spliced (by rwa [length_contents])]
    split_ifs with hlt hin
    · rw [h.outside i (by omega) (.inl hlt), hold i (by omega)]
    · have := h.inside (i - pos) (by omega)
      rwa [Nat.add_sub_cancel' (Nat.le_of_not_lt hlt)] at this
    · rw [h.outside i (by omega) (.inr (by omega)), hold i (by omega)]

/-- Where `leanfs_write` starts to write. -/
def Volume.writeStart (v : Volume) (f : ℕ) : ℕ :=
  if hasFlag (v.files f).flags oAppend then (v.inode f).fileSize else (v.files f).filePointer

/-- A volume with a file that has been written to up to the file pointer. -/
structure WroteTo (v : Volume) (f : ℕ) (x : Node) (pos : ℕ) (bytes : List UInt8) (w : Volume) (y : Node) : Prop
    extends Wrote v f x pos bytes w y where
  pointer : (w.files f).filePointer = pos + bytes.length

theorem setPointer_pointer (v : Volume) (f pos : ℕ) : ((v.setPointer f pos).files f).filePointer = pos :=
  congrArg File.filePointer (if_pos rfl)

theorem setPointer_inode (v : Volume) (f pos : ℕ) : (v.setPointer f pos).inode f = v.inode f := by
  have hfile : (v.setPointer f pos).files f = { v.files f with filePointer := pos } := if_pos rfl
  rw [Volume.inode, hfile]
  rfl

theorem writeAtPointer_run (buffer : List UInt8) (h : FileOk v f x) (hpos : (v.files f).filePointer ≤ (v.inode f).fileSize)
    (hpass : v.WritePassable f (v.files f).filePointer buffer.length)
    (hspace : v.Spacious x (max x.cells.length (v.clusterIndex ((v.files f).filePointer + buffer.length - 1) + 1))) (k : ℕ) :
    ∃ w y, (writeAtPointer f buffer k).run v = (.ok (k + buffer.length), w) ∧
      WroteTo v f x (v.files f).filePointer buffer w y := by
  obtain ⟨w, y, hrun, hw⟩ := doWrite_run (some buffer) h hpos hpass hspace
  rw [slice_all] at hw
  refine ⟨_, y, ?_, hw.stamped (Stamped.setPointer f ((v.files f).filePointer + buffer.length) w), setPointer_pointer ..⟩
  rw [writeAtPointer, run_bind_state, run_bind_ok hrun]
  rfl

theorem writeAtPointer_hang (buffer : List UInt8) (h : FileOk v f x) (hpos : (v.files f).filePointer ≤ (v.inode f).fileSize)
    (hno : ¬v.WritePassable f (v.files f).filePointer buffer.length) (k : ℕ) :
    ∃ w, (writeAtPointer f buffer k).run v = (.hang, w) := by
  obtain ⟨w, hrun⟩ := doWrite_hang (some buffer) h hpos hno
  refine ⟨w, ?_⟩
  rw [writeAtPointer, run_bind_state]
  exact run_bind_hang hrun

theorem Stamped.writePassable (h : Stamped f v w) : w.WritePassable f pos n ↔ v.WritePassable f pos n := by
  unfold Volume.WritePassable
  rw [h.framed.clusterIndex, h.framed.clusterIndex, h.inode.clustersCount, h.passable]

theorem Stamped.spacious (h : Stamped f v w) : w.Spacious x n ↔ v.Spacious x n := by
  rw [Volume.Spacious, Volume.Spacious, h.framed.iclusterCount, h.numFree]

/-- The first steps of `leanfs_write`. -/
theorem leanfsWrite_start (hw : (v.files f).isWriteable = true) (hne : buffer ≠ []) (hpos : v.writeStart f ≤ (v.inode f).fileSize) :
    (leanfsWrite f buffer).run v = (writeAtPointer f buffer 0).run (v.setPointer f (v.writeStart f)) := by
  rw [leanfsWrite, run_bind_state, if_neg (by rw [hw]; exact Bool.noConfusion), if_neg hne]
  dsimp only
  rw [run_bind_update, if_neg (by exact Nat.not_lt.mpr hpos)]
  rfl

theorem leanfsWrite_run (h : FileOk v f x) (hw : (v.files f).isWriteable = true) (hne : buffer ≠ [])
    (hpos : v.writeStart f ≤ (v.inode f).fileSize) (hpass : v.WritePassable f (v.writeStart f) buffer.length)
    (hspace : v.Spacious x (max x.cells.length (v.clusterIndex (v.writeStart f + buffer.length - 1) + 1))) :
    ∃ w y, (leanfsWrite f buffer).run v = (.ok buffer.length, w) ∧ WroteTo v f x (v.writeStart f) buffer w y := by
  have hst := Stamped.setPointer f (v.writeStart f) v
  have hpointer := setPointer_pointer v f (v.writeStart f)
  obtain ⟨w, y, hrun, hwt⟩ := writeAtPointer_run buffer (hst.fileOk h)
    (by rwa [hpointer, setPointer_inode])
    (by rwa [hpointer, hst.writePassable])
    (by rwa [hpointer, hst.framed.clusterIndex, hst.spacious]) 0
  rw [Nat.zero_add] at hrun
  rw [hpointer] at hwt
  exact ⟨w, y, (leanfsWrite_start hw hne hpos).trans hrun, hwt.toWrote.of_stamped hst, hwt.pointer⟩

theorem leanfsWrite_hang (h : FileOk v f x) (hw : (v.files f).isWriteable = true) (hne : buffer ≠ [])
    (hpos : v.writeStart f ≤ (v.inode f).fileSize) (hno : ¬v.WritePassable f (v.writeStart f) buffer.length) :
    ∃ w, (leanfsWrite f buffer).run v = (.hang, w) := by
  have hst := Stamped.setPointer f (v.writeStart f) v
  have hpointer := setPointer_pointer v f (v.writeStart f)
  obtain ⟨w, hrun⟩ := writeAtPointer_hang buffer (hst.fileOk h) (by rwa [hpointer, setPointer_inode])
    (by rwa [hpointer, hst.writePassable]) 0
  exact ⟨w, (leanfsWrite_start hw hne hpos).trans hrun⟩

theorem doWrite_result {buffer : Option (List UInt8)} {r : ℕ} (h : (doWrite f buffer n pos).run v = (.ok r, w)) : r = n := by
  rw [doWrite, run_bind_state] at h
  by_cases hn : n = 0
  · rw [if_pos hn] at h
    exact (Outcome.ok.inj (congrArg Prod.fst h)).symm.trans hn.symm
  · rw [if_neg hn] at h
    split at h
    · cases congrArg Prod.fst h
    · obtain ⟨-, u, -, hrest⟩ := exists_of_bind_ok h
      exact (Outcome.ok.inj (congrArg Prod.fst hrest)).symm

theorem writeAtPointer_result {r : ℕ} (h : (writeAtPointer f buffer k).run v = (.ok r, w)) : r = k + buffer.length := by
  rw [writeAtPointer, run_bind_state] at h
  obtain ⟨res, u, hrun, hrest⟩ := exists_of_bind_ok h
  rw [doWrite_result hrun] at hrest
  exact (Outcome.ok.inj (congrArg Prod.fst hrest)).symm

/-- Past the end of the file the zeroes up to the file pointer are counted as well. -/
theorem leanfsWrite_padded {r : ℕ} (h : FileOk v f x) (hw : (v.files f).isWriteable = true) (hne : buffer ≠ [])
    (hpos : (v.inode f).fileSize < v.writeStart f)
    (hspace : v.Spacious x (max x.cells.length (v.clusterIndex (v.writeStart f + buffer.length - 1) + 1)))
    (hr : (leanfsWrite f buffer).run v = (.ok r, w)) : r = v.writeStart f - (v.inode f).fileSize + buffer.length := by
  have hst := Stamped.setPointer f (v.writeStart f) v
  have hok := hst.fileOk h
  have hinode := setPointer_inode v f (v.writeStart f)
  rw [leanfsWrite, run_bind_state, if_neg (by rw [hw]; exact Bool.noConfusion), if_neg hne] at hr
  dsimp only at hr
  rw [run_bind_update, if_pos (by exact hpos)] at hr
  change ((doWrite f none (v.writeStart f - (v.inode f).fileSize) (v.inode f).fileSize).attempt >>= _).run
    (v.setPointer f (v.writeStart f)) = _ at hr
  by_cases hpass : (v.setPointer f (v.writeStart f)).WritePassable f (v.inode f).fileSize (v.writeStart f - (v.inode f).fileSize)
  · obtain ⟨u, y, hrun, hu⟩ := doWrite_run none hok (by rw [hinode]) hpass (by
      rw [hst.framed.clusterIndex, hst.spacious]
      apply hspace.mono h.sound.geo
      have hmono : v.clusterIndex ((v.inode f).fileSize + (v.writeStart f - (v.inode f).fileSize) - 1) ≤
        v.clusterIndex (v.writeStart f + buffer.length - 1) := clusterIndex_mono (by omega)
      omega)
    have hsize := hu.size
    rw [hinode, length_slice] at hsize
    rw [run_bind_ok (run_attempt_ok hrun)] at hr
    dsimp only at hr
    rw [run_bind_state, if_neg (by
      change ¬v.writeStart f - (v.inode f).fileSize < v.writeStart f - (u.inode f).fileSize
      omega)] at hr
    exact writeAtPointer_result hr
  · obtain ⟨u, hrun⟩ := doWrite_hang none hok (by rw [hinode]) hpass
    rw [run_bind_hang (t := u) (by simp only [attempt, hrun])] at hr
    cases congrArg Prod.fst hr

/-- What a write is to do: all bytes are reported as written, and as far as the clusters of the file can be gone through
it reads as the old bytes, with zeroes up to where the write starts, and the new ones in place. -/
def Writes (v : Volume) (f : ℕ) (x : Node) (buffer : List UInt8) : Prop :=
  ∃ w, (leanfsWrite f buffer).run v = (.ok buffer.length, w) ∧ ∀ pos m bytes,
    (∃ u, (leanfsRead f m).run (w.setPointer f pos) = (.ok bytes, u)) ↔ (w.setPointer f pos).ReadPassable f m ∧
      bytes = ((spliced (contents v f x) (v.writeStart f) buffer).drop pos).take m

theorem read_iff (h : FileOk v f x) (hr : (v.files f).isReadable = true) (pos m : ℕ) (bytes : List UInt8) :
    (∃ u, (leanfsRead f m).run (v.setPointer f pos) = (.ok bytes, u)) ↔ (v.setPointer f pos).ReadPassable f m ∧
      bytes = ((contents v f x).drop pos).take m := by
  have hst := Stamped.setPointer f pos v
  have hr' : ((v.setPointer f pos).files f).isReadable = true := isReadable_of_framed hst.framed hr
  by_cases hp : (v.setPointer f pos).ReadPassable f m
  · obtain ⟨u, hrun, -⟩ := leanfsRead_run (hst.fileOk h) hr' hp
    rw [setPointer_pointer, hst.contents] at hrun
    constructor
    · rintro ⟨u', hrun'⟩
      rw [hrun] at hrun'
      exact ⟨hp, (Outcome.ok.inj (congrArg Prod.fst hrun')).symm⟩
    · rintro ⟨-, rfl⟩
      exact ⟨u, hrun⟩
  · obtain ⟨u, hrun⟩ := leanfsRead_hang (hst.fileOk h) hr' hp
    constructor
    · rintro ⟨u', hrun'⟩
      rw [hrun] at hrun'
      cases congrArg Prod.fst hrun'
    · exact fun h => absurd h.1 hp

theorem spliced_nil {old : List UInt8} (h : pos ≤ old.length) : spliced old pos [] = old := by
  rw [spliced_inside h, List.append_nil, List.length_nil, Nat.add_zero, List.take_append_drop]

theorem leanfsWrite_nil (hw : (v.files f).isWriteable = true) : (leanfsWrite f []).run v = (.ok 0, v) := by
  rw [leanfsWrite, run_bind_state, if_neg (by rw [hw]; exact Bool.noConfusion), if_pos rfl]
  rfl

theorem writes_of_inside (h : FileOk v f x) (hr : (v.files f).isReadable = true) (hw : (v.files f).isWriteable = true)
    (hspace : v.Spacious x (max x.cells.length (v.clusterIndex (v.writeStart f + buffer.length - 1) + 1)))
    (hpos : v.writeStart f ≤ (v.inode f).fileSize) (hpass : v.WritePassable f (v.writeStart f) buffer.length) :
    Writes v f x buffer := by
  by_cases hne : buffer = []
  · subst hne
    refine ⟨v, leanfsWrite_nil hw, fun pos m bytes => ?_⟩
    rw [spliced_nil (by rwa [length_contents])]
    exact read_iff h hr pos m bytes
  · obtain ⟨w, y, hrun, hwt⟩ := leanfsWrite_run h hw hne hpos hpass hspace
    refine ⟨w, hrun, fun pos m bytes => ?_⟩
    rw [← hwt.contents h hpos]
    exact read_iff hwt.ok (isReadable_of_framed hwt.frame hr) pos m bytes

/-- Past the end of the file a write without bytes leaves out the zeroes. -/
theorem not_writes_nil (h : FileOk v f x) (hr : (v.files f).isReadable = true) (hw : (v.files f).isWriteable = true)
    (hpos : (v.inode f).fileSize < v.writeStart f) : ¬Writes v f x [] := by
  rintro ⟨w, hrun, hread⟩
  rw [leanfsWrite_nil hw] at hrun
  obtain rfl : v = w := congrArg Prod.snd hrun
  have hp : (v.setPointer f (v.inode f).fileSize).ReadPassable f 1 := by
    intro hne
    rw [setPointer_inode, setPointer_pointer, Nat.sub_self, Nat.zero_min] at hne
    exact absurd rfl hne
  obtain ⟨-, heq⟩ := (read_iff h hr _ _ _).mp ((hread _ 1 _).mpr ⟨hp, rfl⟩)
  have hlen := congrArg List.length heq
  rw [List.length_take, List.length_take, List.length_drop, List.length_drop, length_spliced, length_contents] at hlen
  simp only [List.length_nil] at hlen
  omega

/-- A write does what it is to do exactly if it starts in the file, or at its end, and the clusters that there are
already can be gone through. -/
theorem leanfsWrite_writes_iff (h : FileOk v f x) (hr : (v.files f).isReadable = true) (hw : (v.files f).isWriteable = true)
    (hspace : v.Spacious x (max x.cells.length (v.clusterIndex (v.writeStart f + buffer.length - 1) + 1))) :
    Writes v f x buffer ↔
      v.writeStart f ≤ (v.inode f).fileSize ∧ v.WritePassable f (v.writeStart f) buffer.length := by
  constructor
  · intro hwr
    have hpos : v.writeStart f ≤ (v.inode f).fileSize := by
      apply Nat.le_of_not_lt
      intro hpos
      by_cases hne : buffer = []
      · subst hne
        exact not_writes_nil h hr hw hpos hwr
      · obtain ⟨w, hrun, -⟩ := hwr
        have := leanfsWrite_padded h hw hne hpos hspace hrun
        omega
    refine ⟨hpos, ?_⟩
    by_contra hno
    have hne : buffer ≠ [] := by
      rintro rfl
      exact hno fun h0 => absurd rfl h0
    obtain ⟨w, hrun, -⟩ := hwr
    obtain ⟨u, hhang⟩ := leanfsWrite_hang h hw hne hpos hno
    rw [hhang] at hrun
    cases congrArg Prod.fst hrun
  · exact fun ⟨hpos, hpass⟩ => writes_of_inside h hr hw hspace hpos hpass

theorem sampleVolume_fileOk (warm : Bool) (pos : ℕ) : FileOk ((sampleVolume warm).setPointer 0 pos) 0 sampleNode :=
  (Stamped.setPointer 0 pos (sampleVolume warm)).fileOk ⟨sampleVolume_sound warm, sampleVolume_laid warm,
    sampleVolume_owned warm, .inl rfl, by
      revert warm
      decide⟩

instance (v : Volume) (x : Node) (n : ℕ) : Decidable (v.Spacious x n) := Nat.decLe _ _

/-- In the first cluster with an address in an indirect one. -/
theorem leanfsWrite_writes_sample : Writes ((sampleVolume true).setPointer 0 8064) 0 sampleNode [1, 2] :=
  (leanfsWrite_writes_iff (sampleVolume_fileOk true 8064) (by decide) (by decide) (by decide +kernel)).mpr
    (by decide +kernel)

/-- One byte past the end of the file two bytes are reported for one. -/
theorem leanfsWrite_not_writes : ¬∀ (v : Volume) (f : ℕ) (x : Node) (buffer : List UInt8), FileOk v f x →
    (v.files f).isReadable = true → (v.files f).isWriteable = true →
    v.Spacious x (max x.cells.length (v.clusterIndex (v.writeStart f + buffer.length - 1) + 1)) →
    ∃ w, (leanfsWrite f buffer).run v = (.ok buffer.length, w) ∧ ∀ pos m,
      ∃ u, (leanfsRead f m).run (w.setPointer f pos) =
        (.ok (((spliced (contents v f x) (v.writeStart f) buffer).drop pos).take m), u) := by
  intro h
  have hok := sampleVolume_fileOk true 8577
  have hspace : ((sampleVolume true).setPointer 0 8577).Spacious sampleNode (max sampleNode.cells.length
      (((sampleVolume true).setPointer 0 8577).clusterIndex (((sampleVolume true).setPointer 0 8577).writeStart 0 + 1 - 1) + 1)) := by
    decide +kernel
  obtain ⟨w, hrun, -⟩ := h _ 0 sampleNode [1] hok (by decide) (by decide) hspace
  have := leanfsWrite_padded hok (by decide) (List.cons_ne_nil 1 []) (by decide) hspace hrun
  revert this
  decide

end FreeDos32.Leanfs
