import FreeDos32.Iso9660.Reading

namespace FreeDos32.Iso9660

abbrev Offset := {x : ℤ // -2 ^ 63 ≤ x ∧ x < 2 ^ 63}

inductive Call where
  | lseek (offset : Offset) (whence : Whence)
  | read (size : ℕ)

def base (whence : Whence) (f : File) : ℤ :=
  match whence with
  | .set => 0
  | .cur => f.filePointer
  | .end_ => f.dataLength
  | .other => 0

/-- The call returns the new file pointer, or a negative value and leaves it. -/
def SeekRight (offset : ℤ) (whence : Whence) (f : File) : Prop :=
  0 ≤ (lseek offset whence f).2.filePointer ∧
    (0 ≤ (lseek offset whence f).1 → (lseek offset whence f).2.filePointer = (lseek offset whence f).1) ∧
    ((lseek offset whence f).1 < 0 → (lseek offset whence f).2.filePointer = f.filePointer)

/-- A known origin is not followed by so much that the sum is not an `off_t`, and an offset that is negative leads before
the file or to where the pointer is. -/
def SeekAllowed (offset : ℤ) (whence : Whence) (f : File) : Prop :=
  if 0 ≤ offset then whence ≠ .other ∧ offset + base whence f < 2 ^ 63
  else whence = .other ∨ offset + base whence f < 0 ∨ offset + base whence f = f.filePointer

structure Between (dev : Device) (f : File) (v : Volume) : Prop where
  holds : Holds dev v
  opened : f.Opened
  nonneg : 0 ≤ f.filePointer
  lt : f.filePointer < 2 ^ 63

def CallsRight (dev : Device) : List Call → File → Volume → Prop
  | [], f, _ => 0 ≤ f.filePointer
  | .lseek offset whence :: calls, f, v =>
    SeekRight offset whence f ∧ CallsRight dev calls (lseek offset whence f).2 v
  | .read size :: calls, f, v =>
    ReadRight dev size f.filePointer.toNat f v ∧
      ∀ res bytes f' v', read dev size f v = some (res, bytes, f', v') → CallsRight dev calls f' v'

def CallsAllowed (dev : Device) : List Call → File → Volume → Prop
  | [], _, _ => True
  | .lseek offset whence :: calls, f, v =>
    SeekAllowed offset whence f ∧ CallsAllowed dev calls (lseek offset whence f).2 v
  | .read size :: calls, f, v =>
    ReadAllowed size f.filePointer.toNat f v ∧
      ∀ res bytes f' v', read dev size f v = some (res, bytes, f', v') → CallsAllowed dev calls f' v'

variable {dev : Device} {f f' : File} {v v' : Volume} {size : ℕ} {offset : ℤ} {whence : Whence} {res : Except Errno ℤ}
  {bytes : List Byte}

theorem off_of_mem {x : ℤ} (hlo : -2 ^ 63 ≤ x) (hhi : x < 2 ^ 63) : off x = x := by
  unfold off
  omega

theorem off_neg {x : ℤ} (hlo : 2 ^ 63 ≤ x) (hhi : x < 2 ^ 64) : off x < 0 := by
  unfold off
  omega

section Seek

theorem Between.base_bounds (h : Between dev f v) (whence : Whence) : 0 ≤ base whence f ∧ base whence f < 2 ^ 63 := by
  have hlen := h.opened.length
  have hnonneg := h.nonneg
  have hlt := h.lt
  cases whence <;> simp only [base] <;> omega

theorem lseek_result (offset : Offset) (hw : whence ≠ .other) : (lseek offset whence f).1 = off (offset + base whence f) := by
  cases whence with
  | set =>
    change offset.1 = off (offset.1 + 0)
    rw [Int.add_zero, off_of_mem offset.2.1 offset.2.2]
  | cur => rfl
  | end_ => rfl
  | other => exact absurd rfl hw

theorem lseek_pointer (offset : ℤ) (whence : Whence) (f : File) :
    (lseek offset whence f).2 = if 0 ≤ offset then { f with filePointer := (lseek offset whence f).1 } else f := rfl

theorem seek_right_iff_nonneg (h : 0 ≤ offset) : SeekRight offset whence f ↔ 0 ≤ (lseek offset whence f).1 := by
  rw [SeekRight, lseek_pointer, if_pos h]
  constructor
  · exact And.left
  · intro hres
    exact ⟨hres, fun _ => rfl, fun hneg => absurd hres (by omega)⟩

theorem seek_right_iff_neg (h : offset < 0) (hf : 0 ≤ f.filePointer) : SeekRight offset whence f ↔
    ((lseek offset whence f).1 < 0 ∨ (lseek offset whence f).1 = f.filePointer) := by
  rw [SeekRight, lseek_pointer, if_neg (by omega)]
  constructor
  · rintro ⟨-, hpos, -⟩
    by_cases hres : 0 ≤ (lseek offset whence f).1
    · exact .inr (hpos hres).symm
    · exact .inl (by omega)
  · intro hres
    refine ⟨hf, fun hpos => ?_, fun _ => rfl⟩
    rcases hres with hneg | heq
    · omega
    · exact heq.symm

theorem seek_right_iff (h : Between dev f v) (offset : Offset) : SeekRight offset whence f ↔ SeekAllowed offset whence f := by
  obtain ⟨hbase, hlt⟩ := h.base_bounds whence
  obtain ⟨hlo, hhi⟩ := offset.2
  by_cases hoff : 0 ≤ offset.1
  · rw [seek_right_iff_nonneg hoff, SeekAllowed, if_pos hoff]
    by_cases hw : whence = .other
    · rw [hw]
      exact iff_of_false (show ¬(0 : ℤ) ≤ -22 by decide) (fun hn => hn.1 rfl)
    · rw [lseek_result offset hw]
      by_cases hsum : offset.1 + base whence f < 2 ^ 63
      · rw [off_of_mem (by omega) hsum]
        exact iff_of_true (by omega) ⟨hw, hsum⟩
      · have hneg := off_neg (x := offset.1 + base whence f) (by omega) (by omega)
        exact iff_of_false (by omega) (fun hn => hsum hn.2)
  · rw [seek_right_iff_neg (by omega) h.nonneg, SeekAllowed, if_neg hoff]
    by_cases hw : whence = .other
    · rw [hw]
      exact iff_of_true (.inl (show (-22 : ℤ) < 0 by decide)) (.inl rfl)
    · rw [lseek_result offset hw, off_of_mem (by omega) (by omega)]
      constructor
      · exact .inr
      · exact fun hn => hn.resolve_left hw

theorem lseek_lt (h : Between dev f v) (offset : Offset) : (lseek offset whence f).2.filePointer < 2 ^ 63 := by
  rw [lseek_pointer]
  split
  · by_cases hw : whence = .other
    · rw [hw]
      exact show (-22 : ℤ) < 2 ^ 63 by decide
    · change (lseek offset whence f).1 < 2 ^ 63
      rw [lseek_result offset hw]
      unfold off
      omega
  · exact h.lt

theorem lseek_between (h : Between dev f v) (offset : Offset) (hright : SeekRight offset whence f) :
    Between dev (lseek offset whence f).2 v := by
  refine ⟨h.holds, ?_, hright.1, lseek_lt h offset⟩
  rw [lseek_pointer]
  split
  · exact ⟨h.opened.magic, h.opened.rdonly, h.opened.length⟩
  · exact h.opened

end Seek

section Calls

theorem Between.filePointer_eq (h : Between dev f v) : f.filePointer = (f.filePointer.toNat : ℤ) :=
  (Int.toNat_of_nonneg h.nonneg).symm

theorem read_between (h : Between dev f v) (ha : ReadAllowed size f.filePointer.toNat f v)
    (hread : read dev size f v = some (res, bytes, f', v')) : Between dev f' v' := by
  have hlt := h.lt
  have hlen := h.opened.length
  obtain ⟨v₁, hh, -, hok | ⟨-, bytes₁, herror⟩⟩ := read_first h.holds h.opened h.filePointer_eq ha.2
  · rw [hread] at hok
    simp only [Option.some.injEq, Prod.mk.injEq] at hok
    obtain ⟨-, -, rfl, rfl⟩ := hok
    refine ⟨hh, ⟨h.opened.magic, h.opened.rdonly, hlen⟩, Int.natCast_nonneg _, ?_⟩
    dsimp only [available]
    omega
  · rw [hread] at herror
    simp only [Option.some.injEq, Prod.mk.injEq] at herror
    obtain ⟨-, -, rfl, rfl⟩ := herror
    exact ⟨hh, h.opened, h.nonneg, hlt⟩

theorem calls_right_of_allowed (h : Between dev f v) (calls : List Call) (ha : CallsAllowed dev calls f v) :
    CallsRight dev calls f v := by
  induction calls generalizing f v with
  | nil => exact h.nonneg
  | cons call calls ih => cases call with
    | lseek offset whence =>
      have hright := (seek_right_iff h offset).mpr ha.1
      exact ⟨hright, ih (lseek_between h offset hright) ha.2⟩
    | read size =>
      constructor
      · exact read_right h.holds h.opened h.filePointer_eq ha.1
      · intro res bytes f' v' hread
        exact ih (read_between h ha.1 hread) (ha.2 res bytes f' v' hread)

theorem calls_allowed_of_right (h : Between dev f v) (hfault : ∀ j, dev.fault j = false) (calls : List Call)
    (hr : CallsRight dev calls f v) : CallsAllowed dev calls f v := by
  induction calls generalizing f v with
  | nil => trivial
  | cons call calls ih => cases call with
    | lseek offset whence => exact ⟨(seek_right_iff h offset).mp hr.1, ih (lseek_between h offset hr.1) hr.2⟩
    | read size =>
      have ha := read_allowed h.holds h.opened h.filePointer_eq hfault hr.1
      refine ⟨ha, fun res bytes f' v' hread => ?_⟩
      exact ih (read_between h ha hread) (hr.2 res bytes f' v' hread)

/-- The calls for an open file of a mounted volume do what they should if each of them is allowed where it is made, and on
a device without failures only if that is so. -/
theorem calls_right_iff (dev : Device) (logBlockSize : ℕ) (data : ℕ → Byte) (hsize : (mounted logBlockSize data).SizeOk)
    (blocks : List ℕ) (f : File) (ho : f.Opened) (hp : f.filePointer = 0) (calls : List Call) :
    (CallsAllowed dev calls f (readbufs dev blocks (mounted logBlockSize data)) →
        CallsRight dev calls f (readbufs dev blocks (mounted logBlockSize data))) ∧
      ((∀ j, dev.fault j = false) → CallsRight dev calls f (readbufs dev blocks (mounted logBlockSize data)) →
        CallsAllowed dev calls f (readbufs dev blocks (mounted logBlockSize data))) := by
  have h : Between dev f (readbufs dev blocks (mounted logBlockSize data)) :=
    ⟨readbufs_holds (mounted_holds data hsize) blocks, ho, by omega, by omega⟩
  exact ⟨calls_right_of_allowed h calls, fun hfault => calls_allowed_of_right h hfault calls⟩

theorem calls_right_iff_sample : CallsRight ⟨fun i => i, fun _ => false⟩
    [.lseek ⟨5, by decide⟩ .set, .lseek ⟨3, by decide⟩ .cur, .read 100] ⟨40, 4000, 0, 0, true, 0⟩
    (mounted 11 fun _ => 0) := by
  apply (calls_right_iff ⟨fun i => i, fun _ => false⟩ 11 (fun _ => 0) (by decide) [] ⟨40, 4000, 0, 0, true, 0⟩
    ⟨rfl, rfl, by decide⟩ rfl _).1
  refine ⟨⟨by decide, by decide⟩, ⟨by decide, by decide⟩, ⟨by decide, fun _ _ => Nat.mod_one _⟩, ?_⟩
  intro _ _ _ _ _
  trivial

/-- A seek from 5 one byte back returns 4 and leaves the file pointer. -/
theorem calls_not_right : ¬CallsRight ⟨fun _ => 0, fun _ => false⟩ [.lseek ⟨5, by decide⟩ .set, .lseek ⟨-1, by decide⟩ .cur]
    ⟨40, 4000, 0, 0, true, 0⟩ (mounted 11 fun _ => 0) := by
  intro h
  have hpointer := h.2.1.2.1 (by decide)
  exact absurd hpointer (by decide)

end Calls

end FreeDos32.Iso9660
