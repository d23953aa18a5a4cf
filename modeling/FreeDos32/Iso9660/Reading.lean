import FreeDos32.Iso9660.File

namespace FreeDos32.Iso9660

variable {dev : Device} {f : File} {v v' : Volume} {size o i n : ℕ} {blocks : List ℕ}

structure File.Opened (f : File) : Prop where
  magic : f.magic
  rdonly : f.openFlags &&& oAccmode = oRdonly
  length : f.dataLength < 2 ^ 32

def available (f : File) (size offset : ℕ) : ℕ := min size (f.dataLength - offset)

/-- The read from the offset `o` gives the bytes that there are in the extent and moves the file pointer behind them, or the
device fails and the file is as it was. -/
def ReadRight (dev : Device) (size o : ℕ) (f : File) (v : Volume) : Prop :=
  ∃ v', read dev size f v = some (.ok (available f size o), fileBytes dev v f o (available f size o),
      { f with filePointer := (o + available f size o : ℕ) }, v') ∨
    (∃ j, dev.fault j) ∧ ∃ bytes, read dev size f v = some (.error .eio, bytes, f, v')

/-- The blocks that are read are the first ones of their sectors, and the number of bytes fits the type of the result. -/
def ReadAllowed (size o : ℕ) (f : File) (v : Volume) : Prop :=
  available f size o < 2 ^ 31 ∧ ∀ i < available f size o, First f v (o + i)

theorem ssize_natCast_iff (hn : n < 2 ^ 32) : ssize n = n ↔ n < 2 ^ 31 := by
  unfold ssize
  omega

theorem read_eq (ho : f.Opened) (hp : f.filePointer = (o : ℕ)) : read dev size f v =
    match readLoop dev f size (size + 1) 0 o [] v with
    | none => none
    | some (.error e, bytes, v) => some (.error e, bytes, f, v)
    | some (.ok (k, offset), bytes, v) => some (.ok (ssize k), bytes, { f with filePointer := offset }, v) := by
  have hopen : ¬(¬f.magic ∨ f.openFlags &&& oAccmode ≠ oRdonly) := by simp [ho.magic, ho.rdonly]
  rw [← hp]
  exact if_neg hopen

theorem read_first (hh : Holds dev v) (ho : f.Opened) (hp : f.filePointer = (o : ℕ))
    (hfirst : ∀ i < available f size o, First f v (o + i)) :
    ∃ v', Holds dev v' ∧ v'.logBlockSize = v.logBlockSize ∧
      (read dev size f v = some (.ok (ssize (available f size o)), fileBytes dev v f o (available f size o),
          { f with filePointer := (o + available f size o : ℕ) }, v') ∨
        (∃ j, dev.fault j) ∧ ∃ bytes, read dev size f v = some (.error .eio, bytes, f, v')) := by
  have hlen := ho.length
  have hfit : 0 + (f.dataLength - o) < 2 ^ 32 := by omega
  have hfuel : min (size - 0) (f.dataLength - o) < size + 1 := by omega
  obtain ⟨v', hh', hlog', hrun⟩ := readLoop_first (size + 1) [] hh hfit hfuel hfirst
  refine ⟨v', hh', hlog', ?_⟩
  rw [read_eq ho hp]
  rcases hrun with hok | ⟨hfault, bytes, herror⟩
  · left
    rw [hok, Nat.sub_zero, Nat.zero_add]
    rfl
  · right
    rw [herror]
    exact ⟨hfault, bytes, rfl⟩

theorem available_lt (ho : f.Opened) : available f size o < 2 ^ 32 := by
  have hlen := ho.length
  unfold available
  omega

theorem read_right (hh : Holds dev v) (ho : f.Opened) (hp : f.filePointer = (o : ℕ)) (ha : ReadAllowed size o f v) :
    ReadRight dev size o f v := by
  obtain ⟨v', -, -, hrun⟩ := read_first hh ho hp ha.2
  rw [(ssize_natCast_iff (available_lt ho)).mpr ha.1] at hrun
  exact ⟨v', hrun⟩

theorem read_allowed (hh : Holds dev v) (ho : f.Opened) (hp : f.filePointer = (o : ℕ)) (hfault : ∀ j, dev.fault j = false)
    (hr : ReadRight dev size o f v) : ReadAllowed size o f v := by
  have hnofault : ¬∃ j, dev.fault j := by
    rintro ⟨j, hj⟩
    rw [hfault j] at hj
    cases hj
  obtain ⟨v₁, hrun⟩ := hr
  replace hrun := hrun.resolve_right fun h => hnofault h.1
  have hfirst : ∀ i < available f size o, First f v (o + i) := by
    intro i hi
    by_contra hnot
    have hlen := ho.length
    have hfit : 0 + (f.dataLength - o) < 2 ^ 32 := by omega
    have hnone := readLoop_not_first (size + 1) [] hh hfit hfault hi hnot
    rw [read_eq ho hp, hnone] at hrun
    cases hrun
  refine ⟨?_, hfirst⟩
  obtain ⟨v₂, -, -, hrun'⟩ := read_first hh ho hp hfirst
  replace hrun' := hrun'.resolve_right fun h => hnofault h.1
  have hres := hrun.symm.trans hrun'
  simp only [Option.some.injEq, Prod.mk.injEq, Except.ok.injEq] at hres
  exact (ssize_natCast_iff (available_lt ho)).mp hres.1.symm

def readbufs (dev : Device) : List ℕ → Volume → Volume
  | [], v => v
  | block :: blocks, v => readbufs dev blocks (readbuf dev block v).2

theorem readbufs_holds (h : Holds dev v) (blocks : List ℕ) : Holds dev (readbufs dev blocks v) := by
  induction blocks generalizing v with
  | nil => exact h
  | cons block blocks ih => exact ih (readbuf_cases h block).1

theorem readbufs_logBlockSize (h : Holds dev v) (blocks : List ℕ) : (readbufs dev blocks v).logBlockSize = v.logBlockSize := by
  induction blocks generalizing v with
  | nil => rfl
  | cons block blocks ih => exact (ih (readbuf_cases h block).1).trans (readbuf_cases h block).2.1

/-- The calls of `iso9660_readbuf` after a mount return the places of their blocks if and only if these are the first ones
of their sectors; a read of a file at whatever offset gives the bytes of its extent if, and on a device without failures only
if, that is so for its blocks and their number fits. -/
theorem readbuf_read_iff (dev : Device) (logBlockSize : ℕ) (data : ℕ → Byte) (hsize : (mounted logBlockSize data).SizeOk)
    (blocks : List ℕ) :
    (RunRight dev blocks (mounted logBlockSize data) ↔ RunFirst dev blocks (mounted logBlockSize data)) ∧
      ∀ f : File, f.Opened → ∀ size o : ℕ, f.filePointer = o →
        (ReadAllowed size o f (readbufs dev blocks (mounted logBlockSize data)) →
          ReadRight dev size o f (readbufs dev blocks (mounted logBlockSize data))) ∧
        ((∀ j, dev.fault j = false) → ReadRight dev size o f (readbufs dev blocks (mounted logBlockSize data)) →
          ReadAllowed size o f (readbufs dev blocks (mounted logBlockSize data))) := by
  have hh : Holds dev (mounted logBlockSize data) := mounted_holds data hsize
  refine ⟨run_right_iff_of_holds hh blocks, fun f ho size o hp => ?_⟩
  have hh' := readbufs_holds hh blocks
  exact ⟨read_right hh' ho hp, read_allowed hh' ho hp⟩

theorem readbuf_read_iff_sample :
    RunRight ⟨fun i => i, fun _ => false⟩ [16, 40, 16] (mounted 11 fun _ => 0) ∧
      ReadRight ⟨fun i => i, fun _ => false⟩ 3000 5 ⟨40, 4000, 0, 5, true, 0⟩
        (readbufs ⟨fun i => i, fun _ => false⟩ [16, 40, 16] (mounted 11 fun _ => 0)) := by
  have h := readbuf_read_iff ⟨fun i => i, fun _ => false⟩ 11 (fun _ => 0) (by decide) [16, 40, 16]
  constructor
  · apply h.1.mpr
    exact ⟨fun _ _ => Nat.mod_one _, fun _ _ => Nat.mod_one _, fun _ _ => Nat.mod_one _, trivial⟩
  · apply (h.2 ⟨40, 4000, 0, 5, true, 0⟩ ⟨rfl, rfl, by decide⟩ 3000 5 rfl).1
    exact ⟨by decide, fun _ _ => Nat.mod_one _⟩

/-- With blocks of 512 bytes the block 1 is said to be behind the end of the buffer, and a file in it cannot be read. -/
theorem readbuf_not_right : ¬RunRight ⟨fun _ => 0, fun _ => false⟩ [1] (mounted 9 fun _ => 0) ∧
    read ⟨fun _ => 0, fun _ => false⟩ 1 ⟨1, 512, 0, 0, true, 0⟩ (mounted 9 fun _ => 0) = none := by
  constructor
  · intro h
    have hright := h.1 2048 rfl 0 (by decide)
    exact absurd hright.1 (by decide)
  · rfl

end FreeDos32.Iso9660
