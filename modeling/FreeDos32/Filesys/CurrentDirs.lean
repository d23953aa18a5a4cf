import FreeDos32.Filesys.Canonical

namespace FreeDos32.Filesys

variable {cds : List Cds} {drive path : List Char} {c : Chdir} {calls : List Chdir} {e : Cds}
  {last : List ℕ → Option (List Char)}

def driveKey (drive : List Char) : List ℕ := drive.map FsLayer.toupper

theorem strcaseEq_iff {s t : List Char} : strcaseEq s t ↔ driveKey s = driveKey t := by
  simp only [strcaseEq, driveKey, decide_eq_true_eq]

/-- The drive and the path that a call is to set; `none` when it fails before. -/
def Chdir.destination (c : Chdir) (cds : List Cds) : Option (List Char × List Char) :=
  match truename ⟨true, false⟩ c.env cds c.dirName with
  | .error _ => none
  | .ok aux =>
    match c.valid aux with
    | .error _ => none
    | .ok () =>
      match truename ⟨false, true⟩ c.env cds c.dirName with
      | .error _ => none
      | .ok aux => some (aux.takeWhile fun x => x ≠ ':', (aux.dropWhile fun x => x ≠ ':').tail)

def Chdir.call (c : Chdir) (cds : List Cds) : Except ℕ Unit × List Cds := chdir c.env c.valid c.memory c.dirName cds

theorem call_of_none (h : c.destination cds = none) : ∃ e, c.call cds = (.error e, cds) := by
  unfold Chdir.destination at h
  unfold Chdir.call chdir
  cases h1 : truename ⟨true, false⟩ c.env cds c.dirName with
  | error e => exact ⟨e, rfl⟩
  | ok aux =>
    cases h2 : c.valid aux with
    | error e =>
      simp only [h2]
      exact ⟨e, rfl⟩
    | ok u =>
      cases h3 : truename ⟨false, true⟩ c.env cds c.dirName with
      | error e =>
        simp only [h2]
        exact ⟨e, rfl⟩
      | ok aux =>
        simp only [h1, h2, h3] at h
        cases h

theorem call_of_some (h : c.destination cds = some (drive, path)) :
    c.call cds = if c.memory then (.ok (), ⟨drive, path⟩ :: setCurDir drive path cds)
      else (.error enomem, setCurDir drive path cds) := by
  unfold Chdir.destination at h
  unfold Chdir.call chdir
  cases h1 : truename ⟨true, false⟩ c.env cds c.dirName with
  | error e =>
    simp only [h1] at h
    cases h
  | ok aux =>
    cases h2 : c.valid aux with
    | error e =>
      simp only [h1, h2] at h
      cases h
    | ok u =>
      cases h3 : truename ⟨false, true⟩ c.env cds c.dirName with
      | error e =>
        simp only [h1, h2, h3] at h
        cases h
      | ok aux =>
        simp only [h1, h2, h3, Option.some.injEq, Prod.mk.injEq] at h
        obtain ⟨rfl, rfl⟩ := h
        simp only [h2]

/-- The directories of the last calls that succeeded, by drive. -/
def Chdir.record (c : Chdir) (cds : List Cds) (last : List ℕ → Option (List Char)) : List ℕ → Option (List Char) :=
  match c.destination cds, (c.call cds).1 with
  | some (drive, path), .ok () => Function.update last (driveKey drive) (some path)
  | _, _ => last

/-- There is one entry for each drive that has been set, with the directory set last. -/
structure Current (last : List ℕ → Option (List Char)) (cds : List Cds) : Prop where
  single : (cds.map fun e => driveKey e.drive).Nodup
  holds : ∀ e ∈ cds, last (driveKey e.drive) = some e.curDir
  exist : ∀ k path, last k = some path → ∃ e ∈ cds, driveKey e.drive = k

/-- What is asked of a run of calls: the entries are current after each one, and a call that fails changes nothing. -/
def RunCurrent : List Chdir → List Cds → (List ℕ → Option (List Char)) → Prop
  | [], cds, last => Current last cds
  | c :: calls, cds, last => Current last cds ∧ ((c.call cds).1 ≠ .ok () → (c.call cds).2 = cds) ∧
      RunCurrent calls (c.call cds).2 (c.record cds last)

/-- A call comes to no drive that is in the list already, or for want of memory sets the directory that is there. -/
def Chdir.Fresh (c : Chdir) (cds : List Cds) : Prop :=
  ∀ drive path, c.destination cds = some (drive, path) → ∀ e ∈ cds, strcaseEq e.drive drive →
    c.memory = false ∧ e.curDir = path

def RunFresh : List Chdir → List Cds → Prop
  | [], _ => True
  | c :: calls, cds => c.Fresh cds ∧ RunFresh calls (c.call cds).2

theorem setCurDir_of_absent (h : ∀ e ∈ cds, ¬strcaseEq e.drive drive) : setCurDir drive path cds = cds := by
  induction cds with
  | nil => rfl
  | cons e cds ih =>
    have hrest := ih fun x hx => h x (List.mem_cons_of_mem e hx)
    rw [setCurDir, if_neg (h e List.mem_cons_self), hrest]

theorem setCurDir_eq_iff (hs : (cds.map fun e => driveKey e.drive).Nodup) :
    setCurDir drive path cds = cds ↔ ∀ e ∈ cds, strcaseEq e.drive drive → e.curDir = path := by
  induction cds with
  | nil => simp [setCurDir]
  | cons e cds ih =>
    rw [List.map_cons, List.nodup_cons] at hs
    rw [setCurDir, List.forall_mem_cons]
    by_cases he : strcaseEq e.drive drive
    · have habsent : ∀ x ∈ cds, ¬strcaseEq x.drive drive := by
        intro x hx hxe
        have hkey := (strcaseEq_iff.mp hxe).trans (strcaseEq_iff.mp he).symm
        exact hs.1 (List.mem_map.mpr ⟨x, hx, hkey⟩)
      rw [if_pos he]
      constructor
      · intro h
        have hcur := congrArg Cds.curDir (List.cons.inj h).1
        exact ⟨fun _ => hcur.symm, fun x hx hxe => absurd hxe (habsent x hx)⟩
      · rintro ⟨h, -⟩
        rw [← h he]
    · rw [if_neg he]
      constructor
      · intro h
        exact ⟨fun h' => absurd h' he, (ih hs.2).mp (List.cons.inj h).2⟩
      · rintro ⟨-, h⟩
        rw [(ih hs.2).mpr h]

theorem map_drive_setCurDir : (setCurDir drive path cds).map (fun e => driveKey e.drive) = cds.map fun e => driveKey e.drive := by
  induction cds with
  | nil => rfl
  | cons e cds ih =>
    rw [setCurDir]
    split
    · rfl
    · rw [List.map_cons, List.map_cons, ih]

theorem RunCurrent.current (h : RunCurrent calls cds last) : Current last cds := by
  cases calls with
  | nil => exact h
  | cons c calls => exact h.1

theorem not_nodup_of_mem (he : e ∈ cds) (hk : strcaseEq e.drive drive) :
    ¬((⟨drive, path⟩ :: setCurDir drive path cds).map fun x => driveKey x.drive).Nodup := by
  intro hnd
  rw [List.map_cons, List.nodup_cons, map_drive_setCurDir] at hnd
  exact hnd.1 (List.mem_map.mpr ⟨e, he, strcaseEq_iff.mp hk⟩)

theorem Current.push (h : Current last cds) (hno : ∀ e ∈ cds, ¬strcaseEq e.drive drive) :
    Current (Function.update last (driveKey drive) (some path)) (⟨drive, path⟩ :: cds) := by
  have hne : ∀ e ∈ cds, driveKey e.drive ≠ driveKey drive := fun e he hk => hno e he (strcaseEq_iff.mpr hk)
  constructor
  · rw [List.map_cons, List.nodup_cons]
    refine ⟨?_, h.single⟩
    intro hmem
    obtain ⟨e, he, hk⟩ := List.mem_map.mp hmem
    exact hne e he hk
  · intro e he
    rcases List.mem_cons.mp he with rfl | he
    · exact Function.update_self _ _ _
    · rw [Function.update_of_ne (hne e he)]
      exact h.holds e he
  · intro k p hp
    by_cases hk : k = driveKey drive
    · exact ⟨⟨drive, path⟩, List.mem_cons_self, hk.symm⟩
    · rw [Function.update_of_ne hk] at hp
      obtain ⟨e, he, hek⟩ := h.exist k p hp
      exact ⟨e, List.mem_cons_of_mem _ he, hek⟩

theorem current_step_iff (h : Current last cds) :
    (((c.call cds).1 ≠ .ok () → (c.call cds).2 = cds) ∧ Current (c.record cds last) (c.call cds).2) ↔ c.Fresh cds := by
  cases hd : c.destination cds with
  | none =>
    obtain ⟨e, he⟩ := call_of_none hd
    have hfresh : c.Fresh cds := by
      intro drive path hsome
      rw [hd] at hsome
      cases hsome
    have hrec : c.record cds last = last := by
      simp only [Chdir.record, hd]
    rw [hrec, he]
    exact iff_of_true ⟨fun _ => rfl, h⟩ hfresh
  | some x =>
    obtain ⟨drive, path⟩ := x
    have hfresh : c.Fresh cds ↔ ∀ e ∈ cds, strcaseEq e.drive drive → c.memory = false ∧ e.curDir = path := by
      constructor
      · intro hf
        exact hf drive path hd
      · intro hf drive' path' hsome
        rw [hd] at hsome
        cases hsome
        exact hf
    rw [hfresh]
    cases hm : c.memory with
    | true =>
      have hcall : c.call cds = (.ok (), ⟨drive, path⟩ :: setCurDir drive path cds) := by
        rw [call_of_some hd, if_pos hm]
      have hrec : c.record cds last = Function.update last (driveKey drive) (some path) := by
        simp only [Chdir.record, hd, hcall]
      rw [hrec, hcall]
      constructor
      · rintro ⟨-, hcur⟩ e he hk
        exact absurd hcur.single (not_nodup_of_mem he hk)
      · intro hno
        have hno' : ∀ e ∈ cds, ¬strcaseEq e.drive drive := by
          intro e he hk
          exact absurd (hno e he hk).1 (by decide)
        rw [setCurDir_of_absent hno']
        exact ⟨fun hne => absurd rfl hne, h.push hno'⟩
    | false =>
      have hcall : c.call cds = (.error enomem, setCurDir drive path cds) := by
        rw [call_of_some hd, if_neg (by rw [hm]; decide)]
      have hrec : c.record cds last = last := by
        simp only [Chdir.record, hd, hcall]
      rw [hrec, hcall]
      constructor
      · rintro ⟨hsame, -⟩ e he hk
        exact ⟨rfl, (setCurDir_eq_iff h.single).mp (hsame (by simp)) e he hk⟩
      · intro hno
        have hsame : setCurDir drive path cds = cds := (setCurDir_eq_iff h.single).mpr fun e he hk => (hno e he hk).2
        rw [hsame]
        exact ⟨fun _ => rfl, h⟩

theorem run_current_iff_of_current (h : Current last cds) : RunCurrent calls cds last ↔ RunFresh calls cds := by
  induction calls generalizing cds last with
  | nil => exact iff_of_true h trivial
  | cons c calls ih =>
    constructor
    · rintro ⟨-, hsame, hrest⟩
      exact ⟨(current_step_iff h).mp ⟨hsame, hrest.current⟩, (ih hrest.current).mp hrest⟩
    · rintro ⟨hfresh, hrest⟩
      obtain ⟨hsame, hcur⟩ := (current_step_iff h).mpr hfresh
      exact ⟨h, hsame, (ih hcur).mpr hrest⟩

theorem current_nil : Current (fun _ => none) [] := by
  constructor
  · exact List.nodup_nil
  · intro e he
    cases he
  · intro k path h
    cases h

/-- From an empty list the entries stay current if and only if no call comes to a drive that has an entry, but for want of
memory and with the directory of that entry. -/
theorem run_current_iff (calls : List Chdir) : RunCurrent calls [] (fun _ => none) ↔ RunFresh calls [] :=
  run_current_iff_of_current current_nil

theorem run_not_current : ¬RunCurrent [opened ['C', ':', '\\', 'a'], opened ['C', ':', '\\', 'b']] [] (fun _ => none) ∧
    ((opened ['C', ':', '\\', 'b']).call ((opened ['C', ':', '\\', 'a']).call []).2).2.length = 2 := by
  constructor
  · intro h
    have hmem : (⟨['C'], ['\\', 'a']⟩ : Cds) ∈ ((opened ['C', ':', '\\', 'a']).call []).2 := List.mem_cons_self
    have hfresh := ((run_current_iff_of_current current_nil).mp h).2.1 ['C'] ['\\', 'b'] rfl _ hmem (by decide)
    exact absurd hfresh.1 (by decide)
  · decide

end FreeDos32.Filesys
