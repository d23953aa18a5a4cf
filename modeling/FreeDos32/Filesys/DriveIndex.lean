import FreeDos32.Filesys.Mounts

namespace FreeDos32.Filesys

namespace FsLayer

/-- Returns the number of drives, 26. -/
def setDefaultDrive (drive : Char) (fs : FsLayer) : Except ℕ ℕ × FsLayer :=
  if toupper drive < 'A'.toNat ∨ 'Z'.toNat < toupper drive then (.error enodev, fs)
  else if (fs.drives (drive.toNat - 'A'.toNat)).blkName.isSome then (.ok driveMaxNum, { fs with defaultDrive := toupper drive })
  else (.ok driveMaxNum, fs)

/-- What the functions do with the table: they use an element, or they make a letter the default drive while its element
is assigned or not. -/
inductive Event where
  | element (k : ℤ)
  | default (letter : ℕ) (assigned : Bool)
  deriving DecidableEq

def IsLetter (n : ℕ) : Prop := 'A'.toNat ≤ n ∧ n ≤ 'Z'.toNat

instance (n : ℕ) : Decidable (IsLetter n) := inferInstanceAs (Decidable (_ ∧ _))

def Event.Sound : Event → Prop
  | .element k => InTable k
  | .default letter assigned => IsLetter letter ∧ assigned

@[simp] theorem element_sound {k : ℤ} : (Event.element k).Sound ↔ InTable k := Iff.rfl

@[simp] theorem default_sound {letter : ℕ} {assigned : Bool} :
    (Event.default letter assigned).Sound ↔ IsLetter letter ∧ assigned := Iff.rfl

def assigned (letter : ℕ) (fs : FsLayer) : Bool := (fs.drives (letter - 'A'.toNat)).blkName.isSome

/-- The loop that looks for the handle of a device, from element `k` on. -/
def handleEvents (handle : ℕ) (fs : FsLayer) : ℕ → ℕ → Bool × List Event
  | 0, _ => (false, [])
  | n + 1, k =>
    if (fs.drives k).handle = handle then (true, [.element k])
    else
      let r := handleEvents handle fs n (k + 1)
      (r.1, .element k :: r.2)

/-- The loop that looks for an element that is free, from element `d` on; it returns at the last one. -/
def freeEvents (fs : FsLayer) : ℕ → ℕ → Option ℕ × List Event
  | 0, _ => (none, [])
  | n + 1, d =>
    if (fs.drives d).blkName.isNone then (some d, [.element d])
    else
      let r := freeEvents fs n (d + 1)
      (r.1, .element d :: r.2)

def Chosen (bdi : BlockDeviceInfo) (fs : FsLayer) : Prop :=
  fs.defaultDrive = 0 ∧ (fs.bootDevice = nulBootDev ∨ fs.bootDevice = bdi.multibootId)

instance (bdi : BlockDeviceInfo) (fs : FsLayer) : Decidable (fs.Chosen bdi) := inferInstanceAs (Decidable (_ ∧ _))

def assign (b : BlockDevice) (bdi : BlockDeviceInfo) (d : ℕ) (fs : FsLayer) : FsLayer :=
  { fs with
    drives := Function.update fs.drives d ⟨some b.name, none, 0, bdi.flags⟩
    defaultDrive := if fs.Chosen bdi then d + 'A'.toNat else fs.defaultDrive }

/-- `dynamicAssign` with its events. -/
def dynamicAssignEvents (type : ℕ) : List BlockDevice → ℕ → FsLayer → FsLayer × List Event
  | [], _, fs => (fs, [])
  | b :: rest, d, fs =>
    match b.info with
    | none => dynamicAssignEvents type rest d fs
    | some bdi =>
      let scan := handleEvents b.handle fs driveMaxNum 0
      let skip := dynamicAssignEvents type rest d fs
      if scan.1 then (skip.1, scan.2 ++ skip.2)
      else if bdi.type ≠ type then (skip.1, scan.2 ++ skip.2)
      else if bdi.partId ≠ 0 ∧ ¬fs.fsreq.any (fun f => f.partcheck bdi.partId) then (skip.1, scan.2 ++ skip.2)
      else
        let free := freeEvents fs (driveMaxNum - d) d
        match free.1 with
        | none => (fs, scan.2 ++ free.2)
        | some d =>
          let r := dynamicAssignEvents type rest d (fs.assign b bdi d)
          (r.1, scan.2 ++ free.2 ++ .element d :: (if fs.Chosen bdi
            then [.default (d + 'A'.toNat) ((fs.assign b bdi d).assigned (d + 'A'.toNat))] else []) ++ r.2)

def assignDriveLettersEvents (devices : BlockDevices) (fs : FsLayer) : FsLayer × List Event :=
  let active := fs.clearDrives.dynamicAssignEvents tActive devices.list 2
  let logical := active.1.dynamicAssignEvents tLogical devices.list 2
  let primary := logical.1.dynamicAssignEvents tPrimary devices.list 2
  let floppy := primary.1.dynamicAssignEvents tFloppy devices.list 0
  let cddvd := floppy.1.dynamicAssignEvents tCddvd devices.list 3
  (cddvd.1, (List.range driveMaxNum).map (fun k : ℕ => .element k) ++
    active.2 ++ logical.2 ++ primary.2 ++ floppy.2 ++ cddvd.2)

inductive Call where
  | addFs (devices : BlockDevices) (f : FsDriver)
  | setDefaultDrive (drive : Char)
  | getDrive (answer : ℕ → Except ℕ ℕ) (fileSpec : List Char)

def call : Call → FsLayer → FsLayer
  | .addFs devices f, fs => (fs.addFs devices f).2
  | .setDefaultDrive drive, fs => (fs.setDefaultDrive drive).2
  | .getDrive answer fileSpec, fs => (fs.getDrive answer fileSpec).2

def events : Call → FsLayer → List Event
  | .addFs devices f, fs =>
    if fs.fsreq.length < numFSReq then ({ fs with fsreq := fs.fsreq ++ [f] }.assignDriveLettersEvents devices).2 else []
  | .setDefaultDrive drive, fs =>
    if toupper drive < 'A'.toNat ∨ 'Z'.toNat < toupper drive then []
    else .element (drive.toNat - 'A'.toNat) ::
      if (fs.drives (drive.toNat - 'A'.toNat)).blkName.isSome
      then [.default (toupper drive) (fs.assigned (toupper drive))] else []
  | .getDrive _ fileSpec, fs =>
    match fs.letterOf fileSpec with
    | .error _ => []
    | .ok letter => [.element (letter - 'A'.toNat)]

variable {fs fs' : FsLayer} {handle n k d type : ℕ} {l : List BlockDevice} {e : Event}

theorem handleEvents_fst : (handleEvents handle fs n k).1 = (List.range' k n).any fun i => (fs.drives i).handle = handle := by
  induction n generalizing k with
  | zero => rfl
  | succ n ih =>
    rw [handleEvents, List.range'_succ, List.any_cons]
    split
    · next h => simp [h]
    · next h => simp [h, ih]

theorem freeEvents_fst : (freeEvents fs n d).1 = (List.range' d n).find? fun i : ℕ => (fs.drives i).blkName.isNone := by
  induction n generalizing d with
  | zero => rfl
  | succ n ih =>
    rw [freeEvents, List.range'_succ, List.find?_cons]
    split
    · next h => simp [h]
    · next h => simp [h, ih]

theorem dynamicAssignEvents_fst : (dynamicAssignEvents type l d fs).1 = dynamicAssign type l d fs := by
  induction l generalizing d fs with
  | nil => rfl
  | cons b rest ih =>
    rw [dynamicAssignEvents, dynamicAssign]
    cases b.info with
    | none => exact ih
    | some bdi =>
      have hscan : (handleEvents b.handle fs driveMaxNum 0).1 =
          (List.range driveMaxNum).any fun k => (fs.drives k).handle = b.handle := by
        rw [handleEvents_fst, List.range_eq_range']
      have hfree : (freeEvents fs (driveMaxNum - d) d).1 = fs.nextDrive d := freeEvents_fst
      simp only [hscan, hfree]
      split
      · exact ih
      · split
        · exact ih
        · split
          · exact ih
          · cases fs.nextDrive d with
            | none => rfl
            | some d => exact ih

theorem assignDriveLettersEvents_fst {devices : BlockDevices} :
    (assignDriveLettersEvents devices fs).1 = assignDriveLetters devices fs := by
  simp only [assignDriveLettersEvents, assignDriveLetters, dynamicAssignEvents_fst]

theorem handleEvents_sound (hk : k + n ≤ driveMaxNum) : ∀ e ∈ (handleEvents handle fs n k).2, e.Sound := by
  induction n generalizing k with
  | zero => simp [handleEvents]
  | succ n ih =>
    have hin : InTable k := ⟨by omega, by omega⟩
    rw [handleEvents]
    split
    · simpa using hin
    · exact List.forall_mem_cons.mpr ⟨hin, ih (by omega)⟩

theorem freeEvents_sound (hd : d + n ≤ driveMaxNum) : ∀ e ∈ (freeEvents fs n d).2, e.Sound := by
  induction n generalizing d with
  | zero => simp [freeEvents]
  | succ n ih =>
    have hin : InTable d := ⟨by omega, by omega⟩
    rw [freeEvents]
    split
    · simpa using hin
    · exact List.forall_mem_cons.mpr ⟨hin, ih (by omega)⟩

def DefaultOk (fs : FsLayer) : Prop := fs.defaultDrive = 0 ∨ IsLetter fs.defaultDrive

theorem dynamicAssignEvents_sound (type : ℕ) (l : List BlockDevice) (d : ℕ) (hfs : fs.DefaultOk) (hd : d ≤ driveMaxNum) :
    (dynamicAssignEvents type l d fs).1.DefaultOk ∧ ∀ e ∈ (dynamicAssignEvents type l d fs).2, e.Sound := by
  induction l generalizing d fs with
  | nil => exact ⟨hfs, by simp [dynamicAssignEvents]⟩
  | cons b rest ih =>
    rw [dynamicAssignEvents]
    cases b.info with
    | none => exact ih d hfs hd
    | some bdi =>
      have hscan : ∀ e ∈ (handleEvents b.handle fs driveMaxNum 0).2, e.Sound := handleEvents_sound (Nat.le_of_eq (Nat.zero_add _))
      have hskip := ih d hfs hd
      have happend : ∀ e ∈ (handleEvents b.handle fs driveMaxNum 0).2 ++ (dynamicAssignEvents type rest d fs).2, e.Sound :=
        List.forall_mem_append.mpr ⟨hscan, hskip.2⟩
      have hfree : ∀ e ∈ (freeEvents fs (driveMaxNum - d) d).2, e.Sound := freeEvents_sound (by omega)
      dsimp only
      split
      · exact ⟨hskip.1, happend⟩
      · split
        · exact ⟨hskip.1, happend⟩
        · split
          · exact ⟨hskip.1, happend⟩
          · cases hfound : (freeEvents fs (driveMaxNum - d) d).1 with
            | none => exact ⟨hfs, List.forall_mem_append.mpr ⟨hscan, hfree⟩⟩
            | some j =>
              have hj : j < driveMaxNum := by
                rw [freeEvents_fst] at hfound
                have hmem := List.mem_range'_1.mp (List.mem_of_find?_eq_some hfound)
                omega
              have hin : InTable j := ⟨by omega, by omega⟩
              have hletter : IsLetter (j + 'A'.toNat) := by
                have hZ : 'Z'.toNat = 'A'.toNat + 25 := by decide
                rw [driveMaxNum] at hj
                constructor <;> omega
              have hat : ((j + 'A'.toNat : ℕ) : ℤ) - 'A'.toNat = j := by omega
              have hassigned : (fs.assign b bdi j).assigned (j + 'A'.toNat) := by
                simp only [assigned, assign, hat, Function.update_self, Option.isSome_some]
              have hnext : (fs.assign b bdi j).DefaultOk := by
                simp only [DefaultOk, assign]
                split
                · exact .inr hletter
                · exact hfs
              have hrest := ih j hnext (Nat.le_of_lt hj)
              refine ⟨hrest.1, List.forall_mem_append.mpr ⟨List.forall_mem_append.mpr ⟨?_, ?_⟩, hrest.2⟩⟩
              · exact List.forall_mem_append.mpr ⟨hscan, hfree⟩
              · refine List.forall_mem_cons.mpr ⟨hin, ?_⟩
                split
                · simpa using ⟨hletter, hassigned⟩
                · simp

theorem assignDriveLettersEvents_sound (devices : BlockDevices) (hfs : fs.DefaultOk) :
    (assignDriveLettersEvents devices fs).1.DefaultOk ∧ ∀ e ∈ (assignDriveLettersEvents devices fs).2, e.Sound := by
  have hclear : fs.clearDrives.DefaultOk := hfs
  have hwhole : ∀ e ∈ (List.range driveMaxNum).map (fun k : ℕ => Event.element k), e.Sound := by
    intro e he
    obtain ⟨k, hk, rfl⟩ := List.mem_map.mp he
    have hlt := List.mem_range.mp hk
    exact ⟨by omega, by omega⟩
  have hactive := dynamicAssignEvents_sound tActive devices.list 2 hclear (by decide)
  have hlogical := dynamicAssignEvents_sound tLogical devices.list 2 hactive.1 (by decide)
  have hprimary := dynamicAssignEvents_sound tPrimary devices.list 2 hlogical.1 (by decide)
  have hfloppy := dynamicAssignEvents_sound tFloppy devices.list 0 hprimary.1 (by decide)
  have hcddvd := dynamicAssignEvents_sound tCddvd devices.list 3 hfloppy.1 (by decide)
  refine ⟨hcddvd.1, ?_⟩
  simp only [assignDriveLettersEvents, List.forall_mem_append]
  exact ⟨⟨⟨⟨⟨hwhole, hactive.2⟩, hlogical.2⟩, hprimary.2⟩, hfloppy.2⟩, hcddvd.2⟩

/-- The letter for the default drive is not a small one, and a path has a drive or there is a default drive. -/
def Call.Allowed : Call → FsLayer → Prop
  | .addFs _ _, _ => True
  | .setDefaultDrive drive, _ => ¬('a' ≤ drive ∧ drive ≤ 'z')
  | .getDrive _ fileSpec, fs => ':' ∈ fileSpec ∨ fs.defaultDrive ≠ 0

theorem letterOf_of_mem {fileSpec : List Char} (h : ':' ∈ fileSpec) {letter : ℕ} (hl : fs.letterOf fileSpec = .ok letter) :
    IsLetter letter := by
  unfold letterOf at hl
  split at hl
  · cases hl
  · split at hl
    · cases hl
    · next hin =>
      cases hl
      exact ⟨by omega, by omega⟩
  · rw [if_pos h] at hl
    cases hl

theorem letterOf_of_not_mem {fileSpec : List Char} (h : ':' ∉ fileSpec) : fs.letterOf fileSpec = .ok fs.defaultDrive := by
  unfold letterOf
  split
  · simp at h
  · simp at h
  · rw [if_neg h]

theorem isLetter_inTable {n : ℕ} (h : IsLetter n) : InTable (n - 'A'.toNat) := by
  have hZ : 'Z'.toNat = 'A'.toNat + 25 := by decide
  have h26 : (driveMaxNum : ℤ) = 26 := rfl
  obtain ⟨h1, h2⟩ := h
  constructor <;> omega

theorem toupper_of_small {c : Char} (h : 'a' ≤ c ∧ c ≤ 'z') : toupper c = c.toNat - 32 := if_pos h

theorem toupper_of_not_small {c : Char} (h : ¬('a' ≤ c ∧ c ≤ 'z')) : toupper c = c.toNat := if_neg h

theorem getDrive_defaultDrive (answer : ℕ → Except ℕ ℕ) (fileSpec : List Char) :
    (fs.getDrive answer fileSpec).2.defaultDrive = fs.defaultDrive := by
  unfold getDrive
  cases fs.letterOf fileSpec with
  | error e => rfl
  | ok letter =>
    dsimp only
    cases (fs.drives (letter - 'A'.toNat)).blkName with
    | none => rfl
    | some name =>
      cases (fs.drives (letter - 'A'.toNat)).req with
      | some req => rfl
      | none =>
        cases mountLoop answer fs.fsreq 0 <;> rfl

theorem call_defaultOk (c : Call) (hfs : fs.DefaultOk) : (fs.call c).DefaultOk := by
  cases c with
  | addFs devices f =>
    simp only [call, addFs]
    split
    · have hnext : ({ fs with fsreq := fs.fsreq ++ [f] } : FsLayer).DefaultOk := hfs
      have hassign := (assignDriveLettersEvents_sound devices hnext).1
      rwa [assignDriveLettersEvents_fst] at hassign
    · exact hfs
  | setDefaultDrive drive =>
    simp only [call, setDefaultDrive]
    split
    · exact hfs
    · split
      · exact .inr ⟨by simp only; omega, by simp only; omega⟩
      · exact hfs
  | getDrive answer fileSpec =>
    rw [DefaultOk, call, getDrive_defaultDrive]
    exact hfs

theorem events_sound_iff (c : Call) (hfs : fs.DefaultOk) : (∀ e ∈ fs.events c, e.Sound) ↔ c.Allowed fs := by
  cases c with
  | addFs devices f =>
    refine iff_of_true ?_ trivial
    simp only [events]
    split
    · have hnext : ({ fs with fsreq := fs.fsreq ++ [f] } : FsLayer).DefaultOk := hfs
      exact (assignDriveLettersEvents_sound devices hnext).2
    · simp
  | setDefaultDrive drive =>
    simp only [events, Call.Allowed]
    have hA : 'A'.toNat = 65 := rfl
    have hZ : 'Z'.toNat = 90 := rfl
    by_cases hsmall : 'a' ≤ drive ∧ drive ≤ 'z'
    · have h1 : 97 ≤ drive.toNat := hsmall.1
      have h2 : drive.toNat ≤ 122 := hsmall.2
      have hup := toupper_of_small hsmall
      rw [if_neg (by omega)]
      refine iff_of_false ?_ (fun h => h hsmall)
      intro h
      have hin : InTable (drive.toNat - 'A'.toNat) := h _ List.mem_cons_self
      have hlt : ((drive.toNat : ℤ) - 'A'.toNat) < 26 := hin.2
      omega
    · have hup := toupper_of_not_small hsmall
      refine iff_of_true ?_ hsmall
      split
      · simp
      · have hletter : IsLetter (toupper drive) := ⟨by omega, by omega⟩
        refine List.forall_mem_cons.mpr ⟨?_, ?_⟩
        · rw [← hup]
          exact isLetter_inTable hletter
        · split
          · next hsome =>
            rw [← hup] at hsome
            exact List.forall_mem_singleton.mpr ⟨hletter, hsome⟩
          · simp
  | getDrive answer fileSpec =>
    simp only [events, Call.Allowed]
    by_cases hcolon : ':' ∈ fileSpec
    · refine iff_of_true ?_ (.inl hcolon)
      cases hl : fs.letterOf fileSpec with
      | error e => simp
      | ok letter => exact List.forall_mem_singleton.mpr (isLetter_inTable (letterOf_of_mem hcolon hl))
    · rw [letterOf_of_not_mem hcolon]
      constructor
      · intro h
        have hin : InTable (fs.defaultDrive - 'A'.toNat) := h _ List.mem_cons_self
        refine .inr fun hzero => ?_
        rw [hzero] at hin
        exact absurd hin.1 (by decide)
      · rintro (h | h)
        · exact absurd h hcolon
        · exact List.forall_mem_singleton.mpr (isLetter_inTable (hfs.resolve_left h))

def RunSound : List Call → FsLayer → Prop
  | [], fs => fs.DefaultOk
  | c :: calls, fs => fs.DefaultOk ∧ (∀ e ∈ fs.events c, e.Sound) ∧ RunSound calls (fs.call c)

def RunAllowed : List Call → FsLayer → Prop
  | [], _ => True
  | c :: calls, fs => c.Allowed fs ∧ RunAllowed calls (fs.call c)

theorem run_sound_iff_of_defaultOk (calls : List Call) (hfs : fs.DefaultOk) : RunSound calls fs ↔ RunAllowed calls fs := by
  induction calls generalizing fs with
  | nil => exact iff_of_true hfs trivial
  | cons c calls ih =>
    rw [RunSound, RunAllowed, events_sound_iff c hfs, ih (call_defaultOk c hfs)]
    exact and_iff_right hfs

/-- From the start on the table is only used within its bounds and the default drive is a letter that was assigned when it
was set, if and only if each call is allowed where it is made. -/
theorem run_sound_iff (calls : List Call) (outside : ℤ → Drive) (bootDevice : ℕ) :
    RunSound calls (Mounting.start outside bootDevice).fs ↔ RunAllowed calls (Mounting.start outside bootDevice).fs :=
  run_sound_iff_of_defaultOk calls (.inl rfl)

/-- A small letter, and a path without a drive before any drive is there. -/
theorem run_not_sound :
    ¬RunSound [.setDefaultDrive 'c'] (Mounting.start (fun _ => ⟨none, none, 0, 0⟩) nulBootDev).fs ∧
      ¬RunSound [.getDrive (fun _ => .error enodev) ['\\', 'x']]
        (Mounting.start (fun _ => ⟨none, none, 0, 0⟩) nulBootDev).fs := by
  rw [run_sound_iff_of_defaultOk _ (.inl rfl), run_sound_iff_of_defaultOk _ (.inl rfl)]
  constructor
  · rintro ⟨h, -⟩
    exact h (by decide)
  · rintro ⟨h, -⟩
    rcases h with h | h
    · exact absurd h (by decide)
    · exact h rfl

end FsLayer

end FreeDos32.Filesys
