import FreeDos32.Fat.Pathreso

namespace FreeDos32.Fat

open Prog

/-- What links the objects of a volume together. Reading and writing a file leaves all of it alone:
only opening, closing and moving nodes changes it. -/
@[ext] structure Skeleton where
  geo : Geometry
  env : Env
  nextId : ℕ
  numDentries : ℕ
  dentriesSlab : List ℕ
  parent : ℕ → Option ℕ
  children : ℕ → List ℕ
  dentryRefs : ℕ → ℕ
  attr : ℕ → UInt8
  filesOpen : List ℕ
  fileRefs : ℕ → ℕ
  channelsOpen : List ℕ
  file : ℕ → ℕ
  magic : ℕ → Bool
  flags : ℕ → ℕ
  channelRefs : ℕ → ℕ
  dentry : ℕ → Option ℕ

def skeleton (v : Volume) : Skeleton where
  geo := v.geo
  env := v.env
  nextId := v.nextId
  numDentries := v.numDentries
  dentriesSlab := v.dentriesSlab
  parent d := (v.dentries d).parent
  children d := (v.dentries d).children
  dentryRefs d := (v.dentries d).references
  attr d := (v.dentries d).attr
  filesOpen := v.filesOpen
  fileRefs f := (v.files f).references
  channelsOpen := v.channelsOpen
  file c := (v.channels c).f
  magic c := (v.channels c).magic
  flags c := (v.channels c).flags
  channelRefs c := (v.channels c).references
  dentry c := (v.channels c).dentry

theorem skeleton_setFile {f : ℕ} {g : File → File} (hg : ∀ x, (g x).references = x.references) (v : Volume) :
    skeleton (v.setFile f g) = skeleton v := by
  have h : ∀ k, ((v.setFile f g).files k).references = (v.files k).references := by
    intro k
    by_cases hk : k = f <;> simp [Volume.setFile, hk, hg]
  unfold skeleton
  simp only [h]
  rfl

theorem skeleton_setChannel {c : ℕ} {g : Channel → Channel}
    (hg : ∀ x, (g x).f = x.f ∧ (g x).magic = x.magic ∧ (g x).flags = x.flags ∧
      (g x).references = x.references ∧ (g x).dentry = x.dentry) (v : Volume) :
    skeleton (v.setChannel c g) = skeleton v := by
  have h : ∀ k, (v.setChannel c g).channels k = v.channels k ∨ (v.setChannel c g).channels k = g (v.channels k) := by
    intro k
    by_cases hk : k = c <;> simp [Volume.setChannel, hk]
  have hf : ∀ k, ((v.setChannel c g).channels k).f = (v.channels k).f := fun k => by
    rcases h k with h | h <;> rw [h]
    exact (hg _).1
  have hm : ∀ k, ((v.setChannel c g).channels k).magic = (v.channels k).magic := fun k => by
    rcases h k with h | h <;> rw [h]
    exact (hg _).2.1
  have hl : ∀ k, ((v.setChannel c g).channels k).flags = (v.channels k).flags := fun k => by
    rcases h k with h | h <;> rw [h]
    exact (hg _).2.2.1
  have hr : ∀ k, ((v.setChannel c g).channels k).references = (v.channels k).references := fun k => by
    rcases h k with h | h <;> rw [h]
    exact (hg _).2.2.2.1
  have hd : ∀ k, ((v.setChannel c g).channels k).dentry = (v.channels k).dentry := fun k => by
    rcases h k with h | h <;> rw [h]
    exact (hg _).2.2.2.2
  unfold skeleton
  simp only [hf, hm, hl, hr, hd]
  rfl

theorem skeleton_setDentry {d : ℕ} {g : Dentry → Dentry}
    (hg : ∀ x, (g x).parent = x.parent ∧ (g x).children = x.children ∧ (g x).references = x.references ∧
      (g x).attr = x.attr) (v : Volume) :
    skeleton (v.setDentry d g) = skeleton v := by
  have h : ∀ k, (v.setDentry d g).dentries k = v.dentries k ∨ (v.setDentry d g).dentries k = g (v.dentries k) := by
    intro k
    by_cases hk : k = d <;> simp [Volume.setDentry, hk]
  have hp : ∀ k, ((v.setDentry d g).dentries k).parent = (v.dentries k).parent := fun k => by
    rcases h k with h | h <;> rw [h]
    exact (hg _).1
  have hc : ∀ k, ((v.setDentry d g).dentries k).children = (v.dentries k).children := fun k => by
    rcases h k with h | h <;> rw [h]
    exact (hg _).2.1
  have hr : ∀ k, ((v.setDentry d g).dentries k).references = (v.dentries k).references := fun k => by
    rcases h k with h | h <;> rw [h]
    exact (hg _).2.2.1
  have ha : ∀ k, ((v.setDentry d g).dentries k).attr = (v.dentries k).attr := fun k => by
    rcases h k with h | h <;> rw [h]
    exact (hg _).2.2.2
  unfold skeleton
  simp only [hp, hc, hr, ha]
  rfl

/-- The skeleton with the places of the directory entries that the objects stand for. -/
@[ext] structure Outline where
  skeleton : Skeleton
  filePlace : ℕ → ℕ × ℕ
  nodePlace : ℕ → ℕ × ℕ × ℕ

def outline (v : Volume) : Outline where
  skeleton := skeleton v
  filePlace f := ((v.files f).deSector, (v.files f).deSecofs)
  nodePlace d := ((v.dentries d).deSector, (v.dentries d).deEntcnt, (v.dentries d).lfnEntries)

theorem outline_setFile {f : ℕ} {g : File → File}
    (hg : ∀ x, (g x).references = x.references ∧ (g x).deSector = x.deSector ∧ (g x).deSecofs = x.deSecofs)
    (v : Volume) : outline (v.setFile f g) = outline v := by
  apply Outline.ext
  · exact skeleton_setFile (fun x => (hg x).1) v
  · funext k
    by_cases hk : k = f <;> simp [outline, Volume.setFile, hk, hg]
  · rfl

theorem outline_setChannel {c : ℕ} {g : Channel → Channel}
    (hg : ∀ x, (g x).f = x.f ∧ (g x).magic = x.magic ∧ (g x).flags = x.flags ∧
      (g x).references = x.references ∧ (g x).dentry = x.dentry) (v : Volume) :
    outline (v.setChannel c g) = outline v := by
  apply Outline.ext
  · exact skeleton_setChannel hg v
  · rfl
  · rfl

/-- A call that leaves the outline alone. -/
abbrev Neutral {α : Type} (x : FatM α) : Prop := Keeps outline x

namespace Neutral

theorem skeleton {α : Type} {x : FatM α} (hx : Neutral x) : Keeps Fat.skeleton x :=
  fun v => congrArg Outline.skeleton (hx v)

theorem setFile {f : ℕ} {g : File → File}
    (hg : ∀ x, (g x).references = x.references ∧ (g x).deSector = x.deSector ∧ (g x).deSecofs = x.deSecofs) :
    Neutral (Prog.update (Volume.setFile f g)) := .update (outline_setFile hg)

theorem setChannel {c : ℕ} {g : Channel → Channel}
    (hg : ∀ x, (g x).f = x.f ∧ (g x).magic = x.magic ∧ (g x).flags = x.flags ∧
      (g x).references = x.references ∧ (g x).dentry = x.dentry) :
    Neutral (Prog.update (Volume.setChannel c g)) := .update (outline_setChannel hg)

theorem setLud (g : LookupData → LookupData) : Neutral (Prog.update (Volume.setLud g)) := .update fun _ => rfl

theorem onCache {α : Type} (x : Prog (Cache SectorData) Errno α) : Neutral (onCache x) := fun _ => rfl

theorem fatReadbuf (s : ℕ) (b : Option ℕ) : Neutral (fatReadbuf s b) := onCache _

theorem fatDirtybuf (b : ℕ) (w : Bool) : Neutral (fatDirtybuf b w) := onCache _

theorem bufWrite (b i : ℕ) (bytes : List UInt8) : Neutral (bufWrite b i bytes) :=
  .bind .state fun _ => onCache _

theorem bufferDataWrite (i : ℕ) (bytes : List UInt8) : Neutral (bufferDataWrite i bytes) :=
  .bind .state fun _ => .ite (bufWrite _ _ _) (.pure _)

theorem syncFsinfo : Neutral syncFsinfo :=
  .bind .state fun _ => .bind (fatReadbuf _ _) fun _ => .bind (bufferDataWrite _ _) fun _ =>
    .bind (bufferDataWrite _ _) fun _ => .bind (.attempt (fatDirtybuf _ _)) fun _ => .update fun _ => rfl

theorem fatSync : Neutral fatSync :=
  .bind .state fun _ => .bind (.when syncFsinfo) fun _ => onCache _

theorem fatTimestamps : Neutral fatTimestamps :=
  .bind .state fun _ => .bind (.update fun _ => rfl) fun _ => .pure _

theorem fatSeek (t : FatType) (n k : ℕ) : Neutral (fatSeek t n k) :=
  .bind .state fun _ => .ite (.fail _) (.pure _)

theorem fat12Read (n k : ℕ) : Neutral (fat12Read n k) :=
  .bind (fatSeek _ _ _) fun _ => .bind .state fun _ => .bind (fatReadbuf _ _) fun _ => .ite
    (.bind (.reads _) fun _ => .bind (.reads _) fun _ => .pure _)
    (.bind (fatReadbuf _ _) fun _ => .bind (.reads _) fun _ => .bind (.reads _) fun _ => .pure _)

theorem fat16Read (n k : ℕ) : Neutral (fat16Read n k) :=
  .bind (fatSeek _ _ _) fun _ => .bind (fatReadbuf _ _) fun _ => .bind (.reads _) fun _ =>
    .bind (.reads _) fun _ => .pure _

theorem fat32Read (n k : ℕ) : Neutral (fat32Read n k) :=
  .bind (fatSeek _ _ _) fun _ => .bind (fatReadbuf _ _) fun _ => .bind (.reads _) fun _ => .pure _

theorem vFatRead (n k : ℕ) : Neutral (vFatRead n k) := by
  refine .bind .state fun v => ?_
  cases v.geo.fatType
  · exact fat12Read n k
  · exact fat16Read n k
  · exact fat32Read n k

theorem readFatEntry (n : ℕ) : Neutral (readFatEntry n) := .bind .state fun _ => vFatRead _ _

theorem fat12Write (n k value : ℕ) : Neutral (fat12Write n k value) :=
  .bind (fatSeek _ _ _) fun _ => .bind .state fun _ => .bind (fatReadbuf _ _) fun _ => .ite
    (.bind (.reads _) fun _ => .bind (.reads _) fun _ => .bind (bufWrite _ _ _) fun _ => fatDirtybuf _ _)
    (.bind (fatReadbuf _ _) fun _ => .bind (.reads _) fun _ => .bind (.reads _) fun _ =>
      .bind (bufWrite _ _ _) fun _ => .bind (bufWrite _ _ _) fun _ => .bind (fatDirtybuf _ _) fun _ =>
        fatDirtybuf _ _)

theorem fat16Write (n k value : ℕ) : Neutral (fat16Write n k value) :=
  .bind (fatSeek _ _ _) fun _ => .bind (fatReadbuf _ _) fun _ => .bind (bufWrite _ _ _) fun _ =>
    fatDirtybuf _ _

theorem fat32Write (n k value : ℕ) : Neutral (fat32Write n k value) :=
  .bind (fatSeek _ _ _) fun _ => .bind (fatReadbuf _ _) fun _ => .bind (.reads _) fun _ =>
    .bind (bufWrite _ _ _) fun _ => fatDirtybuf _ _

theorem vFatWrite (n k value : ℕ) : Neutral (vFatWrite n k value) := by
  refine .bind .state fun v => ?_
  cases v.geo.fatType
  · exact fat12Write n k value
  · exact fat16Write n k value
  · exact fat32Write n k value

theorem writeFatCopies (n value k m : ℕ) : Neutral (writeFatCopies n value k m) := by
  induction m generalizing k with
  | zero => exact .pure _
  | succ m ih => exact .bind (vFatWrite _ _ _) fun _ => ih _

theorem writeFatEntry (n value : ℕ) : Neutral (writeFatEntry n value) :=
  .bind .state fun _ => writeFatCopies _ _ _ _

theorem walkChain (c k : ℕ) : Neutral (walkChain c k) := by
  induction k with
  | zero => exact .pure _
  | succ k ih =>
    exact .bind .state fun _ => .bind (readFatEntry _) fun _ => .ite (.pure _) (.ite (.fail _)
      (.bind (setChannel fun _ => ⟨rfl, rfl, rfl, rfl, rfl⟩) fun _ => ih))

theorem fatGetFileSector (c i : ℕ) : Neutral (fatGetFileSector c i) :=
  .bind .state fun _ => .ite (.ite (.pure _) (.pure _)) (.ite (.pure _)
    (.bind (.when (setChannel fun _ => ⟨rfl, rfl, rfl, rfl, rfl⟩)) fun _ => .bind .state fun _ =>
      .bind (walkChain _ _) fun _ => .ite (.bind .state fun _ => .pure _) (.pure _)))

theorem findFreeClusterInRange (k m : ℕ) : Neutral (findFreeClusterInRange k m) := by
  induction m generalizing k with
  | zero => exact .fail _
  | succ m ih =>
    exact .bind (readFatEntry _) fun _ => .ite (.bind (.update fun _ => rfl) fun _ => .pure _) (ih _)

theorem findFreeCluster : Neutral findFreeCluster := by
  refine .bind .state fun v => .bind (.attempt (findFreeClusterInRange _ _)) fun r => ?_
  split
  · exact .pure _
  · refine .bind (.attempt (findFreeClusterInRange _ _)) fun r => ?_
    split
    · exact .pure _
    · exact .bind (.update fun _ => rfl) fun _ => .fail _
    · exact .fail _
  · exact .fail _

theorem linkCluster (f last cluster : ℕ) : Neutral (linkCluster f last cluster) :=
  .bind .state fun _ => .ite (setFile fun _ => ⟨rfl, rfl, rfl⟩) (writeFatEntry _ _)

theorem fatAppendCluster (c : ℕ) : Neutral (fatAppendCluster c) := by
  refine .bind .state fun _ => .ite (.fail _) (.bind findFreeCluster fun _ => .bind (linkCluster _ _ _) fun _ =>
    .bind (.update ?_) fun _ => .bind (writeFatEntry _ _) fun _ => .pure _)
  intro v
  simp only [outline, Fat.skeleton]

theorem deleteClustersLoop (fuel start : ℕ) : Neutral (deleteClustersLoop fuel start) := by
  induction fuel generalizing start with
  | zero => exact .diverge
  | succ fuel ih =>
    exact .bind (readFatEntry _) fun _ => .bind (writeFatEntry _ _) fun _ =>
      .bind (.update fun _ => rfl) fun _ => .ite (.pure _) (ih _)

theorem fatDeleteClusters (start : ℕ) : Neutral (fatDeleteClusters start) :=
  .bind .state fun _ => deleteClustersLoop _ _

theorem fatDeleteFileClusters (f last : ℕ) : Neutral (fatDeleteFileClusters f last) :=
  .bind .state fun _ => .ite
    (.bind (readFatEntry _) fun _ => .bind (writeFatEntry _ _) fun _ => fatDeleteClusters _)
    (.bind (setFile fun _ => ⟨rfl, rfl, rfl⟩) fun _ => fatDeleteClusters _)

theorem readLoop (c size fuel k offset : ℕ) (b : Option ℕ) : Neutral (readLoop c size fuel k offset b) := by
  induction fuel generalizing k offset b with
  | zero => exact .pure _
  | succ fuel ih =>
    refine .bind .state fun v => .ite (.pure _) (.bind (fatGetFileSector _ _) fun r => ?_)
    cases r with
    | none => exact .pure _
    | some s => exact .bind (fatReadbuf _ _) fun _ => .bind (.reads _) fun _ => .bind (ih _ _ _) fun _ => .pure _

theorem stampAccessed (f : ℕ) : Neutral (stampAccessed f) :=
  .bind fatTimestamps fun _ => setFile fun _ => ⟨rfl, rfl, rfl⟩

theorem fatRead (c size : ℕ) : Neutral (fatRead c size) :=
  .bind .state fun _ => .ite (.fail _) (.bind (readLoop _ _ _ _ _ _) fun _ => .bind .state fun _ =>
    .bind (.when (stampAccessed _)) fun _ => .bind (setChannel fun _ => ⟨rfl, rfl, rfl, rfl, rfl⟩) fun _ =>
      .pure _)

theorem growFile (c n : ℕ) : Neutral (Prog.update fun v =>
    if hasAttr (v.files (v.channels c).f).de.attr fatADir = false ∧ n ≥ (v.files (v.channels c).f).de.fileSize
    then v.setFile (v.channels c).f fun f => { f with de := f.de.setFileSize n }
    else v) := by
  refine .update fun v => ?_
  split
  · exact outline_setFile (by intro; exact ⟨rfl, rfl, rfl⟩) v
  · rfl

theorem doWriteLoop (c : ℕ) (buffer : Option (List UInt8)) (size fuel k offset : ℕ) (b : Option ℕ) :
    Neutral (doWriteLoop c buffer size fuel k offset b) := by
  induction fuel generalizing k offset b with
  | zero => exact .diverge
  | succ fuel ih =>
    refine .ite (.pure _) (.bind .state fun v => .bind (fatGetFileSector _ _) fun r => ?_)
    cases r with
    | none =>
      refine .bind (.attempt (fatAppendCluster _)) fun r => ?_
      cases r with
      | ok _ => exact ih _ _ _
      | error _ => exact .ite (.pure _) (.fail _)
    | some s =>
      exact .bind (growFile _ _) fun _ => .bind (fatReadbuf _ _) fun _ => .bind (bufWrite _ _ _) fun _ =>
        .bind (fatDirtybuf _ _) fun _ => ih _ _ _

theorem fatDoWrite (c : ℕ) (buffer : Option (List UInt8)) (size offset : ℕ) :
    Neutral (fatDoWrite c buffer size offset) :=
  .bind .state fun _ => .ite (.pure _) (.ite (.fail _) (.ite (.fail _)
    (.bind (doWriteLoop _ _ _ _ _ _ _) fun _ =>
      .bind (.when (.bind fatTimestamps fun _ => setFile fun _ => ⟨rfl, rfl, rfl⟩)) fun _ =>
        .bind (.when fatSync) fun _ => .pure _)))

theorem writeAtPointer (c : ℕ) (buffer : List UInt8) (pointer : ℕ) (n : Int) :
    Neutral (writeAtPointer c buffer pointer n) :=
  .bind (fatDoWrite _ _ _ _) fun _ => .ite (.pure _)
    (.bind (setChannel fun _ => ⟨rfl, rfl, rfl, rfl, rfl⟩) fun _ => .pure _)

theorem fatWrite (c : ℕ) (buffer : List UInt8) : Neutral (fatWrite c buffer) :=
  .bind .state fun _ => .ite (.fail _) (.ite (.pure _)
    (.bind (setChannel fun _ => ⟨rfl, rfl, rfl, rfl, rfl⟩) fun _ => .ite
      (.bind (fatDoWrite _ _ _ _) fun _ => .bind .state fun _ => .ite (.pure _) (writeAtPointer _ _ _ _))
      (writeAtPointer _ _ _ _)))

theorem outline_resetCursors (f : ℕ) (v : Volume) : outline (v.resetCursors f) = outline v := by
  have h : ∀ k, (v.resetCursors f).channels k = v.channels k ∨
      (v.resetCursors f).channels k = { v.channels k with clusterIndex := 0 } := by
    intro k
    simp only [Volume.resetCursors]
    split
    · exact .inr rfl
    · exact .inl rfl
  have hf : ∀ k, ((v.resetCursors f).channels k).f = (v.channels k).f := fun k => by rcases h k with h | h <;> rw [h]
  have hm : ∀ k, ((v.resetCursors f).channels k).magic = (v.channels k).magic := fun k => by
    rcases h k with h | h <;> rw [h]
  have hl : ∀ k, ((v.resetCursors f).channels k).flags = (v.channels k).flags := fun k => by
    rcases h k with h | h <;> rw [h]
  have hr : ∀ k, ((v.resetCursors f).channels k).references = (v.channels k).references := fun k => by
    rcases h k with h | h <;> rw [h]
  have hd : ∀ k, ((v.resetCursors f).channels k).dentry = (v.channels k).dentry := fun k => by
    rcases h k with h | h <;> rw [h]
  unfold outline Fat.skeleton
  simp only [hf, hm, hl, hr, hd]
  rfl

theorem lastClusterFor (c length : ℕ) : Neutral (lastClusterFor c length) := by
  refine .ite (.pure _) (.bind .state fun v => .bind (fatGetFileSector _ _) fun r => ?_)
  cases r with
  | none => exact .fail _
  | some _ => exact .reads _

theorem fatFtruncate (c : ℕ) (length : Int) : Neutral (fatFtruncate c length) :=
  .bind .state fun _ => .ite (.fail _) (.ite (.fail _) (.ite
    (.bind (lastClusterFor _ _) fun _ => .bind (fatDeleteFileClusters _ _) fun _ =>
      .bind fatTimestamps fun _ => .bind (setFile fun _ => ⟨rfl, rfl, rfl⟩) fun _ => .bind (.when fatSync) fun _ =>
        .bind (.update (outline_resetCursors _)) fun _ => .pure _)
    (.ite (.bind (fatDoWrite _ _ _ _) fun _ => .pure _) (.pure _))))

theorem fatLseek (c : ℕ) (offset : Int) (whence : Whence) : Neutral (fatLseek c offset whence) :=
  .bind .state fun _ => .ite (.fail _) (.ite (.fail _)
    (.bind (setChannel fun _ => ⟨rfl, rfl, rfl, rfl, rfl⟩) fun _ => .pure _))

theorem writeDirentry (f : ℕ) : Neutral (writeDirentry f) :=
  .bind .state fun _ => .bind (fatReadbuf _ _) fun _ => .bind (bufWrite _ _ _) fun _ =>
    .bind (setFile fun _ => ⟨rfl, rfl, rfl⟩) fun _ => fatDirtybuf _ _

theorem fatFsync (c : ℕ) (datasync : Bool) : Neutral (fatFsync c datasync) :=
  .bind .state fun _ => .ite (.fail _) (.bind (.when (writeDirentry _)) fun _ => fatSync)

theorem fetchDirentry (d : ℕ) : Neutral (fetchDirentry d) := by
  refine .bind .state fun v => ?_
  cases (v.dentries d).parent with
  | none => exact .pure _
  | some _ => exact .bind (fatReadbuf _ _) fun _ => .bind (.reads _) fun _ => .pure _

theorem seek (c pos : ℕ) : Neutral (seek c pos) := setChannel fun _ => ⟨rfl, rfl, rfl, rfl, rfl⟩

theorem collides (c : ℕ) (aux : List UInt8) (fuel : ℕ) : Neutral (collides c aux fuel) := by
  induction fuel with
  | zero => exact .diverge
  | succ fuel ih => exact .bind (fatRead _ _) fun _ => .ite (.pure _) (.ite (.fail _) (.ite (.pure _) ih))

theorem tryTails (c : ℕ) (dest : List UInt8) (n counter : ℕ) : Neutral (tryTails c dest n counter) := by
  induction n generalizing counter with
  | zero => exact .fail _
  | succ n ih =>
    exact .bind (seek _ _) fun _ => .bind .state fun _ => .bind (collides _ _ _) fun _ => .ite (ih _) (.pure _)

theorem genShortFname (c : ℕ) (src : List UInt8) (hint : ℕ) : Neutral (genShortFname c src hint) :=
  .bind (setLud _) fun _ => .bind (.ofExcept _) fun _ => .ite (.pure _)
    (.bind (tryTails _ _ _ _) fun _ => .bind (setLud _) fun _ => .pure _)

theorem readShort (c : ℕ) : Neutral (readShort c) := by
  refine .bind .state fun v => ?_
  split
  · exact .bind (setLud _) fun _ => .fail _
  · exact .bind (setLud _) fun _ => .bind (.ofExcept _) fun _ => .bind (setLud _) fun _ => .update fun _ => rfl

theorem readdirLoop (c fuel : ℕ) : Neutral (readdirLoop c fuel) := by
  induction fuel with
  | zero => exact .diverge
  | succ fuel ih =>
    exact .bind (fatRead _ _) fun _ => .bind (setLud _) fun _ => .ite (.fail _) (.ite (.fail _) (.ite (.fail _)
      (.ite (readShort _) (.bind (setLud _) fun _ => ih))))

theorem fatDoReaddir (c : ℕ) : Neutral (fatDoReaddir c) :=
  .bind .state fun _ => .ite (.fail _) (.bind (setLud _) fun _ => readdirLoop _ _)

theorem writeAll (c : ℕ) (buffer : Option (List UInt8)) (size offset : ℕ) :
    Neutral (writeAll c buffer size offset) :=
  .bind (fatDoWrite _ _ _ _) fun _ => .ite (.fail _) (.pure _)

theorem deleteEntries (c entry count : ℕ) : Neutral (deleteEntries c entry count) := by
  induction count generalizing entry with
  | zero => exact .pure _
  | succ count ih => exact .bind (writeAll _ _ _ _) fun _ => ih _

theorem findFreeLoop (c n fuel found pos : ℕ) : Neutral (findFreeLoop c n fuel found pos) := by
  induction fuel generalizing found pos with
  | zero => exact .diverge
  | succ fuel ih =>
    exact .bind (fatRead _ _) fun _ => .ite (.pure _) (.ite (.fail _) (.bind .state fun _ =>
      .ite (.pure _) (ih _ _)))

theorem findFreeEntries (c n : ℕ) : Neutral (findFreeEntries c n) := by
  refine .bind (seek _ _) fun _ => .bind .state fun _ => .bind (findFreeLoop _ _ _ _ _) fun r => ?_
  cases r with
  | none => exact .bind .state fun _ => .bind (writeAll _ _ _ _) fun _ => .pure _
  | some _ => exact .pure _

theorem linkEntries (c k n : ℕ) : Neutral (linkEntries c k n) := by
  induction n generalizing k with
  | zero => exact .pure _
  | succ n ih =>
    exact .bind .state fun _ => .bind (writeAll _ _ _ _) fun _ => .bind (seek _ _) fun _ => ih _

theorem splitName (fn : List UInt8) : Neutral (splitName fn) :=
  .bind .state fun _ => .bind (setLud _) fun _ => .ofExcept _

theorem fatLink (c : ℕ) (fn : List UInt8) (attr : UInt8) (hint : ℕ) : Neutral (fatLink c fn attr hint) :=
  .bind (setLud _) fun _ => .bind (genShortFname _ _ _) fun _ => .bind (.when (splitName _)) fun _ =>
    .bind .state fun _ => .bind (findFreeEntries _ _) fun _ => .bind fatTimestamps fun _ =>
      .bind (setLud _) fun _ => .bind (seek _ _) fun _ => .bind .state fun _ =>
        .bind (linkEntries _ _ _) fun _ => .update fun _ => rfl

theorem expectEntry (c : ℕ) (name : List UInt8) : Neutral (expectEntry c name) :=
  .bind (fatRead _ _) fun _ => .ite (.fail _) (.pure _)

theorem expectFree (c fuel : ℕ) : Neutral (expectFree c fuel) := by
  induction fuel with
  | zero => exact .diverge
  | succ fuel ih => exact .bind (fatRead _ _) fun _ => .ite (.fail _) (.ite (.pure _) (.ite (.fail _) ih))

theorem directoryIsEmpty (c : ℕ) : Neutral (directoryIsEmpty c) :=
  .bind (expectEntry _ _) fun _ => .bind (expectEntry _ _) fun _ => .bind .state fun _ => expectFree _ _

theorem lookupLoop (c : ℕ) (fn : List UInt8) (fuel : ℕ) : Neutral (lookupLoop c fn fuel) := by
  induction fuel with
  | zero => exact .diverge
  | succ fuel ih =>
    exact .bind (fatDoReaddir _) fun _ => .bind .state fun _ => .ite ih (.bind (.ofExcept _) fun _ =>
      .ite (.pure _) (.bind (.ofExcept _) fun _ => .ite (.pure _) ih))

theorem removeCheck (c : ℕ) (dir : Bool) : Neutral (removeCheck c dir) :=
  .bind .state fun _ => .ite (.ite (directoryIsEmpty _) (.fail _)) (.ite (.fail _) (.pure _))

theorem deleteLink (cparent d : ℕ) : Neutral (deleteLink cparent d) :=
  .bind .state fun _ => deleteEntries _ _ _

theorem skeleton_markUnlinked (f d : ℕ) (v : Volume) : Fat.skeleton (v.markUnlinked f d) = Fat.skeleton v :=
  (skeleton_setDentry (by intro; exact ⟨rfl, rfl, rfl, rfl⟩) _).trans (skeleton_setFile (by intro; rfl) v)

theorem renameCheck (oc : ℕ) (nc : Option ℕ) : Neutral (renameCheck oc nc) := by
  cases nc with
  | none => exact .pure _
  | some nc =>
    exact .bind .state fun _ => .ite (.ite (directoryIsEmpty _) (.fail _)) (.ite (.fail _) (.pure _))

theorem renameWrite (cs : RenameChannels) : Neutral (renameWrite cs) :=
  .bind .state fun _ => .bind (setLud _) fun _ => .bind .state fun _ => writeAll _ _ _ _

theorem skeleton_renameUnlink (od : ℕ) (cs : RenameChannels) : Keeps Fat.skeleton (renameUnlink od cs) :=
  .bind (deleteLink _ _).skeleton fun _ => .update fun v =>
    (skeleton_setDentry (by intro; exact ⟨rfl, rfl, rfl, rfl⟩) _).trans (skeleton_setFile (by intro; rfl) v)

theorem dotdotCluster (d : ℕ) : Neutral (dotdotCluster d) := by
  refine .bind .state fun v => ?_
  cases (v.dentries d).parent with
  | none => exact .pure _
  | some _ => exact .bind (fatReadbuf _ _) fun _ => .bind (.reads _) fun _ => .pure _

theorem mkdirDots (c d : ℕ) : Neutral (mkdirDots c d) :=
  .bind .state fun _ => .bind (writeAll _ _ _ _) fun _ => .bind .state fun _ => .bind (writeAll _ _ _ _) fun _ =>
    .bind (dotdotCluster _) fun _ => writeAll _ _ _ _

end Neutral

end FreeDos32.Fat
