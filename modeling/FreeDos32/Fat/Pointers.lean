import FreeDos32.Fat.File
import FreeDos32.Fat.Open

namespace FreeDos32.Fat

open Prog

/-- The file pointers of the open instances. -/
def pointers (v : Volume) (c : ℕ) : ℕ := (v.channels c).filePointer

theorem pointers_seek (c pos : ℕ) (v : Volume) :
    pointers (v.setChannel c fun x => { x with filePointer := pos }) = Function.update (pointers v) c pos := by
  funext k
  by_cases hk : k = c
  · subst hk
    simp [pointers]
  · simp [pointers, Volume.setChannel_ne hk, hk]

theorem pointers_setChannel {c : ℕ} {g : Channel → Channel} (hg : ∀ x, (g x).filePointer = x.filePointer) (v : Volume) :
    pointers (v.setChannel c g) = pointers v := by
  funext k
  by_cases hk : k = c
  · subst hk
    simp [pointers, hg]
  · simp [pointers, Volume.setChannel_ne hk]

/-- A call that moves no file pointer. -/
abbrev Unmoving {α : Type} (x : FatM α) : Prop := Keeps pointers x

namespace Unmoving

theorem setFile (f : ℕ) (g : File → File) : Unmoving (Prog.update (Volume.setFile f g)) := .update fun _ => rfl

theorem moveCursor (c : ℕ) (g : Channel → Channel) (hg : ∀ x, (g x).filePointer = x.filePointer) :
    Unmoving (Prog.update (Volume.setChannel c g)) := .update (pointers_setChannel hg)

theorem onCache {α : Type} (x : Prog (Cache SectorData) Errno α) : Unmoving (onCache x) := fun _ => rfl

theorem fatReadbuf (s : ℕ) (b : Option ℕ) : Unmoving (fatReadbuf s b) := onCache _

theorem fatDirtybuf (b : ℕ) (w : Bool) : Unmoving (fatDirtybuf b w) := onCache _

theorem bufWrite (b i : ℕ) (bytes : List UInt8) : Unmoving (bufWrite b i bytes) := .bind .state fun _ => onCache _

theorem bufferDataWrite (i : ℕ) (bytes : List UInt8) : Unmoving (bufferDataWrite i bytes) :=
  .bind .state fun _ => .ite (bufWrite _ _ _) (.pure _)

theorem syncFsinfo : Unmoving syncFsinfo := by
  refine .bind .state fun _ => .bind (fatReadbuf _ _) fun _ => .bind (bufferDataWrite _ _) fun _ => ?_
  exact .bind (bufferDataWrite _ _) fun _ => .bind (.attempt (fatDirtybuf _ _)) fun _ => .update fun _ => rfl

theorem fatSync : Unmoving fatSync := .bind .state fun _ => .bind (.when syncFsinfo) fun _ => onCache _

theorem fatTimestamps : Unmoving fatTimestamps :=
  .bind .state fun _ => .bind (.update fun _ => rfl) fun _ => .pure _

theorem fatSeek (t : FatType) (n k : ℕ) : Unmoving (fatSeek t n k) := .bind .state fun _ => .ite (.fail _) (.pure _)

theorem fat12Read (n k : ℕ) : Unmoving (fat12Read n k) := by
  refine .bind (fatSeek _ _ _) fun _ => .bind .state fun _ => .bind (fatReadbuf _ _) fun _ => .ite ?_ ?_
  · exact .bind (.reads _) fun _ => .bind (.reads _) fun _ => .pure _
  · exact .bind (fatReadbuf _ _) fun _ => .bind (.reads _) fun _ => .bind (.reads _) fun _ => .pure _

theorem fat16Read (n k : ℕ) : Unmoving (fat16Read n k) := by
  refine .bind (fatSeek _ _ _) fun _ => .bind (fatReadbuf _ _) fun _ => ?_
  exact .bind (.reads _) fun _ => .bind (.reads _) fun _ => .pure _

theorem fat32Read (n k : ℕ) : Unmoving (fat32Read n k) :=
  .bind (fatSeek _ _ _) fun _ => .bind (fatReadbuf _ _) fun _ => .bind (.reads _) fun _ => .pure _

theorem readFatEntry (n : ℕ) : Unmoving (readFatEntry n) := by
  refine .bind .state fun _ => .bind .state fun v => ?_
  cases v.geo.fatType
  · exact fat12Read n _
  · exact fat16Read n _
  · exact fat32Read n _

theorem fat12Write (n k value : ℕ) : Unmoving (fat12Write n k value) := by
  refine .bind (fatSeek _ _ _) fun _ => .bind .state fun _ => .bind (fatReadbuf _ _) fun _ => .ite ?_ ?_
  · exact .bind (.reads _) fun _ => .bind (.reads _) fun _ => .bind (bufWrite _ _ _) fun _ => fatDirtybuf _ _
  · refine .bind (fatReadbuf _ _) fun _ => .bind (.reads _) fun _ => .bind (.reads _) fun _ => ?_
    exact .bind (bufWrite _ _ _) fun _ => .bind (bufWrite _ _ _) fun _ => .bind (fatDirtybuf _ _) fun _ => fatDirtybuf _ _

theorem fat16Write (n k value : ℕ) : Unmoving (fat16Write n k value) :=
  .bind (fatSeek _ _ _) fun _ => .bind (fatReadbuf _ _) fun _ => .bind (bufWrite _ _ _) fun _ => fatDirtybuf _ _

theorem fat32Write (n k value : ℕ) : Unmoving (fat32Write n k value) := by
  refine .bind (fatSeek _ _ _) fun _ => .bind (fatReadbuf _ _) fun _ => .bind (.reads _) fun _ => ?_
  exact .bind (bufWrite _ _ _) fun _ => fatDirtybuf _ _

theorem writeFatCopies (n value k m : ℕ) : Unmoving (writeFatCopies n value k m) := by
  induction m generalizing k with
  | zero => exact .pure _
  | succ m ih =>
    refine .bind (.bind .state fun v => ?_) fun _ => ih _
    cases v.geo.fatType
    · exact fat12Write n k value
    · exact fat16Write n k value
    · exact fat32Write n k value

theorem writeFatEntry (n value : ℕ) : Unmoving (writeFatEntry n value) := .bind .state fun _ => writeFatCopies _ _ _ _

theorem walkChain (c k : ℕ) : Unmoving (walkChain c k) := by
  induction k with
  | zero => exact .pure _
  | succ k ih =>
    refine .bind .state fun _ => .bind (readFatEntry _) fun _ => .ite (.pure _) (.ite (.fail _) ?_)
    exact .bind (moveCursor _ _ fun _ => rfl) fun _ => ih

theorem fatGetFileSector (c i : ℕ) : Unmoving (fatGetFileSector c i) := by
  refine .bind .state fun _ => .ite (.ite (.pure _) (.pure _)) (.ite (.pure _) ?_)
  refine .bind (.when (moveCursor _ _ fun _ => rfl)) fun _ => .bind .state fun _ => .bind (walkChain _ _) fun _ => ?_
  exact .ite (.bind .state fun _ => .pure _) (.pure _)

theorem findFreeClusterInRange (k m : ℕ) : Unmoving (findFreeClusterInRange k m) := by
  induction m generalizing k with
  | zero => exact .fail _
  | succ m ih => exact .bind (readFatEntry _) fun _ => .ite (.bind (.update fun _ => rfl) fun _ => .pure _) (ih _)

theorem findFreeCluster : Unmoving findFreeCluster := by
  refine .bind .state fun v => .bind (.attempt (findFreeClusterInRange _ _)) fun r => ?_
  split
  · exact .pure _
  · refine .bind (.attempt (findFreeClusterInRange _ _)) fun r => ?_
    split
    · exact .pure _
    · exact .bind (.update fun _ => rfl) fun _ => .fail _
    · exact .fail _
  · exact .fail _

theorem linkCluster (f last cluster : ℕ) : Unmoving (linkCluster f last cluster) :=
  .bind .state fun _ => .ite (setFile _ _) (writeFatEntry _ _)

theorem fatAppendCluster (c : ℕ) : Unmoving (fatAppendCluster c) := by
  refine .bind .state fun _ => .ite (.fail _) (.bind findFreeCluster fun _ => .bind (linkCluster _ _ _) fun _ => ?_)
  refine .bind (.update fun v => funext fun k => ?_) fun _ => .bind (writeFatEntry _ _) fun _ => .pure _
  simp only [pointers]

theorem deleteClustersLoop (fuel start : ℕ) : Unmoving (deleteClustersLoop fuel start) := by
  induction fuel generalizing start with
  | zero => exact .diverge
  | succ fuel ih =>
    refine .bind (readFatEntry _) fun _ => .bind (writeFatEntry _ _) fun _ => .bind (.update fun _ => rfl) fun _ => ?_
    exact .ite (.pure _) (ih _)

theorem fatDeleteFileClusters (f last : ℕ) : Unmoving (fatDeleteFileClusters f last) := by
  refine .bind .state fun _ => .ite ?_ (.bind (setFile _ _) fun _ => .bind .state fun _ => deleteClustersLoop _ _)
  refine .bind (readFatEntry _) fun _ => .bind (writeFatEntry _ _) fun _ => ?_
  exact .bind .state fun _ => deleteClustersLoop _ _

theorem readLoop (c size fuel k offset : ℕ) (b : Option ℕ) : Unmoving (readLoop c size fuel k offset b) := by
  induction fuel generalizing k offset b with
  | zero => exact .pure _
  | succ fuel ih =>
    refine .bind .state fun v => .ite (.pure _) (.bind (fatGetFileSector _ _) fun r => ?_)
    cases r with
    | none => exact .pure _
    | some s => exact .bind (fatReadbuf _ _) fun _ => .bind (.reads _) fun _ => .bind (ih _ _ _) fun _ => .pure _

theorem stampAccessed (f : ℕ) : Unmoving (stampAccessed f) := .bind fatTimestamps fun _ => setFile _ _

theorem growTo (c n : ℕ) : Unmoving (Prog.update fun v =>
    if hasAttr (v.files (v.channels c).f).de.attr fatADir = false ∧ n ≥ (v.files (v.channels c).f).de.fileSize
    then v.setFile (v.channels c).f fun f => { f with de := f.de.setFileSize n }
    else v) := by
  refine .update fun v => ?_
  split <;> rfl

theorem doWriteLoop (c : ℕ) (buffer : Option (List UInt8)) (size fuel k offset : ℕ) (b : Option ℕ) :
    Unmoving (doWriteLoop c buffer size fuel k offset b) := by
  induction fuel generalizing k offset b with
  | zero => exact .diverge
  | succ fuel ih =>
    refine .ite (.pure _) (.bind .state fun v => .bind (fatGetFileSector _ _) fun r => ?_)
    cases r with
    | none =>
      refine .bind (.attempt (fatAppendCluster _)) fun r => ?_
      cases r with
      | ok _ => exact ih _ _ _
      | error _ => exact .ite (.pure _) (.fail _)
    | some s =>
      refine .bind (growTo _ _) fun _ => .bind (fatReadbuf _ _) fun _ => .bind (bufWrite _ _ _) fun _ => ?_
      exact .bind (fatDirtybuf _ _) fun _ => ih _ _ _

theorem fatDoWrite (c : ℕ) (buffer : Option (List UInt8)) (size offset : ℕ) : Unmoving (fatDoWrite c buffer size offset) := by
  refine .bind .state fun _ => .ite (.pure _) (.ite (.fail _) (.ite (.fail _) (.bind (doWriteLoop _ _ _ _ _ _ _) ?_)))
  intro k
  exact .bind (.when (.bind fatTimestamps fun _ => setFile _ _)) fun _ => .bind (.when fatSync) fun _ => .pure _

theorem resetCursors (f : ℕ) : Unmoving (Prog.update (Volume.resetCursors f)) := by
  refine .update fun v => funext fun k => ?_
  simp only [pointers, Volume.resetCursors]
  split <;> rfl

theorem lastClusterFor (c length : ℕ) : Unmoving (lastClusterFor c length) := by
  refine .ite (.pure _) (.bind .state fun v => .bind (fatGetFileSector _ _) fun r => ?_)
  cases r with
  | none => exact .fail _
  | some _ => exact .reads _

theorem fatFtruncate (c : ℕ) (length : Int) : Unmoving (fatFtruncate c length) := by
  refine .bind .state fun _ => .ite (.fail _) (.ite (.fail _) (.ite ?_ (.ite ?_ (.pure _))))
  · refine .bind (lastClusterFor _ _) fun _ => .bind (fatDeleteFileClusters _ _) fun _ => .bind fatTimestamps fun _ => ?_
    exact .bind (setFile _ _) fun _ => .bind (.when fatSync) fun _ => .bind (resetCursors _) fun _ => .pure _
  · exact .bind (fatDoWrite _ _ _ _) fun _ => .pure _

theorem writeDirentry (f : ℕ) : Unmoving (writeDirentry f) := by
  refine .bind .state fun _ => .bind (fatReadbuf _ _) fun _ => .bind (bufWrite _ _ _) fun _ => ?_
  exact .bind (setFile _ _) fun _ => fatDirtybuf _ _

theorem fatFsync (c : ℕ) (datasync : Bool) : Unmoving (fatFsync c datasync) :=
  .bind .state fun _ => .ite (.fail _) (.bind (.when (writeDirentry _)) fun _ => fatSync)

end Unmoving

end FreeDos32.Fat
