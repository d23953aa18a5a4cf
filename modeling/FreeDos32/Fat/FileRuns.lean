import FreeDos32.Fat.FileRequests
import Mathlib.Algebra.BigOperators.Group.Finset.Piecewise

namespace FreeDos32.Fat

open Prog

/-- A request on an open instance. -/
inductive FileRequest where
  | read (size : ℕ)
  | write (buffer : List UInt8)
  | lseek (offset : Int) (whence : Whence)
  | ftruncate (length : Int)
  | fsync (datasync : Bool)

inductive FileReply where
  | data (bytes : List UInt8)
  | count (n : Int)
  | done
  deriving DecidableEq

namespace FileRequest

/-- What the driver does. -/
def exec (c : ℕ) : FileRequest → FatM FileReply
  | read n => do return .data (← fatRead c n)
  | write buffer => do return .count (← fatWrite c buffer)
  | lseek offset whence => do return .count (← fatLseek c offset whence)
  | ftruncate length => do return .count (← fatFtruncate c length)
  | fsync datasync => do
    fatFsync c datasync
    return .done

/-- What the store answers. -/
def answer (c : ℕ) : FileRequest → StoreM FileReply
  | read n => do return .data (← FileStore.read c n)
  | write buffer => do return .count (← FileStore.write c buffer)
  | lseek offset whence => do return .count (← FileStore.lseek c offset whence)
  | ftruncate length => do return .count (← FileStore.ftruncate c length)
  | fsync _ => do
    pure ()
    return .done

end FileRequest

variable {G G' : Layout} {s t : FileStore} {v w : Volume} {c f k n : ℕ} {F : Finset ℕ}

theorem exec_refines (hc : c ∈ s.opened) (r : FileRequest) :
    Refines (fun t v => t = s ∧ Shown t v) (r.exec c) (r.answer c) (fun _ => Shown) fun _ => Shown := by
  cases r with
  | read n => exact .bind (fatRead_refines hc n) fun _ => .pure _ fun _ _ h => h
  | write buffer => exact .bind (fatWrite_refines hc buffer) fun _ => .pure _ fun _ _ h => h
  | lseek offset whence => exact .bind (fatLseek_refines hc offset whence) fun _ => .pure _ fun _ _ h => h
  | ftruncate length => exact .bind (fatFtruncate_refines hc length) fun _ => .pure _ fun _ _ h => h
  | fsync datasync => exact .bind (fatFsync_refines hc datasync) fun _ => .pure _ fun _ _ h => h

namespace FileStore

/-- What no request changes of a store. -/
def frame (s : FileStore) : ℕ × List ℕ × (ℕ → ℕ) × (ℕ → ℕ) :=
  (s.clusterBytes, s.opened, fun c => (s.handles c).file, fun c => (s.handles c).flags)

theorem frame_hold (f : ℕ) (new : List UInt8) (k : ℕ) (s : FileStore) : (s.hold f new k).frame = s.frame := rfl

theorem frame_seek (c pos : ℕ) (s : FileStore) : (s.seek c pos).frame = s.frame := by
  simp only [frame, seek_clusterBytes, seek_opened, seek_file, seek_flags]

theorem put_frame (f pos : ℕ) (data : List UInt8) : Keeps frame (put f pos data) := by
  refine .bind .state fun s => .ite (.pure _) (.ite (.fail _) (.ite (.fail _) ?_))
  exact .bind (.update fun _ => rfl) fun _ => .pure _

theorem writeAt_frame (c f : ℕ) (buffer : List UInt8) (start : ℕ) (j : Int) : Keeps frame (writeAt c f buffer start j) := by
  refine .bind (put_frame _ _ _) fun _ => .ite (.pure _) ?_
  exact .bind (.update (frame_seek _ _)) fun _ => .pure _

theorem answer_frame (c : ℕ) (r : FileRequest) : Keeps frame (r.answer c) := by
  cases r with
  | read n =>
    refine .bind (.bind .state fun s => .ite (.fail _) ?_) fun _ => .pure _
    exact .bind (.update (frame_seek _ _)) fun _ => .pure _
  | write buffer =>
    refine .bind (.bind .state fun s => .ite (.fail _) (.ite (.pure _) ?_)) fun _ => .pure _
    refine .bind (.update (frame_seek _ _)) fun _ => .ite ?_ (writeAt_frame _ _ _ _ _)
    exact .bind (put_frame _ _ _) fun _ => .bind .state fun _ => .ite (.pure _) (writeAt_frame _ _ _ _ _)
  | lseek offset whence =>
    refine .bind (.bind .state fun s => .ite (.fail _) ?_) fun _ => .pure _
    exact .bind (.update (frame_seek _ _)) fun _ => .pure _
  | ftruncate length =>
    refine .bind (.bind .state fun s => .ite (.fail _) (.ite (.fail _) (.ite ?_ (.ite ?_ (.pure _))))) fun _ => .pure _
    · exact .ite (.bind (.update fun _ => rfl) fun _ => .pure _) (.fail _)
    · exact .bind (put_frame _ _ _) fun _ => .pure _
  | fsync datasync => exact .bind (.pure ()) fun _ => .pure _

theorem put_returns (f pos : ℕ) (data : List UInt8) : Prog.Returns (put f pos data) :=
  .bind .state fun _ => .ite (.pure _) (.ite (.fail _) (.ite (.fail _) (.bind (.update _) fun _ => .pure _)))

theorem writeAt_returns (c f : ℕ) (buffer : List UInt8) (start : ℕ) (j : Int) : Prog.Returns (writeAt c f buffer start j) :=
  .bind (put_returns _ _ _) fun _ => .ite (.pure _) (.bind (.update _) fun _ => .pure _)

theorem answer_returns (c : ℕ) (r : FileRequest) : Prog.Returns (r.answer c) := by
  cases r with
  | read n => exact .bind (.bind .state fun _ => .ite (.fail _) (.bind (.update _) fun _ => .pure _)) fun _ => .pure _
  | write buffer =>
    refine .bind (.bind .state fun s => .ite (.fail _) (.ite (.pure _) ?_)) fun _ => .pure _
    refine .bind (.update _) fun _ => .ite ?_ (writeAt_returns _ _ _ _ _)
    exact .bind (put_returns _ _ _) fun _ => .bind .state fun _ => .ite (.pure _) (writeAt_returns _ _ _ _ _)
  | lseek offset whence =>
    exact .bind (.bind .state fun _ => .ite (.fail _) (.bind (.update _) fun _ => .pure _)) fun _ => .pure _
  | ftruncate length =>
    refine .bind (.bind .state fun s => .ite (.fail _) (.ite (.fail _) (.ite ?_ (.ite ?_ (.pure _))))) fun _ => .pure _
    · exact .ite (.bind (.update _) fun _ => .pure _) (.fail _)
    · exact .bind (put_returns _ _ _) fun _ => .pure _
  | fsync datasync => exact .bind (.pure ()) fun _ => .pure _

end FileStore

def execAt (r : ℕ × FileRequest) : FatM FileReply := r.2.exec r.1

def answerAt (r : ℕ × FileRequest) : StoreM FileReply := r.2.answer r.1

theorem execAll_refines (cs : List ℕ) (rs : List (ℕ × FileRequest)) (hrs : ∀ r ∈ rs, r.1 ∈ cs) :
    Refines (fun t v => t.opened = cs ∧ Shown t v) (inOrder execAt rs) (inOrder answerAt rs)
      (fun _ t v => t.opened = cs ∧ Shown t v) fun _ _ _ => False := by
  apply Refines.inOrder
  intro r hr
  have hopened : Keeps FileStore.opened (answerAt r) := fun t => congrArg (fun x => x.2.1) (FileStore.answer_frame r.1 r.2 t)
  have hstep : Refines (fun t v => t.opened = cs ∧ Shown t v) (execAt r) (answerAt r) (fun _ => Shown) fun _ => Shown := by
    apply Refines.of_fixed
    intro t ht
    exact exec_refines (ht ▸ hrs r hr) r.2
  exact (Refines.frame hopened hstep cs).conseq (fun _ _ h => ⟨h.1, h⟩) (fun _ _ _ h => h) fun _ _ _ h => h

/-- Whatever requests are made on the open files of a volume in good order, in whatever order, the driver replies what
the store replies, and the volume stays in good order and shows what the store has become. -/
theorem requests_refine (h : Shown s v) (rs : List (ℕ × FileRequest)) (hrs : ∀ r ∈ rs, r.1 ∈ s.opened) :
    ∃ replies t w, (inOrder answerAt rs).run s = (.ok replies, t) ∧ (inOrder execAt rs).run v = (.ok replies, w) ∧
      Shown t w := by
  obtain ⟨replies, t, hanswer⟩ := inOrder_returns (fun r => FileStore.answer_returns r.1 r.2) rs s
  change (inOrder answerAt rs).run s = (.ok replies, t) at hanswer
  obtain ⟨hsame, hpost⟩ := execAll_refines s.opened rs hrs v s ⟨rfl, h⟩
  rw [hanswer] at hsame hpost
  exact ⟨replies, t, ((inOrder execAt rs).run v).2, hanswer, Prod.ext hsame rfl, hpost.2⟩

/-- The letter of `letterVolume`, without the volume. -/
def letterStore (flags pointer : ℕ) : FileStore where
  clusterBytes := 512
  free := 5
  bytes _ := [0x61]
  clusters _ := 1
  opened := [2]
  handles _ := ⟨1, flags, pointer⟩

theorem letter_shows (flags pointer : ℕ) : Shows letterLayout (letterStore flags pointer) (letterVolume flags pointer) where
  wellFormed := letter_wellFormed flags pointer
  loop := letter_loop flags pointer
  files k hk := by
    obtain rfl := List.mem_singleton.mp hk
    exact List.mem_singleton.mpr rfl
  clusterBytes := by
    change letterGeometry.bytesPerCluster = 512
    decide
  free := rfl
  handle c hc := by
    obtain rfl := List.mem_singleton.mp hc
    refine ⟨List.mem_singleton.mpr rfl, ?_, rfl, rfl, rfl, rfl⟩
    change letterEntry.isDir = false
    decide
  bytes c hc := letter_contents flags pointer
  clusters c hc := by
    change (letterLayout.chain ((books (letterVolume flags pointer)).fileAddr 1)).length = 1
    rw [letter_fileAddr]
    rfl

/-- Two letters are written behind a gap, the file is cut and read again. -/
def letterRequests : List (ℕ × FileRequest) :=
  [(2, .lseek 3 .seekSet), (2, .write [0x62, 0x63]), (2, .ftruncate 4), (2, .lseek 0 .seekSet), (2, .read 9)]

theorem letterRequests_opened : ∀ r ∈ letterRequests, r.1 ∈ (letterStore oRdwr 0).opened := by
  simp [letterRequests, letterStore]

theorem requests_refine_letter : ∃ replies t w,
    (inOrder answerAt letterRequests).run (letterStore oRdwr 0) = (.ok replies, t) ∧
    (inOrder execAt letterRequests).run (letterVolume oRdwr 0) = (.ok replies, w) ∧ Shown t w :=
  requests_refine ⟨letterLayout, letter_shows oRdwr 0⟩ letterRequests letterRequests_opened

example : ((inOrder answerAt letterRequests).run (letterStore oRdwr 0)).1 =
    .ok [.ok (.count 3), .ok (.count 4), .error .enxio, .ok (.count 0), .ok (.data [0x61, 0, 0, 0x62, 0x63])] := by
  decide

section Conservation

/-- The files of `F`, of which all open instances are, and the free clusters are together `n` clusters. -/
structure FileStore.Account (F : Finset ℕ) (n : ℕ) (s : FileStore) : Prop where
  total : ∑ f ∈ F, s.clusters f + s.free = n
  within : ∀ c ∈ s.opened, (s.handles c).file ∈ F
  positive : 0 < s.clusterBytes

namespace FileStore

variable {pos start : ℕ} {data new buffer : List UInt8} {cs : List ℕ}

theorem Account.hold (h : Account F n s) (hf : f ∈ F) (hk : k ≤ s.clusters f + s.free) : Account F n (s.hold f new k) := by
  refine ⟨?_, h.within, h.positive⟩
  have hsum := Finset.sum_update_of_mem hf s.clusters k
  have hrest := Finset.sum_eq_add_sum_sdiff_singleton_of_mem hf s.clusters
  have htotal := h.total
  change ∑ x ∈ F, Function.update s.clusters f k x + (s.free + s.clusters f - k) = n
  omega

theorem Account.seek (h : Account F n s) (c pos : ℕ) : Account F n (s.seek c pos) := by
  refine ⟨h.total, fun d hd => ?_, h.positive⟩
  rw [seek_file]
  exact h.within d hd

theorem put_account (hf : f ∈ F) (pos : ℕ) (data : List UInt8) :
    Triple (Account F n) (put f pos data) (fun _ => Account F n) fun _ => Account F n := by
  refine .bind_state fun s hs => .ite (fun _ => .pure fun _ h => h.2) fun _ => .ite (fun _ => .fail fun _ h => h.2) fun _ => ?_
  refine .ite (fun _ => .fail fun _ h => h.2) fun hroom => .bind (R := fun _ => Account F n) (.update ?_) fun _ => ?_
  · rintro t ⟨rfl, ht⟩
    refine ht.hold hf (Nat.max_le.mpr ⟨Nat.le_add_right _ _, ?_⟩)
    rw [need_le_iff t ht.positive]
    change _ ≤ t.room f
    omega
  · exact .pure fun _ h => h

theorem writeAt_account (hf : f ∈ F) (c : ℕ) (buffer : List UInt8) (start : ℕ) (j : Int) :
    Triple (Account F n) (writeAt c f buffer start j) (fun _ => Account F n) fun _ => Account F n := by
  refine .bind (put_account hf start buffer) fun res => .ite (fun _ => .pure fun _ h => h) fun _ => ?_
  exact .bind (R := fun _ => Account F n) (.update fun t ht => ht.seek _ _) fun _ => .pure fun _ h => h

theorem answer_account (c : ℕ) (r : FileRequest) : Triple (fun s => c ∈ s.opened ∧ Account F n s) (r.answer c)
    (fun _ => Account F n) fun _ => Account F n := by
  have hbind : ∀ {α : Type} {x : StoreM α} (f : α → FileReply),
      Triple (fun s => c ∈ s.opened ∧ Account F n s) x (fun _ => Account F n) (fun _ => Account F n) →
      Triple (fun s => c ∈ s.opened ∧ Account F n s) (x >>= fun a => pure (f a)) (fun _ => Account F n)
        fun _ => Account F n := fun f hx => .bind hx fun _ => .pure fun _ h => h
  cases r with
  | read n =>
    refine hbind _ (.bind_state fun s hs => .ite (fun _ => .fail fun _ h => h.2.2) fun _ => ?_)
    exact .bind (R := fun _ => Account F _) (.update fun t ht => ht.2.2.seek _ _) fun _ => .pure fun _ h => h
  | write buffer =>
    refine hbind _ (.bind_state fun s hs => .ite (fun _ => .fail fun _ h => h.2.2) fun _ => .ite (fun _ => .pure fun _ h => h.2.2)
      fun _ => ?_)
    have hf := hs.2.within c hs.1
    refine .bind (R := fun _ => Account F n) (.update fun t ht => ht.2.2.seek _ _) fun _ => .ite (fun _ => ?_)
      fun _ => writeAt_account hf _ _ _ _
    refine .bind (put_account hf _ _) fun _ => .bind_state fun t ht => .ite (fun _ => .pure fun _ h => h.2) fun _ => ?_
    exact (writeAt_account hf _ _ _ _).conseq (fun _ h => h.2) (fun _ _ h => h) fun _ _ h => h
  | lseek offset whence =>
    refine hbind _ (.bind_state fun s hs => .ite (fun _ => .fail fun _ h => h.2.2) fun _ => ?_)
    exact .bind (R := fun _ => Account F _) (.update fun t ht => ht.2.2.seek _ _) fun _ => .pure fun _ h => h
  | ftruncate length =>
    refine hbind _ (.bind_state fun s hs => .ite (fun _ => .fail fun _ h => h.2.2) fun _ =>
      .ite (fun _ => .fail fun _ h => h.2.2) fun _ => ?_)
    have hf := hs.2.within c hs.1
    refine .ite (fun _ => .ite (fun hcut => ?_) fun _ => .fail fun _ h => h.2.2) fun _ => .ite (fun _ => ?_)
      fun _ => .pure fun _ h => h.2.2
    · refine .bind (R := fun _ => Account F n) (.update ?_) fun _ => .pure fun _ h => h
      rintro t ⟨rfl, -, ht⟩
      exact ht.hold hf (by omega)
    · refine .bind ((put_account hf _ _).conseq (fun _ h => h.2.2) (fun _ _ h => h) fun _ _ h => h) fun _ => ?_
      exact .pure fun _ h => h
  | fsync datasync => exact hbind (x := pure ()) (fun _ => .done) (.pure fun _ h => h.2)

theorem answerAll_account (rs : List (ℕ × FileRequest)) (hrs : ∀ r ∈ rs, r.1 ∈ cs) :
    Triple (fun s => s.opened = cs ∧ Account F n s) (inOrder answerAt rs) (fun _ s => s.opened = cs ∧ Account F n s)
      fun _ _ => False := by
  apply Triple.inOrder
  intro r hr
  have hkeep : Keeps FileStore.opened (answerAt r) :=
    fun s => congrArg (fun x => x.2.1) (FileStore.answer_frame r.1 r.2 s)
  have hpost := Triple.frame hkeep (answer_account (F := F) (n := n) r.1 r.2) cs
  refine hpost.conseq (fun s hs => ⟨hs.1, ?_, hs.2⟩) (fun _ _ h => h) fun _ _ h => h
  rw [hs.1]
  exact hrs r hr

end FileStore

/-- The files of the store's open instances. -/
def FileStore.files (s : FileStore) : Finset ℕ := (s.opened.map fun c => (s.handles c).file).toFinset

theorem FileStore.mem_files : f ∈ s.files ↔ ∃ c ∈ s.opened, (s.handles c).file = f := by
  rw [FileStore.files, List.mem_toFinset, List.mem_map]

theorem files_of_frame (h : t.frame = s.frame) : t.files = s.files := by
  have hopened : t.opened = s.opened := congrArg (fun x => x.2.1) h
  have hfile : (fun c => (t.handles c).file) = fun c => (s.handles c).file := congrArg (fun x => x.2.2.1) h
  rw [FileStore.files, FileStore.files, hopened, hfile]

theorem Shows.total (h : Shows G s v) :
    ∑ f ∈ s.files, (G.chain ((books v).fileAddr f)).length + v.freeClusters = ∑ f ∈ s.files, s.clusters f + s.free := by
  rw [h.free]
  congr 1
  apply Finset.sum_congr rfl
  intro f hf
  obtain ⟨c, hc, rfl⟩ := FileStore.mem_files.mp hf
  exact h.clusters c hc

/-- Whatever is read, written, cut and extended, the clusters of the open files and the free clusters together stay as
many as they were, and each file fits in its own. -/
theorem requests_conserve (h : Shows G s v) (rs : List (ℕ × FileRequest)) (hrs : ∀ r ∈ rs, r.1 ∈ s.opened) :
    ∃ replies G' w, (inOrder execAt rs).run v = (.ok replies, w) ∧ WellFormed G' w ∧
      ∑ f ∈ s.files, (G'.chain ((books w).fileAddr f)).length + w.freeClusters =
        ∑ f ∈ s.files, (G.chain ((books v).fileAddr f)).length + v.freeClusters ∧
      ∀ f ∈ s.files, (w.files f).de.fileSize ≤ (G'.chain ((books w).fileAddr f)).length * w.geo.bytesPerCluster := by
  obtain ⟨replies, t, w, hanswer, hrun, G', hw⟩ := requests_refine ⟨G, h⟩ rs hrs
  have hframe : t.frame = s.frame := by
    have hkeep : Keeps FileStore.frame (inOrder answerAt rs) := .inOrder rs fun r _ => FileStore.answer_frame r.1 r.2
    have ht := hkeep s
    rwa [hanswer] at ht
  have hopened : t.opened = s.opened := congrArg (fun x => x.2.1) hframe
  have haccount : t.Account s.files (∑ f ∈ s.files, s.clusters f + s.free) := by
    have hstart : FileStore.Account s.files (∑ f ∈ s.files, s.clusters f + s.free) s := by
      refine ⟨rfl, fun c hc => FileStore.mem_files.mpr ⟨c, hc, rfl⟩, ?_⟩
      rw [← h.clusterBytes]
      exact bytesPerCluster_pos _
    have hall := FileStore.answerAll_account rs hrs s ⟨rfl, hstart⟩
    rw [hanswer] at hall
    exact hall.2
  refine ⟨replies, G', w, hrun, hw.wellFormed, ?_, fun f hf => ?_⟩
  · have htotal := hw.total
    rw [files_of_frame hframe] at htotal
    rw [htotal, haccount.total, h.total]
  · obtain ⟨c, hc, rfl⟩ := FileStore.mem_files.mp hf
    have hct : c ∈ t.opened := hopened ▸ hc
    have hfile : (t.handles c).file = (s.handles c).file := congrFun (congrArg (fun x => x.2.2.1) hframe) c
    have hfull := hw.wellFormed.full _ (hw.usable hct).file (hw.regular hct)
    rwa [hw.channelFile hct, hfile] at hfull

theorem requests_conserve_letter : ∃ replies G' w,
    (inOrder execAt letterRequests).run (letterVolume oRdwr 0) = (.ok replies, w) ∧ WellFormed G' w ∧
      ∑ f ∈ (letterStore oRdwr 0).files, (G'.chain ((books w).fileAddr f)).length + w.freeClusters =
        ∑ f ∈ (letterStore oRdwr 0).files, (letterLayout.chain ((books (letterVolume oRdwr 0)).fileAddr f)).length +
          (letterVolume oRdwr 0).freeClusters ∧
      ∀ f ∈ (letterStore oRdwr 0).files,
        (w.files f).de.fileSize ≤ (G'.chain ((books w).fileAddr f)).length * w.geo.bytesPerCluster :=
  requests_conserve (letter_shows oRdwr 0) letterRequests letterRequests_opened

end Conservation

section Appending

/-- The open instance stores at the end of the file `f` only. -/
structure Handle.Appends (h : Handle) (f : ℕ) : Prop where
  file : h.file = f
  writeable : h.isNotWriteable = false
  append : hasFlag h.flags oAppend = true

namespace FileStore

variable {buffer : List UInt8}

theorem spliced_end (old new : List UInt8) : spliced old old.length new = old ++ new := by
  rw [spliced_inside (Nat.le_refl _), List.take_length, List.drop_eq_nil_of_le (Nat.le_add_right _ _), List.append_nil]

theorem write_appends (hpos : 0 < s.clusterBytes) (h : (s.handles c).Appends f)
    (hfit : s.size f + buffer.length ≤ 0xFFFFFFFF) (hroom : s.size f + buffer.length ≤ s.room f)
    (hsmall : buffer.length < 2 ^ 31) :
    ∃ t, (write c buffer).run s = (.ok (buffer.length : Int), t) ∧ t.bytes f = s.bytes f ++ buffer ∧
      t.room f = s.room f := by
  have hno : ¬(s.handles c).isNotWriteable = true := by
    rw [h.writeable]
    decide
  rw [write, run_bind_state]
  dsimp only
  rw [if_neg hno]
  by_cases hnil : buffer = []
  · subst hnil
    exact ⟨s, rfl, by rw [List.append_nil], rfl⟩
  have hlen : 0 < buffer.length := List.length_pos_iff.mpr hnil
  rw [if_neg hnil, h.append, h.file, if_pos rfl, run_bind_update, if_neg (Nat.lt_irrefl _), writeAt]
  have hput : (put f (s.size f) buffer).run (s.seek c (s.size f)) = (.ok buffer.length,
      (s.seek c (s.size f)).hold f (s.bytes f ++ buffer) (max (s.clusters f) (s.need (s.size f + buffer.length)))) := by
    have hmin : min buffer.length (s.room f - s.size f) = buffer.length := by omega
    rw [put, run_bind_state, if_neg hnil, if_neg (by omega)]
    change (if s.room f ≤ s.size f then _ else _ : StoreM ℕ).run _ = _
    rw [if_neg (by omega), run_bind_update]
    change (Outcome.ok (min buffer.length (s.room f - s.size f)), (s.seek c (s.size f)).hold f
      (spliced (s.bytes f) (s.bytes f).length (buffer.take (min buffer.length (s.room f - s.size f))))
      (max (s.clusters f) (s.need (s.size f + min buffer.length (s.room f - s.size f))))) = _
    rw [hmin, List.take_length, spliced_end]
  rw [run_bind_ok hput, if_neg (by rw [ssize_of_lt hsmall]; omega), run_bind_update]
  rw [run_pure, Int.zero_add]
  refine ⟨_, rfl, ?_, ?_⟩
  · rw [seek_bytes]
    exact hold_bytes
  · have hneed : s.need (s.size f + buffer.length) ≤ s.clusters f + s.free := (need_le_iff s hpos).mpr hroom
    rw [room, room, seek_clusters, seek_clusterBytes, hold_clusters]
    congr 1
    change _ + (s.free + s.clusters f - _) = _
    omega

/-- The requests that append each buffer through the open instance before it. -/
def appending (bs : List (ℕ × List UInt8)) : List (ℕ × FileRequest) := bs.map fun b => (b.1, .write b.2)

theorem answerAll_appends (bs : List (ℕ × List UInt8)) (hpos : 0 < s.clusterBytes)
    (h : ∀ b ∈ bs, (s.handles b.1).Appends f ∧ b.2.length < 2 ^ 31)
    (hfit : s.size f + (bs.flatMap Prod.snd).length ≤ 0xFFFFFFFF)
    (hroom : s.size f + (bs.flatMap Prod.snd).length ≤ s.room f) :
    ∃ t, (inOrder answerAt (appending bs)).run s = (.ok (bs.map fun b => .ok (.count b.2.length)), t) ∧
      t.bytes f = s.bytes f ++ bs.flatMap Prod.snd := by
  induction bs generalizing s with
  | nil => exact ⟨s, rfl, (List.append_nil _).symm⟩
  | cons b bs ih =>
    obtain ⟨hb, hsmall⟩ := h b List.mem_cons_self
    rw [List.flatMap_cons, List.length_append] at hfit hroom
    obtain ⟨t, hrun, hbytes, hkeep⟩ := write_appends hpos hb (by omega) (by omega) hsmall
    have hframe := answer_frame b.1 (.write b.2) s
    have hanswer : (answerAt (b.1, .write b.2)).run s = (.ok (.count b.2.length), t) := run_bind_ok hrun
    change ((answerAt (b.1, .write b.2)).run s).2.frame = s.frame at hframe
    rw [hanswer] at hframe
    have hcb : t.clusterBytes = s.clusterBytes := congrArg Prod.fst hframe
    have hfile : ∀ d, (t.handles d).file = (s.handles d).file := congrFun (congrArg (fun x => x.2.2.1) hframe)
    have hflags : ∀ d, (t.handles d).flags = (s.handles d).flags := congrFun (congrArg (fun x => x.2.2.2) hframe)
    have hsize : t.size f = s.size f + b.2.length := by
      rw [size, hbytes, List.length_append]
      rfl
    obtain ⟨u, hrest, hu⟩ := ih (s := t) (by rw [hcb]; exact hpos) (fun d hd => by
      obtain ⟨⟨h1, h2, h3⟩, h4⟩ := h d (List.mem_cons_of_mem b hd)
      refine ⟨⟨(hfile _).trans h1, ?_, ?_⟩, h4⟩
      · rw [Handle.isNotWriteable, hflags]
        exact h2
      · rw [hflags]
        exact h3) (by rw [hsize]; omega) (by rw [hsize, hkeep]; omega)
    refine ⟨u, ?_, ?_⟩
    · change (inOrder answerAt ((b.1, .write b.2) :: appending bs)).run s = _
      rw [Prog.inOrder, run_bind_ok (run_attempt_ok hanswer), run_bind_ok hrest]
      rfl
    · rw [hu, hbytes, List.flatMap_cons, List.append_assoc]

end FileStore

/-- Buffers that are appended to a file through any of its open instances come to stand behind one another in the order
of the requests, as long as there is room for all. -/
theorem requests_append (h : Shows G s v) (bs : List (ℕ × List UInt8))
    (hbs : ∀ b ∈ bs, b.1 ∈ s.opened ∧ (s.handles b.1).Appends f ∧ b.2.length < 2 ^ 31)
    (hf : ∃ c ∈ s.opened, (s.handles c).file = f)
    (hfit : s.size f + (bs.flatMap Prod.snd).length ≤ 0xFFFFFFFF)
    (hroom : s.size f + (bs.flatMap Prod.snd).length ≤ s.room f) :
    ∃ G' w, (inOrder execAt (FileStore.appending bs)).run v = (.ok (bs.map fun b => .ok (.count b.2.length)), w) ∧
      WellFormed G' w ∧ contents G' w f = contents G v f ++ bs.flatMap Prod.snd := by
  obtain ⟨c, hc, rfl⟩ := hf
  have hpos : 0 < s.clusterBytes := by
    rw [← h.clusterBytes]
    exact bytesPerCluster_pos _
  obtain ⟨t, hanswer, hbytes⟩ := FileStore.answerAll_appends bs hpos (fun b hb => (hbs b hb).2) hfit hroom
  have hrs : ∀ r ∈ FileStore.appending bs, r.1 ∈ s.opened := by
    intro r hr
    obtain ⟨b, hb, rfl⟩ := List.mem_map.mp hr
    exact (hbs b hb).1
  obtain ⟨replies, t', w, hanswer', hrun, G', hw⟩ := requests_refine ⟨G, h⟩ _ hrs
  rw [hanswer] at hanswer'
  obtain ⟨hreplies, rfl⟩ := Prod.mk.inj hanswer'
  rw [← hreplies] at hrun
  have hframe : t.frame = s.frame := by
    have hkeep : Keeps FileStore.frame (inOrder answerAt (FileStore.appending bs)) := .inOrder _ fun r _ => FileStore.answer_frame r.1 r.2
    have ht := hkeep s
    rwa [hanswer] at ht
  have hct : c ∈ t.opened := by
    rw [show t.opened = s.opened from congrArg (fun x => x.2.1) hframe]
    exact hc
  have hfile : (t.handles c).file = (s.handles c).file := congrFun (congrArg (fun x => x.2.2.1) hframe) c
  have hholds := hw.bytes c hct
  rw [hfile, hbytes, ← h.bytes c hc] at hholds
  exact ⟨G', w, hrun, hw.wellFormed, hholds⟩

theorem requests_append_letter : ∃ G' w,
    (inOrder execAt (FileStore.appending [(2, [0x62]), (2, [0x63, 0x64])])).run (letterVolume (oRdwr ||| oAppend) 0) =
      (.ok [.ok (.count 1), .ok (.count 2)], w) ∧ WellFormed G' w ∧
      contents G' w 1 = contents letterLayout (letterVolume (oRdwr ||| oAppend) 0) 1 ++ [0x62, 0x63, 0x64] := by
  apply requests_append (letter_shows (oRdwr ||| oAppend) 0)
  · intro b hb
    have hone : b.1 = 2 ∧ b.2.length < 2 ^ 31 := by
      simp only [List.mem_cons, List.not_mem_nil, or_false] at hb
      rcases hb with rfl | rfl <;> decide
    refine ⟨List.mem_singleton.mpr hone.1, ⟨rfl, ?_, ?_⟩, hone.2⟩
    · change (⟨1, oRdwr ||| oAppend, 0⟩ : Handle).isNotWriteable = false
      decide
    · change hasFlag (oRdwr ||| oAppend) oAppend = true
      decide
  · exact ⟨2, List.mem_singleton.mpr rfl, rfl⟩
  · change 1 + 3 ≤ 0xFFFFFFFF
    decide
  · change 1 + 3 ≤ (1 + 5) * 512
    decide

end Appending

end FreeDos32.Fat
