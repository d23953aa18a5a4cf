import FreeDos32.Filesys.Drives

namespace FreeDos32.Filesys

namespace FsLayer

def InTable (k : ℤ) : Prop := 0 ≤ k ∧ k < driveMaxNum

instance (k : ℤ) : Decidable (InTable k) := inferInstanceAs (Decidable (_ ∧ _))

def devType (b : BlockDevice) : Option ℕ := b.info.map BlockDeviceInfo.type

/-- The letters go to different devices, all of them of the sort `P`, and no device is mounted. -/
structure Assigned (devices : List BlockDevice) (P : BlockDevice → Prop) (fs : FsLayer) : Prop where
  named : ∀ i n, InTable i → (fs.drives i).blkName = some n → ∃ b ∈ devices, b.name = n ∧ P b
  distinct : ∀ i j n, InTable i → InTable j → (fs.drives i).blkName = some n → (fs.drives j).blkName = some n → i = j
  unmounted : ∀ i, InTable i → (fs.drives i).req = none

variable {devices l pre : List BlockDevice} {P Q : BlockDevice → Prop} {fs fs' : FsLayer} {d : ℕ} {b : BlockDevice}

theorem Assigned.imp (h : fs.Assigned devices P) (hPQ : ∀ b, P b → Q b) : fs.Assigned devices Q where
  named i n hi hn := by
    obtain ⟨b, hb, hbn, hP⟩ := h.named i n hi hn
    exact ⟨b, hb, hbn, hPQ b hP⟩
  distinct := h.distinct
  unmounted := h.unmounted

theorem Assigned.assign (h : fs.Assigned devices P) (hb : b ∈ devices) (hP : P b) (k : ℤ)
    (hfree : ∀ i, InTable i → (fs.drives i).blkName ≠ some b.name) {flags default : ℕ} :
    { fs with drives := Function.update fs.drives k ⟨some b.name, none, 0, flags⟩, defaultDrive := default }.Assigned
      devices P := by
  have hself : Function.update fs.drives k ⟨some b.name, none, 0, flags⟩ k = ⟨some b.name, none, 0, flags⟩ :=
    Function.update_self ..
  have hother : ∀ i, i ≠ k → Function.update fs.drives k ⟨some b.name, none, 0, flags⟩ i = fs.drives i := fun i hi =>
    Function.update_of_ne hi ..
  constructor
  · intro i n hi hn
    dsimp only at hn
    by_cases hik : i = k
    · rw [hik, hself] at hn
      exact ⟨b, hb, Option.some.inj hn, hP⟩
    · rw [hother i hik] at hn
      exact h.named i n hi hn
  · intro i j n hi hj hin hjn
    dsimp only at hin hjn
    by_cases hik : i = k <;> by_cases hjk : j = k
    · rw [hik, hjk]
    · rw [hik, hself] at hin
      rw [hother j hjk] at hjn
      exact absurd (hjn.trans hin.symm) (hfree j hj)
    · rw [hother i hik] at hin
      rw [hjk, hself] at hjn
      exact absurd (hin.trans hjn.symm) (hfree i hi)
    · rw [hother i hik] at hin
      rw [hother j hjk] at hjn
      exact h.distinct i j n hi hj hin hjn
  · intro i hi
    dsimp only
    by_cases hik : i = k
    · rw [hik, hself]
    · rw [hother i hik]
      exact h.unmounted i hi

theorem Assigned.dynamicAssign {type : ℕ} {earlier : Option ℕ → Prop} (hnot : ¬earlier (some type))
    (hnd : (devices.map BlockDevice.name).Nodup) (hsplit : devices = pre ++ l)
    (h : fs.Assigned devices fun b => earlier (devType b) ∨ devType b = some type ∧ b ∈ pre) :
    (fs.dynamicAssign type l d).Assigned devices fun b => earlier (devType b) ∨ devType b = some type := by
  induction l generalizing pre fs d with
  | nil => exact h.imp fun b hb => hb.imp_right And.left
  | cons b l ih =>
    have hstep : devices = pre ++ [b] ++ l := by simp [hsplit]
    have hskip : fs.Assigned devices fun c => earlier (devType c) ∨ devType c = some type ∧ c ∈ pre ++ [b] :=
      h.imp fun c hc => hc.imp_right fun hc => ⟨hc.1, List.mem_append_left _ hc.2⟩
    unfold FsLayer.dynamicAssign
    split
    · exact ih hstep hskip
    · rename_i bdi hinfo
      split
      · exact ih hstep hskip
      split
      · exact ih hstep hskip
      split
      · exact ih hstep hskip
      rename_i htype _
      split
      · exact h.imp fun b hb => hb.imp_right And.left
      · rename_i d' _
        have hbt : devType b = some type := by rw [devType, hinfo, Option.map_some, not_not.mp htype]
        refine ih hstep (hskip.assign (b := b) (by simp [hsplit]) (.inr ⟨hbt, by simp⟩) d' fun i hi hn => ?_)
        obtain ⟨c, hc, hcn, hcP⟩ := h.named i _ hi hn
        rw [hsplit, List.map_append, List.map_cons] at hnd
        have hbpre : b.name ∉ pre.map BlockDevice.name ∧ b.name ∉ l.map BlockDevice.name := by
          have hcons := List.nodup_cons.mp (List.perm_middle.nodup_iff.mp hnd)
          rw [List.mem_append, not_or] at hcons
          exact hcons.1
        rcases hcP with hearly | ⟨-, hcpre⟩
        · rw [hsplit] at hc
          rcases List.mem_append.mp hc with hc | hc
          · exact hbpre.1 (hcn ▸ List.mem_map_of_mem hc)
          · rcases List.mem_cons.mp hc with rfl | hc
            · exact hnot (hbt ▸ hearly)
            · exact hbpre.2 (hcn ▸ List.mem_map_of_mem hc)
        · exact hbpre.1 (hcn ▸ List.mem_map_of_mem hcpre)

theorem dynamicAssign_mounts (type : ℕ) (l : List BlockDevice) (d : ℕ) (fs : FsLayer) :
    (fs.dynamicAssign type l d).mounts = fs.mounts := by
  induction l generalizing d fs with
  | nil => rfl
  | cons b l ih =>
    unfold dynamicAssign
    split
    · exact ih d fs
    · split
      · exact ih d fs
      split
      · exact ih d fs
      split
      · exact ih d fs
      split
      · rfl
      · exact ih _ _

theorem assignDriveLetters_spec (devices : BlockDevices) (fs : FsLayer) :
    (fs.assignDriveLetters devices).Assigned devices.list (fun _ => True) ∧
      (fs.assignDriveLetters devices).mounts = fs.mounts := by
  have hclear : fs.clearDrives.Assigned devices.list fun b => False ∨ devType b = some tActive ∧ b ∈ [] := by
    have hnone : ∀ i, InTable i → fs.clearDrives.drives i = ⟨none, none, 0, 0⟩ := fun i hi => if_pos hi
    constructor
    · intro i n hi hn
      rw [hnone i hi] at hn
      cases hn
    · intro i j n hi _ hn _
      rw [hnone i hi] at hn
      cases hn
    · intro i hi
      rw [hnone i hi]
  have next : ∀ (earlier : Option ℕ → Prop) (type type' d : ℕ) (fs : FsLayer), ¬earlier (some type) →
      fs.Assigned devices.list (fun b => earlier (devType b) ∨ devType b = some type ∧ b ∈ []) →
      (fs.dynamicAssign type devices.list d).Assigned devices.list fun b =>
        (earlier (devType b) ∨ devType b = some type) ∨ devType b = some type' ∧ b ∈ [] :=
    fun earlier type type' d fs hnot h => (h.dynamicAssign hnot devices.distinct rfl).imp fun b hb => .inl hb
  have hactive := next (fun _ => False) tActive tLogical 2 _ (by simp) hclear
  have hlogical := next (fun t => False ∨ t = some tActive) tLogical tPrimary 2 _ (by decide) hactive
  have hprimary := next (fun t => (False ∨ t = some tActive) ∨ t = some tLogical) tPrimary tFloppy 2 _ (by decide) hlogical
  have hfloppy := next (fun t => ((False ∨ t = some tActive) ∨ t = some tLogical) ∨ t = some tPrimary) tFloppy tCddvd 0 _
    (by decide) hprimary
  have hcd := next
    (fun t => (((False ∨ t = some tActive) ∨ t = some tLogical) ∨ t = some tPrimary) ∨ t = some tFloppy) tCddvd 0 3 _
    (by decide) hfloppy
  refine ⟨hcd.imp fun _ _ => trivial, ?_⟩
  unfold assignDriveLetters
  simp only [dynamicAssign_mounts, clearDrives]

end FsLayer

namespace Mounting

open FsLayer

/-- Whether the path names a drive of the table, or else what is in memory there has no device. -/
def NamesDrive (fileSpec : List Char) (fs : FsLayer) : Prop :=
  match fs.letterOf fileSpec with
  | .ok letter => InTable (letter - 'A'.toNat) ∨ (fs.drives (letter - 'A'.toNat)).blkName = none
  | .error _ => True

instance (fileSpec : List Char) (fs : FsLayer) : Decidable (NamesDrive fileSpec fs) := by
  unfold NamesDrive
  split <;> infer_instance

/-- A driver is registered while no drive is mounted or when there is no more room for one; a path names a drive unless
there is a default drive. -/
def Careful (m : Mounting) : Call → Prop
  | .addFs _ _ => m.fs.fsreq.length = numFSReq ∨ ∀ k ∈ List.range driveMaxNum, (m.fs.drives k).req = none
  | .getDrive _ fileSpec => NamesDrive fileSpec m.fs
  | .fsOpen auxName _ => NamesDrive auxName m.fs

instance (m : Mounting) (c : Call) : Decidable (m.Careful c) :=
  match c with
  | .addFs _ _ => inferInstanceAs (Decidable (_ ∨ _))
  | .getDrive _ fileSpec => inferInstanceAs (Decidable (NamesDrive fileSpec m.fs))
  | .fsOpen auxName _ => inferInstanceAs (Decidable (NamesDrive auxName m.fs))

def driveSpec (k : ℕ) : List Char := [Char.ofNat (k + 'A'.toNat), ':']

/-- No device is mounted twice, the letters go to different devices, and for each open file there is a letter with its
device that yields its volume. -/
structure Kept (m : Mounting) : Prop where
  once : (m.fs.mounts.map Prod.fst).Nodup
  letters : ∀ i j n, InTable i → InTable j → (m.fs.drives i).blkName = some n → (m.fs.drives j).blkName = some n → i = j
  held : ∀ f ∈ m.files, ∃ k < driveMaxNum, (m.fs.drives k).blkName = some f.1 ∧
    ∀ answer, ∃ req, m.fs.getDrive answer (driveSpec k) = (.ok (k + 'A'.toNat, req, f.2), m.fs)

structure Inv (fs : FsLayer) (files : List (String × ℕ)) : Prop where
  distinct : ∀ i j n, InTable i → InTable j → (fs.drives i).blkName = some n → (fs.drives j).blkName = some n → i = j
  once : (fs.mounts.map Prod.fst).Nodup
  mounted : ∀ f ∈ fs.mounts, ∃ k : ℕ, k < driveMaxNum ∧ (fs.drives k).blkName = some f.1 ∧
    (fs.drives k).req.isSome ∧ (fs.drives k).handle = f.2
  recorded : ∀ k n, InTable k → (fs.drives k).blkName = some n → (fs.drives k).req.isSome →
    (n, (fs.drives k).handle) ∈ fs.mounts
  files_mem : ∀ f ∈ files, f ∈ fs.mounts

variable {fs : FsLayer} {files : List (String × ℕ)} {m m' : Mounting} {fileSpec : List Char} {answer : ℕ → Except ℕ ℕ}

theorem letterOf_driveSpec (fs : FsLayer) {k : ℕ} (hk : k < driveMaxNum) :
    fs.letterOf (driveSpec k) = .ok (k + 'A'.toNat) := by
  have hall : ∀ k : Fin driveMaxNum, (Char.ofNat (k + 'A'.toNat) ≠ ':' ∧
      ¬(toupper (Char.ofNat (k + 'A'.toNat)) < 'A'.toNat ∨ 'Z'.toNat < toupper (Char.ofNat (k + 'A'.toNat)))) ∧
      toupper (Char.ofNat (k + 'A'.toNat)) = k + 'A'.toNat := by decide
  obtain ⟨⟨hc, hrange⟩, hup⟩ := hall ⟨k, hk⟩
  unfold letterOf driveSpec
  split
  · rename_i heq
    exact absurd (List.cons.inj heq).1 hc
  · rename_i heq
    rw [← (List.cons.inj heq).1, if_neg hrange, hup]
  · rename_i hnot
    exact absurd rfl (hnot _ [])

theorem getDrive_mounted {letter req : ℕ} {name : String} (answer : ℕ → Except ℕ ℕ) (hl : fs.letterOf fileSpec = .ok letter)
    (hn : (fs.drives (letter - 'A'.toNat)).blkName = some name) (hr : (fs.drives (letter - 'A'.toNat)).req = some req) :
    fs.getDrive answer fileSpec = (.ok (letter, req, (fs.drives (letter - 'A'.toNat)).handle), fs) := by
  unfold getDrive
  rw [hl]
  simp only [hn, hr]

theorem Inv.kept (h : Inv m.fs m.files) : m.Kept where
  once := h.once
  letters := h.distinct
  held f hf := by
    obtain ⟨k, hk, hn, hr, hh⟩ := h.mounted f (h.files_mem f hf)
    obtain ⟨req, hreq⟩ := Option.isSome_iff_exists.mp hr
    refine ⟨k, hk, hn, fun answer => ⟨req, ?_⟩⟩
    have hk' : ((k + 'A'.toNat : ℕ) : ℤ) - ('A'.toNat : ℤ) = k := by omega
    have hget := getDrive_mounted answer (letterOf_driveSpec m.fs hk) (hk'.symm ▸ hn) (hk'.symm ▸ hreq)
    rw [hk', hh] at hget
    exact hget

structure Got (fs fs' : FsLayer) (files : List (String × ℕ)) (res : Except ℕ (ℕ × ℕ × ℕ)) : Prop where
  inv : Inv fs' files
  names : ∀ k, (fs'.drives k).blkName = (fs.drives k).blkName
  default : fs'.defaultDrive = fs.defaultDrive
  volume : ∀ letter req vol, res = .ok (letter, req, vol) →
    ∃ n, (fs'.drives (letter - 'A'.toNat)).blkName = some n ∧ (n, vol) ∈ fs'.mounts

theorem Inv.same (h : Inv fs files) {e : ℕ} : Got fs fs files (.error e) where
  inv := h
  names _ := rfl
  default := rfl
  volume _ _ _ hr := nomatch hr

theorem Inv.mount (h : Inv fs files) {k : ℕ} {name : String} (hk : k < driveMaxNum) (hn : (fs.drives k).blkName = some name)
    (hr : (fs.drives k).req = none) (req fsDev : ℕ) :
    Inv { fs with
      drives := Function.update fs.drives k { fs.drives k with req := some req, handle := fsDev }
      mounts := (name, fsDev) :: fs.mounts } files := by
  have hself : Function.update fs.drives k { fs.drives k with req := some req, handle := fsDev } k =
      { fs.drives k with req := some req, handle := fsDev } := Function.update_self ..
  have hother : ∀ i, i ≠ (k : ℤ) →
      Function.update fs.drives k { fs.drives k with req := some req, handle := fsDev } i = fs.drives i := fun i hi =>
    Function.update_of_ne hi ..
  have hname : ∀ i, (Function.update fs.drives k { fs.drives k with req := some req, handle := fsDev } i).blkName =
      (fs.drives i).blkName := by
    intro i
    by_cases hi : i = k
    · rw [hi, hself]
    · rw [hother i hi]
  have hkt : InTable k := ⟨Int.natCast_nonneg k, Int.ofNat_lt.mpr hk⟩
  constructor
  · intro i j n hi hj hin hjn
    exact h.distinct i j n hi hj ((hname i).symm.trans hin) ((hname j).symm.trans hjn)
  · refine List.nodup_cons.mpr ⟨fun hm => ?_, h.once⟩
    obtain ⟨f, hf, rfl⟩ := List.mem_map.mp hm
    obtain ⟨j, hj, hjn, hjr, -⟩ := h.mounted f hf
    have hjk := h.distinct j k f.1 ⟨Int.natCast_nonneg j, Int.ofNat_lt.mpr hj⟩ hkt hjn hn
    rw [hjk, hr] at hjr
    cases hjr
  · intro f hf
    rcases List.mem_cons.mp hf with rfl | hf
    · refine ⟨k, hk, ?_⟩
      dsimp only
      rw [hself]
      exact ⟨hn, rfl, rfl⟩
    · obtain ⟨j, hj, hjn, hjr, hjh⟩ := h.mounted f hf
      have hjk : (j : ℤ) ≠ k := fun he => by
        rw [he, hr] at hjr
        cases hjr
      refine ⟨j, hj, ?_⟩
      dsimp only
      rw [hother j hjk]
      exact ⟨hjn, hjr, hjh⟩
  · intro i n hi hin hir
    dsimp only at hin hir ⊢
    by_cases hik : i = k
    · rw [hik, hself] at hin ⊢
      obtain rfl : name = n := Option.some.inj (hn.symm.trans hin)
      exact List.mem_cons_self
    · rw [hother i hik] at hin hir ⊢
      exact List.mem_cons_of_mem _ (h.recorded i n hi hin hir)
  · exact fun f hf => List.mem_cons_of_mem _ (h.files_mem f hf)

theorem Inv.getDrive (h : Inv fs files) (answer : ℕ → Except ℕ ℕ) (hspec : NamesDrive fileSpec fs) :
    Got fs (fs.getDrive answer fileSpec).2 files (fs.getDrive answer fileSpec).1 := by
  unfold NamesDrive at hspec
  unfold FsLayer.getDrive
  cases hl : fs.letterOf fileSpec with
  | error e => exact h.same
  | ok letter =>
    rw [hl] at hspec
    dsimp only at hspec ⊢
    cases hn : (fs.drives (letter - 'A'.toNat)).blkName with
    | none => exact h.same
    | some name =>
      have htable : InTable (letter - 'A'.toNat) := hspec.resolve_right fun hc => by rw [hn] at hc; cases hc
      obtain ⟨k, hk⟩ := Int.eq_ofNat_of_zero_le htable.1
      have hklt : k < driveMaxNum := by
        have := htable.2
        omega
      dsimp only
      cases hr : (fs.drives (letter - 'A'.toNat)).req with
      | some req =>
        refine ⟨h, fun _ => rfl, rfl, fun l r v hres => ?_⟩
        simp only [Except.ok.injEq, Prod.mk.injEq] at hres
        obtain ⟨rfl, rfl, rfl⟩ := hres
        exact ⟨name, hn, h.recorded _ name htable hn (by rw [hr]; rfl)⟩
      | none =>
        dsimp only
        cases mountLoop answer fs.fsreq 0 with
        | error e => exact h.same
        | ok r =>
          obtain ⟨req, fsDev⟩ := r
          dsimp only
          rw [hk] at hn hr ⊢
          have hmount := h.mount hklt hn hr req fsDev
          dsimp only at hmount
          rw [hn] at hmount
          refine ⟨hmount, fun i => ?_, rfl, fun l r v hres => ?_⟩
          · dsimp only
            by_cases hi : i = k
            · rw [hi, Function.update_self, hn]
            · rw [Function.update_of_ne hi]
          · simp only [Except.ok.injEq, Prod.mk.injEq] at hres
            obtain ⟨rfl, rfl, rfl⟩ := hres
            refine ⟨name, ?_, List.mem_cons_self⟩
            dsimp only
            rw [hk, Function.update_self]

theorem Got.namesDrive {fs' : FsLayer} {res : Except ℕ (ℕ × ℕ × ℕ)} (h : Got fs fs' files res)
    (hspec : NamesDrive fileSpec fs) : NamesDrive fileSpec fs' := by
  have hl : fs'.letterOf fileSpec = fs.letterOf fileSpec := by
    unfold letterOf
    rw [h.default]
  unfold NamesDrive at *
  rw [hl]
  cases hl' : fs.letterOf fileSpec with
  | error e => trivial
  | ok letter =>
    rw [hl'] at hspec
    dsimp only at *
    rw [h.names]
    exact hspec

theorem Inv.open_ (h : Inv fs files) {f : String × ℕ} (hf : f ∈ fs.mounts) : Inv fs (f :: files) where
  distinct := h.distinct
  once := h.once
  mounted := h.mounted
  recorded := h.recorded
  files_mem g hg := by
    rcases List.mem_cons.mp hg with rfl | hg
    · exact hf
    · exact h.files_mem g hg

theorem Inv.fsOpen {rounds : List ((ℕ → Except ℕ ℕ) × Except ℕ Unit)} (h : Inv m.fs m.files)
    (hspec : NamesDrive fileSpec m.fs) : Inv (m.fsOpen fileSpec rounds).fs (m.fsOpen fileSpec rounds).files := by
  induction rounds generalizing m with
  | nil => exact h
  | cons round rounds ih =>
    obtain ⟨answer, opened⟩ := round
    have hgot := h.getDrive answer hspec
    unfold Mounting.fsOpen
    rcases hres : m.fs.getDrive answer fileSpec with ⟨res, fs'⟩
    rw [hres] at hgot
    cases res with
    | error e => exact hgot.inv
    | ok r =>
      obtain ⟨letter, req, vol⟩ := r
      dsimp only at *
      cases opened with
      | ok =>
        obtain ⟨n, hn, hmem⟩ := hgot.volume letter req vol rfl
        dsimp only
        rw [hn]
        exact hgot.inv.open_ hmem
      | error e =>
        dsimp only
        split
        · exact ih hgot.inv (hgot.namesDrive hspec)
        · exact hgot.inv

theorem Inv.addFs (h : Inv fs files) {devices : BlockDevices} {f : FsDriver}
    (hc : fs.fsreq.length = numFSReq ∨ ∀ k ∈ List.range driveMaxNum, (fs.drives k).req = none) :
    Inv (fs.addFs devices f).2 files := by
  unfold FsLayer.addFs
  split
  · rename_i hlen
    have hnone := hc.resolve_left (Nat.ne_of_lt hlen)
    have hempty : fs.mounts = [] := by
      refine List.eq_nil_iff_forall_not_mem.mpr fun g hg => ?_
      obtain ⟨k, hk, -, hr, -⟩ := h.mounted g hg
      rw [hnone k (List.mem_range.mpr hk)] at hr
      cases hr
    obtain ⟨hassigned, hmounts⟩ := assignDriveLetters_spec devices { fs with fsreq := fs.fsreq ++ [f] }
    replace hmounts := hmounts.trans hempty
    refine ⟨hassigned.distinct, ?_, ?_, ?_, ?_⟩
    · rw [hmounts]
      exact List.nodup_nil
    · rw [hmounts]
      exact fun g hg => by cases hg
    · intro k n hk _ hr
      rw [hassigned.unmounted k hk] at hr
      cases hr
    · intro g hg
      have := h.files_mem g hg
      rw [hempty] at this
      cases this
  · exact h

theorem Inv.start (outside : ℤ → Drive) (bootDevice : ℕ) :
    Inv (start outside bootDevice).fs (start outside bootDevice).files := by
  have hnone : ∀ i, InTable i → (Mounting.start outside bootDevice).fs.drives i = ⟨none, none, 0, 0⟩ := fun i hi => if_pos hi
  constructor
  · intro i j n hi _ hn _
    rw [hnone i hi] at hn
    cases hn
  · exact List.nodup_nil
  · exact fun f hf => by cases hf
  · intro i n hi hn _
    rw [hnone i hi] at hn
    cases hn
  · exact fun f hf => by cases hf

theorem step_inv (h : Inv m.fs m.files) {c : Call} (hc : m.Careful c) (hs : step c m = some m') : Inv m'.fs m'.files := by
  cases c with
  | addFs devices f =>
    cases hs
    exact h.addFs hc
  | getDrive answer fileSpec =>
    cases hs
    exact (h.getDrive _ hc).inv
  | fsOpen auxName rounds =>
    cases hs
    exact h.fsOpen hc

abbrev Run (outside : ℤ → Drive) (bootDevice : ℕ) (ok : Mounting → Call → Prop) : Mounting → Prop :=
  Reach step ok (start outside bootDevice)

theorem run_mounts_once {outside : ℤ → Drive} {bootDevice : ℕ} (h : Run outside bootDevice Careful m) : m.Kept :=
  (Reach.invariant (fun m => Inv m.fs m.files) (Inv.start outside bootDevice)
    (fun _ _ _ hi hc hs => step_inv hi hc hs) h).kept

def twoDevices : BlockDevices := ⟨[⟨"fd0", 1, some ⟨4 * 2 ^ 8, 0⟩⟩, ⟨"hda1", 2, some ⟨2 ^ 8 + 6, 0x80⟩⟩], by decide⟩

def fatDriver : FsDriver := ⟨1, fun partId => partId = 6⟩

def isoDriver : FsDriver := ⟨2, fun _ => false⟩

def noMemory : ℤ → Drive := fun _ => ⟨none, none, 0, 0⟩

def registeredFirst : List Call :=
  [.addFs twoDevices fatDriver, .addFs twoDevices isoDriver, .fsOpen ['C', ':', 'X'] [(fun _ => .ok 7, .ok ())],
    .getDrive (fun _ => .error enodev) ['A', ':'], .getDrive (fun _ => .ok 8) ['a', ':', 'Y'],
    .getDrive (fun _ => .ok 9) ['X']]

theorem run_mounts_once_registered : ∃ m, runSteps step Careful registeredFirst (start noMemory nulBootDev) = some m ∧
    m.fs.mounts = [("fd0", 8), ("hda1", 7)] ∧ m.files = [("hda1", 7)] ∧ m.Kept := by
  have hmap : (runSteps step Careful registeredFirst (start noMemory nulBootDev)).map
      (fun m => (m.fs.mounts, m.files)) = some ([("fd0", 8), ("hda1", 7)], [("hda1", 7)]) := by decide +kernel
  obtain ⟨m, hm, hres⟩ := Option.map_eq_some_iff.mp hmap
  obtain ⟨hmounts, hfiles⟩ := Prod.mk.inj hres
  exact ⟨m, hm, hmounts, hfiles, run_mounts_once (runSteps_reach _ _ hm)⟩

def registeredLater : List Call :=
  [.addFs twoDevices fatDriver, .fsOpen ['C', ':', 'X'] [(fun _ => .ok 7, .ok ())], .addFs twoDevices isoDriver,
    .getDrive (fun _ => .ok 8) ['C', ':']]

/-- The partition is mounted again, and its letter yields another volume than the one of the open file. -/
theorem mounted_twice : ∃ m, Run noMemory nulBootDev (fun _ _ => True) m ∧
    runSteps step (fun _ _ => True) registeredLater (start noMemory nulBootDev) = some m ∧
    m.fs.mounts = [("hda1", 8), ("hda1", 7)] ∧ m.files = [("hda1", 7)] ∧
    (m.fs.drives 2).blkName = some "hda1" ∧ (m.fs.drives 2).handle = 8 := by
  have hmap : (runSteps step (fun _ _ => True) registeredLater (start noMemory nulBootDev)).map
      (fun m => (m.fs.mounts, m.files, (m.fs.drives 2).blkName, (m.fs.drives 2).handle)) =
        some ([("hda1", 8), ("hda1", 7)], [("hda1", 7)], some "hda1", 8) := by decide +kernel
  obtain ⟨m, hm, hres⟩ := Option.map_eq_some_iff.mp hmap
  simp only [Prod.mk.injEq] at hres
  exact ⟨m, runSteps_reach _ _ hm, hm, hres⟩

end Mounting

end FreeDos32.Filesys
