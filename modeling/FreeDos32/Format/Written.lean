import FreeDos32.Format.Createfs
import FreeDos32.Library.Wp
import Mathlib.Data.List.GetD

namespace FreeDos32.Format

open Prog Fat

/-- The two states differ in the sectors and the buffers at most. -/
structure Same (d e : Drive) : Prop where
  bpb : e.bpb = d.bpb
  xbpb : e.xbpb = d.xbpb
  param : e.param = d.param
  clock : e.clock = d.clock
  bootCode : e.bootCode = d.bootCode
  fileSysInfo : e.fileSysInfo = d.fileSysInfo

variable {d e f : Drive} {s n k start last sector size : ℕ}

theorem Same.refl (d : Drive) : Same d d := ⟨rfl, rfl, rfl, rfl, rfl, rfl⟩

theorem Same.trans (h : Same d e) (h' : Same e f) : Same d f :=
  ⟨h'.bpb.trans h.bpb, h'.xbpb.trans h.xbpb, h'.param.trans h.param, h'.clock.trans h.clock,
    h'.bootCode.trans h.bootCode, h'.fileSysInfo.trans h.fileSysInfo⟩

theorem Same.useBackups (h : Same d e) : useBackups e = useBackups d := by
  rw [Format.useBackups, Format.useBackups, h.bpb, h.xbpb]

theorem Same.infoActive (h : Same d e) : infoActive e = infoActive d := by
  rw [Format.infoActive, Format.infoActive, h.useBackups, h.bpb, h.xbpb]

theorem Same.spared (h : Same d e) : spared e = spared d := by
  funext index
  rw [Format.spared, Format.spared, h.bpb, h.xbpb, h.param]

theorem Same.rootClusters (h : Same d e) : rootClusters e = rootClusters d := by
  rw [Format.rootClusters, Format.rootClusters, h.bpb, h.fileSysInfo]

def blankSector : SectorData := fun _ => 0

/-- One sector of the drive gets the contents of the buffer. -/
def Drive.store (d : Drive) (sector : ℕ) : Drive := { d with sectors := Function.update d.sectors sector d.sectorBuffer }

theorem driveIo_one (sector : ℕ) (d : Drive) : (driveIo sector 1).run d = (.ok (), d.store sector) := by
  rw [driveIo, run_update, Drive.store]
  congr 2
  funext s
  by_cases hs : s = sector
  · subst hs
    simp
  · rw [if_neg (by omega), Function.update_of_ne hs]

theorem store_same (d : Drive) (sector : ℕ) : Same d (d.store sector) := ⟨rfl, rfl, rfl, rfl, rfl, rfl⟩

@[simp] theorem ends_driveIo_one {Q : Unit → Drive → Prop} {E : Abort → Drive → Prop} :
    Ends (driveIo sector 1) d Q E ↔ Q () (d.store sector) := ends_iff_of_run (driveIo_one sector d)

@[simp] theorem store_sectorBuffer (d : Drive) (sector : ℕ) : (d.store sector).sectorBuffer = d.sectorBuffer := rfl

@[simp] theorem store_sectors (d : Drive) (sector : ℕ) :
    (d.store sector).sectors = Function.update d.sectors sector d.sectorBuffer := rfl

theorem store_self (d : Drive) (sector : ℕ) : (d.store sector).sectors sector = d.sectorBuffer := by
  rw [store_sectors, Function.update_self]

theorem store_of_ne (h : s ≠ sector) (d : Drive) : (d.store sector).sectors s = d.sectors s := by
  rw [store_sectors, Function.update_of_ne h]

section Fats

/-- The sectors from `start` to `last` are blank. -/
theorem clearFatLoop_ends {fuel : ℕ} (hbuffer : d.sectorBuffer = blankSector) (hhuge : d.hugeSectorBuffer = fun _ => blankSector)
    (hstart : start ≤ sector) (hsector : sector ≤ last) (hlast : last + 21 < 2 ^ 32) (hne : start < last)
    (hfuel : last < sector + fuel) :
    Ends (clearFatLoop start last sector fuel) d (fun _ e => Same d e ∧ e.sectorBuffer = blankSector ∧
      e.sectors = fun s => if sector ≤ s ∧ s ≤ last then blankSector else d.sectors s) fun _ _ => False := by
  induction fuel generalizing sector d with
  | zero => omega
  | succ fuel ih =>
    have hmod : (sector + 21) % 2 ^ 32 = sector + 21 := by omega
    have hdivisor : ¬(last + (2 ^ 32 - start)) % 2 ^ 32 = 0 := by omega
    rw [clearFatLoop, if_neg hdivisor, hmod]
    generalize hcount : (if sector + 21 < last then 21 else 1) = count
    have hcount' : 1 ≤ count ∧ count ≤ 21 ∧ sector + count ≤ last + 1 := by
      rw [← hcount]
      split <;> omega
    have hnext : (sector + count) % 2 ^ 32 = sector + count := by omega
    rw [ends_bind, driveIo, ends_update, hnext, ends_ite]
    generalize he : ({ d with sectors := _ } : Drive) = e
    have hsectors : e.sectors = fun s => if sector ≤ s ∧ s < sector + count then blankSector else d.sectors s := by
      rw [← he]
      funext s
      rw [hbuffer, hhuge]
      simp
    have hsame : Same d e := by
      rw [← he]
      exact ⟨rfl, rfl, rfl, rfl, rfl, rfl⟩
    have hblank : e.sectorBuffer = blankSector ∧ e.hugeSectorBuffer = fun _ => blankSector := by
      rw [← he]
      exact ⟨hbuffer, hhuge⟩
    constructor
    · intro hmore
      refine (ih hblank.1 hblank.2 (by omega) hmore (by omega)).mono ?_ fun _ _ h => h
      rintro - e' ⟨hsame', hbuffer', hsectors'⟩
      refine ⟨hsame.trans hsame', hbuffer', ?_⟩
      rw [hsectors', hsectors]
      funext s
      simp only
      split_ifs <;> first | rfl | omega
    · intro hdone
      refine ⟨hsame, hblank.1, ?_⟩
      rw [hsectors]
      funext s
      split_ifs <;> first | rfl | omega

theorem overlay_append (o : ℕ) (xs ys : List UInt8) (b : SectorData) :
    overlay (o + xs.length) ys (overlay o xs b) = overlay o (xs ++ ys) b := by
  funext i
  simp only [overlay, List.length_append]
  by_cases hi : i < o + xs.length
  · rw [if_neg (by omega)]
    by_cases ho : o ≤ i
    · rw [if_pos ⟨ho, hi⟩, if_pos (by omega), List.getD_append _ _ _ _ (by omega)]
    · rw [if_neg (by omega), if_neg (by omega)]
  · by_cases hin : i < o + xs.length + ys.length
    · rw [if_pos (by omega), if_pos (by omega), List.getD_append_right _ _ _ _ (by omega), Nat.sub_add_eq]
    · rw [if_neg (by omega), if_neg (by omega), if_neg (by omega)]

/-- The entries of `n` clusters from `cnum` on, each linked to the next one. -/
def chainBytes : ℕ → ℕ → List UInt8
  | 0, _ => []
  | n + 1, cnum => (if n = 0 then [0xFF, 0xFF, 0xFF, 0x0F] else [UInt8.ofNat (cnum + 1), 0, 0, 0]) ++ chainBytes n (cnum + 1)

/-- What a FAT starts with. -/
def fatMarks (d : Drive) : List UInt8 :=
  [d.bpb.mediaDescriptor, 0xFF, 0xFF] ++ match d.param.fatType with
    | .fat12 => []
    | .fat16 => [0xFF]
    | .fat32 => [0x0F, 0xFF, 0xFF, 0xFF, 0x0F] ++ chainBytes (rootClusters d) 2

def Drive.fill (d : Drive) (bytes : List UInt8) : Drive := { d with sectorBuffer := overlay 0 bytes blankSector }

theorem fill_same (d : Drive) (bytes : List UInt8) : Same d (d.fill bytes) := ⟨rfl, rfl, rfl, rfl, rfl, rfl⟩

theorem fill_put {o : ℕ} {xs : List UInt8} (ho : xs.length = o) (ys : List UInt8) (d : Drive) :
    (dosmemput ys o).run (d.fill xs) = (.ok (), d.fill (xs ++ ys)) := by
  rw [dosmemput, run_update]
  congr 1
  rw [Drive.fill, Drive.fill, ← overlay_append, Nat.zero_add, ho]

theorem rootChainLoop_run {sbp : ℕ} (xs : List UInt8) (cnum : ℕ) (hsbp : xs.length = sbp) (h : sbp + 4 * n ≤ 512) :
    (rootChainLoop n sbp cnum).run (d.fill xs) = (.ok (), d.fill (xs ++ chainBytes n cnum)) := by
  induction n generalizing xs sbp cnum with
  | zero => rw [chainBytes, List.append_nil]; rfl
  | succ n ih =>
    rw [rootChainLoop, if_pos (by omega), chainBytes, ← List.append_assoc]
    by_cases hn : n = 0
    · subst hn
      rw [if_pos rfl, run_bind_ok (fill_put hsbp _ d), if_pos rfl, chainBytes, List.append_nil]
      rfl
    · have hlen : (xs ++ [UInt8.ofNat (cnum + 1)]).length = sbp + 1 := by simp [hsbp]
      have hput := fill_put hlen [0, 0, 0] d
      rw [if_neg hn, run_bind_ok (fill_put hsbp _ d), run_bind_ok hput, if_neg hn, List.append_assoc]
      exact ih (xs ++ [UInt8.ofNat (cnum + 1), 0, 0, 0]) (cnum + 1) (by simp [hsbp]) (by omega)

theorem fill_empty (d : Drive) : d.fill [] = { d with sectorBuffer := blankSector } := by
  have hnil : overlay 0 [] blankSector = blankSector := by
    funext i
    exact if_neg (by simp)
  rw [Drive.fill, hnil]

theorem fill_nil (h : d.sectorBuffer = blankSector) : d.fill [] = d := by rw [fill_empty, ← h]

theorem putFatMarks_run (h : d.sectorBuffer = blankSector) (hchain : d.param.fatType = .fat32 → rootClusters d ≤ 126) :
    putFatMarks.run d = (.ok (), d.fill (fatMarks d)) := by
  have hfirst : (dosmemput [d.bpb.mediaDescriptor] 0).run (d.fill []) = (.ok (), d.fill [d.bpb.mediaDescriptor]) :=
    fill_put rfl _ d
  rw [fill_nil h] at hfirst
  have hlen : ([d.bpb.mediaDescriptor] ++ [0xFF, 0xFF]).length = 3 := rfl
  have hsecond : (dosmemput [0xFF, 0xFF] 1).run (d.fill [d.bpb.mediaDescriptor]) =
      (.ok (), d.fill ([d.bpb.mediaDescriptor] ++ [0xFF, 0xFF])) := fill_put rfl _ d
  rw [putFatMarks, run_bind_state, run_bind_ok hfirst, run_bind_ok hsecond, fatMarks]
  cases ht : d.param.fatType with
  | fat12 => rfl
  | fat16 =>
    rw [when_pos rfl, run_bind_ok (fill_put hlen [0xFF] d)]
    rfl
  | fat32 =>
    rw [when_neg (by decide), run_bind_pure, when_pos rfl,
      run_bind_ok (fill_put hlen [0x0F, 0xFF, 0xFF, 0xFF, 0x0F] d)]
    have hclusters := hchain ht
    exact rootChainLoop_run _ 2 rfl (by omega)

/-- The sectors of the FATs. -/
def fatSector (d : Drive) (start size : ℕ) (s : ℕ) : SectorData :=
  if s = start ∨ d.bpb.numberOfFats = 2 ∧ s = start + size then overlay 0 (fatMarks d) blankSector else blankSector

theorem writeFatTables_run {loopBound : ℕ} (hfats : d.bpb.numberOfFats = 1 ∨ d.bpb.numberOfFats = 2)
    (hstart : d.fileSysInfo.startFatSector = start) (hsize : d.fileSysInfo.numberFatSectors = size)
    (hmore : 1 < size * d.bpb.numberOfFats.toNat) (hend : start + size * d.bpb.numberOfFats.toNat + 20 < 2 ^ 32)
    (hchain : d.param.fatType = .fat32 → rootClusters d ≤ 126) (hloop : size * d.bpb.numberOfFats.toNat < loopBound) :
    ∃ e, (writeFatTables loopBound).run d = (.ok (), e) ∧ Same d e ∧ e.sectors = fun s =>
      if start ≤ s ∧ s < start + size * d.bpb.numberOfFats.toNat then fatSector d start size s else d.sectors s := by
  generalize hcount : size * d.bpb.numberOfFats.toNat = count at *
  have hlast : (count + start + (2 ^ 32 - 1)) % 2 ^ 32 = start + count - 1 := by omega
  have hok : ¬(d.bpb.numberOfFats ≠ 1 ∧ d.bpb.numberOfFats ≠ 2) := fun h => hfats.elim h.1 h.2
  generalize hcleared : ({ d with sectorBuffer := blankSector, hugeSectorBuffer := fun _ => blankSector } : Drive) = c
  have hblank : c.sectorBuffer = blankSector ∧ c.hugeSectorBuffer = fun _ => blankSector := by
    rw [← hcleared]
    exact ⟨rfl, rfl⟩
  have hsame : Same d c := by
    rw [← hcleared]
    exact ⟨rfl, rfl, rfl, rfl, rfl, rfl⟩
  have hclear : Ends (clearFatLoop start (start + count - 1) start loopBound) c (fun _ e => Same c e ∧
      e.sectorBuffer = blankSector ∧ e.sectors = fun s => if start ≤ s ∧ s ≤ start + count - 1 then blankSector else c.sectors s)
      fun _ _ => False :=
    clearFatLoop_ends hblank.1 hblank.2 (Nat.le_refl start) (by omega) (by omega) (by omega) (by omega)
  obtain ⟨_, e, hrun, hsame', hblank', hsectors⟩ := hclear.exists_run
  have hall := hsame.trans hsame'
  have hmarks := putFatMarks_run hblank' (by rw [hall.param, hall.rootClusters]; exact hchain)
  have hbytes : fatMarks e = fatMarks d := by rw [fatMarks, fatMarks, hall.bpb, hall.param, hall.rootClusters]
  rw [hbytes] at hmarks
  have hbefore : c.sectors = d.sectors := by rw [← hcleared]
  have hclear : (clearSectorBuffer >>= fun _ => clearHugeSectorBuffer).run d = (.ok (), c) := by
    rw [← hcleared]
    rfl
  have hlength : start + size < 2 ^ 32 := by
    rcases hfats with h | h <;> rw [h] at hcount
    · change size * 1 = count at hcount
      omega
    · change size * 2 = count at hcount
      omega
  have hbody : (writeFatTables loopBound).run d = (Prog.when (d.bpb.numberOfFats = 2)
      (driveIo (start + size) 1)).run ((e.fill (fatMarks d)).store start) := by
    have hstate : (writeFatTables loopBound).run d = (do
        clearFatLoop start (start + count - 1) start loopBound
        putFatMarks
        driveIo start 1
        Prog.when (d.bpb.numberOfFats = 2) (driveIo (start + size) 1) : FormatM Unit).run c := by
      rw [writeFatTables]
      rw [show ∀ f : Unit → FormatM Unit, (clearSectorBuffer >>= fun _ => clearHugeSectorBuffer >>= f).run d =
        ((clearSectorBuffer >>= fun _ => clearHugeSectorBuffer) >>= f).run d from fun _ => rfl, run_bind_ok hclear,
        run_bind_state]
      simp only [hsame.fileSysInfo, hsame.bpb, hstart, hsize, hcount, hlast, if_neg hok, Nat.mod_eq_of_lt hlength]
    rw [hstate, run_bind_ok hrun, run_bind_ok hmarks, run_bind_ok (driveIo_one start _)]
  have hfinal : ∀ s, ((e.fill (fatMarks d)).store start).sectors s =
      if s = start then overlay 0 (fatMarks d) blankSector
      else if start ≤ s ∧ s < start + count then blankSector else d.sectors s := by
    intro s
    rw [store_sectors]
    by_cases hs : s = start
    · rw [hs, Function.update_self, if_pos rfl]
      rfl
    · rw [Function.update_of_ne hs, if_neg hs]
      change e.sectors s = _
      rw [hsectors, hbefore]
      have hiff : (start ≤ s ∧ s ≤ start + count - 1) ↔ (start ≤ s ∧ s < start + count) := by omega
      simp only [hiff]
  have hsame'' := hall.trans ((fill_same e (fatMarks d)).trans (store_same _ start))
  by_cases htwo : d.bpb.numberOfFats = 2
  · rw [when_pos htwo, driveIo_one] at hbody
    refine ⟨_, hbody, hsame''.trans (store_same _ _), ?_⟩
    funext s
    rw [store_sectors]
    by_cases hs : s = start + size
    · rw [htwo] at hcount
      change size * 2 = count at hcount
      rw [hs, Function.update_self, if_pos (by omega), fatSector, if_pos (.inr ⟨htwo, rfl⟩)]
      rfl
    · rw [Function.update_of_ne hs, hfinal, fatSector]
      split_ifs <;> first | rfl | omega
  · rw [when_neg htwo] at hbody
    refine ⟨_, hbody, hsame'', ?_⟩
    funext s
    have hfirst : (s = start ∨ d.bpb.numberOfFats = 2 ∧ s = start + size) ↔ s = start := by simp [htwo]
    rw [hfinal, fatSector, if_congr hfirst rfl rfl]
    split_ifs <;> first | rfl | omega

end Fats

section Directory

/-- The sectors that `P` picks get the contents of the buffer. -/
def Drive.storeAll (d : Drive) (P : ℕ → Prop) [DecidablePred P] : Drive :=
  { d with sectors := fun s => if P s then d.sectorBuffer else d.sectors s }

theorem storeAll_same (d : Drive) (P : ℕ → Prop) [DecidablePred P] : Same d (d.storeAll P) := ⟨rfl, rfl, rfl, rfl, rfl, rfl⟩

theorem storeAll_congr {P R : ℕ → Prop} [DecidablePred P] [DecidablePred R] (h : ∀ s, P s ↔ R s) (d : Drive) :
    d.storeAll P = d.storeAll R := by
  simp only [Drive.storeAll, h]

theorem store_storeAll {P R : ℕ → Prop} [DecidablePred P] [DecidablePred R] (h : ∀ s, R s ↔ s = sector ∨ P s) (d : Drive) :
    (d.store sector).storeAll P = d.storeAll R := by
  simp only [Drive.storeAll, Drive.store, h]
  congr 1
  funext s
  by_cases hp : P s
  · simp [hp]
  · by_cases hs : s = sector <;> simp [hs, hp]

theorem clearReservedLoop_run (index n : ℕ) (d : Drive) : (clearReservedLoop index n).run d =
    (.ok (), d.storeAll fun s => index ≤ s ∧ s < index + n ∧ spared d s = false) := by
  induction n generalizing index d with
  | zero =>
    have hnone : d.storeAll (fun s => index ≤ s ∧ s < index + 0 ∧ spared d s = false) = d.storeAll fun _ => False :=
      storeAll_congr (fun s => ⟨fun h => by omega, False.elim⟩) d
    rw [hnone]
    rfl
  | succ n ih =>
    rw [clearReservedLoop, run_bind_state]
    by_cases hspared : spared d index = false
    · rw [when_pos hspared, run_bind_ok (driveIo_one index d), ih, (store_same d index).spared]
      congr 1
      refine store_storeAll (fun s => ?_) d
      by_cases hs : s = index
      · simp [hs, hspared]
      · have hrange : (index ≤ s ∧ s < index + (n + 1)) ↔ (index + 1 ≤ s ∧ s < index + 1 + n) := by omega
        simp only [hs, false_or, ← and_assoc, hrange]
    · rw [when_neg hspared, run_bind_pure, ih]
      congr 1
      refine storeAll_congr (fun s => ?_) d
      by_cases hs : s = index
      · simp [hs, hspared]
      · have hrange : (index ≤ s ∧ s < index + (n + 1)) ↔ (index + 1 ≤ s ∧ s < index + 1 + n) := by omega
        simp only [← and_assoc, hrange]

theorem clearRootLoop_run (sector n : ℕ) (d : Drive) : (clearRootLoop sector n).run d =
    (.ok (), d.storeAll fun s => sector ≤ s ∧ s < sector + n) := by
  induction n generalizing sector d with
  | zero =>
    have hnone : d.storeAll (fun s => sector ≤ s ∧ s < sector + 0) = d.storeAll fun _ => False :=
      storeAll_congr (fun s => ⟨fun h => by omega, False.elim⟩) d
    rw [hnone]
    rfl
  | succ n ih =>
    rw [clearRootLoop, run_bind_ok (driveIo_one sector d), ih]
    congr 1
    exact store_storeAll (fun s => by omega) d

/-- The sector with the entry of the volume label. -/
def labelSector (d : Drive) : SectorData :=
  overlay 22 (labelStamp d.clock) (overlay 11 [0x08] (overlay 0 d.param.label blankSector))

/-- The sectors of the root directory. -/
def rootSector (d : Drive) (s : ℕ) : SectorData :=
  if d.param.v = true ∧ s = d.fileSysInfo.startRootDirSect then labelSector d else blankSector

theorem writeRootDirectory_run (d : Drive) : ∃ e, writeRootDirectory.run d = (.ok (), e) ∧ Same d e ∧ e.sectors = fun s =>
    if d.fileSysInfo.startRootDirSect ≤ s ∧ s < d.fileSysInfo.startRootDirSect + max 1 d.fileSysInfo.numberRootDirSect then
      rootSector d s else d.sectors s := by
  generalize hcleared : ({ d with sectorBuffer := blankSector } : Drive) = c
  have hclear : clearSectorBuffer.run d = (.ok (), c) := by
    rw [← hcleared]
    rfl
  have hsame : Same d c := by
    rw [← hcleared]
    exact ⟨rfl, rfl, rfl, rfl, rfl, rfl⟩
  have hsectors : c.sectors = d.sectors ∧ c.sectorBuffer = blankSector := by
    rw [← hcleared]
    exact ⟨rfl, rfl⟩
  rw [writeRootDirectory, run_bind_ok hclear, run_bind_state]
  dsimp only
  rw [run_bind_ok (clearRootLoop_run _ _ c), hsame.fileSysInfo, hsame.param, hsame.clock]
  generalize hroot : (c.storeAll fun s => d.fileSysInfo.startRootDirSect ≤ s ∧
    s < d.fileSysInfo.startRootDirSect + max 1 d.fileSysInfo.numberRootDirSect) = r
  have hsame' : Same d r := by
    rw [← hroot]
    exact hsame.trans (storeAll_same c _)
  have hstored : r.sectors = fun s => if d.fileSysInfo.startRootDirSect ≤ s ∧
      s < d.fileSysInfo.startRootDirSect + max 1 d.fileSysInfo.numberRootDirSect then blankSector else d.sectors s := by
    rw [← hroot]
    simp only [Drive.storeAll, hsectors]
  by_cases hv : d.param.v = true
  · generalize hlabel : ({ r with sectorBuffer := labelSector d } : Drive) = l
    have hput : (do
        clearSectorBuffer
        dosmemput d.param.label 0
        dosmemput [0x08] 11
        dosmemput (labelStamp d.clock) 22
        driveIo d.fileSysInfo.startRootDirSect 1 : FormatM Unit).run r =
        (.ok (), l.store d.fileSysInfo.startRootDirSect) := by
      rw [← driveIo_one, ← hlabel]
      rfl
    have hsame'' : Same d l := by
      rw [← hlabel]
      exact hsame'.trans ⟨rfl, rfl, rfl, rfl, rfl, rfl⟩
    refine ⟨_, (congrArg (fun x => Prog.run x r) (when_pos hv _)).trans hput, hsame''.trans (store_same l _), ?_⟩
    have hl : l.sectors = r.sectors ∧ l.sectorBuffer = labelSector d := by
      rw [← hlabel]
      exact ⟨rfl, rfl⟩
    funext s
    rw [store_sectors, hl.1, hl.2, hstored, rootSector]
    by_cases hs : s = d.fileSysInfo.startRootDirSect
    · rw [hs, Function.update_self, if_pos (by omega), if_pos ⟨hv, rfl⟩]
    · have hno : ¬(d.param.v = true ∧ s = d.fileSysInfo.startRootDirSect) := fun h => hs h.2
      rw [Function.update_of_ne hs, if_neg hno]
  · refine ⟨r, congrArg (fun x => Prog.run x r) (when_neg hv _), hsame', ?_⟩
    rw [hstored]
    funext s
    have hno : ¬(d.param.v = true ∧ s = d.fileSysInfo.startRootDirSect) := fun h => hv h.1
    rw [rootSector, if_neg hno]

end Directory

section Reserved

/-- What the FSInfo sector holds. -/
def infoSector (d : Drive) : SectorData :=
  overlay 508 (le32 0xAA550000) (overlay 492 (le32 2)
    (overlay 488 (le32 ((d.fileSysInfo.totalClusters + (2 ^ 32 - rootClusters d)) % 2 ^ 32))
      (overlay 484 (le32 0x61417272) (overlay 0 (le32 0x41615252) blankSector))))

/-- The copies are not written over the FSInfo sector. -/
def InfoSafe (d : Drive) : Prop :=
  infoActive d = true ∧ (useBackups d ≠ 0 → d.xbpb.infoSectorNumber.toNat ≠ useBackups d + 2)

theorem infoActive_iff : infoActive d = true ↔
    d.xbpb.infoSectorNumber.toNat + useBackups d < d.bpb.reservedSectors.toNat ∧
      d.xbpb.infoSectorNumber.toNat ≠ 0xFFFF ∧ d.xbpb.infoSectorNumber.toNat ≠ 0 ∧ d.xbpb.infoSectorNumber.toNat ≠ 2 := by
  simp only [infoActive, Bool.not_eq_true', decide_eq_false_iff_not, not_or, ge_iff_le, Nat.not_le]

theorem writeInfoSectors_run (d : Drive) : ∃ e, writeInfoSectors.run d = (.ok (), e) ∧ Same d e ∧
    e.sectors 0 = d.sectors 0 ∧ (infoActive d = true → e.sectors d.xbpb.infoSectorNumber.toNat = infoSector d) := by
  have hends : Ends writeInfoSectors d (fun _ e => Same d e ∧ e.sectors 0 = d.sectors 0 ∧
      (infoActive d = true → e.sectors d.xbpb.infoSectorNumber.toNat = infoSector d)) fun _ _ => False := by
    simp only [writeInfoSectors, createFsInfoSector, dosmemput, ends_bind, ends_state, ends_when, ends_update,
      ends_driveIo_one]
    refine ⟨fun hactive => ?_, fun hno => ⟨.refl d, trivial, fun h => absurd h hno⟩⟩
    obtain ⟨-, -, hzero, -⟩ := infoActive_iff.mp hactive
    refine ⟨fun hbackup => ⟨⟨rfl, rfl, rfl, rfl, rfl, rfl⟩, ?_, fun _ => ?_⟩,
      fun _ => ⟨⟨rfl, rfl, rfl, rfl, rfl, rfl⟩, store_of_ne (Ne.symm hzero) _, fun _ => store_self _ _⟩⟩
    · have hne : 0 ≠ useBackups d + d.xbpb.infoSectorNumber.toNat := by omega
      rw [store_of_ne hne]
      exact store_of_ne (Ne.symm hzero) _
    · have hpos : useBackups d ≠ 0 := hbackup
      have hne : d.xbpb.infoSectorNumber.toNat ≠ useBackups d + d.xbpb.infoSectorNumber.toNat := by omega
      rw [store_of_ne hne]
      exact store_self _ _
  obtain ⟨_, e, hrun, h⟩ := hends.exists_run
  exact ⟨e, hrun, h⟩

theorem useBackups_cases (d : Drive) :
    useBackups d = 0 ∨ 3 ≤ useBackups d ∧ useBackups d + 3 ≤ d.bpb.reservedSectors.toNat := by
  unfold useBackups
  dsimp only
  split
  · exact .inl rfl
  · right
    omega

theorem writeBootSectors_run (d : Drive) : ∃ e, writeBootSectors.run d = (.ok (), e) ∧ Same d e ∧
    e.sectors 0 = d.sectorBuffer ∧
    (d.param.fatType = .fat32 → InfoSafe d → e.sectors d.xbpb.infoSectorNumber.toNat = infoSector d) := by
  have hbackup := useBackups_cases d
  have hfirst := store_self d 0
  have hends : Ends writeBootSectors d (fun _ e => Same d e ∧ e.sectors 0 = d.sectorBuffer ∧
      (d.param.fatType = .fat32 → InfoSafe d → e.sectors d.xbpb.infoSectorNumber.toNat = infoSector d))
      fun _ _ => False := by
    simp only [writeBootSectors, ends_bind, ends_driveIo_one, ends_state, ends_when]
    refine ⟨fun ht => ?_, fun hno => ⟨store_same d 0, hfirst, fun h => absurd h hno⟩⟩
    have hrest : ∀ c, Same d c → c.sectors 0 = d.sectorBuffer → Ends (writeInfoSectors >>= fun _ => do
        clearSectorBuffer
        dosmemput [0x55, 0xAA] 510
        driveIo 2 1
        Prog.when (useBackups d ≠ 0) (driveIo (useBackups d + 2) 1)) c (fun _ e => Same d e ∧ e.sectors 0 = d.sectorBuffer ∧
        (d.param.fatType = .fat32 → InfoSafe d → e.sectors d.xbpb.infoSectorNumber.toNat = infoSector d))
        fun _ _ => False := by
      intro c hc hboot
      obtain ⟨e, hrun, hsame, hzero, hinfo⟩ := writeInfoSectors_run c
      rw [ends_bind, ends_iff_of_run hrun]
      simp only [clearSectorBuffer, dosmemput, ends_bind, ends_update, ends_when, ends_driveIo_one]
      have hboot' : e.sectors 0 = d.sectorBuffer := hzero.trans hboot
      have hkept : InfoSafe d → e.sectors d.xbpb.infoSectorNumber.toNat = infoSector d ∧
          d.xbpb.infoSectorNumber.toNat ≠ 2 := by
        rintro ⟨hactive, -⟩
        rw [← hc.infoActive] at hactive
        have hi := hinfo hactive
        rw [hc.xbpb, infoSector, hc.fileSysInfo, hc.rootClusters] at hi
        exact ⟨hi, (infoActive_iff.mp (hc.infoActive ▸ hactive)).2.2.2⟩
      have hall := hc.trans hsame
      have hzero2 : (0 : ℕ) ≠ 2 := by decide
      refine ⟨fun hb => ⟨hall.trans ⟨rfl, rfl, rfl, rfl, rfl, rfl⟩, ?_, fun _ hsafe => ?_⟩,
        fun hb => ⟨hall.trans ⟨rfl, rfl, rfl, rfl, rfl, rfl⟩, ?_, fun _ hsafe => ?_⟩⟩
      · have hne : 0 ≠ useBackups d + 2 := by omega
        rw [store_of_ne hne, store_of_ne hzero2]
        exact hboot'
      · obtain ⟨hi, h2⟩ := hkept hsafe
        rw [store_of_ne (hsafe.2 hb), store_of_ne h2]
        exact hi
      · rw [store_of_ne hzero2]
        exact hboot'
      · obtain ⟨hi, h2⟩ := hkept hsafe
        rw [store_of_ne h2]
        exact hi
    refine ⟨fun hb => ?_, fun _ => ?_⟩
    · have hpos : useBackups d ≠ 0 := hb
      have hne : 0 ≠ useBackups d := Ne.symm hpos
      have hstart := hrest ((d.store 0).store (useBackups d)) ((store_same d 0).trans (store_same _ _))
        ((store_of_ne hne _).trans hfirst)
      simp only [ends_bind, ends_when, ends_driveIo_one] at hstart
      exact hstart
    · have hstart := hrest (d.store 0) (store_same d 0) hfirst
      simp only [ends_bind, ends_when, ends_driveIo_one] at hstart
      exact hstart
  obtain ⟨_, e, hrun, h⟩ := hends.exists_run
  exact ⟨e, hrun, h⟩

theorem clearReservedSectors_run (d : Drive) : ∃ e, clearReservedSectors.run d = (.ok (), e) ∧ Same d e ∧
    e.sectors 0 = d.sectors 0 ∧ (d.param.fatType = .fat32 → infoActive d = true →
      e.sectors d.xbpb.infoSectorNumber.toNat = d.sectors d.xbpb.infoSectorNumber.toNat) := by
  generalize hcleared : ({ d with sectorBuffer := blankSector } : Drive) = c
  have hclear : clearSectorBuffer.run d = (.ok (), c) := by
    rw [← hcleared]
    rfl
  have hsame : Same d c := by
    rw [← hcleared]
    exact ⟨rfl, rfl, rfl, rfl, rfl, rfl⟩
  have hsectors : c.sectors = d.sectors := by rw [← hcleared]
  generalize hindex : (if d.param.fatType = .fat32 then 3 else 1) = index
  have hpos : 0 < index := by
    rw [← hindex]
    split <;> decide
  refine ⟨_, ?_, hsame.trans (storeAll_same c fun s => index ≤ s ∧
    s < index + max 1 (d.bpb.reservedSectors.toNat - index) ∧ spared c s = false), ?_, fun ht hactive => ?_⟩
  · rw [clearReservedSectors, run_bind_ok hclear, run_bind_state]
    simp only [hsame.param, hsame.bpb, hindex]
    exact clearReservedLoop_run _ _ c
  · rw [← hsectors]
    exact if_neg (by omega)
  · have hspared : spared c d.xbpb.infoSectorNumber.toNat = true := by
      have hbefore := (infoActive_iff.mp hactive).1
      rw [hsame.spared, spared, if_neg (by omega)]
      exact decide_eq_true ⟨ht, .inl rfl⟩
    rw [← hsectors]
    exact if_neg (by simp [hspared])

/-- The drive after all of the file system has been written. -/
structure Formatted (d e : Drive) (boot : SectorData) : Prop where
  same : Same d e
  boot : e.sectors 0 = boot
  info : d.param.fatType = .fat32 → InfoSafe d → e.sectors d.xbpb.infoSectorNumber.toNat = infoSector d
  fats : ∀ s, d.fileSysInfo.startFatSector ≤ s → s < d.fileSysInfo.startRootDirSect →
    e.sectors s = fatSector d d.fileSysInfo.startFatSector d.fileSysInfo.numberFatSectors s
  root : ∀ s, d.fileSysInfo.startRootDirSect ≤ s → s < d.fileSysInfo.startRootDirSect + d.fileSysInfo.numberRootDirSect →
    e.sectors s = rootSector d s

/-- The areas of the volume follow one another, each FAT has room for the root directory's chain, and there is more
than one FAT sector. -/
structure Arranged (d : Drive) : Prop where
  fats : d.bpb.numberOfFats = 1 ∨ d.bpb.numberOfFats = 2
  start : d.fileSysInfo.startFatSector = d.bpb.reservedSectors.toNat
  reserved : 0 < d.bpb.reservedSectors.toNat
  root : d.fileSysInfo.startRootDirSect =
    d.fileSysInfo.startFatSector + d.fileSysInfo.numberFatSectors * d.bpb.numberOfFats.toNat
  more : 1 < d.fileSysInfo.numberFatSectors * d.bpb.numberOfFats.toNat
  below : d.fileSysInfo.startRootDirSect + 20 < 2 ^ 32
  chain : d.param.fatType = .fat32 → rootClusters d ≤ 126

theorem Arranged.congr (h : Arranged d) (hs : Same d e) : Arranged e := by
  constructor
  case fats => rw [hs.bpb]; exact h.fats
  case start => rw [hs.fileSysInfo, hs.bpb]; exact h.start
  case reserved => rw [hs.bpb]; exact h.reserved
  case root => rw [hs.fileSysInfo, hs.bpb]; exact h.root
  case more => rw [hs.fileSysInfo, hs.bpb]; exact h.more
  case below => rw [hs.fileSysInfo]; exact h.below
  case chain => rw [hs.param, hs.rootClusters]; exact h.chain

theorem Same.infoSafe (hs : Same d e) (h : InfoSafe d) : InfoSafe e := by
  rw [InfoSafe, hs.infoActive, hs.useBackups, hs.xbpb]
  exact h

theorem Same.infoSector (hs : Same d e) : infoSector e = infoSector d := by
  rw [Format.infoSector, Format.infoSector, hs.fileSysInfo, hs.rootClusters]

theorem Same.fatMarks (hs : Same d e) : fatMarks e = fatMarks d := by
  rw [Format.fatMarks, Format.fatMarks, hs.bpb, hs.param, hs.rootClusters]

theorem Same.fatSector (hs : Same d e) : fatSector e = fatSector d := by
  funext start size s
  rw [Format.fatSector, Format.fatSector, hs.bpb, hs.fatMarks]

theorem Same.rootSector (hs : Same d e) : rootSector e = rootSector d := by
  funext s
  rw [Format.rootSector, Format.rootSector, labelSector, labelSector, hs.param, hs.fileSysInfo, hs.clock]

/-- The four parts of the program that write to the drive. -/
def writeSystem (loopBound : ℕ) : FormatM Unit := do
  writeBootSectors
  let d ← Prog.state
  Prog.when (d.bpb.reservedSectors > 1) clearReservedSectors
  writeFatTables loopBound
  writeRootDirectory

theorem clearReserved_when (d : Drive) : ∃ e, (Prog.when (d.bpb.reservedSectors > 1) clearReservedSectors).run d = (.ok (), e) ∧
    Same d e ∧ e.sectors 0 = d.sectors 0 ∧ (d.param.fatType = .fat32 → infoActive d = true →
      e.sectors d.xbpb.infoSectorNumber.toNat = d.sectors d.xbpb.infoSectorNumber.toNat) := by
  by_cases hreserved : d.bpb.reservedSectors > 1
  · rw [when_pos hreserved]
    exact clearReservedSectors_run d
  · rw [when_neg hreserved]
    exact ⟨d, rfl, .refl d, rfl, fun _ _ => rfl⟩

theorem writeSystem_run {loopBound : ℕ} (h : Arranged d)
    (hloop : d.fileSysInfo.numberFatSectors * d.bpb.numberOfFats.toNat < loopBound) :
    ∃ e, (writeSystem loopBound).run d = (.ok (), e) ∧ Formatted d e d.sectorBuffer := by
  obtain ⟨b, hbrun, hb, hboot, hinfo⟩ := writeBootSectors_run d
  obtain ⟨c, hcrun, hbc, hcboot, hcinfo⟩ := clearReserved_when b
  have hc := hb.trans hbc
  have hac := h.congr hc
  have hend : c.fileSysInfo.startFatSector + c.fileSysInfo.numberFatSectors * c.bpb.numberOfFats.toNat + 20 < 2 ^ 32 := by
    rw [← hac.root]
    exact hac.below
  have hbound : c.fileSysInfo.numberFatSectors * c.bpb.numberOfFats.toNat < loopBound := by
    rw [hc.fileSysInfo, hc.bpb]
    exact hloop
  obtain ⟨t, htrun, hct, htsectors⟩ := writeFatTables_run hac.fats rfl rfl hac.more hend hac.chain hbound
  have ht := hc.trans hct
  obtain ⟨e, herun, hte, hesectors⟩ := writeRootDirectory_run t
  have he := ht.trans hte
  rw [hc.fileSysInfo, hc.bpb, hc.fatSector] at htsectors
  rw [ht.fileSysInfo, ht.rootSector] at hesectors
  have hstart := h.start
  have hreserved := h.reserved
  have hroot := h.root
  have hkept : ∀ s, s < d.bpb.reservedSectors.toNat → e.sectors s = c.sectors s := by
    intro s hs
    rw [hesectors]
    simp only
    rw [if_neg (by omega), htsectors]
    exact if_neg (by omega)
  refine ⟨e, ?_, he, ?_, fun hfat hsafe => ?_, fun s hlo hhi => ?_, fun s hlo hhi => ?_⟩
  · rw [writeSystem, run_bind_ok hbrun, run_bind_state, run_bind_ok hcrun, run_bind_ok htrun]
    exact herun
  · rw [hkept 0 hreserved, hcboot, hboot]
  · have hbefore := (infoActive_iff.mp hsafe.1).1
    have hi := hcinfo (by rw [hb.param]; exact hfat) (by rw [hb.infoActive]; exact hsafe.1)
    rw [hb.xbpb] at hi
    rw [hkept _ (by omega), hi]
    exact hinfo hfat hsafe
  · rw [hesectors]
    simp only
    rw [if_neg (by omega), htsectors]
    exact if_pos (by omega)
  · rw [hesectors]
    exact if_pos (by omega)

end Reserved

end FreeDos32.Format
