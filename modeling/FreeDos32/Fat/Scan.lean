import Mathlib.Data.List.Induction
import FreeDos32.Fat.Walk

namespace FreeDos32.Fat

open Prog

variable {u v w : Volume} {c n p : ℕ} {l : List ℕ} {de : Direntry} {lud : LookupData}

/-- A directory open for reading at the start of a slot. -/
structure OpenDir (l : List ℕ) (c : ℕ) (v : Volume) : Prop where
  sound : Sound v
  chain : OnChain l c v
  dir : (v.files (v.channels c).f).de.isDir = true
  reads : (v.channels c).Reads
  aligned : 32 ∣ (v.channels c).filePointer

/-- Slot `n` of the directory that an open instance is of; none past the end. -/
def Volume.slot (v : Volume) (l : List ℕ) (c n : ℕ) : Option Direntry :=
  (placeOf v.geo (v.atFixedRoot c) l (32 * n)).map (slotAt v.byte)

theorem Browsed.slot (h : Browsed c u w) : w.slot l c = u.slot l c := by
  funext n
  rw [Volume.slot, Volume.slot, h.geo, h.atFixedRoot, h.byte]

theorem OpenDir.browsed (h : OpenDir l c u) (hw : Browsed c u w) (hon : OnChain l c w)
    (hp : 32 ∣ (w.channels c).filePointer) : OpenDir l c w where
  sound := hw.sound
  chain := hon
  dir := by
    rw [hw.files, hw.file]
    exact h.dir
  reads := h.reads.of_info (hw.info c)
  aligned := hp

theorem slotBytes_eq (v : Volume) (l : List ℕ) (c n : ℕ) :
    slotBytes v.geo (v.atFixedRoot c) l v.byte (32 * n) = (v.slot l c n).elim [] Direntry.toBytes := by
  rw [slotBytes, Volume.slot]
  cases placeOf v.geo (v.atFixedRoot c) l (32 * n) <;> rfl

theorem head?_toBytes (de : Direntry) : de.toBytes.head? = some (de 0) := rfl

theorem isShort_ofBytes (de : Direntry) : (Direntry.ofBytes de.toBytes).isShort = de.isShort := rfl

theorem overlay_toBytes (de d : Direntry) {i : ℕ} (h : i < 32) : overlay 0 de.toBytes d i = de i := by
  rw [overlay, length_toBytes, if_pos (by omega)]
  exact toBytes_getD de h

namespace LookupData

def fetch (de : Direntry) (lud : LookupData) : LookupData := lud.setCde lud.cdePos (overlay 0 de.toBytes)

def advance (lud : LookupData) : LookupData :=
  { lud with cdePos := if lud.cdePos + 1 = lfnFetchSlots then 0 else lud.cdePos + 1 }

/-- The names that `fat_do_readdir` finds for the short entry it has read last. -/
def names (filePointer : ℕ) (lud : LookupData) : Outcome Errno Unit × LookupData :=
  match fetchLfn filePointer lud with
  | .error e => (.error e, { lud with lfnEntries := 0, lfn := [] })
  | .ok (entries, lfn) =>
    match expandFcbName (lud.cde lud.cdePos).name with
    | .error e => (.error e, { lud with lfnEntries := entries, lfn := lfn })
    | .ok sfn => (.ok (), { lud with lfnEntries := entries, lfn := lfn, sfn := sfn })

/-- The same but for the place of the entry. -/
def SameNames (lud lud' : LookupData) : Prop :=
  lud' = { lud with deSector := lud'.deSector, deSecofs := lud'.deSecofs, deDirofs := lud'.deDirofs }

end LookupData

/-- What `fat_do_readdir` makes of the slots from number `n` on: its result, the number of the slot after
those it has read, and the names. -/
def scan (slot : ℕ → Option Direntry) : ℕ → ℕ → LookupData → Outcome Errno Unit × ℕ × LookupData
  | 0, n, lud => (.hang, n, lud)
  | fuel + 1, n, lud =>
    match slot n with
    | none => (.error .enmfile, n, lud)
    | some de =>
      if de 0 = fatEndofdir then (.error .enmfile, n + 1, lud.fetch de)
      else if de.isShort then
        (((lud.fetch de).names (32 * (n + 1))).1, n + 1, ((lud.fetch de).names (32 * (n + 1))).2)
      else scan slot fuel (n + 1) (lud.fetch de).advance

theorem toBytes_eq {d e : Direntry} (h : d.toBytes = e.toBytes) {i : ℕ} (hi : i < 32) : d i = e i := by
  rw [← toBytes_getD d hi, ← toBytes_getD e hi, h]

theorem isShort_eq {d e : Direntry} (h : d.toBytes = e.toBytes) : d.isShort = e.isShort := by
  rw [← isShort_ofBytes d, ← isShort_ofBytes e, h]

theorem fetch_current (de : Direntry) (lud : LookupData) :
    ((lud.fetch de).cde (lud.fetch de).cdePos).toBytes = de.toBytes := by
  apply List.map_congr_left
  intro i hi
  simp only [LookupData.fetch, LookupData.setCde, if_true]
  exact overlay_toBytes _ _ (List.mem_range.mp hi)

theorem name_eq {d e : Direntry} (h : d.toBytes = e.toBytes) : d.name = e.name := by
  apply List.map_congr_left
  intro i hi
  exact toBytes_eq h (by have := List.mem_range.mp hi; omega)

/-- Slots of a directory from number `n` on hold the given entries. -/
def Stored (slot : ℕ → Option Direntry) (n : ℕ) (des : List Direntry) : Prop :=
  ∀ i de, des[i]? = some de → (slot (n + i)).map Direntry.toBytes = some de.toBytes

def LookupData.fetchAll (des : List Direntry) (lud : LookupData) : LookupData :=
  des.foldl (fun lud de => (lud.fetch de).advance) lud

theorem scan_skip {slot : ℕ → Option Direntry} {des : List Direntry} (hs : Stored slot n des)
    (hskip : ∀ de ∈ des, de 0 ≠ fatEndofdir ∧ de.isShort = false) (fuel : ℕ) :
    scan slot (fuel + des.length) n lud = scan slot fuel (n + des.length) (lud.fetchAll des) := by
  induction des generalizing n lud with
  | nil => rfl
  | cons de des ih =>
    obtain ⟨hne, hshort⟩ := hskip de List.mem_cons_self
    obtain ⟨d, hd, hbytes⟩ := Option.map_eq_some_iff.mp (hs 0 de rfl)
    have hfetch : lud.fetch d = lud.fetch de := by rw [LookupData.fetch, LookupData.fetch, hbytes]
    have hrest : Stored slot (n + 1) des := fun i e he => by
      rw [Nat.add_assoc, Nat.add_comm 1]
      exact hs (i + 1) e he
    rw [Nat.add_zero] at hd
    rw [List.length_cons, ← Nat.add_assoc, scan, hd]
    dsimp only
    rw [if_neg (by rw [toBytes_eq hbytes (by decide)]; exact hne), if_neg (by rw [isShort_eq hbytes, hshort]; decide),
      hfetch, ih hrest fun e he => hskip e (List.mem_cons_of_mem de he), Nat.add_assoc, Nat.add_comm 1]
    rfl

theorem fetchAll_ring (des : List Direntry) (h0 : lud.cdePos = 0) :
    (lud.fetchAll des).cdePos = des.length % 21 ∧ ∀ t < des.length, t < 21 → ∀ de, des[des.length - 1 - t]? = some de →
      ((lud.fetchAll des).cde ((des.length - 1 - t) % 21)).toBytes = de.toBytes := by
  induction des using List.reverseRecOn with
  | nil => exact ⟨h0, fun t ht => absurd ht (Nat.not_lt_zero t)⟩
  | append_singleton des e ih =>
    obtain ⟨hpos, hring⟩ := ih
    have hstep : lud.fetchAll (des ++ [e]) = ((lud.fetchAll des).fetch e).advance := by
      rw [LookupData.fetchAll, List.foldl_append]
      rfl
    rw [hstep, List.length_append, List.length_singleton]
    refine ⟨?_, fun t ht ht' de hde => ?_⟩
    · simp only [LookupData.advance, LookupData.fetch, LookupData.setCde, hpos, lfnFetchSlots]
      split <;> omega
    · simp only [LookupData.advance, LookupData.fetch, LookupData.setCde, hpos]
      by_cases hz : t = 0
      · rw [hz, show des.length + 1 - 1 - 0 = des.length by omega, List.getElem?_concat_length] at hde
        cases hde
        rw [if_pos (by rw [hz]; rfl)]
        apply List.map_congr_left
        intro i hi
        exact overlay_toBytes _ _ (List.mem_range.mp hi)
      · rw [if_neg (by omega)]
        have hidx : des.length + 1 - 1 - t = des.length - 1 - (t - 1) := by omega
        rw [hidx] at hde ⊢
        rw [List.getElem?_append_left (by omega)] at hde
        exact hring (t - 1) (by omega) (by omega) de hde

theorem direntryLocation_place {pos : ℕ} (hp : (v.channels c).filePointer = pos + 32) {a : ℕ} (ha : placeOf v.geo (v.atFixedRoot c) l pos = some a)
    (hcl : v.atFixedRoot c = false → l[pos / v.geo.bytesPerCluster]? = some (v.channels c).cluster) :
    (direntryLocation c v).lud.deDirofs = pos ∧
      (direntryLocation c v).lud.deSector * v.geo.bytesPerSector + (direntryLocation c v).lud.deSecofs = a := by
  have hbps := bytesPerSector_pos v.geo
  have hdm : pos / v.geo.bytesPerSector * v.geo.bytesPerSector + pos % v.geo.bytesPerSector = pos := by
    rw [Nat.mul_comm]
    exact Nat.div_add_mod _ _
  have hmod := Nat.mod_lt pos hbps
  refine ⟨by simp only [direntryLocation, Volume.setLud, hp, Nat.add_sub_cancel], ?_⟩
  simp only [direntryLocation, Volume.setLud, hp, Nat.add_sub_cancel]
  cases hroot : v.atFixedRoot c with
  | true =>
    have hroot' : (v.files (v.channels c).f).isFixedRoot = true := hroot
    rw [placeOf, hroot, if_pos rfl] at ha
    rw [if_pos hroot']
    split at ha
    · have := Option.some.inj ha
      rw [Nat.add_mul]
      omega
    · cases ha
  | false =>
    have hroot' : ¬(v.files (v.channels c).f).isFixedRoot = true := by
      rw [show (v.files (v.channels c).f).isFixedRoot = false from hroot]
      decide
    rw [placeOf, hroot, if_neg (by decide), hcl hroot, Option.map_some] at ha
    have hs := (cluster_of_sector v.geo (pos / v.geo.bytesPerSector) hmod).2
    rw [hdm] at hs
    have := Option.some.inj ha
    rw [if_neg hroot', Nat.add_mul]
    unfold Geometry.clusterAddr at this
    omega

/-- What is known of the volume when `fat_do_readdir` has returned. -/
structure Scanned (l : List ℕ) (c : ℕ) (r : Outcome Errno Unit × ℕ × LookupData) (v w : Volume) : Prop where
  browsed : Browsed c v w
  openDir : OpenDir l c w
  pointer : (w.channels c).filePointer = 32 * r.2.1
  names : r.2.2.SameNames w.lud
  place : r.1 = .ok () → w.lud.deDirofs + 32 = 32 * r.2.1 ∧ placeOf v.geo (v.atFixedRoot c) l w.lud.deDirofs =
    some (w.lud.deSector * v.geo.bytesPerSector + w.lud.deSecofs)

theorem overlay_nil (o : ℕ) (d : ℕ → UInt8) : overlay o [] d = d := by
  funext i
  rw [overlay, if_neg (by simp only [List.length_nil]; omega)]

theorem setCde_nil (k : ℕ) (lud : LookupData) : lud.setCde k (overlay 0 []) = lud := by
  simp only [LookupData.setCde, overlay_nil, ite_self]

theorem readShort_run (h : OpenDir l c v) (hp : (v.channels c).filePointer = 32 * (n + 1)) {a : ℕ}
    (ha : placeOf v.geo (v.atFixedRoot c) l (32 * n) = some a)
    (hcl : v.atFixedRoot c = false → l[32 * n / v.geo.bytesPerCluster]? = some (v.channels c).cluster) :
    ∃ w, (readShort c).run v = ((v.lud.names (32 * (n + 1))).1, w) ∧
      Scanned l c ((v.lud.names (32 * (n + 1))).1, n + 1, (v.lud.names (32 * (n + 1))).2) v w := by
  have hlud : ∀ g : LookupData → LookupData, Browsed c v (v.setLud g) ∧ OpenDir l c (v.setLud g) := by
    intro g
    have hb := (Browsed.refl h.sound c).setLud g
    exact ⟨hb, h.browsed hb (h.chain.browsed hb h.chain.cursor) h.aligned⟩
  rw [readShort, run_bind_state, hp, LookupData.names]
  cases hf : fetchLfn (32 * (n + 1)) v.lud with
  | error e => exact ⟨_, rfl, (hlud _).1, (hlud _).2, hp, rfl, fun h => by cases h⟩
  | ok r =>
    obtain ⟨entries, lfn⟩ := r
    cases hx : expandFcbName (v.lud.cde v.lud.cdePos).name with
    | error e =>
      refine ⟨_, ?_, (hlud fun lud => { lud with lfnEntries := entries, lfn := lfn }).1, (hlud _).2, hp, rfl,
        fun h => by cases h⟩
      rfl
    | ok sfn =>
      -- the place is found out from the volume as it is with the names
      let g : LookupData → LookupData := fun lud => { lud with lfnEntries := entries, lfn := lfn, sfn := sfn }
      have hp' : ((v.setLud g).channels c).filePointer = 32 * n + 32 := hp
      obtain ⟨hofs, hat⟩ := direntryLocation_place hp' ha hcl
      have hb : Browsed c v (direntryLocation c (v.setLud g)) := by
        unfold direntryLocation
        exact (hlud g).1.setLud _
      refine ⟨direntryLocation c (v.setLud g), rfl, hb, ?_, hp, rfl, fun _ => ⟨?_, ?_⟩⟩
      · exact h.browsed hb (h.chain.browsed hb h.chain.cursor) h.aligned
      · rw [hofs]
        rfl
      · rw [hofs, ha, ← hat]
        rfl

theorem readdirLoop_run (h : OpenDir l c v) (hp : (v.channels c).filePointer = 32 * n) (fuel : ℕ) :
    ∃ w, (readdirLoop c fuel).run v = ((scan (v.slot l c) fuel n v.lud).1, w) ∧
      Scanned l c (scan (v.slot l c) fuel n v.lud) v w := by
  induction fuel generalizing v n with
  | zero => exact ⟨v, rfl, .refl h.sound c, h, hp, rfl, fun h => by cases h⟩
  | succ fuel ih =>
    obtain ⟨x, hrun, hx, hlud, hon, hfp, hcl⟩ := fatRead_run h.sound h.chain h.dir h.reads h.aligned
    rw [hp, slotBytes_eq] at hrun hfp
    rw [hp] at hcl
    have hbx : ∀ g : LookupData → LookupData, Browsed c v (x.setLud g) := fun g => hx.setLud g
    have hox : ∀ g : LookupData → LookupData, 32 ∣ (x.channels c).filePointer → OpenDir l c (x.setLud g) := fun g hd =>
      h.browsed (hbx g) (h.chain.browsed (hbx g) hon.cursor) hd
    rw [readdirLoop, run_bind_ok hrun, run_bind_update, scan]
    cases hs : v.slot l c n with
    | none =>
      rw [hs] at hfp
      have hsame : x.setLud (fun lud => lud.setCde lud.cdePos (overlay 0 [])) = x := by
        rw [Volume.setLud, setCde_nil]
      refine ⟨x, ?_, hx, ?_, hfp, ?_, fun h => by cases h⟩
      · rw [Option.elim_none, if_pos rfl, hsame]
        rfl
      · exact h.browsed hx hon (by rw [hfp]; exact Nat.dvd_mul_right _ _)
      · rw [LookupData.SameNames, hlud]
    | some de =>
      rw [hs, Option.elim_some, length_toBytes] at hfp
      have hdvd : 32 ∣ (x.channels c).filePointer := by
        rw [hfp]
        omega
      have hne : de.toBytes ≠ [] := List.ne_nil_of_length_pos (by rw [length_toBytes]; decide)
      have hfetch : x.setLud (fun lud => lud.setCde lud.cdePos (overlay 0 de.toBytes)) =
          x.setLud (LookupData.fetch de) := rfl
      obtain ⟨a, ha, -⟩ := Option.map_eq_some_iff.mp hs
      rw [Option.elim_some, if_neg hne, length_toBytes, if_neg (by decide), hfetch, head?_toBytes, isShort_ofBytes]
      simp only [Option.some.injEq]
      by_cases hend : de 0 = fatEndofdir
      · rw [if_pos hend, if_pos hend]
        refine ⟨_, rfl, hbx _, hox _ hdvd, ?_, ?_, fun h => by cases h⟩
        · exact hfp.trans (Nat.mul_succ 32 n).symm
        · simp only [LookupData.SameNames, Volume.setLud, hlud]
      · rw [if_neg hend, if_neg hend]
        by_cases hshort : de.isShort = true
        · rw [if_pos hshort, if_pos hshort, ← hlud]
          have hroot : (x.setLud (LookupData.fetch de)).atFixedRoot c = v.atFixedRoot c := (hbx _).atFixedRoot
          obtain ⟨w, hw, hsc⟩ := readShort_run (n := n) (a := a) (hox (LookupData.fetch de) hdvd)
            (hfp.trans (Nat.mul_succ 32 n).symm)
            (by rw [hroot, (hbx (LookupData.fetch de)).geo]; exact ha)
            (fun hf => by
              rw [hroot] at hf
              rw [(hbx (LookupData.fetch de)).geo]
              exact hcl (by rw [ha]; simp) hf)
          refine ⟨w, hw, (hbx _).trans hsc.browsed, hsc.openDir, hsc.pointer, hsc.names, fun hok => ?_⟩
          have hpl := hsc.place hok
          rwa [hroot, (hbx (LookupData.fetch de)).geo] at hpl
        · rw [if_neg hshort, if_neg hshort, run_bind_update]
          have hnext := ih (n := n + 1) (hox (fun lud => (lud.fetch de).advance) hdvd)
            (hfp.trans (Nat.mul_succ 32 n).symm)
          rw [(hbx _).slot] at hnext
          obtain ⟨w, hw, hsc⟩ := hnext
          have hl : (x.setLud fun lud => (lud.fetch de).advance).lud = (v.lud.fetch de).advance := by
            simp only [Volume.setLud, hlud]
          rw [hl] at hw hsc
          refine ⟨w, hw, (hbx _).trans hsc.browsed, hsc.openDir, hsc.pointer, hsc.names, fun hok => ?_⟩
          have hpl := hsc.place hok
          rwa [(hbx (fun lud => (lud.fetch de).advance)).atFixedRoot,
            (hbx (fun lud => (lud.fetch de).advance)).geo] at hpl

theorem fatDoReaddir_run (h : OpenDir l c v) (hp : (v.channels c).filePointer = 32 * n) :
    ∃ w, (fatDoReaddir c).run v = ((scan (v.slot l c) v.geo.loopBound n { v.lud with cdePos := 0 }).1, w) ∧
      Scanned l c (scan (v.slot l c) v.geo.loopBound n { v.lud with cdePos := 0 }) v w := by
  have hb := (Browsed.refl h.sound c).setLud fun lud => { lud with cdePos := 0 }
  have hopen := h.browsed hb (h.chain.browsed hb h.chain.cursor) h.aligned
  obtain ⟨w, hw, hsc⟩ := readdirLoop_run hopen hp v.geo.loopBound
  rw [hb.slot] at hw hsc
  refine ⟨w, ?_, hb.trans hsc.browsed, hsc.openDir, hsc.pointer, hsc.names, fun hok => ?_⟩
  · have hdir : ¬hasAttr (v.files (v.channels c).f).de.attr fatADir = false := by
      rw [show hasAttr (v.files (v.channels c).f).de.attr fatADir = true from h.dir]
      decide
    rw [fatDoReaddir, run_bind_state, if_neg hdir, run_bind_update]
    exact hw
  · have hpl := hsc.place hok
    rwa [hb.atFixedRoot, hb.geo] at hpl

end FreeDos32.Fat
