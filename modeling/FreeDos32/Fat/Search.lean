import FreeDos32.Fat.Find
import FreeDos32.Fat.Scan

namespace FreeDos32.Fat

open Prog

variable {slot : ℕ → Option Direntry} {u v w : Volume} {a b lud lud' : LookupData} {c k n m fuel bound : ℕ} {l : List ℕ}
  {e : Errno} {de : Direntry} {df : FindData}

section Listing

structure SameRing (a b : LookupData) : Prop where
  cde : a.cde = b.cde
  pos : a.cdePos = b.cdePos

theorem SameRing.fetch (h : SameRing a b) (de : Direntry) : SameRing (a.fetch de) (b.fetch de) := by
  refine ⟨?_, h.pos⟩
  simp only [LookupData.fetch, LookupData.setCde, h.cde, h.pos]

theorem SameRing.advance (h : SameRing a b) : SameRing a.advance b.advance := by
  refine ⟨h.cde, ?_⟩
  simp only [LookupData.advance, h.pos]

theorem SameRing.names (h : SameRing a b) (p : ℕ) :
    (a.names p).1 = (b.names p).1 ∧ SameRing (a.names p).2 (b.names p).2 := by
  have hf : fetchLfn p a = fetchLfn p b := by rw [fetchLfn, fetchLfn, h.cde, h.pos]
  rw [LookupData.names, LookupData.names, hf, h.cde, h.pos]
  cases fetchLfn p b with
  | error e => exact ⟨rfl, rfl, rfl⟩
  | ok r =>
    obtain ⟨entries, lfn⟩ := r
    dsimp only
    cases expandFcbName (b.cde b.cdePos).name with
    | error e => exact ⟨rfl, rfl, rfl⟩
    | ok sfn => exact ⟨rfl, rfl, rfl⟩

theorem scan_sameRing (h : SameRing a b) : (scan slot fuel n a).1 = (scan slot fuel n b).1 ∧
    (scan slot fuel n a).2.1 = (scan slot fuel n b).2.1 ∧ SameRing (scan slot fuel n a).2.2 (scan slot fuel n b).2.2 := by
  induction fuel generalizing n a b with
  | zero => exact ⟨rfl, rfl, h⟩
  | succ fuel ih =>
    rw [scan, scan]
    cases slot n with
    | none => exact ⟨rfl, rfl, h⟩
    | some de =>
      dsimp only
      split
      · exact ⟨rfl, rfl, h.fetch de⟩
      · split
        · have hn := (h.fetch de).names (32 * (n + 1))
          exact ⟨hn.1, rfl, hn.2⟩
        · exact ih (h.fetch de).advance

/-- The live entries among `k` slots from number `n` on, each with the number of the slot after it. -/
def live (slot : ℕ → Option Direntry) : ℕ → ℕ → List (ℕ × Direntry)
  | 0, _ => []
  | k + 1, n =>
    match slot n with
    | none => []
    | some de =>
      if de 0 = fatEndofdir then []
      else if de.isShort then (n + 1, de) :: live slot k (n + 1)
      else live slot k (n + 1)

theorem mem_live {x : ℕ × Direntry} (h : x ∈ live slot k n) :
    ∃ n', x.1 = n' + 1 ∧ n' < n + k ∧ slot n' = some x.2 := by
  induction k generalizing n with
  | zero => cases h
  | succ k ih =>
    rw [live] at h
    split at h
    · cases h
    · next de hs =>
      have hrest : ∀ (h : x ∈ live slot k (n + 1)), ∃ n', x.1 = n' + 1 ∧ n' < n + (k + 1) ∧ slot n' = some x.2 := by
        intro h
        obtain ⟨n', h1, h2, h3⟩ := ih h
        exact ⟨n', h1, by omega, h3⟩
      split at h
      · cases h
      · split at h
        · rcases List.mem_cons.mp h with rfl | h
          · exact ⟨n, rfl, by omega, hs⟩
          · exact hrest h
        · exact hrest h

theorem length_live (slot : ℕ → Option Direntry) (k n : ℕ) : (live slot k n).length ≤ k := by
  induction k generalizing n with
  | zero => exact Nat.le_refl 0
  | succ k ih =>
    have := ih (n + 1)
    rw [live]
    split
    · exact Nat.zero_le _
    · split
      · exact Nat.zero_le _
      · split
        · rw [List.length_cons]
          omega
        · omega

/-- The error codes by which `fat_do_readdir` rejects an entry for its names. -/
def rejections : List Errno := [.eilseq, .enametoolong, .einval]

theorem fetchUnits_error {us : List ℕ} {semi : Option ℕ} {lfn : List ℕ} (h : fetchUnits us semi lfn = .error e) :
    e ∈ rejections := by
  induction us generalizing semi lfn with
  | nil => cases h
  | cons x us ih =>
    cases semi with
    | none =>
      rw [fetchUnits] at h
      split at h
      · exact ih h
      · split at h
        · cases h
        · split at h
          · cases h
            decide
          · exact ih h
    | some wc =>
      rw [fetchUnits] at h
      split at h
      · cases h
        decide
      · split at h
        · cases h
          decide
        · exact ih h

theorem fetchSlots_error {p s order j : ℕ} {cde : ℕ → Direntry} {semi : Option ℕ} {lfn : List ℕ}
    (h : fetchSlots p s cde fuel order j semi lfn = .error e) : e ∈ rejections := by
  induction fuel generalizing order j semi lfn with
  | zero => cases h
  | succ fuel ih =>
    rw [fetchSlots] at h
    split at h
    · cases h
    · dsimp only at h
      generalize (if j = 0 then lfnFetchSlots else j) - 1 = j' at h
      split at h
      · cases h
      · split at h
        · cases h
          exact fetchUnits_error ‹_›
        · split at h
          · cases h
          · exact ih h

theorem expandFcbName_error {source : List UInt8} (h : expandFcbName source = .error e) : e ∈ rejections := by
  rw [expandFcbName] at h
  split at h
  · cases h
    decide
  · cases h

theorem names_error {p : ℕ} (h : (lud.names p).1 = .error e) : e ∈ rejections := by
  rw [LookupData.names] at h
  split at h
  · cases h
    exact fetchSlots_error ‹_›
  · split at h
    · cases h
      exact expandFcbName_error ‹_›
    · cases h

theorem names_ok {p : ℕ} (h : (lud.names p).1 = .ok ()) :
    SameRing (lud.names p).2 lud ∧ ∃ sfn, expandFcbName (lud.cde lud.cdePos).name = .ok sfn := by
  rw [LookupData.names] at h ⊢
  cases hf : fetchLfn p lud with
  | error e =>
    rw [hf] at h
    cases h
  | ok r =>
    obtain ⟨entries, lfn⟩ := r
    rw [hf] at h
    dsimp only at h ⊢
    cases hx : expandFcbName (lud.cde lud.cdePos).name with
    | error e =>
      rw [hx] at h
      cases h
    | ok sfn => exact ⟨⟨rfl, rfl⟩, sfn, rfl⟩

theorem names_no_hang {p : ℕ} : (lud.names p).1 ≠ .hang := by
  rw [LookupData.names]
  split
  · exact fun h => by cases h
  · split
    · exact fun h => by cases h
    · exact fun h => by cases h

/-- What one call of `fat_do_readdir` finds, in terms of the live entries. -/
def Finds (slot : ℕ → Option Direntry) (n k : ℕ) (r : Outcome Errno Unit × ℕ × LookupData) : Prop :=
  match r with
  | (.ok (), m, lud) => ∃ n' de, m = n' + 1 ∧ n ≤ n' ∧ n' < n + k ∧ slot n' = some de ∧
      (lud.cde lud.cdePos).toBytes = de.toBytes ∧ (∃ sfn, expandFcbName de.name = .ok sfn) ∧
      live slot k n = (n' + 1, de) :: live slot (n + k - (n' + 1)) (n' + 1)
  | (.error e, _, _) => (e = .enmfile ∧ live slot k n = []) ∨ (e ∈ rejections ∧ live slot k n ≠ [])
  | (.hang, _, _) => False

theorem scan_finds (hend : slot (n + k) = none) (hk : k < fuel) : Finds slot n k (scan slot fuel n lud) := by
  induction fuel generalizing n k lud with
  | zero => omega
  | succ fuel ih =>
    rw [scan]
    cases k with
    | zero =>
      rw [Nat.add_zero] at hend
      rw [hend]
      exact .inl ⟨rfl, rfl⟩
    | succ k =>
      cases hs : slot n with
      | none => exact .inl ⟨rfl, by rw [live, hs]⟩
      | some de =>
        dsimp only
        by_cases h0 : de 0 = fatEndofdir
        · rw [if_pos h0]
          exact .inl ⟨rfl, by rw [live, hs]; exact if_pos h0⟩
        · rw [if_neg h0]
          by_cases hshort : de.isShort = true
          · have hlive : live slot (k + 1) n = (n + 1, de) :: live slot k (n + 1) := by
              rw [live, hs]
              dsimp only
              rw [if_neg h0, if_pos hshort]
            rw [if_pos hshort]
            cases hn : ((lud.fetch de).names (32 * (n + 1))).1 with
            | ok x =>
              obtain ⟨hring, sfn, hsfn⟩ := names_ok hn
              have hcur := fetch_current de lud
              refine ⟨n, de, rfl, Nat.le_refl n, by omega, hs, ?_, ⟨sfn, ?_⟩, ?_⟩
              · rw [hring.cde, hring.pos]
                exact hcur
              · rw [← name_eq hcur]
                exact hsfn
              · rw [hlive, show n + (k + 1) - (n + 1) = k by omega]
            | error e => exact .inr ⟨names_error hn, by rw [hlive]; simp⟩
            | hang => exact names_no_hang hn
          · have hlive : live slot (k + 1) n = live slot k (n + 1) := by
              rw [live, hs]
              dsimp only
              rw [if_neg h0, if_neg hshort]
            rw [if_neg hshort]
            have hrest : Finds slot (n + 1) k (scan slot fuel (n + 1) (lud.fetch de).advance) :=
              ih (by rw [Nat.add_assoc, Nat.add_comm 1]; exact hend) (by omega)
            revert hrest
            rcases scan slot fuel (n + 1) (lud.fetch de).advance with ⟨_ | _ | _, m, lud'⟩
            · rintro ⟨n', d, hm, hle, hlt, hd, hb, hx, hl⟩
              exact ⟨n', d, hm, by omega, by omega, hd, hb, hx, by
                rw [hlive, hl, show n + 1 + k - (n' + 1) = n + (k + 1) - (n' + 1) by omega]⟩
            · rintro (⟨he, hl⟩ | ⟨he, hl⟩)
              · exact .inl ⟨he, hlive.trans hl⟩
              · exact .inr ⟨he, by rw [hlive]; exact hl⟩
            · exact id

/-- Reading a directory without a break from slot `n` on gives these live entries and ends with this error. -/
inductive Lists (slot : ℕ → Option Direntry) (bound : ℕ) : ℕ → LookupData → List (ℕ × Direntry) → Errno → Prop
  | done {n n' : ℕ} {lud lud' : LookupData} {e : Errno}
      (h : scan slot bound n { lud with cdePos := 0 } = (.error e, n', lud')) : Lists slot bound n lud [] e
  | next {n n' : ℕ} {lud lud' : LookupData} {de : Direntry} {es : List (ℕ × Direntry)} {e : Errno}
      (h : scan slot bound n { lud with cdePos := 0 } = (.ok (), n' + 1, lud'))
      (hbytes : (lud'.cde lud'.cdePos).toBytes = de.toBytes) (hname : ∃ sfn, expandFcbName de.name = .ok sfn)
      (hrest : Lists slot bound (n' + 1) lud' es e) : Lists slot bound n lud ((n' + 1, de) :: es) e

theorem Lists.sameRing {es : List (ℕ × Direntry)} (h : Lists slot bound n a es e) (hr : a.cde = b.cde) :
    Lists slot bound n b es e := by
  induction h generalizing b with
  | @done n n' a a' e h =>
    have hs := @scan_sameRing slot { b with cdePos := 0 } { a with cdePos := 0 } n bound ⟨hr.symm, rfl⟩
    rcases hb : scan slot bound n { b with cdePos := 0 } with ⟨r, m, b'⟩
    rw [h, hb] at hs
    obtain ⟨h1, h2, -⟩ := hs
    dsimp only at h1 h2
    subst h1 h2
    exact .done hb
  | @next n n' a a' de es e h hbytes hname hrest ih =>
    have hs := @scan_sameRing slot { b with cdePos := 0 } { a with cdePos := 0 } n bound ⟨hr.symm, rfl⟩
    rcases hb : scan slot bound n { b with cdePos := 0 } with ⟨r, m, b'⟩
    rw [h, hb] at hs
    obtain ⟨h1, h2, h3⟩ := hs
    dsimp only at h1 h2 h3
    subst h1 h2
    refine .next hb ?_ hname (ih h3.cde.symm)
    rw [h3.cde, h3.pos]
    exact hbytes

theorem exists_lists (hend : slot (n + k) = none) (hk : k < bound) (lud : LookupData) :
    ∃ es e rest, Lists slot bound n lud es e ∧ live slot k n = es ++ rest ∧
      ((e = .enmfile ∧ rest = []) ∨ (e ∈ rejections ∧ rest ≠ [])) := by
  induction k using Nat.strong_induction_on generalizing n lud with
  | _ k ih =>
    have hf : Finds slot n k (scan slot bound n { lud with cdePos := 0 }) := scan_finds hend hk
    rcases hs : scan slot bound n { lud with cdePos := 0 } with ⟨_ | e | _, m, lud'⟩
    · rw [hs] at hf
      obtain ⟨n', de, rfl, hle, hlt, -, hb, hx, hl⟩ := hf
      obtain ⟨es, e, rest, hlists, hlive, hcase⟩ := ih (n + k - (n' + 1)) (by omega) (n := n' + 1)
        (by rw [show n' + 1 + (n + k - (n' + 1)) = n + k by omega]; exact hend) (by omega) lud'
      refine ⟨(n' + 1, de) :: es, e, rest, .next hs hb hx hlists, ?_, hcase⟩
      rw [hl, hlive, List.cons_append]
    · rw [hs] at hf
      refine ⟨[], e, live slot k n, .done hs, rfl, ?_⟩
      exact hf
    · rw [hs] at hf
      exact hf.elim

theorem expandFcbNameMb_ok {source : List UInt8} {sfn : List ℕ} (h : expandFcbName source = .ok sfn) :
    ∃ name, expandFcbNameMb source = .ok name := by
  rw [expandFcbName] at h
  rw [expandFcbNameMb]
  cases hn : unpadded (source.take 8) with
  | nil =>
    rw [hn] at h
    cases h
  | cons x name => exact ⟨_, rfl⟩

def Direntry.shownName (de : Direntry) : List UInt8 := match expandFcbNameMb de.name with
  | .ok name => name
  | .error _ => []

def FindData.entry (df : FindData) (first : ℕ) (x : ℕ × Direntry) : FindData := df.found x.2 x.2.shownName x.1 first

theorem found_congr {d e : Direntry} (h : d.toBytes = e.toBytes) (name : List UInt8) (m first : ℕ) :
    df.found d name m first = df.found e name m first := by
  simp only [FindData.found, Direntry.attr, Direntry.fileSize, get32, get16, Nat.reduceAdd]
  rw [toBytes_eq h (by decide : 11 < 32), toBytes_eq h (by decide : 22 < 32), toBytes_eq h (by decide : 23 < 32),
    toBytes_eq h (by decide : 24 < 32), toBytes_eq h (by decide : 25 < 32), toBytes_eq h (by decide : 28 < 32),
    toBytes_eq h (by decide : 29 < 32), toBytes_eq h (by decide : 30 < 32), toBytes_eq h (by decide : 31 < 32)]

end Listing

section Loop

/-- What `dos_find` returns, given the entries from where it starts: it ends as the listing does, or has
found the first of those that the search is for and leaves the rest. -/
def Outcomes (slot : ℕ → Option Direntry) (bound : ℕ) (df : FindData) (first : ℕ) (es : List (ℕ × Direntry)) (e : Errno)
    (r : Outcome Errno FindData) (lud : LookupData) : Prop :=
  (r = .error e ∧ es.filter (fun x => df.wants x.2) = []) ∨
    ∃ pre x post, es = pre ++ x :: post ∧ pre.filter (fun x => df.wants x.2) = [] ∧ df.wants x.2 = true ∧
      r = .ok (df.entry first x) ∧ Lists slot bound x.1 lud post e

theorem dosFindLoop_run {es : List (ℕ × Direntry)} (h : OpenDir l c v) (hp : (v.channels c).filePointer = 32 * n)
    (hl : Lists (v.slot l c) v.geo.loopBound n v.lud es e) (hf : es.length < fuel) :
    ∃ r w, (dosFindLoop c df fuel).run v = (r, w) ∧ Browsed c v w ∧ Outcomes (v.slot l c) v.geo.loopBound df
      (v.files (v.channels c).f).firstCluster es e r w.lud := by
  induction fuel generalizing v n es with
  | zero => omega
  | succ fuel ih =>
    obtain ⟨w, hrun, hsc⟩ := fatDoReaddir_run h hp
    rw [dosFindLoop]
    cases hl with
    | done hs =>
      rw [hs] at hrun
      exact ⟨.error e, w, run_bind_error hrun, hsc.browsed, .inl ⟨rfl, rfl⟩⟩
    | @next n n' _ lud' de es e hs hbytes hname hrest =>
      rw [hs] at hrun hsc
      rw [run_bind_ok hrun, run_bind_state]
      have hnames := hsc.names
      have hcde : w.lud.cde = lud'.cde := by rw [hnames]
      have hpos : w.lud.cdePos = lud'.cdePos := by rw [hnames]
      rw [hcde, hpos]
      have hattr : (lud'.cde lud'.cdePos).attr = de.attr := toBytes_eq hbytes (by decide)
      have hn : (lud'.cde lud'.cdePos).name = de.name := name_eq hbytes
      have hcount : (w.channels c).filePointer / 32 = n' + 1 := by
        rw [hsc.pointer]
        exact Nat.mul_div_cancel_left _ (by decide)
      have hrest' : Lists (w.slot l c) w.geo.loopBound (n' + 1) w.lud es e := by
        rw [hsc.browsed.slot, hsc.browsed.geo]
        exact hrest.sameRing hcde.symm
      rw [List.length_cons] at hf
      dsimp only
      rw [hattr, hn]
      by_cases hw : df.wants de = true
      · have hno : ¬df.excludes de.attr = true := by
          intro hx
          rw [FindData.wants, hx] at hw
          exact Bool.false_ne_true hw
        have hcmp : compareFcbNames de.name df.searchTemplate = true := by
          rw [FindData.wants, Bool.and_eq_true] at hw
          exact hw.2
        obtain ⟨sfn, hsfn⟩ := hname
        obtain ⟨name, hmb⟩ := expandFcbNameMb_ok hsfn
        have hshown : de.shownName = name := by rw [Direntry.shownName, hmb]
        refine ⟨.ok (df.entry (v.files (v.channels c).f).firstCluster (n' + 1, de)), w, ?_, hsc.browsed, .inr ?_⟩
        · rw [if_neg hno, if_pos hcmp, hmb]
          change (Outcome.ok (df.found (lud'.cde lud'.cdePos) name ((w.channels c).filePointer / 32)
            (w.files (w.channels c).f).firstCluster), w) = _
          rw [hcount, hsc.browsed.files, hsc.browsed.file, found_congr hbytes, FindData.entry, hshown]
        · exact ⟨[], (n' + 1, de), es, rfl, rfl, hw, rfl, hrest.sameRing hcde.symm⟩
      · have hskip : (if df.excludes de.attr = true then dosFindLoop c df fuel
            else if compareFcbNames de.name df.searchTemplate = true then do
              let name ← Prog.ofExcept (expandFcbNameMb de.name)
              pure (df.found (lud'.cde lud'.cdePos) name ((w.channels c).filePointer / 32)
                (w.files (w.channels c).f).firstCluster)
            else dosFindLoop c df fuel : FatM FindData) = dosFindLoop c df fuel := by
          by_cases hx : df.excludes de.attr = true
          · rw [if_pos hx]
          · rw [if_neg hx, if_neg]
            intro hcmp
            apply hw
            rw [FindData.wants, hcmp, Bool.eq_false_iff.mpr hx]
            rfl
        rw [hskip]
        obtain ⟨r, x, hrun', hx, hout⟩ := ih hsc.openDir hsc.pointer hrest' (by omega)
        rw [hsc.browsed.slot, hsc.browsed.geo, hsc.browsed.files, hsc.browsed.file] at hout
        refine ⟨r, x, hrun', hsc.browsed.trans hx, ?_⟩
        have hfilter : ∀ es : List (ℕ × Direntry), ((n' + 1, de) :: es).filter (fun x => df.wants x.2) =
            es.filter fun x => df.wants x.2 := fun es => by
          rw [List.filter_cons, if_neg hw]
        rcases hout with ⟨hr, hnil⟩ | ⟨pre, y, post, hes, hpre, hy, hr, hpost⟩
        · exact .inl ⟨hr, (hfilter es).trans hnil⟩
        · refine .inr ⟨(n' + 1, de) :: pre, y, post, ?_, (hfilter pre).trans hpre, hy, hr, hpost⟩
          rw [hes, List.cons_append]

end Loop

section Reopen

variable {fixed : Bool} {s o : ℕ}

/-- An open file that is a directory with the clusters `l`, and nothing of which is to be written. -/
structure DirFile (l : List ℕ) (fixed : Bool) (x : FileInfo) : Prop where
  dir : x.de.isDir = true
  first : x.firstCluster = l.headD 0
  clean : x.deChanged = false
  linked : x.deSector ≠ fatUnlinked
  root : (x.deSector == 0 && x.firstCluster == 0) = fixed

def DirFiles (l : List ℕ) (fixed : Bool) (s o : ℕ) (v : Volume) : Prop :=
  ∀ f ∈ v.filesOpen, (if l.headD 0 ≠ 0 then (v.files f).firstCluster = l.headD 0
    else (v.files f).deSector = s ∧ (v.files f).deSecofs = o) → DirFile l fixed (v.files f).info

/-- The directory with the clusters `l`, or the fixed root directory, can be opened. -/
structure Listable (l : List ℕ) (fixed : Bool) (s o : ℕ) (v : Volume) : Prop where
  sound : Sound v
  links : Links (table v.geo v.byte) fatEoc l
  range : ∀ k ∈ l, v.geo.InRange k
  files : DirFiles l fixed s o v
  memory : ∀ k, v.env.oom k = false

/-- `w` differs from `u` in nothing that opening a directory depends on. -/
structure Aside (u w : Volume) : Prop where
  sound : Sound w
  geo : w.geo = u.geo
  byte : w.byte = u.byte
  env : w.env = u.env
  files : ∀ f ∈ w.filesOpen, f ∈ u.filesOpen ∧ (w.files f).info = (u.files f).info

theorem Aside.trans (h : Aside u v) (h' : Aside v w) : Aside u w :=
  ⟨h'.sound, h'.geo.trans h.geo, h'.byte.trans h.byte, h'.env.trans h.env, fun f hf =>
    ⟨(h.files f (h'.files f hf).1).1, (h'.files f hf).2.trans (h.files f (h'.files f hf).1).2⟩⟩

theorem Browsed.aside (h : Browsed c u w) : Aside u w := by
  refine ⟨h.sound, h.geo, h.byte, ?_, fun f hf => ⟨?_, by rw [h.files]⟩⟩
  · obtain ⟨p, i, k, he⟩ := h.eq
    rw [he]
    rfl
  · obtain ⟨p, i, k, he⟩ := h.eq
    rw [he] at hf
    exact hf

theorem Listable.aside (h : Listable l fixed s o u) (hw : Aside u w) : Listable l fixed s o w where
  sound := hw.sound
  links := by
    rw [hw.geo, hw.byte]
    exact h.links
  range := by
    rw [hw.geo]
    exact h.range
  files f hf hkey := by
    obtain ⟨hu, hinfo⟩ := hw.files f hf
    have hfc : (w.files f).firstCluster = (u.files f).firstCluster := congrArg FileInfo.firstCluster hinfo
    have hds : (w.files f).deSector = (u.files f).deSector := congrArg FileInfo.deSector hinfo
    have hdo : (w.files f).deSecofs = (u.files f).deSecofs := congrArg FileInfo.deSecofs hinfo
    rw [hfc, hds, hdo] at hkey
    rw [hinfo]
    exact h.files f hu hkey
  memory := by
    rw [hw.env]
    exact h.memory

theorem fileGet_dirFile (h : Listable l fixed s o v) (hdir : de.isDir = true) (hfirst : de.firstCluster = l.headD 0)
    (hs : s ≠ fatUnlinked) (hroot : (s == 0 && de.firstCluster == 0) = fixed) :
    ∃ f w, (fileGet de s o).run v = (.ok f, w) ∧ Listable l fixed s o w ∧ DirFile l fixed (w.files f).info ∧
      w = { v with files := w.files, filesOpen := w.filesOpen, nextId := w.nextId } := by
  rw [fileGet, run_bind_state]
  cases hfind : v.findFile de s o with
  | some f =>
    have hmem : f ∈ v.filesOpen := List.mem_of_find?_eq_some hfind
    have hkey := List.find?_some hfind
    have hok : DirFile l fixed (v.files f).info := by
      apply h.files f hmem
      rw [← hfirst]
      by_cases h0 : de.firstCluster ≠ 0
      · simpa [h0] using hkey
      · simpa [h0] using hkey
    have haside : Aside v (v.setFile f fun x => { x with references := x.references + 1 }) := by
      refine ⟨h.sound.of_same rfl rfl, rfl, rfl, rfl, fun k hk => ⟨hk, ?_⟩⟩
      by_cases hkf : k = f
      · rw [hkf, Volume.setFile_self]
        rfl
      · rw [Volume.setFile_ne hkf]
    refine ⟨f, v.setFile f fun x => { x with references := x.references + 1 }, rfl, h.aside haside, ?_, rfl⟩
    rw [Volume.setFile_self]
    exact hok
  | none =>
    let x := (fileInit v.nextId de s o { v with nextId := v.nextId + 1 }).setFile v.nextId fun y =>
      { y with references := y.references + 1 }
    have hself : DirFile l fixed (x.files v.nextId).info := by
      simp only [x, fileInit, Volume.setFile_self]
      exact ⟨hdir, hfirst, rfl, hs, hroot⟩
    have hother : ∀ k, k ≠ v.nextId → x.files k = v.files k := by
      intro k hk
      simp only [x, fileInit, Volume.setFile_ne hk]
    refine ⟨v.nextId, x, rfl, ⟨h.sound.of_same rfl rfl, h.links, h.range, fun k hk hkey => ?_, h.memory⟩, hself, rfl⟩
    by_cases hkf : k = v.nextId
    · rw [hkf]
      exact hself
    · have hk' : k ∈ v.filesOpen := (List.mem_cons.mp hk).resolve_left hkf
      rw [hother k hkf] at hkey ⊢
      exact h.files k hk' hkey

/-- An open instance that has just been made. -/
structure Opened (f : ℕ) (d : Option ℕ) (p : ℕ) (x : Channel) : Prop where
  file : x.f = f
  pointer : x.filePointer = p
  magic : x.magic = true
  flags : x.flags = oRdonly ||| oDirectory
  references : x.references = 1
  start : x.clusterIndex = 0
  dentry : x.dentry = d

theorem channelGet_opened (hmem : ∀ k, v.env.oom k = false) (f : ℕ) (d : Option ℕ) :
    ∃ c w, (channelGet f d (oRdonly ||| oDirectory)).run v = (.ok (some c), w) ∧ Opened f d 0 (w.channels c) ∧
      w.cache = v.cache ∧ w.geo = v.geo ∧ w.env = v.env ∧ w.lud = v.lud ∧ w.files = v.files ∧ w.filesOpen = v.filesOpen ∧
      ∀ k, d = some k → (w.dentries k).references = (v.dentries k).references + 1 := by
  let x := channelInit v.nextId f d (oRdonly ||| oDirectory) { v with ticks := v.ticks + 1, nextId := v.nextId + 1 }
  have halloc : (slabmemAlloc).run v = (.ok (some v.nextId), { v with ticks := v.ticks + 1, nextId := v.nextId + 1 }) := by
    rw [slabmemAlloc, run_bind_state, run_bind_update, hmem]
    rfl
  have hopened : Opened f d 0 (x.channels v.nextId) := by
    simp only [x, channelInit, Volume.setChannel_self]
    exact ⟨rfl, rfl, rfl, rfl, rfl, rfl, rfl⟩
  rw [channelGet, run_bind_ok halloc]
  dsimp only
  rw [run_bind_update]
  cases d with
  | none => exact ⟨v.nextId, x, rfl, hopened, rfl, rfl, rfl, rfl, rfl, rfl, fun k hk => by cases hk⟩
  | some k =>
    refine ⟨v.nextId, dget k x, rfl, hopened, rfl, rfl, rfl, rfl, rfl, rfl, fun k' hk => ?_⟩
    cases hk
    simp only [dget, Volume.setDentry_self]
    rfl

theorem fatDput_held {d : ℕ} (h : 2 ≤ (v.dentries d).references) : (fatDput d).run v = (.ok (), dput d v) := by
  have hne : ((dput d v).dentries d).references ≠ 0 := by
    simp only [dput, Volume.setDentry_self]
    omega
  rw [fatDput, run_bind_state, dputLoop, run_bind_update, run_bind_state, if_pos hne]
  rfl

theorem filePut_aside (f : ℕ) : ∃ w, (filePut f).run v = (.ok (), w) ∧ w.cache = v.cache ∧ w.geo = v.geo ∧ w.env = v.env ∧
    w.lud = v.lud ∧ ∀ k ∈ w.filesOpen, k ∈ v.filesOpen ∧ (w.files k).info = (v.files k).info := by
  let x := v.setFile f fun x => { x with references := x.references - 1 }
  have hinfo : ∀ k, (x.files k).info = (v.files k).info := by
    intro k
    by_cases hk : k = f
    · rw [hk]
      simp only [x, Volume.setFile_self]
      rfl
    · simp only [x, Volume.setFile_ne hk]
  rw [filePut, run_bind_update]
  by_cases h0 : (x.files f).references = 0
  · refine ⟨{ x with filesOpen := x.filesOpen.erase f }, ?_, rfl, rfl, rfl, rfl, fun k hk => ⟨List.mem_of_mem_erase hk, hinfo k⟩⟩
    rw [run_update, if_pos h0]
  · refine ⟨x, ?_, rfl, rfl, rfl, rfl, fun k hk => ⟨hk, hinfo k⟩⟩
    rw [run_update, if_neg h0]

theorem channelPut_aside (hd : ∀ d, (v.channels c).dentry = some d → 2 ≤ (v.dentries d).references) :
    ∃ w, (channelPut c).run v = (.ok (), w) ∧ w.cache = v.cache ∧ w.geo = v.geo ∧ w.env = v.env ∧ w.lud = v.lud ∧
      ∀ k ∈ w.filesOpen, k ∈ v.filesOpen ∧ (w.files k).info = (v.files k).info := by
  have hput : ∃ x, ((v.channels c).dentry.elim (pure ()) fatDput : FatM Unit).run v = (.ok (), x) ∧ x.cache = v.cache ∧
      x.geo = v.geo ∧ x.env = v.env ∧ x.lud = v.lud ∧ x.files = v.files ∧ x.filesOpen = v.filesOpen := by
    cases hdent : (v.channels c).dentry with
    | none => exact ⟨v, rfl, rfl, rfl, rfl, rfl, rfl, rfl⟩
    | some d => exact ⟨dput d v, fatDput_held (hd d hdent), rfl, rfl, rfl, rfl, rfl, rfl⟩
  obtain ⟨x, hx, hc, hg, he, hl, hf, ho⟩ := hput
  obtain ⟨y, hy, hc', hg', he', hl', hfiles⟩ := filePut_aside (v := x) (v.channels c).f
  refine ⟨freeChannel c y, ?_, hc'.trans hc, hg'.trans hg, he'.trans he, hl'.trans hl, fun k hk => ?_⟩
  · rw [channelPut, run_bind_state, run_bind_ok hx, run_bind_ok hy, run_update]
  · obtain ⟨hmem, hinfo⟩ := hfiles k hk
    rw [ho] at hmem
    rw [hf] at hinfo
    exact ⟨hmem, hinfo⟩

theorem fatClose_aside (hv : Sound v) (hm : (v.channels c).magic = true) (href : (v.channels c).references = 1)
    (hclean : (v.files (v.channels c).f).deChanged = false) (hlinked : (v.files (v.channels c).f).deSector ≠ fatUnlinked)
    (hd : ∀ d, (v.channels c).dentry = some d → 2 ≤ (v.dentries d).references) :
    ∃ w, (fatClose c).run v = (.ok (), w) ∧ Aside v w ∧ w.lud = v.lud := by
  let x := v.setChannel c fun y => { y with references := y.references - 1 }
  have hx : Sound x := hv.of_same rfl rfl
  obtain ⟨y, b, hsync, hy⟩ := fatSync_run hx.media hx.geo.one_lt_device
  have hxc : x.channels c = { v.channels c with references := 0 } := by
    simp only [x, Volume.setChannel_self, href]
  have hfsync : (fatFsync c false).run x = (.ok (), y) := by
    rw [fatFsync, run_bind_state, hxc]
    dsimp only
    rw [if_neg (by rw [hm]; decide), when_neg, run_bind_pure, hsync]
    rintro ⟨-, hch, -⟩
    rw [show (x.files (v.channels c).f).deChanged = false from hclean] at hch
    exact Bool.false_ne_true hch
  have hychan : y.channels = x.channels := hy.channels
  have hyeq := hy.eq
  have hput : ∀ d, (y.channels c).dentry = some d → 2 ≤ (y.dentries d).references := by
    intro d hdent
    rw [hychan, hxc] at hdent
    rw [hyeq]
    exact hd d hdent
  obtain ⟨w, hw, hc, hg, he, hl, hfiles⟩ := channelPut_aside hput
  have hygeo : y.geo = v.geo := hy.geo
  have hyfiles : y.files = v.files ∧ y.filesOpen = v.filesOpen ∧ y.env = v.env ∧ y.lud = v.lud := by
    rw [hyeq]
    exact ⟨rfl, rfl, rfl, rfl⟩
  have hys : Sound y := hy.sound ⟨⟨hx.media.1, hx.media.2, hx.media.3, hx.media.4, hx.media.5⟩, hx.geo⟩
  refine ⟨w, ?_, ⟨hys.of_same hc hg, hg.trans hygeo, ?_, he.trans hyfiles.2.2.1, fun k hk => ?_⟩, hl.trans hyfiles.2.2.2⟩
  · rw [fatClose, run_bind_state]
    dsimp only
    have hopen : ¬((v.channels c).magic = false ∨ (v.channels c).references = 0) := by
      rw [hm, href]
      simp
    have hinner : (do
        Prog.when (((v.channels c).references == 1) = true ∧ (v.files (v.channels c).f).deSector = fatUnlinked)
          (fatDeleteClusters (v.files (v.channels c).f).firstCluster)
        fatFsync c false : FatM Unit).run x = (.ok (), y) := by
      rw [when_neg (fun h => hlinked h.2), run_bind_pure, hfsync]
    rw [if_neg hopen, run_bind_update, run_bind_ok (run_attempt_ok hinner), when_pos (by rw [href]; rfl), run_bind_ok hw]
    rfl
  · exact (byte_of_same hc hg).trans hy.byte
  · obtain ⟨hmem, hinfo⟩ := hfiles k hk
    rw [hyfiles.2.1] at hmem
    rw [hyfiles.1] at hinfo
    exact ⟨hmem, hinfo⟩

def dirSlots (v : Volume) (fixed : Bool) (l : List ℕ) (n : ℕ) : Option Direntry :=
  (placeOf v.geo fixed l (32 * n)).map (slotAt v.byte)

theorem Aside.dirSlots (h : Aside u w) : dirSlots w fixed l = dirSlots u fixed l := by
  funext n
  rw [Fat.dirSlots, Fat.dirSlots, h.geo, h.byte]

theorem dosFind_run (df : FindData) {f : ℕ} {d : Option ℕ} {es : List (ℕ × Direntry)} (h : Listable l fixed s o v)
    (hdf : DirFile l fixed (v.files f).info) (hc : Opened f d (32 * n) (v.channels c))
    (hd : ∀ k, d = some k → 2 ≤ (v.dentries k).references)
    (hl : Lists (dirSlots v fixed l) v.geo.loopBound n v.lud es e) (hes : es.length < v.geo.loopBound) :
    ∃ r w, (dosFind c df).run v = (r, w) ∧ Aside v w ∧
      Outcomes (dirSlots v fixed l) v.geo.loopBound df (l.headD 0) es e r w.lud := by
  have hfile := hc.file
  have hroot : v.atFixedRoot c = fixed := by
    rw [Volume.atFixedRoot, hfile]
    exact hdf.root
  have hopen : OpenDir l c v := by
    refine ⟨h.sound, ⟨h.links, h.range, ?_, .inl hc.start⟩, ?_, ⟨hc.magic, ?_⟩, ?_⟩
    · rw [hfile]
      exact hdf.first
    · rw [hfile]
      exact hdf.dir
    · rw [Channel.isNotReadable, hc.flags]
      decide
    · rw [hc.pointer]
      exact Nat.dvd_mul_right _ _
  have hslot : v.slot l c = dirSlots v fixed l := by
    funext k
    rw [Volume.slot, hroot]
    rfl
  obtain ⟨r, x, hrun, hx, hout⟩ := dosFindLoop_run hopen hc.pointer (by rw [hslot]; exact hl) hes
  have hfirst : (v.files (v.channels c).f).firstCluster = l.headD 0 := by
    rw [hfile]
    exact hdf.first
  rw [hslot, hfirst] at hout
  have hinfo := hx.info c
  have hxf : (x.channels c).f = f := hx.file.trans hfile
  have hclosed : ∃ w, (fatClose c).run x = (.ok (), w) ∧ Aside x w ∧ w.lud = x.lud := by
    apply fatClose_aside hx.sound
    · exact (congrArg ChannelInfo.magic hinfo).trans hc.magic
    · exact (congrArg ChannelInfo.references hinfo).trans hc.references
    · rw [hxf, hx.files]
      exact hdf.clean
    · rw [hxf, hx.files]
      exact hdf.linked
    · intro k hk
      have hdent : (x.channels c).dentry = d := (congrArg ChannelInfo.dentry hinfo).trans hc.dentry
      have hsame : x.dentries = v.dentries := by
        obtain ⟨p, i, j, he⟩ := hx.eq
        rw [he]
        rfl
      rw [hsame]
      exact hd k (hdent.symm.trans hk)
  obtain ⟨w, hw, haside, hlud⟩ := hclosed
  refine ⟨r, w, ?_, hx.aside.trans haside, by rw [hlud]; exact hout⟩
  rw [dosFind, run_bind_state]
  rcases hout with ⟨rfl, -⟩ | ⟨pre, y, post, -, -, -, rfl, -⟩
  · rw [run_bind_ok (run_attempt_error hrun), run_bind_ok (run_attempt_ok hw)]
    rfl
  · rw [run_bind_ok (run_attempt_ok hrun), run_bind_ok (run_attempt_ok hw)]
    rfl

theorem Listable.head_lt (h : Listable l fixed s o v) : l.headD 0 < 2 ^ 32 := by
  cases hl : l with
  | nil => exact Nat.two_pow_pos 32
  | cons k l' =>
    have hk := (h.range k (by rw [hl]; exact List.mem_cons_self)).2
    have := h.sound.geo.dataClusters_lt
    rw [List.headD_cons]
    omega

theorem fatReopenDir_run (h : Listable l fixed 0 0 v) (hfixed : (l.headD 0 == 0) = fixed) (n : ℕ) :
    ∃ c f w, (fatReopenDir (l.headD 0) n).run v = (.ok c, w) ∧ Listable l fixed 0 0 w ∧
      DirFile l fixed (w.files f).info ∧ Opened f none (32 * n) (w.channels c) ∧ w.geo = v.geo ∧ w.byte = v.byte ∧
      w.lud = v.lud := by
  have hfc : (reopenDirentry (l.headD 0)).firstCluster = l.headD 0 := firstCluster_setFirstCluster _ h.head_lt
  have hdir : (reopenDirentry (l.headD 0)).isDir = true := by
    rw [Direntry.isDir, Direntry.attr, reopenDirentry, setFirstCluster_other _ _ (by decide)]
    decide
  obtain ⟨f, x, hx, hlx, hdf, hxeq⟩ := fileGet_dirFile h hdir hfc (by decide) (by rw [hfc]; exact hfixed)
  obtain ⟨c, y, hy, hopened, hc, hg, he, hlud, hf, ho, -⟩ := channelGet_opened hlx.memory f none
  have hyx : Aside x y := ⟨hlx.sound.of_same hc hg, hg, byte_of_same hc hg, he, fun k hk => ⟨ho ▸ hk, by rw [hf]⟩⟩
  let z := y.setChannel c fun x => { x with filePointer := n * 32 }
  have hyz : Aside y z := ⟨hyx.sound.of_same rfl rfl, rfl, rfl, rfl, fun k hk => ⟨hk, rfl⟩⟩
  have hgeo : x.geo = v.geo := by
    rw [hxeq]
  have hbyte : x.byte = v.byte := byte_of_same (by rw [hxeq]) hgeo
  refine ⟨c, f, z, ?_, (hlx.aside hyx).aside hyz, ?_, ?_, hg.trans hgeo, (byte_of_same hc hg).trans hbyte, ?_⟩
  · rw [fatReopenDir, run_bind_ok hx, run_bind_ok hy]
    rfl
  · change DirFile l fixed (y.files f).info
    rw [hf]
    exact hdf
  · simp only [z, Volume.setChannel_self]
    exact ⟨hopened.file, Nat.mul_comm _ _, hopened.magic, hopened.flags, hopened.references, hopened.start,
      hopened.dentry⟩
  · refine hlud.trans ?_
    rw [hxeq]

theorem fatFindnext_run {es : List (ℕ × Direntry)} (h : Listable l fixed 0 0 v) (hfixed : (l.headD 0 == 0) = fixed)
    (hfirst : df.firstDirCluster = l.headD 0)
    (hl : Lists (dirSlots v fixed l) v.geo.loopBound df.entryCount v.lud es e) (hes : es.length < v.geo.loopBound) :
    ∃ r w, (fatFindnext df).run v = (r, w) ∧ Listable l fixed 0 0 w ∧ w.geo = v.geo ∧ w.byte = v.byte ∧
      Outcomes (dirSlots v fixed l) v.geo.loopBound df (l.headD 0) es e r w.lud := by
  obtain ⟨c, f, x, hx, hlx, hdf, hopened, hg, hb, hlud⟩ := fatReopenDir_run h hfixed df.entryCount
  have hslots : dirSlots x fixed l = dirSlots v fixed l := by
    funext k
    rw [dirSlots, dirSlots, hg, hb]
  obtain ⟨r, w, hw, haside, hout⟩ := dosFind_run df hlx hdf hopened (fun k hk => by cases hk)
    (by rw [hslots, hg, hlud]; exact hl) (by rw [hg]; exact hes)
  rw [hslots, hg] at hout
  refine ⟨r, w, ?_, hlx.aside haside, haside.geo.trans hg, haside.byte.trans hb, hout⟩
  rw [fatFindnext, hfirst, run_bind_ok hx]
  exact hw

theorem findRest_run (df : FindData) {es : List (ℕ × Direntry)} (h : Listable l fixed 0 0 v) (hfixed : (l.headD 0 == 0) = fixed)
    (hfirst : df.firstDirCluster = l.headD 0)
    (hl : Lists (dirSlots v fixed l) v.geo.loopBound df.entryCount v.lud es e) (hes : es.length < v.geo.loopBound)
    (hcount : ∀ x ∈ es, x.1 < 65536) (hf : es.length < fuel) :
    ∃ w, (findRest fuel df).run v = (.ok ((es.filter fun x => df.wants x.2).map (df.entry (l.headD 0)), e), w) := by
  induction fuel generalizing v df es with
  | zero => omega
  | succ fuel ih =>
    obtain ⟨r, w, hrun, hlw, hg, hb, hout⟩ := fatFindnext_run h hfixed hfirst hl hes
    rw [findRest]
    rcases hout with ⟨rfl, hnil⟩ | ⟨pre, x, post, rfl, hpre, hx, rfl, hpost⟩
    · refine ⟨w, ?_⟩
      rw [run_bind_ok (run_attempt_error hrun), hnil]
      rfl
    · rw [List.length_append, List.length_cons] at hes hf
      have hmem : x ∈ pre ++ x :: post := List.mem_append_right _ List.mem_cons_self
      have hentry : (df.entry (l.headD 0) x).entryCount = x.1 := Nat.mod_eq_of_lt (hcount x hmem)
      have hslots : dirSlots w fixed l = dirSlots v fixed l := by
        funext k
        rw [dirSlots, dirSlots, hg, hb]
      obtain ⟨y, hy⟩ := ih (df.entry (l.headD 0) x) hlw rfl (by rw [hslots, hg, hentry]; exact hpost)
        (by rw [hg]; omega) (fun z hz => hcount z (List.mem_append_right _ (List.mem_cons_of_mem x hz))) (by omega)
      refine ⟨y, ?_⟩
      rw [run_bind_ok (run_attempt_ok hrun)]
      dsimp only
      rw [run_bind_ok hy, List.filter_append, hpre, List.nil_append, List.filter_cons, if_pos hx, List.map_cons]
      rfl

end Reopen

section First

variable {fixed : Bool} {d : ℕ}

/-- A cached node of the directory with the clusters `l`, which somebody holds. -/
structure DirNode (l : List ℕ) (fixed : Bool) (d : ℕ) (v : Volume) : Prop where
  attr : hasAttr (v.dentries d).attr fatADir = true
  held : 1 ≤ (v.dentries d).references
  root : (v.dentries d).parent = none →
    (v.dentries d).deSector = 0 ∧ (v.dentries d).deEntcnt = 0 ∧ v.geo.rootCluster = l.headD 0
  entry : (v.dentries d).parent ≠ none →
    2 ≤ (v.dentries d).deSector ∧ (v.dentries d).deSector < v.cache.deviceEnd ∧
      (slotAt v.byte ((v.dentries d).info.addr v.geo)).isDir = true ∧
      (slotAt v.byte ((v.dentries d).info.addr v.geo)).firstCluster = l.headD 0
  fixed : ((v.dentries d).deSector == 0 && l.headD 0 == 0) = fixed

theorem DirNode.fetchDirentry_run (h : DirNode l fixed d v) (hv : Sound v) (hlt : l.headD 0 < 2 ^ 32) :
    ∃ de w, (fetchDirentry d).run v = (.ok de, w) ∧ Recached v.byte v w ∧ de.isDir = true ∧
      de.firstCluster = l.headD 0 := by
  rw [fetchDirentry, run_bind_state]
  cases hp : (v.dentries d).parent with
  | none =>
    obtain ⟨-, -, hroot⟩ := h.root hp
    refine ⟨rootDirentry v.geo, v, rfl, .refl hv.media, ?_, ?_⟩
    · rw [Direntry.isDir, Direntry.attr, rootDirentry, setFirstCluster_other _ _ (by decide)]
      decide
    · rw [rootDirentry, hroot, firstCluster_setFirstCluster _ hlt]
  | some p =>
    obtain ⟨-, hdev, hdir, hfirst⟩ := h.entry (by rw [hp]; simp)
    obtain ⟨r, w, hrun, hw, hseat, -, -⟩ := fatReadbuf_run hv.media hdev none (by simp)
    have hmod : (v.dentries d).secofs v.geo < w.geo.bytesPerSector := by
      rw [hw.geo]
      exact Nat.mod_lt _ (bytesPerSector_pos _)
    have hfit : (v.dentries d).secofs v.geo + 32 ≤ w.geo.bytesPerSector := by
      rw [hw.geo]
      exact hv.geo.slot_fits (Nat.dvd_mul_left _ _)
    have hbytes := run_bufBytes hseat hw.media hmod hfit
    rw [hw.byte, hw.geo] at hbytes
    refine ⟨Direntry.ofBytes (bytesAt v.byte ((v.dentries d).info.addr v.geo) 32), w, ?_, hw, hdir, hfirst⟩
    dsimp only
    rw [run_bind_ok hrun, run_bind_ok hbytes]
    rfl

theorem Recached.aside (h : Recached v.byte v w) (hv : Sound v) : Aside v w := by
  refine ⟨h.sound hv, h.geo, h.byte, ?_, fun f hf => ?_⟩
  · rw [h.eq]
    rfl
  · have heq := h.eq
    rw [heq] at hf ⊢
    exact ⟨hf, rfl⟩

/-- The place of the entry of a cached node, by which `file_get` finds files without clusters. -/
abbrev ListableNode (l : List ℕ) (fixed : Bool) (d : ℕ) (v : Volume) : Prop :=
  Listable l fixed (v.dentries d).deSector ((v.dentries d).secofs v.geo) v

theorem fatOpen_opened (h : ListableNode l fixed d v) (hn : DirNode l fixed d v) :
    ∃ c f w, (fatOpen d (oRdonly ||| oDirectory)).run v = (.ok c, w) ∧
      Listable l fixed (v.dentries d).deSector ((v.dentries d).secofs v.geo) w ∧ DirFile l fixed (w.files f).info ∧
      Opened f (some d) (32 * 0) (w.channels c) ∧ w.geo = v.geo ∧ w.byte = v.byte ∧ w.lud = v.lud ∧
      2 ≤ (w.dentries d).references := by
  obtain ⟨de, x, hx, hrx, hdir, hfirst⟩ := hn.fetchDirentry_run h.sound h.head_lt
  have hsector : (v.dentries d).deSector ≠ fatUnlinked := by
    by_cases hp : (v.dentries d).parent = none
    · rw [(hn.root hp).1]
      decide
    · have := (hn.entry hp).1
      unfold fatUnlinked
      omega
  have hax := hrx.aside h.sound
  obtain ⟨f, y, hy, hly, hdf, hyeq⟩ := fileGet_dirFile (h.aside hax) hdir hfirst hsector
    (by rw [hfirst]; exact hn.fixed)
  obtain ⟨c, z, hz, hopened, hc, hg, he, hlud, hf, ho, href⟩ := channelGet_opened hly.memory f (some d)
  have hyz : Aside y z := ⟨hly.sound.of_same hc hg, hg, byte_of_same hc hg, he, fun k hk => ⟨ho ▸ hk, by rw [hf]⟩⟩
  have hgy : y.geo = x.geo := by rw [hyeq]
  have hby : y.byte = x.byte := byte_of_same (by rw [hyeq]) hgy
  have hdeny : (v.dentries d).denies (oRdonly ||| oDirectory) = none := by
    have hflags : (hasFlag (oRdonly ||| oDirectory) oWronly || hasFlag (oRdonly ||| oDirectory) oRdwr ||
        hasFlag (oRdonly ||| oDirectory) oTrunc) = false := by decide
    simp only [Dentry.denies, hflags, hn.attr]
    rfl
  have hlx : x.lud = v.lud ∧ x.dentries = v.dentries := by
    rw [hrx.eq]
    exact ⟨rfl, rfl⟩
  have hly' : y.lud = x.lud ∧ y.dentries = x.dentries := by
    rw [hyeq]
    exact ⟨rfl, rfl⟩
  refine ⟨c, f, z, ?_, hly.aside hyz, ?_, hopened, hg.trans (hgy.trans hrx.geo),
    (byte_of_same hc hg).trans (hby.trans hrx.byte), hlud.trans (hly'.1.trans hlx.1), ?_⟩
  · rw [fatOpen, run_bind_state, hdeny]
    dsimp only
    rw [run_bind_ok hx, run_bind_ok hy, run_bind_ok hz]
    rfl
  · rw [hf]
    exact hdf
  · have := href d rfl
    have := hn.held
    rw [hly'.2, hlx.2] at *
    omega

/-- Where something has been found, the directory is found again by its first cluster alone. -/
theorem DirNode.reopen (hn : DirNode l fixed d v) (h : Listable l fixed (v.dentries d).deSector
    ((v.dentries d).secofs v.geo) w) {n' : ℕ} (hs : dirSlots v fixed l n' = some de) :
    Listable l fixed 0 0 w ∧ (l.headD 0 == 0) = fixed := by
  have hfixed := hn.fixed
  by_cases h0 : l.headD 0 = 0
  · have hnil : l = [] := by
      cases hl : l with
      | nil => rfl
      | cons k l' =>
        have hk := (h.range k (by rw [hl]; exact List.mem_cons_self)).1
        rw [hl, List.headD_cons] at h0
        omega
    have htrue : fixed = true := by
      cases hf : fixed with
      | true => rfl
      | false =>
        rw [dirSlots, placeOf, hf, hnil] at hs
        simp at hs
    rw [htrue, Bool.and_eq_true, beq_iff_eq] at hfixed
    have hroot : (v.dentries d).parent = none := by
      by_contra hp
      have := (hn.entry hp).1
      omega
    have hofs : (v.dentries d).secofs v.geo = 0 := by
      rw [Dentry.secofs, (hn.root hroot).2.1, Nat.zero_mul, Nat.zero_mod]
    rw [hfixed.1, hofs] at h
    exact ⟨h, by rw [htrue]; exact hfixed.2⟩
  · have hfalse : (l.headD 0 == 0) = false := beq_eq_false_iff_ne.mpr h0
    rw [hfalse, Bool.and_false] at hfixed
    refine ⟨⟨h.sound, h.links, h.range, fun f hf hkey => h.files f hf ?_, h.memory⟩, by rw [hfalse, hfixed]⟩
    rw [if_pos h0] at hkey ⊢
    exact hkey

section

variable {fn past template : List UInt8} {attr : UInt8} {df' : FindData}
  (htemplate : fatBuildFcbName fn past true = .ok (template, 0)) (hopen : (fatOpen d (oRdonly ||| oDirectory)).run v = (.ok c, u))

include htemplate hopen

theorem fatFindfirst_ok (h : (dosFind c { df with searchTemplate := template, searchAttr := attr }).run u = (.ok df', w)) :
    (fatFindfirst d fn past attr df).run v = (.ok df', w) := by
  have htemp : (Prog.ofExcept (fatBuildFcbName fn past true) : FatM (List UInt8 × ℕ)).run v = (.ok (template, 0), v) := by
    rw [htemplate]
    rfl
  rw [fatFindfirst, run_bind_ok htemp]
  dsimp only
  rw [if_neg (by decide), run_bind_ok hopen, run_bind_ok (run_attempt_ok h)]
  rfl

theorem fatFindfirst_error (h : (dosFind c { df with searchTemplate := template, searchAttr := attr }).run u = (.error e, w)) :
    (fatFindfirst d fn past attr df).run v = (.error (if e = .enmfile then .enoent else e), w) := by
  have htemp : (Prog.ofExcept (fatBuildFcbName fn past true) : FatM (List UInt8 × ℕ)).run v = (.ok (template, 0), v) := by
    rw [htemplate]
    rfl
  rw [fatFindfirst, run_bind_ok htemp]
  dsimp only
  rw [if_neg (by decide), run_bind_ok hopen, run_bind_ok (run_attempt_error h)]
  cases e <;> rfl

end

/-- A whole search, of a directory of `size` slots, gives what reading the directory without a break gives:
those of its live entries that the search is for, all of them unless one is rejected for its names. -/
theorem findAll_live {size : ℕ} {fn past template : List UInt8} (h : ListableNode l fixed d v) (hn : DirNode l fixed d v)
    (hend : dirSlots v fixed l size = none) (hsize : size < 65536) (hbound : size < v.geo.loopBound)
    (htemplate : fatBuildFcbName fn past true = .ok (template, 0)) (attr : UInt8) (df : FindData) :
    ∃ es e rest w, Lists (dirSlots v fixed l) v.geo.loopBound 0 v.lud es e ∧
      live (dirSlots v fixed l) size 0 = es ++ rest ∧
      ((e = .enmfile ∧ rest = []) ∨ (e ∈ rejections ∧ rest ≠ [])) ∧
      let search : FindData := { df with searchTemplate := template, searchAttr := attr }
      let found := (es.filter fun x => search.wants x.2).map (search.entry (l.headD 0))
      (findAll d fn past attr df).run v = (.ok (found, if found = [] ∧ e = .enmfile then .enoent else e), w) := by
  have hend' : dirSlots v fixed l (0 + size) = none := by
    rw [Nat.zero_add]
    exact hend
  obtain ⟨es, e, rest, hlists, hlive, hcase⟩ := exists_lists hend' hbound v.lud
  let search : FindData := { df with searchTemplate := template, searchAttr := attr }
  obtain ⟨c, f, x, hx, hlx, hdf, hopened, hg, hb, hlud, href⟩ := fatOpen_opened h hn
  have hslots : dirSlots x fixed l = dirSlots v fixed l := by
    funext k
    rw [dirSlots, dirSlots, hg, hb]
  have hlen : es.length ≤ size := by
    have := length_live (dirSlots v fixed l) size 0
    rw [hlive, List.length_append] at this
    omega
  have hmem : ∀ y ∈ es, ∃ n', y.1 = n' + 1 ∧ n' < size ∧ dirSlots v fixed l n' = some y.2 := by
    intro y hy
    obtain ⟨n', h1, h2, h3⟩ := mem_live (hlive ▸ List.mem_append_left rest hy)
    exact ⟨n', h1, by omega, h3⟩
  obtain ⟨r, w, hw, haside, hout⟩ := dosFind_run search hlx hdf hopened
    (fun k hk => by cases hk; exact href) (by rw [hslots, hg, hlud]; exact hlists) (by rw [hg]; omega)
  rw [hslots, hg] at hout
  rcases hout with ⟨rfl, hnil⟩ | ⟨pre, y, post, rfl, hpre, hy, rfl, hpost⟩
  · refine ⟨es, e, rest, w, hlists, hlive, hcase, ?_⟩
    dsimp only
    rw [findAll, run_bind_state, show (es.filter fun x => search.wants x.2) = [] from hnil, List.map_nil,
      run_bind_ok (run_attempt_error (fatFindfirst_error htemplate hx hw))]
    simp only [true_and]
    rfl
  · have hy' : y ∈ pre ++ y :: post := List.mem_append_right _ List.mem_cons_self
    obtain ⟨n', hn', -, hs⟩ := hmem y hy'
    have hlw := hlx.aside haside
    obtain ⟨hlw0, hfixed⟩ := hn.reopen hlw hs
    have hgw : w.geo = v.geo := haside.geo.trans hg
    have hslots' : dirSlots w fixed l = dirSlots v fixed l := haside.dirSlots.trans hslots
    rw [List.length_append, List.length_cons] at hlen
    have hcount : ∀ z ∈ pre ++ y :: post, z.1 < 65536 := by
      intro z hz
      obtain ⟨m, hm, hlt, -⟩ := hmem z hz
      omega
    have hentry : (search.entry (l.headD 0) y).entryCount = y.1 := Nat.mod_eq_of_lt (hcount y hy')
    have hleft : post.length < v.geo.loopBound := by omega
    obtain ⟨z, hz⟩ := findRest_run (search.entry (l.headD 0) y) hlw0 hfixed rfl
      (by rw [hslots', hgw, hentry]; exact hpost) (by rw [hgw]; exact hleft)
      (fun q hq => hcount q (List.mem_append_right _ (List.mem_cons_of_mem y hq))) hleft
    refine ⟨pre ++ y :: post, e, rest, z, hlists, hlive, hcase, ?_⟩
    dsimp only
    have hfound : ((pre ++ y :: post).filter fun x => search.wants x.2) = y :: post.filter fun x => search.wants x.2 := by
      rw [List.filter_append, hpre, List.nil_append, List.filter_cons, if_pos hy]
    rw [findAll, run_bind_state, run_bind_ok (run_attempt_ok (fatFindfirst_ok htemplate hx hw))]
    dsimp only
    rw [run_bind_ok hz, hfound, List.map_cons, if_neg (by simp)]
    rfl

end First

def shortEntry (c : UInt8) : Direntry := Direntry.ofBytes [c, 0x20, 0x20, 0x20, 0x20, 0x20, 0x20, 0x20, 0x54, 0x58, 0x54, 0x20]

def rootVolume (des : List Direntry) : Volume := freshVolume floppyGeometry quietEnv
  (fun s i => if s = 3 then (des.flatMap Direntry.toBytes).getD i 0 else 0) 10 6

theorem rootVolume_listable (des : List Direntry) : ListableNode [] true 0 (rootVolume des) where
  sound := Sound.of_same ⟨freshVolume_mediaOk floppyGeometry quietEnv _ 10 6, floppyGeometry_geoOk⟩ rfl rfl
  links := trivial
  range := by simp
  files := fun f hf => by simp [rootVolume, freshVolume] at hf
  memory := fun _ => rfl

theorem rootVolume_dirNode (des : List Direntry) : DirNode [] true 0 (rootVolume des) where
  attr := show hasAttr fatADir fatADir = true by decide
  held := le_refl 1
  root := fun _ => ⟨rfl, rfl, rfl⟩
  entry := fun h => absurd rfl h
  fixed := rfl

def anyName : List UInt8 := [0x2A, 0x2E, 0x2A]

def anyFile : FindData where
  searchTemplate := List.replicate 11 0x3F
  searchAttr := 0
  entryCount := 0
  firstDirCluster := 0
  attr := 0
  mTime := 0
  mDate := 0
  size := 0
  name := []

def twoFiles : Volume := rootVolume [shortEntry 0x41, shortEntry fatFreeent, shortEntry 0x42]

theorem findAll_live_two : ∃ w, (findAll 0 anyName [0] 0 anyFile).run twoFiles =
    (.ok ((live (dirSlots twoFiles true []) 16 0).map (anyFile.entry 0), .enmfile), w) := by
  obtain ⟨es, e, rest, w, -, hlive, hcase, hrun⟩ := findAll_live
    (show ListableNode [] true 0 twoFiles from rootVolume_listable _) (rootVolume_dirNode _)
    (show dirSlots twoFiles true [] 16 = none by decide) (by decide) (by decide)
    (show fatBuildFcbName anyName [0] true = .ok (List.replicate 11 0x3F, 0) from rfl) 0 anyFile
  have hval : ((findAll 0 anyName [0] 0 anyFile).run twoFiles).1 =
      .ok ([anyFile.entry 0 (1, shortEntry 0x41), anyFile.entry 0 (3, shortEntry 0x42)], .enmfile) := by decide +kernel
  have hwants : ∀ x ∈ live (dirSlots twoFiles true []) 16 0, anyFile.wants x.2 = true := by decide +kernel
  have hrun' : (findAll 0 anyName [0] 0 anyFile).run twoFiles = _ := hrun
  rw [hrun'] at hval
  obtain ⟨hfound, hlast⟩ := Prod.mk.inj (Outcome.ok.inj hval)
  rw [if_neg (by rw [hfound]; simp)] at hrun' hlast
  subst hlast
  have hrest : rest = [] := by
    rcases hcase with ⟨-, h⟩ | ⟨h, -⟩
    · exact h
    · exact absurd h (by decide)
  have hes : live (dirSlots twoFiles true []) 16 0 = es := by
    rw [hrest, List.append_nil] at hlive
    exact hlive
  rw [hes] at hwants ⊢
  have hall : (es.filter fun x => anyFile.wants x.2) = es := List.filter_eq_self.mpr hwants
  exact ⟨w, hrun'.trans (congrArg (fun l => (Outcome.ok (l.map (anyFile.entry 0), Errno.enmfile), w)) hall)⟩

theorem findAll_surrogate :
    let v := rootVolume [shortEntry 0x41, Direntry.ofBytes
      ([0x41, 0x00, 0xD8, 0x41, 0x00, 0x00, 0x00, 0xFF, 0xFF, 0xFF, 0xFF, 0x0F, 0x00,
        UInt8.ofNat (lfnChecksum (shortEntry 0x42).name)] ++ List.replicate 18 0), shortEntry 0x42]
    ((live (dirSlots v true []) 16 0).map fun x => (x.1, anyFile.wants x.2)) = [(1, true), (3, true)] ∧
      ((findAll 0 anyName [0] 0 anyFile).run v).1 = .ok ([anyFile.entry 0 (1, shortEntry 0x41)], .eilseq) := by
  decide +kernel

end FreeDos32.Fat
