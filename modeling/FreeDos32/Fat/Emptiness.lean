import FreeDos32.Fat.Scan

namespace FreeDos32.Fat

open Prog

variable {slot : ℕ → Option Direntry} {v w : Volume} {l : List ℕ} {c n k fuel : ℕ} {de : Direntry}

/-- The slot is an entry for a file or a directory. -/
def Direntry.InUse (de : Direntry) : Prop :=
  hasAttr de.attr fatAVolid = false ∧ de 0 ≠ fatFreeent ∧ de 0 ≠ fatEndofdir

/-- From slot `n` on there is an entry in use, and no end mark before it. -/
def Occupied (slot : ℕ → Option Direntry) (n : ℕ) : Prop :=
  ∃ m ≥ n, (∃ de, slot m = some de ∧ de.InUse) ∧
    ∀ i, n ≤ i → i < m → ∀ de, slot i = some de → de 0 ≠ fatEndofdir

/-- From slot `n` on there is an end mark. -/
def EndMarked (slot : ℕ → Option Direntry) (n : ℕ) : Prop := ∃ m ≥ n, ∃ de, slot m = some de ∧ de 0 = fatEndofdir

theorem Direntry.Live.inUse (h : de.Live) : de.InUse := ⟨h.2.2.1, h.1, h.2.1⟩

theorem occupied_of_inUse (hs : slot n = some de) (h : de.InUse) : Occupied slot n :=
  ⟨n, Nat.le_refl n, ⟨de, hs, h⟩, fun _ hle hlt => absurd hle (Nat.not_le_of_lt hlt)⟩

theorem endMarked_of_end (hs : slot n = some de) (h : de 0 = fatEndofdir) : EndMarked slot n :=
  ⟨n, Nat.le_refl n, de, hs, h⟩

theorem not_occupied_of_end (hs : slot n = some de) (h : de 0 = fatEndofdir) : ¬Occupied slot n := by
  rintro ⟨m, hm, ⟨e, he, huse⟩, hbefore⟩
  rcases Nat.lt_or_eq_of_le hm with hlt | rfl
  · exact hbefore n (Nat.le_refl n) hlt de hs h
  · rw [hs] at he
    cases he
    exact huse.2.2 h

theorem not_occupied_of_none (hs : ∀ m ≥ n, slot m = none) : ¬Occupied slot n := by
  rintro ⟨m, hm, ⟨e, he, -⟩, -⟩
  rw [hs m hm] at he
  cases he

theorem not_endMarked_of_none (hs : ∀ m ≥ n, slot m = none) : ¬EndMarked slot n := by
  rintro ⟨m, hm, e, he, -⟩
  rw [hs m hm] at he
  cases he

theorem occupied_succ (hs : slot n = some de) (h : ¬de.InUse) (hend : de 0 ≠ fatEndofdir) :
    Occupied slot n ↔ Occupied slot (n + 1) := by
  constructor
  · rintro ⟨m, hm, ⟨e, he, huse⟩, hbefore⟩
    rcases Nat.lt_or_eq_of_le hm with hlt | rfl
    · exact ⟨m, hlt, ⟨e, he, huse⟩, fun i hi => hbefore i (Nat.le_of_succ_le hi)⟩
    · rw [hs] at he
      cases he
      exact absurd huse h
  · rintro ⟨m, hm, huse, hbefore⟩
    refine ⟨m, Nat.le_of_succ_le hm, huse, fun i hi hlt e he => ?_⟩
    rcases Nat.lt_or_eq_of_le hi with hi' | rfl
    · exact hbefore i hi' hlt e he
    · rw [hs] at he
      cases he
      exact hend

theorem endMarked_succ (hs : slot n = some de) (hend : de 0 ≠ fatEndofdir) :
    EndMarked slot n ↔ EndMarked slot (n + 1) := by
  constructor
  · rintro ⟨m, hm, e, he, h⟩
    rcases Nat.lt_or_eq_of_le hm with hlt | rfl
    · exact ⟨m, hlt, e, he, h⟩
    · rw [hs] at he
      cases he
      exact absurd h hend
  · rintro ⟨m, hm, h⟩
    exact ⟨m, Nat.le_of_succ_le hm, h⟩

theorem placeOf_none {g : Geometry} {fixed : Bool} {pos pos' : ℕ} (h : placeOf g fixed l pos = none) (hle : pos ≤ pos') :
    placeOf g fixed l pos' = none := by
  unfold placeOf at h ⊢
  cases fixed with
  | true =>
    rw [if_pos rfl] at h ⊢
    rw [ite_eq_right_iff] at h ⊢
    intro hlt
    exact absurd (h (Nat.lt_of_le_of_lt hle hlt)) (Option.some_ne_none _)
  | false =>
    simp only [Bool.false_eq_true, if_false, Option.map_eq_none_iff, List.getElem?_eq_none_iff] at h ⊢
    exact Nat.le_trans h (Nat.div_le_div_right hle)

theorem slot_none (h : v.slot l c n = none) {m : ℕ} (hm : n ≤ m) : v.slot l c m = none := by
  unfold Volume.slot at h ⊢
  rw [Option.map_eq_none_iff] at h ⊢
  exact placeOf_none h (Nat.mul_le_mul_left 32 hm)

theorem OpenDir.read (h : OpenDir l c v) (hp : (v.channels c).filePointer = 32 * n) :
    ∃ w, (fatRead c 32).run v = (.ok ((v.slot l c n).elim [] Direntry.toBytes), w) ∧ Browsed c v w ∧ OnChain l c w ∧
      (v.slot l c n ≠ none → OpenDir l c w ∧ (w.channels c).filePointer = 32 * (n + 1)) := by
  obtain ⟨w, hrun, hw, -, hon, hfp, -⟩ := fatRead_run h.sound h.chain h.dir h.reads h.aligned
  rw [hp, slotBytes_eq] at hrun hfp
  refine ⟨w, hrun, hw, hon, fun hsome => ?_⟩
  obtain ⟨de, hde⟩ := Option.ne_none_iff_exists'.mp hsome
  have hnext : (w.channels c).filePointer = 32 * (n + 1) := by
    rw [hfp, hde]
    exact congrArg (32 * n + ·) (length_toBytes de)
  exact ⟨h.browsed hw hon (by rw [hnext]; exact Nat.dvd_mul_right ..), hnext⟩

theorem expectEntry_run (h : OpenDir l c v) (hp : (v.channels c).filePointer = 32 * n) (hs : v.slot l c n = some de) :
    ∃ w, (expectEntry c de.name).run v = (.ok (), w) ∧ Browsed c v w ∧ OpenDir l c w ∧
      (w.channels c).filePointer = 32 * (n + 1) := by
  obtain ⟨w, hrun, hw, -, hnext⟩ := h.read hp
  obtain ⟨hopen, hfp⟩ := hnext (by rw [hs]; exact Option.some_ne_none de)
  have hbytes : (fatRead c 32).run v = (.ok de.toBytes, w) := by
    rw [hrun, hs]
    rfl
  refine ⟨w, ?_, hw, hopen, hfp⟩
  rw [expectEntry, run_bind_ok hbytes, if_neg]
  · rfl
  · rintro (hlen | hname)
    · exact hlen (length_toBytes de)
    · exact hname rfl

/-- What the scan of `directory_is_empty` from slot `n` on finds. -/
def Finding (slot : ℕ → Option Direntry) (n : ℕ) (r : Outcome Errno Unit) : Prop :=
  (Occupied slot n → r = .error .enotempty) ∧ (¬Occupied slot n → EndMarked slot n → r = .ok ()) ∧
    (¬Occupied slot n → ¬EndMarked slot n → r = .error .eio)

theorem expectFree_run (h : OpenDir l c v) (hp : (v.channels c).filePointer = 32 * n) (hend : v.slot l c (n + k) = none)
    (hk : k < fuel) :
    ∃ r w, (expectFree c fuel).run v = (r, w) ∧ Browsed c v w ∧ OnChain l c w ∧ Finding (v.slot l c) n r := by
  induction fuel generalizing v n k with
  | zero => exact absurd hk (Nat.not_lt_zero k)
  | succ fuel ih =>
    obtain ⟨w, hrun, hw, hon, hnext⟩ := h.read hp
    cases hs : v.slot l c n with
    | none =>
      have hall : ∀ m ≥ n, v.slot l c m = none := fun m hm => slot_none hs hm
      have hbytes : (fatRead c 32).run v = (.ok [], w) := by
        rw [hrun, hs]
        rfl
      refine ⟨.error .eio, w, ?_, hw, hon, fun ho => absurd ho (not_occupied_of_none hall),
        fun _ he => absurd he (not_endMarked_of_none hall), fun _ _ => rfl⟩
      rw [expectFree, run_bind_ok hbytes, if_pos (by decide)]
      rfl
    | some de =>
      obtain ⟨hopen, hfp⟩ := hnext (by rw [hs]; exact Option.some_ne_none de)
      have hlen : ¬de.toBytes.length ≠ 32 := fun hne => hne (length_toBytes de)
      have hfirst : Direntry.ofBytes de.toBytes 0 = de 0 := rfl
      have hattr : (Direntry.ofBytes de.toBytes).attr = de.attr := rfl
      have hbytes : (fatRead c 32).run v = (.ok de.toBytes, w) := by
        rw [hrun, hs]
        rfl
      rw [expectFree, run_bind_ok hbytes, if_neg hlen]
      dsimp only
      rw [hfirst, hattr]
      by_cases hmark : de 0 = fatEndofdir
      · refine ⟨.ok (), w, ?_, hw, hon, fun ho => absurd ho (not_occupied_of_end hs hmark), fun _ _ => rfl,
          fun _ hno => absurd (endMarked_of_end hs hmark) hno⟩
        rw [if_pos hmark]
        rfl
      · rw [if_neg hmark]
        by_cases huse : de.InUse
        · refine ⟨.error .enotempty, w, ?_, hw, hon, fun _ => rfl, fun hno => absurd (occupied_of_inUse hs huse) hno,
            fun hno => absurd (occupied_of_inUse hs huse) hno⟩
          rw [if_pos ⟨huse.1, huse.2.1⟩]
          rfl
        · rw [if_neg fun hc => huse ⟨hc.1, hc.2, hmark⟩]
          obtain ⟨j, rfl⟩ : ∃ j, k = j + 1 := by
            refine Nat.exists_eq_succ_of_ne_zero fun h0 => ?_
            rw [h0, Nat.add_zero, hs] at hend
            cases hend
          rw [← hw.slot] at hend
          obtain ⟨r, x, hrest, hx, hon', hfind⟩ := ih hopen hfp (k := j) (by rw [← hend]; congr 1; omega) (by omega)
          refine ⟨r, x, hrest, hw.trans hx, hon', ?_⟩
          rw [hw.slot] at hfind
          unfold Finding at hfind ⊢
          rwa [occupied_succ hs huse hmark, endMarked_succ hs hmark]

theorem directoryIsEmpty_run {dot dotdot : Direntry} (h : OpenDir l c v) (hp : (v.channels c).filePointer = 0)
    (h0 : v.slot l c 0 = some dot) (h1 : v.slot l c 1 = some dotdot) (hdot : dot.name = dotName)
    (hdotdot : dotdot.name = dotdotName) (hend : v.slot l c (2 + k) = none) (hk : k < v.geo.loopBound) :
    ∃ r w, (directoryIsEmpty c).run v = (r, w) ∧ Browsed c v w ∧ OnChain l c w ∧ Finding (v.slot l c) 2 r := by
  obtain ⟨u, hrun, hu, hopen, hfp⟩ := expectEntry_run h (n := 0) hp h0
  rw [← hu.slot] at h1
  obtain ⟨w, hrun', hw, hopen', hfp'⟩ := expectEntry_run hopen hfp h1
  have hvw := hu.trans hw
  obtain ⟨r, x, hrest, hx, hon, hfind⟩ := expectFree_run hopen' hfp' (by rw [hvw.slot]; exact hend) hk
  rw [hvw.slot] at hfind
  refine ⟨r, x, ?_, hvw.trans hx, hon, hfind⟩
  rw [directoryIsEmpty, ← hdot, run_bind_ok hrun, ← hdotdot, run_bind_ok hrun', run_bind_state, hvw.geo]
  exact hrest

/-- The contents of a subdirectory: its entries for itself and its parent come first, and behind an end mark nothing is
in use. -/
structure SubdirOk (slot : ℕ → Option Direntry) : Prop where
  dot : ∃ de, slot 0 = some de ∧ de.name = dotName
  dotdot : ∃ de, slot 1 = some de ∧ de.name = dotdotName
  past : ∀ i m, i < m → ∀ d e, slot i = some d → slot m = some e → d 0 = fatEndofdir → ¬e.InUse

theorem SubdirOk.not_live (h : SubdirOk slot) (hno : ¬Occupied slot 2) (hs : slot n = some de) : ¬de.Live := by
  intro hlive
  obtain ⟨x, hx, hdot⟩ := h.dot
  obtain ⟨y, hy, hdotdot⟩ := h.dotdot
  rcases Nat.lt_or_ge n 2 with hn | hn
  · rcases Nat.le_one_iff_eq_zero_or_eq_one.mp (Nat.le_of_lt_succ hn) with rfl | rfl
    · rw [hx] at hs
      cases hs
      exact hlive.2.2.2.1 hdot
    · rw [hy] at hs
      cases hs
      exact hlive.2.2.2.2 hdotdot
  · refine hno ⟨n, hn, ⟨de, hs, hlive.inUse⟩, fun i _ hlt d hd hmark => ?_⟩
    exact h.past i n hlt d de hd hs hmark hlive.inUse

end FreeDos32.Fat
