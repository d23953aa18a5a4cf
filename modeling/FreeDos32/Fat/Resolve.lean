import FreeDos32.Fat.Lookup
import FreeDos32.Fat.Pathreso
import FreeDos32.Fat.RefsRuns
import FreeDos32.Fat.WriteLaw

namespace FreeDos32.Fat

open Prog Unicode

variable {G : Layout} {v w : Volume} {hd hf : ℕ → ℕ} {cs p : List ℕ} {fn pn : List UInt8} {d fuel : ℕ}

def walkErrno : WalkError → Errno
  | .notDir => .enotdir
  | .noEntry => .enoent

/-- The components of a pathname. -/
def components (p : List ℕ) : List (Component (List ℕ)) := (pathParts 0x5C p).map component

theorem component_cases (cs : List ℕ) : (component cs = .here ∧ (cs = [] ∨ cs = [0x2E])) ∨
    (component cs = .up ∧ cs = [0x2E, 0x2E]) ∨ component cs = .name cs := by
  unfold component
  by_cases h1 : cs = [] ∨ cs = [0x2E]
  · exact .inl ⟨if_pos h1, h1⟩
  · rw [if_neg h1]
    by_cases h2 : cs = [0x2E, 0x2E]
    · exact .inr (.inl ⟨if_pos h2, h2⟩)
    · exact .inr (.inr (if_neg h2))

section Step

theorem utf8_dots (n : ℕ) : Utf8 (List.replicate n 0x2E) (List.replicate n 0x2E) := by
  induction n with
  | zero => rfl
  | succ n ih => exact encodeAll_cons (x := [0x2E]) rfl ih

/-- What a component leads to, as the tree says. -/
def Takes (G : Layout) (hd hf : ℕ → ℕ) (v : Volume) (d : ℕ) (x : Except WalkError ℕ) (out : Outcome Errno ℕ × Volume) :
    Prop :=
  match x with
  | .ok a => ∃ d' w, out = (.ok d', w) ∧ Stepped G hd hf v d' w ∧ (books w).nodeAddr d' = a
  | .error e => ∃ w, out = (.error (walkErrno e), w) ∧ Stepped G hd hf v d w

theorem fatLookup_run (h : Walking G hd hf d v) (hs : G.Settled) (hn : G.named) (hfn : Utf8 cs fn) :
    Takes G hd hf v d ((G.tree v).looseStep ((books v).nodeAddr d) (component cs)) ((fatLookup d fn).run v) := by
  rcases component_cases cs with ⟨hc, hcs⟩ | ⟨hc, hcs⟩ | hc
  · have hfn' : fn = [] ∨ fn = [0x2E] := hcs.imp (Utf8.eq_iff (utf8_dots 0) hfn).mpr (Utf8.eq_iff (utf8_dots 1) hfn).mpr
    rw [hc, fatLookup_here h hs hfn', PathTree.looseStep, PathTree.step]
    by_cases ha : (G.tree v).isDir ((books v).nodeAddr d) = true
    · rw [if_pos ha, if_pos ha]
      exact ⟨d, v, rfl, ⟨h, rfl⟩, rfl⟩
    · rw [if_neg ha, if_neg ha]
      exact ⟨v, rfl, ⟨h, rfl⟩⟩
  · obtain rfl : fn = [0x2E, 0x2E] := (Utf8.eq_iff (utf8_dots 2) hfn).mpr hcs
    obtain ⟨q, w, hrun, hw, haddr⟩ := fatLookup_up h hs
    rw [hc, hrun, PathTree.looseStep]
    exact ⟨q, w, rfl, hw, haddr⟩
  · rw [hc, PathTree.looseStep, PathTree.step]
    by_cases ha : (G.tree v).isDir ((books v).nodeAddr d) = true
    · obtain ⟨r, w, hrun, hex, htidy, htree, hres⟩ := fatLookup_name h hs hfn hn (tree_isDir.mp ha) hc
      rw [if_pos ha, hrun]
      rw [LooksUp] at hres
      cases hchild : (G.tree v).child ((books v).nodeAddr d) cs with
      | none =>
        rw [hchild] at hres
        obtain ⟨hr, hcounts, -⟩ := hres
        exact ⟨w, by rw [hr]; rfl, ⟨htidy, hcounts, hex⟩, htree⟩
      | some q =>
        rw [hchild] at hres
        obtain ⟨d', hr, hcounts, haddr⟩ := hres
        exact ⟨d', w, by rw [hr], ⟨⟨htidy, hcounts, hex⟩, htree⟩, haddr⟩
    · rw [if_neg ha, fatLookup_notDir h hs hfn (fun hdir => ha (tree_isDir.mpr hdir)) hc]
      exact ⟨v, rfl, ⟨h, rfl⟩⟩

end Step

section Letter

/-- A root directory with the file "A". -/
def letterRoot : Volume := dget rootDentry (freshVolume letterGeometry quietEnv letterDevice 10 5)

def letterNames : Layout := { letterLayout with named := True, name := fun p i => letterBytes (p + i) }

def letterSlot : Entry := ⟨0, slotAt letterBytes 1536, []⟩

theorem letterRoot_byte : letterRoot.byte = letterBytes := rfl

theorem letterRoot_addr : (books letterRoot).nodeAddr rootDentry = 0 := by
  change (⟨none, 0, 0, fatADir, 0⟩ : NodeInfo).addr letterGeometry = 0
  rfl

theorem letterRoot_tidy : Tidy letterNames letterRoot where
  sound := Sound.of_same (letterVolume_sound 0 0) rfl rfl
  order := by
    have hentries : Entries letterNames letterGeometry letterBytes :=
      ⟨letter_entries.root, letter_entries.slots, letter_entries.linked, letter_entries.inside, letter_entries.size⟩
    have hfiles : FilesOk letterNames (books letterRoot) letterBytes := by
      refine ⟨by rintro f ⟨⟩, by rintro f ⟨⟩, rfl, ?_⟩
      rintro p (rfl | rfl) h0 - -
      · exact absurd rfl h0
      · exact ⟨by decide, fun _ _ => by decide⟩
    have hnodes : NodesOk letterNames (books letterRoot) letterBytes :=
      ⟨by rintro d ⟨⟩, by rintro d ⟨⟩, ⟨rfl, rfl, rfl, rfl⟩, by rintro c ⟨⟩⟩
    have hnames : NamesOk letterNames (books letterRoot) letterBytes :=
      ⟨fun _ _ _ _ _ _ => rfl, by rintro f ⟨⟩, by rintro f ⟨⟩⟩
    rw [letterRoot_byte]
    exact ⟨⟨hentries, hfiles, hnodes, fun _ => hnames⟩, letter_chains, fun _ _ _ _ => rfl,
      by change 5 = zeros letterGeometry letterBytes; decide⟩
  cursors := by rintro c ⟨⟩

theorem letterRoot_counts : Counts (hold rootDentry fun _ => 0) (fun _ => 0) [] letterRoot := by
  have hopen : NothingOpen (freshVolume letterGeometry quietEnv letterDevice 10 5) :=
    ⟨rfl, ⟨rfl, rfl, rfl⟩, rfl, rfl, rfl, fun _ => rfl, Nat.one_pos⟩
  exact fatDget_counts _ ⟨hopen.settled, List.mem_cons_self⟩

theorem letterRoot_listing : letterNames.listing letterRoot 0 = [letterSlot] := by
  rw [Layout.listing, show 65535 = 65533 + 1 + 1 from rfl, entries, entries]
  rfl

theorem letterRoot_short {n : ℕ} {d : Direntry} (h : letterNames.slot letterRoot 0 n = some d) : d.isShort = true := by
  obtain ⟨p, hp, rfl⟩ := Option.map_eq_some_iff.mp h
  obtain ⟨hpos, rfl⟩ := letter_root hp
  have hall : ∀ n < 16, (slotAt letterBytes (1536 + 32 * n)).isShort = true := by decide
  exact hall n (by omega)

theorem letterRoot_explorable : letterNames.Explorable letterRoot := by
  have hdir : ∀ {a}, letterNames.Dir letterRoot a → a = 0 := letter_isDir.mp
  have hmem : ∀ {a}, letterNames.Dir letterRoot a → ∀ x ∈ letterNames.listing letterRoot a, x = letterSlot := by
    intro a ha x hx
    rw [hdir ha, letterRoot_listing] at hx
    exact List.mem_singleton.mp hx
  refine ⟨⟨fun a ha x hx => ⟨(0, []), ?_⟩, fun a ha x hx => ⟨[0x41], ?_⟩, fun a ha x hx _ => ?_, ?_⟩, ?_, fun _ => rfl,
    by decide⟩
  · rw [hmem ha x hx]
    rfl
  · rw [hmem ha x hx]
    rfl
  · rw [hmem ha x hx]
    rfl
  · rintro a ha d ⟨n, -, hno⟩
    obtain ⟨e, he, hshort⟩ := hno 0 (Nat.zero_le 20)
    rw [hdir ha] at he
    rw [letterRoot_short he] at hshort
    cases hshort
  · exact fun a _ x _ => Entry.not_continuedBy (.inl rfl)

theorem letterRoot_walking : Walking letterNames (fun _ => 0) (fun _ => 0) rootDentry letterRoot :=
  ⟨letterRoot_tidy, letterRoot_counts, letterRoot_explorable⟩

theorem letterRoot_settled : letterNames.Settled := ⟨rfl, rfl, rfl, rfl, rfl⟩

theorem letterRoot_isDir (a : ℕ) : (letterNames.tree letterRoot).isDir a = true ↔ a = 0 :=
  tree_isDir.trans letter_isDir

theorem letterRoot_child {cs : List ℕ} (h : letterSlot.shows cs = true) :
    (letterNames.tree letterRoot).child 0 cs = some 1536 :=
  tree_child (x := letterSlot) (letter_isDir.mpr rfl) (by rw [letterRoot_listing, List.find?_cons, h]) rfl

end Letter

section Loop

theorem wcharToUtf8_sep {c : ℕ} {x : List UInt8} {b : UInt8} (hx : unicodeWcharToUtf8 c 4 = .ok x) (hc : c < 0x200000)
    (hb : b ∈ x) : (b == fatPathSep) = (c == 0x5C) := by
  rw [Bool.eq_iff_iff, beq_iff_eq, beq_iff_eq]
  constructor
  · rintro rfl
    rcases wcharToUtf8_byte hc hx hb with he | he
    · exact he.symm
    · exact absurd he (by decide)
  · rintro rfl
    cases hx
    exact List.mem_singleton.mp hb

theorem Utf8.span {f : ℕ → Bool} {g : UInt8 → Bool} (hfg : ∀ (c : ℕ) x, unicodeWcharToUtf8 c 4 = .ok x → c < 0x200000 →
    ∀ b ∈ x, g b = f c) (h : Utf8 p pn) : Utf8 (p.takeWhile f) (pn.takeWhile g) ∧ Utf8 (p.dropWhile f) (pn.dropWhile g) := by
  induction p generalizing pn with
  | nil =>
    cases h
    exact ⟨rfl, rfl⟩
  | cons c p ih =>
    obtain ⟨x, y, hx, hne, -, hy, rfl⟩ := h.cons_inv h.head_lt
    have hg := hfg c x hx h.head_lt
    cases hc : f c with
    | true =>
      rw [hc] at hg
      rw [List.takeWhile_cons_of_pos hc, List.dropWhile_cons_of_pos hc, List.takeWhile_append_of_pos hg,
        List.dropWhile_append_of_pos hg]
      exact ⟨encodeAll_cons hx (ih hy).1, (ih hy).2⟩
    | false =>
      obtain ⟨b, t, rfl⟩ := List.exists_cons_of_ne_nil hne
      have hb : ¬g b = true := by
        rw [hg b List.mem_cons_self, hc]
        decide
      rw [List.takeWhile_cons_of_neg (by rw [hc]; decide), List.dropWhile_cons_of_neg (by rw [hc]; decide),
        List.cons_append, List.takeWhile_cons_of_neg hb, List.dropWhile_cons_of_neg hb]
      exact ⟨rfl, h⟩

theorem Utf8.seps (h : Utf8 p pn) : Utf8 (p.dropWhile (· == 0x5C)) (pn.dropWhile (· == fatPathSep)) :=
  (Utf8.span (fun _ _ hx hc _ hb => wcharToUtf8_sep hx hc hb) h).2

theorem Utf8.part (h : Utf8 p pn) : Utf8 (p.takeWhile (· != 0x5C)) (pn.takeWhile (· != fatPathSep)) ∧
    Utf8 (p.dropWhile (· != 0x5C)) (pn.dropWhile (· != fatPathSep)) :=
  Utf8.span (fun _ _ hx hc _ hb => congrArg (!·) (wcharToUtf8_sep hx hc hb)) h

theorem length_rest_lt (h : pn ≠ []) :
    ((pn.dropWhile (· == fatPathSep)).dropWhile (· != fatPathSep)).length < pn.length := by
  obtain ⟨b, t, rfl⟩ := List.exists_cons_of_ne_nil h
  have hle : ∀ (f : UInt8 → Bool) (l : List UInt8), (l.dropWhile f).length ≤ l.length :=
    fun f l => (List.dropWhile_sublist f).length_le
  by_cases hb : b = fatPathSep
  · rw [List.dropWhile_cons_of_pos (by simpa using hb), List.length_cons]
    exact Nat.lt_succ_of_le (Nat.le_trans (hle _ _) (hle _ _))
  · rw [List.dropWhile_cons_of_neg (by simpa using hb), List.dropWhile_cons_of_pos (by simpa using hb), List.length_cons]
    exact Nat.lt_succ_of_le (hle _ _)

/-- What `resolve_path` comes to: a node with its error code, and the only reference to it that is held beside
those there were. -/
def Arrives (hd hf : ℕ → ℕ) (x : Except WalkError ℕ) (out : Outcome Errno (ℕ × Option Errno) × Volume) : Prop :=
  ∃ d r w, out = (.ok (d, r), w) ∧ Counts (hold d hd) hf [] w ∧
    match x with
    | .ok a => r = none ∧ (books w).nodeAddr d = a
    | .error e => r = some (walkErrno e)

theorem Arrives.unique {x y : Except WalkError ℕ} {out : Outcome Errno (ℕ × Option Errno) × Volume} (h : Arrives hd hf x out)
    (h' : Arrives hd hf y out) : x = y := by
  obtain ⟨d, r, w, rfl, -, hx⟩ := h
  obtain ⟨d', r', w', he, -, hy⟩ := h'
  cases he
  cases x with
  | ok a =>
    cases y with
    | ok b => rw [← hx.2, ← hy.2]
    | error e =>
      rw [hx.1] at hy
      cases hy
  | error e =>
    cases y with
    | ok b =>
      rw [hy.1] at hx
      cases hx
    | error e' =>
      have he : walkErrno e = walkErrno e' := Option.some.inj (hx.symm.trans hy)
      cases e <;> cases e' <;> first | rfl | cases he

theorem resolveLoop_run (h : Walking G hd hf d v) (hs : G.Settled) (hn : G.named) (hp : Utf8 p pn)
    (hfuel : pn.length ≤ fuel) : Arrives hd hf ((G.tree v).looseWalk (components p) ((books v).nodeAddr d))
      ((resolveLoop fuel d pn).run v) := by
  induction fuel generalizing d v p pn with
  | zero =>
    obtain rfl : pn = [] := List.length_eq_zero_iff.mp (Nat.le_zero.mp hfuel)
    obtain rfl : p = [] := (Utf8.eq_iff (utf8_dots 0) hp).mp rfl
    exact ⟨d, none, v, rfl, h.counts, rfl, rfl⟩
  | succ fuel ih =>
    rw [resolveLoop]
    by_cases hpn : pn = []
    · subst hpn
      obtain rfl : p = [] := (Utf8.eq_iff (utf8_dots 0) hp).mp rfl
      exact ⟨d, none, v, rfl, h.counts, rfl, rfl⟩
    · have hpne : p ≠ [] := by
        rintro rfl
        exact hpn ((Utf8.eq_iff (utf8_dots 0) hp).mpr rfl)
      obtain ⟨hpart, hrest⟩ := Utf8.part (Utf8.seps hp)
      have hlen := length_rest_lt hpn
      have hstep := fatLookup_run h hs hn hpart
      rw [if_neg hpn, components, pathParts_eq hpne, List.map_cons, PathTree.looseWalk]
      cases hx : (G.tree v).looseStep ((books v).nodeAddr d)
          (component ((p.dropWhile (· == 0x5C)).takeWhile (· != 0x5C))) with
      | ok a =>
        rw [hx] at hstep
        obtain ⟨d', w, hrun, hw, haddr⟩ := hstep
        rw [run_bind_ok (run_attempt_ok hrun)]
        have hnext := ih hw.walking hrest (by omega)
        rw [hw.tree, haddr] at hnext
        exact hnext
      | error e =>
        rw [hx] at hstep
        obtain ⟨w, hrun, hw⟩ := hstep
        rw [run_bind_ok (run_attempt_error hrun)]
        exact ⟨d, some (walkErrno e), w, rfl, hw.walking.counts, rfl⟩

/-- `resolve_path` ends where the walk over the components does, unless they stray. -/
theorem resolvePath_walks (h : Walking G hd hf d v) (hs : G.Settled) (hn : G.named) (hp : Utf8 p pn) :
    Arrives hd hf ((G.tree v).walk (components p) ((books v).nodeAddr d)) ((resolvePath d pn).run v) ↔
      ¬(G.tree v).Strays (components p) ((books v).nodeAddr d) := by
  have hrun : Arrives hd hf ((G.tree v).looseWalk (components p) ((books v).nodeAddr d)) ((resolvePath d pn).run v) :=
    resolveLoop_run h hs hn hp (Nat.le_refl _)
  rw [← PathTree.looseWalk_eq_iff]
  constructor
  · intro hends
    exact hrun.unique hends
  · intro he
    rw [← he]
    exact hrun

/-- The file in the root directory, by a name in the other case. -/
theorem resolvePath_walks_letter :
    Arrives (fun _ => 0) (fun _ => 0) (.ok 1536) ((resolvePath rootDentry [0x2E, 0x5C, 0x61]).run letterRoot) := by
  have hp : Utf8 [0x2E, 0x5C, 0x61] [0x2E, 0x5C, 0x61] := rfl
  have hcs : components [0x2E, 0x5C, 0x61] = [.here, .name [0x61]] := rfl
  have hroot : (letterNames.tree letterRoot).isDir 0 = true := (letterRoot_isDir 0).mpr rfl
  have hchild : (letterNames.tree letterRoot).child 0 [0x61] = some 1536 := letterRoot_child (by decide)
  have hwalk : (letterNames.tree letterRoot).walk (components [0x2E, 0x5C, 0x61]) 0 = .ok 1536 := by
    simp [hcs, PathTree.walk, PathTree.step, hroot, hchild]
  have hends := (resolvePath_walks letterRoot_walking letterRoot_settled trivial hp).mpr
    (by rw [letterRoot_addr, hcs]; simp [PathTree.Strays])
  rwa [letterRoot_addr, hwalk] at hends

/-- From a file ".." leads up. -/
theorem resolvePath_fileUp :
    (letterNames.tree letterRoot).walk (components [0x41, 0x5C, 0x2E, 0x2E]) ((books letterRoot).nodeAddr rootDentry) =
        .error .notDir ∧
      ((resolvePath rootDentry [0x41, 0x5C, 0x2E, 0x2E]).run letterRoot).1 = .ok (rootDentry, none) ∧
      ¬Arrives (fun _ => 0) (fun _ => 0) (.error .notDir) ((resolvePath rootDentry [0x41, 0x5C, 0x2E, 0x2E]).run letterRoot) := by
  have hcs : components [0x41, 0x5C, 0x2E, 0x2E] = [.name [0x41], .up] := rfl
  have hroot : (letterNames.tree letterRoot).isDir 0 = true := (letterRoot_isDir 0).mpr rfl
  have hfile : ¬(letterNames.tree letterRoot).isDir 1536 = true := fun h => absurd ((letterRoot_isDir 1536).mp h) (by decide)
  have hchild : (letterNames.tree letterRoot).child 0 [0x41] = some 1536 := letterRoot_child (by decide)
  have hrun : ((resolvePath rootDentry [0x41, 0x5C, 0x2E, 0x2E]).run letterRoot).1 = .ok (rootDentry, none) := by
    decide +kernel
  refine ⟨?_, hrun, ?_⟩
  · rw [letterRoot_addr]
    simp [hcs, PathTree.walk, PathTree.step, hroot, hchild, hfile]
  · rintro ⟨d, r, w, hw, -, hr⟩
    rw [hw] at hrun
    cases hrun
    cases hr

end Loop

end FreeDos32.Fat
