import FreeDos32.Filesys.Truename
import Mathlib.Data.List.Induction
import Mathlib.Data.List.TakeWhile

namespace FreeDos32.Filesys

/-- A component of a canonical path. -/
structure GoodName (c : List Char) : Prop where
  notDots : ∃ x ∈ c, x ≠ '.'
  plain : ∀ x ∈ c, isSlash x = false ∧ x ≠ ':'

abbrev GoodPath (dir : List (List Char)) : Prop := ∀ c ∈ dir, GoodName c

def joinNames (dir : List (List Char)) : List Char := dir.flatMap fun c => '\\' :: c

def render (dir : List (List Char)) : List Char := if dir = [] then ['\\'] else joinNames dir

/-- From a directory on with one component: `n` dots go up by `n - 1`, `none` when that is above the root. -/
def enter (dir : List (List Char)) (comp : List Char) : Option (List (List Char)) :=
  if comp = [] then some dir
  else if comp.all fun c => c = '.' then
    if comp.length - 1 ≤ dir.length then some (dir.take (dir.length - (comp.length - 1))) else none
  else some (dir ++ [comp])

def resolve (dir : List (List Char)) (comps : List (List Char)) : Option (List (List Char)) := comps.foldlM enter dir

/-- Where a path starts: at the root or in the current directory of its drive. -/
def startDir (env : Env) (cds : List Cds) (source : List Char) : List (List Char) :=
  let (drive, rest) := splitDrive env source
  if rest.head?.any isSlash then [] else (components (getcwd cds drive) []).filter (· ≠ [])

def NoColon (env : Env) (source : List Char) : Prop := ':' ∉ (splitDrive env source).2

instance (env : Env) (source : List Char) : Decidable (NoColon env source) := inferInstanceAs (Decidable (_ ∉ _))

/-- Each current directory is a canonical path. -/
def Canonical (cds : List Cds) : Prop := ∀ c ∈ cds, ∃ dir, GoodPath dir ∧ c.curDir = render dir

/-- What the buffer has from `RootStart` on, backwards, with the components last first. -/
def backwards : List (List Char) → List Char
  | [] => ['\\']
  | c :: st => '\\' :: (c.reverse ++ backwards st)

variable {dir st : List (List Char)} {c comp s drive source dest : List Char} {env : Env} {cds : List Cds}

theorem GoodName.ne_nil (h : GoodName c) : c ≠ [] := by
  obtain ⟨x, hx, -⟩ := h.notDots
  exact List.ne_nil_of_mem hx

theorem GoodName.not_all (h : GoodName c) : ¬(c.all fun x => x = '.') = true := by
  obtain ⟨x, hx, hne⟩ := h.notDots
  intro hall
  exact hne (by simpa using List.all_eq_true.mp hall x hx)

theorem ne_backslash (h : isSlash x = false) : x ≠ '\\' := by
  rintro rfl
  cases h

theorem backwards_reverse (dir : List (List Char)) : backwards dir.reverse = '\\' :: (joinNames dir).reverse := by
  induction dir using List.reverseRecOn with
  | nil => rfl
  | append_singleton dir c ih =>
    rw [List.reverse_append, List.reverse_singleton, List.singleton_append, backwards, ih]
    simp [joinNames]

theorem backwards_ne_nil (st : List (List Char)) : backwards st ≠ [] := by cases st <;> simp [backwards]

theorem rewind_skip {n : ℕ} (aux : List Char) (hc : ∀ x ∈ c, x ≠ '\\') (haux : aux ≠ []) :
    rewind (n + 1) (c ++ aux) = rewind (n + 1) aux := by
  induction c with
  | nil => rfl
  | cons x c ih =>
    have hx : x ≠ '\\' := hc x List.mem_cons_self
    have hne : c ++ aux ≠ [] := by simp [haux]
    rw [List.cons_append, rewind]
    simp only [if_neg hx, Nat.succ_ne_zero, if_false, hne]
    exact ih fun y hy => hc y (List.mem_cons_of_mem x hy)

theorem rewind_backwards (k : ℕ) (st : List (List Char)) (hst : ∀ c ∈ st, ∀ x ∈ c, x ≠ '\\') :
    rewind (k + 1) (backwards st) = if k ≤ st.length then some (backwards (st.drop k)) else none := by
  induction st generalizing k with
  | nil =>
    cases k with
    | zero => rfl
    | succ k => simp [backwards, rewind]
  | cons c st ih =>
    rw [backwards, rewind]
    cases k with
    | zero => simp [backwards]
    | succ k =>
      have hne : c.reverse ++ backwards st ≠ [] := by simp [backwards_ne_nil]
      have hskip := rewind_skip (n := k) (c := c.reverse) (backwards st)
        (fun x hx => hst c List.mem_cons_self x (List.mem_reverse.mp hx)) (backwards_ne_nil st)
      simp only [if_true, Nat.add_sub_cancel, Nat.succ_ne_zero, if_false, hne, hskip, List.length_cons,
        Nat.add_le_add_iff_right, List.drop_succ_cons]
      exact ih k fun d hd => hst d (List.mem_cons_of_mem c hd)

theorem appendComp_backwards (hdir : GoodPath dir) (comp : List Char) :
    appendComp ⟨false, true⟩ (backwards dir.reverse) comp = (enter dir comp).map fun d => backwards d.reverse := by
  unfold appendComp enter
  by_cases hnil : comp = []
  · simp [hnil]
  rw [if_neg hnil, if_neg hnil]
  by_cases hall : (comp.all fun c => c = '.') = true
  · have hlen : comp.length ≠ 0 := fun h => hnil (List.eq_nil_of_length_eq_zero h)
    obtain ⟨k, hk⟩ := Nat.exists_eq_succ_of_ne_zero hlen
    rw [if_pos hall, if_pos hall, if_neg hlen, hk, Nat.succ_sub_one]
    cases k with
    | zero => simp
    | succ k =>
      have hback := rewind_backwards (k + 1) dir.reverse fun c hc x hx =>
        ne_backslash ((hdir c (List.mem_reverse.mp hc)).plain x hx).1
      rw [if_pos rfl, if_pos (Nat.succ_lt_succ (Nat.succ_pos k)), hback, List.length_reverse]
      by_cases hle : k + 1 ≤ dir.length
      · rw [if_pos hle, if_pos hle, Option.map_some, List.drop_reverse]
      · rw [if_neg hle, if_neg hle, Option.map_none]
  · rw [if_neg hall, if_neg hall, if_pos rfl, Option.map_some, List.reverse_append, List.reverse_singleton,
      List.singleton_append, backwards]

theorem enter_good (hdir : GoodPath dir) (hcomp : ∀ x ∈ comp, isSlash x = false ∧ x ≠ ':') {dir' : List (List Char)}
    (h : enter dir comp = some dir') : GoodPath dir' := by
  unfold enter at h
  split at h
  · exact Option.some.inj h ▸ hdir
  split at h
  · split at h
    · obtain rfl := Option.some.inj h
      exact fun c hc => hdir c (List.mem_of_mem_take hc)
    · cases h
  · rename_i hall
    obtain rfl := Option.some.inj h
    intro c hc
    rcases List.mem_append.mp hc with hc | hc
    · exact hdir c hc
    · obtain rfl := List.mem_singleton.mp hc
      refine ⟨?_, hcomp⟩
      simpa using hall

theorem resolve_good {comps : List (List Char)} (hdir : GoodPath dir)
    (hcomps : ∀ comp ∈ comps, ∀ x ∈ comp, isSlash x = false ∧ x ≠ ':') {dir' : List (List Char)}
    (h : resolve dir comps = some dir') : GoodPath dir' := by
  induction comps generalizing dir with
  | nil => exact Option.some.inj h ▸ hdir
  | cons comp comps ih =>
    rw [resolve, List.foldlM_cons] at h
    obtain ⟨mid, hmid, hrest⟩ := Option.bind_eq_some_iff.mp h
    exact ih (enter_good hdir (hcomps comp List.mem_cons_self) hmid)
      (fun c hc => hcomps c (List.mem_cons_of_mem comp hc)) hrest

theorem foldlM_backwards {comps : List (List Char)} (hdir : GoodPath dir)
    (hcomps : ∀ comp ∈ comps, ∀ x ∈ comp, isSlash x = false ∧ x ≠ ':') :
    comps.foldlM (appendComp ⟨false, true⟩) (backwards dir.reverse) =
      (resolve dir comps).map fun d => backwards d.reverse := by
  induction comps generalizing dir with
  | nil => rfl
  | cons comp comps ih =>
    rw [resolve, List.foldlM_cons, List.foldlM_cons, appendComp_backwards hdir]
    cases henter : enter dir comp with
    | none => rfl
    | some mid =>
      exact ih (enter_good hdir (hcomps comp List.mem_cons_self) henter)
        fun c hc => hcomps c (List.mem_cons_of_mem comp hc)

theorem components_mem {cur : List Char} (hcur : ∀ x ∈ cur, isSlash x = false) (hs : ':' ∉ s) (hcolon : ':' ∉ cur)
    (hcomp : comp ∈ components s cur) : ∀ x ∈ comp, isSlash x = false ∧ x ≠ ':' := by
  have hlast : ∀ x ∈ cur.reverse, isSlash x = false ∧ x ≠ ':' := fun x hx =>
    ⟨hcur x (List.mem_reverse.mp hx), fun he => hcolon (he ▸ List.mem_reverse.mp hx)⟩
  induction s generalizing cur with
  | nil =>
    obtain rfl := List.mem_singleton.mp hcomp
    exact hlast
  | cons c s ih =>
    rw [List.mem_cons, not_or] at hs
    rw [components] at hcomp
    split at hcomp
    · rcases List.mem_cons.mp hcomp with rfl | hcomp
      · exact hlast
      · exact ih (by simp) hs.2 (by simp) hcomp (by simp)
    · rename_i hslash
      have hc : isSlash c = false := by simpa using hslash
      refine ih (fun x hx => ?_) hs.2 (by simp [hcolon, hs.1]) hcomp fun x hx => ?_
      · rcases List.mem_cons.mp hx with rfl | hx
        · exact hc
        · exact hcur x hx
      · rcases List.mem_append.mp (List.reverse_cons ▸ hx) with hx | hx
        · exact hlast x hx
        · obtain rfl := List.mem_singleton.mp hx
          exact ⟨hc, fun he => hs.1 he.symm⟩

theorem components_plain (hc : ∀ x ∈ c, isSlash x = false) (s cur : List Char) :
    components (c ++ '\\' :: s) cur = (cur.reverse ++ c) :: components s [] ∧
      components c cur = [cur.reverse ++ c] := by
  induction c generalizing cur with
  | nil => simp [components, isSlash]
  | cons x c ih =>
    have hx : isSlash x = false := hc x List.mem_cons_self
    obtain ⟨h₁, h₂⟩ := ih (fun y hy => hc y (List.mem_cons_of_mem x hy)) (x :: cur)
    rw [List.cons_append, components, components, if_neg (by simp [hx]), if_neg (by simp [hx]), h₁, h₂]
    simp

theorem components_joinNames (hdir : GoodPath (c :: dir)) : components (joinNames (c :: dir)).tail [] = c :: dir := by
  induction dir generalizing c with
  | nil =>
    have hc : ∀ x ∈ c, isSlash x = false := fun x hx => ((hdir c List.mem_cons_self).plain x hx).1
    simpa [joinNames] using (components_plain hc [] []).2
  | cons d dir ih =>
    have hc : ∀ x ∈ c, isSlash x = false := fun x hx => ((hdir c List.mem_cons_self).plain x hx).1
    have hsplit : (joinNames (c :: d :: dir)).tail = c ++ '\\' :: (joinNames (d :: dir)).tail := by simp [joinNames]
    rw [hsplit, (components_plain hc _ []).1, ih fun e he => hdir e (List.mem_cons_of_mem c he)]
    rfl

theorem render_tail (hdir : GoodPath dir) : ∃ s, render dir = '\\' :: s ∧ (components s []).filter (· ≠ []) = dir := by
  cases dir with
  | nil => exact ⟨[], rfl, rfl⟩
  | cons c dir =>
    refine ⟨(joinNames (c :: dir)).tail, rfl, ?_⟩
    rw [components_joinNames hdir]
    exact List.filter_eq_self.mpr fun d hd => by simpa using (hdir d hd).ne_nil

theorem resolve_filter (dir comps : List (List Char)) : resolve dir (comps.filter (· ≠ [])) = resolve dir comps := by
  induction comps generalizing dir with
  | nil => rfl
  | cons comp comps ih =>
    by_cases hnil : comp = []
    · subst hnil
      have henter : resolve dir ([] :: comps) = resolve dir comps := by simp [resolve, enter]
      rw [henter]
      simpa using ih dir
    · have hfilter : (comp :: comps).filter (· ≠ []) = comp :: comps.filter (· ≠ []) := by simp [hnil]
      rw [hfilter, resolve, resolve, List.foldlM_cons, List.foldlM_cons]
      exact Option.bind_congr fun mid _ => ih mid

theorem resolve_names (hnames : GoodPath st) : resolve dir st = some (dir ++ st) := by
  induction st generalizing dir with
  | nil => simp [resolve]
  | cons c st ih =>
    have hc := hnames c List.mem_cons_self
    have henter : enter dir c = some (dir ++ [c]) := by
      rw [enter, if_neg hc.ne_nil, if_neg hc.not_all]
    rw [resolve, List.foldlM_cons, henter]
    refine (ih fun d hd => hnames d (List.mem_cons_of_mem c hd)).trans ?_
    simp

theorem getcwd_canonical (hcds : Canonical cds) (drive : List Char) :
    ∃ dir, GoodPath dir ∧ getcwd cds drive = render dir := by
  unfold getcwd
  cases hfind : cds.find? fun c => strcaseEq c.drive drive with
  | none => exact ⟨[], List.forall_mem_nil _, rfl⟩
  | some c => exact hcds c (List.mem_of_find?_eq_some hfind)

theorem closeDir_render (hdir : GoodPath dir) : rootStart.closeDir (render dir).reverse = backwards dir.reverse := by
  rw [backwards_reverse]
  rcases List.eq_nil_or_concat' dir with rfl | ⟨front, c, rfl⟩
  · rfl
  · have hc := hdir c (by simp)
    obtain ⟨c', x, rfl⟩ := (List.eq_nil_or_concat' c).resolve_left hc.ne_nil
    have hx : x ≠ '\\' := ne_backslash (hc.plain x (by simp)).1
    have hrender : (render (front ++ [c' ++ [x]])).reverse = x :: (c'.reverse ++ '\\' :: (joinNames front).reverse) := by
      simp [render, joinNames]
    have hjoin : (joinNames (front ++ [c' ++ [x]])).reverse = x :: (c'.reverse ++ '\\' :: (joinNames front).reverse) := by
      simp [joinNames]
    rw [hrender, hjoin, rootStart.closeDir]
    intro aux heq
    exact hx (List.cons.inj heq).1

theorem stripSlash_backwards (hdir : GoodPath dir) (drive : List Char) :
    (stripSlash (backwards dir.reverse ++ ':' :: drive.reverse)).reverse = drive ++ ':' :: render dir := by
  rw [backwards_reverse]
  rcases List.eq_nil_or_concat' dir with rfl | ⟨front, c, rfl⟩
  · simp [joinNames, stripSlash, render]
  · have hc := hdir c (by simp)
    obtain ⟨c', x, rfl⟩ := (List.eq_nil_or_concat' c).resolve_left hc.ne_nil
    have hx : x ≠ ':' := (hc.plain x (by simp)).2
    simp [joinNames, stripSlash, render, hx]

theorem splitDrive_noColon (env : Env) (source : List Char) : ':' ∉ (splitDrive env source).1 := by
  unfold splitDrive
  cases source.dropWhile fun c => c ≠ ':' with
  | nil =>
    unfold Env.defaultLetter
    cases env.defaultDrive with
    | none => exact List.not_mem_nil
    | some d =>
      have hall : ∀ d : Fin driveMaxNum, Char.ofNat (d + 'A'.toNat) ≠ ':' := by decide
      exact fun hm => hall d (List.mem_singleton.mp hm).symm
  | cons c rest =>
    intro hm
    simpa using List.mem_takeWhile_imp hm

theorem getcwd_components (hcds : Canonical cds) (drive : List Char) :
    GoodPath ((components (getcwd cds drive) []).filter (· ≠ [])) ∧
      getcwd cds drive = render ((components (getcwd cds drive) []).filter (· ≠ [])) := by
  obtain ⟨dir, hdir, hcwd⟩ := getcwd_canonical hcds drive
  obtain ⟨s, hs, hcomps⟩ := render_tail hdir
  have hsplit : components ('\\' :: s) [] = [] :: components s [] := rfl
  have hfilter : (components (getcwd cds drive) []).filter (· ≠ []) = dir := by
    rw [hcwd, hs, hsplit, List.filter_cons_of_neg (by simp), hcomps]
  rw [hfilter]
  exact ⟨hdir, hcwd⟩

theorem startDir_good (hcds : Canonical cds) (env : Env) (source : List Char) : GoodPath (startDir env cds source) := by
  unfold startDir
  dsimp only
  split
  · exact fun c hc => by cases hc
  · exact (getcwd_components hcds _).1

theorem truename_resolve (hcds : Canonical cds) (hs : NoColon env source) :
    truename ⟨false, true⟩ env cds source =
      match resolve (startDir env cds source) (components (splitDrive env source).2 []) with
      | none => .error enotdir
      | some dir => .ok ((splitDrive env source).1 ++ ':' :: render dir) := by
  have hgood := startDir_good hcds env source
  have hcomps : ∀ comp ∈ components (splitDrive env source).2 [], ∀ x ∈ comp, isSlash x = false ∧ x ≠ ':' :=
    fun comp hc => components_mem (by simp) hs (by simp) hc
  -- the buffer before the loop, and the components that the loop goes over
  have hstart : ∃ rest, rootStart cds (splitDrive env source).1 (splitDrive env source).2 =
      (backwards (startDir env cds source).reverse, rest) ∧
      (∀ comp ∈ components rest [], comp ∈ components (splitDrive env source).2 []) ∧
      resolve (startDir env cds source) (components rest []) =
        resolve (startDir env cds source) (components (splitDrive env source).2 []) := by
    unfold startDir
    generalize splitDrive env source = split
    obtain ⟨drive, rest⟩ := split
    obtain ⟨hdir, hcwd⟩ := getcwd_components hcds drive
    have hclose := closeDir_render hdir
    rw [← hcwd] at hclose
    cases rest with
    | nil => exact ⟨[], by rw [rootStart, hclose]; rfl, fun _ h => h, rfl⟩
    | cons c s =>
      by_cases hc : isSlash c = true
      · have hsplit : components (c :: s) [] = [] :: components s [] := by rw [components, if_pos hc]; rfl
        refine ⟨s, by rw [rootStart, if_pos hc]; simp [hc, backwards], fun comp hm => ?_, ?_⟩
        · dsimp only
          rw [hsplit]
          exact List.mem_cons_of_mem _ hm
        · dsimp only
          rw [hsplit]
          simp [resolve, enter]
      · refine ⟨c :: s, ?_, fun _ h => h, rfl⟩
        rw [rootStart, if_neg hc, hclose]
        simp [hc]
  obtain ⟨rest, hroot, hmem, hresolve⟩ := hstart
  have hloop := foldlM_backwards hgood fun comp hc => hcomps comp (hmem comp hc)
  rw [hresolve] at hloop
  unfold truename
  dsimp only
  rw [hroot, hloop]
  cases hres : resolve (startDir env cds source) (components (splitDrive env source).2 []) with
  | none => rfl
  | some dir =>
    have hdir := resolve_good hgood hcomps hres
    exact congrArg Except.ok (stripSlash_backwards hdir _)

theorem truename_fixed (hdrive : ':' ∉ drive) (hdir : GoodPath dir) (hcds : Canonical cds) (env : Env) :
    truename ⟨false, true⟩ env cds (drive ++ ':' :: render dir) = .ok (drive ++ ':' :: render dir) := by
  have hon : ∀ x ∈ drive, decide (x ≠ ':') = true := fun x hx => decide_eq_true fun he => hdrive (he ▸ hx)
  have hsplit : splitDrive env (drive ++ ':' :: render dir) = (drive, render dir) := by
    unfold splitDrive
    rw [List.dropWhile_append_of_pos hon, List.takeWhile_append_of_pos hon]
    simp
  obtain ⟨s, hs, hcomps⟩ := render_tail hdir
  have hcolon : ':' ∉ render dir := by
    intro hm
    unfold render at hm
    split at hm
    · simp at hm
    · obtain ⟨c, hc, hx⟩ := List.mem_flatMap.mp hm
      rcases List.mem_cons.mp hx with he | hx
      · cases he
      · exact ((hdir c hc).plain _ hx).2 rfl
  have hstart : startDir env cds (drive ++ ':' :: render dir) = [] := by
    unfold startDir
    rw [hsplit]
    dsimp only
    rw [hs]
    rfl
  have hnames : resolve [] (components (render dir) []) = some dir := by
    have hfirst : components ('\\' :: s) [] = [] :: components s [] := rfl
    rw [hs, hfirst, ← resolve_filter, List.filter_cons_of_neg (by simp), hcomps, resolve_names hdir]
    rfl
  rw [truename_resolve hcds (by unfold NoColon; rw [hsplit]; exact hcolon), hstart, hsplit, hnames]

theorem setCurDir_canonical (hcds : Canonical cds) (hdir : GoodPath dir) (drive : List Char) :
    Canonical (setCurDir drive (render dir) cds) := by
  induction cds with
  | nil => exact hcds
  | cons c cds ih =>
    have hrest : Canonical cds := fun d hd => hcds d (List.mem_cons_of_mem c hd)
    intro d hd
    rw [setCurDir] at hd
    split at hd
    · rcases List.mem_cons.mp hd with rfl | hd
      · exact ⟨dir, hdir, rfl⟩
      · exact hrest d hd
    · rcases List.mem_cons.mp hd with rfl | hd
      · exact hcds d List.mem_cons_self
      · exact ih hrest d hd

theorem chdir_canonical (hcds : Canonical cds) (hs : NoColon env source) (valid : List Char → Except ℕ Unit)
    (memory : Bool) : Canonical (chdir env valid memory source cds).2 := by
  unfold chdir
  cases truename ⟨true, false⟩ env cds source with
  | error e => exact hcds
  | ok aux =>
    dsimp only
    cases valid aux with
    | error e => exact hcds
    | ok =>
      dsimp only
      rw [truename_resolve hcds hs]
      cases hres : resolve (startDir env cds source) (components (splitDrive env source).2 []) with
      | none => exact hcds
      | some dir =>
        have hdir := resolve_good (startDir_good hcds env source)
          (fun comp hc => components_mem (by simp) hs (by simp) hc) hres
        have hon : ∀ x ∈ (splitDrive env source).1, decide (x ≠ ':') = true := fun x hx =>
          decide_eq_true fun he => splitDrive_noColon env source (he ▸ hx)
        have hpath : (((splitDrive env source).1 ++ ':' :: render dir).dropWhile fun c => c ≠ ':').tail = render dir := by
          rw [List.dropWhile_append_of_pos hon]
          simp
        dsimp only
        rw [hpath]
        split
        · intro c hc
          rcases List.mem_cons.mp hc with rfl | hc
          · exact ⟨dir, hdir, rfl⟩
          · exact setCurDir_canonical hcds hdir _ c hc
        · exact setCurDir_canonical hcds hdir _

abbrev ChdirRun (ok : List Cds → Chdir → Prop) : List Cds → Prop := Reach Chdir.step ok []

theorem ChdirRun.canonical (h : ChdirRun (fun _ c => NoColon c.env c.dirName) cds) : Canonical cds :=
  Reach.invariant Canonical (fun c hc => by cases hc)
    (fun _ c _ hi hok hs => Option.some.inj hs ▸ chdir_canonical hi hok c.valid c.memory) h

/-- What `fd32_truename` returns is canonical, denotes the directory that the components lead to and is a fixed point. -/
theorem truename_canonical (h : ChdirRun (fun _ c => NoColon c.env c.dirName) cds) (hs : NoColon env source) :
    (∀ dest, truename ⟨false, true⟩ env cds source = .ok dest →
      ∃ dir, GoodPath dir ∧ dest = (splitDrive env source).1 ++ ':' :: render dir ∧
        resolve (startDir env cds source) (components (splitDrive env source).2 []) = some dir ∧
        truename ⟨false, true⟩ env cds dest = .ok dest) ∧
    (truename ⟨false, true⟩ env cds source = .error enotdir ↔
      resolve (startDir env cds source) (components (splitDrive env source).2 []) = none) := by
  have hcds := h.canonical
  have hcomps : ∀ comp ∈ components (splitDrive env source).2 [], ∀ x ∈ comp, isSlash x = false ∧ x ≠ ':' :=
    fun comp hc => components_mem (by simp) hs (by simp) hc
  rw [truename_resolve hcds hs]
  cases hres : resolve (startDir env cds source) (components (splitDrive env source).2 []) with
  | none =>
    constructor
    · intro dest hd
      cases hd
    · simp
  | some dir =>
    have hdir := resolve_good (startDir_good hcds env source) hcomps hres
    constructor
    · intro dest hd
      obtain rfl := Except.ok.inj hd
      exact ⟨dir, hdir, rfl, rfl, truename_fixed (splitDrive_noColon env source) hdir hcds env⟩
    · simp

def driveC : Env := ⟨some ⟨2, by decide⟩, []⟩

def opened (dirName : List Char) : Chdir := ⟨driveC, fun _ => .ok (), true, dirName⟩

/-- From `\\a\\b\\d` two levels up and into `x`; five dots would go above the root. -/
theorem truename_canonical_parent : ∃ cds,
    runSteps Chdir.step (fun _ c => NoColon c.env c.dirName)
      [opened ['c', ':', '/', 'a', '/', '/', 'b'], opened ['d']] [] = some cds ∧
    (∃ dir, GoodPath dir ∧ ['C', ':', '\\', 'a', '\\', 'x'] = ['C'] ++ ':' :: render dir ∧
      resolve (startDir driveC cds ['.', '.', '.', '/', 'x']) [['.', '.', '.'], ['x']] = some dir ∧
      truename ⟨false, true⟩ driveC cds ['C', ':', '\\', 'a', '\\', 'x'] = .ok ['C', ':', '\\', 'a', '\\', 'x']) ∧
    truename ⟨false, true⟩ driveC cds ['.', '.', '.', '.', '.'] = .error enotdir := by
  have hmap : (runSteps Chdir.step (fun _ c => NoColon c.env c.dirName)
      [opened ['c', ':', '/', 'a', '/', '/', 'b'], opened ['d']] []).map (fun cds =>
        (truename ⟨false, true⟩ driveC cds ['.', '.', '.', '/', 'x'],
          resolve (startDir driveC cds ['.', '.', '.', '.', '.']) [['.', '.', '.', '.', '.']])) =
      some (.ok ['C', ':', '\\', 'a', '\\', 'x'], none) := rfl
  obtain ⟨cds, hrun, hres⟩ := Option.map_eq_some_iff.mp hmap
  obtain ⟨hdest, habove⟩ := Prod.mk.inj hres
  have hreach := runSteps_reach _ _ hrun
  exact ⟨cds, hrun, (truename_canonical hreach (by decide)).1 _ hdest,
    (truename_canonical hreach (by decide)).2.mpr habove⟩

/-- A name that ends in a colon, from a driver that has it, hides that the path is not the root. -/
theorem truename_trailing : ∃ cds, ChdirRun (fun _ _ => True) cds ∧ NoColon driveC ['.'] ∧
    truename ⟨false, true⟩ driveC cds ['.'] = .ok ['C', ':', '\\', 'b', ':', '\\'] := by
  have hmap : (runSteps Chdir.step (fun _ _ => True) [opened ['C', ':', '\\', 'b', ':']] []).map
      (fun cds => truename ⟨false, true⟩ driveC cds ['.']) = some (.ok ['C', ':', '\\', 'b', ':', '\\']) := rfl
  obtain ⟨cds, hrun, hdest⟩ := Option.map_eq_some_iff.mp hmap
  exact ⟨cds, runSteps_reach _ _ hrun, by decide, hdest⟩

end FreeDos32.Filesys
