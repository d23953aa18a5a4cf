import FreeDos32.Filesys.Canonical
import FreeDos32.Filesys.TruenameBuffers

namespace FreeDos32.Filesys

/-- Every component is short enough, and so is the buffer after each one and at the end. -/
def Roomy (flags : Flags) (root : List Char) : List (List Char) → List (List Char) → Prop
  | names, [] => (text root names).length + (if (text root names)[1]? = some ':' then 1 else 0) ≤ lfnpMax
  | names, comp :: comps =>
    comp.length < lfnMax ∧
      ∀ names', enterComp flags names comp = some names' → (text root names').length ≤ lfnpMax ∧ Roomy flags root names' comps

def Fits (flags : Flags) (env : Env) (cds : List Cds) (below : Char) (source : List Char) : Prop :=
  let (drive, rest) := splitDrive env source
  let root := rootPrefix flags env drive
  (source.takeWhile fun c => c ≠ ':').length < lfnpMax ∧
    (∀ s, substOf flags env drive = some s → s.target = [] → below ≠ '\\') ∧
    if (rest.head?.map isSlash).getD false then
      root.length < lfnpMax ∧ Roomy flags root [[]] (components rest.tail [])
    else
      (getcwd cds drive).length < lfnMax ∧ root.length + (getcwd cds drive).length < lfnpMax ∧
        Roomy flags root (directories (getcwd cds drive) [] []) (components rest [])

/-- Nothing is written outside of an array, and neither into one of `FD32_LFNPMAX` bytes for the result. -/
def InBounds (res : Option (Except ℕ (List Char))) : Prop :=
  ∃ r, res = some r ∧ ∀ dest, r = .ok dest → dest.length < lfnpMax

variable {flags : Flags} {env : Env} {cds : List Cds} {below : Char} {drive rest root source : List Char}
  {names names' comps : List (List Char)}

theorem not_inBounds_none : ¬InBounds none := by
  rintro ⟨r, hr, _⟩
  cases hr

theorem inBounds_terminate (buf : List Char) :
    InBounds ((terminate lfnpMax buf).map fun aux => .ok aux.reverse) ↔ buf.length < lfnpMax := by
  rw [terminate]
  by_cases hlt : buf.length < lfnpMax
  · rw [if_pos hlt]
    constructor
    · intro _
      exact hlt
    · intro _
      refine ⟨.ok buf.reverse, rfl, ?_⟩
      intro dest hdest
      cases hdest
      rwa [List.length_reverse]
  · rw [if_neg hlt]
    exact iff_of_false not_inBounds_none hlt

theorem inBounds_finishBuf (hne : names ≠ []) :
    InBounds (finishBuf below (.ok (text root names))) ↔ Roomy flags root names [] := by
  obtain ⟨name, names, rfl⟩ := List.exists_cons_of_ne_nil hne
  rw [finishBuf, inBounds_terminate, Roomy, text]
  cases name.reverse ++ text root names with
  | nil =>
    rw [stripBuf]
    split <;> simp [lfnpMax]
  | cons c aux =>
    have hget : ('\\' :: c :: aux)[1]? = some c := rfl
    rw [stripBuf, List.headD_cons, hget]
    by_cases hc : c = ':'
    · rw [if_pos hc, if_pos (congrArg some hc)]
      exact Iff.rfl
    · rw [if_neg hc, if_neg (fun h => hc (Option.some.inj h))]
      exact Iff.rfl

theorem inBounds_appendBufs (hnames : ∀ name ∈ names, '\\' ∉ name) (hne : names ≠ [])
    (hle : (text root names).length ≤ lfnpMax) (hcomps : ∀ comp ∈ comps, '\\' ∉ comp) :
    InBounds ((appendBufs flags root.length comps (text root names)).bind (finishBuf below)) ↔
      Roomy flags root names comps := by
  induction comps generalizing names with
  | nil => exact inBounds_finishBuf hne
  | cons comp comps ih =>
    obtain ⟨hcomp, hrest⟩ := List.forall_mem_cons.mp hcomps
    rw [appendBufs, appendBuf_text hnames hne hle, Roomy]
    by_cases hshort : comp.length < lfnMax
    · rw [if_pos hshort]
      cases hen : enterComp flags names comp with
      | none =>
        simp only [reduceCtorEq, false_imp_iff, implies_true, and_true]
        refine ⟨fun _ => hshort, fun _ => ⟨.error enotdir, rfl, ?_⟩⟩
        intro dest hdest
        cases hdest
      | some names' =>
        obtain ⟨hnames', hne'⟩ := enterComp_names hcomp hnames hne hen
        simp only [Option.some.injEq, forall_eq']
        by_cases hfit : (text root names').length ≤ lfnpMax
        · rw [if_pos hfit]
          simp only [ih hnames' hne' hfit hrest, hshort, hfit, true_and]
        · rw [if_neg hfit]
          exact iff_of_false not_inBounds_none fun h => hfit h.2.1
    · rw [if_neg hshort]
      exact iff_of_false not_inBounds_none fun h => hshort h.1

theorem rootPrefix_eq (flags : Flags) (env : Env) (drive : List Char) :
    rootPrefix flags env drive =
      match substOf flags env drive with
      | some s =>
        match s.target.reverse with
        | '\\' :: t => t
        | t => t
      | none => ':' :: drive.reverse := rfl

theorem substOf_mem {s : Subst} (h : substOf flags env drive = some s) : s ∈ env.substList := by
  rw [substOf] at h
  split at h
  · exact List.mem_of_find?_eq_some h
  · cases h

theorem length_rootPrefix (flags : Flags) (hdrive : drive.length < lfnpMax) (htargets : ∀ s ∈ env.substList, s.target.length < lfnpMax) :
    (rootPrefix flags env drive).length ≤ lfnpMax := by
  rw [rootPrefix_eq]
  cases hsubst : substOf flags env drive with
  | none =>
    rw [List.length_cons, List.length_reverse]
    exact hdrive
  | some s =>
    have htarget := htargets s (substOf_mem hsubst)
    rw [← List.length_reverse] at htarget
    dsimp only
    split
    · next heq =>
      rw [heq, List.length_cons] at htarget
      omega
    · exact Nat.le_of_lt htarget

theorem rootBuf_eq (hdrive : drive.length < lfnpMax) (htargets : ∀ s ∈ env.substList, s.target.length < lfnpMax) :
    rootBuf flags env below drive =
      if ∀ s, substOf flags env drive = some s → s.target = [] → below ≠ '\\' then some (rootPrefix flags env drive)
      else none := by
  have hpush : push lfnpMax ':' drive.reverse = some (':' :: drive.reverse) := by
    rw [push, if_pos (by rwa [List.length_reverse])]
  simp only [rootBuf, rootPrefix_eq, copy_nil hdrive, hpush, bind, Option.bind_some]
  cases hsubst : substOf flags env drive with
  | none =>
    simp
  | some s =>
    have htarget := htargets s (substOf_mem hsubst)
    simp only [copy_nil htarget, Option.bind_some, Option.some.injEq, forall_eq', ← @List.reverse_eq_nil_iff _ s.target]
    cases s.target.reverse with
    | nil =>
      by_cases hbelow : below = '\\'
      · simp [hbelow]
      · simp [hbelow]
    | cons c t =>
      simp only [reduceCtorEq, false_imp_iff, if_true]
      by_cases hc : c = '\\'
      · subst hc
        rfl
      · simp [hc]

theorem startBuf_absolute (h : (rest.head?.map isSlash).getD false = true) :
    startBuf cds drive rest root = if root.length < lfnpMax then some (text root [[]], rest.tail) else none := by
  rw [startBuf, if_pos h, push]
  split <;> rfl

theorem startBuf_relative (h : ¬(rest.head?.map isSlash).getD false = true) (hcwd : getcwd cds drive ≠ [])
    (hroot : root.length ≤ lfnpMax) :
    startBuf cds drive rest root =
      if (getcwd cds drive).length < lfnMax ∧ root.length + (getcwd cds drive).length < lfnpMax then
        some (text root (directories (getcwd cds drive) [] []), rest)
      else none := by
  have htext := @text_directories [] [] root (getcwd cds drive) List.not_mem_nil (Or.inl (by rwa [List.append_nil]))
  simp only [startBuf, if_neg h, strcpy_eq, bind]
  by_cases hshort : (getcwd cds drive).length < lfnMax
  · simp only [if_pos hshort, Option.bind_some, List.reverse_reverse, copy_eq hroot]
    simp only [hshort, true_and]
    have hlen : ((getcwd cds drive).reverse ++ root).length = root.length + (getcwd cds drive).length := by
      rw [List.length_append, List.length_reverse, Nat.add_comm]
    by_cases hlt : root.length + (getcwd cds drive).length < lfnpMax
    · rw [if_pos hlt, if_pos (Nat.le_of_lt hlt), Option.bind_some, terminate, hlen, if_pos hlt, Option.bind_some, htext]
      rw [List.nil_append, text, push, hlen, if_pos hlt]
      split <;> rfl
    · rw [if_neg hlt]
      by_cases hle : root.length + (getcwd cds drive).length ≤ lfnpMax
      · rw [if_pos hle, Option.bind_some, terminate, hlen, if_neg hlt]
        rfl
      · rw [if_neg hle]
        rfl
  · simp only [hshort, false_and, if_false]
    rfl

theorem length_splitDrive (env : Env) (h : (source.takeWhile fun c => c ≠ ':').length < lfnpMax) :
    (splitDrive env source).1.length < lfnpMax := by
  rw [splitDrive]
  split
  · rw [Env.defaultLetter]
    split <;> simp [lfnpMax]
  · exact h

theorem getcwd_ne_nil (hcds : ∀ c ∈ cds, c.curDir ≠ []) (drive : List Char) : getcwd cds drive ≠ [] := by
  rw [getcwd]
  split
  · next c hfind => exact hcds c (List.mem_of_find?_eq_some hfind)
  · exact List.cons_ne_nil _ _

theorem length_text_directories {cwd : List Char} (root : List Char) (hcwd : cwd ≠ [])
    (h : root.length + cwd.length < lfnpMax) : (text root (directories cwd [] [])).length ≤ lfnpMax := by
  have hlen : (cwd.reverse ++ root).length < lfnpMax := by
    rwa [List.length_append, List.length_reverse, Nat.add_comm]
  rw [text_directories root cwd List.not_mem_nil (Or.inl (by rwa [List.append_nil])), List.nil_append, text]
  split
  · exact Nat.le_of_lt hlen
  · exact hlen

theorem inBounds_startBuf (flags : Flags) (rest : List Char) (hcds : ∀ c ∈ cds, c.curDir ≠ []) (hroot : root.length ≤ lfnpMax) :
    InBounds ((startBuf cds drive rest root).bind fun start =>
        (appendBufs flags root.length (components start.2 []) start.1).bind (finishBuf below)) ↔
      if (rest.head?.map isSlash).getD false then
        root.length < lfnpMax ∧ Roomy flags root [[]] (components rest.tail [])
      else
        (getcwd cds drive).length < lfnMax ∧ root.length + (getcwd cds drive).length < lfnpMax ∧
          Roomy flags root (directories (getcwd cds drive) [] []) (components rest []) := by
  by_cases habs : (rest.head?.map isSlash).getD false = true
  · rw [startBuf_absolute habs, if_pos habs]
    by_cases hlt : root.length < lfnpMax
    · rw [if_pos hlt, Option.bind_some, inBounds_appendBufs, and_iff_right hlt]
      · intro name hname
        rw [List.mem_singleton.mp hname]
        exact List.not_mem_nil
      · exact List.cons_ne_nil _ _
      · exact hlt
      · exact components_names _ List.not_mem_nil
    · rw [if_neg hlt]
      exact iff_of_false not_inBounds_none fun h => hlt h.1
  · have hcwd := getcwd_ne_nil hcds drive
    rw [startBuf_relative habs hcwd hroot, if_neg habs, ← and_assoc]
    by_cases hlt : (getcwd cds drive).length < lfnMax ∧ root.length + (getcwd cds drive).length < lfnpMax
    · rw [if_pos hlt, Option.bind_some, inBounds_appendBufs, and_iff_right hlt]
      · exact directories_names _ List.not_mem_nil fun name hname => absurd hname List.not_mem_nil
      · exact directories_ne_nil _ (Or.inl (by rwa [List.append_nil]))
      · exact length_text_directories root hcwd hlt.2
      · exact components_names _ List.not_mem_nil
    · rw [if_neg hlt]
      exact iff_of_false not_inBounds_none fun h => hlt h.1

theorem truenameBuf_inBounds_iff (flags : Flags) (env : Env) (cds : List Cds) (below : Char) (source : List Char)
    (htargets : ∀ s ∈ env.substList, s.target.length < lfnpMax) (hcds : ∀ c ∈ cds, c.curDir ≠ []) :
    InBounds (truenameBuf flags env cds below source) ↔ Fits flags env cds below source := by
  rw [truenameBuf, Fits, strcpy_eq]
  by_cases hsource : (source.takeWhile fun c => c ≠ ':').length < lfnpMax
  · have hdrive := length_splitDrive env hsource
    revert hdrive
    cases splitDrive env source with
    | mk drive rest =>
      intro hdrive
      simp only [if_pos hsource, bind, Option.bind_some, rootBuf_eq hdrive htargets]
      by_cases hbelow : ∀ s, substOf flags env drive = some s → s.target = [] → below ≠ '\\'
      · rw [if_pos hbelow, Option.bind_some, and_iff_right hsource, and_iff_right hbelow]
        exact inBounds_startBuf flags rest hcds (length_rootPrefix flags hdrive htargets)
      · rw [if_neg hbelow]
        exact iff_of_false not_inBounds_none fun h => hbelow h.2.1
  · simp only [hsource, false_and, iff_false]
    exact not_inBounds_none

theorem truenameBuf_inBounds_iff_sample :
    InBounds (truenameBuf ⟨true, false⟩ ⟨none, [⟨['x'], ['C', ':', '\\', 'd']⟩]⟩ [⟨['X'], ['\\', 'a']⟩] '\\'
        ['X', ':', '.', '.', '.', '/', 'b']) ↔
      Fits ⟨true, false⟩ ⟨none, [⟨['x'], ['C', ':', '\\', 'd']⟩]⟩ [⟨['X'], ['\\', 'a']⟩] '\\'
        ['X', ':', '.', '.', '.', '/', 'b'] := by
  apply truenameBuf_inBounds_iff
  · intro s hs
    rw [List.mem_singleton.mp hs]
    decide
  · intro c hc
    rw [List.mem_singleton.mp hc]
    decide

theorem truenameBuf_not_inBounds :
    ¬InBounds (truenameBuf ⟨false, true⟩ ⟨some ⟨2, by decide⟩, []⟩ [] '.' ('\\' :: List.replicate 256 'a')) := by
  have hnone : truenameBuf ⟨false, true⟩ ⟨some ⟨2, by decide⟩, []⟩ [] '.' ('\\' :: List.replicate 256 'a') = none :=
    Option.isNone_iff_eq_none.mp (by decide +kernel)
  rw [hnone]
  exact not_inBounds_none

section Refinement

theorem rewind_eq (dots : ℕ) (aux : List Char) :
    rewind dots aux =
      match rewindBuf 0 dots aux with
      | some (.ok aux) => some aux
      | _ => none := by
  induction aux generalizing dots with
  | nil => rfl
  | cons c aux ih =>
    rw [rewind, rewindBuf]
    by_cases hdots : (if c = '\\' then dots - 1 else dots) = 0
    · simp only [hdots, if_true]
    · by_cases hnil : aux = []
      · simp [hdots, hnil]
      · simp only [hdots, hnil, if_false, List.length_eq_zero_iff]
        exact ih _

theorem appendComp_text (hnames : ∀ name ∈ names, '\\' ∉ name) (hne : names ≠ []) (comp : List Char) :
    appendComp flags (text [] names) comp = (enterComp flags names comp).map (text []) := by
  rw [appendComp, enterComp]
  by_cases hnil : comp = []
  · simp [hnil]
  have hlen : comp.length ≠ 0 := fun h => hnil (List.length_eq_zero_iff.mp h)
  by_cases hdot : (comp.all fun c => c = '.') = true
  · simp only [hnil, hdot, hlen, if_true, if_false, not_true]
    by_cases htn : flags.tnDots = true
    · have hrewind := rewindBuf_text [] hnames hne (comp.length - 1)
      rw [Nat.sub_add_cancel (Nat.one_le_iff_ne_zero.mpr hlen)] at hrewind
      simp only [List.length_nil] at hrewind
      simp only [htn, if_true, rewind_eq, hrewind]
      by_cases hone : comp.length > 1
      · rw [if_pos hone]
        by_cases hlt : comp.length - 1 < names.length
        · simp only [if_pos hlt, Option.map_some]
        · simp only [if_neg hlt, Option.map_none]
      · have hzero : comp.length - 1 = 0 := by omega
        rw [if_neg hone, hzero, if_pos (List.length_pos_iff.mpr hne)]
        rfl
    · simp [htn, text_replicate, List.reverse_flatten]
  · simp [hnil, hdot, text]

theorem foldlM_appendComp (hnames : ∀ name ∈ names, '\\' ∉ name) (hne : names ≠ [])
    (hcomps : ∀ comp ∈ comps, '\\' ∉ comp) :
    comps.foldlM (appendComp flags) (text [] names) = (comps.foldlM (enterComp flags) names).map (text []) := by
  induction comps generalizing names with
  | nil => rfl
  | cons comp comps ih =>
    obtain ⟨hcomp, hrest⟩ := List.forall_mem_cons.mp hcomps
    rw [List.foldlM_cons, List.foldlM_cons, appendComp_text hnames hne]
    cases hen : enterComp flags names comp with
    | none => rfl
    | some names' =>
      obtain ⟨hnames', hne'⟩ := enterComp_names hcomp hnames hne hen
      exact ih hnames' hne' hrest

theorem foldlM_ne_nil (hnames : ∀ name ∈ names, '\\' ∉ name) (hne : names ≠ []) (hcomps : ∀ comp ∈ comps, '\\' ∉ comp)
    (h : comps.foldlM (enterComp flags) names = some names') : names' ≠ [] := by
  induction comps generalizing names with
  | nil =>
    cases h
    exact hne
  | cons comp comps ih =>
    obtain ⟨hcomp, hrest⟩ := List.forall_mem_cons.mp hcomps
    rw [List.foldlM_cons] at h
    cases hen : enterComp flags names comp with
    | none =>
      rw [hen] at h
      cases h
    | some names₁ =>
      obtain ⟨hnames', hne'⟩ := enterComp_names hcomp hnames hne hen
      rw [hen] at h
      exact ih hnames' hne' hrest h

theorem appendBufs_foldlM {res : Except ℕ (List Char)} (hnames : ∀ name ∈ names, '\\' ∉ name) (hne : names ≠ [])
    (hle : (text root names).length ≤ lfnpMax) (hcomps : ∀ comp ∈ comps, '\\' ∉ comp)
    (h : appendBufs flags root.length comps (text root names) = some res) :
    res =
      match comps.foldlM (enterComp flags) names with
      | none => .error enotdir
      | some names => .ok (text root names) := by
  induction comps generalizing names with
  | nil =>
    cases h
    rfl
  | cons comp comps ih =>
    obtain ⟨hcomp, hrest⟩ := List.forall_mem_cons.mp hcomps
    rw [appendBufs, appendBuf_text hnames hne hle] at h
    rw [List.foldlM_cons]
    by_cases hshort : comp.length < lfnMax
    · rw [if_pos hshort] at h
      cases hen : enterComp flags names comp with
      | none =>
        rw [hen] at h
        cases h
        rfl
      | some names' =>
        obtain ⟨hnames', hne'⟩ := enterComp_names hcomp hnames hne hen
        rw [hen] at h
        by_cases hfit : (text root names').length ≤ lfnpMax
        · simp only [if_pos hfit] at h
          exact ih hnames' hne' hfit hrest h
        · simp only [if_neg hfit, reduceCtorEq] at h
    · simp only [if_neg hshort, reduceCtorEq] at h

theorem text_eq_append (root : List Char) (names : List (List Char)) : text root names = text [] names ++ root := by
  induction names with
  | nil => rfl
  | cons name names ih => rw [text, text, ih, List.cons_append, List.append_assoc]

theorem stripBuf_eq (hne : names ≠ []) (hroot : root ≠ []) (below : Char) :
    stripBuf below (text root names) = stripSlash (text [] names ++ root) := by
  obtain ⟨name, names, rfl⟩ := List.exists_cons_of_ne_nil hne
  rw [← text_eq_append, text]
  have haux : name.reverse ++ text root names ≠ [] := by
    rw [text_eq_append]
    simp [hroot]
  obtain ⟨c, aux, haux⟩ := List.exists_cons_of_ne_nil haux
  rw [haux]
  rfl

theorem finish_refines {res : Except ℕ (List Char)} (hnames : ∀ name ∈ names, '\\' ∉ name) (hne : names ≠ [])
    (hle : (text root names).length ≤ lfnpMax) (hroot : root ≠ [])
    (h : (appendBufs flags root.length (components rest []) (text root names)).bind (finishBuf below) = some res) :
    (match (components rest []).foldlM (appendComp flags) (text [] names) with
      | none => .error enotdir
      | some aux => .ok (stripSlash (aux ++ root)).reverse) = res := by
  have hcomps := components_names rest (List.not_mem_nil (a := '\\'))
  obtain ⟨mid, hmid, hfinish⟩ := Option.bind_eq_some_iff.mp h
  have heq := appendBufs_foldlM hnames hne hle hcomps hmid
  rw [foldlM_appendComp hnames hne hcomps]
  cases hfold : (components rest []).foldlM (enterComp flags) names with
  | none =>
    rw [hfold] at heq
    rw [heq] at hfinish
    cases hfinish
    rfl
  | some names' =>
    have hne' := foldlM_ne_nil hnames hne hcomps hfold
    rw [hfold] at heq
    rw [heq, finishBuf, stripBuf_eq hne' hroot, terminate] at hfinish
    split at hfinish
    · cases hfinish
      rfl
    · cases hfinish

theorem closeDir_text {cwd : List Char} (hcwd : cwd ≠ []) :
    rootStart.closeDir cwd.reverse = text [] (directories cwd [] []) := by
  rw [text_directories [] cwd List.not_mem_nil (Or.inl (by rwa [List.append_nil])), List.nil_append, text, List.append_nil]
  obtain ⟨c, aux, haux⟩ := List.exists_cons_of_ne_nil (mt List.reverse_eq_nil_iff.mp hcwd)
  rw [haux, List.head?_cons]
  by_cases hc : c = '\\'
  · subst hc
    rfl
  · rw [if_neg (fun h => hc (Option.some.inj h)), rootStart.closeDir]
    intro aux' h
    exact hc (List.cons.inj h).1

theorem rootStart_eq (hcds : ∀ c ∈ cds, c.curDir ≠ []) (drive rest : List Char) :
    rootStart cds drive rest =
      if (rest.head?.map isSlash).getD false then (text [] [[]], rest.tail)
      else (text [] (directories (getcwd cds drive) [] []), rest) := by
  have hclose := closeDir_text (getcwd_ne_nil hcds drive)
  cases rest with
  | nil => rw [rootStart, hclose]; rfl
  | cons c rest => rw [rootStart, hclose]; rfl

/-- What `fd32_truename` does in its arrays is what it does when they are taken to be long enough. -/
theorem truenameBuf_refines {res : Except ℕ (List Char)} (htargets : ∀ s ∈ env.substList, s.target.length < lfnpMax)
    (hcds : ∀ c ∈ cds, c.curDir ≠ []) (hroot : rootPrefix flags env (splitDrive env source).1 ≠ [])
    (h : truenameBuf flags env cds below source = some res) : truename flags env cds source = res := by
  rw [truenameBuf] at h
  obtain ⟨_, hsource, h⟩ := Option.bind_eq_some_iff.mp h
  rw [strcpy_eq, Option.ite_none_right_eq_some] at hsource
  have hdrive := length_splitDrive env hsource.1
  rw [truename]
  revert hdrive hroot h
  cases splitDrive env source with
  | mk drive rest =>
    intro hroot h hdrive
    dsimp only at h hroot hdrive ⊢
    obtain ⟨root, hbuf, h⟩ := Option.bind_eq_some_iff.mp h
    rw [rootBuf_eq hdrive htargets, Option.ite_none_right_eq_some] at hbuf
    cases hbuf.2
    have hle := length_rootPrefix flags hdrive htargets
    obtain ⟨start, hstart, h⟩ := Option.bind_eq_some_iff.mp h
    rw [rootStart_eq hcds]
    by_cases habs : (rest.head?.map isSlash).getD false = true
    · rw [startBuf_absolute habs, Option.ite_none_right_eq_some] at hstart
      cases hstart.2
      rw [if_pos habs]
      refine finish_refines ?_ (List.cons_ne_nil _ _) hstart.1 hroot h
      intro name hname
      rw [List.mem_singleton.mp hname]
      exact List.not_mem_nil
    · have hcwd := getcwd_ne_nil hcds drive
      rw [startBuf_relative habs hcwd hle, Option.ite_none_right_eq_some] at hstart
      cases hstart.2
      rw [if_neg habs]
      refine finish_refines ?_ ?_ (length_text_directories _ hcwd hstart.1.2) hroot h
      · exact directories_names _ List.not_mem_nil fun name hname => absurd hname List.not_mem_nil
      · exact directories_ne_nil _ (Or.inl (by rwa [List.append_nil]))

theorem stripSlash_text (hne : names ≠ []) (s : List Char) :
    ∃ path, path ≠ [] ∧ stripSlash (text [] names ++ ':' :: s) = path ++ ':' :: s := by
  obtain ⟨name, names, rfl⟩ := List.exists_cons_of_ne_nil hne
  rw [text]
  cases name.reverse ++ text [] names with
  | nil => exact ⟨['\\'], List.cons_ne_nil _ _, rfl⟩
  | cons c aux =>
    rw [List.cons_append, List.cons_append, stripSlash]
    split
    · exact ⟨'\\' :: c :: aux, List.cons_ne_nil _ _, rfl⟩
    · exact ⟨c :: aux, List.cons_ne_nil _ _, rfl⟩

theorem rootStart_text (hcds : ∀ c ∈ cds, c.curDir ≠ []) (drive rest : List Char) :
    ∃ names rest', (∀ name ∈ names, '\\' ∉ name) ∧ names ≠ [] ∧ rootStart cds drive rest = (text [] names, rest') := by
  rw [rootStart_eq hcds]
  split
  · refine ⟨[[]], rest.tail, ?_, List.cons_ne_nil _ _, rfl⟩
    intro name hname
    rw [List.mem_singleton.mp hname]
    exact List.not_mem_nil
  · refine ⟨directories (getcwd cds drive) [] [], rest, ?_, ?_, rfl⟩
    · exact directories_names _ List.not_mem_nil fun name hname => absurd hname List.not_mem_nil
    · exact directories_ne_nil _ (Or.inl (by rw [List.append_nil]; exact getcwd_ne_nil hcds drive))

theorem truename_path {path : List Char} {tnDots : Bool} (hcds : ∀ c ∈ cds, c.curDir ≠ [])
    (h : truename ⟨false, tnDots⟩ env cds source = .ok path) : (path.dropWhile fun c => c ≠ ':').tail ≠ [] := by
  have hcolon := splitDrive_noColon env source
  rw [truename] at h
  revert h hcolon
  cases splitDrive env source with
  | mk drive rest =>
    intro h hcolon
    obtain ⟨names, rest', hnames, hne, hstart⟩ := rootStart_text hcds drive rest
    have hcomps := components_names rest' (List.not_mem_nil (a := '\\'))
    dsimp only at h
    rw [hstart, foldlM_appendComp hnames hne hcomps] at h
    cases hfold : (components rest' []).foldlM (enterComp ⟨false, tnDots⟩) names with
    | none =>
      rw [hfold] at h
      cases h
    | some names' =>
      have hne' := foldlM_ne_nil hnames hne hcomps hfold
      obtain ⟨p, hp, hstrip⟩ := stripSlash_text hne' drive.reverse
      rw [hfold] at h
      have hpath : (stripSlash (text [] names' ++ ':' :: drive.reverse)).reverse = path := Except.ok.inj h
      have hdrive : ∀ x ∈ drive, decide (x ≠ ':') = true := fun x hx => decide_eq_true fun he => hcolon (he ▸ hx)
      rw [← hpath, hstrip, List.reverse_append, List.reverse_cons, List.reverse_reverse, List.append_assoc,
        List.dropWhile_append_of_pos hdrive]
      simp [hp]

theorem setCurDir_ne_nil {path : List Char} (hcds : ∀ c ∈ cds, c.curDir ≠ []) (hpath : path ≠ []) (drive : List Char) :
    ∀ c ∈ setCurDir drive path cds, c.curDir ≠ [] := by
  induction cds with
  | nil => exact hcds
  | cons c cds ih =>
    obtain ⟨hc, hrest⟩ := List.forall_mem_cons.mp hcds
    rw [setCurDir]
    split
    · exact List.forall_mem_cons.mpr ⟨hpath, hrest⟩
    · exact List.forall_mem_cons.mpr ⟨hc, ih hrest⟩

theorem chdir_ne_nil (hcds : ∀ c ∈ cds, c.curDir ≠ []) (env : Env) (valid : List Char → Except ℕ Unit) (memory : Bool)
    (source : List Char) : ∀ c ∈ (chdir env valid memory source cds).2, c.curDir ≠ [] := by
  rw [chdir]
  split
  · exact hcds
  split
  · exact hcds
  split
  · exact hcds
  next aux htrue =>
    have hpath := truename_path hcds htrue
    dsimp only
    split
    · exact List.forall_mem_cons.mpr ⟨hpath, setCurDir_ne_nil hcds hpath _⟩
    · exact setCurDir_ne_nil hcds hpath _

theorem ChdirRun.ne_nil (h : ChdirRun (fun _ _ => True) cds) : ∀ c ∈ cds, c.curDir ≠ [] :=
  Reach.invariant (fun cds => ∀ c ∈ cds, c.curDir ≠ []) (fun c hc => by cases hc)
    (fun _ c _ hcds _ hstep => by
      cases hstep
      exact chdir_ne_nil hcds c.env c.valid c.memory c.dirName) h

end Refinement

end FreeDos32.Filesys
