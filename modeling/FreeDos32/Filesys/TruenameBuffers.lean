import FreeDos32.Filesys.Truename

namespace FreeDos32.Filesys

def lfnpMax : ℕ := 260

def lfnMax : ℕ := 256

section Buffers

/-- A write of a character at the end of what is in an array, which is backwards; `none` when it is outside of the array. -/
def push (room : ℕ) (c : Char) (buf : List Char) : Option (List Char) :=
  if buf.length < room then some (c :: buf) else none

/-- A write of a final zero, which the next write goes over. -/
def terminate (room : ℕ) (buf : List Char) : Option (List Char) := if buf.length < room then some buf else none

def copy (room : ℕ) : List Char → List Char → Option (List Char)
  | [], buf => some buf
  | c :: s, buf => (push room c buf).bind (copy room s)

def strcpy (room : ℕ) (s : List Char) : Option (List Char) := (copy room s []).bind (terminate room)

/-- The loop that goes back over components, with the place of `RootStart`; it leaves the buffer at its start. -/
def rewindBuf (root : ℕ) : ℕ → List Char → Option (Except ℕ (List Char))
  | _, [] => none
  | dots, c :: aux =>
    let dots := if c = '\\' then dots - 1 else dots
    if dots = 0 then some (.ok (c :: aux))
    else if aux.length = root then some (.error enotdir) else rewindBuf root dots aux

def appendBuf (flags : Flags) (root : ℕ) (aux comp : List Char) : Option (Except ℕ (List Char)) := do
  let _ ← strcpy lfnMax comp
  let dots := if comp.all fun c => c = '.' then comp.length else 0
  if comp = [] then return .ok aux
  else if dots = 0 then
    let aux ← copy lfnpMax comp aux
    let aux ← terminate lfnpMax aux
    return .ok (← push lfnpMax '\\' aux)
  else if flags.tnDots then if dots > 1 then rewindBuf root dots aux else return .ok aux
  else return .ok (← copy lfnpMax (List.replicate (dots - 1) ['.', '.', '\\']).flatten aux)

def appendBufs (flags : Flags) (root : ℕ) : List (List Char) → List Char → Option (Except ℕ (List Char))
  | [], aux => some (.ok aux)
  | comp :: comps, aux =>
    match appendBuf flags root aux comp with
    | none => none
    | some (.error e) => some (.error e)
    | some (.ok aux) => appendBufs flags root comps aux

def substOf (flags : Flags) (env : Env) (drive : List Char) : Option Subst :=
  if flags.tnSubst then env.substList.find? fun s => strcaseEq s.driveAlias drive else none

/-- What is in `Aux` up to `RootStart`; `below` is the byte before `Aux`. -/
def rootBuf (flags : Flags) (env : Env) (below : Char) (drive : List Char) : Option (List Char) := do
  let aux ← copy lfnpMax drive []
  let aux ← push lfnpMax ':' aux
  match substOf flags env drive with
  | none => return aux
  | some s =>
    match ← copy lfnpMax s.target [] with
    | '\\' :: aux => return aux
    -- with a backslash below an empty target `RootStart` is before the array, and the next write too
    | [] => if below = '\\' then none else return []
    | aux => return aux

/-- Appends the current directory for a relative path, and returns the rest of the path as well. -/
def startBuf (cds : List Cds) (drive rest aux : List Char) : Option (List Char × List Char) := do
  if (rest.head?.map isSlash).getD false then return (← push lfnpMax '\\' aux, rest.tail)
  else
    let comp ← strcpy lfnMax (getcwd cds drive)
    let aux ← copy lfnpMax comp.reverse aux
    let aux ← terminate lfnpMax aux
    if aux.head? = some '\\' then return (aux, rest) else return (← push lfnpMax '\\' aux, rest)

def stripBuf (below : Char) : List Char → List Char
  | '\\' :: aux => if aux.headD below = ':' then '\\' :: aux else aux
  | aux => aux

def finishBuf (below : Char) : Except ℕ (List Char) → Option (Except ℕ (List Char))
  | .error e => some (.error e)
  | .ok aux => (terminate lfnpMax (stripBuf below aux)).map fun aux => .ok aux.reverse

/-- `fd32_truename` with its arrays; `none` when it writes outside of one of them. -/
def truenameBuf (flags : Flags) (env : Env) (cds : List Cds) (below : Char) (source : List Char) :
    Option (Except ℕ (List Char)) := do
  let _ ← strcpy lfnpMax (source.takeWhile fun c => c ≠ ':')
  let (drive, rest) := splitDrive env source
  let root ← rootBuf flags env below drive
  let (aux, rest) ← startBuf cds drive rest root
  let res ← appendBufs flags root.length (components rest []) aux
  finishBuf below res

end Buffers

section Names

/-- What `Aux` has, backwards, when the directories with these names have been entered from the root, the last one first. -/
def text (root : List Char) : List (List Char) → List Char
  | [] => root
  | name :: names => '\\' :: (name.reverse ++ text root names)

/-- The directories that have been entered after a component; `none` when it leads above the root. -/
def enterComp (flags : Flags) (names : List (List Char)) (comp : List Char) : Option (List (List Char)) :=
  if comp = [] then some names
  else if ¬comp.all fun c => c = '.' then some (comp :: names)
  else if flags.tnDots then if comp.length - 1 < names.length then some (names.drop (comp.length - 1)) else none
  else some (List.replicate (comp.length - 1) ['.', '.'] ++ names)

/-- The directories of a current directory; `cur` is what has been read of a name, backwards. -/
def directories : List Char → List Char → List (List Char) → List (List Char)
  | [], [], names => names
  | [], cur, names => cur.reverse :: names
  | c :: s, cur, names => if c = '\\' then directories s [] (cur.reverse :: names) else directories s (c :: cur) names

variable {room : ℕ} {flags : Flags} {s buf root cur comp aux : List Char} {names names' : List (List Char)}

theorem copy_eq (h : buf.length ≤ room) :
    copy room s buf = if buf.length + s.length ≤ room then some (s.reverse ++ buf) else none := by
  induction s generalizing buf with
  | nil => rw [copy, if_pos (by simpa using h)]; rfl
  | cons c s ih =>
    rw [copy, push]
    by_cases hlt : buf.length < room
    · have hiff : (c :: buf).length + s.length ≤ room ↔ buf.length + (c :: s).length ≤ room := by
        rw [List.length_cons, List.length_cons]
        omega
      have hcopy := @ih (c :: buf) hlt
      rw [if_pos hlt, Option.bind_some, hcopy, List.reverse_cons, List.append_assoc]
      simp only [hiff]
      rfl
    · rw [if_neg hlt, if_neg]
      · rfl
      · rw [List.length_cons]
        omega

theorem copy_nil (h : s.length < room) : copy room s [] = some s.reverse := by
  rw [copy_eq (Nat.zero_le _), List.length_nil, Nat.zero_add, if_pos (Nat.le_of_lt h), List.append_nil]

theorem strcpy_eq : strcpy room s = if s.length < room then some s.reverse else none := by
  rw [strcpy, copy_eq (Nat.zero_le _), List.length_nil, Nat.zero_add, List.append_nil]
  by_cases hlt : s.length < room
  · rw [if_pos (Nat.le_of_lt hlt), if_pos hlt, Option.bind_some, terminate, if_pos (by rwa [List.length_reverse])]
  · rw [if_neg hlt]
    by_cases hle : s.length ≤ room
    · rw [if_pos hle, Option.bind_some, terminate, if_neg (by rwa [List.length_reverse])]
    · rw [if_neg hle]
      rfl

theorem length_lt_text (root : List Char) (name : List Char) (names : List (List Char)) :
    root.length < (text root (name :: names)).length := by
  induction names generalizing name with
  | nil =>
    simp only [text, List.length_cons, List.length_append]
    omega
  | cons name' names ih =>
    have hrest := ih name'
    rw [text, List.length_cons, List.length_append]
    omega

theorem rewindBuf_name {r dots : ℕ} {rest : List Char} (hs : '\\' ∉ s) (hdots : dots ≠ 0) (hr : r ≤ rest.length) :
    rewindBuf r dots (s ++ rest) =
      if s ≠ [] ∧ rest.length = r then some (.error enotdir) else rewindBuf r dots rest := by
  induction s with
  | nil => rw [if_neg (by simp)]; rfl
  | cons c s ih =>
    have hc : '\\' ≠ c := fun hc => hs (hc ▸ List.mem_cons_self)
    have hs' : '\\' ∉ s := fun hmem => hs (List.mem_cons_of_mem c hmem)
    have hcons : c :: s ≠ [] := List.cons_ne_nil c s
    rw [List.cons_append, rewindBuf]
    rw [if_neg hc.symm, if_neg hdots, ih hs']
    by_cases hrest : rest.length = r
    · rw [if_pos (⟨hcons, hrest⟩ : _ ∧ _)]
      by_cases hnil : s = []
      · rw [if_pos (by rw [hnil]; exact hrest)]
      · rw [if_pos (⟨hnil, hrest⟩ : _ ∧ _), ite_self]
    · have hlen : (s ++ rest).length ≠ r := by
        rw [List.length_append]
        omega
      rw [if_neg hlen, if_neg (fun h => hrest h.2), if_neg (fun h => hrest h.2)]

theorem rewindBuf_text (root : List Char) (hnames : ∀ name ∈ names, '\\' ∉ name) (hne : names ≠ []) (k : ℕ) :
    rewindBuf root.length (k + 1) (text root names) =
      if k < names.length then some (.ok (text root (names.drop k))) else some (.error enotdir) := by
  induction names generalizing k with
  | nil => exact absurd rfl hne
  | cons name names ih =>
    obtain ⟨hname, hrest⟩ := List.forall_mem_cons.mp hnames
    have hback : '\\' ∉ name.reverse := by rwa [List.mem_reverse]
    rw [text, rewindBuf]
    rw [if_pos rfl, Nat.add_sub_cancel]
    cases k with
    | zero =>
      rw [if_pos rfl, if_pos (by simp)]
      rfl
    | succ k =>
      rw [if_neg (Nat.succ_ne_zero k)]
      cases names with
      | nil =>
        have hout : ¬k + 1 < [name].length := by simp
        rw [if_neg hout, text, List.length_append]
        by_cases hnil : name.reverse = []
        · rw [hnil, if_pos (by simp)]
        · rw [if_neg, rewindBuf_name hback (Nat.succ_ne_zero k) (Nat.le_refl _), if_pos ⟨hnil, rfl⟩]
          have := List.length_pos_iff.mpr hnil
          omega
      | cons name' names =>
        have hlt := length_lt_text root name' names
        rw [if_neg (by rw [List.length_append]; omega), rewindBuf_name hback (Nat.succ_ne_zero k) (Nat.le_of_lt hlt),
          if_neg (fun h => by omega), ih hrest (List.cons_ne_nil _ _)]
        simp only [List.length_cons, Nat.add_lt_add_iff_right, List.drop_succ_cons]

theorem text_replicate (n : ℕ) (root : List Char) (names : List (List Char)) :
    text root (List.replicate n ['.', '.'] ++ names) =
      ((List.replicate n ['.', '.', '\\']).flatten).reverse ++ text root names := by
  induction n generalizing names with
  | zero => rfl
  | succ n ih =>
    have hmove : List.replicate (n + 1) ['.', '.'] ++ names = List.replicate n ['.', '.'] ++ (['.', '.'] :: names) := by
      rw [List.replicate_succ', List.append_assoc]
      rfl
    rw [hmove, ih, text, List.replicate_succ, List.flatten_cons, List.reverse_append, List.append_assoc]
    rfl

theorem length_text_drop (root : List Char) (k : ℕ) (names : List (List Char)) :
    (text root (names.drop k)).length ≤ (text root names).length := by
  induction names generalizing k with
  | nil => rw [List.drop_nil]
  | cons name names ih =>
    cases k with
    | zero => exact Nat.le_refl _
    | succ k =>
      have hrest := ih k
      rw [List.drop_succ_cons, text, List.length_cons, List.length_append]
      omega

theorem copy_push (h : buf.length ≤ room) :
    ((copy room s buf).bind fun buf => (terminate room buf).bind fun buf => push room '\\' buf) =
      if ('\\' :: (s.reverse ++ buf)).length ≤ room then some ('\\' :: (s.reverse ++ buf)) else none := by
  have hlen : ('\\' :: (s.reverse ++ buf)).length = buf.length + s.length + 1 := by
    rw [List.length_cons, List.length_append, List.length_reverse, Nat.add_comm s.length]
  have hlen' : (s.reverse ++ buf).length = buf.length + s.length := by
    rw [List.length_append, List.length_reverse, Nat.add_comm]
  rw [copy_eq h, hlen]
  by_cases hlt : buf.length + s.length < room
  · have hsucc : buf.length + s.length + 1 ≤ room := hlt
    rw [if_pos (Nat.le_of_lt hlt), if_pos hsucc, Option.bind_some, terminate, hlen', if_pos hlt, Option.bind_some, push,
      hlen', if_pos hlt]
  · have hsucc : ¬buf.length + s.length + 1 ≤ room := hlt
    rw [if_neg hsucc]
    by_cases hle : buf.length + s.length ≤ room
    · rw [if_pos hle, Option.bind_some, terminate, hlen', if_neg hlt]
      rfl
    · rw [if_neg hle]
      rfl

theorem appendBuf_text (hnames : ∀ name ∈ names, '\\' ∉ name) (hne : names ≠ []) (hle : (text root names).length ≤ lfnpMax) :
    appendBuf flags root.length (text root names) comp =
      if comp.length < lfnMax then
        match enterComp flags names comp with
        | none => some (.error enotdir)
        | some names => if (text root names).length ≤ lfnpMax then some (.ok (text root names)) else none
      else none := by
  rw [appendBuf, strcpy_eq]
  by_cases hcomp : comp.length < lfnMax
  · rw [if_pos hcomp, if_pos hcomp, enterComp]
    by_cases hnil : comp = []
    · simp [hnil, hle]
    · have hlen : comp.length ≠ 0 := fun h => hnil (List.length_eq_zero_iff.mp h)
      by_cases hdot : (comp.all fun c => c = '.') = true
      · simp only [hdot, hnil, hlen, if_true, if_false, not_true, bind, Option.bind_some]
        by_cases htn : flags.tnDots = true
        · simp only [htn, if_true]
          have hback : (text root (names.drop (comp.length - 1))).length ≤ lfnpMax :=
            Nat.le_trans (length_text_drop root _ names) hle
          have hrewind := rewindBuf_text root hnames hne (comp.length - 1)
          rw [Nat.sub_add_cancel (Nat.one_le_iff_ne_zero.mpr hlen)] at hrewind
          by_cases hone : comp.length > 1
          · rw [if_pos hone, hrewind]
            by_cases hlt : comp.length - 1 < names.length
            · simp only [if_pos hlt, hback, if_true]
            · simp only [if_neg hlt]
          · have hzero : comp.length - 1 = 0 := by omega
            have hpos : 0 < names.length := List.length_pos_iff.mpr hne
            simp only [if_neg hone, hzero, if_pos hpos, List.drop_zero, if_pos hle]
            rfl
        · simp only [htn, Bool.false_eq_true, if_false, text_replicate]
          rw [copy_eq hle, List.length_append, List.length_reverse, Nat.add_comm (text root names).length]
          split <;> rfl
      · have hcopy := copy_push (s := comp) hle
        simp only [hdot, hnil, Bool.false_eq_true, if_false, not_false_eq_true, if_true, bind, Option.bind_some]
        simp only [← Option.bind_assoc] at hcopy ⊢
        rw [hcopy, ← text]
        by_cases hfit : (text root (comp :: names)).length ≤ lfnpMax
        · rw [if_pos hfit, if_pos hfit]
          rfl
        · rw [if_neg hfit, if_neg hfit]
          rfl
  · rw [if_neg hcomp, if_neg hcomp]
    rfl

theorem enterComp_names (hcomp : '\\' ∉ comp) (hnames : ∀ name ∈ names, '\\' ∉ name) (hne : names ≠ [])
    (h : enterComp flags names comp = some names') : (∀ name ∈ names', '\\' ∉ name) ∧ names' ≠ [] := by
  rw [enterComp] at h
  split at h
  · cases h
    exact ⟨hnames, hne⟩
  split at h
  · cases h
    exact ⟨List.forall_mem_cons.mpr ⟨hcomp, hnames⟩, List.cons_ne_nil _ _⟩
  split at h
  · split at h
    · next hlt =>
      cases h
      constructor
      · intro name hname
        exact hnames name (List.mem_of_mem_drop hname)
      · intro hnil
        rw [List.drop_eq_nil_iff] at hnil
        omega
    · cases h
  · cases h
    constructor
    · intro name hname
      rcases List.mem_append.mp hname with hdots | hmem
      · rw [List.eq_of_mem_replicate hdots]
        decide
      · exact hnames name hmem
    · intro hnil
      exact hne (List.append_eq_nil_iff.mp hnil).2

theorem components_names (s : List Char) (hcur : '\\' ∉ cur) : ∀ comp ∈ components s cur, '\\' ∉ comp := by
  induction s generalizing cur with
  | nil =>
    intro comp hcomp
    rw [List.mem_singleton.mp hcomp, List.mem_reverse]
    exact hcur
  | cons c s ih =>
    rw [components]
    split
    · refine List.forall_mem_cons.mpr ⟨?_, ih List.not_mem_nil⟩
      rw [List.mem_reverse]
      exact hcur
    · next hslash =>
      apply ih
      intro hmem
      rcases List.mem_cons.mp hmem with hc | hmem
      · exact hslash (hc ▸ rfl)
      · exact hcur hmem

theorem directories_names (s : List Char) (hcur : '\\' ∉ cur) (hnames : ∀ name ∈ names, '\\' ∉ name) :
    ∀ name ∈ directories s cur names, '\\' ∉ name := by
  induction s generalizing cur names with
  | nil =>
    cases cur with
    | nil => exact hnames
    | cons c cur =>
      refine List.forall_mem_cons.mpr ⟨?_, hnames⟩
      rw [List.mem_reverse]
      exact hcur
  | cons c s ih =>
    rw [directories]
    split
    · apply ih List.not_mem_nil
      refine List.forall_mem_cons.mpr ⟨?_, hnames⟩
      rw [List.mem_reverse]
      exact hcur
    · next hc =>
      apply ih _ hnames
      intro hmem
      rcases List.mem_cons.mp hmem with hback | hmem
      · exact hc hback.symm
      · exact hcur hmem

theorem directories_ne_nil (s : List Char) (h : s ++ cur ≠ [] ∨ names ≠ []) : directories s cur names ≠ [] := by
  induction s generalizing cur names with
  | nil =>
    cases cur with
    | nil =>
      rcases h with h | h
      · exact absurd rfl h
      · exact h
    | cons c cur => exact List.cons_ne_nil _ _
  | cons c s ih =>
    rw [directories]
    split
    · exact ih (Or.inr (List.cons_ne_nil _ _))
    · apply ih
      left
      simp

theorem text_directories (root s : List Char) (hcur : '\\' ∉ cur) (h : s ++ cur ≠ [] ∨ names ≠ []) :
    text root (directories s cur names) =
      if (s.reverse ++ (cur ++ text root names)).head? = some '\\' then s.reverse ++ (cur ++ text root names)
      else '\\' :: (s.reverse ++ (cur ++ text root names)) := by
  induction s generalizing cur names with
  | nil =>
    cases cur with
    | nil =>
      rcases h with h | h
      · exact absurd rfl h
      · obtain ⟨name, names, rfl⟩ := List.exists_cons_of_ne_nil h
        rfl
    | cons c cur =>
      have hc : c ≠ '\\' := fun hc => hcur (hc ▸ List.mem_cons_self)
      rw [directories, text, List.reverse_reverse, List.reverse_nil, List.nil_append, List.cons_append, List.head?_cons,
        if_neg (fun h => hc (Option.some.inj h))]
      · exact fun h => absurd h (List.cons_ne_nil _ _)
  | cons c s ih =>
    rw [directories, List.reverse_cons, List.append_assoc, List.singleton_append]
    split
    · next hc =>
      rw [ih List.not_mem_nil (Or.inr (List.cons_ne_nil _ _)), text, List.reverse_reverse, List.nil_append, hc]
    · next hc =>
      rw [ih _ (Or.inl (by simp)), List.cons_append]
      intro hmem
      rcases List.mem_cons.mp hmem with hback | hmem
      · exact hc hback.symm
      · exact hcur hmem

end Names

end FreeDos32.Filesys
