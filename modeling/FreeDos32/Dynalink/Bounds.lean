import FreeDos32.Dynalink.Layout
import FreeDos32.Dynalink.SectionOrder

namespace FreeDos32.Dynalink

open Prog

variable {ω α ε : Type} {kf : KernFuncs ω} {junk : Junk} {s t : Load ω}

/-- What has gone astray stays in the record. -/
def Straying (s t : Load ω) : Prop := t.strays = [] → s.strays = []

instance : Std.Refl (Straying (ω := ω)) := ⟨fun _ h => h⟩

instance : IsTrans (Load ω) Straying := ⟨fun _ _ _ h h' hu => h (h' hu)⟩

/-- Nothing goes wrong in the function, and nothing goes astray. -/
def InBounds (x : Prog (Load ω) Fault Dword) (s : Load ω) : Prop := x.Ends s (fun _ t => t.strays = []) fun _ _ => False

/-- The same for a part of a body, which may also return. -/
def Inside (x : Body ω α) (s : Load ω) : Prop :=
  x.Ends s (fun _ t => t.strays = []) (exits (fun _ t => t.strays = []) fun _ _ => False)

theorem inBounds_function {x : Body ω Dword} : InBounds (.function x) s ↔ Inside x s := ends_function x

theorem strays_of_exits {e : Exit Dword Fault} (h : exits (fun _ t => t.strays = []) (fun _ _ => False) e t) :
    t.strays = [] := by
  cases e with
  | returns r => exact h
  | fault f => exact h.elim

theorem inside_bind_pure {β : Type} {x : Body ω α} {f : α → β} : Inside (x >>= fun a => pure (f a)) s ↔ Inside x s :=
  ends_bind x _

theorem Inside.strays {x : Body ω α} (hx : Steps Straying x) (h : Inside x s) : s.strays = [] := by
  refine hx s ?_
  unfold Inside Ends at h
  rcases hrun : x.run s with ⟨a | e | _, t⟩ <;> rw [hrun] at h
  · exact h
  · exact strays_of_exits h
  · exact h.elim

theorem not_inside_astray {x : Body ω α} (hx : Steps Straying x) (f : Fault) : ¬Inside x (s.astray f) := fun h =>
  List.cons_ne_nil _ _ (h.strays hx)

theorem inside_loop_iff {β : Type} {f : ℕ → β → Body ω β} (hf : ∀ k b, Steps Straying (f k b)) {n : ℕ} {b : β}
    (hs : s.strays = []) :
    Inside (Prog.loop f n 0 b) s ↔
      ∀ m < n, ∀ c t, (Prog.loop f m 0 b).run s = (.ok c, t) → Inside (f m c) t := by
  have hback : ∀ k b (t : Load ω), ((f k b).run t).2.strays = [] → t.strays = [] := fun k b t => hf k b t
  unfold Inside
  rw [ends_loop_iff_rounds (I := fun t : Load ω => t.strays = []) (fun _ _ he => strays_of_exits he) hback]
  simp only [Nat.zero_add]
  exact ⟨fun h => h.2, fun h => ⟨hs, h⟩⟩

theorem inside_loop_iff_of_rounds {β : Type} {f : ℕ → β → Body ω β} (hf : ∀ k b, Steps Straying (f k b)) {n : ℕ} {b : β}
    (hs : s.strays = []) {c : ℕ → β → Load ω → Prop}
    (hround : ∀ m < n, ∀ a t, (Prog.loop f m 0 b).run s = (.ok a, t) → t.strays = [] → (Inside (f m a) t ↔ c m a t)) :
    Inside (Prog.loop f n 0 b) s ↔ ∀ m < n, ∀ a t, (Prog.loop f m 0 b).run s = (.ok a, t) → c m a t := by
  rw [inside_loop_iff hf hs]
  constructor
  · intro h m hm a t ht
    have hin := h m hm a t ht
    exact (hround m hm a t ht (hin.strays (hf m a))).mp hin
  · intro h m
    induction m using Nat.strongRecOn with
    | _ m ih =>
      intro hm a t ht
      have hbefore : Inside (Prog.loop f m 0 b) s :=
        (inside_loop_iff hf hs).mpr fun k hk c u hu => ih k hk (Nat.lt_trans hk hm) c u hu
      exact (hround m hm a t ht ((ends_iff_of_run ht).mp hbefore)).mpr (h m hm a t ht)

/-- Whatever the state is, nothing goes wrong and nothing goes astray. -/
def Quiet (x : Body ω α) : Prop := ∀ s, x.Ends s (fun _ t => t.strays = s.strays)
  (exits (fun _ t => t.strays = s.strays) fun _ _ => False)

namespace Quiet

variable {β : Type} {x y : Body ω α} {f : α → Body ω β}

theorem exits_congr {l : List Fault} (h : t.strays = l) {e : Exit Dword Fault} {u : Load ω}
    (he : exits (fun _ u => u.strays = t.strays) (fun _ _ => False) e u) :
    exits (fun _ u => u.strays = l) (fun _ _ => False) e u := h ▸ he

theorem bind (hx : Quiet x) (hf : ∀ a, Quiet (f a)) : Quiet (x >>= f) := by
  intro s
  rw [ends_bind]
  exact (hx s).mono (fun a t ht => (hf a t).mono (fun _ u hu => hu.trans ht) fun _ _ he => exits_congr ht he) fun _ _ he => he

theorem pure (a : α) : Quiet (Pure.pure a : Body ω α) := fun _ => rfl

theorem ret (r : Dword) : Quiet (Dynalink.ret r : Body ω α) := fun _ => rfl

theorem ite {c : Prop} [Decidable c] (hx : c → Quiet x) (hy : ¬c → Quiet y) : Quiet (if c then x else y) := by
  split
  · exact hx ‹_›
  · exact hy ‹_›

theorem when {c : Prop} [Decidable c] {x : Body ω Unit} (hx : c → Quiet x) : Quiet (.when c x) := ite hx fun _ => pure ()

theorem reads (g : Load ω → α) : Quiet (.reads g : Body ω α) := fun _ => rfl

theorem fileSeek (p : Dword) (w : Whence) : Quiet (Dynalink.fileSeek kf p w) := fun _ => rfl

theorem fileRead (old : List Byte) (n : Dword) : Quiet (Dynalink.fileRead kf old n) := fun _ => rfl

theorem fileReadTo (a n : Dword) : Quiet (Dynalink.fileReadTo kf a n) := fun _ => rfl

theorem setTables (g : TableInfo → TableInfo) : Quiet (Dynalink.setTables g : Body ω Unit) := fun _ => rfl

theorem memAlloc (n : Dword) : Quiet (Dynalink.memAlloc kf n) := fun s => by
  rw [ends_memAlloc]
  exact ⟨fun _ => rfl, fun _ => rfl⟩

theorem straying (hx : Quiet x) : Steps Straying x := by
  intro s
  have h := hx s
  unfold Straying
  unfold Ends at h
  rcases hrun : x.run s with ⟨a | e | _, t⟩ <;> rw [hrun] at h
  · exact fun hs => h.symm.trans hs
  · cases e with
    | returns r => exact fun hs => Eq.trans (Eq.symm h) hs
    | fault f => exact h.elim
  · exact h.elim

theorem inside (hx : Quiet x) (hs : s.strays = []) : Inside x s :=
  (hx s).mono (fun _ _ h => h.trans hs) fun _ _ he => exits_congr hs he

end Quiet

/-- What a variable of `n` bytes that held `old` holds after it has been read. -/
def bufferAfter (kf : KernFuncs ω) (old : List Byte) (n : Dword) (w : ω) : List Byte :=
  let got := (kf.fileRead n w).1.2.take n.toNat
  (got ++ old.drop got.length).take n.toNat

section Rules

variable {f : Dword → Body ω α}

theorem inside_fileSeek {p : Dword} {w : Whence} :
    Inside (fileSeek kf p w >>= f) s ↔ Inside (f (kf.fileSeek p w s.world).1) (s.setWorld (kf.fileSeek p w s.world).2) :=
  Iff.rfl

theorem inside_fileRead {old : List Byte} {n : Dword} {f : Dword × List Byte → Body ω α} :
    Inside (fileRead kf old n >>= f) s ↔
      Inside (f ((kf.fileRead n s.world).1.1, bufferAfter kf old n s.world)) (s.setWorld (kf.fileRead n s.world).2) :=
  Iff.rfl

theorem inside_setTables {g : TableInfo → TableInfo} {f : Unit → Body ω α} :
    Inside (setTables g >>= f) s ↔ Inside (f ()) (s.setTables (g s.tables)) := Iff.rfl

theorem inside_when_setTables {c : Prop} [Decidable c] {g : TableInfo → TableInfo} {f : Unit → Body ω α} :
    Inside (.when c (setTables g) >>= f) s ↔ Inside (f ()) (s.setTables (if c then g s.tables else s.tables)) := by
  split
  · rw [when_pos ‹_›]
    exact Iff.rfl
  · rw [when_neg ‹_›]
    exact Iff.rfl

theorem inside_reads {β : Type} {g : Load ω → β} {f : β → Body ω α} :
    Inside (.reads g >>= f) s ↔ Inside (f (g s)) s := Iff.rfl

theorem inside_guard {c : Prop} [Decidable c] {r : Dword} {f : Unit → Body ω α} (hs : s.strays = []) :
    Inside (.when c (ret r) >>= f) s ↔ (¬c → Inside (f ()) s) := by
  unfold Inside
  rw [ends_bind, ends_when]
  exact ⟨fun h => h.2, fun h => ⟨fun _ => hs, h⟩⟩

theorem inside_stray {c : Prop} [Decidable c] {e : Fault} {f : Unit → Body ω α} (hf : Steps Straying (f ())) :
    Inside (.when c (stray e) >>= f) s ↔ ¬c ∧ Inside (f ()) s := by
  by_cases hc : c
  · rw [when_pos hc]
    exact ⟨fun h => absurd h (not_inside_astray hf e), fun h => absurd hc h.1⟩
  · rw [when_neg hc]
    exact ⟨fun h => ⟨hc, h⟩, fun h => h.2⟩

theorem inside_stray_quiet {c : Prop} [Decidable c] {e : Fault} {f : Unit → Body ω α} (hf : Quiet (f ()))
    (hs : s.strays = []) : Inside (.when c (stray e) >>= f) s ↔ ¬c :=
  (inside_stray hf.straying).trans (and_iff_left (hf.inside hs))

end Rules

theorem getSection_strays (i : ℕ) : Steps Straying (getSection i : Body ω SectionInfo) :=
  Steps.bind Steps.state fun s => by
    split
    · exact Steps.pure _
    · exact Steps.fail _

theorem setSection_strays (i : ℕ) (f : SectionInfo → SectionInfo) : Steps Straying (setSection i f : Body ω Unit) :=
  Steps.bind (getSection_strays i) fun _ => Steps.update fun _ h => h

theorem getSymbol_strays (i : ℕ) : Steps Straying (getSymbol i : Body ω SymbolInfo) :=
  Steps.bind Steps.state fun s => by
    split
    · exact Steps.pure _
    · exact Steps.fail _

theorem setSymbol_strays (i : ℕ) (f : SymbolInfo → SymbolInfo) : Steps Straying (setSymbol i f : Body ω Unit) :=
  Steps.bind (getSymbol_strays i) fun _ => Steps.update fun _ h => h

theorem inside_getSection {i : ℕ} {f : SectionInfo → Body ω α} :
    Inside (getSection i >>= f) s ↔ ∃ x, s.sections[i]? = some x ∧ Inside (f x) s := by
  unfold getSection Inside
  rw [ends_bind, ends_bind, ends_state]
  split
  · rename_i x hx
    rw [hx]
    exact ⟨fun h => ⟨x, rfl, h⟩, fun ⟨y, hy, h⟩ => by cases hy; exact h⟩
  · rename_i hx
    rw [hx]
    exact ⟨fun h => False.elim h, fun ⟨y, hy, _⟩ => nomatch hy⟩

theorem inside_setSection {i : ℕ} {x : SectionInfo} {g : SectionInfo → SectionInfo} {f : Unit → Body ω α}
    (hx : s.sections[i]? = some x) :
    Inside (setSection i g >>= f) s ↔ Inside (f ()) (s.setSections (s.sections.set i (g x))) := by
  unfold Inside
  rw [ends_bind, ends_setSection hx]

theorem inside_goWrong {c : Prop} [Decidable c] {e : Fault} {f : Unit → Body ω α} :
    Inside (.when c (goWrong e) >>= f) s ↔ ¬c ∧ Inside (f ()) s := by
  by_cases hc : c
  · rw [when_pos hc]
    exact ⟨fun h => False.elim h, fun h => absurd hc h.1⟩
  · rw [when_neg hc]
    exact ⟨fun h => ⟨hc, h⟩, fun h => h.2⟩

section Headers

/-- The ELF header that `ELF_read_headers` gets. -/
def headerRead (kf : KernFuncs ω) (junk : Junk) (s : Load ω) : List Byte :=
  bufferAfter kf junk.header 52 (kf.fileSeek (kf.fileOffset + 0) .set s.world).2

/-- The number of sections that the header is checked against. -/
def sectionsRead (bs : List Byte) (t : TableInfo) : Word :=
  if (elfHeader bs).eShoff ≠ 0 then (elfHeader bs).eShnum else t.numSections

/-- A header that is accepted and has the section names behind the last section. -/
def NamesBehind (bs : List Byte) (t : TableInfo) : Prop :=
  bs.take 4 = elfSignature ∧ bs.getD 4 0 = elfclass32 ∧ bs.getD 5 0 = elfdata2lsb ∧
    (elfHeader bs).eShstrndx = sectionsRead bs t

theorem elfReadNames_quiet (h : ElfSectionHeader) : Quiet (elfReadNames kf h) :=
  .ite (fun _ => .bind (.memAlloc _) fun _ => .bind (.setTables _) fun _ => .bind (.when fun _ => .ret 0) fun _ =>
    .bind (.fileSeek _ _) fun _ => .bind (.when fun _ => .ret 0) fun _ => .bind (.fileReadTo _ _) fun _ =>
    .bind (.when fun _ => .ret 0) fun _ => .setTables _) fun _ => .setTables _

/-- The only index that is not checked is the one behind the last section. -/
theorem elfReadHeaders_inBounds_iff (hs : s.strays = []) :
    InBounds (elfReadHeaders kf junk) s ↔ ¬NamesBehind (headerRead kf junk s) s.tables := by
  have hnames : ∀ (bs : List Byte) (t : TableInfo), Quiet (do
      let res ← fileSeek kf
        (kf.fileOffset + t.sectionHeader + (elfHeader bs).eShstrndx.setWidth 32 * t.sectionHeaderSize.setWidth 32) .set
      .when (res.slt 0) (ret 0)
      let x ← fileRead kf junk.sectionHeader 40
      .when (x.1.slt 0) (ret 0)
      setTables fun t => { t with sectionNames := 0 }
      elfReadNames kf (elfSectionHeader x.2)
      .when ((elfHeader bs).eEntry = 0) (setTables fun t =>
        { t with flags := t.flags ||| noEntry ||| needLoadRelocatable ||| needSectionRelocation })
      pure (elfHeader bs).eEntry) := fun bs t =>
    .bind (.fileSeek _ _) fun _ => .bind (.when fun _ => .ret 0) fun _ => .bind (.fileRead _ _) fun _ =>
    .bind (.when fun _ => .ret 0) fun _ => .bind (.setTables _) fun _ => .bind (elfReadNames_quiet _) fun _ =>
    .bind (.when fun _ => .setTables _) fun _ => .pure _
  unfold elfReadHeaders
  rw [inBounds_function, inside_fileSeek, inside_fileRead]
  show Inside _ _ ↔ ¬NamesBehind (bufferAfter kf junk.header 52 (s.setWorld _).world) _
  generalize bufferAfter kf junk.header 52 (s.setWorld (kf.fileSeek (kf.fileOffset + 0) .set s.world).2).world = bs
  dsimp only
  rw [inside_guard, inside_setTables, inside_guard, inside_guard, inside_when_setTables, inside_reads, inside_guard,
    inside_stray_quiet (hnames bs _)]
  · simp only [Load.setTables_tables, Load.setWorld_tables, apply_ite TableInfo.numSections, ne_eq, not_not]
    change (_ → _ → _ → ¬sectionsRead bs s.tables < _ → ¬sectionsRead bs s.tables ≤ _) ↔ _
    have hcheck : ∀ n e : Word, (¬n < e → ¬n ≤ e) ↔ e ≠ n := fun n e => by bv_omega
    rw [hcheck, NamesBehind, not_and, not_and, not_and]
  all_goals exact hs

end Headers

section SectionHeaders

/-- The comparison of the name with `.bss` stays in the table of names. -/
def NameFits (h : ElfSectionHeader) (t : Load ω) : Prop := t.tables.sectionNames ≠ 0 →
  h.shName.toNat + (strcmp (fun k => t.ram (t.tables.sectionNames + h.shName + BitVec.ofNat 32 k)) bssName).2 ≤
    t.tables.sectionNamesSize.toNat

/-- The section header that round `i` works on: its relocations are for a section that there is, and no size of an entry
is zero where it is divided by. -/
def HeaderFits (h : ElfSectionHeader) (i : ℕ) (t : Load ω) : Prop :=
  NameFits h t ∧
    (h.shType = shtRel → ∃ x, t.sections[h.shInfo.toNat]? = some x ∧
      (h.shInfo.toNat = i ∨ x.numReloc = 0 → h.shEntsize ≠ 0)) ∧
    (h.shType = shtSymtab ∨ h.shType = shtDynsym → h.shEntsize ≠ 0)

theorem elfReadReloc_ends {h : ElfSectionHeader} {j : ℕ} {r : List Byte} (hs : s.strays = [])
    (hlt : h.shInfo.toNat < s.sections.length) :
    (elfReadReloc kf h j r).Ends s (fun _ t => t.strays = [] ∧ h.shInfo.toNat < t.sections.length) fun _ _ => False := by
  unfold elfReadReloc
  rw [ends_bind, ends_fileSeek, ends_bind, ends_fileRead, ends_bind,
    ends_setSection (List.getElem?_eq_getElem (by exact hlt))]
  exact ⟨hs, by rwa [Load.setSections_sections, List.length_set]⟩

theorem elfReadRel_inside_iff {h : ElfSectionHeader} {v : SectionVars} (hs : s.strays = []) :
    Inside (elfReadRel kf h v) s ↔
      ∃ x, s.sections[h.shInfo.toNat]? = some x ∧ (x.numReloc = 0 → h.shEntsize ≠ 0) := by
  unfold elfReadRel
  rw [inside_getSection]
  refine exists_congr fun x => and_congr_right fun hx => ?_
  rw [inside_guard hs, not_not]
  refine imp_congr_right fun _ => ?_
  rw [inside_goWrong]
  refine and_iff_left ?_
  obtain ⟨hlt, -⟩ := List.getElem?_eq_some_iff.mp hx
  rw [inside_setSection hx, Inside, ends_bind, ends_memAlloc]
  have hrest : ∀ (u : Load ω) (reloc : Dword), u.strays = [] → h.shInfo.toNat < u.sections.length →
      Inside (do
        setSection h.shInfo.toNat fun x => x.setReloc reloc
        .when (reloc = 0) (ret 0)
        let r ← .loop (elfReadReloc kf h) (h.shSize / h.shEntsize).toNat 0 v.r
        pure { v with r }) u := by
    intro u reloc hu hlt
    rw [inside_setSection (List.getElem?_eq_getElem hlt), inside_guard (by exact hu)]
    intro _
    unfold Inside
    rw [ends_bind]
    have hloop := Ends.loop_zero (f := elfReadReloc kf h) (n := (h.shSize / h.shEntsize).toNat) (b := v.r)
      (I := fun _ _ t => t.strays = [] ∧ h.shInfo.toNat < t.sections.length) (E := fun _ _ => False)
      (s := u.setSections (u.sections.set h.shInfo.toNat (u.sections[h.shInfo.toNat].setReloc reloc)))
      ⟨hu, by rwa [Load.setSections_sections, List.length_set]⟩ fun _ _ t _ ht => elfReadReloc_ends ht.1 ht.2
    exact hloop.mono (fun _ _ ht => ht.1) fun _ _ he => he.elim
  exact ⟨fun _ => hrest _ _ hs (by simpa using hlt), fun _ => hrest _ _ hs (by simpa using hlt)⟩

theorem elfReadSymtab_inside_iff {i : ℕ} {h : ElfSectionHeader} {v : SectionVars} (hs : s.strays = []) :
    Inside (elfReadSymtab i h v) s ↔ h.shEntsize ≠ 0 := by
  unfold elfReadSymtab
  rw [inside_setTables, inside_goWrong, inside_setTables]
  exact and_iff_left ((Quiet.bind (.when fun _ => .ret 0) fun _ => .bind (.when fun _ => .ret 0) fun _ =>
    .pure _).inside hs)

theorem elfReadProgbits_inside {i : ℕ} {h : ElfSectionHeader} {v : SectionVars} (hi : i < s.sections.length)
    (hs : s.strays = []) : Inside (elfReadProgbits i h v) s := by
  unfold elfReadProgbits
  rw [inside_setSection (List.getElem?_eq_getElem hi)]
  exact hs

theorem elfReadRel_strays {h : ElfSectionHeader} {v : SectionVars} : Steps Straying (elfReadRel kf h v) :=
  Steps.bind (getSection_strays _) fun _ => Steps.bind (Steps.when (Steps.fail _)) fun _ =>
    Steps.bind (Steps.when (Steps.fail _)) fun _ => Steps.bind (setSection_strays _ _) fun _ =>
    Steps.bind (Quiet.memAlloc _).straying fun _ => Steps.bind (setSection_strays _ _) fun _ =>
    Steps.bind (Steps.when (Steps.fail _)) fun _ => Steps.bind (Steps.loop (fun _ _ =>
      Steps.bind (Quiet.fileSeek _ _).straying fun _ => Steps.bind (Quiet.fileRead _ _).straying fun _ =>
      Steps.bind (setSection_strays _ _) fun _ => Steps.pure _) _ _ _) fun _ => Steps.pure _

theorem elfReadSymtab_strays {i : ℕ} {h : ElfSectionHeader} {v : SectionVars} :
    Steps Straying (elfReadSymtab i h v : Body ω SectionVars) :=
  Steps.bind (Quiet.setTables _).straying fun _ => Steps.bind (Steps.when (Steps.fail _)) fun _ =>
    Steps.bind (Quiet.setTables _).straying fun _ => Steps.bind (Steps.when (Steps.fail _)) fun _ =>
    Steps.bind (Steps.when (Steps.fail _)) fun _ => Steps.pure _

/-- The cases for the types of sections. -/
def elfReadTyped (kf : KernFuncs ω) (i : ℕ) (h : ElfSectionHeader) (v : SectionVars) : Body ω SectionVars :=
  if h.shType = shtRel then elfReadRel kf h v
  else if h.shType = shtRela then ret 0
  else if h.shType = shtSymtab ∨ h.shType = shtDynsym then elfReadSymtab i h v
  else if BitVec.ofNat 32 i = v.stringtable then elfReadStrtab h v
  else elfReadProgbits i h v

theorem elfReadTyped_strays {i : ℕ} {h : ElfSectionHeader} {v : SectionVars} : Steps Straying (elfReadTyped kf i h v) :=
  Steps.ite elfReadRel_strays (Steps.ite (Steps.fail _) (Steps.ite elfReadSymtab_strays
    (Steps.ite (Steps.bind (Quiet.setTables _).straying fun _ => Steps.pure _)
      (Steps.bind (setSection_strays _ _) fun _ => Steps.pure _))))

theorem elfReadTyped_inside_iff {i : ℕ} {h : ElfSectionHeader} {v : SectionVars} (hi : i < s.sections.length)
    (hs : s.strays = []) : Inside (elfReadTyped kf i h v) s ↔
      (h.shType = shtRel → ∃ x, s.sections[h.shInfo.toNat]? = some x ∧ (x.numReloc = 0 → h.shEntsize ≠ 0)) ∧
      (h.shType = shtSymtab ∨ h.shType = shtDynsym → h.shEntsize ≠ 0) := by
  unfold elfReadTyped
  by_cases hrel : h.shType = shtRel
  · rw [if_pos hrel, elfReadRel_inside_iff hs]
    have hsym : ¬(h.shType = shtSymtab ∨ h.shType = shtDynsym) := by
      rw [hrel]
      decide
    exact ⟨fun hf => ⟨fun _ => hf, fun hsym' => absurd hsym' hsym⟩, fun hf => hf.1 hrel⟩
  rw [if_neg hrel]
  by_cases hrela : h.shType = shtRela
  · rw [if_pos hrela]
    have hsym : ¬(h.shType = shtSymtab ∨ h.shType = shtDynsym) := by
      rw [hrela]
      decide
    exact ⟨fun _ => ⟨fun h' => absurd h' hrel, fun h' => absurd h' hsym⟩, fun _ => hs⟩
  rw [if_neg hrela]
  by_cases hsym : h.shType = shtSymtab ∨ h.shType = shtDynsym
  · rw [if_pos hsym, elfReadSymtab_inside_iff hs]
    exact ⟨fun hf => ⟨fun h' => absurd h' hrel, fun _ => hf⟩, fun hf => hf.2 hsym⟩
  rw [if_neg hsym]
  refine ⟨fun _ => ⟨fun h' => absurd h' hrel, fun h' => absurd h' hsym⟩, fun _ => ?_⟩
  split
  · exact (Quiet.bind (.setTables _) fun _ => .pure _).inside hs
  · exact elfReadProgbits_inside hi hs

theorem inside_elfIsBss {h : ElfSectionHeader} {f : Bool → Body ω α} {c : Prop} (hstray : ∀ b, Steps Straying (f b))
    (hf : ∀ b, Inside (f b) s ↔ c) : Inside (elfIsBss h >>= f) s ↔ NameFits h s ∧ c := by
  have hfits : NameFits h s ↔ ¬(s.tables.sectionNames ≠ 0 ∧ s.tables.sectionNamesSize.toNat <
      h.shName.toNat + (strcmp (fun k => s.ram (s.tables.sectionNames + h.shName + BitVec.ofNat 32 k)) bssName).2) := by
    rw [not_and, Nat.not_lt, NameFits]
  unfold elfIsBss Inside
  rw [hfits, ends_bind, ends_bind, ends_state, ends_bind, ends_when]
  constructor
  · intro hin
    have hc := fun hc => not_inside_astray (hstray _) .nameIndex (hin.1 hc)
    exact ⟨hc, (hf _).mp (hin.2 hc)⟩
  · exact fun h => ⟨fun hc => absurd hc h.1, fun _ => (hf _).mpr h.2⟩

theorem elfReadSection_inside_iff {i : ℕ} {h : ElfSectionHeader} {v : SectionVars} (hi : i < s.sections.length)
    (hs : s.strays = []) : Inside (elfReadSection kf i h v) s ↔ NameFits h s ∧
      (h.shType = shtRel → ∃ x, s.sections[h.shInfo.toNat]? = some x ∧ (x.numReloc = 0 → h.shEntsize ≠ 0)) ∧
      (h.shType = shtSymtab ∨ h.shType = shtDynsym → h.shEntsize ≠ 0) := by
  unfold elfReadSection
  exact inside_elfIsBss (fun b => elfReadTyped_strays) fun b => elfReadTyped_inside_iff hi hs

/-- The section header that round `i` reads. -/
def roundHeader (kf : KernFuncs ω) (i : ℕ) (v : SectionVars) (t : Load ω) : ElfSectionHeader :=
  elfSectionHeader (bufferAfter kf v.h 40 (kf.fileSeek
    (kf.fileOffset + t.tables.sectionHeader + BitVec.ofNat 32 i * t.tables.sectionHeaderSize.setWidth 32) .set t.world).2)

theorem elfReadSectionHeader_inside_iff {i : ℕ} {v : SectionVars} (hi : i < s.sections.length) (hs : s.strays = []) :
    Inside (elfReadSectionHeader kf i v) s ↔
      ((roundHeader kf i v s).shType ≠ shtNull → HeaderFits (roundHeader kf i v s) i s) := by
  unfold elfReadSectionHeader
  rw [inside_reads, inside_fileSeek, inside_fileRead]
  dsimp only
  rw [inside_setSection (x := s.sections[i])]
  swap
  · exact List.getElem?_eq_getElem hi
  change Inside (if (roundHeader kf i v s).shType ≠ shtNull then elfReadSection kf i (roundHeader kf i v s) _ else _) _ ↔ _
  generalize roundHeader kf i v s = h
  by_cases hnull : h.shType ≠ shtNull
  · rw [if_pos hnull, elfReadSection_inside_iff]
    · refine Iff.trans (and_congr_right fun _ => and_congr_left fun _ => imp_congr_right fun _ => ?_)
        (imp_iff_right hnull).symm
      show (∃ x, (s.sections.set i s.sections[i].clear)[h.shInfo.toNat]? = some x ∧ _) ↔ _
      by_cases heq : h.shInfo.toNat = i
      · rw [heq, List.getElem?_set_self hi, List.getElem?_eq_getElem hi]
        simp
      · rw [List.getElem?_set_ne (Ne.symm heq)]
        simp [heq]
    · simpa using hi
    · exact hs
  · rw [if_neg hnull]
    exact ⟨fun _ h' => absurd h' hnull, fun _ => hs⟩

theorem elfReadSectionHeader_strays {i : ℕ} {v : SectionVars} : Steps Straying (elfReadSectionHeader kf i v) :=
  Steps.bind (Quiet.reads _).straying fun _ => Steps.bind (Quiet.fileSeek _ _).straying fun _ =>
    Steps.bind (Quiet.fileRead _ _).straying fun _ => Steps.bind (setSection_strays _ _) fun _ =>
    Steps.ite (Steps.bind (Steps.bind Steps.state fun _ => Steps.bind (Steps.when fun _ h => nomatch h) fun _ =>
      Steps.pure _) fun _ => elfReadTyped_strays) (Steps.pure _)

def tableLength (s : Load ω) : ℕ := s.sections.length

theorem getSection_length (i : ℕ) : Keeps tableLength (getSection i : Body ω SectionInfo) :=
  Keeps.bind Keeps.state fun s => by
    split
    · exact Keeps.pure _
    · exact Keeps.fail _

theorem setSection_length (i : ℕ) (f : SectionInfo → SectionInfo) : Keeps tableLength (setSection i f : Body ω Unit) :=
  Keeps.bind (getSection_length i) fun _ => Keeps.update fun _ => List.length_set

theorem fileSeek_length (p : Dword) (w : Whence) : Keeps tableLength (fileSeek kf p w : Body ω Dword) := fun _ => rfl

theorem fileRead_length (old : List Byte) (n : Dword) :
    Keeps tableLength (fileRead kf old n : Body ω (Dword × List Byte)) := fun _ => rfl

theorem setTables_length (f : TableInfo → TableInfo) : Keeps tableLength (setTables f : Body ω Unit) := fun _ => rfl

theorem memAlloc_length (n : Dword) : Keeps tableLength (memAlloc kf n : Body ω Dword) :=
  Keeps.bind Keeps.state fun _ => Keeps.bind (Keeps.update fun _ => rfl) fun _ =>
    Keeps.bind (Keeps.when (Keeps.update fun _ => rfl)) fun _ => Keeps.pure _

theorem elfReadTyped_length {i : ℕ} {h : ElfSectionHeader} {v : SectionVars} :
    Keeps tableLength (elfReadTyped kf i h v) := by
  have hrel : Keeps tableLength (elfReadRel kf h v) :=
    Keeps.bind (getSection_length _) fun _ => Keeps.bind (Keeps.when (Keeps.fail _)) fun _ =>
      Keeps.bind (Keeps.when (Keeps.fail _)) fun _ => Keeps.bind (setSection_length _ _) fun _ =>
      Keeps.bind (memAlloc_length _) fun _ => Keeps.bind (setSection_length _ _) fun _ =>
      Keeps.bind (Keeps.when (Keeps.fail _)) fun _ => Keeps.bind (Keeps.loop (fun _ _ =>
        Keeps.bind (fileSeek_length _ _) fun _ => Keeps.bind (fileRead_length _ _) fun _ =>
        Keeps.bind (setSection_length _ _) fun _ => Keeps.pure _) _ _ _) fun _ => Keeps.pure _
  have hsym : Keeps tableLength (elfReadSymtab i h v : Body ω SectionVars) :=
    Keeps.bind (setTables_length _) fun _ => Keeps.bind (Keeps.when (Keeps.fail _)) fun _ =>
      Keeps.bind (setTables_length _) fun _ => Keeps.bind (Keeps.when (Keeps.fail _)) fun _ =>
      Keeps.bind (Keeps.when (Keeps.fail _)) fun _ => Keeps.pure _
  exact Keeps.ite hrel (Keeps.ite (Keeps.fail _) (Keeps.ite hsym
    (Keeps.ite (Keeps.bind (setTables_length _) fun _ => Keeps.pure _)
      (Keeps.bind (setSection_length _ _) fun _ => Keeps.pure _))))

theorem elfReadSectionHeader_length {i : ℕ} {v : SectionVars} : Keeps tableLength (elfReadSectionHeader kf i v) :=
  Keeps.bind (Keeps.reads _) fun _ => Keeps.bind (fileSeek_length _ _) fun _ => Keeps.bind (fileRead_length _ _) fun _ =>
    Keeps.bind (setSection_length _ _) fun _ => Keeps.ite (Keeps.bind (Keeps.bind Keeps.state fun _ =>
      Keeps.bind (Keeps.when (Keeps.update fun _ => rfl)) fun _ => Keeps.pure _) fun _ => elfReadTyped_length)
      (Keeps.pure _)

/-- Where the loop over the section headers starts. -/
def firstVars (junk : Junk) : SectionVars :=
  { bss := minusOne, stringtable := minusOne, h := junk.sectionHeader, r := junk.relInfo }

/-- There is a section, and each section header that the loop gets to fits. -/
def SectionHeadersFit (kf : KernFuncs ω) (junk : Junk) (s : Load ω) : Prop := s.tables.numSections ≠ 0 ∧
  ∀ i < s.tables.numSections.toNat, ∀ v t,
    (Prog.loop (elfReadSectionHeader kf) i 0 (firstVars junk)).run s = (.ok v, t) →
    (roundHeader kf i v t).shType ≠ shtNull → HeaderFits (roundHeader kf i v t) i t

theorem elfReadSectionHeaders_inBounds_iff (hs : s.strays = []) (hlen : s.sections.length = s.tables.numSections.toNat) :
    InBounds (elfReadSectionHeaders kf junk) s ↔ SectionHeadersFit kf junk s := by
  have hlength : ∀ m v t, (Prog.loop (elfReadSectionHeader kf) m 0 (firstVars junk)).run s = (.ok v, t) →
      t.sections.length = s.tables.numSections.toNat := by
    intro m v t ht
    have hkeep := Keeps.loop (fun i v => @elfReadSectionHeader_length _ kf i v) m 0 (firstVars junk) s
    rw [ht] at hkeep
    exact hkeep.trans hlen
  unfold elfReadSectionHeaders
  rw [inBounds_function, inside_reads]
  show Inside (Prog.loop (elfReadSectionHeader kf) s.tables.numSections.toNat 0 (firstVars junk) >>= _) s ↔ _
  unfold Inside
  rw [ends_bind]
  have hlast : ∀ v t, (Prog.loop (elfReadSectionHeader kf) s.tables.numSections.toNat 0 (firstVars junk)).run s = (.ok v, t) →
      (Inside (do
        let first ← getSection 0
        setTables fun t => { t with imageBase := first.base }
        pure v.bss) t ↔ t.strays = [] ∧ s.tables.numSections ≠ 0) := by
    intro v t ht
    rw [inside_getSection]
    have hl := hlength _ v t ht
    constructor
    · rintro ⟨x, hx, h⟩
      obtain ⟨hlt, -⟩ := List.getElem?_eq_some_iff.mp hx
      exact ⟨h, fun h0 => by rw [hl, h0] at hlt; exact Nat.not_lt_zero _ hlt⟩
    · rintro ⟨h, hne⟩
      exact ⟨_, List.getElem?_eq_getElem (by rw [hl]; bv_omega), h⟩
  refine (ends_congr hlast).trans (ends_and_iff.trans ?_)
  have hrounds := inside_loop_iff_of_rounds (fun k v => @elfReadSectionHeader_strays _ kf k v) hs
    fun m hm v t ht => elfReadSectionHeader_inside_iff (by rw [hlength m v t ht]; exact hm)
  rw [SectionHeadersFit, ← hrounds]
  refine ⟨fun h => ⟨fun h0 => ?_, h.1⟩, fun h => ⟨h.2, fun _ _ _ => h.1⟩⟩
  have hnone : (Prog.loop (elfReadSectionHeader kf) s.tables.numSections.toNat 0 (firstVars junk)).run s =
      (.ok (firstVars junk), s) := by
    rw [h0]
    rfl
  exact h.2 _ _ hnone h0

end SectionHeaders

section Symbols

/-- The state of `ELF_read_symbols` when the strings have been read, if there is memory for them. -/
def stringsLoaded (kf : KernFuncs ω) (s : Load ω) : Load ω :=
  let a := kf.memAlloc s.tables.stringSize s.world
  let u := ((s.setWorld a.2).obtain ⟨a.1, s.tables.stringSize⟩).setTables { s.tables with stringBuffer := a.1 }
  let u := u.setWorld (kf.fileSeek (kf.fileOffset + s.tables.string) .set u.world).2
  let r := kf.fileRead s.tables.stringSize u.world
  (u.setWorld r.2).setRam (u.ram.put a.1 (r.1.2.take s.tables.stringSize.toNat))

/-- The symbol that round `i` reads. -/
def roundSymbol (kf : KernFuncs ω) (entsize : Dword) (i : ℕ) (old : List Byte) (t : Load ω) : ElfSymbolInfo :=
  elfSymbolInfo (bufferAfter kf old 16
    (kf.fileSeek (kf.fileOffset + t.tables.symbol + BitVec.ofNat 32 i * entsize) .set t.world).2)

theorem elfReadSymbol_strays {a entsize : Dword} {i : ℕ} {old : List Byte} :
    Steps Straying (elfReadSymbol kf a entsize i old) :=
  Steps.bind (Quiet.reads _).straying fun _ => Steps.bind (Quiet.fileSeek _ _).straying fun _ =>
    Steps.bind (Quiet.fileRead _ _).straying fun _ => Steps.bind (Steps.when fun _ h => nomatch h) fun _ =>
    Steps.bind (setSymbol_strays _ _) fun _ => Steps.bind (Steps.when (Quiet.setTables _).straying) fun _ => Steps.pure _

theorem elfReadSymbol_length {a entsize : Dword} {i : ℕ} {old : List Byte} :
    Keeps (fun s : Load ω => s.symbols.length) (elfReadSymbol kf a entsize i old) :=
  Keeps.bind (Keeps.reads _) fun _ => Keeps.bind (fun _ => rfl) fun _ => Keeps.bind (fun _ => rfl) fun _ =>
    Keeps.bind (Keeps.when (Keeps.update fun _ => rfl)) fun _ => Keeps.bind (Keeps.bind (Keeps.bind Keeps.state fun s => by
      split
      · exact Keeps.pure _
      · exact Keeps.fail _) fun _ => Keeps.update fun _ => List.length_set) fun _ =>
    Keeps.bind (Keeps.when (Keeps.update fun _ => rfl)) fun _ => Keeps.pure _

theorem elfReadSymbol_inside_iff {a entsize : Dword} {i : ℕ} {old : List Byte} (hi : i < s.symbols.length)
    (hs : s.strays = []) : Inside (elfReadSymbol kf a entsize i old) s ↔
      (roundSymbol kf entsize i old s).stName < s.tables.stringSize := by
  unfold elfReadSymbol
  rw [inside_reads, inside_fileSeek, inside_fileRead]
  dsimp only
  change Inside (Prog.when (s.tables.stringSize ≤ (roundSymbol kf entsize i old s).stName) _ >>= _) _ ↔ _
  rw [inside_stray]
  · refine (and_iff_left ?_).trans BitVec.not_le
    have hsome : s.symbols[i]? = some s.symbols[i] := List.getElem?_eq_getElem hi
    unfold Inside
    rw [ends_bind, ends_setSymbol (by exact hsome), ends_bind, ends_when]
    exact ⟨fun _ => hs, fun _ => hs⟩
  · exact Steps.bind (setSymbol_strays _ _) fun _ => Steps.bind (Steps.when (Quiet.setTables _).straying) fun _ =>
      Steps.pure _

/-- If there is memory for the strings, there is a symbol, and the name of each one starts in the table of strings. -/
def SymbolsFit (kf : KernFuncs ω) (junk : Junk) (s : Load ω) : Prop :=
  (kf.memAlloc s.tables.stringSize s.world).1 ≠ 0 →
    s.tables.numSymbols ≠ 0 ∧ ∀ i < s.tables.numSymbols.toNat, ∀ bs t,
      (Prog.loop (elfReadSymbol kf (kf.memAlloc s.tables.stringSize s.world).1
        (s.tables.symbolSize / s.tables.numSymbols)) i 0 junk.symbol).run (stringsLoaded kf s) = (.ok bs, t) →
      (roundSymbol kf (s.tables.symbolSize / s.tables.numSymbols) i bs t).stName < t.tables.stringSize

theorem elfReadSymbols_inBounds_iff (hs : s.strays = []) (hlen : s.symbols.length = s.tables.numSymbols.toNat) :
    InBounds (elfReadSymbols kf junk) s ↔ SymbolsFit kf junk s := by
  unfold elfReadSymbols
  rw [inBounds_function, inside_reads, Inside, ends_bind, ends_memAlloc]
  have hzero : ∀ (u : Load ω) (f : Unit → Body ω Dword), u.strays = [] →
      (.when ((0 : Dword) = 0) (ret 0) >>= f).Ends u (fun _ t => t.strays = [])
        (exits (fun _ t => t.strays = []) fun _ _ => False) := by
    intro u f hu
    rw [ends_bind, ends_when]
    exact ⟨fun _ => hu, fun h => absurd rfl h⟩
  refine Iff.trans (and_iff_left fun _ => hzero _ _ hs) (imp_congr_right fun hne => ?_)
  change Inside _ _ ↔ _
  rw [inside_guard]
  swap
  · exact hs
  rw [imp_iff_right hne, inside_setTables, inside_fileSeek]
  change Inside (Prog.when (s.tables.numSymbols = 0) _ >>= _) (stringsLoaded kf s) ↔ _
  rw [inside_goWrong]
  refine and_congr_right fun _ => inside_bind_pure.trans ?_
  refine inside_loop_iff_of_rounds (s := stringsLoaded kf s) (f := elfReadSymbol kf (kf.memAlloc s.tables.stringSize
    s.world).1 (s.tables.symbolSize / s.tables.numSymbols)) (fun _ _ => elfReadSymbol_strays) hs fun m hm old t ht => ?_
  have hkeep := Keeps.loop (fun i old => @elfReadSymbol_length _ kf (kf.memAlloc s.tables.stringSize s.world).1
    (s.tables.symbolSize / s.tables.numSymbols) i old) m 0 junk.symbol (stringsLoaded kf s)
  rw [ht] at hkeep
  exact elfReadSymbol_inside_iff (lt_of_lt_of_eq hm (hlen.symm.trans hkeep.symm))

end Symbols

section Relocations

/-- The search for the name of an external symbol stays in the table of strings. -/
def CallFits (kf : KernFuncs ω) (name : Dword) (t : Load ω) : Prop :=
  (name - t.tables.stringBuffer).toNat + (searchCall (fun k => t.ram (name + BitVec.ofNat 32 k)) kf.syscalls).2 ≤
    t.tables.stringSize.toNat

/-- The word at `p` lies in the image. -/
def ImageFits (p : Dword) (t : Load ω) : Prop := (p - t.image.addr).toNat + 4 ≤ t.image.size.toNat

/-- The entry of the table of relocations that round `i` reads. -/
def roundReloc (x : SectionInfo) (i : ℕ) (t : Load ω) : RelocInfo :=
  let p := x.reloc + BitVec.ofNat 32 i * sizeofRelocInfo
  x.relocs.getD i ⟨t.ram.word p, t.ram.word (p + 4), t.ram.word (p + 8)⟩

def relocPlace (base : Dword) (x : SectionInfo) (rel : RelocInfo) : Dword :=
  if rel.type = relTypeCoffAbsolute then rel.offset + base else x.base + rel.offset + base

/-- A relocation that is not refused for its type has a symbol that there is, and its word lies in the image if it is
read, or if it is written because the symbol has an address. -/
def RelocFits (n : Word) (base : Dword) (x : SectionInfo) (rel : RelocInfo) (t : Load ω) : Prop :=
  rel.type = relTypeElfAbsolute ∨ rel.type = relTypeCoffAbsolute ∨ rel.type = relTypeRelative →
    (rel.type ≠ relTypeRelative → ImageFits (relocPlace base x rel) t) ∧
    ∃ y, t.symbols[rel.symbol.toNat]? = some y ∧
      ((y.sect = commonSymbol ∨ y.sect = externSymbol) ∨ y.sect < n → ImageFits (relocPlace base x rel) t)

theorem touchImage_strays (p : Dword) : Steps Straying (touchImage p : Body ω Unit) :=
  Steps.bind Steps.state fun _ => Steps.when fun _ h => nomatch h

theorem inside_touchImage {p : Dword} {f : Unit → Body ω α} (hf : Steps Straying (f ())) :
    Inside (touchImage p >>= f) s ↔ ImageFits p s ∧ Inside (f ()) s := by
  have hfits : ImageFits p s ↔ ¬s.image.size.toNat < (p - s.image.addr).toNat + 4 := Nat.not_lt.symm
  unfold touchImage Inside
  rw [hfits, ends_bind, ends_bind, ends_state, ends_when]
  constructor
  · intro hin
    have hc := fun hc => not_inside_astray hf .imageAccess (hin.1 hc)
    exact ⟨hc, hin.2 hc⟩
  · exact fun h => ⟨fun hc => absurd hc h.1, fun _ => h.2⟩

theorem inside_writeImage {p v : Dword} (hs : s.strays = []) : Inside (writeImage p v) s ↔ ImageFits p s := by
  unfold writeImage
  rw [inside_touchImage (fun _ h => h)]
  exact and_iff_left hs

theorem inside_readImage {p : Dword} {f : Dword → Body ω α} (hf : ∀ a, Steps Straying (f a)) :
    Inside (readImage p >>= f) s ↔ ImageFits p s ∧ Inside (f (s.ram.word p)) s := by
  have hassoc : Inside (readImage p >>= f) s ↔ Inside (touchImage p >>= fun _ => .reads (fun s => s.ram.word p) >>= f) s := by
    unfold readImage Inside
    simp only [ends_bind]
  rw [hassoc, inside_touchImage (Steps.bind (Quiet.reads fun s => s.ram.word p).straying hf)]
  exact Iff.rfl

theorem inside_getSymbol {i : ℕ} {f : SymbolInfo → Body ω α} :
    Inside (getSymbol i >>= f) s ↔ ∃ y, s.symbols[i]? = some y ∧ Inside (f y) s := by
  unfold getSymbol Inside
  rw [ends_bind, ends_bind, ends_state]
  split
  · rename_i y hy
    rw [hy]
    exact ⟨fun h => ⟨y, rfl, h⟩, fun ⟨z, hz, h⟩ => by cases hz; exact h⟩
  · rename_i hy
    rw [hy]
    exact ⟨fun h => False.elim h, fun ⟨z, hz, _⟩ => nomatch hz⟩

theorem inside_relocated {coffType : CoffType} {base dest address p : Dword} {n : Word} {x : SectionInfo} {rel : RelocInfo}
    {y : SymbolInfo} (hlen : s.sections.length = n.toNat) (hs : s.strays = []) :
    Inside (relocated coffType base n x rel y dest address >>= fun v => writeImage p v) s ↔
      ((y.sect = commonSymbol ∨ y.sect = externSymbol) ∨ y.sect < n → ImageFits p s) := by
  unfold relocated
  by_cases hout : y.sect = commonSymbol ∨ y.sect = externSymbol
  · rw [if_pos hout, imp_iff_right (Or.inl hout)]
    split
    · exact inside_writeImage hs
    · exact inside_writeImage hs
  rw [if_neg hout]
  by_cases hn : n ≤ y.sect
  · rw [if_pos hn]
    have hnone : ¬((y.sect = commonSymbol ∨ y.sect = externSymbol) ∨ y.sect < n) := by
      rw [not_or]
      exact ⟨hout, BitVec.not_lt.mpr hn⟩
    exact ⟨fun _ h => absurd h hnone, fun _ => hs⟩
  rw [if_neg hn, imp_iff_right (Or.inr (BitVec.not_le.mp hn))]
  have hlt : y.sect.toNat < s.sections.length := by
    rw [hlen]
    exact BitVec.not_le.mp hn
  unfold Inside
  rw [ends_bind, ends_bind, ends_getSection (List.getElem?_eq_getElem hlt)]
  split
  · cases coffType
    all_goals exact inside_writeImage hs
  · split
    all_goals exact inside_writeImage hs

theorem relocated_strays {coffType : CoffType} {base dest address : Dword} {n : Word} {x : SectionInfo} {rel : RelocInfo}
    {y : SymbolInfo} : Steps Straying (relocated coffType base n x rel y dest address : Body ω Dword) := by
  refine Steps.ite (Steps.ite (Steps.pure _) (Steps.pure _)) (Steps.ite (Steps.fail _)
    (Steps.bind (getSection_strays _) fun home => Steps.ite ?_ (Steps.ite (Steps.pure _) (Steps.pure _))))
  cases coffType
  all_goals exact Steps.pure _

theorem readImage_strays (p : Dword) : Steps Straying (readImage p : Body ω Dword) :=
  Steps.bind (touchImage_strays p) fun _ => (Quiet.reads _).straying

theorem writeImage_strays (p v : Dword) : Steps Straying (writeImage p v : Body ω Unit) :=
  Steps.bind (touchImage_strays p) fun _ => Steps.update fun _ h => h

/-- What a round does with the word that it has found the place of. -/
def storeReloc (coffType : CoffType) (base : Dword) (n : Word) (x : SectionInfo) (rel : RelocInfo) (d : Dword × Dword) :
    Body ω Unit := do
  let sym ← getSymbol rel.symbol.toNat
  let value ← relocated coffType base n x rel sym d.1 d.2
  writeImage d.1 value

theorem storeReloc_strays {coffType : CoffType} {base : Dword} {n : Word} {x : SectionInfo} {rel : RelocInfo}
    {d : Dword × Dword} : Steps Straying (storeReloc coffType base n x rel d : Body ω Unit) :=
  Steps.bind (getSymbol_strays _) fun _ => Steps.bind relocated_strays fun _ => writeImage_strays _ _

theorem storeReloc_inside_iff {coffType : CoffType} {base : Dword} {n : Word} {x : SectionInfo} {rel : RelocInfo}
    {d : Dword × Dword} (hlen : s.sections.length = n.toNat) (hs : s.strays = []) :
    Inside (storeReloc coffType base n x rel d) s ↔ ∃ y, s.symbols[rel.symbol.toNat]? = some y ∧
      ((y.sect = commonSymbol ∨ y.sect = externSymbol) ∨ y.sect < n → ImageFits d.1 s) := by
  unfold storeReloc
  rw [inside_getSymbol]
  exact exists_congr fun y => and_congr_right fun _ => inside_relocated hlen hs

theorem inside_destination {base : Dword} {x : SectionInfo} {rel : RelocInfo} {f : Dword × Dword → Body ω α}
    (hf : ∀ d, Steps Straying (f d)) (hs : s.strays = []) {c : Prop}
    (hc : ∀ address, Inside (f (relocPlace base x rel, address)) s ↔ c) :
    Inside (destination base x rel >>= f) s ↔
      (rel.type = relTypeElfAbsolute ∨ rel.type = relTypeCoffAbsolute ∨ rel.type = relTypeRelative →
        (rel.type ≠ relTypeRelative → ImageFits (relocPlace base x rel) s) ∧ c) := by
  have hread : ∀ p, relocPlace base x rel = p →
      (Inside ((readImage p >>= fun a => Pure.pure (p, a)) >>= f) s ↔ ImageFits (relocPlace base x rel) s ∧ c) := by
    rintro p rfl
    have hassoc : Inside ((readImage (relocPlace base x rel) >>= fun a => Pure.pure (relocPlace base x rel, a)) >>= f) s ↔
        Inside (readImage (relocPlace base x rel) >>= fun a => f (relocPlace base x rel, a)) s := by
      unfold Inside
      simp only [ends_bind, ends_pure]
    rw [hassoc, inside_readImage fun a => hf _, hc]
  unfold destination
  by_cases helf : rel.type = relTypeElfAbsolute
  · rw [if_pos helf, hread _ (by rw [relocPlace, helf]; exact if_neg (by decide)), helf]
    exact ⟨fun h _ => ⟨fun _ => h.1, h.2⟩, fun h => ⟨(h (Or.inl rfl)).1 (by decide), (h (Or.inl rfl)).2⟩⟩
  rw [if_neg helf]
  by_cases hcoff : rel.type = relTypeCoffAbsolute
  · rw [if_pos hcoff, hread _ (by rw [relocPlace, if_pos hcoff]), hcoff]
    exact ⟨fun h _ => ⟨fun _ => h.1, h.2⟩,
      fun h => ⟨(h (Or.inr (Or.inl rfl))).1 (by decide), (h (Or.inr (Or.inl rfl))).2⟩⟩
  rw [if_neg hcoff]
  by_cases hrel : rel.type = relTypeRelative
  · rw [if_pos hrel, imp_iff_right (Or.inr (Or.inr hrel)), and_iff_right fun h => absurd hrel h, ← hc 0]
    have hplace : relocPlace base x rel = x.base + rel.offset + base := by rw [relocPlace, if_neg hcoff]
    rw [hplace]
    exact Iff.rfl
  · rw [if_neg hrel]
    exact ⟨fun _ h => absurd h (by rw [not_or, not_or]; exact ⟨helf, hcoff, hrel⟩), fun _ => hs⟩

theorem relocate_inside_iff {coffType : CoffType} {base : Dword} {n : Word} {x : SectionInfo} {i : ℕ}
    (hlen : s.sections.length = n.toNat) (hs : s.strays = []) :
    Inside (relocate coffType base n x i) s ↔ RelocFits n base x (roundReloc x i s) s := by
  unfold relocate getReloc
  rw [inside_reads]
  exact inside_destination (fun d => storeReloc_strays) hs fun address => storeReloc_inside_iff hlen hs

theorem relocate_strays {coffType : CoffType} {base : Dword} {n : Word} {x : SectionInfo} {i : ℕ} :
    Steps Straying (relocate coffType base n x i : Body ω Unit) :=
  Steps.bind (Quiet.reads _).straying fun _ => Steps.bind (Steps.ite (Steps.bind (readImage_strays _) fun _ => Steps.pure _)
    (Steps.ite (Steps.bind (readImage_strays _) fun _ => Steps.pure _) (Steps.ite (Steps.pure _) (Steps.fail _))))
    fun _ => storeReloc_strays

theorem inside_fd32GetCall {name : Dword} {f : Dword → Body ω α} (hf : ∀ a, Steps Straying (f a)) :
    Inside (fd32GetCall kf name >>= f) s ↔ CallFits kf name s ∧
      Inside (f (searchCall (fun k => s.ram (name + BitVec.ofNat 32 k)) kf.syscalls).1) s := by
  have hfits : CallFits kf name s ↔ ¬s.tables.stringSize.toNat < (name - s.tables.stringBuffer).toNat +
      (searchCall (fun k => s.ram (name + BitVec.ofNat 32 k)) kf.syscalls).2 := Nat.not_lt.symm
  unfold fd32GetCall Inside
  rw [hfits, ends_bind, ends_bind, ends_state, ends_bind, ends_when]
  constructor
  · intro hin
    have hc := fun hc => not_inside_astray (hf _) .stringIndex (hin.1 hc)
    exact ⟨hc, hin.2 hc⟩
  · exact fun h => ⟨fun hc => absurd hc h.1, fun _ => h.2⟩

theorem setupSymbol_strays {i : ℕ} {bss : Dword} : Steps Straying (setupSymbol kf i bss) :=
  Steps.bind (getSymbol_strays _) fun _ => Steps.ite (Steps.bind (setSymbol_strays _ _) fun _ => Steps.pure _)
    (Steps.ite (Steps.bind (Steps.bind Steps.state fun _ => Steps.bind (Steps.when fun _ h => nomatch h) fun _ =>
      Steps.pure _) fun _ => Steps.bind (setSymbol_strays _ _) fun _ => Steps.bind (Steps.when (Steps.fail _)) fun _ =>
      Steps.pure _) (Steps.pure _))

theorem inside_setSymbol {i : ℕ} {y : SymbolInfo} {g : SymbolInfo → SymbolInfo} {f : Unit → Body ω α}
    (hy : s.symbols[i]? = some y) :
    Inside (setSymbol i g >>= f) s ↔ Inside (f ()) (s.setSymbols (s.symbols.set i (g y))) := by
  unfold Inside
  rw [ends_bind, ends_setSymbol hy]

theorem setupSymbol_inside_iff {i : ℕ} {bss : Dword} (hi : i < s.symbols.length) (hs : s.strays = []) :
    Inside (setupSymbol kf i bss) s ↔
      ∀ y, s.symbols[i]? = some y → y.sect = externSymbol → CallFits kf y.name s := by
  have hat : s.symbols[i]? = some s.symbols[i] := List.getElem?_eq_getElem hi
  unfold setupSymbol
  rw [inside_getSymbol, hat]
  generalize s.symbols[i] = y at hat
  simp only [Option.some.injEq, exists_eq_left', forall_eq']
  by_cases hc : y.sect = commonSymbol
  · rw [if_pos hc, inside_setSymbol hat, hc]
    exact ⟨fun _ h => absurd h (by decide), fun _ => hs⟩
  rw [if_neg hc]
  by_cases he : y.sect = externSymbol
  · rw [if_pos he, inside_fd32GetCall, imp_iff_right he]
    · refine and_iff_left ?_
      rw [inside_setSymbol hat, inside_guard (by exact hs)]
      exact fun _ => hs
    · exact fun a => Steps.bind (setSymbol_strays _ _) fun _ => Steps.bind (Steps.when (Steps.fail _)) fun _ =>
        Steps.pure _
  · rw [if_neg he]
    exact ⟨fun _ h => absurd h he, fun _ => hs⟩

theorem setupSymbol_length {i : ℕ} {bss : Dword} :
    Keeps (fun s : Load ω => (s.sections.length, s.symbols.length)) (setupSymbol kf i bss) := by
  have hget : Keeps (fun s : Load ω => (s.sections.length, s.symbols.length)) (getSymbol i : Body ω SymbolInfo) :=
    Keeps.bind Keeps.state fun s => by
      split
      · exact Keeps.pure _
      · exact Keeps.fail _
  have hset : ∀ f, Keeps (fun s : Load ω => (s.sections.length, s.symbols.length)) (setSymbol i f : Body ω Unit) :=
    fun f => Keeps.bind hget fun _ => Keeps.update fun s => congrArg (Prod.mk s.sections.length) List.length_set
  exact Keeps.bind hget fun _ => Keeps.ite (Keeps.bind (hset _) fun _ => Keeps.pure _)
    (Keeps.ite (Keeps.bind (Keeps.bind Keeps.state fun _ => Keeps.bind (Keeps.when (Keeps.update fun _ => rfl)) fun _ =>
      Keeps.pure _) fun _ => Keeps.bind (hset _) fun _ => Keeps.bind (Keeps.when (Keeps.fail _)) fun _ => Keeps.pure _)
      (Keeps.pure _))

theorem relocate_length {coffType : CoffType} {base : Dword} {n : Word} {x : SectionInfo} {i : ℕ} :
    Keeps tableLength (relocate coffType base n x i : Body ω Unit) := by
  have htouch : ∀ p : Dword, Keeps tableLength (touchImage p : Body ω Unit) := fun p =>
    Keeps.bind Keeps.state fun _ => Keeps.when (Keeps.update fun _ => rfl)
  have hread : ∀ p : Dword, Keeps tableLength (readImage p : Body ω Dword) := fun p =>
    Keeps.bind (htouch p) fun _ => Keeps.reads _
  refine Keeps.bind (Keeps.reads _) fun rel => Keeps.bind ?_ fun d => Keeps.bind ?_ fun y =>
    Keeps.bind ?_ fun v => Keeps.bind (htouch _) fun _ => Keeps.update fun _ => rfl
  · exact Keeps.ite (Keeps.bind (hread _) fun _ => Keeps.pure _)
      (Keeps.ite (Keeps.bind (hread _) fun _ => Keeps.pure _) (Keeps.ite (Keeps.pure _) (Keeps.fail _)))
  · refine Keeps.bind Keeps.state fun s => ?_
    split
    · exact Keeps.pure _
    · exact Keeps.fail _
  · refine Keeps.ite (Keeps.ite (Keeps.pure _) (Keeps.pure _)) (Keeps.ite (Keeps.fail _)
      (Keeps.bind (getSection_length _) fun home => Keeps.ite ?_ (Keeps.ite (Keeps.pure _) (Keeps.pure _))))
    cases coffType
    all_goals exact Keeps.pure _

/-- At the first section, each external symbol that the loop gets to is looked for by a name that fits. -/
def NamesFit (kf : KernFuncs ω) (sect : ℕ) (s : Load ω) : Prop :=
  sect = 0 → ∀ i < s.tables.numSymbols.toNat, ∀ bss t,
    (Prog.loop (setupSymbol kf) i 0 s.tables.localBss).run s = (.ok bss, t) →
    ∀ y, t.symbols[i]? = some y → y.sect = externSymbol → CallFits kf y.name t

/-- Each relocation of the section that the loop gets to fits. -/
def RelocsFit (kf : KernFuncs ω) (coffType : CoffType) (base : Dword) (n : Word) (sect : ℕ) (x : SectionInfo)
    (s : Load ω) : Prop :=
  ∀ u, (setupSymbols kf sect s.tables).run s = (.ok (), u) → ∀ i < x.numReloc.toNat, ∀ t,
    (Prog.loop (fun i _ => relocate coffType base n x i) i 0 ()).run u = (.ok (), t) →
    RelocFits n base x (roundReloc x i t) t

theorem setupSymbols_inside_iff {sect : ℕ} (hs : s.strays = []) (hsyms : s.symbols.length = s.tables.numSymbols.toNat) :
    Inside (setupSymbols kf sect s.tables) s ↔ NamesFit kf sect s := by
  unfold setupSymbols NamesFit
  by_cases h0 : sect = 0
  · rw [if_pos h0, imp_iff_right h0, inside_bind_pure]
    refine inside_loop_iff_of_rounds (f := setupSymbol kf) (fun _ _ => setupSymbol_strays) hs fun m hm bss t ht => ?_
    have hkeep := Keeps.loop (fun i bss => @setupSymbol_length _ kf i bss) m 0 s.tables.localBss s
    rw [ht] at hkeep
    exact setupSymbol_inside_iff (lt_of_lt_of_eq hm (hsyms.symm.trans (congrArg Prod.snd hkeep).symm))
  · rw [if_neg h0]
    exact ⟨fun _ h => absurd h h0, fun _ => hs⟩

theorem commonRelocateSection_inBounds_iff {coffType : CoffType} {base : Dword} {n : Word} {sect : ℕ} {x : SectionInfo}
    (hs : s.strays = []) (hx : s.sections[sect]? = some x) (hlen : s.sections.length = n.toNat)
    (hsyms : s.symbols.length = s.tables.numSymbols.toNat) :
    InBounds (commonRelocateSection kf coffType base n sect) s ↔
      NamesFit kf sect s ∧ RelocsFit kf coffType base n sect x s := by
  have hlength : ∀ u, (setupSymbols kf sect s.tables).run s = (.ok (), u) → u.sections.length = n.toNat := by
    intro u hu
    have hkeep : Keeps (fun s : Load ω => (s.sections.length, s.symbols.length)) (setupSymbols kf sect s.tables) :=
      Keeps.ite (Keeps.bind (Keeps.loop (fun _ _ => setupSymbol_length) _ _ _) fun _ => Keeps.pure _) (Keeps.pure _)
    have hu' := hkeep s
    rw [hu] at hu'
    exact (congrArg Prod.fst hu').trans hlen
  have hloop : ∀ a u, (setupSymbols kf sect s.tables).run s = (.ok a, u) →
      (Inside (Prog.loop (fun i _ => relocate coffType base n x i) x.numReloc.toNat 0 ()) u ↔
        u.strays = [] ∧ ∀ i < x.numReloc.toNat, ∀ a t,
          (Prog.loop (fun i _ => relocate coffType base n x i) i 0 ()).run u = (.ok a, t) →
          RelocFits n base x (roundReloc x i t) t) := by
    intro a u hu
    have hrounds : u.strays = [] → _ := fun hs' => inside_loop_iff_of_rounds (n := x.numReloc.toNat) (b := ())
      (f := fun i _ => relocate coffType base n x i) (s := u) (fun _ _ => relocate_strays) hs'
      (c := fun m _ t => RelocFits n base x (roundReloc x m t) t) fun m hm b t ht => by
        have hkeep := Keeps.loop (fun i _ => @relocate_length ω coffType base n x i) m 0 () u
        rw [ht] at hkeep
        exact relocate_inside_iff (hkeep.trans (hlength u hu))
    have hstrays := Inside.strays (s := u) (Steps.loop (R := Straying) (f := fun i _ => relocate coffType base n x i)
      (fun _ _ => relocate_strays) x.numReloc.toNat 0 ())
    exact ⟨fun h => ⟨hstrays h, (hrounds (hstrays h)).mp h⟩, fun h => (hrounds h.1).mpr h.2⟩
  rw [← setupSymbols_inside_iff hs hsyms]
  unfold commonRelocateSection
  rw [inBounds_function, inside_reads, Inside, ends_bind, ends_getSection hx, ends_bind]
  refine (ends_congr fun a u hu => inside_bind_pure.trans (hloop a u hu)).trans (ends_and_iff.trans (and_congr_right fun _ => ?_))
  exact ⟨fun h u hu i hi t ht => h () u hu i hi () t ht, fun h a u hu i hi b t ht => h u hu i hi t ht⟩

end Relocations

/-- What the four functions index and divide by is in bounds if and only if the file has each value that they come to in
bounds; the tables have the lengths that `fd32_load_executable` gives them. -/
theorem readers_inBounds_iff (kf : KernFuncs ω) (junk : Junk) (coffType : CoffType) (base : Dword) (s : Load ω)
    (hs : s.strays = []) :
    (InBounds (elfReadHeaders kf junk) s ↔ ¬NamesBehind (headerRead kf junk s) s.tables) ∧
    (s.sections.length = s.tables.numSections.toNat →
      (InBounds (elfReadSectionHeaders kf junk) s ↔ SectionHeadersFit kf junk s)) ∧
    (s.symbols.length = s.tables.numSymbols.toNat → (InBounds (elfReadSymbols kf junk) s ↔ SymbolsFit kf junk s)) ∧
    (s.sections.length = s.tables.numSections.toNat → s.symbols.length = s.tables.numSymbols.toNat →
      ∀ sect x, s.sections[sect]? = some x →
        (InBounds (commonRelocateSection kf coffType base s.tables.numSections sect) s ↔
          NamesFit kf sect s ∧ RelocsFit kf coffType base s.tables.numSections sect x s)) :=
  ⟨elfReadHeaders_inBounds_iff hs, elfReadSectionHeaders_inBounds_iff hs, elfReadSymbols_inBounds_iff hs,
    fun hlen hsyms _ _ hx => commonRelocateSection_inBounds_iff hs hx hlen hsyms⟩

/-- The ELF header of a file with three section headers behind it, and the names in section `shstrndx`. -/
def elfFile (shstrndx : Byte) : List Byte :=
  elfSignature ++ [1, 1, 1] ++ List.replicate 25 0 ++ [52] ++ List.replicate 13 0 ++ [40, 0, 3, 0, shstrndx, 0]

def elfLoad (contents : List Byte) : Load Disk := startLoad contents (fun _ => 0x1000) twoSectionTables []

theorem readers_inBounds_iff_elfFile : InBounds (elfReadHeaders (diskFuncs 0 []) noJunk) (elfLoad (elfFile 2)) :=
  (readers_inBounds_iff (diskFuncs 0 []) noJunk .other 0 (elfLoad (elfFile 2)) rfl).1.mpr fun h =>
    absurd h.2.2.2 (by decide +kernel)

/-- A section of 12 bytes with a relocation right behind them. -/
def farEntry : SectionInfo := ⟨0, 12, 0, 12, 1, 0x2000, [⟨12, 0, relTypeElfAbsolute⟩], ⟨0, 0, 0⟩⟩

/-- A section of names that is numbered one too high is read behind the table, relocations for a section that is not there
are stored behind it, and a relocation behind its section is written behind the image. -/
theorem readers_not_inBounds :
    ¬InBounds (elfReadHeaders (diskFuncs 0 []) noJunk) (elfLoad (elfFile 3)) ∧
    ¬InBounds (elfReadSectionHeaders (diskFuncs 0 []) noJunk) (startLoad (twoSections (headerBytes 9 120 8 7 8)
      (headerBytes 1 0 4 0 0)) (fun _ => 0x1000) twoSectionTables (List.replicate 3 (staleEntry 0))) ∧
    ¬InBounds (commonRelocateSection (diskFuncs 0 []) .other 0x1000 1 0)
      ((bssLoad [farEntry] 0 [⟨0, 8, 0⟩]).setImage ⟨0x1000, 12⟩) := by
  refine ⟨fun h => ?_, fun h => ?_, fun h => ?_⟩
  · obtain ⟨_, hstrays⟩ := h.exists_snd
    exact absurd hstrays (by decide +kernel)
  · obtain ⟨a, t, hrun, -⟩ := h.exists_run
    have hfault : ((elfReadSectionHeaders (diskFuncs 0 []) noJunk).run (startLoad (twoSections (headerBytes 9 120 8 7 8)
        (headerBytes 1 0 4 0 0)) (fun _ => 0x1000) twoSectionTables (List.replicate 3 (staleEntry 0)))).1 =
        .error .sectionIndex := by
      decide +kernel
    rw [hrun] at hfault
    exact nomatch hfault
  · obtain ⟨_, hstrays⟩ := h.exists_snd
    exact absurd hstrays (by decide +kernel)

end FreeDos32.Dynalink
