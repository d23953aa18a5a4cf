import FreeDos32.Dynalink.Common
import FreeDos32.Library.Spans

namespace FreeDos32.Dynalink

open Prog

variable {ω : Type} {kf : KernFuncs ω} {s : Load ω}

/-- The sections as `common_load_relocatable` places them one behind the other, from the offset `off` on. -/
def placed : Dword → List SectionInfo → List SectionInfo
  | _, [] => []
  | off, x :: xs => (if x.size ≠ 0 then x.setBase off else x) :: placed (off + x.size) xs

def totalSize (l : List SectionInfo) : Dword := l.foldr (fun x sum => x.size + sum) 0

/-- The symbols with the addresses that the first call of `common_relocate_section` stores for those outside of the
sections; the common ones get memory from `bss` on. -/
def settled (m : Memory) (calls : List (List Byte × Dword)) : Dword → List SymbolInfo → List SymbolInfo
  | _, [] => []
  | bss, y :: ys =>
    if y.sect = commonSymbol then { y with offset := bss } :: settled m calls (bss + y.offset) ys
    else if y.sect = externSymbol then
      { y with offset := (searchCall (fun k => m (y.name + BitVec.ofNat 32 k)) calls).1 } :: settled m calls bss ys
    else y :: settled m calls bss ys

theorem getElem?_append_cons {α : Type} (pre rest : List α) (x : α) : (pre ++ x :: rest)[pre.length]? = some x := by
  rw [List.getElem?_append_right (Nat.le_refl _), Nat.sub_self]
  rfl

theorem set_append_cons {α : Type} (pre rest : List α) (x y : α) :
    (pre ++ x :: rest).set pre.length y = pre ++ y :: rest := by
  rw [List.set_append_right _ _ (Nat.le_refl _), Nat.sub_self, List.set_cons_zero]

theorem addSizes_ends (pre rest : List SectionInfo) (hs : s.sections = pre ++ rest) (sum : Dword) :
    (Prog.loop addSize rest.length pre.length sum).Ends s (fun sum' t => t = s ∧ sum' = sum + totalSize rest)
      fun _ _ => False := by
  induction rest generalizing pre sum with
  | nil => exact ⟨rfl, by simp [totalSize]⟩
  | cons x rest ih =>
    rw [List.length_cons, Prog.loop, ends_bind]
    unfold addSize
    rw [ends_bind, ends_getSection (by rw [hs]; exact getElem?_append_cons pre rest x), ends_pure]
    have hrest := ih (pre ++ [x]) (by rw [hs, List.append_assoc]; rfl) (sum + x.size)
    rw [List.length_append] at hrest
    refine hrest.mono (fun sum' t ht => ⟨ht.1, ?_⟩) fun _ _ he => he
    rw [ht.2, totalSize, totalSize, List.foldr_cons, BitVec.add_assoc]

/-- What the loops over the sections and the symbols leave alone. -/
structure SameTables (s t : Load ω) : Prop where
  tables : t.tables = s.tables
  sections : t.sections = s.sections
  image : t.image = s.image

theorem loadSections_ends (pre rest : List SectionInfo) (hs : s.sections = pre ++ rest) (mem off : Dword) :
    (Prog.loop (loadSection kf mem) rest.length pre.length off).Ends s
      (fun _ t => t.sections = pre ++ placed off rest ∧ t.tables = s.tables ∧ t.symbols = s.symbols)
      fun _ _ => False := by
  induction rest generalizing pre off s with
  | nil => exact ⟨hs, rfl, rfl⟩
  | cons x rest ih =>
    rw [List.length_cons, Prog.loop, ends_bind]
    unfold loadSection
    have hat : s.sections[pre.length]? = some x := by
      rw [hs]
      exact getElem?_append_cons pre rest x
    rw [ends_bind, ends_getSection hat]
    by_cases hx : x.size ≠ 0
    · rw [if_pos hx, ends_bind, ends_setSection hat]
      simp only [ends_bind, ends_fileSeek, ends_when, ends_fileReadTo, ends_pure]
      have hnext : ∀ u : Load ω, u.sections = s.sections.set pre.length (x.setBase off) → u.tables = s.tables →
          u.symbols = s.symbols → (Prog.loop (loadSection kf mem) rest.length (pre.length + 1) (off + x.size)).Ends u
            (fun _ t => t.sections = pre ++ placed off (x :: rest) ∧ t.tables = s.tables ∧ t.symbols = s.symbols)
            fun _ _ => False := by
        intro u hu ht hy
        have hrest := ih (s := u) (pre ++ [x.setBase off])
          (by rw [hu, hs, set_append_cons, List.append_assoc]; rfl) (off + x.size)
        rw [List.length_append] at hrest
        refine hrest.mono (fun _ t h => ⟨?_, h.2.1.trans ht, h.2.2.trans hy⟩) fun _ _ he => he
        rw [h.1, placed, if_pos hx, List.append_assoc]
        rfl
      exact ⟨fun _ => hnext _ rfl rfl rfl, fun _ => hnext _ rfl rfl rfl⟩
    · rw [if_neg hx, ends_pure]
      have h0 : x.size = 0 := not_not.mp hx
      have hrest := ih (s := s) (pre ++ [x]) (by rw [hs, List.append_assoc]; rfl) off
      rw [List.length_append] at hrest
      refine hrest.mono (fun _ t h => ⟨?_, h.2⟩) fun _ _ he => he
      rw [h.1, placed, if_neg hx, h0, show off + 0 = off from BitVec.add_zero off, List.append_assoc]
      rfl

theorem commonLoadRelocatable_ends {n : Word} (hlen : s.sections.length = n.toNat) :
    (commonLoadRelocatable kf n).Ends s (fun base t => base ≠ 0 →
      t.sections = placed 0 s.sections ∧ t.symbols = s.symbols ∧
      t.image = ⟨base, totalSize s.sections + s.tables.localBssSize⟩ ∧
      t.tables = s.tables.setLocalBss (if s.tables.localBssSize ≠ 0 then
        base + (totalSize s.sections + s.tables.localBssSize) - s.tables.localBssSize else 0)) fun _ _ => False := by
  unfold commonLoadRelocatable
  rw [ends_function, ends_bind, ← hlen]
  refine (addSizes_ends [] s.sections rfl 0).mono (fun sum t h => ?_) fun _ _ he => he.elim
  obtain ⟨rfl, rfl⟩ := h
  rw [show (0 : Dword) + totalSize t.sections = totalSize t.sections from BitVec.zero_add _]
  simp only [ends_bind, ends_reads, ends_memAlloc, ends_setTables, ends_when, ends_ret, ends_memset, exits_returns]
  refine ⟨fun hbase => ⟨fun h0 => absurd h0 hbase, fun _ => ?_⟩, fun h0 => ⟨fun _ hne => absurd rfl hne, fun hne => ?_⟩⟩
  · refine Ends.mono (loadSections_ends [] t.sections (by rfl) _ 0) (fun off u h => ?_)
      fun _ _ he => he.elim
    obtain ⟨hsec, htab, hsym⟩ := h
    exact fun _ => ⟨hsec, hsym, rfl, htab⟩
  · exact absurd trivial hne

theorem ends_fd32GetCall {name : Dword} {Q : Dword → Load ω → Prop} {E : Exit Dword Fault → Load ω → Prop}
    (hq : ∀ l, Q (searchCall (fun k => s.ram (name + BitVec.ofNat 32 k)) kf.syscalls).1 (s.setStrays l)) :
    (fd32GetCall kf name).Ends s Q E := by
  unfold fd32GetCall
  simp only [ends_bind, ends_state, ends_when, ends_stray, ends_pure]
  exact ⟨fun _ => hq (_ :: _), fun _ => hq s.strays⟩

theorem setupSymbol_ends (pre rest : List SymbolInfo) (hs : s.symbols = pre ++ rest) (bss : Dword) :
    (Prog.loop (setupSymbol kf) rest.length pre.length bss).Ends s
      (fun _ t => t.symbols = pre ++ settled s.ram kf.syscalls bss rest ∧ t.ram = s.ram ∧ SameTables s t)
      fun e _ => e = .returns minusOne ∧
        ∃ y ∈ rest, y.sect = externSymbol ∧
          (searchCall (fun k => s.ram (y.name + BitVec.ofNat 32 k)) kf.syscalls).1 = 0 := by
  induction rest generalizing pre bss s with
  | nil => exact ⟨hs, rfl, rfl, rfl, rfl⟩
  | cons y rest ih =>
    rw [List.length_cons, Prog.loop, ends_bind]
    unfold setupSymbol
    have hat : s.symbols[pre.length]? = some y := by
      rw [hs]
      exact getElem?_append_cons pre rest y
    have hnext : ∀ (u : Load ω) (y' : SymbolInfo) (bss' : Dword), u.symbols = s.symbols.set pre.length y' →
        u.ram = s.ram → SameTables s u →
        settled s.ram kf.syscalls bss (y :: rest) = y' :: settled s.ram kf.syscalls bss' rest →
        (Prog.loop (setupSymbol kf) rest.length (pre.length + 1) bss').Ends u
          (fun _ t => t.symbols = pre ++ settled s.ram kf.syscalls bss (y :: rest) ∧ t.ram = s.ram ∧ SameTables s t)
          fun e _ => e = .returns minusOne ∧ ∃ z ∈ y :: rest, z.sect = externSymbol ∧
            (searchCall (fun k => s.ram (z.name + BitVec.ofNat 32 k)) kf.syscalls).1 = 0 := by
      intro u y' bss' hu hram hsame hset
      have hrest := ih (s := u) (pre ++ [y']) (by rw [hu, hs, set_append_cons, List.append_assoc]; rfl) bss'
      rw [List.length_append] at hrest
      refine hrest.mono (fun _ t h => ⟨?_, h.2.1.trans hram, h.2.2.tables.trans hsame.tables,
        h.2.2.sections.trans hsame.sections, h.2.2.image.trans hsame.image⟩) fun e _ he => ⟨he.1, ?_⟩
      · rw [h.1, hset, hram, List.append_assoc]
        rfl
      · obtain ⟨z, hz, hext, h0⟩ := he.2
        exact ⟨z, List.mem_cons_of_mem y hz, hext, hram ▸ h0⟩
    rw [ends_bind, ends_getSymbol hat]
    by_cases hc : y.sect = commonSymbol
    · rw [if_pos hc, ends_bind, ends_setSymbol hat, ends_pure]
      exact hnext _ _ _ rfl rfl ⟨rfl, rfl, rfl⟩ (by rw [settled, if_pos hc])
    rw [if_neg hc]
    by_cases he : y.sect = externSymbol
    · rw [if_pos he, ends_bind]
      refine ends_fd32GetCall fun l => ?_
      rw [ends_bind, ends_setSymbol (s := s.setStrays l) hat, ends_bind, ends_when]
      refine ⟨fun h0 => ⟨rfl, y, List.mem_cons_self, he, h0⟩, fun _ => ?_⟩
      exact hnext _ _ _ rfl rfl ⟨rfl, rfl, rfl⟩ (by rw [settled, if_neg hc, if_pos he])
    · rw [if_neg he, ends_pure]
      refine hnext _ y _ ?_ rfl ⟨rfl, rfl, rfl⟩ (by rw [settled, if_neg hc, if_neg he])
      rw [hs, set_append_cons]

theorem relocate_keeps_symbols (coffType : CoffType) (base : Dword) (n : Word) (x : SectionInfo) (i : ℕ) :
    Keeps Load.symbols (relocate (ω := ω) coffType base n x i) := by
  have htouch : ∀ p : Dword, Keeps Load.symbols (touchImage p : Body ω Unit) := fun p =>
    Keeps.bind Keeps.state fun _ => Keeps.when (Keeps.update fun _ => rfl)
  have hread : ∀ p : Dword, Keeps Load.symbols (readImage p : Body ω Dword) := fun p =>
    Keeps.bind (htouch p) fun _ => Keeps.reads _
  have hsection : ∀ i, Keeps Load.symbols (getSection i : Body ω SectionInfo) := fun i =>
    Keeps.bind Keeps.state fun s => by
      split
      · exact Keeps.pure _
      · exact Keeps.fail _
  have hsymbol : ∀ i, Keeps Load.symbols (getSymbol i : Body ω SymbolInfo) := fun i =>
    Keeps.bind Keeps.state fun s => by
      split
      · exact Keeps.pure _
      · exact Keeps.fail _
  refine Keeps.bind (Keeps.reads _) fun rel => Keeps.bind ?_ fun d => Keeps.bind (hsymbol _) fun sym =>
    Keeps.bind ?_ fun v => Keeps.bind (htouch _) fun _ => Keeps.update fun _ => rfl
  · exact Keeps.ite (Keeps.bind (hread _) fun _ => Keeps.pure _)
      (Keeps.ite (Keeps.bind (hread _) fun _ => Keeps.pure _) (Keeps.ite (Keeps.pure _) (Keeps.fail _)))
  · refine Keeps.ite (Keeps.ite (Keeps.pure _) (Keeps.pure _)) (Keeps.ite (Keeps.fail _)
      (Keeps.bind (hsection _) fun home => Keeps.ite ?_ (Keeps.ite (Keeps.pure _) (Keeps.pure _))))
    cases coffType <;> exact Keeps.pure _

/-- The first call stores the addresses of the common symbols, whatever becomes of the relocations. -/
theorem commonRelocateSection_symbols {coffType : CoffType} {base : Dword} {n : Word} (hn : 0 < s.sections.length)
    (hsyms : s.symbols.length = s.tables.numSymbols.toNat)
    (hfound : ∀ y ∈ s.symbols, y.sect = externSymbol →
      (searchCall (fun k => s.ram (y.name + BitVec.ofNat 32 k)) kf.syscalls).1 ≠ 0) :
    ((commonRelocateSection kf coffType base n 0).run s).2.symbols =
      settled s.ram kf.syscalls s.tables.localBss s.symbols := by
  have hsetup : (setupSymbols kf 0 s.tables).Ends s
      (fun _ t => t.symbols = settled s.ram kf.syscalls s.tables.localBss s.symbols) fun _ _ => False := by
    unfold setupSymbols
    rw [if_pos rfl, ends_bind, ← hsyms]
    refine (setupSymbol_ends [] s.symbols rfl _).mono (fun _ t h => h.1) fun e _ he => ?_
    obtain ⟨-, y, hy, hext, h0⟩ := he
    exact hfound y hy hext h0
  obtain ⟨_, u, hrun, hu⟩ := hsetup.exists_run
  have hget : (getSection 0 : Body ω SectionInfo).run s = (.ok s.sections[0], s) := by
    unfold getSection
    rw [run_bind_state, List.getElem?_eq_getElem hn]
    rfl
  unfold commonRelocateSection
  rw [run_function_snd, run_bind_reads, run_bind_ok hget, run_bind_ok hrun, ← hu]
  exact Keeps.bind (Keeps.loop (fun i _ => relocate_keeps_symbols _ _ _ _ _) _ _ _) (fun _ => Keeps.pure _) u

section Spans

open Span

def sectionSizes (l : List SectionInfo) : List ℕ := l.map fun x => x.size.toNat

/-- The sizes of the common symbols, before they get addresses. -/
def commonSizes (l : List SymbolInfo) : List ℕ := (l.filter fun y => y.sect = commonSymbol).map fun y => y.offset.toNat

/-- The bytes of the sections that are not empty, counted from the start of the image. -/
def sectionSpans (l : List SectionInfo) : List Span :=
  (l.filter fun x => x.size ≠ 0).map fun x => ⟨x.base.toNat, x.size.toNat⟩

/-- The bytes that the common symbols among `before` have been given in `after`, counted from the start of the image. -/
def commonSpans (base : Dword) (before after : List SymbolInfo) : List Span :=
  ((before.zip after).filter fun p => p.1.sect = commonSymbol ∧ p.1.offset ≠ 0).map fun p =>
    ⟨(p.2.offset - base).toNat, p.1.offset.toNat⟩

theorem sectionSizes_cons (x : SectionInfo) (l : List SectionInfo) :
    sectionSizes (x :: l) = x.size.toNat :: sectionSizes l := rfl

theorem sectionSpans_cons_pos {x : SectionInfo} (hx : x.size ≠ 0) (l : List SectionInfo) :
    sectionSpans (x :: l) = ⟨x.base.toNat, x.size.toNat⟩ :: sectionSpans l := by
  rw [sectionSpans, List.filter_cons_of_pos (by simpa using hx)]
  rfl

theorem sectionSpans_cons_neg {x : SectionInfo} (hx : x.size = 0) (l : List SectionInfo) :
    sectionSpans (x :: l) = sectionSpans l := by
  rw [sectionSpans, List.filter_cons_of_neg (by simp [hx])]
  rfl

theorem length_placed (off : Dword) (l : List SectionInfo) : (placed off l).length = l.length := by
  induction l generalizing off with
  | nil => rfl
  | cons x l ih => rw [placed, List.length_cons, List.length_cons, ih]

theorem placed_cons_pos {x : SectionInfo} (hx : x.size ≠ 0) (off : Dword) (l : List SectionInfo) :
    placed off (x :: l) = x.setBase off :: placed (off + x.size) l := by
  rw [placed, if_pos hx]

theorem placed_cons_neg {x : SectionInfo} (hx : x.size = 0) (off : Dword) (l : List SectionInfo) :
    placed off (x :: l) = x :: placed off l := by
  rw [placed, if_neg (not_not.mpr hx), hx, show off + 0 = off from BitVec.add_zero off]

theorem toNat_totalSize (l : List SectionInfo) : (totalSize l).toNat = (sectionSizes l).sum % 2 ^ 32 := by
  induction l with
  | nil => rfl
  | cons x l ih =>
    have hcons : totalSize (x :: l) = x.size + totalSize l := rfl
    rw [hcons, BitVec.toNat_add, ih, sectionSizes_cons, List.sum_cons, Nat.add_mod_mod]

theorem toNat_add_lt {a b : Dword} {n : ℕ} (h : a.toNat + (b.toNat + n) < 2 ^ 32) :
    (a + b).toNat = a.toNat + b.toNat := by
  rw [BitVec.toNat_add]
  exact Nat.mod_eq_of_lt (by omega)

theorem sectionSpans_placed {off : Dword} {l : List SectionInfo} (h : off.toNat + (sectionSizes l).sum < 2 ^ 32) :
    sectionSpans (placed off l) = laid off.toNat (sectionSizes l) := by
  induction l generalizing off with
  | nil => rfl
  | cons x l ih =>
    rw [sectionSizes_cons, List.sum_cons] at h
    rw [sectionSizes_cons]
    by_cases hx : x.size = 0
    · rw [placed_cons_neg hx, sectionSpans_cons_neg hx, hx, show (0 : Dword).toNat = 0 from rfl, laid_zero_cons]
      exact ih (by omega)
    · have hadd := toNat_add_lt h
      rw [placed_cons_pos hx, sectionSpans_cons_pos (x := x.setBase off) hx,
        laid_cons fun h0 => hx (BitVec.eq_of_toNat_eq h0), ih (by omega), hadd]
      rfl

theorem sum_sectionSpans_placed (off : Dword) (l : List SectionInfo) :
    ((sectionSpans (placed off l)).map Span.size).sum = (sectionSizes l).sum := by
  induction l generalizing off with
  | nil => rfl
  | cons x l ih =>
    rw [sectionSizes_cons, List.sum_cons]
    by_cases hx : x.size = 0
    · rw [placed_cons_neg hx, sectionSpans_cons_neg hx, ih, hx]
      exact (Nat.zero_add _).symm
    · rw [placed_cons_pos hx, sectionSpans_cons_pos (x := x.setBase off) hx, List.map_cons, List.sum_cons, ih]
      rfl

theorem commonSizes_cons_pos {y : SymbolInfo} (hy : y.sect = commonSymbol) (l : List SymbolInfo) :
    commonSizes (y :: l) = y.offset.toNat :: commonSizes l := by
  rw [commonSizes, List.filter_cons_of_pos (by simpa using hy)]
  rfl

theorem commonSizes_cons_neg {y : SymbolInfo} (hy : y.sect ≠ commonSymbol) (l : List SymbolInfo) :
    commonSizes (y :: l) = commonSizes l := by
  rw [commonSizes, List.filter_cons_of_neg (by simpa using hy)]
  rfl

theorem commonSpans_cons_pos {base : Dword} {y z : SymbolInfo} (hy : y.sect = commonSymbol) (h0 : y.offset ≠ 0)
    (l m : List SymbolInfo) :
    commonSpans base (y :: l) (z :: m) = ⟨(z.offset - base).toNat, y.offset.toNat⟩ :: commonSpans base l m := by
  rw [commonSpans, List.zip_cons_cons, List.filter_cons_of_pos (by simpa using ⟨hy, h0⟩)]
  rfl

theorem commonSpans_cons_neg {base : Dword} {y z : SymbolInfo} (hy : y.sect = commonSymbol → y.offset = 0)
    (l m : List SymbolInfo) : commonSpans base (y :: l) (z :: m) = commonSpans base l m := by
  rw [commonSpans, List.zip_cons_cons, List.filter_cons_of_neg (by simpa using hy)]
  rfl

/-- What the symbols that are not common are set to does not matter for the room of the others. -/
theorem settled_cons_neg (m : Memory) (calls : List (List Byte × Dword)) {y : SymbolInfo} (hy : y.sect ≠ commonSymbol)
    (bss : Dword) (l : List SymbolInfo) : ∃ z, settled m calls bss (y :: l) = z :: settled m calls bss l := by
  rw [settled, if_neg hy]
  split
  · exact ⟨_, rfl⟩
  · exact ⟨_, rfl⟩

theorem commonSpans_settled {m : Memory} {calls : List (List Byte × Dword)} {base bss : Dword} {l : List SymbolInfo}
    (h : (bss - base).toNat + (commonSizes l).sum < 2 ^ 32) :
    commonSpans base l (settled m calls bss l) = laid (bss - base).toNat (commonSizes l) := by
  induction l generalizing bss with
  | nil => rfl
  | cons y l ih =>
    by_cases hy : y.sect = commonSymbol
    · rw [commonSizes_cons_pos hy, List.sum_cons] at h
      have hadd : (bss + y.offset - base).toNat = (bss - base).toNat + y.offset.toNat := by
        rw [show bss + y.offset - base = bss - base + y.offset by rw [BitVec.sub_eq_add_neg, BitVec.sub_eq_add_neg, BitVec.add_assoc, BitVec.add_comm y.offset, BitVec.add_assoc]]
        exact toNat_add_lt h
      rw [settled, if_pos hy, commonSizes_cons_pos hy]
      by_cases h0 : y.offset = 0
      · rw [commonSpans_cons_neg fun _ => h0, ih (by rw [hadd]; omega), hadd, h0]
        rfl
      · rw [commonSpans_cons_pos hy h0, laid_cons fun hz => h0 (BitVec.eq_of_toNat_eq hz), ih (by rw [hadd]; omega), hadd]
    · obtain ⟨z, hz⟩ := settled_cons_neg m calls hy bss l
      rw [commonSizes_cons_neg hy] at h ⊢
      rw [hz, commonSpans_cons_neg fun hc => absurd hc hy, ih h]

theorem sum_commonSpans_settled (m : Memory) (calls : List (List Byte × Dword)) (base bss : Dword) (l : List SymbolInfo) :
    ((commonSpans base l (settled m calls bss l)).map Span.size).sum = (commonSizes l).sum := by
  induction l generalizing bss with
  | nil => rfl
  | cons y l ih =>
    by_cases hy : y.sect = commonSymbol
    · rw [settled, if_pos hy, commonSizes_cons_pos hy, List.sum_cons]
      by_cases h0 : y.offset = 0
      · rw [commonSpans_cons_neg fun _ => h0, ih, h0]
        exact (Nat.zero_add _).symm
      · rw [commonSpans_cons_pos hy h0, List.map_cons, List.sum_cons, ih]
    · obtain ⟨z, hz⟩ := settled_cons_neg m calls hy bss l
      rw [hz, commonSpans_cons_neg fun hc => absurd hc hy, ih, commonSizes_cons_neg hy]

theorem commonSpans_eq_nil {m : Memory} {calls : List (List Byte × Dword)} {base bss : Dword} {l : List SymbolInfo}
    (h : (commonSizes l).sum = 0) : commonSpans base l (settled m calls bss l) = [] := by
  induction l generalizing bss with
  | nil => rfl
  | cons y l ih =>
    by_cases hy : y.sect = commonSymbol
    · rw [commonSizes_cons_pos hy, List.sum_cons] at h
      have h0 : y.offset = 0 := BitVec.eq_of_toNat_eq (Nat.eq_zero_of_add_eq_zero_right h)
      rw [settled, if_pos hy, commonSpans_cons_neg fun _ => h0]
      exact ih (by omega)
    · obtain ⟨z, hz⟩ := settled_cons_neg m calls hy bss l
      rw [commonSizes_cons_neg hy] at h
      rw [hz, commonSpans_cons_neg fun hc => absurd hc hy]
      exact ih h

/-- The spans of the sections and of the common symbols lie in the image, apart from one another. -/
def LaidOut (image : Block) (sections : List SectionInfo) (before after : List SymbolInfo) : Prop :=
  (∀ p ∈ sectionSpans sections ++ commonSpans image.addr before after, p.stop ≤ image.size.toNat) ∧
    (sectionSpans sections ++ commonSpans image.addr before after).Pairwise Apart

/-- The three sums agree as long as none of them wraps around, and the room for the common symbols is large enough. -/
theorem placed_laidOut {sections : List SectionInfo} {symbols : List SymbolInfo} {base bss bssSize : Dword} {m : Memory}
    {calls : List (List Byte × Dword)} (htotal : (sectionSizes sections).sum + bssSize.toNat < 2 ^ 32)
    (hroom : (commonSizes symbols).sum ≤ bssSize.toNat)
    (hbss : bssSize ≠ 0 → bss = base + (totalSize sections + bssSize) - bssSize) :
    LaidOut ⟨base, totalSize sections + bssSize⟩ (placed 0 sections) symbols (settled m calls bss symbols) := by
  have hsize : (totalSize sections).toNat = (sectionSizes sections).sum := by
    rw [toNat_totalSize]
    exact Nat.mod_eq_of_lt (by omega)
  have hneeded : (totalSize sections + bssSize).toNat = (sectionSizes sections).sum + bssSize.toNat := by
    rw [BitVec.toNat_add, hsize]
    exact Nat.mod_eq_of_lt htotal
  have hsec : sectionSpans (placed 0 sections) = laid 0 (sectionSizes sections) :=
    sectionSpans_placed (show (0 : Dword).toNat + _ < 2 ^ 32 by rw [show (0 : Dword).toNat = 0 from rfl]; omega)
  have hcom : commonSpans base symbols (settled m calls bss symbols) =
      laid (sectionSizes sections).sum (commonSizes symbols) := by
    by_cases h0 : bssSize = 0
    · have hnone : (commonSizes symbols).sum = 0 := by
        rw [h0] at hroom
        exact Nat.le_zero.mp hroom
      rw [commonSpans_eq_nil hnone, laid_eq_nil hnone]
    · have hoff : bss - base = totalSize sections := by
        rw [hbss h0]
        bv_omega
      rw [commonSpans_settled (by rw [hoff, hsize]; omega), hoff, hsize]
  rw [LaidOut, hsec, hcom, ← Nat.zero_add (sectionSizes sections).sum, ← laid_append, hneeded]
  refine ⟨fun p hp => ?_, (laid_ascending _ _).apart⟩
  have hbound := (laid_bounds hp).2
  rw [List.sum_append] at hbound
  omega

/-- The sections and the common symbols get their own bytes of the block, if and only if their sizes add up to less than
4 GiB and `local_bss_size` is not less than what the common symbols need. -/
theorem commonLoadRelocatable_laidOut_iff {n : Word} {base : Dword} {coffType : CoffType} {t u : Load ω}
    (hlen : s.sections.length = n.toNat) (hn : n ≠ 0) (hsyms : s.symbols.length = s.tables.numSymbols.toNat)
    (hload : (commonLoadRelocatable kf n).run s = (.ok base, t)) (hbase : base ≠ 0)
    (hfound : ∀ y ∈ t.symbols, y.sect = externSymbol →
      (searchCall (fun k => t.ram (y.name + BitVec.ofNat 32 k)) kf.syscalls).1 ≠ 0)
    (hfirst : ((commonRelocateSection kf coffType base n 0).run t).2 = u) :
    LaidOut t.image t.sections t.symbols u.symbols ↔
      (sectionSizes s.sections).sum + s.tables.localBssSize.toNat < 2 ^ 32 ∧
        (commonSizes s.symbols).sum ≤ s.tables.localBssSize.toNat := by
  obtain ⟨hsec, hsym, himage, htab⟩ := (ends_iff_of_run hload).mp (commonLoadRelocatable_ends hlen) hbase
  have hpos : 0 < t.sections.length := by
    rw [hsec, length_placed, hlen]
    bv_omega
  rw [← hfirst, commonRelocateSection_symbols hpos (by rw [hsym, hsyms, htab]; rfl) hfound, hsec, himage, hsym, htab]
  constructor
  · rintro ⟨hstop, hapart⟩
    have hsum := sum_size_le hapart hstop
    rw [List.map_append, List.sum_append, sum_sectionSpans_placed, sum_commonSpans_settled, BitVec.toNat_add,
      toNat_totalSize] at hsum
    have hb := s.tables.localBssSize.isLt
    omega
  · rintro ⟨htotal, hroom⟩
    refine placed_laidOut htotal hroom fun h0 => ?_
    exact if_pos h0

/-- A section without relocations whose bytes are not in the file. -/
def bssEntry (size : Dword) : SectionInfo := ⟨0, size, 0, 0, 0, 0, [], ⟨0, 0, 0⟩⟩

/-- A load with the given sections that gets memory at address 0x1000. -/
def bssLoad (sections : List SectionInfo) (bssSize : Dword) (symbols : List SymbolInfo) : Load Disk where
  world := { contents := [], pos := 0, blocks := fun _ => 0x1000, regions := fun _ => 0, turn := 0 }
  ram := fun _ => 0
  tables := ⟨0, BitVec.ofNat 16 sections.length, 0, 0, 0, BitVec.ofNat 32 symbols.length, 0, 0, 0, 0, 0, 0, 0, 0, bssSize, 0⟩
  sections
  symbols
  image := ⟨0, 0⟩
  obtained := []
  released := []
  strays := []

def smallLoad : Load Disk := bssLoad [bssEntry 16, bssEntry 8] 4 [⟨0, 4, commonSymbol⟩]

theorem smallLoad_run : (commonLoadRelocatable (diskFuncs 0 []) 2).run smallLoad =
    (.ok 0x1000, ((commonLoadRelocatable (diskFuncs 0 []) 2).run smallLoad).2) :=
  Prod.ext (by decide +kernel) rfl

theorem commonLoadRelocatable_laidOut_iff_smallLoad :
    let t := ((commonLoadRelocatable (diskFuncs 0 []) 2).run smallLoad).2
    LaidOut t.image t.sections t.symbols
      ((commonRelocateSection (diskFuncs 0 []) .djCoff 0x1000 2 0).run t).2.symbols :=
  (commonLoadRelocatable_laidOut_iff (s := smallLoad) (n := 2) rfl (by decide) rfl smallLoad_run
    (by decide) (by decide +kernel) rfl).mpr (by decide +kernel)

/-- Two sections of 2 GiB and a little more are given a block of 16 bytes. -/
theorem bigSections_not_laidOut :
    let s := bssLoad [bssEntry 0x80000000, bssEntry 0x80000010] 0 []
    let r := (commonLoadRelocatable (diskFuncs 0 []) 2).run s
    r.1 = .ok 0x1000 ∧ ¬LaidOut r.2.image r.2.sections r.2.symbols
      ((commonRelocateSection (diskFuncs 0 []) .djCoff 0x1000 2 0).run r.2).2.symbols := by
  intro s r
  have himage : r.2.image.size = 16 := by decide +kernel
  have hsec : sectionSpans r.2.sections = [⟨0, 0x80000000⟩, ⟨0x80000000, 0x80000010⟩] := by decide +kernel
  refine ⟨by decide +kernel, fun hl => ?_⟩
  have hstop := hl.1 ⟨0, 0x80000000⟩ (List.mem_append_left _ (hsec ▸ List.mem_cons_self))
  rw [himage] at hstop
  exact absurd hstop (by decide)

end Spans

end FreeDos32.Dynalink
