import FreeDos32.Dynalink.Elf

namespace FreeDos32.Dynalink

open Prog

section Object

variable (off : Dword) (contents : List Byte) (t : TableInfo)

def headerPos (i : ℕ) : ℕ :=
  (off + t.sectionHeader + BitVec.ofNat 32 i * t.sectionHeaderSize.setWidth 32).toNat

def headerAt (i : ℕ) : ElfSectionHeader := elfSectionHeader (bytesAt contents (headerPos off t i) 40)

def relocCount (h : ElfSectionHeader) : Dword := h.shSize / h.shEntsize

def relocPos (h : ElfSectionHeader) (j : ℕ) : ℕ := (off + h.shOffset + BitVec.ofNat 32 j * h.shEntsize).toNat

def relocAt (h : ElfSectionHeader) (j : ℕ) : RelocInfo := relocInfo (elfRelInfo (bytesAt contents (relocPos off h j) 8))

/-- The relocations that the file has in a section of type `SHT_REL`. -/
def relocsOf (h : ElfSectionHeader) : List RelocInfo :=
  (List.range (relocCount h).toNat).map (relocAt off contents h)

def IsRel (i : ℕ) : Prop := (headerAt off contents t i).shType = shtRel

def IsSymtab (i : ℕ) : Prop :=
  (headerAt off contents t i).shType = shtSymtab ∨ (headerAt off contents t i).shType = shtDynsym

instance (i : ℕ) : Decidable (IsRel off contents t i) := inferInstanceAs (Decidable (_ = _))

instance (i : ℕ) : Decidable (IsSymtab off contents t i) := inferInstanceAs (Decidable (_ ∨ _))

/-- The section that the section of relocations is for. -/
def relTarget (i : ℕ) : ℕ := (headerAt off contents t i).shInfo.toNat

/-- A file that is an object with its section headers where `t` tells, at most one section of relocations for each
section, and one symbol table with its string table after it. -/
structure IsObject : Prop where
  nonempty : t.numSections ≠ 0
  headers : ∀ i < t.numSections.toNat, headerPos off t i + 40 ≤ contents.length
  rels : ∀ i < t.numSections.toNat, IsRel off contents t i → ∀ j < (relocCount (headerAt off contents t i)).toNat,
    relocPos off (headerAt off contents t i) j + 8 ≤ contents.length
  relEntsize : ∀ i < t.numSections.toNat, IsRel off contents t i → (headerAt off contents t i).shEntsize ≠ 0
  target : ∀ i < t.numSections.toNat, IsRel off contents t i → relTarget off contents t i < t.numSections.toNat
  single : ∀ i < t.numSections.toNat, ∀ j < t.numSections.toNat, IsRel off contents t i → IsRel off contents t j →
    relTarget off contents t i = relTarget off contents t j → i = j
  noRela : ∀ i < t.numSections.toNat, (headerAt off contents t i).shType ≠ shtRela
  symEntsize : ∀ i < t.numSections.toNat, IsSymtab off contents t i → (headerAt off contents t i).shEntsize ≠ 0
  strtab : ∀ i < t.numSections.toNat, IsSymtab off contents t i →
    i < (headerAt off contents t i).shLink.toNat ∧ (headerAt off contents t i).shLink.toNat < t.numSections.toNat
  oneSymtab : ∀ i < t.numSections.toNat, ∀ j < t.numSections.toNat, IsSymtab off contents t i →
    IsSymtab off contents t j → i = j

/-- The entry of section `k` holds what the first `m` sections have in relocations for it, and nothing else. -/
structure Carries (m k : ℕ) (x : SectionInfo) : Prop where
  some : ∀ i < m, IsRel off contents t i → relTarget off contents t i = k →
    x.numReloc = relocCount (headerAt off contents t i) ∧ x.relocs = relocsOf off contents (headerAt off contents t i)
  none : (∀ i < m, IsRel off contents t i → relTarget off contents t i ≠ k) → x.numReloc = 0

end Object

variable {off : Dword} {contents : List Byte} {t : TableInfo} {calls : List (List Byte × Dword)} {blocks : ℕ → Dword}
  {s s₀ : Load Disk} {v : SectionVars} {i : ℕ}

/-- The loop over the section headers has come to section `i`. -/
structure Pass (off : Dword) (contents : List Byte) (t : TableInfo) (blocks : ℕ → Dword) (s₀ : Load Disk) (i : ℕ)
    (v : SectionVars) (s : Load Disk) : Prop where
  file : s.world.contents = contents
  blocks : s.world.blocks = blocks
  header : s.tables.sectionHeader = t.sectionHeader
  headerSize : s.tables.sectionHeaderSize = t.sectionHeaderSize
  length : s.sections.length = t.numSections.toNat
  done : ∀ k < i, ∀ x, s.sections[k]? = some x → Carries off contents t i k x
  rest : ∀ k, i ≤ k → s.sections[k]? = s₀.sections[k]?
  strtab : v.stringtable = minusOne ∨ ∃ j < i, IsSymtab off contents t j

/-- The name only decides which section is taken for the bss. -/
theorem ends_elfIsBss {ω : Type} {h : ElfSectionHeader} {s : Load ω} {Q : Bool → Load ω → Prop}
    {E : Exit Dword Fault → Load ω → Prop} (hq : ∀ b l, Q b (s.setStrays l)) : (elfIsBss h).Ends s Q E := by
  unfold elfIsBss
  simp only [ends_bind, ends_state, ends_when, ends_stray, ends_pure]
  exact ⟨fun _ => hq _ (_ :: _), fun _ => hq _ s.strays⟩

theorem elfReadReloc_loop {h : ElfSectionHeader} {x : SectionInfo} {r : List Byte}
    (hx : s.sections[h.shInfo.toNat]? = some x) (hempty : x.relocs = []) (hfile : s.world.contents = contents)
    (hrels : ∀ j < (relocCount h).toNat, relocPos off h j + 8 ≤ contents.length) :
    (Prog.loop (elfReadReloc (diskFuncs off calls) h) (relocCount h).toNat 0 r).Ends s
      (fun _ u => u.world.contents = contents ∧ u.world.blocks = s.world.blocks ∧ u.tables = s.tables ∧
        u.sections = s.sections.set h.shInfo.toNat { x with relocs := relocsOf off contents h }) fun _ _ => False := by
  obtain ⟨hlt, hget⟩ := List.getElem?_eq_some_iff.mp hx
  refine Ends.loop_zero (I := fun j _ (u : Load Disk) => u.world.contents = contents ∧ u.world.blocks = s.world.blocks ∧
    u.tables = s.tables ∧ u.sections = s.sections.set h.shInfo.toNat
      { x with relocs := (List.range j).map (relocAt off contents h) }) ?_ ?_
  · refine ⟨hfile, rfl, rfl, ?_⟩
    rw [List.range_zero, List.map_nil, ← hempty, ← hget]
    exact (List.set_getElem_self hlt).symm
  · rintro j r u hj ⟨hf, hb, ht, hs⟩
    have hat : u.sections[h.shInfo.toNat]? = some
        { x with relocs := (List.range j).map (relocAt off contents h) } := by
      rw [hs, List.getElem?_set_self hlt]
    unfold elfReadReloc
    refine ends_fetch hf (hrels j hj) fun _ d hd hdb => ?_
    simp only [ends_bind, ends_pure]
    rw [ends_setSection (s := u.setWorld d) hat]
    refine ⟨hd, hdb.trans hb, ht, ?_⟩
    simp only [Load.setSections_sections, Load.setWorld_sections, hs, List.set_set, List.range_succ, List.map_append]
    rfl

theorem ends_elfReadRel {h : ElfSectionHeader} {x : SectionInfo} (hx : s.sections[h.shInfo.toNat]? = some x)
    (hnone : x.numReloc = 0) (hent : h.shEntsize ≠ 0) (hfile : s.world.contents = contents)
    (hmem : ∀ k, s.world.blocks k ≠ 0)
    (hrels : ∀ j < (relocCount h).toNat, relocPos off h j + 8 ≤ contents.length) :
    (elfReadRel (diskFuncs off calls) h v).Ends s
      (fun v' u => u.world.contents = contents ∧ u.world.blocks = s.world.blocks ∧ u.tables = s.tables ∧
        v'.stringtable = v.stringtable ∧ ∃ x', u.sections = s.sections.set h.shInfo.toNat x' ∧
          x'.numReloc = relocCount h ∧ x'.relocs = relocsOf off contents h) fun _ _ => False := by
  obtain ⟨hlt, -⟩ := List.getElem?_eq_some_iff.mp hx
  unfold elfReadRel
  simp only [ends_bind, ends_when, ends_pure, ends_goWrong, ends_ret]
  rw [ends_getSection hx]
  refine ⟨fun hne => absurd hnone hne, fun _ => ⟨fun h0 => absurd h0 hent, fun _ => ?_⟩⟩
  rw [ends_setSection hx, ends_memAlloc]
  refine ⟨fun _ => ?_, fun h0 => absurd h0 (hmem _)⟩
  rw [ends_setSection (x := x.setNumReloc (relocCount h)) (List.getElem?_set_self hlt)]
  refine ⟨fun h0 => absurd h0 (hmem _), fun _ => ?_⟩
  generalize hp : ((diskFuncs off calls).memAlloc _ _).1 = p
  refine Ends.mono (elfReadReloc_loop (x := (x.setNumReloc (relocCount h)).setReloc p) ?_ rfl ?_ hrels)
    (fun r u hu => ?_) fun _ _ he => he
  · exact List.getElem?_set_self (by simpa using hlt)
  · exact hfile
  · obtain ⟨hf, hb, ht, hs⟩ := hu
    exact ⟨hf, hb, ht, trivial, _, by simpa using hs, rfl, rfl⟩

theorem elfReadRel_double {h : ElfSectionHeader} {x : SectionInfo} (hx : s.sections[h.shInfo.toNat]? = some x)
    (hne : x.numReloc ≠ 0) {Q : SectionVars → Load Disk → Prop} {E : Exit Dword Fault → Load Disk → Prop}
    (he : E (.returns 0) s) : (elfReadRel (diskFuncs off calls) h v).Ends s Q E := by
  unfold elfReadRel
  rw [ends_bind, ends_getSection hx, ends_bind, ends_when]
  exact ⟨fun _ => he, fun h0 => absurd hne h0⟩

theorem Carries.succ {k : ℕ} {x : SectionInfo} (h : Carries off contents t i k x) (hrel : ¬IsRel off contents t i) :
    Carries off contents t (i + 1) k x where
  some j hj hr := h.some j (Nat.lt_of_le_of_ne (Nat.le_of_lt_succ hj) fun he => hrel (he ▸ hr)) hr
  none hall := h.none fun j hj => hall j (Nat.lt_succ_of_lt hj)

/-- A section that no section of relocations before it is for has none when the loop comes to it. -/
theorem Carries.clear (horder : ∀ j < i, IsRel off contents t j → relTarget off contents t j ≤ j) (x : SectionInfo) :
    Carries off contents t i i x.clear where
  some j hj hr he := absurd (horder j hj hr) (by omega)
  none _ := rfl

/-- The state in which the header of section `i` has been read and its entry cleared. -/
structure Cleared (off : Dword) (contents : List Byte) (t : TableInfo) (blocks : ℕ → Dword) (s₀ : Load Disk) (i : ℕ)
    (v : SectionVars) (s : Load Disk) : Prop where
  file : s.world.contents = contents
  blocks : s.world.blocks = blocks
  header : s.tables.sectionHeader = t.sectionHeader
  headerSize : s.tables.sectionHeaderSize = t.sectionHeaderSize
  length : s.sections.length = t.numSections.toNat
  done : ∀ k ≤ i, ∀ x, s.sections[k]? = some x → Carries off contents t i k x
  rest : ∀ k, i < k → s.sections[k]? = s₀.sections[k]?
  strtab : v.stringtable = minusOne ∨ ∃ j < i, IsSymtab off contents t j

theorem Cleared.pass (h : Cleared off contents t blocks s₀ i v s) (hi : i < t.numSections.toNat)
    (hrel : ¬IsRel off contents t i) {v' : SectionVars} {u : Load Disk} (hw : u.world = s.world)
    (hh : u.tables.sectionHeader = s.tables.sectionHeader)
    (hhs : u.tables.sectionHeaderSize = s.tables.sectionHeaderSize)
    (hs : u.sections = s.sections ∨ ∃ x x', s.sections[i]? = some x ∧ u.sections = s.sections.set i x' ∧
      x'.numReloc = x.numReloc ∧ x'.relocs = x.relocs)
    (hv : v'.stringtable = minusOne ∨ ∃ j < i + 1, IsSymtab off contents t j) :
    Pass off contents t blocks s₀ (i + 1) v' u where
  file := hw ▸ h.file
  blocks := hw ▸ h.blocks
  header := hh.trans h.header
  headerSize := hhs.trans h.headerSize
  length := by
    rcases hs with hs | ⟨x, x', -, hs, -⟩ <;> rw [hs]
    · exact h.length
    · rw [List.length_set, h.length]
  done k hk x hx := by
    refine Carries.succ ?_ hrel
    rcases hs with hs | ⟨y, x', hy, hs, hn, hr⟩
    · exact h.done k (Nat.le_of_lt_succ hk) x (hs ▸ hx)
    · rw [hs] at hx
      by_cases hki : k = i
      · subst hki
        rw [List.getElem?_set_self (by rw [h.length]; exact hi)] at hx
        cases hx
        have hc := h.done k (Nat.le_refl k) y hy
        exact ⟨fun j hj hjr he => by rw [hn, hr]; exact hc.some j hj hjr he, fun hall => by rw [hn]; exact hc.none hall⟩
      · rw [List.getElem?_set_ne (Ne.symm hki)] at hx
        exact h.done k (Nat.le_of_lt_succ hk) x hx
  rest k hk := by
    rcases hs with hs | ⟨x, x', -, hs, -⟩ <;> rw [hs]
    · exact h.rest k hk
    · rw [List.getElem?_set_ne (by omega)]
      exact h.rest k hk
  strtab := hv

theorem Pass.clear (h : Pass off contents t blocks s₀ i v s) (hi : i < t.numSections.toNat)
    (horder : ∀ j < i, IsRel off contents t j → relTarget off contents t j ≤ j) {x : SectionInfo}
    (hx : s.sections[i]? = some x) {d : Disk} (hd : d.contents = contents) (hb : d.blocks = s.world.blocks)
    {v' : SectionVars} (hv : v'.stringtable = v.stringtable) :
    Cleared off contents t blocks s₀ i v' ((s.setWorld d).setSections (s.sections.set i x.clear)) where
  file := hd
  blocks := hb.trans h.blocks
  header := h.header
  headerSize := h.headerSize
  length := by
    rw [Load.setSections_sections, List.length_set]
    exact h.length
  done k hk y hy := by
    rw [Load.setSections_sections] at hy
    by_cases hki : k = i
    · subst hki
      rw [List.getElem?_set_self (by rw [h.length]; exact hi)] at hy
      cases hy
      exact Carries.clear horder x
    · rw [List.getElem?_set_ne (Ne.symm hki)] at hy
      exact h.done k (Nat.lt_of_le_of_ne hk hki) y hy
  rest k hk := by
    rw [Load.setSections_sections, List.getElem?_set_ne (Nat.ne_of_lt hk)]
    exact h.rest k (Nat.le_of_lt hk)
  strtab := hv ▸ h.strtab

theorem Cleared.rel (ho : IsObject off contents t) (hmem : ∀ k, blocks k ≠ 0) (h : Cleared off contents t blocks s₀ i v s)
    (hi : i < t.numSections.toNat) (hrel : IsRel off contents t i) (hle : relTarget off contents t i ≤ i) :
    (elfReadRel (diskFuncs off calls) (headerAt off contents t i) v).Ends s
      (Pass off contents t blocks s₀ (i + 1)) fun _ _ => False := by
  obtain ⟨x, hx⟩ : ∃ x, s.sections[relTarget off contents t i]? = some x := by
    refine ⟨_, List.getElem?_eq_getElem ?_⟩
    rw [h.length]
    exact ho.target i hi hrel
  have hnone : x.numReloc = 0 := (h.done _ hle x hx).none fun j hj hjr he =>
    absurd (ho.single j (Nat.lt_trans hj hi) i hi hjr hrel he) (Nat.ne_of_lt hj)
  refine (ends_elfReadRel hx hnone (ho.relEntsize i hi hrel) h.file (by rw [h.blocks]; exact hmem)
    (ho.rels i hi hrel)).mono (fun v' u hu => ?_) fun _ _ he => he
  obtain ⟨hf, hb, ht, hv, x', hs', hn, hr⟩ := hu
  have hs : u.sections = s.sections.set (relTarget off contents t i) x' := hs'
  have hlt : relTarget off contents t i < s.sections.length := by
    rw [h.length]
    exact ho.target i hi hrel
  refine ⟨hf, hb.trans h.blocks, ht ▸ h.header, ht ▸ h.headerSize, ?_, fun k hk y hy => ?_, fun k hk => ?_, ?_⟩
  · rw [hs, List.length_set, h.length]
  · rw [hs] at hy
    by_cases hki : k = relTarget off contents t i
    · subst hki
      rw [List.getElem?_set_self hlt] at hy
      cases hy
      refine ⟨fun j hj hjr he => ?_, fun hall => absurd rfl (hall i (Nat.lt_succ_self i) hrel)⟩
      obtain rfl := ho.single j (by omega) i hi hjr hrel he
      exact ⟨hn, hr⟩
    · rw [List.getElem?_set_ne (Ne.symm hki)] at hy
      have hc := h.done k (Nat.le_of_lt_succ hk) y hy
      refine ⟨fun j hj hjr he => ?_, fun hall => hc.none fun j hj => hall j (Nat.lt_succ_of_lt hj)⟩
      refine hc.some j (Nat.lt_of_le_of_ne (Nat.le_of_lt_succ hj) fun heq => ?_) hjr he
      exact hki (by rw [← he, heq])
  · rw [hs, List.getElem?_set_ne (by omega)]
    exact h.rest k hk
  · rw [hv]
    exact h.strtab.imp id fun ⟨j, hj, hjs⟩ => ⟨j, Nat.lt_succ_of_lt hj, hjs⟩

theorem Cleared.symtab (ho : IsObject off contents t) (h : Cleared off contents t blocks s₀ i v s)
    (hi : i < t.numSections.toNat) (hrel : ¬IsRel off contents t i) (hsym : IsSymtab off contents t i) :
    (elfReadSymtab i (headerAt off contents t i) v).Ends s (Pass off contents t blocks s₀ (i + 1)) fun _ _ => False := by
  have hstr : v.stringtable = minusOne := h.strtab.resolve_right fun ⟨j, hj, hjs⟩ =>
    absurd (ho.oneSymtab j (Nat.lt_trans hj hi) i hi hjs hsym) (Nat.ne_of_lt hj)
  have hlink : ¬(headerAt off contents t i).shLink.slt (BitVec.ofNat 32 i) = true := by
    obtain ⟨hlt, hn⟩ := ho.strtab i hi hsym
    have hbound := t.numSections.isLt
    have hi32 : (BitVec.ofNat 32 i).toNat = i := by
      rw [BitVec.toNat_ofNat]
      exact Nat.mod_eq_of_lt (by omega)
    rw [BitVec.slt, decide_eq_true_eq, BitVec.toInt_eq_toNat_of_lt (by omega), BitVec.toInt_eq_toNat_of_lt (by omega), hi32]
    omega
  unfold elfReadSymtab
  simp only [ends_bind, ends_setTables, ends_when, ends_goWrong, ends_ret, ends_pure]
  refine ⟨fun h0 => absurd h0 (ho.symEntsize i hi hsym), fun _ => ⟨fun hne => absurd hstr hne, fun _ =>
    ⟨fun hlt => absurd hlt hlink, fun _ => ?_⟩⟩⟩
  exact h.pass hi hrel rfl rfl rfl (.inl rfl) (.inr ⟨i, Nat.lt_succ_self i, hsym⟩)

theorem Cleared.section (ho : IsObject off contents t) (hmem : ∀ k, blocks k ≠ 0)
    (h : Cleared off contents t blocks s₀ i v s) (hi : i < t.numSections.toNat)
    (horder : IsRel off contents t i → relTarget off contents t i ≤ i) :
    (elfReadSection (diskFuncs off calls) i (headerAt off contents t i) v).Ends s
      (Pass off contents t blocks s₀ (i + 1)) fun _ _ => False := by
  have hstr : ∀ {v' : SectionVars}, v'.stringtable = v.stringtable →
      v'.stringtable = minusOne ∨ ∃ j < i + 1, IsSymtab off contents t j := fun hv => by
    rw [hv]
    exact h.strtab.imp id fun ⟨j, hj, hjs⟩ => ⟨j, Nat.lt_succ_of_lt hj, hjs⟩
  unfold elfReadSection
  rw [ends_bind]
  refine ends_elfIsBss fun b l => ?_
  generalize hv' : (if b = true then { v with bss := BitVec.ofNat 32 i } else v) = v'
  have hv : v'.stringtable = v.stringtable := by
    rw [← hv']
    split <;> rfl
  have hc : Cleared off contents t blocks s₀ i v' (s.setStrays l) :=
    ⟨h.file, h.blocks, h.header, h.headerSize, h.length, h.done, h.rest, hv ▸ h.strtab⟩
  by_cases hrel : (headerAt off contents t i).shType = shtRel
  · rw [if_pos hrel]
    exact hc.rel ho hmem hi hrel (horder hrel)
  rw [if_neg hrel, if_neg (ho.noRela i hi)]
  by_cases hsym : (headerAt off contents t i).shType = shtSymtab ∨ (headerAt off contents t i).shType = shtDynsym
  · rw [if_pos hsym]
    exact hc.symtab ho hi hrel hsym
  rw [if_neg hsym]
  split
  · exact hc.pass hi hrel rfl rfl rfl (.inl rfl) (.inl rfl)
  · obtain ⟨x, hx⟩ : ∃ x, s.sections[i]? = some x := ⟨_, List.getElem?_eq_getElem (by rw [h.length]; exact hi)⟩
    unfold elfReadProgbits
    rw [ends_bind, ends_setSection (s := s.setStrays l) hx, ends_pure]
    exact hc.pass hi hrel rfl rfl rfl (.inr ⟨x, _, hx, rfl, rfl, rfl⟩) (hstr hv)

theorem Pass.read (ho : IsObject off contents t) (h : Pass off contents t blocks s₀ i v s) (hi : i < t.numSections.toNat)
    (horder : ∀ j < i, IsRel off contents t j → relTarget off contents t j ≤ j) {Q : SectionVars → Load Disk → Prop}
    {E : Exit Dword Fault → Load Disk → Prop}
    (hq : ∀ v' u, v'.stringtable = v.stringtable → Cleared off contents t blocks s₀ i v' u →
      (if (headerAt off contents t i).shType ≠ shtNull then
        elfReadSection (diskFuncs off calls) i (headerAt off contents t i) v' else pure v').Ends u Q E) :
    (elfReadSectionHeader (diskFuncs off calls) i v).Ends s Q E := by
  obtain ⟨x, hx⟩ : ∃ x, s.sections[i]? = some x := ⟨_, List.getElem?_eq_getElem (by rw [h.length]; exact hi)⟩
  have hpos : headerPos off t i =
      ((diskFuncs off calls).fileOffset + s.tables.sectionHeader +
        BitVec.ofNat 32 i * s.tables.sectionHeaderSize.setWidth 32).toNat := by
    rw [h.header, h.headerSize]
    rfl
  unfold elfReadSectionHeader
  rw [ends_bind, ends_reads]
  refine ends_fetch h.file (by rw [← hpos]; exact ho.headers i hi) fun _ d hd hdb => ?_
  rw [← hpos, ends_bind, ends_setSection (s := s.setWorld d) hx]
  exact hq { v with h := _ } _ rfl (h.clear hi horder hx hd hdb rfl)

theorem Pass.round (ho : IsObject off contents t) (hmem : ∀ k, blocks k ≠ 0) (h : Pass off contents t blocks s₀ i v s)
    (hi : i < t.numSections.toNat) (horder : ∀ j ≤ i, IsRel off contents t j → relTarget off contents t j ≤ j) :
    (elfReadSectionHeader (diskFuncs off calls) i v).Ends s (Pass off contents t blocks s₀ (i + 1)) fun _ _ => False := by
  refine h.read ho hi (fun j hj => horder j (Nat.le_of_lt hj)) fun v' u hv hc => ?_
  by_cases hnull : (headerAt off contents t i).shType ≠ shtNull
  · rw [if_pos hnull]
    exact hc.section ho hmem hi (horder i (Nat.le_refl i))
  · rw [if_neg hnull, ends_pure]
    have hrel : ¬IsRel off contents t i := fun hr => hnull (by rw [hr]; decide)
    exact hc.pass hi hrel rfl rfl rfl (.inl rfl) (hc.strtab.imp id fun ⟨j, hj, hjs⟩ => ⟨j, Nat.lt_succ_of_lt hj, hjs⟩)

/-- The first section of relocations for a later section ends the loop, if what stands in the place of that section
looks as if it had relocations. -/
theorem Pass.stops (ho : IsObject off contents t) (h : Pass off contents t blocks s₀ i v s) (hi : i < t.numSections.toNat)
    (horder : ∀ j < i, IsRel off contents t j → relTarget off contents t j ≤ j) (hrel : IsRel off contents t i)
    (hlater : i < relTarget off contents t i) {x : SectionInfo} (hx : s₀.sections[relTarget off contents t i]? = some x)
    (hne : x.numReloc ≠ 0) :
    (elfReadSectionHeader (diskFuncs off calls) i v).Ends s (fun _ _ => False) fun e u =>
      e = .returns 0 ∧ u.sections[relTarget off contents t i]? = some x := by
  refine h.read ho hi horder fun v' u hv hc => ?_
  rw [if_pos (by rw [hrel]; decide)]
  have hat : u.sections[relTarget off contents t i]? = some x := by rw [hc.rest _ hlater, hx]
  unfold elfReadSection
  rw [ends_bind]
  refine ends_elfIsBss fun b l => ?_
  dsimp only
  rw [if_pos (show (headerAt off contents t i).shType = shtRel from hrel)]
  refine elfReadRel_double (s := u.setStrays l) hat hne ?_
  exact ⟨rfl, hat⟩

theorem Pass.rounds (calls : List (List Byte × Dword)) (ho : IsObject off contents t) (hmem : ∀ k, blocks k ≠ 0) {m : ℕ}
    (hm : m ≤ t.numSections.toNat)
    (h : Pass off contents t blocks s₀ 0 v s)
    (horder : ∀ j < m, IsRel off contents t j → relTarget off contents t j ≤ j) :
    (Prog.loop (elfReadSectionHeader (diskFuncs off calls)) m 0 v).Ends s
      (Pass off contents t blocks s₀ m) fun _ _ => False :=
  Ends.loop_zero h fun _ _ _ hk hp => hp.round ho hmem (by omega) fun j hj => horder j (by omega)

theorem Pass.start (hfile : s.world.contents = contents) (ht : s.tables = t)
    (hlen : s.sections.length = t.numSections.toNat) (hv : v.stringtable = minusOne) :
    Pass off contents t s.world.blocks s 0 v s where
  file := hfile
  blocks := rfl
  header := ht ▸ rfl
  headerSize := ht ▸ rfl
  length := hlen
  done _ hk := absurd hk (Nat.not_lt_zero _)
  rest _ _ := rfl
  strtab := .inl hv

/-- Every section ends up with the relocations that the file has for it. -/
def AllCarry (off : Dword) (contents : List Byte) (t : TableInfo) (s : Load Disk) : Prop :=
  ∀ k < t.numSections.toNat, ∃ x, s.sections[k]? = some x ∧ Carries off contents t t.numSections.toNat k x

/-- An entry that has never been filled, and looks as if it had relocations, though not `n` of them. -/
def staleEntry (n : Dword) : SectionInfo := ⟨0, 0, 0, 0, if n = 1 then 2 else 1, 0, [], ⟨0, 0, 0⟩⟩

theorem staleEntry_ne_zero (n : Dword) : (staleEntry n).numReloc ≠ 0 := by
  show (if n = 1 then (2 : Dword) else 1) ≠ 0
  split <;> decide

theorem staleEntry_ne (n : Dword) : (staleEntry n).numReloc ≠ n := by
  show (if n = 1 then (2 : Dword) else 1) ≠ n
  split
  · next hn => exact hn ▸ by decide
  · next hn => exact Ne.symm hn

/-- A load that has got the table of sections. -/
def startLoad (contents : List Byte) (blocks : ℕ → Dword) (t : TableInfo) (sections : List SectionInfo) : Load Disk where
  world := { contents, pos := 0, blocks, regions := fun _ => 0, turn := 0 }
  ram := fun _ => 0
  tables := t
  sections
  symbols := []
  image := ⟨0, 0⟩
  obtained := []
  released := []
  strays := []

/-- What the entries of the table of sections hold at first does not matter, if and only if each section of relocations
stands behind the section that it is for. -/
theorem elfReadSectionHeaders_carry_iff (ho : IsObject off contents t) (hmem : ∀ k, blocks k ≠ 0) (junk : Junk) :
    (∀ s : Load Disk, s.world.contents = contents → s.world.blocks = blocks → s.tables = t →
      s.sections.length = t.numSections.toNat →
      (elfReadSectionHeaders (diskFuncs off calls) junk).Ends s (fun _ => AllCarry off contents t) fun _ _ => False) ↔
    ∀ i < t.numSections.toNat, IsRel off contents t i → relTarget off contents t i ≤ i := by
  have hpos : 0 < t.numSections.toNat := by
    have := ho.nonempty
    bv_omega
  constructor
  · intro hall i
    induction i using Nat.strongRecOn with | ind i ih
    intro hi hrel
    have hfirst : ∀ j < i, IsRel off contents t j → relTarget off contents t j ≤ j := fun j hj =>
      ih j hj (Nat.lt_trans hj hi)
    by_contra hlate
    have htarget := ho.target i hi hrel
    let stale := staleEntry (relocCount (headerAt off contents t i))
    let s := startLoad contents blocks t (List.replicate t.numSections.toNat stale)
    have hlen : s.sections.length = t.numSections.toNat := List.length_replicate
    have hstale : s.sections[relTarget off contents t i]? = some stale := by
      rw [List.getElem?_eq_getElem (by rw [hlen]; exact htarget)]
      exact congrArg some (List.getElem_replicate _)
    have hstart : Pass off contents t blocks s 0
        { bss := minusOne, stringtable := minusOne, h := junk.sectionHeader, r := junk.relInfo } s :=
      Pass.start rfl rfl hlen rfl
    obtain ⟨v, u, hrun, hp⟩ := (hstart.rounds calls ho hmem (Nat.le_of_lt hi) hfirst).exists_run
    have hends := hall s rfl rfl rfl hlen
    obtain ⟨m, hm⟩ : ∃ m, t.numSections.toNat = i + (m + 1) := ⟨t.numSections.toNat - i - 1, by omega⟩
    unfold elfReadSectionHeaders at hends
    rw [ends_function, ends_bind, ends_reads, ends_bind, show s.tables.numSections.toNat = i + (m + 1) from hm,
      ends_loop_add, ends_iff_of_run hrun, Prog.loop, ends_bind, Nat.zero_add] at hends
    refine (hends.and (hp.stops ho hi hfirst hrel (Nat.lt_of_not_le hlate) hstale (staleEntry_ne_zero _))).elim
      (fun _ _ h => h.2) ?_
    rintro e w ⟨hq, rfl, hw⟩
    obtain ⟨x, hx, hc⟩ := hq _ htarget
    rw [hw] at hx
    cases hx
    exact staleEntry_ne _ (hc.some i hi hrel rfl).1
  · rintro horder s hfile rfl ht hlen
    unfold elfReadSectionHeaders
    rw [ends_function, ends_bind, ends_reads, ends_bind, ht]
    refine ((Pass.start hfile ht hlen rfl).rounds calls ho hmem (Nat.le_refl _) horder).mono (fun v u hp => ?_)
      fun _ _ he => he.elim
    rw [ends_bind, ends_getSection (List.getElem?_eq_getElem (by rw [hp.length]; exact hpos))]
    intro k hk
    exact ⟨_, List.getElem?_eq_getElem (by rw [Load.setTables_sections, hp.length]; exact hk), hp.done k hk _ (List.getElem?_eq_getElem _)⟩

/-- A section header with the given type, offset, size, `sh_info` and `sh_entsize`. -/
def headerBytes (type offset size info entsize : Dword) : List Byte :=
  [0, type, 0, 0, offset, size, 0, info, 0, entsize].flatMap Memory.bytesOf

/-- The null section and two others, and one relocation behind the three headers. -/
def twoSections (first second : List Byte) : List Byte :=
  headerBytes 0 0 0 0 0 ++ first ++ second ++ Memory.bytesOf 4 ++ Memory.bytesOf 0x101

def twoSectionTables : TableInfo := ⟨0, 3, 40, 0, 0, 0, 0, 0, 0, 0, 0, 0, 0, 0, 0, 0⟩

def noJunk : Junk where
  tables := twoSectionTables
  sections _ := staleEntry 0
  symbols _ := ⟨0, 0, 0⟩
  header := []
  optHeader := []
  sectionHeader := []
  relInfo := []
  symbol := []
  size := 0

def relLast : List Byte := twoSections (headerBytes 1 0 4 0 0) (headerBytes 9 120 8 1 8)

def relFirst : List Byte := twoSections (headerBytes 9 120 8 2 8) (headerBytes 1 0 4 0 0)

theorem relLast_isObject : IsObject 0 relLast twoSectionTables where
  nonempty := by decide
  headers := by decide +kernel
  rels := by decide +kernel
  relEntsize := by decide +kernel
  target := by decide +kernel
  single := by decide +kernel
  noRela := by decide +kernel
  symEntsize := by decide +kernel
  strtab := by decide +kernel
  oneSymtab := by decide +kernel

theorem elfReadSectionHeaders_carry_iff_relLast :
    (elfReadSectionHeaders (diskFuncs 0 []) noJunk).Ends
      (startLoad relLast (fun _ => 1) twoSectionTables (List.replicate 3 (staleEntry 1)))
      (fun _ => AllCarry 0 relLast twoSectionTables) fun _ _ => False :=
  (@elfReadSectionHeaders_carry_iff 0 relLast twoSectionTables [] (fun _ => 1) relLast_isObject (fun _ => by decide)
    noJunk).mpr
    (by decide +kernel) _ rfl rfl rfl rfl

theorem relFirst_isObject : IsObject 0 relFirst twoSectionTables where
  nonempty := by decide
  headers := by decide +kernel
  rels := by decide +kernel
  relEntsize := by decide +kernel
  target := by decide +kernel
  single := by decide +kernel
  noRela := by decide +kernel
  symEntsize := by decide +kernel
  strtab := by decide +kernel
  oneSymtab := by decide +kernel

/-- The relocations of a section that comes later are dropped, even if its entry is empty at first. -/
theorem relFirst_dropped : IsObject 0 relFirst twoSectionTables ∧
    ¬(elfReadSectionHeaders (diskFuncs 0 []) noJunk).Ends
      (startLoad relFirst (fun _ => 1) twoSectionTables (List.replicate 3 ((staleEntry 0).setNumReloc 0)))
      (fun _ => AllCarry 0 relFirst twoSectionTables) fun _ _ => False := by
  refine ⟨relFirst_isObject, fun hends => ?_⟩
  obtain ⟨_, hall⟩ := hends.exists_snd
  obtain ⟨x, hx, hc⟩ := hall 2 (by decide)
  have hcount : x.numReloc = 1 := (hc.some 1 (by decide) (by decide +kernel) (by decide +kernel)).1
  have hnone : (((elfReadSectionHeaders (diskFuncs 0 []) noJunk).run (startLoad relFirst (fun _ => 1) twoSectionTables
      (List.replicate 3 ((staleEntry 0).setNumReloc 0)))).2.sections[2]?).map SectionInfo.numReloc = some 0 := by
    decide +kernel
  rw [hx, Option.map_some, hcount] at hnone
  exact absurd hnone (by decide)

end FreeDos32.Dynalink
