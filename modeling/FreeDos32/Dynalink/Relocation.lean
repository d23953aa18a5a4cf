import FreeDos32.Dynalink.Exec
import FreeDos32.Dynalink.Layout
import FreeDos32.Dynalink.SectionOrder

namespace FreeDos32.Dynalink

open Prog

variable {ω : Type} {kf : KernFuncs ω} {s : Load ω}

section Fixups

variable (base : Dword) (sections : List SectionInfo) (symbols : List SymbolInfo)

/-- The run-time address of symbol `k`, when `symbols` are settled. -/
def symbolAddress (k : ℕ) : Dword := match symbols[k]? with
  | some y =>
    if y.sect = commonSymbol ∨ y.sect = externSymbol then y.offset
    else match sections[y.sect.toNat]? with
      | some home => base + home.base + y.offset
      | none => 0
  | none => 0

/-- The run-time address of the word that is relocated. -/
def placeOf (f : SectionInfo × RelocInfo) : Dword := f.1.base + f.2.offset + base

/-- The relocations that are made, in their order. -/
def fixupsOf (x : SectionInfo) : List (SectionInfo × RelocInfo) := (x.relocs.take x.numReloc.toNat).map fun r => (x, r)

def fixups : List (SectionInfo × RelocInfo) := sections.flatMap fixupsOf

/-- What the code makes of a word that holds `a`. -/
def patchedWord (f : SectionInfo × RelocInfo) (a : Dword) : Dword :=
  if f.2.type = relTypeRelative then symbolAddress base sections symbols f.2.symbol.toNat - placeOf base f - 4
  else a + symbolAddress base sections symbols f.2.symbol.toNat

def patchOf (f : SectionInfo × RelocInfo) : Dword × (Dword → Dword) :=
  (placeOf base f, patchedWord base sections symbols f)

/-- What the word that held `a` is to be by the rules of the format: S + A or S + A - P. -/
def relocatedWord (f : SectionInfo × RelocInfo) (a : Dword) : Dword :=
  if f.2.type = relTypeRelative then symbolAddress base sections symbols f.2.symbol.toNat + a - placeOf base f
  else symbolAddress base sections symbols f.2.symbol.toNat + a

end Fixups

/-- The memory is the only thing a relocation changes, the record of strays apart. -/
structure Patched (s t : Load ω) (l : List (Dword × (Dword → Dword))) : Prop where
  ram : t.ram = s.ram.patchAll l
  sections : t.sections = s.sections
  symbols : t.symbols = s.symbols
  tables : t.tables = s.tables

theorem Patched.refl (s : Load ω) : Patched s s [] := ⟨rfl, rfl, rfl, rfl⟩

theorem Patched.trans {t u : Load ω} {l l' : List (Dword × (Dword → Dword))} (h : Patched s t l) (h' : Patched t u l') :
    Patched s u (l ++ l') where
  ram := by rw [h'.ram, h.ram, Memory.patchAll_append]
  sections := h'.sections.trans h.sections
  symbols := h'.symbols.trans h.symbols
  tables := h'.tables.trans h.tables

theorem ends_touchImage {p : Dword} {Q : Unit → Load ω → Prop} {E : Exit Dword Fault → Load ω → Prop}
    (hq : ∀ l, Q () (s.setStrays l)) : (touchImage p).Ends s Q E := by
  unfold touchImage
  simp only [ends_bind, ends_state, ends_when, ends_stray]
  exact ⟨fun _ => hq (_ :: _), fun _ => hq s.strays⟩

theorem ends_readImage {p : Dword} {Q : Dword → Load ω → Prop} {E : Exit Dword Fault → Load ω → Prop}
    (hq : ∀ l, Q (s.ram.word p) (s.setStrays l)) : (readImage p).Ends s Q E := by
  unfold readImage
  rw [ends_bind]
  exact ends_touchImage hq

theorem ends_writeImage {p v : Dword} {Q : Unit → Load ω → Prop} {E : Exit Dword Fault → Load ω → Prop}
    (hq : ∀ l, Q () ((s.setStrays l).setRam (s.ram.putWord p v))) : (writeImage p v).Ends s Q E := by
  unfold writeImage
  rw [ends_bind]
  exact ends_touchImage hq

/-- A function that stops early returns -1 or goes wrong. -/
def GaveUp (e : Exit Dword Fault) : Prop := ∀ r, e = .returns r → r = minusOne

theorem gaveUp_returns : GaveUp (.returns minusOne) := fun _ h => (Exit.returns.inj h).symm

theorem gaveUp_fault (f : Fault) : GaveUp (.fault f) := fun _ h => nomatch h

theorem getSection_ends {i : ℕ} {Q : SectionInfo → Load ω → Prop} (hq : ∀ x, s.sections[i]? = some x → Q x s) :
    (getSection i).Ends s Q fun e _ => GaveUp e := by
  unfold getSection
  rw [ends_bind, ends_state]
  split
  · exact hq _ ‹_›
  · exact gaveUp_fault _

theorem getSymbol_ends {i : ℕ} {Q : SymbolInfo → Load ω → Prop} (hq : ∀ y, s.symbols[i]? = some y → Q y s) :
    (getSymbol i).Ends s Q fun e _ => GaveUp e := by
  unfold getSymbol
  rw [ends_bind, ends_state]
  split
  · exact hq _ ‹_›
  · exact gaveUp_fault _

theorem symbolAddress_outside {base : Dword} {sections : List SectionInfo} {symbols : List SymbolInfo} {k : ℕ}
    {y : SymbolInfo} (hy : symbols[k]? = some y) (hsect : y.sect = commonSymbol ∨ y.sect = externSymbol) :
    symbolAddress base sections symbols k = y.offset := by
  rw [symbolAddress, hy]
  exact if_pos hsect

theorem symbolAddress_local {base : Dword} {sections : List SectionInfo} {symbols : List SymbolInfo} {k : ℕ}
    {y : SymbolInfo} {home : SectionInfo} (hy : symbols[k]? = some y)
    (hsect : ¬(y.sect = commonSymbol ∨ y.sect = externSymbol)) (hhome : sections[y.sect.toNat]? = some home) :
    symbolAddress base sections symbols k = base + home.base + y.offset := by
  rw [symbolAddress, hy]
  simp only [if_neg hsect, hhome]

theorem relocated_ends {coffType : CoffType} {base : Dword} {n : Word} {x : SectionInfo} {r : RelocInfo} {y : SymbolInfo}
    {address : Dword} (htype : r.type = relTypeElfAbsolute ∨ r.type = relTypeRelative)
    (hy : s.symbols[r.symbol.toNat]? = some y) :
    (relocated coffType base n x r y (placeOf base (x, r)) address : Body ω Dword).Ends s
      (fun v t => t = s ∧ v = patchedWord base s.sections s.symbols (x, r) address) fun e _ => GaveUp e := by
  unfold relocated patchedWord
  by_cases hsect : y.sect = commonSymbol ∨ y.sect = externSymbol
  · rw [if_pos hsect, symbolAddress_outside hy hsect]
    split
    · exact ⟨rfl, rfl⟩
    · exact ⟨rfl, rfl⟩
  rw [if_neg hsect, ends_ite]
  refine ⟨fun _ => gaveUp_returns, fun _ => ?_⟩
  rw [ends_bind]
  refine getSection_ends fun home hhome => ?_
  rw [symbolAddress_local hy hsect hhome]
  rcases htype with h | h
  · simp only [h]
    rw [if_neg (by decide), if_pos trivial, if_neg (by decide)]
    exact ⟨rfl, rfl⟩
  · simp only [h]
    rw [if_neg (by decide), if_neg (by decide), if_pos trivial]
    refine ⟨rfl, ?_⟩
    rw [placeOf]
    generalize home.base = b, x.base = c
    grind

theorem relocate_ends {coffType : CoffType} {base : Dword} {n : Word} {x : SectionInfo} {i : ℕ} {r : RelocInfo}
    (hr : x.relocs[i]? = some r) (htype : r.type = relTypeElfAbsolute ∨ r.type = relTypeRelative) :
    (relocate coffType base n x i).Ends s (fun _ t => Patched s t [patchOf base s.sections s.symbols (x, r)])
      fun e _ => GaveUp e := by
  unfold relocate getReloc
  rw [ends_bind, ends_reads, List.getD_eq_getElem?_getD, hr, Option.getD_some, ends_bind]
  have hdest : (destination base x r : Body ω (Dword × Dword)).Ends s
      (fun d t => ∃ l, t = s.setStrays l ∧ d.1 = placeOf base (x, r) ∧
        (r.type = relTypeElfAbsolute → d.2 = s.ram.word d.1)) fun e _ => GaveUp e := by
    unfold destination
    rcases htype with h | h
    · rw [if_pos h, ends_bind]
      exact ends_readImage fun l => ⟨l, rfl, rfl, fun _ => rfl⟩
    · rw [h, if_neg (by decide), if_neg (by decide), if_pos rfl]
      exact ⟨s.strays, rfl, rfl, fun hne => absurd hne (by decide)⟩
  refine hdest.mono ?_ fun _ _ he => he
  rintro ⟨dest, address⟩ t ⟨l, rfl, rfl, haddress⟩
  rw [ends_bind]
  refine getSymbol_ends fun y hy => ?_
  rw [ends_bind]
  refine (relocated_ends (s := s.setStrays l) htype hy).mono ?_ fun _ _ he => he
  rintro v t ⟨rfl, rfl⟩
  refine ends_writeImage fun l' => ⟨?_, rfl, rfl, rfl⟩
  have hword : patchedWord base s.sections s.symbols (x, r) address =
      patchedWord base s.sections s.symbols (x, r) (s.ram.word (placeOf base (x, r))) := by
    rcases htype with h | h
    · rw [show address = _ from haddress h]
    · simp only [patchedWord, if_pos h]
  exact congrArg (s.ram.putWord (placeOf base (x, r))) hword

/-- A table of relocations that has been filled, with nothing but R_386_32 and R_386_PC32 in it. -/
structure Supported (x : SectionInfo) : Prop where
  filled : x.numReloc.toNat ≤ x.relocs.length
  types : ∀ r ∈ x.relocs, r.type = relTypeElfAbsolute ∨ r.type = relTypeRelative

theorem relocate_loop {coffType : CoffType} {base : Dword} {n : Word} {x : SectionInfo} (hx : Supported x) :
    (Prog.loop (fun i _ => relocate coffType base n x i) x.numReloc.toNat 0 ()).Ends s
      (fun _ t => Patched s t ((fixupsOf x).map (patchOf base s.sections s.symbols))) fun e _ => GaveUp e := by
  unfold fixupsOf
  refine Ends.loop_zero (I := fun k _ t => Patched s t
    (((x.relocs.take k).map fun r => (x, r)).map (patchOf base s.sections s.symbols))) (Patched.refl s) ?_
  intro k _ t hk ht
  have hlt : k < x.relocs.length := Nat.lt_of_lt_of_le hk hx.filled
  refine (relocate_ends (List.getElem?_eq_getElem hlt) (hx.types _ (List.getElem_mem hlt))).mono (fun _ u hu => ?_)
    fun _ _ he => he
  rw [ht.sections, ht.symbols] at hu
  have hall := ht.trans hu
  rwa [List.take_succ_eq_append_getElem hlt, List.map_append, List.map_append]

/-- The symbols as they are when section `i` is relocated. -/
def symbolsAt (kf : KernFuncs ω) (s : Load ω) (i : ℕ) : List SymbolInfo :=
  if i = 0 then settled s.ram kf.syscalls s.tables.localBss s.symbols else s.symbols

theorem setupSymbols_ends {i : ℕ} (hsyms : s.symbols.length = s.tables.numSymbols.toNat) :
    (setupSymbols kf i s.tables).Ends s (fun _ t => Patched (s.setSymbols (symbolsAt kf s i)) t [])
      fun e _ => GaveUp e := by
  unfold setupSymbols symbolsAt
  by_cases hi : i = 0
  · rw [if_pos hi, if_pos hi, ends_bind, ← hsyms]
    exact (setupSymbol_ends [] s.symbols rfl _).mono
      (fun _ t h => ⟨h.2.1, h.2.2.sections, h.1, h.2.2.tables⟩) fun _ _ he => he.1 ▸ gaveUp_returns
  · rw [if_neg hi, if_neg hi]
    exact Patched.refl s

theorem commonRelocateSection_ends {coffType : CoffType} {base : Dword} {n : Word} {i : ℕ} {x : SectionInfo}
    (hx : s.sections[i]? = some x) (hsup : Supported x) (hsyms : s.symbols.length = s.tables.numSymbols.toNat) :
    (commonRelocateSection kf coffType base n i).Ends s
      (fun res t => res = minusOne ∨ Patched (s.setSymbols (symbolsAt kf s i)) t
        ((fixupsOf x).map (patchOf base s.sections (symbolsAt kf s i)))) fun _ _ => True := by
  have hgave : ∀ e (t : Load ω), GaveUp e → exits (fun res t => res = minusOne ∨
      Patched (s.setSymbols (symbolsAt kf s i)) t
        ((fixupsOf x).map (patchOf base s.sections (symbolsAt kf s i)))) (fun _ _ => True) e t := by
    rintro (r | f) t he
    · exact Or.inl (he r rfl)
    · exact trivial
  unfold commonRelocateSection
  rw [ends_function, ends_bind, ends_reads, ends_bind, ends_getSection hx, ends_bind]
  refine (setupSymbols_ends hsyms).mono (fun _ t ht => ?_) hgave
  rw [ends_bind]
  refine (relocate_loop hsup).mono (fun _ u hu => Or.inr ?_) hgave
  rw [ht.sections, ht.symbols] at hu
  exact ht.trans hu

section Sections

variable {junk : Junk} {coffType : CoffType} {base : Dword} {n : Word} {t u : Load ω}

theorem relocateSection_succ_ends {i : ℕ} {x : SectionInfo} (hi : i ≠ 0) (hx : s.sections[i]? = some x)
    (hsup : Supported x) (hsyms : s.symbols.length = s.tables.numSymbols.toNat) :
    (commonRelocateSection kf coffType base n i).Ends s
      (fun res t => res = minusOne ∨ Patched s t ((fixupsOf x).map (patchOf base s.sections s.symbols)))
      fun _ _ => True := by
  have hends := @commonRelocateSection_ends _ kf s coffType base n _ _ hx hsup hsyms
  rwa [symbolsAt, if_neg hi] at hends

theorem relocateSections_succ_ends (pre rest : List SectionInfo) (hs : s.sections = pre ++ rest) (hpre : pre ≠ [])
    (hsup : ∀ x ∈ rest, Supported x) (hsyms : s.symbols.length = s.tables.numSymbols.toNat) :
    (relocateSections (elfFuncs kf junk coffType) base n rest.length pre.length).Ends s
      (fun ok t => ok = true → Patched s t ((fixups rest).map (patchOf base s.sections s.symbols))) fun _ _ => True := by
  induction rest generalizing pre s with
  | nil => exact fun _ => Patched.refl s
  | cons x rest ih =>
    have hat : s.sections[pre.length]? = some x := by
      rw [hs]
      exact getElem?_append_cons pre rest x
    have hpos : pre.length ≠ 0 := fun h0 => hpre (List.eq_nil_of_length_eq_zero h0)
    rw [List.length_cons, relocateSections, ends_bind, ends_call]
    refine (relocateSection_succ_ends hpos hat (hsup x List.mem_cons_self) hsyms).mono (fun res t ht => ?_)
      fun _ _ he => he
    rcases ht with rfl | ht
    · rw [if_pos (by decide)]
      exact fun h => absurd h (by decide)
    rw [ends_ite]
    refine ⟨fun _ h => absurd h (by decide), fun _ => ?_⟩
    have hrest := ih (s := t) (pre ++ [x]) (by rw [ht.sections, hs, List.append_assoc]; rfl) (by simp)
      (fun z hz => hsup z (List.mem_cons_of_mem x hz)) (by rw [ht.symbols, ht.tables, hsyms])
    rw [List.length_append] at hrest
    refine hrest.mono (fun ok v hv hok => ?_) fun _ _ he => he
    have hall := ht.trans (hv hok)
    rw [ht.sections, ht.symbols] at hall
    rwa [fixups, List.flatMap_cons, List.map_append]

theorem length_settled (m : Memory) (calls : List (List Byte × Dword)) (bss : Dword) (l : List SymbolInfo) :
    (settled m calls bss l).length = l.length := by
  induction l generalizing bss with
  | nil => rfl
  | cons y l ih =>
    rw [settled]
    split
    · rw [List.length_cons, ih, List.length_cons]
    · split
      · rw [List.length_cons, ih, List.length_cons]
      · rw [List.length_cons, ih, List.length_cons]

theorem relocateSections_ends (hlen : s.sections.length = n.toNat) (hn : n ≠ 0) (hsup : ∀ x ∈ s.sections, Supported x)
    (hsyms : s.symbols.length = s.tables.numSymbols.toNat) :
    (relocateSections (elfFuncs kf junk coffType) base n n.toNat 0).Ends s
      (fun ok t => ok = true → Patched (s.setSymbols (symbolsAt kf s 0)) t
        ((fixups s.sections).map (patchOf base s.sections (symbolsAt kf s 0)))) fun _ _ => True := by
  obtain ⟨x, rest, hs⟩ : ∃ x rest, s.sections = x :: rest := List.exists_cons_of_length_pos (by rw [hlen]; bv_omega)
  rw [← hlen, hs, List.length_cons, relocateSections, ends_bind, ends_call, ← hs]
  rw [hs] at hsup
  have hat : s.sections[0]? = some x := by rw [hs]; rfl
  refine (commonRelocateSection_ends hat (hsup x List.mem_cons_self) hsyms).mono (fun res t ht => ?_) fun _ _ he => he
  rcases ht with rfl | ht
  · rw [if_pos (by decide)]
    exact fun h => absurd h (by decide)
  rw [ends_ite]
  refine ⟨fun _ h => absurd h (by decide), fun _ => ?_⟩
  have hsyms' : t.symbols.length = t.tables.numSymbols.toNat := by
    rw [ht.symbols, ht.tables]
    exact (length_settled _ _ _ _).trans hsyms
  refine (relocateSections_succ_ends (s := t) [x] rest (ht.sections.trans hs) (by simp)
    (fun z hz => hsup z (List.mem_cons_of_mem x hz)) hsyms').mono (fun ok v hv hok => ?_) fun _ _ he => he
  have hall := ht.trans (hv hok)
  rw [ht.sections, ht.symbols] at hall
  have hfix : fixups s.sections = fixupsOf x ++ fixups rest := by
    rw [hs]
    rfl
  rw [hfix, List.map_append]
  exact hall

end Sections

section Contents

open Memory

variable {off : Dword} {calls : List (List Byte × Dword)} {contents : List Byte} {s : Load Disk}

/-- The file has the bytes of the section, and the section has room for them. -/
structure InFile (off : Dword) (contents : List Byte) (x : SectionInfo) : Prop where
  there : (off + x.fileptr).toNat + x.filesize.toNat ≤ contents.length
  room : x.filesize.toNat ≤ x.size.toNat

/-- The memory at `mem` holds the bytes that the file has of the section. -/
def Holds (off : Dword) (contents : List Byte) (mem : Dword) (m : Memory) (x : SectionInfo) : Prop :=
  ∀ k < x.filesize.toNat, m (mem + x.base + BitVec.ofNat 32 k) = contents.getD ((off + x.fileptr).toNat + k) 0

theorem put_within {m : Memory} {a : Dword} {bs : List Byte} {k : ℕ} (hk : k < bs.length) (hlen : bs.length < 2 ^ 32) :
    m.put a bs (a + BitVec.ofNat 32 k) = bs.getD k 0 := by
  rw [put_add (Nat.lt_trans hk hlen), List.getD_eq_getElem _ _ hk, List.getD_eq_getElem _ _ hk]

theorem getD_bytesAt {pos n k : ℕ} (hk : k < n) : (bytesAt contents pos n).getD k 0 = contents.getD (pos + k) 0 := by
  simp only [bytesAt, List.getD_eq_getElem?_getD, List.getElem?_take, List.getElem?_drop, if_pos hk]

/-- Two blocks one behind the other, when both together are not more than the memory there is. -/
theorem not_within_next {a size p : Dword} {n : ℕ} (hroom : size.toNat + n ≤ 2 ^ 32) (hp : Within a size.toNat p) :
    ¬Within (a + size) n p := by
  unfold Within at *
  bv_omega

theorem within_add {a size p : Dword} {n : ℕ} (hp : ¬Within a (size.toNat + n) p) :
    ¬Within a size.toNat p ∧ ¬Within (a + size) n p := by
  unfold Within at *
  bv_omega

theorem loadSection_bytes {mem off' : Dword} {i : ℕ} {x : SectionInfo} (hx : s.sections[i]? = some x) (h0 : x.size ≠ 0)
    (hfile : s.world.contents = contents) (hin : InFile off contents x) :
    (loadSection (diskFuncs off calls) mem i off').Ends s
      (fun o t => o = off' + x.size ∧ t.world.contents = contents ∧
        t.sections = s.sections.set i (x.setBase off') ∧
        (∀ p, ¬Within (mem + off') x.size.toNat p → t.ram p = s.ram p) ∧
        Holds off contents mem t.ram (x.setBase off')) fun _ _ => False := by
  unfold loadSection
  rw [ends_bind, ends_getSection hx, if_pos h0, ends_bind, ends_setSection hx]
  simp only [ends_bind, ends_fileSeek, ends_when, ends_fileReadTo, ends_pure]
  refine ⟨fun _ => ?_, fun hnone => ⟨trivial, hfile, rfl, fun _ _ => rfl, fun k hk => ?_⟩⟩
  · have hlen := length_bytesAt hin.there
    have hgot : ((diskFuncs off calls).fileRead x.filesize (s.world.seek
        ((diskFuncs off calls).fileOffset + x.fileptr).toNat)).1.2.take x.filesize.toNat = bytesAt contents (off + x.fileptr).toNat x.filesize.toNat := by
      rw [← hfile] at hlen ⊢
      exact List.take_of_length_le (Nat.le_of_eq hlen)
    refine ⟨trivial, hfile, rfl, fun p hp => ?_, fun k hk => ?_⟩
    · show s.ram.put _ (List.take _ ((diskFuncs off calls).fileRead x.filesize (s.world.seek _)).1.2) p = s.ram p
      rw [hgot]
      refine put_of_not_within fun hw => hp ?_
      rw [hlen] at hw
      exact Nat.lt_of_lt_of_le hw hin.room
    · show s.ram.put _ (List.take _ ((diskFuncs off calls).fileRead x.filesize (s.world.seek _)).1.2) _ = _
      rw [hgot]
      have hk' : k < x.filesize.toNat := hk
      refine (put_within ?_ ?_).trans (getD_bytesAt hk')
      · rwa [hlen]
      · rw [hlen]
        exact x.filesize.isLt
  · have hk' : k < x.filesize.toNat := hk
    have hzero : ¬0 < x.filesize := hnone
    bv_omega

/-- The loop leaves each section's bytes in its place, as long as the sections do not wrap around. -/
theorem loadSections_bytes (pre rest : List SectionInfo) (hs : s.sections = pre ++ rest) (mem off' : Dword)
    (hfile : s.world.contents = contents) (hin : ∀ x ∈ rest, InFile off contents x)
    (hroom : (sectionSizes rest).sum ≤ 2 ^ 32) :
    (Prog.loop (loadSection (diskFuncs off calls) mem) rest.length pre.length off').Ends s
      (fun _ t => (∀ p, ¬Within (mem + off') (sectionSizes rest).sum p → t.ram p = s.ram p) ∧
        ∀ x ∈ placed off' rest, Holds off contents mem t.ram x) fun _ _ => False := by
  induction rest generalizing pre off' s with
  | nil => exact ⟨fun _ _ => rfl, fun _ hx => nomatch hx⟩
  | cons x rest ih =>
    have hat : s.sections[pre.length]? = some x := by
      rw [hs]
      exact getElem?_append_cons pre rest x
    rw [sectionSizes_cons, List.sum_cons] at hroom
    have hx := hin x List.mem_cons_self
    have hnext : ∀ (u : Load Disk) (x' : SectionInfo), u.sections = s.sections.set pre.length x' →
        u.world.contents = contents → (∀ p, ¬Within (mem + off') x.size.toNat p → u.ram p = s.ram p) →
        placed off' (x :: rest) = x' :: placed (off' + x.size) rest →
        (∀ m : Memory, (∀ p, Within (mem + off') x.size.toNat p → m p = u.ram p) → Holds off contents mem m x') →
        (Prog.loop (loadSection (diskFuncs off calls) mem) rest.length (pre.length + 1) (off' + x.size)).Ends u
          (fun _ t => (∀ p, ¬Within (mem + off') (sectionSizes (x :: rest)).sum p → t.ram p = s.ram p) ∧
            ∀ z ∈ placed off' (x :: rest), Holds off contents mem t.ram z) fun _ _ => False := by
      intro u x' hu hf hframe hplaced hholds
      have hrest := ih (s := u) (pre ++ [x'])
        (by rw [hu, hs, set_append_cons, List.append_assoc]; rfl) (off' + x.size) hf (fun z hz => hin z (List.mem_cons_of_mem x hz))
        (by omega)
      rw [List.length_append] at hrest
      refine hrest.mono (fun _ t ht => ⟨fun p hp => ?_, fun z hz => ?_⟩) fun _ _ he => he
      · rw [sectionSizes_cons, List.sum_cons] at hp
        obtain ⟨h1, h2⟩ := within_add hp
        rw [ht.1 p (by rwa [← BitVec.add_assoc]), hframe p h1]
      · rw [hplaced, List.mem_cons] at hz
        rcases hz with rfl | hz
        · refine hholds t.ram fun p hp => ht.1 p ?_
          rw [← BitVec.add_assoc]
          exact not_within_next hroom hp
        · exact ht.2 z hz
    rw [List.length_cons, Prog.loop, ends_bind]
    by_cases h0 : x.size = 0
    · unfold loadSection
      rw [ends_bind, ends_getSection hat, if_neg (not_not.mpr h0), ends_pure]
      have hoff : off' + x.size = off' := by
        rw [h0]
        exact BitVec.add_zero off'
      have hset : s.sections = s.sections.set pre.length x := by
        rw [hs, set_append_cons]
      have hnone : x.filesize.toNat = 0 := by
        have hle := hx.room
        rw [h0] at hle
        exact Nat.le_zero.mp hle
      have hgo := hnext s x hset hfile (fun _ _ => rfl) (by rw [hoff, placed_cons_neg h0]) fun m _ k hk => by
        omega
      rwa [hoff] at hgo
    · refine (loadSection_bytes hat h0 hfile hx).mono ?_ fun _ _ he => he
      rintro o u ⟨rfl, hf, hu, hframe, hholds⟩
      refine hnext u _ hu hf hframe (placed_cons_pos h0 _ _) fun m hm k hk => ?_
      have hk' : k < x.filesize.toNat := hk
      rw [← hholds k hk]
      refine hm _ ?_
      rw [SectionInfo.setBase_base, Within, toNat_add_sub_cancel, BitVec.toNat_ofNat,
        Nat.mod_eq_of_lt (Nat.lt_trans hk' x.filesize.isLt)]
      exact Nat.lt_of_lt_of_le hk' hx.room

theorem mem_placed {o : Dword} {l : List SectionInfo} {x : SectionInfo} (hx : x ∈ placed o l) :
    ∃ y ∈ l, ∃ b, x = y.setBase b := by
  induction l generalizing o with
  | nil => exact nomatch hx
  | cons y l ih =>
    rw [placed, List.mem_cons] at hx
    rcases hx with rfl | hx
    · refine ⟨y, List.mem_cons_self, ?_⟩
      split
      · exact ⟨o, rfl⟩
      · exact ⟨y.base, rfl⟩
    · obtain ⟨z, hz, hb⟩ := ih hx
      exact ⟨z, List.mem_cons_of_mem y hz, hb⟩

theorem Supported.setBase {x : SectionInfo} (h : Supported x) (b : Dword) : Supported (x.setBase b) := ⟨h.filled, h.types⟩

theorem commonLoadRelocatable_holds {n : Word} (hlen : s.sections.length = n.toNat) (hfile : s.world.contents = contents)
    (hin : ∀ x ∈ s.sections, InFile off contents x) (hroom : (sectionSizes s.sections).sum ≤ 2 ^ 32) :
    (commonLoadRelocatable (diskFuncs off calls) n).Ends s
      (fun base t => base ≠ 0 → ∀ x ∈ placed 0 s.sections, Holds off contents base t.ram x) fun _ _ => False := by
  unfold commonLoadRelocatable
  rw [ends_function, ends_bind, ← hlen]
  refine (addSizes_ends [] s.sections rfl 0).mono (fun sum t h => ?_) fun _ _ he => he.elim
  obtain ⟨rfl, -⟩ := h
  simp only [ends_bind, ends_reads, ends_memAlloc, ends_setTables, ends_when, ends_ret, ends_memset, exits_returns]
  refine ⟨fun hbase => ⟨fun h0 => absurd h0 hbase, fun _ => ?_⟩, fun h0 => ⟨fun _ hne => absurd rfl hne, fun hne => ?_⟩⟩
  · refine Ends.mono (loadSections_bytes [] t.sections (by rfl) _ 0 (by exact hfile) hin hroom)
      (fun _ u h => ?_) fun _ _ he => he.elim
    exact fun _ => h.2
  · exact absurd trivial hne

/-- The addend that the file stores at the place of the relocation. -/
def storedWord (off : Dword) (contents : List Byte) (f : SectionInfo × RelocInfo) : Dword :=
  dwordAt contents ((off + f.1.fileptr).toNat + f.2.offset.toNat)

theorem Holds.word {mem : Dword} {m : Memory} {x : SectionInfo} {r : RelocInfo} (h : Holds off contents mem m x)
    (hr : r.offset.toNat + 4 ≤ x.filesize.toNat) :
    m.word (placeOf mem (x, r)) = storedWord off contents (x, r) := by
  have hbyte : ∀ k < 4, m (placeOf mem (x, r) + BitVec.ofNat 32 k) =
      contents.getD ((off + x.fileptr).toNat + r.offset.toNat + k) 0 := by
    intro k hk
    have hat := h (r.offset.toNat + k) (by omega)
    rw [← Nat.add_assoc] at hat
    rw [← hat, placeOf]
    congr 1
    rw [BitVec.ofNat_add, BitVec.ofNat_toNat, BitVec.setWidth_eq]
    grind
  have h0 := hbyte 0 (by decide)
  rw [show placeOf mem (x, r) + BitVec.ofNat 32 0 = placeOf mem (x, r) from BitVec.add_zero _] at h0
  have hword := congrArg₂ (· ++ ·) (congrArg₂ (· ++ ·) (congrArg₂ (· ++ ·) (hbyte 3 (by decide)) (hbyte 2 (by decide)))
    (hbyte 1 (by decide))) h0
  exact hword

end Contents

section Addends

variable (base : Dword) (sections : List SectionInfo)

/-- A relocation whose word no other relocation touches. -/
def Single (f : SectionInfo × RelocInfo) : Prop := ∃ pre post, fixups sections = pre ++ f :: post ∧
  ∀ g ∈ pre ++ post, Memory.Apart (placeOf base f) (placeOf base g)

/-- The relocated words are S + A and S + A - P, and nothing else has changed. -/
structure Relocated (symbols : List SymbolInfo) (m m' : Memory) (a : SectionInfo × RelocInfo → Dword) : Prop where
  words : ∀ f, Single base sections f → m'.word (placeOf base f) = relocatedWord base sections symbols f (a f)
  others : ∀ p, (∀ f ∈ fixups sections, ¬Memory.Within (placeOf base f) 4 p) → m' p = m p

/-- The addends that a call instruction has. -/
def CallAddends (a : SectionInfo × RelocInfo → Dword) : Prop :=
  ∀ f, Single base sections f → f.2.type = relTypeRelative → a f = -4

variable {base} {sections} {symbols : List SymbolInfo} {m m' : Memory}

theorem patchedWord_eq_iff (f : SectionInfo × RelocInfo) (a : Dword) :
    patchedWord base sections symbols f a = relocatedWord base sections symbols f a ↔
      (f.2.type = relTypeRelative → a = -4) := by
  unfold patchedWord relocatedWord
  generalize symbolAddress base sections symbols f.2.symbol.toNat = v, placeOf base f = p
  by_cases h : f.2.type = relTypeRelative
  · rw [if_pos h, if_pos h]
    constructor
    · intro heq _
      grind
    · intro ha
      rw [ha h]
      grind
  · rw [if_neg h, if_neg h]
    exact ⟨fun _ h' => absurd h' h, fun _ => BitVec.add_comm a v⟩

theorem relocated_iff (hm : m' = m.patchAll ((fixups sections).map (patchOf base sections symbols))) :
    Relocated base sections symbols m m' (fun f => m.word (placeOf base f)) ↔
      CallAddends base sections fun f => m.word (placeOf base f) := by
  have hword : ∀ f, Single base sections f →
      m'.word (placeOf base f) = patchedWord base sections symbols f (m.word (placeOf base f)) := by
    rintro f ⟨pre, post, hsplit, hapart⟩
    rw [hm, hsplit, List.map_append, List.map_cons]
    refine Memory.word_patchAll fun e he => ?_
    rw [← List.map_append] at he
    obtain ⟨g, hg, rfl⟩ := List.mem_map.mp he
    exact hapart g hg
  constructor
  · intro h f hf
    rw [← patchedWord_eq_iff, ← hword f hf]
    exact h.words f hf
  · refine fun h => ⟨fun f hf => ?_, fun p hp => ?_⟩
    · rw [hword f hf, patchedWord_eq_iff]
      exact h f hf
    · rw [hm]
      refine Memory.patchAll_of_not_within fun e he => ?_
      obtain ⟨g, hg, rfl⟩ := List.mem_map.mp he
      exact hp g hg

theorem Relocated.of_agree {a b : SectionInfo × RelocInfo → Dword} (h : Relocated base sections symbols m m' a)
    (hab : ∀ f, Single base sections f → a f = b f) : Relocated base sections symbols m m' b :=
  ⟨fun f hf => hab f hf ▸ h.words f hf, h.others⟩

theorem CallAddends.of_agree {a b : SectionInfo × RelocInfo → Dword} (h : CallAddends base sections a)
    (hab : ∀ f, Single base sections f → a f = b f) : CallAddends base sections b :=
  fun f hf htype => hab f hf ▸ h f hf htype

end Addends

/-- The image is relocated right if and only if the addends of the relative relocations are the usual -4; with `a` the
words that were loaded, and, for sections that do not wrap around and places in the file, with `a` the words of the file. -/
theorem relocateSections_addends_iff {off : Dword} {calls : List (List Byte × Dword)} {contents : List Byte}
    {s t u : Load Disk} {junk : Junk} {coffType : CoffType} {base : Dword} {n : Word}
    (hlen : s.sections.length = n.toNat) (hn : n ≠ 0) (hsyms : s.symbols.length = s.tables.numSymbols.toNat)
    (hsup : ∀ x ∈ s.sections, Supported x) (hfile : s.world.contents = contents)
    (hload : (commonLoadRelocatable (diskFuncs off calls) n).run s = (.ok base, t)) (hbase : base ≠ 0)
    (hrun : (relocateSections (elfFuncs (diskFuncs off calls) junk coffType) base n n.toNat 0).run t = (.ok true, u)) :
    (Relocated base t.sections (settled t.ram calls t.tables.localBss t.symbols) t.ram u.ram
        (fun f => t.ram.word (placeOf base f)) ↔ CallAddends base t.sections fun f => t.ram.word (placeOf base f)) ∧
    ((sectionSizes s.sections).sum ≤ 2 ^ 32 → (∀ x ∈ s.sections, InFile off contents x) →
      (∀ f ∈ fixups t.sections, f.2.offset.toNat + 4 ≤ f.1.filesize.toNat) →
      (Relocated base t.sections (settled t.ram calls t.tables.localBss t.symbols) t.ram u.ram
        (storedWord off contents) ↔ CallAddends base t.sections (storedWord off contents))) := by
  obtain ⟨hsec, hsym, -, htab⟩ := (ends_iff_of_run hload).mp (commonLoadRelocatable_ends hlen) hbase
  have hlen' : t.sections.length = n.toNat := by rw [hsec, length_placed, hlen]
  have hsup' : ∀ x ∈ t.sections, Supported x := by
    intro x hx
    rw [hsec] at hx
    obtain ⟨y, hy, b, rfl⟩ := mem_placed hx
    exact (hsup y hy).setBase b
  have hsyms' : t.symbols.length = t.tables.numSymbols.toNat := by
    rw [hsym, hsyms, htab]
    rfl
  have hpatch := ((ends_iff_of_run hrun).mp (relocateSections_ends hlen' hn hsup' hsyms') rfl).ram
  have hloaded : Relocated base t.sections (settled t.ram calls t.tables.localBss t.symbols) t.ram u.ram
      (fun f => t.ram.word (placeOf base f)) ↔ CallAddends base t.sections fun f => t.ram.word (placeOf base f) :=
    relocated_iff hpatch
  refine ⟨hloaded, fun hroom hin hplaces => ?_⟩
  have hholds := (ends_iff_of_run hload).mp (commonLoadRelocatable_holds hlen hfile hin hroom) hbase
  have hstored : ∀ f, Single base t.sections f → t.ram.word (placeOf base f) = storedWord off contents f := by
    rintro f ⟨pre, post, hsplit, -⟩
    have hf : f ∈ fixups t.sections := hsplit ▸ List.mem_append_right pre List.mem_cons_self
    obtain ⟨x, hx, hmem⟩ := List.mem_flatMap.mp hf
    obtain ⟨r, -, rfl⟩ := List.mem_map.mp hmem
    exact (hholds x (hsec ▸ hx)).word (hplaces _ hf)
  constructor
  · intro h
    exact (hloaded.mp (h.of_agree fun f hf => (hstored f hf).symm)).of_agree hstored
  · intro h
    exact (hloaded.mpr (h.of_agree fun f hf => (hstored f hf).symm)).of_agree hstored

/-- A section of 12 bytes at the start of the file, with two relocations against a symbol at its end. -/
def codeEntry : SectionInfo where
  base := 0
  size := 12
  fileptr := 0
  filesize := 12
  numReloc := 2
  reloc := 0x2000
  relocs := [⟨0, 0, relTypeElfAbsolute⟩, ⟨4, 0, relTypeRelative⟩]
  peReloc := ⟨0, 0, 0⟩

/-- The object of such a section and the given bytes, loaded to 0x1000. -/
def codeLoad (contents : List Byte) : Load Disk :=
  (bssLoad [codeEntry] 0 [⟨0, 8, 0⟩]).setWorld { contents, pos := 0, blocks := fun _ => 0x1000, regions := fun _ => 0, turn := 0 }

def callBytes : List Byte := [5, 0, 0, 0, 0xFC, 0xFF, 0xFF, 0xFF, 0, 0, 0, 0]

/-- What is loaded of such an object, and what the relocations make of it. -/
def codeLoaded (contents : List Byte) : Load Disk :=
  ((commonLoadRelocatable (diskFuncs 0 []) 1).run (codeLoad contents)).2

def codeRelocated (contents : List Byte) : Load Disk :=
  ((relocateSections (elfFuncs (diskFuncs 0 []) noJunk .other) 0x1000 1 1 0).run (codeLoaded contents)).2

theorem codeEntry_supported : ∀ x ∈ [codeEntry], Supported x := by
  intro x hx
  rw [List.mem_singleton.mp hx]
  exact ⟨by decide, by decide⟩

theorem relocateSections_addends_iff_callBytes :
    Relocated 0x1000 (codeLoaded callBytes).sections (codeLoaded callBytes).symbols (codeLoaded callBytes).ram
      (codeRelocated callBytes).ram (storedWord 0 callBytes) := by
  have hiff := @relocateSections_addends_iff 0 [] _ (codeLoad callBytes) (codeLoaded callBytes) (codeRelocated callBytes)
    noJunk .other 0x1000 1 rfl (by decide) rfl codeEntry_supported rfl (Prod.ext (by decide +kernel) rfl) (by decide) (Prod.ext (by decide +kernel) rfl)
  have hfix : ∀ f ∈ fixups (codeLoaded callBytes).sections, f.2.offset.toNat + 4 ≤ f.1.filesize.toNat ∧
      (f.2.type = relTypeRelative → storedWord 0 callBytes f = -4) := by
    decide +kernel
  refine (hiff.2 (by decide) ?_ fun f hf => (hfix f hf).1).mpr ?_
  · intro x hx
    rw [List.mem_singleton.mp hx]
    exact ⟨by decide, by decide⟩
  · rintro f ⟨pre, post, hsplit, -⟩
    exact (hfix f (hsplit ▸ List.mem_append_right pre List.mem_cons_self)).2

def zeroBytes : List Byte := List.replicate 12 0

/-- A word relative to its own place, with the addend 0: it is 4 less than S + A - P. -/
theorem zeroBytes_not_relocated :
    (relocateSections (elfFuncs (diskFuncs 0 []) noJunk .other) 0x1000 1 1 0).run (codeLoaded zeroBytes) =
        (.ok true, codeRelocated zeroBytes) ∧
      ¬Relocated 0x1000 (codeLoaded zeroBytes).sections (codeLoaded zeroBytes).symbols (codeLoaded zeroBytes).ram
        (codeRelocated zeroBytes).ram (storedWord 0 zeroBytes) := by
  refine ⟨Prod.ext (by decide +kernel) rfl, fun h => ?_⟩
  have hfix : fixups (codeLoaded zeroBytes).sections =
      [(codeEntry, ⟨0, 0, relTypeElfAbsolute⟩), (codeEntry, ⟨4, 0, relTypeRelative⟩)] := by
    decide +kernel
  have h4 : placeOf 0x1000 (codeEntry, ⟨4, 0, relTypeRelative⟩) = 0x1004 := by decide
  have h0 : placeOf 0x1000 (codeEntry, ⟨0, 0, relTypeElfAbsolute⟩) = 0x1000 := by decide
  have hsingle : Single 0x1000 (codeLoaded zeroBytes).sections (codeEntry, ⟨4, 0, relTypeRelative⟩) := by
    refine ⟨[(codeEntry, ⟨0, 0, relTypeElfAbsolute⟩)], [], hfix, fun g hg p hp => ?_⟩
    rw [List.append_nil, List.mem_singleton] at hg
    rw [h4] at hp
    rw [hg, h0]
    unfold Memory.Within at *
    bv_omega
  exact absurd (h.words _ hsingle) (by decide +kernel)

end FreeDos32.Dynalink
