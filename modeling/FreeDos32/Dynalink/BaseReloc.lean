import FreeDos32.Dynalink.Pei
import Mathlib.Logic.Relation

namespace FreeDos32.Dynalink

open Prog Memory

variable {ω : Type}

/-- A block of base relocations as it is in the file: its size, its page and its entries. -/
structure RelocBlock where
  page : Dword
  size : Dword
  entries : List Word
  room : 8 ≤ size.toNat
  count : entries.length = (size.toNat - 8) / 2
  types : ∀ e ∈ entries, relocType e = imageRelBasedAbsolute ∨ relocType e = imageRelBasedHighlow

def dirSize (bs : List RelocBlock) : ℕ := (bs.map fun b => b.size.toNat).sum

/-- The memory holds the blocks from `p` on. -/
def Made (m : Memory) : Dword → List RelocBlock → Prop
  | _, [] => True
  | p, b :: bs => m.word p = b.page ∧ m.word (p + 4) = b.size ∧
      (∀ i (h : i < b.entries.length), typeOffset m p i = b.entries[i]) ∧ Made m (p + b.size) bs

/-- The directory that `r` tells of consists of the blocks, which are for distinct pages. -/
structure IsDirectory (m : Memory) (r : PeRelocInfo) (bs : List RelocBlock) : Prop where
  made : Made m r.addr bs
  size : dirSize bs = r.size.toNat
  pages : (bs.map RelocBlock.page).Nodup

/-- Those of the entries that are of type `HIGHLOW`, each with its block. -/
def highlowsOf (b : RelocBlock) (l : List Word) : List (RelocBlock × Word) :=
  (l.filter fun e => relocType e = imageRelBasedHighlow).map fun e => (b, e)

def highlows (bs : List RelocBlock) : List (RelocBlock × Word) := bs.flatMap fun b => highlowsOf b b.entries

section Places

variable (imageBase : Dword)

/-- The word that an entry is for. -/
def wordOf (f : RelocBlock × Word) : Dword := imageBase + f.1.page + relocOffsetOf f.2

/-- The entries that the code does not skip. -/
def seen (l : List (RelocBlock × Word)) : List (RelocBlock × Word) := l.filter fun f => relocOffsetOf f.2 ≠ 0

def rebase (delta : Dword) (f : RelocBlock × Word) : Dword × (Dword → Dword) := (wordOf imageBase f, (· + delta))

/-- No byte of the directory belongs to a word that the code relocates. -/
def Untouched (r : PeRelocInfo) (bs : List RelocBlock) : Prop :=
  ∀ f ∈ seen (highlows bs), ∀ p, Within (wordOf imageBase f) 4 p → ¬Within r.addr r.size.toNat p

end Places

theorem relocNumber_toNat {size : Dword} (h : 8 ≤ size.toNat) :
    ((size - imageSizeofBaseRelocation) >>> 1).toNat = (size.toNat - 8) / 2 := by
  rw [BitVec.toNat_ushiftRight, Nat.shiftRight_eq_div_pow]
  have hsub : (size - imageSizeofBaseRelocation).toNat = size.toNat - 8 := by
    unfold imageSizeofBaseRelocation
    bv_omega
  rw [hsub]

theorem typeOffset_congr {m m' : Memory} {p : Dword} {i n : ℕ} (hi : 8 + 2 * i + 2 ≤ n) (hn : n < 2 ^ 32)
    (h : ∀ q, Within p n q → m' q = m q) : typeOffset m' p i = typeOffset m p i := by
  unfold typeOffset imageSizeofBaseRelocation
  have h0 : Within p n (p + 8 + BitVec.ofNat 32 (2 * i)) := by
    unfold Within
    bv_omega
  have h1 : Within p n (p + 8 + BitVec.ofNat 32 (2 * i) + 1) := by
    unfold Within
    bv_omega
  show m' _ ++ m' _ = m _ ++ m _
  rw [h _ h0, h _ h1]

theorem word_congr_within {m m' : Memory} {p q : Dword} {n : ℕ} (hq : (q - p).toNat + 4 ≤ n)
    (h : ∀ q, Within p n q → m' q = m q) : m'.word q = m.word q := by
  refine word_congr fun a ha => h a ?_
  unfold Within at *
  bv_omega

theorem Made.congr {m m' : Memory} {p : Dword} {bs : List RelocBlock} (hm : Made m p bs) (hsize : dirSize bs < 2 ^ 32)
    (h : ∀ q, Within p (dirSize bs) q → m' q = m q) : Made m' p bs := by
  induction bs generalizing p with
  | nil => trivial
  | cons b bs ih =>
    obtain ⟨hpage, hblock, hentries, hrest⟩ := hm
    have hsum : dirSize (b :: bs) = b.size.toNat + dirSize bs := List.sum_cons
    rw [hsum] at hsize h
    have hroom := b.room
    have hcount := b.count
    refine ⟨?_, ?_, fun i hi => ?_, ih hrest (by omega) fun q hq => h q ?_⟩
    · rw [word_congr_within (by bv_omega) h, hpage]
    · rw [word_congr_within (by bv_omega) h, hblock]
    · rw [typeOffset_congr (by omega) hsize h, hentries i hi]
    · unfold Within at *
      bv_omega

section Block

variable {imageBase delta : Dword} {b : RelocBlock}

theorem patches_append (l l' : List Word) :
    (seen (highlowsOf b (l ++ l'))).map (rebase imageBase delta) =
      (seen (highlowsOf b l)).map (rebase imageBase delta) ++ (seen (highlowsOf b l')).map (rebase imageBase delta) := by
  unfold seen highlowsOf
  rw [List.filter_append, List.map_append, List.filter_append, List.map_append]

theorem seen_take {k : ℕ} {f : RelocBlock × Word} (hf : f ∈ seen (highlowsOf b (b.entries.take k))) :
    f ∈ seen (highlowsOf b b.entries) := by
  have hsub : (b.entries.take k).Sublist b.entries := List.take_sublist k b.entries
  exact (((hsub.filter _).map _).filter _).subset hf

theorem ends_addToWord {s : Load ω} {p v : Dword} {Q : Unit → Load ω → Prop} {E : Exit Dword Fault → Load ω → Prop} :
    (addToWord p v).Ends s Q E ↔ Q () (s.setRam (s.ram.putWord p (s.ram.word p + v))) := Iff.rfl

theorem peiRelocate_ends {s : Load ω} {block : Dword} {i : ℕ} {e : Word} (he : typeOffset s.ram block i = e)
    (htype : relocType e = imageRelBasedAbsolute ∨ relocType e = imageRelBasedHighlow) :
    (peiRelocate delta (imageBase + b.page) block i).Ends s
      (fun _ t => t = s.setRam (s.ram.patchAll ((seen (highlowsOf b [e])).map (rebase imageBase delta))))
      fun _ _ => False := by
  unfold peiRelocate
  rw [ends_bind, ends_reads, he, ends_when]
  rcases htype with h | h
  · have hnone : seen (highlowsOf b [e]) = [] := by
      unfold seen highlowsOf
      rw [List.filter_cons_of_neg (by rw [h]; decide)]
      rfl
    rw [hnone, if_pos h, ends_pure]
    exact ⟨fun _ => rfl, fun _ => rfl⟩
  · have hsome : highlowsOf b [e] = [(b, e)] := by
      unfold highlowsOf
      rw [List.filter_cons_of_pos (by rw [h]; decide)]
      rfl
    rw [hsome, h, if_neg (by decide), if_neg (by decide), if_neg (by decide), if_pos rfl]
    refine ⟨fun h0 => ?_, fun h0 => ?_⟩
    · have hseen : seen [(b, e)] = [(b, e)] := List.filter_cons_of_pos (by simpa using h0)
      rw [hseen, ends_addToWord]
      exact congrArg s.setRam rfl
    · have hseen : seen [(b, e)] = [] := List.filter_cons_of_neg (by simpa using not_not.mp h0)
      rw [hseen]
      rfl

theorem peiRelocate_loop {s : Load ω} {block : Dword}
    (hentries : ∀ i (h : i < b.entries.length), typeOffset s.ram block i = b.entries[i])
    (hstay : ∀ f ∈ seen (highlowsOf b b.entries), ∀ p, Within (wordOf imageBase f) 4 p → ¬Within block b.size.toNat p) :
    (Prog.loop (fun i _ => peiRelocate delta (imageBase + b.page) block i) b.entries.length 0 ()).Ends s
      (fun _ t => t = s.setRam (s.ram.patchAll ((seen (highlowsOf b b.entries)).map (rebase imageBase delta))))
      fun _ _ => False := by
  have hround : ∀ k (_ : Unit) (t : Load ω), k < b.entries.length →
      t = s.setRam (s.ram.patchAll ((seen (highlowsOf b (b.entries.take k))).map (rebase imageBase delta))) →
      (peiRelocate delta (imageBase + b.page) block k).Ends t
        (fun _ u => u = s.setRam (s.ram.patchAll ((seen (highlowsOf b (b.entries.take (k + 1)))).map
          (rebase imageBase delta)))) fun _ _ => False := by
    intro k _ t hk ht
    have hcount := b.count
    have hroom := b.room
    have hram : t.ram = s.ram.patchAll ((seen (highlowsOf b (b.entries.take k))).map (rebase imageBase delta)) :=
      congrArg Load.ram ht
    have hat : typeOffset t.ram block k = b.entries[k] := by
      rw [typeOffset_congr (m := s.ram) (n := b.size.toNat) (by omega) b.size.isLt, hentries k hk]
      intro q hq
      rw [hram]
      refine patchAll_of_not_within fun e he hw => ?_
      obtain ⟨f, hf, rfl⟩ := List.mem_map.mp he
      exact hstay f (seen_take hf) q hw hq
    refine (peiRelocate_ends hat (b.types _ (List.getElem_mem hk))).mono (fun _ u hu => ?_) fun _ _ he => he
    rw [hu, hram, ht, Load.setRam_setRam, List.take_succ_eq_append_getElem hk, patches_append,
      Memory.patchAll_append]
  have hstart : s = s.setRam (s.ram.patchAll ((seen (highlowsOf b (b.entries.take 0))).map (rebase imageBase delta))) := by
    rw [List.take_zero]
    rfl
  have hloop := Ends.loop_zero (b := ()) hstart hround
  rwa [List.take_length] at hloop

end Block

section Blocks

variable {imageBase : Dword} {r : PeRelocInfo}

theorem seen_highlows_cons (b : RelocBlock) (bs : List RelocBlock) :
    seen (highlows (b :: bs)) = seen (highlowsOf b b.entries) ++ seen (highlows bs) := by
  unfold seen highlows
  rw [List.flatMap_cons, List.filter_append]

theorem peiRelocateBlocks_ends {s : Load ω} {bs : List RelocBlock} {baseRelocAt : Dword} {first : Option Dword} (k : ℕ)
    (hmade : Made s.ram (r.addr + baseRelocAt) bs) (hsize : baseRelocAt.toNat + dirSize bs = r.size.toNat)
    (hfirst : ∀ start, first = some start → ∀ b ∈ bs, start ≠ imageBase + b.page)
    (hpages : (bs.map RelocBlock.page).Nodup)
    (hstay : Untouched imageBase r bs) :
    (peiRelocateBlocks imageBase r (bs.length + 1 + k) baseRelocAt first).Ends s
      (fun _ t => t = s.setRam (s.ram.patchAll ((seen (highlows bs)).map (rebase imageBase r.offset))))
      fun _ _ => False := by
  have hlt := r.size.isLt
  induction bs generalizing s baseRelocAt first with
  | nil =>
    have hend : dirSize [] = 0 := rfl
    rw [List.length_nil, show 0 + 1 + k = k + 1 by omega, peiRelocateBlocks, if_pos (by bv_omega), ends_pure]
    rfl
  | cons b bs ih =>
    obtain ⟨hpage, hblock, hentries, hrest⟩ := hmade
    have hsum : dirSize (b :: bs) = b.size.toNat + dirSize bs := List.sum_cons
    rw [hsum] at hsize
    have hroom := b.room
    have hcount := b.count
    rw [List.map_cons, List.nodup_cons] at hpages
    rw [Untouched, seen_highlows_cons] at hstay
    rw [seen_highlows_cons]
    have hnew : first ≠ some (imageBase + b.page) := fun h => hfirst _ h b List.mem_cons_self rfl
    rw [List.length_cons, show bs.length + 1 + 1 + k = bs.length + 1 + k + 1 by omega, peiRelocateBlocks,
      if_neg (by bv_omega), ends_bind, ends_state, hpage, hblock, if_neg hnew, ends_bind,
      relocNumber_toNat hroom, ← hcount]
    refine (peiRelocate_loop hentries fun f hf p hp hw => ?_).mono (fun _ t ht => ?_) fun _ _ he => he
    · refine hstay f (List.mem_append_left _ hf) p hp ?_
      unfold Within at *
      bv_omega
    have hram : t.ram = s.ram.patchAll ((seen (highlowsOf b b.entries)).map (rebase imageBase r.offset)) :=
      congrArg Load.ram ht
    have hsame : ∀ q, Within r.addr r.size.toNat q → t.ram q = s.ram q := by
      intro q hq
      rw [hram]
      refine patchAll_of_not_within fun e he hw => ?_
      obtain ⟨f, hf, rfl⟩ := List.mem_map.mp he
      exact hstay f (List.mem_append_left _ hf) q hw hq
    rw [ends_bind, ends_reads]
    have hword : t.ram.word (r.addr + baseRelocAt + 4) = b.size := by
      rw [word_congr_within (m := s.ram) (p := r.addr) (n := r.size.toNat) (by bv_omega) hsame, hblock]
    rw [hword]
    have hgo : (peiRelocateBlocks imageBase r (bs.length + 1 + k) (baseRelocAt + b.size)
        (some (first.getD (imageBase + b.page)))).Ends t _ _ := ih ?_ (by bv_omega) ?_ hpages.2 fun f hf => hstay f (List.mem_append_right _ hf)
    · refine hgo.mono (fun _ u hu => ?_) fun _ _ he => he
      rw [hu, hram, ht, Load.setRam_setRam, List.map_append, Memory.patchAll_append]
    · rw [← BitVec.add_assoc]
      refine hrest.congr (by omega) fun q hq => hsame q ?_
      unfold Within at *
      bv_omega
    · intro start hstart c hc
      cases first with
      | some old =>
        cases hstart
        exact hfirst old rfl c (List.mem_cons_of_mem b hc)
      | none =>
        cases hstart
        intro heq
        exact hpages.1 ((BitVec.add_right_inj imageBase).mp heq ▸ List.mem_map_of_mem hc)

/-- An entry whose word no other one of the entries touches. -/
def Lone (imageBase : Dword) (l : List (RelocBlock × Word)) (f : RelocBlock × Word) : Prop :=
  ∃ pre post, l = pre ++ f :: post ∧ ∀ g ∈ pre ++ post, Apart (wordOf imageBase f) (wordOf imageBase g)

/-- The words of the entries have gone up by `delta`, and nothing else has changed. -/
structure Rebased (imageBase delta : Dword) (l : List (RelocBlock × Word)) (m m' : Memory) : Prop where
  words : ∀ f, Lone imageBase l f → m'.word (wordOf imageBase f) = m.word (wordOf imageBase f) + delta
  others : ∀ p, (∀ f ∈ l, ¬Within (wordOf imageBase f) 4 p) → m' p = m p

theorem rebased_iff {delta : Dword} {l : List (RelocBlock × Word)} {m m' : Memory} (hdelta : delta ≠ 0)
    (hm : m' = m.patchAll ((seen l).map (rebase imageBase delta))) :
    Rebased imageBase delta l m m' ↔ ∀ f, Lone imageBase l f → relocOffsetOf f.2 ≠ 0 := by
  have hsub : ∀ f ∈ seen l, f ∈ l := fun f hf => (List.mem_filter.mp hf).1
  constructor
  · rintro h f ⟨pre, post, hsplit, hapart⟩ h0
    have hkeep : m'.word (wordOf imageBase f) = m.word (wordOf imageBase f) := by
      rw [hm]
      refine word_patchAll_of_apart fun e he => ?_
      obtain ⟨g, hg, rfl⟩ := List.mem_map.mp he
      have hne : g ≠ f := fun hgf => (of_decide_eq_true (List.mem_filter.mp hg).2) (hgf ▸ h0)
      have hmem := hsub g hg
      rw [hsplit, List.mem_append, List.mem_cons] at hmem
      exact hapart g (List.mem_append.mpr (hmem.imp_right fun h => h.resolve_left hne))
    have hword := h.words f ⟨pre, post, hsplit, hapart⟩
    rw [hkeep] at hword
    exact hdelta (by simpa using hword.symm)
  · refine fun h => ⟨?_, fun p hp => ?_⟩
    · rintro f ⟨pre, post, hsplit, hapart⟩
      have hseen : seen l = seen pre ++ f :: seen post := by
        unfold seen
        rw [hsplit, List.filter_append, List.filter_cons_of_pos (by simpa using h f ⟨pre, post, hsplit, hapart⟩)]
      rw [hm, hseen, List.map_append, List.map_cons]
      refine word_patchAll (e := rebase imageBase delta f) fun e he => ?_
      rw [← List.map_append] at he
      obtain ⟨g, hg, rfl⟩ := List.mem_map.mp he
      refine hapart g ?_
      rw [List.mem_append] at hg ⊢
      exact hg.imp (fun h => (List.mem_filter.mp h).1) fun h => (List.mem_filter.mp h).1
    · rw [hm]
      refine patchAll_of_not_within fun e he => ?_
      obtain ⟨g, hg, rfl⟩ := List.mem_map.mp he
      exact hp g (hsub g hg)

theorem peiRelocateSection_ends {s : Load ω} {x : SectionInfo} {bs : List RelocBlock} (hx : s.sections[0]? = some x)
    (hreloc : x.reloc ≠ 0) (hdir : IsDirectory s.ram x.peReloc bs)
    (hstay : Untouched imageBase x.peReloc bs) {fuel : ℕ} (hfuel : bs.length < fuel) :
    (peiRelocateSection imageBase fuel).Ends s (fun res t => res = 1 ∧
      t = s.setRam (s.ram.patchAll ((seen (highlows bs)).map (rebase imageBase x.peReloc.offset)))) fun _ _ => False := by
  obtain ⟨k, rfl⟩ : ∃ k, fuel = bs.length + 1 + k := ⟨fuel - bs.length - 1, by omega⟩
  unfold peiRelocateSection
  rw [ends_function, ends_bind, ends_getSection hx, ends_bind, ends_when]
  refine ⟨fun h0 => absurd h0 hreloc, fun _ => ?_⟩
  rw [ends_bind]
  refine Ends.mono (peiRelocateBlocks_ends k ?_ ?_ (fun _ h => nomatch h) hdir.pages hstay) (fun _ t ht => ⟨rfl, ht⟩) fun _ _ he => he.elim
  · rw [show x.peReloc.addr + 0 = x.peReloc.addr from BitVec.add_zero _]
    exact hdir.made
  · rw [hdir.size]
    exact Nat.zero_add _

end Blocks

section Walk

variable (imageBase : Dword) (r : PeRelocInfo)

/-- Where the loop over the blocks is. -/
structure WalkState (ω : Type) where
  baseRelocAt : Dword
  first : Option Dword
  load : Load ω

namespace WalkState

variable (z : WalkState ω)

def block : Dword := r.addr + z.baseRelocAt

def start : Dword := imageBase + z.load.ram.word (z.block r)

def number : ℕ := ((z.load.ram.word (z.block r + 4) - imageSizeofBaseRelocation) >>> 1).toNat

/-- The first `n` entries of the block. -/
def entries (n : ℕ) : Body ω Unit :=
  .loop (fun i _ => peiRelocate r.offset (z.start imageBase r) (z.block r) i) n 0 ()

end WalkState

def Unsupported (e : Word) : Prop := relocOffsetOf e ≠ 0 ∧ relocType e ≠ imageRelBasedAbsolute ∧
  relocType e ≠ imageRelBasedHigh ∧ relocType e ≠ imageRelBasedLow ∧ relocType e ≠ imageRelBasedHighlow

/-- From one block to the next. -/
structure NextBlock (z z' : WalkState ω) : Prop where
  inside : z.baseRelocAt < r.size
  other : z.first ≠ some (z.start imageBase r)
  done : (z.entries imageBase r (z.number r)).run z.load = (.ok (), z'.load)
  at_eq : z'.baseRelocAt = z.baseRelocAt + z'.load.ram.word (z.block r + 4)
  first_eq : z'.first = some (z.first.getD (z.start imageBase r))

/-- The walk ends at `z`: behind the directory, at a block for the page of the first one, or at an entry of a type that is
not supported. -/
def Stops (z : WalkState ω) : Prop :=
  r.size ≤ z.baseRelocAt ∨ z.first = some (z.start imageBase r) ∨
    ∃ i < z.number r, ∃ u, (z.entries imageBase r i).run z.load = (.ok (), u) ∧
      Unsupported (typeOffset u.ram (z.block r) i)

variable {imageBase r}

theorem peiRelocate_error_iff {delta start block : Dword} {i : ℕ} {s : Load ω} :
    (∃ e u, (peiRelocate delta start block i).run s = (.error e, u)) ↔ Unsupported (typeOffset s.ram block i) := by
  unfold peiRelocate Unsupported
  rw [run_bind_reads]
  generalize typeOffset s.ram block i = e
  by_cases h0 : relocOffsetOf e = 0
  · rw [when_neg (not_not.mpr h0)]
    exact ⟨fun ⟨_, _, h⟩ => (nomatch h), fun h => absurd h0 h.1⟩
  rw [when_pos h0]
  by_cases ha : relocType e = imageRelBasedAbsolute
  · rw [if_pos ha]
    exact ⟨fun ⟨_, _, h⟩ => (nomatch h), fun h => absurd ha h.2.1⟩
  rw [if_neg ha]
  by_cases hh : relocType e = imageRelBasedHigh
  · rw [if_pos hh]
    exact ⟨fun ⟨_, _, h⟩ => (nomatch h), fun h => absurd hh h.2.2.1⟩
  rw [if_neg hh]
  by_cases hl : relocType e = imageRelBasedLow
  · rw [if_pos hl]
    exact ⟨fun ⟨_, _, h⟩ => (nomatch h), fun h => absurd hl h.2.2.2.1⟩
  rw [if_neg hl]
  by_cases hb : relocType e = imageRelBasedHighlow
  · rw [if_pos hb]
    exact ⟨fun ⟨_, _, h⟩ => (nomatch h), fun h => absurd hb h.2.2.2.2⟩
  · rw [if_neg hb]
    exact ⟨fun _ => ⟨h0, ha, hh, hl, hb⟩, fun _ => ⟨_, _, rfl⟩⟩

theorem entries_ends (z : WalkState ω) (n : ℕ) :
    (z.entries imageBase r n).Ends z.load (fun _ _ => True) fun _ _ => True := by
  unfold WalkState.entries
  refine Ends.loop (I := fun _ _ _ => True) (fun k _ s _ _ _ => ?_) trivial
  unfold peiRelocate
  rw [ends_bind, ends_reads, ends_when]
  refine ⟨fun _ => ?_, fun _ => trivial⟩
  simp only [ends_ite, ends_pure, ends_addToWord, ends_ret, implies_true, and_self]

theorem entries_error_iff {z : WalkState ω} {n : ℕ} :
    (∃ e u, (z.entries imageBase r n).run z.load = (.error e, u)) ↔
      ∃ i < n, ∃ u, (z.entries imageBase r i).run z.load = (.ok (), u) ∧ Unsupported (typeOffset u.ram (z.block r) i) := by
  unfold WalkState.entries
  rw [run_loop_error_iff]
  refine exists_congr fun i => and_congr_right fun _ => ?_
  rw [Nat.zero_add]
  constructor
  · rintro ⟨_, u, hu, herr⟩
    exact ⟨u, hu, peiRelocate_error_iff.mp herr⟩
  · rintro ⟨u, hu, hbad⟩
    exact ⟨(), u, hu, peiRelocate_error_iff.mpr hbad⟩

theorem peiRelocateBlocks_succ {z : WalkState ω} {fuel : ℕ} (h : ¬r.size ≤ z.baseRelocAt)
    (hother : z.first ≠ some (z.start imageBase r)) {Q : Unit → Load ω → Prop} {E : Exit Dword Fault → Load ω → Prop} :
    (peiRelocateBlocks imageBase r (fuel + 1) z.baseRelocAt z.first).Ends z.load Q E ↔
      (z.entries imageBase r (z.number r)).Ends z.load (fun _ u =>
        (peiRelocateBlocks imageBase r fuel (z.baseRelocAt + u.ram.word (z.block r + 4))
          (some (z.first.getD (z.start imageBase r)))).Ends u Q E) E := by
  have hne : z.first ≠ some (imageBase + z.load.ram.word (r.addr + z.baseRelocAt)) := hother
  rw [peiRelocateBlocks, if_neg h, ends_bind, ends_state, if_neg hne, ends_bind]
  rfl

theorem peiRelocateBlocks_stop {z : WalkState ω} {fuel : ℕ}
    (h : r.size ≤ z.baseRelocAt ∨ z.first = some (z.start imageBase r)) :
    (peiRelocateBlocks imageBase r (fuel + 1) z.baseRelocAt z.first).Ends z.load (fun _ _ => True) fun _ _ => True := by
  rw [peiRelocateBlocks]
  by_cases hend : r.size ≤ z.baseRelocAt
  · rw [if_pos hend]
    trivial
  · have heq : z.first = some (imageBase + z.load.ram.word (r.addr + z.baseRelocAt)) := h.resolve_left hend
    rw [if_neg hend, ends_bind, ends_state, if_pos heq]
    trivial

theorem peiRelocateBlocks_ends_iff {z : WalkState ω} :
    (∃ fuel, (peiRelocateBlocks imageBase r fuel z.baseRelocAt z.first).Ends z.load (fun _ _ => True) fun _ _ => True) ↔
      ∃ z', Relation.ReflTransGen (NextBlock imageBase r) z z' ∧ Stops imageBase r z' := by
  constructor
  · rintro ⟨fuel, h⟩
    induction fuel generalizing z with
    | zero => exact False.elim h
    | succ fuel ih =>
      by_cases hend : r.size ≤ z.baseRelocAt
      · exact ⟨z, .refl, Or.inl hend⟩
      by_cases hfirst : z.first = some (z.start imageBase r)
      · exact ⟨z, .refl, Or.inr (Or.inl hfirst)⟩
      rw [peiRelocateBlocks_succ hend hfirst] at h
      have hends : (z.entries imageBase r (z.number r)).Ends z.load _ _ := entries_ends z (z.number r)
      unfold Ends at h hends
      rcases hx : (z.entries imageBase r (z.number r)).run z.load with ⟨_ | e | _, u⟩ <;> rw [hx] at h hends
      · obtain ⟨z', hpath, hstop⟩ := ih (z := ⟨_, _, u⟩) h
        exact ⟨z', .head ⟨BitVec.not_le.mp hend, hfirst, hx, rfl, rfl⟩ hpath, hstop⟩
      · exact ⟨z, .refl, Or.inr (Or.inr (entries_error_iff.mp ⟨e, u, hx⟩))⟩
      · exact False.elim hends
  · rintro ⟨z', hpath, hstop⟩
    induction hpath using Relation.ReflTransGen.head_induction_on with
    | refl =>
      refine ⟨1, ?_⟩
      by_cases hend : r.size ≤ z'.baseRelocAt ∨ z'.first = some (z'.start imageBase r)
      · exact peiRelocateBlocks_stop hend
      · have hbad := (or_assoc.mpr hstop).resolve_left hend
        obtain ⟨e, u, hx⟩ := entries_error_iff.mpr hbad
        rw [not_or] at hend
        rw [peiRelocateBlocks_succ hend.1 hend.2]
        unfold Ends
        rw [hx]
        trivial
    | head hstep _ ih =>
      rename_i a c
      obtain ⟨fuel, hfuel⟩ := ih
      refine ⟨fuel + 1, ?_⟩
      rw [peiRelocateBlocks_succ (BitVec.not_le.mpr hstep.inside) hstep.other, ends_iff_of_run hstep.done, ← hstep.at_eq,
        ← hstep.first_eq]
      exact hfuel

theorem peiRelocateSection_terminates_iff {s : Load ω} {x : SectionInfo} (hx : s.sections[0]? = some x)
    (hreloc : x.reloc ≠ 0) :
    (∃ fuel, (peiRelocateSection imageBase fuel).Ends s (fun _ _ => True) fun _ _ => True) ↔
      ∃ z, Relation.ReflTransGen (NextBlock imageBase x.peReloc) ⟨0, none, s⟩ z ∧ Stops imageBase x.peReloc z := by
  rw [← peiRelocateBlocks_ends_iff]
  refine exists_congr fun fuel => ?_
  unfold peiRelocateSection
  rw [ends_function, ends_bind, ends_getSection hx, ends_bind, ends_when, and_iff_right fun h0 => absurd h0 hreloc,
    imp_iff_right hreloc, ends_bind]
  constructor
  · intro h
    exact h.mono (fun _ _ _ => trivial) fun _ _ _ => trivial
  · intro h
    refine h.mono (fun _ _ _ => trivial) ?_
    rintro (_ | _) _ _
    · trivial
    · trivial

end Walk

/-- An image at 0x400000 with the given bytes at 0x402000, where a directory of the given size is. -/
def imageLoad (bytes : List Byte) (size : Dword) : Load Unit where
  world := ()
  ram := put (fun _ => 0) 0x402000 bytes
  tables := ⟨0, 1, 0, needImageRelocation, 0, 0, 0, 0, 0, 0, 0, 0, 0x400000, 0, 0, 0⟩
  sections := [⟨0, 0, 0, 0, 1, 0x3000, [], ⟨0x10, 0x402000, size⟩⟩]
  symbols := []
  image := ⟨0x400000, 0x3000⟩
  obtained := []
  released := []
  strays := []

/-- The block for page 0x1000 with the entry and padding. -/
def oneBlock (e : Word) (h : relocType e = imageRelBasedAbsolute ∨ relocType e = imageRelBasedHighlow) : RelocBlock where
  page := 0x1000
  size := 12
  entries := [e, 0]
  room := by decide
  count := rfl
  types := by
    intro f hf
    rw [List.mem_cons, List.mem_singleton] at hf
    rcases hf with rfl | rfl
    · exact h
    · exact Or.inl (by decide)

def oneBlockBytes (low high : Byte) : List Byte := bytesOf 0x1000 ++ bytesOf 12 ++ [low, high, 0, 0]

theorem peiRelocate_idle {delta start block : Dword} {i : ℕ} {s : Load ω}
    (h : relocOffsetOf (typeOffset s.ram block i) = 0 ∨ relocType (typeOffset s.ram block i) = imageRelBasedAbsolute) :
    (peiRelocate delta start block i).run s = (.ok (), s) := by
  unfold peiRelocate
  rw [run_bind_reads]
  by_cases h0 : relocOffsetOf (typeOffset s.ram block i) = 0
  · rw [when_neg (not_not.mpr h0)]
    rfl
  · rw [when_pos h0, if_pos (h.resolve_left h0)]
    rfl

theorem peiRelocate_loop_idle {delta start block : Dword} {s : Load ω} (h : ∀ i, relocOffsetOf (typeOffset s.ram block i) = 0 ∨
    relocType (typeOffset s.ram block i) = imageRelBasedAbsolute) (n : ℕ) :
    (Prog.loop (fun i _ => peiRelocate delta start block i) n 0 ()).run s = (.ok (), s) :=
  run_loop_ok (b := fun _ => ()) (s := fun _ => s) fun _ _ => peiRelocate_idle (h _)

theorem peiRelocateBlocks_idle {imageBase : Dword} {r : PeRelocInfo} {baseRelocAt : Dword} {first : Option Dword}
    {s : Load ω} {fuel : ℕ} (hend : ¬r.size ≤ baseRelocAt)
    (hother : first ≠ some (imageBase + s.ram.word (r.addr + baseRelocAt)))
    (hidle : ∀ i, relocOffsetOf (typeOffset s.ram (r.addr + baseRelocAt) i) = 0 ∨
      relocType (typeOffset s.ram (r.addr + baseRelocAt) i) = imageRelBasedAbsolute) :
    (peiRelocateBlocks imageBase r (fuel + 1) baseRelocAt first).run s =
      (peiRelocateBlocks imageBase r fuel (baseRelocAt + s.ram.word (r.addr + baseRelocAt + 4))
        (some (first.getD (imageBase + s.ram.word (r.addr + baseRelocAt))))).run s := by
  rw [peiRelocateBlocks, if_neg hend, run_bind_state, if_neg hother, run_bind_ok (peiRelocate_loop_idle hidle _),
    run_bind_reads]

/-- A block without entries for page 0x1000, and one of size 0 for page 0x2000. -/
def endlessBytes : List Byte := [0, 0x10, 0, 0, 8, 0, 0, 0, 0, 0x20, 0, 0]

/-- All of the memory taken for entries, there is nothing to do. -/
theorem endless_idle (block : Dword) (i : ℕ) :
    relocOffsetOf (typeOffset (imageLoad endlessBytes 16).ram block i) = 0 ∨
      relocType (typeOffset (imageLoad endlessBytes 16).ram block i) = imageRelBasedAbsolute := by
  have hpair : ∀ k < 12, relocOffsetOf (endlessBytes.getD (k + 1) 0 ++ endlessBytes.getD k 0) = 0 ∨
      relocType (endlessBytes.getD (k + 1) 0 ++ endlessBytes.getD k 0) = imageRelBasedAbsolute := by decide
  generalize hp : block + imageSizeofBaseRelocation + BitVec.ofNat 32 (2 * i) = p
  have he : typeOffset (imageLoad endlessBytes 16).ram block i =
      endlessBytes.getD (p + 1 - 0x402000).toNat 0 ++ endlessBytes.getD (p - 0x402000).toNat 0 := by
    rw [← hp]
    rfl
  rw [he]
  by_cases hk : (p - 0x402000).toNat < 12
  · rw [show (p + 1 - 0x402000).toNat = (p - 0x402000).toNat + 1 by bv_omega]
    exact hpair _ hk
  · have hlow : endlessBytes.getD (p - 0x402000).toNat 0 = 0 := List.getD_eq_default _ _ (Nat.le_of_not_lt hk)
    have hhigh : endlessBytes.getD (p + 1 - 0x402000).toNat 0 = 0 := by
      by_cases hwrap : (p + 1 - 0x402000).toNat = 0
      · rw [hwrap]
        rfl
      · exact List.getD_eq_default _ _ (by show 12 ≤ _; bv_omega)
    rw [hlow, hhigh]
    exact Or.inl (by decide)

theorem endless_blocks (fuel : ℕ) : ((peiRelocateBlocks 0x400000 ⟨0x10, 0x402000, 16⟩ fuel 8 (some 0x401000)).run
    (imageLoad endlessBytes 16)).1 = .hang := by
  induction fuel with
  | zero => rfl
  | succ fuel ih =>
    have hpage : (imageLoad endlessBytes 16).ram.word (0x402000 + 8) = 0x2000 := by decide
    have hsize : (imageLoad endlessBytes 16).ram.word (0x402000 + 8 + 4) = 0 := by decide
    rw [peiRelocateBlocks_idle (by decide) (by rw [hpage]; decide) (endless_idle _), hsize]
    exact ih

/-- The block of size 0 is gone through again and again. -/
theorem endless_hangs (fuel : ℕ) :
    ((peiRelocateSection 0x400000 fuel).run (imageLoad endlessBytes 16)).1 = .hang := by
  have hblocks : ((peiRelocateBlocks 0x400000 ⟨0x10, 0x402000, 16⟩ fuel 0 none).run (imageLoad endlessBytes 16)).1 =
      .hang := by
    cases fuel with
    | zero => rfl
    | succ fuel =>
      have hpage : (imageLoad endlessBytes 16).ram.word (0x402000 + 0) = 0x1000 := by decide
      have hsize : (imageLoad endlessBytes 16).ram.word (0x402000 + 0 + 4) = 8 := by decide
      rw [@peiRelocateBlocks_idle _ _ _ _ none _ _ (by decide) (Option.some_ne_none _).symm (endless_idle _), hpage, hsize]
      exact endless_blocks fuel
  have hget : (getSection 0).run (imageLoad endlessBytes 16) = (.ok ⟨0, 0, 0, 0, 1, 0x3000, [], ⟨0x10, 0x402000, 16⟩⟩,
      imageLoad endlessBytes 16) := rfl
  have hwhen : (Prog.when ((0x3000 : Dword) = 0) (ret 0) : Body Unit Unit).run (imageLoad endlessBytes 16) =
      (.ok (), imageLoad endlessBytes 16) := by
    rw [when_neg (by decide)]
    rfl
  have hend := run_bind_hang (f := fun _ => (pure 1 : Body Unit Dword)) (Prod.ext hblocks rfl)
  have hbody := (run_bind_ok (f := fun _ => peiRelocateBlocks 0x400000 ⟨0x10, 0x402000, 16⟩ fuel 0 none >>= fun _ =>
    (pure 1 : Body Unit Dword)) hwhen).trans hend
  have hfunc := run_function_hang ((run_bind_ok (f := fun s => Prog.when (s.reloc = 0) (ret 0) >>= fun _ =>
    peiRelocateBlocks 0x400000 s.peReloc fuel 0 none >>= fun _ => (pure 1 : Body Unit Dword)) hget).trans hbody)
  exact congrArg Prod.fst hfunc

end FreeDos32.Dynalink
