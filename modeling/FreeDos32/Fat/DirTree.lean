import FreeDos32.Fat.Closing
import FreeDos32.Fat.Entries
import FreeDos32.Library.PathTree
import FreeDos32.Unicode.Utf8

namespace FreeDos32.Fat

open Unicode

variable {G : Layout} {v w : Volume} {cs l : List ℕ} {s : List UInt8} {a k n p : ℕ} {d e : Direntry}
  {before before' : List Direntry} {x y : Entry}

section Names

/-- Nothing but a dot folds to a dot. -/
theorem simpleFold_dot (h : unicodeSimpleFold k = 0x2E) : k = 0x2E := by
  unfold unicodeSimpleFold at h
  split at h
  · next hk =>
    have hsides : (page00.take 0x2E).all (· != 0x2E) ∧ (page00.drop 0x2F).all (· != 0x2E) := by decide +kernel
    have hother : ∀ j < 256, j ≠ 0 → (pages j).all (fun page => page.all (· != 0x2E)) := by decide +kernel
    have hnone : ∀ (page : List ℕ) (i : ℕ), page.all (· != 0x2E) = true → page.getD i 0 ≠ 0x2E := by
      intro page i hall hd
      rw [List.all_eq_true] at hall
      have hm : 0x2E ∈ page := by
        rw [List.getD_eq_getElem?_getD] at hd
        cases hg : page[i]? with
        | none => simp [hg] at hd
        | some z =>
          rw [hg, Option.getD_some] at hd
          exact hd ▸ List.mem_of_getElem? hg
      simpa using hall 0x2E hm
    have hfirst : ∀ i, page00.getD i 0 = 0x2E → i = 0x2E := by
      intro i hd
      rcases Nat.lt_trichotomy i 0x2E with hlt | rfl | hlt
      · have htake : (page00.take 0x2E).getD i 0 = page00.getD i 0 := by
          rw [List.getD_eq_getElem?_getD, List.getD_eq_getElem?_getD, List.getElem?_take_of_lt hlt]
        exact absurd (htake.trans hd) (hnone _ i hsides.1)
      · rfl
      · have hplace : 0x2F + (i - 0x2F) = i := by omega
        have hdrop : (page00.drop 0x2F).getD (i - 0x2F) 0 = page00.getD i 0 := by
          rw [List.getD_eq_getElem?_getD, List.getD_eq_getElem?_getD, List.getElem?_drop, hplace]
        exact absurd (hdrop.trans hd) (hnone _ _ hsides.2)
    have hpage : ∀ j < 256, ∀ i < 256, ∀ page, pages j = some page → page.getD i 0 = 0x2E → j = 0 ∧ i = 0x2E := by
      intro j hj i hi page hp hd
      by_cases hj0 : j = 0
      · subst hj0
        cases hp
        exact ⟨rfl, hfirst i hd⟩
      · have hall := hother j hj hj0
        rw [hp, Option.all_some] at hall
        exact absurd hd (hnone page i hall)
    have hlow : k &&& 0xFF = k % 256 := Nat.and_two_pow_sub_one_eq_mod k 8
    rw [Nat.shiftRight_eq_div_pow, hlow] at h
    split at h
    · next page hp =>
      have := hpage (k / 2 ^ 8) (by omega) (k % 256) (by omega) page hp h
      omega
    · exact h
  · split at h <;> omega

def foldName (cs : List ℕ) : List ℕ := cs.map unicodeSimpleFold

theorem foldName_dots (h : foldName cs = foldName (List.replicate n 0x2E)) : cs = List.replicate n 0x2E := by
  have hfold : unicodeSimpleFold 0x2E = 0x2E := by decide
  rw [foldName, foldName, List.map_replicate, hfold] at h
  obtain ⟨hlen, hall⟩ := List.eq_replicate_iff.mp h
  rw [List.length_map] at hlen
  exact List.eq_replicate_iff.mpr ⟨hlen, fun b hb => simpleFold_dot (hall _ (List.mem_map_of_mem hb))⟩

theorem Utf8.inj {cs' : List ℕ} (h : Utf8 cs s) (h' : Utf8 cs' s) : cs = cs' := by
  induction cs generalizing cs' s with
  | nil =>
    cases h
    cases cs' with
    | nil => rfl
    | cons c cs' =>
      obtain ⟨x, y, -, hne, -, -, he⟩ := h'.cons_inv h'.head_lt
      exact absurd (List.append_eq_nil_iff.mp he.symm).1 hne
  | cons c cs ih =>
    obtain ⟨x, y, hx, hne, hdec, hy, rfl⟩ := h.cons_inv h.head_lt
    cases cs' with
    | nil => exact absurd (List.append_eq_nil_iff.mp (Except.ok.inj h').symm).1 hne
    | cons c' cs' =>
      obtain ⟨x', y', hx', hne', hdec', hy', he⟩ := h'.cons_inv h'.head_lt
      have hsame := hdec y
      rw [he, hdec' y'] at hsame
      have hc : c' = c := congrArg Prod.fst (Except.ok.inj hsame)
      subst hc
      obtain rfl : x = x' := Except.ok.inj (hx.symm.trans hx')
      rw [List.append_cancel_left he] at hy
      rw [ih hy hy']

theorem Utf8.eq_iff {t : List UInt8} (ht : Utf8 l t) (h : Utf8 cs s) : s = t ↔ cs = l := by
  constructor
  · rintro rfl
    exact Utf8.inj h ht
  · rintro rfl
    exact Except.ok.inj (h.symm.trans ht)

theorem compareWithoutWildcards_utf8 (h : Utf8 cs s) (l : List ℕ) :
    compareWithoutWildcards l s = .ok (foldName l == foldName cs) := by
  induction l generalizing cs s with
  | nil =>
    cases cs with
    | nil =>
      cases h
      rfl
    | cons c cs =>
      obtain ⟨x, y, -, hne, -, -, rfl⟩ := h.cons_inv h.head_lt
      have hs : x ++ y ≠ [] := fun he => hne (List.append_eq_nil_iff.mp he).1
      simp [compareWithoutWildcards, foldName, hs]
  | cons c' l ih =>
    cases cs with
    | nil =>
      cases h
      rfl
    | cons c cs =>
      obtain ⟨x, y, -, hne, hdec, hy, rfl⟩ := h.cons_inv h.head_lt
      have hs : x ++ y ≠ [] := fun he => hne (List.append_eq_nil_iff.mp he).1
      rw [compareWithoutWildcards, if_neg hs, hdec y]
      dsimp only
      rw [List.drop_left, ih hy]
      by_cases hc : unicodeSimpleFold c = unicodeSimpleFold c'
      · simp [foldName, hc]
      · simp [foldName, hc, Ne.symm hc]

def component (cs : List ℕ) : Component (List ℕ) :=
  if cs = [] ∨ cs = [0x2E] then .here else if cs = [0x2E, 0x2E] then .up else .name cs

/-- The entry's long or short name is the name but for case, and it is no volume label. -/
def Entry.shows (cs : List ℕ) (x : Entry) : Bool :=
  !hasAttr x.de.attr fatAVolid && ((x.longName.toOption.any fun r => foldName r.2 == foldName cs) ||
    x.shortName.toOption.any fun s => foldName s == foldName cs)

end Names

section Alike

variable {slot slot' : ℕ → Option Direntry}

/-- The slots tell the same names; short entries may differ in what else they say. -/
structure Alike (d e : Direntry) : Prop where
  name : ∀ i < 11, d i = e i
  short : d.isShort = e.isShort
  volid : hasAttr d.attr fatAVolid = hasAttr e.attr fatAVolid
  part : d.isShort = false → d.toBytes = e.toBytes

theorem Alike.of_bytes (h : d.toBytes = e.toBytes) : Alike d e where
  name _ hi := toBytes_eq h (by omega)
  short := isShort_eq h
  volid := congrArg (hasAttr · fatAVolid) (toBytes_eq h (by decide : 11 < 32))
  part _ := h

/-- Entries that are alike but for their size, first cluster, times and attributes. -/
theorem Alike.of_live (hname : ∀ i < 11, d i = e i) (hd : d.Live) (he : e.Live) : Alike d e := by
  have hshort : ∀ {d : Direntry}, d.Live → d.isShort = true := fun h => by
    simp [Direntry.isShort, h.1, h.2.2.1]
  refine ⟨hname, by rw [hshort hd, hshort he], by rw [hd.2.2.1, he.2.2.1], fun hno => ?_⟩
  rw [hshort hd] at hno
  cases hno

theorem Alike.name_eq (h : Alike d e) : d.name = e.name := by
  apply List.map_congr_left
  intro i hi
  exact h.name i (List.mem_range.mp hi)

structure Entry.Alike (x y : Entry) : Prop where
  number : x.number = y.number
  de : Fat.Alike x.de y.de
  before : x.before.map Direntry.toBytes = y.before.map Direntry.toBytes

theorem walkSlots_bytes {check order : ℕ} {semi : Option ℕ} {lfn : List ℕ}
    (h : before.map Direntry.toBytes = before'.map Direntry.toBytes) :
    walkSlots check before order semi lfn = walkSlots check before' order semi lfn := by
  induction before generalizing before' order semi lfn with
  | nil => rw [List.map_eq_nil_iff.mp (h.symm.trans List.map_nil)]
  | cons d before ih =>
    cases before' with
    | nil => cases h
    | cons e before' =>
      obtain ⟨hb, hrest⟩ := List.cons.inj h
      have h0 : d 0 = e 0 := toBytes_eq hb (by decide)
      have h11 : d.attr = e.attr := toBytes_eq hb (by decide)
      have h13 : d 13 = e 13 := toBytes_eq hb (by decide)
      rw [walkSlots, walkSlots, h0, h11, h13, lfnUnits_eq hb]
      simp only [ih hrest]

theorem Entry.Alike.names (h : x.Alike y) : x.checksum = y.checksum ∧ x.longName = y.longName ∧
    x.shortName = y.shortName := by
  have hname := h.de.name_eq
  have hcheck : x.checksum = y.checksum := by rw [checksum, checksum, hname]
  refine ⟨hcheck, ?_, by rw [shortName, shortName, hname]⟩
  have htake : (x.before.take 20).map Direntry.toBytes = (y.before.take 20).map Direntry.toBytes := by
    rw [List.map_take, List.map_take, h.before]
  rw [longName, longName, hcheck, walkSlots_bytes htake]

theorem Entry.Alike.shows (h : x.Alike y) (cs : List ℕ) : x.shows cs = y.shows cs := by
  rw [Entry.shows, Entry.shows, h.names.2.1, h.names.2.2, h.de.volid]

theorem Entry.Alike.continuedBy (h : x.Alike y) (hd : d.toBytes = e.toBytes) (hx : x.ContinuedBy d) : y.ContinuedBy e := by
  have hlen : x.before.length = y.before.length := by
    rw [← List.length_map (f := Direntry.toBytes), h.before, List.length_map]
  obtain ⟨h1, h2, r, h3, h4⟩ := hx.congr hd
  rw [h.names.1] at h3 h4
  exact ⟨hlen ▸ h1, h.number ▸ h2, r, walkSlots_bytes h.before ▸ h3, h4⟩

theorem entries_alike (h : ∀ n, Option.Rel Alike (slot n) (slot' n))
    (hb : before.map Direntry.toBytes = before'.map Direntry.toBytes) :
    List.Forall₂ Entry.Alike (entries slot k n before) (entries slot' k n before') := by
  induction k generalizing n before before' with
  | zero => exact .nil
  | succ k ih =>
    have hn := h n
    rw [entries, entries]
    cases hs : slot n with
    | none =>
      rw [hs] at hn
      cases hs' : slot' n with
      | none => exact .nil
      | some e =>
        rw [hs'] at hn
        cases hn
    | some d =>
      rw [hs] at hn
      cases hs' : slot' n with
      | none =>
        rw [hs'] at hn
        cases hn
      | some e =>
        rw [hs'] at hn
        obtain hde : Alike d e := by
          cases hn
          assumption
        dsimp only
        rw [hde.name 0 (by decide), hde.short]
        by_cases h0 : e 0 = fatEndofdir
        · rw [if_pos h0, if_pos h0]
          exact .nil
        · rw [if_neg h0, if_neg h0]
          by_cases hshort : e.isShort = true
          · rw [if_pos hshort, if_pos hshort]
            exact .cons ⟨rfl, hde, hb⟩ (ih rfl)
          · rw [if_neg hshort, if_neg hshort]
            refine ih ?_
            rw [List.map_cons, List.map_cons, hb, hde.part (hde.short.trans (Bool.eq_false_iff.mpr hshort))]

theorem find?_alike {xs ys : List Entry} (h : List.Forall₂ Entry.Alike xs ys) (cs : List ℕ) :
    (xs.find? (·.shows cs)).map Entry.number = (ys.find? (·.shows cs)).map Entry.number := by
  induction h with
  | nil => rfl
  | @cons x y xs ys hxy _ ih =>
    rw [List.find?_cons, List.find?_cons, hxy.shows cs]
    cases y.shows cs with
    | true => exact congrArg some hxy.number
    | false => exact ih

theorem mem_alike {xs ys : List Entry} (h : List.Forall₂ Entry.Alike xs ys) (hy : y ∈ ys) :
    ∃ x ∈ xs, x.Alike y := by
  induction h with
  | nil => cases hy
  | @cons x y' xs ys hxy _ ih =>
    rcases List.mem_cons.mp hy with rfl | hy
    · exact ⟨x, List.mem_cons_self, hxy⟩
    · obtain ⟨x', hx', ha⟩ := ih hy
      exact ⟨x', List.mem_cons_of_mem _ hx', ha⟩

end Alike

section Tree

namespace Layout

def Dir (G : Layout) (v : Volume) (a : ℕ) : Prop := a ∈ G.owners ∧ IsDir v.byte a

def slot (G : Layout) (v : Volume) (a n : ℕ) : Option Direntry := (G.at v.geo a (32 * n)).map (slotAt v.byte)

def listing (G : Layout) (v : Volume) (a : ℕ) : List Entry := entries (G.slot v a) 65535 0 []

open Classical in
/-- The files and directories of a volume, by the addresses of their entries. Of two entries with a name the
first counts. -/
noncomputable def tree (G : Layout) (v : Volume) : PathTree ℕ (List ℕ) where
  isDir a := decide (G.Dir v a)
  parent a := if a = 0 then 0 else epsilon fun q => G.Dir v q ∧ ∃ n, G.at v.geo q (32 * n) = some a
  child a cs := if G.Dir v a then ((G.listing v a).find? (·.shows cs)).bind fun x => G.at v.geo a (32 * x.number)
    else none

/-- The slot goes on with the long name of no entry. -/
def Aloof (G : Layout) (v : Volume) (d : Direntry) : Prop := ∀ a, G.Dir v a → ∀ x ∈ G.listing v a, ¬x.ContinuedBy d

/-- The names in the directories can be read, those for a directory itself and its parent are short, and what
is left in the ring of one directory goes on with no name in another. -/
structure Legible (G : Layout) (v : Volume) : Prop where
  long : ∀ a, G.Dir v a → ∀ x ∈ G.listing v a, ∃ r, x.longName = .ok r
  short : ∀ a, G.Dir v a → ∀ x ∈ G.listing v a, ∃ r, x.shortName = .ok r
  dots : ∀ a, G.Dir v a → ∀ x ∈ G.listing v a, x.de.name = dotName ∨ x.de.name = dotdotName → x.longName = .ok (0, [])
  late : ∀ a, G.Dir v a → ∀ d, Late (G.slot v a) d → G.Aloof v d

/-- The directories of two volumes tell the same. -/
structure SameTree (G : Layout) (v w : Volume) : Prop where
  geo : w.geo = v.geo
  dir : ∀ a ∈ G.owners, IsDir w.byte a ↔ IsDir v.byte a
  slot : ∀ a, G.Dir v a → ∀ n, Option.Rel Alike (G.slot v a n) (G.slot w a n)

namespace SameTree

theorem of_byte (hgeo : w.geo = v.geo) (hbyte : w.byte = v.byte) : G.SameTree v w where
  geo := hgeo
  dir _ _ := by rw [hbyte]
  slot a _ n := by
    have hsame : G.slot w a n = G.slot v a n := by rw [Layout.slot, Layout.slot, hgeo, hbyte]
    rw [hsame]
    cases G.slot v a n with
    | none => exact .none
    | some d => exact .some (.of_bytes rfl)

variable (h : G.SameTree v w)

include h

theorem dir_iff (a : ℕ) : G.Dir w a ↔ G.Dir v a := and_congr_right (h.dir a)

theorem listing (ha : G.Dir v a) : List.Forall₂ Entry.Alike (G.listing v a) (G.listing w a) :=
  entries_alike (h.slot a ha) rfl

theorem tree : G.tree w = G.tree v := by
  have hdir : G.Dir w = G.Dir v := funext fun a => propext (h.dir_iff a)
  unfold Layout.tree
  rw [hdir, h.geo]
  congr 1
  funext a cs
  by_cases ha : G.Dir v a
  · have hfind := find?_alike (h.listing ha) cs
    have hbind : ∀ r : Option Entry, (r.bind fun x => G.at v.geo a (32 * x.number)) =
        (r.map Entry.number).bind fun n => G.at v.geo a (32 * n) := fun r => by cases r <;> rfl
    rw [if_pos ha, if_pos ha, hbind, hbind, hfind]
  · rw [if_neg ha, if_neg ha]

theorem aloof (hd : G.Aloof v d) (he : d.toBytes = e.toBytes) : G.Aloof w e := by
  intro a ha y hy hc
  have ha' := (h.dir_iff a).mp ha
  obtain ⟨x, hx, hxy⟩ := mem_alike (h.listing ha') hy
  have hyx : y.Alike x := ⟨hxy.number.symm, ⟨fun i hi => (hxy.de.name i hi).symm, hxy.de.short.symm, hxy.de.volid.symm,
    fun hs => (hxy.de.part (hxy.de.short.trans hs)).symm⟩, hxy.before.symm⟩
  exact hd a ha' x hx (hyx.continuedBy he.symm hc)

theorem legible (hv : G.Legible v) : G.Legible w := by
  have hmem : ∀ {a}, G.Dir w a → ∀ y ∈ G.listing w a, G.Dir v a ∧ ∃ x ∈ G.listing v a, x.Alike y := fun ha y hy =>
    ⟨(h.dir_iff _).mp ha, mem_alike (h.listing ((h.dir_iff _).mp ha)) hy⟩
  constructor
  · intro a ha y hy
    obtain ⟨ha', x, hx, hxy⟩ := hmem ha y hy
    rw [← hxy.names.2.1]
    exact hv.long a ha' x hx
  · intro a ha y hy
    obtain ⟨ha', x, hx, hxy⟩ := hmem ha y hy
    rw [← hxy.names.2.2]
    exact hv.short a ha' x hx
  · intro a ha y hy hdot
    obtain ⟨ha', x, hx, hxy⟩ := hmem ha y hy
    rw [← hxy.names.2.1]
    rw [← hxy.de.name_eq] at hdot
    exact hv.dots a ha' x hx hdot
  · rintro a ha e ⟨n, hn, hrun⟩
    have ha' := (h.dir_iff a).mp ha
    have hback : ∀ i ≤ 20, ∀ e, G.slot w a (n + i) = some e → e.isShort = false →
        ∃ d, G.slot v a (n + i) = some d ∧ d.isShort = false ∧ d.toBytes = e.toBytes := fun i _ e he hs => by
      have hrel := h.slot a ha' (n + i)
      rw [he] at hrel
      cases hd : G.slot v a (n + i) with
      | none =>
        rw [hd] at hrel
        cases hrel
      | some d =>
        rw [hd] at hrel
        obtain hde : Alike d e := by
          cases hrel
          assumption
        have hs' : d.isShort = false := hde.short.trans hs
        exact ⟨d, rfl, hs', hde.part hs'⟩
    obtain ⟨e', he', hs'⟩ := hrun 20 (Nat.le_refl 20)
    obtain rfl : e' = e := Option.some.inj (he'.symm.trans hn)
    obtain ⟨d, hd, -, hbytes⟩ := hback 20 (Nat.le_refl 20) e' hn hs'
    refine h.aloof (hv.late a ha' d ⟨n, hd, fun i hi => ?_⟩) hbytes
    obtain ⟨e, he, hs⟩ := hrun i hi
    obtain ⟨d', hd', hs', -⟩ := hback i hi e he hs
    exact ⟨d', hd', hs'⟩

end SameTree

end Layout

/-- The entry that is written back when a file is closed shows the name that the slot had. -/
theorem Shut.sameTree {f : ℕ} (h : Shut f v w) (hv : Tidy G v) (hs : G.Settled) (hn : G.named) : G.SameTree v w := by
  rcases h.written with hw | ⟨-, h0, hf, hw⟩
  · exact .of_byte h.geo hw
  · have hfg : f ∉ G.goneFiles := by simp [hs.goneFiles]
    have hok := hv.order.files.file f hf hfg
    have hown : (books v).fileAddr f ∈ G.owners := hok.owner
    have halign := hv.order.entries.aligned hv.sound.geo hown
    have hnames := hv.order.names hn
    have hgone : (books v).fileAddr f ∉ G.gone := by simp [hs.gone]
    generalize hp : (books v).fileAddr f = p at h0 hw hown halign hgone
    have hslot : ∀ i < 32, w.byte (p + i) = (v.files f).de i := fun i hi => by rw [hw, overlay_toBytes_at _ p _ hi]
    have hone : OneSlot p v.byte w.byte := hw ▸ oneSlot_toBytes _ p v.byte
    refine ⟨h.geo, fun a ha => ?_, fun a ha n => ?_⟩
    · by_cases hap : a = p
      · have hdir : (v.files f).de.isDir = true ↔ IsDir v.byte ((books v).fileAddr f) := hok.dir
        rw [hap, ← hp, ← hdir, hp, IsDir, or_iff_right h0, isDir_de_congr (hslot 11 (by omega))]
      · have hq := hv.order.entries.aligned hv.sound.geo ha
        exact isDir_congr fun _ => hone.other halign hq hap (by omega)
    · rw [Layout.slot, Layout.slot, h.geo]
      cases hat : G.at v.geo a (32 * n) with
      | none => exact .none
      | some q =>
        refine .some ?_
        by_cases hqp : q = p
        · rw [hqp]
          refine .of_live (fun i hi => ?_) (hv.order.entries.linked p hown h0 hgone) ?_
          · have hdisk := hnames.slot p hown h0 hgone i hi
            have hfile := hnames.file f hf hfg (by simp [hs.stale]) (hp ▸ h0) i hi
            rw [hp] at hfile
            exact hdisk.trans (hfile.symm.trans (hslot i (by omega)).symm)
          · have hlive : (v.files f).de.Live := hok.live fun hz => h0 (hp.symm.trans hz)
            exact (live_congr fun i hi => hslot i (by omega)).mpr hlive
        · have hq : 32 ∣ q := hv.sound.geo.posAddr_dvd hat (Nat.dvd_mul_right _ _)
          refine .of_bytes ?_
          apply List.map_congr_left
          intro i hi
          exact (hone.other halign hq hqp (List.mem_range.mp hi)).symm

theorem component_name {t : List ℕ} (h : component cs = .name t) : t = cs ∧ ∀ n ≤ 2, cs ≠ List.replicate n 0x2E := by
  unfold component at h
  split at h
  · cases h
  · next h1 =>
    split at h
    · cases h
    · next h2 =>
      cases h
      refine ⟨rfl, fun n hn he => ?_⟩
      obtain rfl | rfl | rfl : n = 0 ∨ n = 1 ∨ n = 2 := by omega
      · exact h1 (.inl he)
      · exact h1 (.inr he)
      · exact h2 he

theorem mem_listing (hx : x ∈ G.listing v a) : x.de.isShort = true ∧ x.de 0 ≠ fatEndofdir ∧
    ∃ p, G.at v.geo a (32 * x.number) = some p ∧ x.de = slotAt v.byte p := by
  have hl := mem_entries (Passed.nil _ _) hx
  obtain ⟨p, hp, he⟩ := Option.map_eq_some_iff.mp hl.at_slot
  exact ⟨hl.short, hl.live, p, hp, he.symm⟩

theorem Layout.Legible.live (h : G.Legible v) (ha : G.Dir v a) (hx : x ∈ G.listing v a) (hs : x.shows cs = true)
    (hc : component cs = .name cs) : x.de.Live := by
  obtain ⟨hshort, hend, -⟩ := mem_listing hx
  obtain ⟨-, hdots⟩ := component_name hc
  rw [Entry.shows, Bool.and_eq_true, Bool.not_eq_true'] at hs
  obtain ⟨hvol, hs⟩ := hs
  have hfree : x.de 0 ≠ fatFreeent := by
    rw [Direntry.isShort, Bool.and_eq_true, bne_iff_ne] at hshort
    exact hshort.1
  have hno : ∀ n ≤ 2, x.de.name = dotName ∨ x.de.name = dotdotName → expandFcbName x.de.name = .ok (List.replicate n 0x2E) →
      False := fun n hn hname hexp => by
    rw [h.dots a ha x hx hname, Entry.shortName, hexp] at hs
    simp only [Except.toOption, Option.any_some, Bool.or_eq_true, beq_iff_eq] at hs
    rcases hs with hs | hs
    · exact hdots 0 (by decide) (foldName_dots (n := 0) hs.symm)
    · exact hdots n hn (foldName_dots hs.symm)
  refine ⟨hfree, hend, hvol, fun hname => ?_, fun hname => ?_⟩
  · exact hno 1 (by decide) (.inl hname) (by rw [hname]; rfl)
  · exact hno 2 (by decide) (.inr hname) (by rw [hname]; rfl)

theorem tree_isDir : (G.tree v).isDir a = true ↔ G.Dir v a := by
  classical exact decide_eq_true_iff

theorem tree_parent_root (G : Layout) (v : Volume) : (G.tree v).parent 0 = 0 := by
  change (if (0 : ℕ) = 0 then 0 else Classical.epsilon fun q => G.Dir v q ∧ ∃ n, G.at v.geo q (32 * n) = some 0) = 0
  exact if_pos rfl

theorem tree_child (ha : G.Dir v a) (hx : (G.listing v a).find? (·.shows cs) = some x)
    (hp : G.at v.geo a (32 * x.number) = some p) : (G.tree v).child a cs = some p := by
  classical
  change (if G.Dir v a then ((G.listing v a).find? (·.shows cs)).bind _ else none) = some p
  rw [if_pos ha, hx]
  exact hp

theorem tree_child_none (hx : (G.listing v a).find? (·.shows cs) = none) : (G.tree v).child a cs = none := by
  classical
  change (if G.Dir v a then ((G.listing v a).find? (·.shows cs)).bind _ else none) = none
  rw [hx]
  exact ite_self none

theorem tree_parent (hv : Tidy G v) (ha : G.Dir v a) (hp : G.at v.geo a (32 * n) = some p) (h0 : p ≠ 0) :
    (G.tree v).parent p = a := by
  have hspec : ∃ q, G.Dir v q ∧ ∃ n, G.at v.geo q (32 * n) = some p := ⟨a, ha, n, hp⟩
  obtain ⟨hq, k, hk⟩ := Classical.epsilon_spec hspec
  change (if p = 0 then 0 else _) = a
  rw [if_neg h0]
  exact (Chains.posAddr_unique hv.sound.geo hv.order.chains hq.1 ha.1 hk hp).1

end Tree

end FreeDos32.Fat
