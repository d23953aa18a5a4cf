import FreeDos32.Filesys.Jft
import Mathlib.Data.List.Nodup

namespace FreeDos32.Filesys

theorem countP_set_add {α : Type} (p : α → Bool) {l : List α} {i : ℕ} {a : α} (b : α) (h : l[i]? = some a) :
    (l.set i b).countP p + (if p a then 1 else 0) = l.countP p + if p b then 1 else 0 := by
  induction l generalizing i with
  | nil => simp at h
  | cons x l ih =>
    cases i with
    | zero =>
      obtain rfl : x = a := by simpa using h
      simp only [List.set_cons_zero, List.countP_cons]
      omega
    | succ i =>
      have := ih (i := i) (by simpa using h)
      simp only [List.set_cons_succ, List.countP_cons]
      omega

namespace Jft

def Refers (c : ℕ) (e : JftEntry) : Prop := e.request = some .fat ∧ e.file = c

def Searching (s : ℕ) (e : JftEntry) : Prop := e.request.isSome ∧ e.search = some s

instance (c : ℕ) (e : JftEntry) : Decidable (Refers c e) := inferInstanceAs (Decidable (_ ∧ _))

instance (s : ℕ) (e : JftEntry) : Decidable (Searching s e) := inferInstanceAs (Decidable (_ ∧ _))

/-- Open entries refer to open channels and to records outside of the slab; a channel counts the entries that refer to it,
and a record belongs to one entry. -/
structure Kept (j : Jft) : Prop where
  channels : ∀ e ∈ j.entries, e.request = some .fat → j.references e.file ≠ 0
  records : ∀ e ∈ j.entries, e.request.isSome → ∀ s, e.search = some s → s ∈ j.searchesOpen
  counts : ∀ c, j.references c = j.entries.countP fun e => Refers c e
  single : ∀ s ∈ j.searchesOpen, j.entries.countP (fun e => Searching s e) = 1

/-- The driver does not fail a close after it has dropped the reference. -/
def Clean : Closing → Prop
  | .failed _ => False
  | _ => True

instance (answer : Closing) : Decidable (Clean answer) := by
  unfold Clean
  split <;> infer_instance

/-- No search handle is copied, and the driver drops the reference to a channel if and only if the close succeeds; where a
search finds nothing, it drops it. -/
def Careful (j : Jft) : Call → Prop
  | .dup oldfd => j.freeEntry = none ∨ ∀ e ∈ j.entry oldfd, e.search = none
  | .forcedup oldfd newfd answer =>
    (newfd = oldfd ∨ ∀ e ∈ j.entry oldfd, e.search = none) ∧
      (Clean answer ∨ ∀ e ∈ j.entry newfd, e.request ≠ some .fat)
  | .close fd answer => Clean answer ∨ ∀ e ∈ j.entry fd, e.request ≠ some .fat
  | .findclose _ answer => Clean answer
  | .findfirst _ _ _ _ (.error _) closing => closing.drops
  | _ => True

instance (j : Jft) (c : Call) : Decidable (j.Careful c) := by
  unfold Careful
  split <;> infer_instance

structure Inv (j : Jft) : Prop where
  counts : ∀ c, j.references c = j.entries.countP fun e => Refers c e
  records : ∀ s, j.searchesOpen.count s = j.entries.countP fun e => Searching s e
  nodup : j.searchesOpen.Nodup
  onDisk : ∀ e ∈ j.entries, e.request.isSome → e.search.isSome → e.request = some .fat

variable {j j' : Jft} {i : ℕ} {e e' : JftEntry} {fd oldfd newfd : ℤ} {answer : Closing}

namespace Inv

theorem references_pos (h : j.Inv) (he : e ∈ j.entries) (hr : e.request = some .fat) : 0 < j.references e.file := by
  rw [h.counts]
  exact List.countP_pos_iff.mpr ⟨e, he, decide_eq_true ⟨hr, rfl⟩⟩

theorem kept (h : j.Inv) : j.Kept where
  channels e he hr := Nat.ne_of_gt (h.references_pos he hr)
  records e he hr s hs := by
    refine List.count_pos_iff.mp ?_
    rw [h.records]
    exact List.countP_pos_iff.mpr ⟨e, he, decide_eq_true ⟨hr, hs⟩⟩
  counts := h.counts
  single s hs := by rw [← h.records, List.count_eq_one_of_mem h.nodup hs]

theorem replace (h : j.Inv) (hget : j.entries[i]? = some e) (hentries : j'.entries = j.entries.set i e')
    (hcounts : ∀ c, j'.references c + (if Refers c e then 1 else 0) = j.references c + if Refers c e' then 1 else 0)
    (hrecords : ∀ s, j'.searchesOpen.count s + (if Searching s e then 1 else 0) =
      j.searchesOpen.count s + if Searching s e' then 1 else 0)
    (hnodup : j'.searchesOpen.Nodup) (hdisk : e'.request.isSome → e'.search.isSome → e'.request = some .fat) :
    j'.Inv where
  counts c := by
    have hset := countP_set_add (fun e => decide (Refers c e)) e' hget
    have hc := hcounts c
    rw [h.counts] at hc
    rw [hentries]
    simp only [decide_eq_true_eq] at hset
    omega
  records s := by
    have hset := countP_set_add (fun e => decide (Searching s e)) e' hget
    have hc := hrecords s
    rw [h.records] at hc
    rw [hentries]
    simp only [decide_eq_true_eq] at hset
    omega
  nodup := hnodup
  onDisk a ha := by
    rw [hentries] at ha
    rcases List.mem_or_eq_of_mem_set ha with ha | rfl
    · exact h.onDisk a ha
    · exact hdisk

theorem sameCounts (h : j.Inv) (hentries : j'.entries = j.entries) (hsearches : j'.searchesOpen = j.searchesOpen)
    (hrefs : ∀ c, j'.references c = j.references c) : j'.Inv where
  counts c := by rw [hrefs, hentries]; exact h.counts c
  records s := by rw [hsearches, hentries]; exact h.records s
  nodup := hsearches ▸ h.nodup
  onDisk := hentries ▸ h.onDisk

end Inv

theorem entry_spec (h : j.entry fd = some e) : j.entries[fd.toNat]? = some e ∧ e.request.isSome ∧ 0 ≤ fd := by
  unfold entry at h
  split at h
  · cases h
  · rename_i hrange
    rw [Option.filter_eq_some_iff] at h
    exact ⟨h.1, h.2, by omega⟩

theorem validateFileHandle_spec (h : j.validateFileHandle fd = some e) : j.entry fd = some e ∧ e.search = none := by
  unfold validateFileHandle at h
  rw [Option.filter_eq_some_iff] at h
  exact ⟨h.1, Option.isNone_iff_eq_none.mp h.2⟩

theorem validateSearchHandle_spec (h : j.validateSearchHandle fd = some e) : j.entry fd = some e ∧ e.search.isSome := by
  unfold validateSearchHandle at h
  rw [Option.filter_eq_some_iff] at h
  exact h

theorem freeEntry_spec (h : j.freeEntry = some i) : ∃ e, j.entries[i]? = some e ∧ e.request = none := by
  unfold freeEntry at h
  obtain ⟨hlt, hfree, -⟩ := List.findIdx?_eq_some_iff_getElem.mp h
  exact ⟨j.entries[i], List.getElem?_eq_getElem hlt, Option.isNone_iff_eq_none.mp hfree⟩

theorem not_refers_of_free (h : e.request = none) (c : ℕ) : ¬Refers c e := fun hc => nomatch h.symm.trans hc.1

theorem not_refers_of_device (h : e.request = some .device) (c : ℕ) : ¬Refers c e := fun hc => nomatch h.symm.trans hc.1

theorem not_searching_of_free (h : e.request = none) (s : ℕ) : ¬Searching s e := fun hc => by
  have ho := hc.1
  rw [h] at ho
  cases ho

theorem not_searching_of_none (h : e.search = none) (s : ℕ) : ¬Searching s e := fun hc => nomatch h.symm.trans hc.2

namespace Inv

theorem copied (h : j.Inv) (hget : j.entries[i]? = some e) (hfree : e.request = none) (hmem : e' ∈ j.entries)
    (hopen : e'.request.isSome) (hsearch : e'.search = none) :
    ((j.setEntry i e').addReference (e'.request.getD .device) e'.file).Inv := by
  have hnone := not_refers_of_free hfree
  have hnosearch := not_searching_of_free hfree
  have hnosearch' := not_searching_of_none hsearch
  obtain ⟨request, hrequest⟩ := Option.isSome_iff_exists.mp hopen
  rw [hrequest, Option.getD_some]
  cases request with
  | device =>
    refine h.replace hget rfl (fun c => ?_) (fun s => ?_) h.nodup (by simp [hsearch])
    · rw [if_neg (hnone c), if_neg (not_refers_of_device hrequest c)]
      rfl
    · rw [if_neg (hnosearch s), if_neg (hnosearch' s)]
      rfl
  | fat =>
    have hpos := h.references_pos hmem hrequest
    have hadd : (j.setEntry i e').addReference .fat e'.file = { j.setEntry i e' with
        references := Function.update j.references e'.file (j.references e'.file + 1) } := if_neg (Nat.ne_of_gt hpos)
    rw [hadd]
    refine h.replace hget rfl (fun c => ?_) (fun s => ?_) h.nodup (by simp [hsearch])
    · rw [if_neg (hnone c)]
      dsimp only
      by_cases hc : c = e'.file
      · rw [if_pos ⟨hrequest, hc.symm⟩, hc, Function.update_self]
      · rw [if_neg fun hr => hc hr.2.symm, Function.update_of_ne hc]
    · rw [if_neg (hnosearch s), if_neg (hnosearch' s)]
      rfl

/-- The call of the driver when an entry is closed: a reference less if and only if it succeeds. -/
theorem fsClose (h : j.Inv) (hmem : e ∈ j.entries) (hopen : e.request.isSome)
    (hclean : Clean answer ∨ e.request ≠ some .fat) :
    (∃ err, j.fsClose (e.request.getD .device) e.file answer = (.error err, j)) ∨
      ∃ references, j.fsClose (e.request.getD .device) e.file answer = (.ok (), { j with references }) ∧
        ∀ c, references c + (if Refers c e then 1 else 0) = j.references c := by
  obtain ⟨request, hrequest⟩ := Option.isSome_iff_exists.mp hopen
  rw [hrequest, Option.getD_some]
  cases request with
  | device =>
    cases answer with
    | closed => exact .inr ⟨j.references, rfl, fun c => by rw [if_neg (not_refers_of_device hrequest c)]; rfl⟩
    | notReady err => exact .inl ⟨err, rfl⟩
    | failed err => exact .inl ⟨err, rfl⟩
  | fat =>
    have hpos := h.references_pos hmem hrequest
    cases answer with
    | notReady err => exact .inl ⟨err, rfl⟩
    | failed err => exact (hclean.elim id fun hc => hc hrequest).elim
    | closed =>
      refine .inr ⟨Function.update j.references e.file (j.references e.file - 1), ?_, fun c => ?_⟩
      · exact if_neg (Nat.ne_of_gt hpos)
      · by_cases hc : c = e.file
        · rw [if_pos ⟨hrequest, hc.symm⟩, hc, Function.update_self]
          omega
        · rw [if_neg fun hr => hc hr.2.symm, Function.update_of_ne hc]
          rfl

theorem fd32Close (h : j.Inv) (hclean : Clean answer ∨ ∀ e ∈ j.entry fd, e.request ≠ some .fat) :
    (j.fd32Close fd answer).2.Inv ∧ (j.fd32Close fd answer).2.entries.length = j.entries.length ∧
      ((j.entry fd).isSome → (j.fd32Close fd answer).1 = .ok () →
        (∃ e, (j.fd32Close fd answer).2.entries[fd.toNat]? = some e ∧ e.request = none) ∧
          ∀ k : ℕ, k ≠ fd.toNat → (j.fd32Close fd answer).2.entries[k]? = j.entries[k]?) := by
  unfold Jft.fd32Close
  cases hv : j.validateFileHandle fd with
  | none => exact ⟨h, rfl, fun _ hok => by cases hok⟩
  | some e =>
    obtain ⟨hentry, hsearch⟩ := validateFileHandle_spec hv
    obtain ⟨hget, hopen, -⟩ := entry_spec hentry
    have hmem : e ∈ j.entries := List.mem_of_getElem? hget
    have hlt := (List.getElem?_eq_some_iff.mp hget).1
    rcases h.fsClose hmem hopen (hclean.imp_right fun hc => hc e hentry) with ⟨err, hres⟩ | ⟨references, hres, hrefs⟩
    · dsimp only
      rw [hres]
      exact ⟨h, rfl, fun _ hok => by cases hok⟩
    · dsimp only
      rw [hres]
      refine ⟨?_, List.length_set .., fun _ _ => ⟨⟨{ e with request := none }, ?_, rfl⟩, fun k hk => ?_⟩⟩
      · refine h.replace hget rfl (fun c => ?_) (fun s => ?_) h.nodup (by simp)
        · have hno : ¬Refers c { e with request := none } := not_refers_of_free rfl c
          rw [if_neg hno]
          exact hrefs c
        · have hno : ¬Searching s { e with request := none } := not_searching_of_free rfl s
          rw [if_neg hno, if_neg (not_searching_of_none hsearch s)]
          rfl
      · exact List.getElem?_set_self hlt
      · exact List.getElem?_set_ne (Ne.symm hk)

theorem fd32Dup (h : j.Inv) (hc : j.freeEntry = none ∨ ∀ e ∈ j.entry oldfd, e.search = none) :
    (j.fd32Dup oldfd).2.Inv := by
  unfold Jft.fd32Dup
  cases hentry : j.entry oldfd with
  | none => exact h
  | some e =>
    dsimp only
    cases hfree : j.freeEntry with
    | none => exact h
    | some k =>
      have hsearch : e.search = none := hc.elim (fun hn => by rw [hn] at hfree; cases hfree) fun hs => hs e hentry
      obtain ⟨f, hf, hfr⟩ := freeEntry_spec hfree
      obtain ⟨hget, hopen, -⟩ := entry_spec hentry
      exact h.copied hf hfr (List.mem_of_getElem? hget) hopen hsearch

theorem fd32Forcedup (h : j.Inv) (hc : newfd = oldfd ∨ ∀ e ∈ j.entry oldfd, e.search = none)
    (hclean : Clean answer ∨ ∀ e ∈ j.entry newfd, e.request ≠ some .fat) : (j.fd32Forcedup oldfd newfd answer).2.Inv := by
  unfold Jft.fd32Forcedup
  cases hentry : j.entry oldfd with
  | none => exact h
  | some e =>
    dsimp only
    split
    · exact h
    rename_i hne
    split
    · exact h
    rename_i hrange
    have hsearch := hc.resolve_left hne e hentry
    obtain ⟨hget, hopen, hold⟩ := entry_spec hentry
    have hkne : oldfd.toNat ≠ newfd.toNat := by omega
    by_cases hsome : (j.entry newfd).isSome
    · rw [if_pos hsome]
      obtain ⟨hinv, -, hfreed⟩ := h.fd32Close hclean
      rcases hclose : j.fd32Close newfd answer with ⟨res, j₁⟩
      rw [hclose] at hinv hfreed
      cases res with
      | error err => exact hinv
      | ok =>
        obtain ⟨⟨f, hf, hfr⟩, hkeep⟩ := hfreed hsome rfl
        exact hinv.copied hf hfr (List.mem_of_getElem? ((hkeep _ hkne).trans hget)) hopen hsearch
    · rw [if_neg hsome]
      have hlt : newfd.toNat < j.entries.length := by omega
      have hf : j.entries[newfd.toNat]? = some j.entries[newfd.toNat] := List.getElem?_eq_getElem hlt
      have hfr : (j.entries[newfd.toNat]).request = none := by
        by_contra hreq
        refine hsome ?_
        rw [entry, if_neg hrange, hf]
        simp [Option.filter, Option.isSome_iff_ne_none.mpr hreq]
      exact h.copied hf hfr (List.mem_of_getElem? hget) hopen hsearch

theorem fd32Open (h : j.Inv) {opened : Except ℕ ℕ} (hp : j.OnFree opened) : (j.fd32Open opened).2.Inv := by
  unfold Jft.fd32Open
  cases hfree : j.freeEntry with
  | none => exact h
  | some fd =>
    cases opened with
    | error err => exact h
    | ok file =>
      obtain ⟨f, hf, hfr⟩ := freeEntry_spec hfree
      refine h.replace hf rfl (fun c => ?_) (fun s => ?_) h.nodup (by simp)
      · rw [if_neg (not_refers_of_free hfr c)]
        by_cases hc : c = file
        · have hzero : j.references file = 0 := hp
          rw [if_pos ⟨rfl, hc.symm⟩, hc, hzero]
          exact Function.update_self ..
        · rw [if_neg fun hr => hc hr.2.symm]
          exact Function.update_of_ne hc ..
      · rw [if_neg (not_searching_of_free hfr s), if_neg (not_searching_of_none rfl s)]
        rfl

theorem fd32LfnFindfirst (h : j.Inv) {fileSpec : List Char} {flags : ℕ} {record : Option ℕ} {opened : Except ℕ ℕ}
    {found : Except ℕ Unit} (hrecord : ∀ s ∈ record, s ∉ j.searchesOpen) (hp : j.OnFree opened)
    (hc : j.Careful (.findfirst fileSpec flags record opened found answer)) :
    (j.fd32LfnFindfirst fileSpec flags record opened found answer).2.Inv := by
  unfold Jft.fd32LfnFindfirst
  cases hfree : j.freeEntry with
  | none => exact h
  | some fd =>
    cases record with
    | none => exact h
    | some search =>
      have hput : ({ j with searchesOpen := search :: j.searchesOpen }.searchPut search).searchesOpen = j.searchesOpen :=
        List.erase_cons_head ..
      cases opened with
      | error err => exact h.sameCounts rfl hput fun _ => rfl
      | ok file =>
        have hzero : j.references file = 0 := hp
        cases found with
        | error err =>
          have hdrops : answer.drops = true := hc
          have hone : Function.update j.references file 1 file ≠ 0 := by simp
          unfold Jft.fsClose
          dsimp only
          rw [if_pos hdrops]
          refine h.sameCounts ?_ ?_ fun c => ?_ <;> unfold searchPut <;> dsimp only <;> rw [if_neg hone]
          · exact hput
          · dsimp only
            by_cases hcf : c = file
            · rw [hcf, Function.update_self, Function.update_self, hzero]
            · rw [Function.update_of_ne hcf, Function.update_of_ne hcf]
        | ok =>
          obtain ⟨f, hf, hfr⟩ := freeEntry_spec hfree
          refine h.replace hf rfl (fun c => ?_) (fun s => ?_) (List.nodup_cons.mpr ⟨hrecord search rfl, h.nodup⟩)
            fun _ _ => rfl
          · rw [if_neg (not_refers_of_free hfr c)]
            by_cases hcf : c = file
            · rw [if_pos ⟨rfl, hcf.symm⟩, hcf, hzero]
              exact Function.update_self ..
            · rw [if_neg fun hr => hcf hr.2.symm]
              exact Function.update_of_ne hcf ..
          · rw [if_neg (not_searching_of_free hfr s)]
            refine (List.count_cons ..).trans ?_
            by_cases hs : search = s
            · rw [if_pos (beq_iff_eq.mpr hs), if_pos ⟨rfl, congrArg some hs⟩]
            · rw [if_neg fun hb => hs (beq_iff_eq.mp hb), if_neg fun hr => hs (Option.some.inj hr.2)]

theorem fd32LfnFindclose (h : j.Inv) (hclean : Clean answer) : (j.fd32LfnFindclose fd answer).2.Inv := by
  unfold Jft.fd32LfnFindclose
  cases hv : j.validateSearchHandle fd with
  | none => exact h
  | some e =>
    obtain ⟨hentry, hsearch⟩ := validateSearchHandle_spec hv
    obtain ⟨hget, hopen, -⟩ := entry_spec hentry
    obtain ⟨search, hse⟩ := Option.isSome_iff_exists.mp hsearch
    have hmem : e ∈ j.entries := List.mem_of_getElem? hget
    rcases h.fsClose hmem hopen (.inl hclean) with ⟨err, hres⟩ | ⟨references, hres, hrefs⟩
    · dsimp only
      rw [hres]
      exact h
    · dsimp only
      rw [hres, hse, Option.getD_some]
      have hin : search ∈ j.searchesOpen := h.kept.records e hmem hopen search hse
      refine h.replace hget rfl (fun c => ?_) (fun s => ?_) (h.nodup.erase search) (by simp)
      · have hno : ¬Refers c ⟨none, e.file, none⟩ := not_refers_of_free rfl c
        rw [if_neg hno]
        exact hrefs c
      · have hno : ¬Searching s ⟨none, e.file, none⟩ := not_searching_of_free rfl s
        rw [if_neg hno]
        by_cases hs : s = search
        · rw [if_pos ⟨hopen, hs ▸ hse⟩, hs]
          have hpos := List.count_pos_iff.mpr hin
          have hcount : (j.searchesOpen.erase search).count search = j.searchesOpen.count search - 1 :=
            List.count_erase_self
          exact (congrArg (· + 1) hcount).trans (Nat.succ_pred_eq_of_pos hpos)
        · rw [if_neg fun hr => hs (Option.some.inj (hr.2.symm.trans hse))]
          exact List.count_erase_of_ne hs

theorem start {jftSize con aux prn : ℕ} {search : ℕ → Search} (h : init jftSize con aux prn search = some j) : j.Inv := by
  unfold init at h
  split at h
  · cases h
  · cases h
    constructor
    · intro c
      simp [Refers, List.countP_replicate]
    · intro s
      simp [Searching, List.countP_replicate]
    · exact List.nodup_nil
    · intro e he _ hs
      simp only [List.mem_append, List.mem_replicate, List.mem_cons, List.not_mem_nil, or_false] at he
      rcases he with (rfl | rfl | rfl | rfl | rfl) | ⟨-, rfl⟩ <;> simp at hs

theorem step (h : j.Inv) {c : Call} (hc : j.Careful c) (hs : Jft.step c j = some j') : j'.Inv := by
  unfold Jft.step at hs
  split at hs
  · rename_i hp
    cases hs
    cases c with
    | open_ opened => exact h.fd32Open hp
    | dup oldfd => exact h.fd32Dup hc
    | forcedup oldfd newfd answer => exact h.fd32Forcedup hc.1 hc.2
    | close fd answer => exact (h.fd32Close hc).1
    | findfirst fileSpec flags record opened found closing => exact h.fd32LfnFindfirst hp.1 hp.2 hc
    | findnext fd findFile => exact h
    | findclose fd answer => exact h.fd32LfnFindclose hc
  · cases hs

end Inv

theorem run_handles {jftSize con aux prn : ℕ} {search : ℕ → Search} {j₀ : Jft}
    (h₀ : init jftSize con aux prn search = some j₀) (h : Reach step Careful j₀ j) : j.Kept :=
  (Reach.invariant Inv (Inv.start h₀) (fun _ _ _ hi hc hs => hi.step hc hs) h).kept

def freshTable : Jft where
  entries := List.replicate 5 ⟨some .device, 0, none⟩ ++ List.replicate 15 ⟨none, 0, none⟩
  references := fun _ => 0
  searchesOpen := []
  search := fun _ => ⟨0, []⟩

theorem init_freshTable : init 20 0 0 0 (fun _ => ⟨0, []⟩) = some freshTable := rfl

/-- A file and a search, with the handle of the file copied. -/
def copyFile : List Call :=
  [.open_ (.ok 8), .dup 5, .close 5 .closed, .findfirst ['\\', '*'] 0 (some 3) (.ok 9) (.ok ()) .closed,
    .forcedup 6 1 .closed, .close 0 (.notReady 6), .findclose 5 .closed, .close 6 .closed]

theorem run_handles_copyFile : ∃ j, runSteps step Careful copyFile freshTable = some j ∧ j.references 8 = 1 ∧
    j.searchesOpen = [] ∧ j.Kept := by
  have hmap : (runSteps step Careful copyFile freshTable).map (fun j => (j.references 8, j.searchesOpen)) =
      some (1, []) := by decide +kernel
  obtain ⟨j, hj, hres⟩ := Option.map_eq_some_iff.mp hmap
  obtain ⟨hrefs, hsearches⟩ := Prod.mk.inj hres
  exact ⟨j, hj, hrefs, hsearches, run_handles init_freshTable (runSteps_reach _ _ hj)⟩

/-- The handle of a search is copied, and the search closed. -/
def copySearch : List Call := [.findfirst ['\\', '*'] 0 (some 3) (.ok 9) (.ok ()) .closed, .dup 5, .findclose 5 .closed]

def failClose : List Call := [.open_ (.ok 8), .close 5 (.failed 5)]

/-- The copy refers to a record that is back in the slab; the entry that was not closed to a channel that was. -/
theorem handles_dangle :
    (∃ j, Reach step (fun _ _ => True) freshTable j ∧ runSteps step (fun _ _ => True) copySearch freshTable = some j ∧
      j.entries[6]? = some ⟨some .fat, 9, some 3⟩ ∧ 3 ∉ j.searchesOpen) ∧
    ∃ j, Reach step (fun _ _ => True) freshTable j ∧ runSteps step (fun _ _ => True) failClose freshTable = some j ∧
      j.entries[5]? = some ⟨some .fat, 8, none⟩ ∧ j.references 8 = 0 := by
  have hsearch : (runSteps step (fun _ _ => True) copySearch freshTable).map (fun j => (j.entries[6]?, j.searchesOpen)) =
      some (some ⟨some .fat, 9, some 3⟩, []) := by decide +kernel
  have hclose : (runSteps step (fun _ _ => True) failClose freshTable).map (fun j => (j.entries[5]?, j.references 8)) =
      some (some ⟨some .fat, 8, none⟩, 0) := by decide +kernel
  constructor
  · obtain ⟨j, hj, hres⟩ := Option.map_eq_some_iff.mp hsearch
    obtain ⟨hentry, hsearches⟩ := Prod.mk.inj hres
    exact ⟨j, runSteps_reach _ _ hj, hj, hentry, by simp [hsearches]⟩
  · obtain ⟨j, hj, hres⟩ := Option.map_eq_some_iff.mp hclose
    exact ⟨j, runSteps_reach _ _ hj, hj, Prod.mk.inj hres⟩

end Jft

end FreeDos32.Filesys
