import FreeDos32.Fat.Find
import FreeDos32.Fat.Scan
import FreeDos32.Library.Blind

namespace FreeDos32.Fat

open Prog

/-- The volume with other contents in the ring and the names that all lookups share. -/
def Volume.withLud (lud : LookupData) (v : Volume) : Volume := v.setLud fun _ => lud

section Blindness

variable {α : Type} {lud : LookupData}

theorem onCache_blindLud (x : Prog (Cache SectorData) Errno α) : Blind (Volume.withLud lud) (onCache x) := by
  have hid : Blind id x := fun _ => rfl
  exact .within (fun _ => rfl) (fun _ _ => rfl) hid

theorem fatSeek_blindLud (t : FatType) (n fatNum : ℕ) : Blind (Volume.withLud lud) (fatSeek t n fatNum) :=
  .bind_state (fun _ => rfl) fun _ => .ite (.fail _) (.pure _)

theorem bufByte_blindLud (b i : ℕ) : Blind (Volume.withLud lud) (bufByte b i) := .reads fun _ => rfl

theorem bufBytes_blindLud (b i n : ℕ) : Blind (Volume.withLud lud) (bufBytes b i n) := .reads fun _ => rfl

theorem vFatRead_blindLud (n fatNum : ℕ) : Blind (Volume.withLud lud) (vFatRead n fatNum) := by
  refine .bind_state (fun _ => rfl) fun v => ?_
  cases v.geo.fatType with
  | fat12 =>
    refine .bind (fatSeek_blindLud _ _ _) fun r => .bind_state (fun _ => rfl) fun v => .bind (onCache_blindLud _) fun b => ?_
    refine .ite (.bind (bufByte_blindLud _ _) fun _ => .bind (bufByte_blindLud _ _) fun _ => .pure _) ?_
    exact .bind (onCache_blindLud _) fun _ => .bind (bufByte_blindLud _ _) fun _ => .bind (bufByte_blindLud _ _) fun _ => .pure _
  | fat16 =>
    exact .bind (fatSeek_blindLud _ _ _) fun r => .bind (onCache_blindLud _) fun b =>
      .bind (bufByte_blindLud _ _) fun _ => .bind (bufByte_blindLud _ _) fun _ => .pure _
  | fat32 =>
    exact .bind (fatSeek_blindLud _ _ _) fun r => .bind (onCache_blindLud _) fun b =>
      .bind (bufBytes_blindLud _ _ _) fun _ => .pure _

theorem readFatEntry_blindLud (n : ℕ) : Blind (Volume.withLud lud) (readFatEntry n) :=
  .bind_state (fun _ => rfl) fun _ => vFatRead_blindLud _ _

theorem walkChain_blindLud (c k : ℕ) : Blind (Volume.withLud lud) (walkChain c k) := by
  induction k with
  | zero => exact .pure true
  | succ k ih =>
    exact .bind_state (fun _ => rfl) fun v => .bind (readFatEntry_blindLud _) fun nc =>
      .ite (.pure false) (.ite (.fail _) (.bind (.update fun _ => rfl) fun _ => ih))

theorem fatGetFileSector_blindLud (c sectorIndex : ℕ) : Blind (Volume.withLud lud) (fatGetFileSector c sectorIndex) := by
  refine .bind_state (fun _ => rfl) fun v => ?_
  refine .ite (.ite (.pure _) (.pure _)) (.ite (.pure _) (.bind (.when (.update fun _ => rfl)) fun _ => ?_))
  exact .bind_state (fun _ => rfl) fun w => .bind (walkChain_blindLud _ _) fun found =>
    .ite (.bind_state (fun _ => rfl) fun _ => .pure _) (.pure _)

theorem readLoop_blindLud (c size fuel k offset : ℕ) (b : Option ℕ) :
    Blind (Volume.withLud lud) (readLoop c size fuel k offset b) := by
  induction fuel generalizing k offset b with
  | zero => exact .pure []
  | succ fuel ih =>
    refine .bind_state (fun _ => rfl) fun v => .ite (.pure _) (.bind (fatGetFileSector_blindLud _ _) fun sector => ?_)
    cases sector with
    | none => exact .pure []
    | some sector =>
      exact .bind (onCache_blindLud _) fun r => .bind (bufBytes_blindLud _ _ _) fun bytes => .bind (ih _ _ _) fun rest => .pure _

theorem fatRead_blindLud (c size : ℕ) : Blind (Volume.withLud lud) (fatRead c size) := by
  refine .bind_state (fun _ => rfl) fun v => .ite (.fail _) (.bind (readLoop_blindLud _ _ _ _ _ _) fun bytes => ?_)
  refine .bind_state (fun _ => rfl) fun w => .bind (.when ?_) fun _ => .bind (.update fun _ => rfl) fun _ => .pure _
  exact .bind (.bind_state (fun _ => rfl) fun _ => .bind (.update fun _ => rfl) fun _ => .pure _) fun now => .update fun _ => rfl

end Blindness

/-- The entries that a call passes over, and the short entry that ends them. -/
def gather (c : ℕ) : ℕ → FatM (List Direntry × Direntry)
  | 0 => Prog.diverge
  | fuel + 1 => do
    let bytes ← fatRead c 32
    if bytes = [] then Prog.fail .enmfile
    else if bytes.length ≠ 32 then Prog.fail .eftype
    else if bytes.head? = some fatEndofdir then Prog.fail .enmfile
    else if (Direntry.ofBytes bytes).isShort then pure ([], Direntry.ofBytes bytes)
    else
      let (des, de) ← gather c fuel
      pure (Direntry.ofBytes bytes :: des, de)

theorem fatRead_pointer {c size : ℕ} {v w : Volume} {bytes : List UInt8} (h : (fatRead c size).run v = (.ok bytes, w)) :
    (w.channels c).filePointer = (v.channels c).filePointer + bytes.length := by
  rw [fatRead, run_bind_state] at h
  dsimp only at h
  split at h
  · cases h
  · rw [run_bind] at h
    rcases hl : (readLoop c size size 0 (v.channels c).filePointer none).run v with ⟨bs | e | _, x⟩ <;> rw [hl] at h
    · dsimp only at h
      rw [run_bind_state, run_bind] at h
      split at h
      · cases h
        exact congrArg Channel.filePointer (Volume.setChannel_self _ _ _)
      · cases h
      · cases h
    · cases h
    · cases h

theorem gather_pointer {c fuel : ℕ} {v w : Volume} {des : List Direntry} {de : Direntry}
    (h : (gather c fuel).run v = (.ok (des, de), w)) :
    (w.channels c).filePointer = (v.channels c).filePointer + 32 * (des.length + 1) := by
  induction fuel generalizing v des with
  | zero => cases h
  | succ fuel ih =>
    rw [gather, run_bind] at h
    rcases hr : (fatRead c 32).run v with ⟨bytes | e | _, x⟩ <;> rw [hr] at h
    · have hp := fatRead_pointer hr
      dsimp only at h
      split at h
      · cases h
      · split at h
        · cases h
        · next hlen =>
          rw [not_not.mp hlen] at hp
          split at h
          · cases h
          · split at h
            · cases h
              exact hp
            · rw [run_bind] at h
              rcases hg : (gather c fuel).run x with ⟨⟨des', de'⟩ | e | _, y⟩ <;> rw [hg] at h
              · cases h
                have hrest := ih hg
                rw [hrest, hp]
                simp only [List.length_cons]
                omega
              · cases h
              · cases h
    · cases h
    · cases h

/-- What `fetch_lfn` makes of the slots of a list: it is done, or goes on with the order, the half of a pair
and the name that it has come to. -/
def walkSlots (checksum : ℕ) : List Direntry → ℕ → Option ℕ → List ℕ →
    Except Errno (ℕ × List ℕ) ⊕ ℕ × Option ℕ × List ℕ
  | [], order, semi, lfn => .inr (order, semi, lfn)
  | slot :: slots, order, semi, lfn =>
    if slot.attr ≠ fatALfn ∨ order ≠ (slot 0).toNat &&& 0x1F ∨ checksum ≠ (slot 13).toNat then .inl (.ok (0, []))
    else
      match fetchUnits (lfnChars.map (get16 slot)) semi lfn with
      | .error e => .inl (.error e)
      | .ok (semi, lfn) =>
        if (slot 0).toNat &&& 0x40 ≠ 0 then .inl (.ok (order, lfn)) else walkSlots checksum slots (order + 1) semi lfn

variable {checksum fuel order k fp c : ℕ} {cde cde' : ℕ → Direntry} {slots des : List Direntry} {d e de : Direntry}
  {semi : Option ℕ} {lfn : List ℕ} {L L' : LookupData} {v w : Volume}

theorem get16_eq (h : d.toBytes = e.toBytes) {o : ℕ} (ho : o + 1 < 32) : get16 d o = get16 e o := by
  rw [get16, get16, toBytes_eq h (by omega), toBytes_eq h ho]

theorem lfnUnits_eq (h : d.toBytes = e.toBytes) : lfnChars.map (get16 d) = lfnChars.map (get16 e) := by
  refine List.map_congr_left fun o ho => get16_eq h ?_
  have hall : ∀ o ∈ lfnChars, o + 1 < 32 := by decide
  exact hall o ho

theorem fetchSlots_walk (hlen : slots.length ≤ k)
    (hring : ∀ i d, slots[i]? = some d → (cde (k - 1 - i)).toBytes = d.toBytes) :
    fetchSlots fp checksum cde (fuel + slots.length) order k semi lfn = match walkSlots checksum slots order semi lfn with
      | .inl r => r
      | .inr (order, semi, lfn) => fetchSlots fp checksum cde fuel order (k - slots.length) semi lfn := by
  induction slots generalizing order k semi lfn with
  | nil => rfl
  | cons d slots ih =>
    have hd : (cde (k - 1)).toBytes = d.toBytes := hring 0 d rfl
    have hk : k ≠ 0 := fun h0 => absurd (h0 ▸ hlen) (Nat.not_succ_le_zero _)
    have hrest : ∀ i e, slots[i]? = some e → (cde (k - 1 - 1 - i)).toBytes = e.toBytes := fun i e he => by
      rw [Nat.sub_right_comm k 1 1, Nat.sub_sub (k - 1), Nat.add_comm 1 i]
      exact hring (i + 1) e he
    have h0 : cde (k - 1) 0 = d 0 := toBytes_eq hd (by decide)
    have h11 : (cde (k - 1)).attr = d.attr := toBytes_eq hd (by decide)
    have h13 : cde (k - 1) 13 = d 13 := toBytes_eq hd (by decide)
    rw [List.length_cons, ← Nat.add_assoc, fetchSlots, if_neg fun h => hk h.1, walkSlots]
    simp only [if_neg hk, h0, h11, h13, lfnUnits_eq hd]
    split
    · rfl
    · cases fetchUnits (lfnChars.map (get16 d)) semi lfn with
      | error e => rfl
      | ok r =>
        obtain ⟨semi, lfn⟩ := r
        dsimp only
        split
        · rfl
        · rw [ih (k := k - 1) (by simp only [List.length_cons] at hlen; omega) hrest, Nat.sub_sub, Nat.add_comm 1]

theorem fetchSlots_congr (h : ∀ j < 21, (cde j).toBytes = (cde' j).toBytes) (hk : k ≤ 20) :
    fetchSlots fp checksum cde fuel order k semi lfn = fetchSlots fp checksum cde' fuel order k semi lfn := by
  induction fuel generalizing order k semi lfn with
  | zero => rfl
  | succ fuel ih =>
    rw [fetchSlots, fetchSlots]
    dsimp only
    have hpos : (if k = 0 then lfnFetchSlots else k) - 1 < 21 := by
      split
      · decide
      · omega
    generalize (if k = 0 then lfnFetchSlots else k) - 1 = j at hpos ⊢
    have hd := h j hpos
    have h0 : cde j 0 = cde' j 0 := toBytes_eq hd (by decide)
    have h11 : (cde j).attr = (cde' j).attr := toBytes_eq hd (by decide)
    have h13 : cde j 13 = cde' j 13 := toBytes_eq hd (by decide)
    rw [h0, h11, h13, lfnUnits_eq hd]
    split
    · rfl
    · split
      · rfl
      · cases fetchUnits (lfnChars.map (get16 (cde' j))) semi lfn with
        | error e => rfl
        | ok r =>
          dsimp only
          rw [ih (Nat.le_of_lt_succ hpos)]

namespace LookupData

theorem fetchAll_concat (des : List Direntry) (e : Direntry) (L : LookupData) :
    L.fetchAll (des ++ [e]) = ((L.fetchAll des).fetch e).advance := by
  rw [fetchAll, List.foldl_append]
  rfl

theorem fetch_cde (j : ℕ) (e : Direntry) (L : LookupData) :
    (L.fetch e).cde j = if j = L.cdePos then overlay 0 e.toBytes (L.cde j) else L.cde j := rfl

theorem fetch_bytes (e : Direntry) (L : LookupData) : ((L.fetch e).cde L.cdePos).toBytes = e.toBytes :=
  fetch_current e L

theorem fetchAll_agree (h : L.cdePos = 0) (h' : L'.cdePos = 0) (des : List Direntry) :
    ∀ j < des.length, j < 21 → ((L.fetchAll des).cde j).toBytes = ((L'.fetchAll des).cde j).toBytes := by
  induction des using List.reverseRecOn with
  | nil => exact fun j hj => absurd hj (Nat.not_lt_zero j)
  | append_singleton des e ih =>
    intro j hj hj'
    rw [List.length_append, List.length_singleton] at hj
    have hpos := (fetchAll_ring des h).1
    have hpos' := (fetchAll_ring des h').1
    rw [fetchAll_concat, fetchAll_concat]
    change (((L.fetchAll des).fetch e).cde j).toBytes = (((L'.fetchAll des).fetch e).cde j).toBytes
    by_cases hcur : j = des.length % 21
    · rw [hcur, ← hpos, fetch_bytes, hpos, ← hpos', fetch_bytes]
    · rw [fetch_cde, fetch_cde, hpos, hpos', if_neg hcur, if_neg hcur]
      exact ih j (by omega) hj'

theorem fetchAll_small (h : L.cdePos = 0) (des : List Direntry) (hlen : des.length ≤ 20) :
    (L.fetchAll des).cdePos = des.length ∧ (∀ j d, des[j]? = some d → ((L.fetchAll des).cde j).toBytes = d.toBytes) ∧
      ∀ j, des.length ≤ j → (L.fetchAll des).cde j = L.cde j := by
  obtain ⟨hpos, hring⟩ := fetchAll_ring des h
  refine ⟨hpos.trans (Nat.mod_eq_of_lt (Nat.lt_succ_of_le hlen)), fun j d hd => ?_, ?_⟩
  · have hj : j < des.length := (List.getElem?_eq_some_iff.mp hd).1
    have hback : des.length - 1 - (des.length - 1 - j) = j := by omega
    have hat := hring (des.length - 1 - j) (by omega) (by omega) d (by rw [hback]; exact hd)
    rwa [hback, Nat.mod_eq_of_lt (by omega)] at hat
  · clear hpos hring
    induction des using List.reverseRecOn with
    | nil => exact fun j _ => rfl
    | append_singleton des e ih =>
      intro j hj
      rw [List.length_append, List.length_singleton] at hj hlen
      have hpos := (fetchAll_ring des h).1
      rw [Nat.mod_eq_of_lt (by omega)] at hpos
      rw [fetchAll_concat]
      change ((L.fetchAll des).fetch e).cde j = _
      rw [fetch_cde, hpos, if_neg (by omega)]
      exact ih (by omega) j (by omega)

end LookupData

/-- What a call that succeeds tells of an entry. -/
structure Listing where
  sfn : List ℕ
  lfn : List ℕ
  lfnEntries : ℕ
  deSector : ℕ
  deSecofs : ℕ
  deDirofs : ℕ
  deriving DecidableEq

def listing (r : Outcome Errno Unit × Volume) : Outcome Errno Listing :=
  match r.1 with
  | .ok () => .ok ⟨r.2.lud.sfn, r.2.lud.lfn, r.2.lud.lfnEntries, r.2.lud.deSector, r.2.lud.deSecofs, r.2.lud.deDirofs⟩
  | .error e => .error e
  | .hang => .hang

/-- The result does not depend on what the lookups before have left. -/
def NoLeak (c : ℕ) (v : Volume) : Prop :=
  ∀ L L', listing ((fatDoReaddir c).run (v.withLud L)) = listing ((fatDoReaddir c).run (v.withLud L'))

/-- The call reads fewer slots than the ring has, at 21 slots or more from the start of the directory, and all of those
before the short entry are parts of its long name, none of which is the last. -/
def Leaks (c : ℕ) (v : Volume) : Prop :=
  hasAttr (v.files (v.channels c).f).de.attr fatADir = true ∧
    ∃ des de w, (gather c v.geo.loopBound).run v = (.ok (des, de), w) ∧ des.length < 20 ∧
      lfnFetchSlots * 32 ≤ (v.channels c).filePointer + 32 * (des.length + 1) ∧
      ∃ r, walkSlots (lfnChecksum de.name % 256) des.reverse 1 none [] = .inr r

theorem toBytes_ofBytes {bytes : List UInt8} (h : bytes.length = 32) : (Direntry.ofBytes bytes).toBytes = bytes := by
  refine List.ext_getElem (by rw [length_toBytes, h]) fun i h1 h2 => ?_
  simp [Direntry.toBytes, Direntry.ofBytes, List.getD_eq_getElem?_getD, h2]

theorem readdirLoop_gather (c fuel : ℕ) (L : LookupData) (v : Volume) :
    (∃ des de w, (gather c fuel).run v = (.ok (des, de), w) ∧
      (readdirLoop c fuel).run (v.withLud L) = (readShort c).run (w.withLud ((L.fetchAll des).fetch de))) ∨
    (∃ e w L', (gather c fuel).run v = (.error e, w) ∧ (readdirLoop c fuel).run (v.withLud L) = (.error e, w.withLud L')) ∨
    ∃ w L', (gather c fuel).run v = (.hang, w) ∧ (readdirLoop c fuel).run (v.withLud L) = (.hang, w.withLud L') := by
  induction fuel generalizing v L with
  | zero => exact .inr (.inr ⟨v, L, rfl, rfl⟩)
  | succ fuel ih =>
    have hread : (fatRead c 32).run (v.withLud L) =
        (((fatRead c 32).run v).1, ((fatRead c 32).run v).2.withLud L) := fatRead_blindLud c 32 v
    rw [gather, readdirLoop, run_bind, run_bind, hread]
    rcases (fatRead c 32).run v with ⟨bytes | e | _, x⟩
    · dsimp only
      rw [run_bind_update]
      by_cases h0 : bytes = []
      · rw [if_pos h0, if_pos h0]
        exact .inr (.inl ⟨_, _, _, rfl, rfl⟩)
      · rw [if_neg h0, if_neg h0]
        by_cases hlen : bytes.length ≠ 32
        · rw [if_pos hlen, if_pos hlen]
          exact .inr (.inl ⟨_, _, _, rfl, rfl⟩)
        · rw [if_neg hlen, if_neg hlen]
          by_cases hend : bytes.head? = some fatEndofdir
          · rw [if_pos hend, if_pos hend]
            exact .inr (.inl ⟨_, _, _, rfl, rfl⟩)
          · rw [if_neg hend, if_neg hend]
            have hbytes := toBytes_ofBytes (not_not.mp hlen)
            have hfetch : (x.withLud L).setLud (fun lud => lud.setCde lud.cdePos (overlay 0 bytes)) =
                x.withLud (L.fetch (Direntry.ofBytes bytes)) := by
              rw [LookupData.fetch, hbytes]
              rfl
            rw [hfetch]
            by_cases hshort : (Direntry.ofBytes bytes).isShort = true
            · rw [if_pos hshort, if_pos hshort]
              exact .inl ⟨[], Direntry.ofBytes bytes, x, rfl, rfl⟩
            · rw [if_neg hshort, if_neg hshort, run_bind_update]
              have hadv : (x.withLud (L.fetch (Direntry.ofBytes bytes))).setLud (fun lud => { lud with
                  cdePos := if lud.cdePos + 1 = lfnFetchSlots then 0 else lud.cdePos + 1 }) =
                  x.withLud (L.fetch (Direntry.ofBytes bytes)).advance := rfl
              rw [hadv]
              rcases ih (L.fetch (Direntry.ofBytes bytes)).advance x with ⟨des, de, w, hg, hr⟩ | ⟨e, w, L', hg, hr⟩ | ⟨w, L', hg, hr⟩
              · refine .inl ⟨Direntry.ofBytes bytes :: des, de, w, ?_, hr⟩
                rw [run_bind_ok hg]
                rfl
              · exact .inr (.inl ⟨e, w, L', run_bind_error hg, hr⟩)
              · refine .inr (.inr ⟨w, L', ?_, hr⟩)
                rw [run_bind, hg]
    · exact .inr (.inl ⟨e, x, L, rfl, rfl⟩)
    · exact .inr (.inr ⟨x, L, rfl, rfl⟩)

/-- The part of the result that only the names in the ring decide. -/
def namesOf (r : Except Errno (ℕ × List ℕ)) (name : List UInt8) : Except Errno (ℕ × List ℕ × List ℕ) :=
  match r with
  | .error e => .error e
  | .ok (entries, lfn) => (expandFcbName name).map fun sfn => (entries, lfn, sfn)

theorem listing_readShort (M : LookupData) (w : Volume) :
    listing ((readShort c).run (w.withLud M)) =
      match namesOf (fetchLfn (w.channels c).filePointer M) (M.cde M.cdePos).name with
      | .error e => .error e
      | .ok (entries, lfn, sfn) => .ok ⟨sfn, lfn, entries, (direntryLocation c w).lud.deSector,
          (direntryLocation c w).lud.deSecofs, (direntryLocation c w).lud.deDirofs⟩ := by
  have hlfn : fetchLfn ((w.withLud M).channels c).filePointer (w.withLud M).lud = fetchLfn (w.channels c).filePointer M := rfl
  have hsfn : expandFcbName ((w.withLud M).lud.cde (w.withLud M).lud.cdePos).name = expandFcbName (M.cde M.cdePos).name := rfl
  rw [readShort, run_bind_state, hlfn]
  cases fetchLfn (w.channels c).filePointer M with
  | error e => rfl
  | ok r =>
    obtain ⟨entries, lfn⟩ := r
    dsimp only
    rw [run_bind_update, hsfn, namesOf]
    cases expandFcbName (M.cde M.cdePos).name with
    | error e => rfl
    | ok sfn => rfl

/-- The ring when the short entry has been read. -/
def taken (L : LookupData) (des : List Direntry) (de : Direntry) : LookupData :=
  (({ L with cdePos := 0 } : LookupData).fetchAll des).fetch de

theorem taken_pos (L : LookupData) (des : List Direntry) (de : Direntry) : (taken L des de).cdePos = des.length % 21 :=
  (fetchAll_ring des rfl).1

theorem taken_name (L : LookupData) (des : List Direntry) (de : Direntry) :
    ((taken L des de).cde (taken L des de).cdePos).name = de.name := name_eq (fetch_current de _)

theorem fetchLfn_taken (L : LookupData) (des : List Direntry) (de : Direntry) : fetchLfn fp (taken L des de) =
    fetchSlots fp (lfnChecksum de.name % 256) (taken L des de).cde 32 1 (des.length % 21) none [] := by
  rw [fetchLfn, taken_name, taken_pos]

/-- With 21 entries read the ring has nothing old in it. -/
theorem fetchLfn_full (L L' : LookupData) (hlen : 20 ≤ des.length) : fetchLfn fp (taken L des de) = fetchLfn fp (taken L' des de) := by
  rw [fetchLfn_taken, fetchLfn_taken]
  refine fetchSlots_congr (fun j hj => ?_) (Nat.le_of_lt_succ (Nat.mod_lt _ (by decide)))
  have hagree : ∀ j < (des ++ [de]).length, j < 21 →
      ((({ L with cdePos := 0 } : LookupData).fetchAll (des ++ [de])).cde j).toBytes =
        ((({ L' with cdePos := 0 } : LookupData).fetchAll (des ++ [de])).cde j).toBytes := LookupData.fetchAll_agree rfl rfl _
  have h := hagree j (by simp only [List.length_append, List.length_singleton]; omega) hj
  rwa [LookupData.fetchAll_concat, LookupData.fetchAll_concat] at h

/-- With fewer, `fetch_lfn` comes to the last slot of the ring when it is not done before. -/
theorem fetchLfn_short (L : LookupData) (hlen : des.length < 20) : fetchLfn fp (taken L des de) =
    match walkSlots (lfnChecksum de.name % 256) des.reverse 1 none [] with
    | .inl r => r
    | .inr (order, semi, lfn) =>
      fetchSlots fp (lfnChecksum de.name % 256) (taken L des de).cde (32 - des.length) order 0 semi lfn := by
  have hmod : des.length % 21 = des.length := Nat.mod_eq_of_lt (by omega)
  have hfuel : 32 = 32 - des.length + des.reverse.length := by rw [List.length_reverse]; omega
  rw [fetchLfn_taken, hmod]
  conv_lhs => rw [hfuel]
  rw [fetchSlots_walk (by rw [List.length_reverse]), List.length_reverse, Nat.sub_self]
  intro i d hd
  have hi : i < des.length := by
    have := (List.getElem?_eq_some_iff.mp hd).1
    rwa [List.length_reverse] at this
  rw [List.getElem?_reverse hi] at hd
  have hne : des.length - 1 - i ≠ ((({ L with cdePos := 0 } : LookupData).fetchAll des)).cdePos := by
    rw [(fetchAll_ring des rfl).1, hmod]
    omega
  rw [taken, LookupData.fetch_cde, if_neg hne]
  exact (LookupData.fetchAll_small rfl des (Nat.le_of_lt hlen)).2.1 _ _ hd

theorem taken_last (L : LookupData) (hlen : des.length < 20) : (taken L des de).cde 20 = L.cde 20 := by
  obtain ⟨hpos, -, hnew⟩ := LookupData.fetchAll_small (L := { L with cdePos := 0 }) rfl des (Nat.le_of_lt hlen)
  rw [taken, LookupData.fetch_cde, hpos, if_neg (by omega)]
  exact hnew 20 (Nat.le_of_lt hlen)

theorem walkSlots_order {r : ℕ × Option ℕ × List ℕ} (h : walkSlots checksum slots order semi lfn = .inr r) :
    r.1 = order + slots.length := by
  induction slots generalizing order semi lfn with
  | nil =>
    cases h
    rfl
  | cons d slots ih =>
    rw [walkSlots] at h
    split at h
    · cases h
    · split at h
      · cases h
      · split at h
        · cases h
        · rw [ih h, List.length_cons, Nat.add_assoc, Nat.add_comm 1]

/-- A slot that an earlier lookup may have left: it goes on with a name after `n` slots, in units that are no UTF-16. -/
def staleSlot (n checksum : ℕ) : Direntry := fun i =>
  if i = 0 then UInt8.ofNat (n + 1) else if i = 2 ∨ i = 4 then 0xD8 else if i = 11 then 0x0F
  else if i = 13 then UInt8.ofNat checksum else 0

theorem fetchUnits_surrogates (us : List ℕ) (semi : Option ℕ) (lfn : List ℕ) :
    fetchUnits (0xD800 :: 0xD800 :: us) semi lfn = .error .eilseq := by
  cases semi <;> rfl

theorem fetchSlots_wrap (hfp : lfnFetchSlots * 32 ≤ fp) : fetchSlots fp checksum cde (fuel + 1) order 0 semi lfn =
    if (cde 20).attr ≠ fatALfn ∨ order ≠ (cde 20 0).toNat &&& 0x1F ∨ checksum ≠ (cde 20 13).toNat then .ok (0, [])
    else
      match fetchUnits (lfnChars.map (get16 (cde 20))) semi lfn with
      | .error e => .error e
      | .ok (semi, lfn) =>
        if (cde 20 0).toNat &&& 0x40 ≠ 0 then .ok (order, lfn) else fetchSlots fp checksum cde fuel (order + 1) 20 semi lfn := by
  rw [fetchSlots, if_neg fun h => absurd h.2 (Nat.not_lt.mpr hfp)]
  rfl

theorem fetchSlots_start (hfp : fp < lfnFetchSlots * 32) :
    fetchSlots fp checksum cde (fuel + 1) order 0 semi lfn = .ok (0, []) := by
  rw [fetchSlots, if_pos ⟨rfl, hfp⟩]

theorem fetchSlots_stale (hn : order ≤ 20) (h0 : 0 < order) (hc : checksum < 256) (hfp : lfnFetchSlots * 32 ≤ fp)
    (hcde : cde 20 = staleSlot (order - 1) checksum) :
    fetchSlots fp checksum cde (fuel + 1) order 0 semi lfn = .error .eilseq := by
  have horder : order = (staleSlot (order - 1) checksum 0).toNat &&& 0x1F := by
    have hall : ∀ n ≤ 20, n = (UInt8.ofNat n).toNat &&& 0x1F := by decide
    have hsub : order - 1 + 1 = order := Nat.succ_pred_eq_of_pos h0
    rw [staleSlot, if_pos rfl, hsub]
    exact hall order hn
  have hsum : checksum = (staleSlot (order - 1) checksum 13).toNat := by
    change checksum = (UInt8.ofNat checksum).toNat
    rw [UInt8.toNat_ofNat', Nat.mod_eq_of_lt hc]
  have hunits : lfnChars.map (get16 (staleSlot (order - 1) checksum)) =
      0xD800 :: 0xD800 :: (lfnChars.drop 2).map (get16 (staleSlot (order - 1) checksum)) := by
    have h1 : get16 (staleSlot (order - 1) checksum) 1 = 0xD800 := by simp [get16, staleSlot]
    have h3 : get16 (staleSlot (order - 1) checksum) 3 = 0xD800 := by simp [get16, staleSlot]
    rw [← h1, lfnChars, List.map_cons, List.map_cons, h3, h1]
    rfl
  rw [fetchSlots_wrap hfp, hcde, if_neg, hunits, fetchUnits_surrogates]
  rintro (h | h | h)
  · exact h rfl
  · exact h horder
  · exact h hsum

theorem fetchSlots_blank (hfp : lfnFetchSlots * 32 ≤ fp) (hcde : cde 20 = fun _ => 0) :
    fetchSlots fp checksum cde (fuel + 1) order 0 semi lfn = .ok (0, []) := by
  rw [fetchSlots_wrap hfp, hcde]
  exact if_pos (.inl (by decide))

theorem namesOf_ne_eilseq (entries : ℕ) (lfn : List ℕ) (name : List UInt8) : namesOf (.ok (entries, lfn)) name ≠ .error .eilseq := by
  rw [namesOf, expandFcbName]
  split <;> simp [Except.map]

theorem withLud_setLud (L : LookupData) (g : LookupData → LookupData) (v : Volume) :
    (v.withLud L).setLud g = v.withLud (g L) := rfl

theorem listing_gather (hdir : hasAttr (v.files (v.channels c).f).de.attr fatADir = true) {r : Outcome Errno (List Direntry × Direntry)}
    (hrun : (gather c v.geo.loopBound).run v = (r, w)) (L : LookupData) :
    listing ((fatDoReaddir c).run (v.withLud L)) = match r with
      | .ok (des, de) => listing ((readShort c).run (w.withLud (taken L des de)))
      | .error e => .error e
      | .hang => .hang := by
  have hnot : ¬hasAttr ((v.withLud L).files ((v.withLud L).channels c).f).de.attr fatADir = false := by
    rw [Bool.not_eq_false]
    exact hdir
  rw [fatDoReaddir, run_bind_state, if_neg hnot, run_bind_update, withLud_setLud]
  change listing ((readdirLoop c v.geo.loopBound).run _) = _
  rcases readdirLoop_gather c v.geo.loopBound { L with cdePos := 0 } v with
    ⟨des, de, x, hg, hr⟩ | ⟨e, x, L', hg, hr⟩ | ⟨x, L', hg, hr⟩
  · cases hrun.symm.trans hg
    rw [hr]
    rfl
  · cases hrun.symm.trans hg
    rw [hr]
    rfl
  · cases hrun.symm.trans hg
    rw [hr]
    rfl

theorem listing_taken (L : LookupData) (des : List Direntry) (de : Direntry) (w : Volume) :
    listing ((readShort c).run (w.withLud (taken L des de))) =
      match namesOf (fetchLfn (w.channels c).filePointer (taken L des de)) de.name with
      | .error e => .error e
      | .ok (entries, lfn, sfn) => .ok ⟨sfn, lfn, entries, (direntryLocation c w).lud.deSector,
          (direntryLocation c w).lud.deSecofs, (direntryLocation c w).lud.deDirofs⟩ := by
  rw [listing_readShort, taken_name]

/-- The names are the same whatever the ring had before, unless it is come to. -/
theorem fetchLfn_same (L L' : LookupData)
    (h : ¬(des.length < 20 ∧ lfnFetchSlots * 32 ≤ fp ∧ ∃ r, walkSlots (lfnChecksum de.name % 256) des.reverse 1 none [] = .inr r)) :
    fetchLfn fp (taken L des de) = fetchLfn fp (taken L' des de) := by
  by_cases hlen : des.length < 20
  · rw [fetchLfn_short L hlen, fetchLfn_short L' hlen]
    cases hw : walkSlots (lfnChecksum de.name % 256) des.reverse 1 none [] with
    | inl r => rfl
    | inr r =>
      obtain ⟨order, semi, lfn⟩ := r
      have hfp : fp < lfnFetchSlots * 32 := by
        by_contra hfp
        exact h ⟨hlen, Nat.not_lt.mp hfp, _, hw⟩
      obtain ⟨n, hn⟩ : ∃ n, 32 - des.length = n + 1 := ⟨31 - des.length, by omega⟩
      simp only [hn, fetchSlots_start hfp]
  · exact fetchLfn_full L L' (Nat.not_lt.mp hlen)

/-- Where it is come to, it makes a difference. -/
theorem fetchLfn_differs (hlen : des.length < 20) (hfp : lfnFetchSlots * 32 ≤ fp) {r : ℕ × Option ℕ × List ℕ}
    (hw : walkSlots (lfnChecksum de.name % 256) des.reverse 1 none [] = .inr r) (L : LookupData) :
    fetchLfn fp (taken { L with cde := fun _ => staleSlot des.length (lfnChecksum de.name % 256) } des de) = .error .eilseq ∧
      fetchLfn fp (taken { L with cde := fun _ _ => 0 } des de) = .ok (0, []) := by
  obtain ⟨order, semi, lfn⟩ := r
  have horder : order = des.length + 1 := by
    have := walkSlots_order hw
    rw [List.length_reverse] at this
    omega
  obtain ⟨n, hn⟩ : ∃ n, 32 - des.length = n + 1 := ⟨31 - des.length, by omega⟩
  rw [fetchLfn_short _ hlen, fetchLfn_short _ hlen, hw, horder, hn]
  constructor
  · refine fetchSlots_stale (by omega) (Nat.succ_pos _) (Nat.mod_lt _ (by decide)) hfp ?_
    rw [taken_last _ hlen]
    rfl
  · exact fetchSlots_blank hfp (taken_last _ hlen)

/-- A root directory of 32 entries, of which the one numbered 20 is of a file `A`. -/
def longFloppy : Volume :=
  freshVolume { floppyGeometry with rootSize := 2, dataStart := 5 } quietEnv
    (fun s i => if s = 1 ∨ s = 2 then [0xF8, 0xFF, 0xFF].getD i 0
      else if s = 3 then 0xE5
      else if s = 4 ∧ 128 ≤ i ∧ i < 139 then (padded 11 [0x41]).getD (i - 128) 0 else 0) 10 6

/-- The last part of a long name `x` for the short name `A`. -/
def leftSlot : Direntry := fun i =>
  if i = 0 then 0x41 else if i = 1 then 0x78 else if i = 11 then 0x0F
  else if i = 13 then UInt8.ofNat (lfnChecksum (padded 11 [0x41])) else 0

end FreeDos32.Fat
