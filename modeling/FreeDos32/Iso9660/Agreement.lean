import FreeDos32.Iso9660.Names
import FreeDos32.Iso9660.Walk

namespace FreeDos32.Iso9660

open Kernel (dword)

/-- The search is at the place `p` of the disc and goes up to `limit`. -/
structure At (df : FindData) (p limit : ℕ) : Prop where
  secofs : df.currSecofs < bytesPerSector
  place : df.currSector * bytesPerSector + df.currSecofs = p
  left : (df.currSector + df.sectorsLeft) * bytesPerSector = limit

def InDisc (df : FindData) (v : Volume) : Prop := (df.currSector + df.sectorsLeft) * v.blocksPerSector < 2 ^ 32

variable {dev : Device} {f : File} {v v' : Volume} {p q o k fuel limit : ℕ} {ps ps' : List ℕ} {df df' : FindData}

section Turn

theorem InDisc.lt (h : InDisc df v) : df.currSector + df.sectorsLeft < 2 ^ 32 :=
  Nat.lt_of_le_of_lt (Nat.le_mul_of_pos_right _ (blocksPerSector_pos v)) h

theorem findnextLoop_end (h : df.sectorsLeft = 0) :
    findnextLoop dev (k + 1) df v = some (.error .enmfile, [], df, v) := by
  rw [findnextLoop, if_pos h]

variable (hh : Holds dev v) (hfault : ∀ j, dev.fault j = false) (hin : InDisc df v) (hleft : df.sectorsLeft ≠ 0)
include hh hfault hin

theorem readbuf_sector : ∃ v', readbuf dev (dword (df.currSector * 2 ^ v.logBlocksPerSector)) v = (.ok 0, v') ∧
    Holds dev v' ∧ v'.logBlockSize = v.logBlockSize ∧
      ∀ i < bytesPerSector, v'.buffer.data i = dev.disc (df.currSector * bytesPerSector + i) := by
  have hle : df.currSector * v.blocksPerSector ≤ (df.currSector + df.sectorsLeft) * v.blocksPerSector :=
    Nat.mul_le_mul_right _ (Nat.le_add_right _ _)
  have hblock : dword (df.currSector * 2 ^ v.logBlocksPerSector) = df.currSector * v.blocksPerSector :=
    Kernel.dword_of_lt (Nat.lt_of_le_of_lt hle hin)
  rw [hblock]
  obtain ⟨v', hread, hholds, hlog, hdata⟩ := readbuf_first hh hfault (Nat.mul_mod_left df.currSector v.blocksPerSector)
  rw [Nat.mul_assoc, blocksPerSector_mul_blockSize hh.size] at hdata
  exact ⟨v', hread, hholds, hlog, hdata⟩

include hleft

theorem findnextLoop_over (hk : 0 < k) (hover : bytesPerSector ≤ df.currSecofs) : findnextLoop dev k df v = none := by
  obtain ⟨k, rfl⟩ : ∃ m, k = m + 1 := ⟨k - 1, by omega⟩
  obtain ⟨v', hread, -, -, -⟩ := readbuf_sector hh hfault hin
  rw [findnextLoop, if_neg hleft, hread]
  dsimp only
  rw [Nat.zero_add, if_pos hover]

theorem findnextLoop_turn (k : ℕ) (hat : At df p limit) :
    ∃ v' dr, Holds dev v' ∧ v'.logBlockSize = v.logBlockSize ∧
      (dev.disc p = 0 → findnextLoop dev (k + 1) df v = findnextLoop dev k (df.endTurn true) v') ∧
      (RecordOk dev.disc p → (record dev.disc p).lenFi < 100 → findnextLoop dev (k + 1) df v =
        let df := { df with currSecofs := df.currSecofs + (record dev.disc p).lenDr }
        match selects df.searchTemplate df.searchAttr (record dev.disc p) with
        | .error e => some (.error e, [p], df, v')
        | .ok (some fcbname) => some (.ok (), [p], df.found dr fcbname, v')
        | .ok none => (findnextLoop dev k (df.endTurn false) v').map fun r => (r.1, p :: r.2.1, r.2.2)) := by
  obtain ⟨v', hread, hholds, hlog, hdata⟩ := readbuf_sector hh hfault hin
  have hsecofs := hat.secofs
  have hplace := hat.place
  have hbyte : ∀ i, df.currSecofs + i < bytesPerSector → v'.buffer.data (df.currSecofs + i) = dev.disc (p + i) := by
    intro i hi
    rw [hdata _ hi, ← Nat.add_assoc, hplace]
  have hzero := hbyte 0 hsecofs
  rw [Nat.add_zero, Nat.add_zero] at hzero
  refine ⟨v', record v'.buffer.data df.currSecofs, hholds, hlog, ?_, ?_⟩
  · intro hpad
    rw [findnextLoop, if_neg hleft, hread]
    dsimp only
    rw [Nat.zero_add, if_neg (by omega), hzero, hpad, if_pos rfl]
  · intro hr hid'
    have hid := hr.id
    have hsector := hr.sector
    have hmod : p % bytesPerSector = df.currSecofs := by
      rw [← hplace, Nat.mul_add_mod_self_right, Nat.mod_eq_of_lt hsecofs]
    rw [hmod] at hsector
    have hlenDr : (record v'.buffer.data df.currSecofs).lenDr = (record dev.disc p).lenDr := congrArg BitVec.toNat hzero
    have halike : Alike (record v'.buffer.data df.currSecofs) (record dev.disc p) := by
      constructor
      · exact congrArg BitVec.toNat (hbyte 25 (by omega))
      · exact congrArg BitVec.toNat (hbyte 32 (by omega))
      · intro i hi
        have hb := hbyte (33 + i) (by omega)
        rwa [← Nat.add_assoc, ← Nat.add_assoc] at hb
    have hfits : (record v'.buffer.data df.currSecofs).Fits df.currSecofs 100 := by
      rw [DirRecord.Fits, halike.lenFi]
      omega
    have hu16 : u16 (df.currSecofs + (record dev.disc p).lenDr) = df.currSecofs + (record dev.disc p).lenDr := by
      apply Nat.mod_eq_of_lt
      exact Nat.lt_of_le_of_lt hsector (by decide)
    rw [findnextLoop, if_neg hleft, hread]
    dsimp only
    rw [Nat.zero_add, if_neg (by omega), hzero, if_neg hr.pos, if_neg (not_not.mpr hfits), hlenDr, hu16, hplace]
    exact selects_congr halike (by omega) hr.version ▸ rfl

end Turn

section Place

theorem At.mod_eq (h : At df p limit) : p % bytesPerSector = df.currSecofs := by
  rw [← h.place, Nat.mul_add_mod_self_right, Nat.mod_eq_of_lt h.secofs]

theorem At.left_ne (h : At df p limit) (hp : p < limit) : df.sectorsLeft ≠ 0 := by
  intro hzero
  have hleft := h.left
  have hplace := h.place
  rw [hzero, Nat.add_zero] at hleft
  omega

theorem At.left_eq (h : At df p p) : df.sectorsLeft = 0 := by
  have hleft := h.left
  have hplace := h.place
  have hsecofs := h.secofs
  rw [Nat.add_mul] at hleft
  by_contra hne
  have hone : 1 * bytesPerSector ≤ df.sectorsLeft * bytesPerSector := Nat.mul_le_mul_right _ (Nat.pos_of_ne_zero hne)
  omega

variable (h : At df p limit) (hlt : df.currSector + df.sectorsLeft < 2 ^ 32) (hp : p < limit)
include h hlt hp

theorem endTurn_at {last : Bool} {n : ℕ} (hturn : bytesPerSector ≤ n ∨ last) :
    At ({ df with currSecofs := n }.endTurn last) ((p / bytesPerSector + 1) * bytesPerSector) limit := by
  have hne := h.left_ne hp
  have hsector : dword (df.currSector + 1) = df.currSector + 1 := Kernel.dword_of_lt (by omega)
  have hdiv : p / bytesPerSector = df.currSector := by
    rw [← h.place, Nat.mul_comm, Nat.mul_add_div (by decide), Nat.div_eq_of_lt h.secofs, Nat.add_zero]
  have hsum : df.currSector + 1 + (df.sectorsLeft - 1) = df.currSector + df.sectorsLeft := by omega
  rw [FindData.endTurn, if_pos hturn]
  constructor
  · exact (by decide : 0 < bytesPerSector)
  · dsimp only
    rw [hsector, hdiv, Nat.add_zero]
  · dsimp only
    rw [hsector, hsum, h.left]

theorem At.padding : At (df.endTurn true) ((p / bytesPerSector + 1) * bytesPerSector) limit :=
  endTurn_at h hlt hp (n := df.currSecofs) (.inr rfl)

omit hlt hp in
theorem At.stop {n : ℕ} (hn : p % bytesPerSector + n < bytesPerSector) :
    At { df with currSecofs := df.currSecofs + n } (p + n) limit := by
  rw [h.mod_eq] at hn
  refine ⟨hn, ?_, h.left⟩
  rw [← h.place, Nat.add_assoc]

theorem At.record {n : ℕ} (hn : p % bytesPerSector + n ≤ bytesPerSector) :
    At ({ df with currSecofs := df.currSecofs + n }.endTurn false) (p + n) limit := by
  by_cases hend : p % bytesPerSector + n = bytesPerSector
  · have hplace : p + n = (p / bytesPerSector + 1) * bytesPerSector := by
      rw [← sector_end]
      omega
    rw [hplace]
    apply endTurn_at h hlt hp
    left
    rw [← h.mod_eq, hend]
  · have hlt' : p % bytesPerSector + n < bytesPerSector := by omega
    have hnot : ¬(bytesPerSector ≤ df.currSecofs + n ∨ false = true) := by
      rw [← h.mod_eq]
      simpa using hlt'
    rw [FindData.endTurn, if_neg hnot]
    exact h.stop hlt'

end Place

section Run

variable {template : List Byte} {attr : ℕ}

/-- A call of `iso9660_findnext` ends with the record, as its name matches or cannot be converted. -/
def Stops (disc : ℕ → Byte) (template : List Byte) (attr q : ℕ) : Prop := selects template attr (record disc q) ≠ .ok none

structure LooksFor (df : FindData) (template : List Byte) (attr : ℕ) : Prop where
  template : df.searchTemplate = template
  attr : df.searchAttr = attr

def conclude (dev : Device) (fuel : ℕ) : Option (Except Errno Unit × List ℕ × FindData × Volume) → Option (List ℕ)
  | none => none
  | some (res, places, df, v) =>
    if res = .error .enmfile then some places else (findnexts dev fuel df v).map (places ++ ·)

theorem findnexts_succ (fuel : ℕ) : findnexts dev (fuel + 1) df v = conclude dev fuel (findnextLoop dev (2 ^ 28) df v) := by
  rw [findnexts, findnext]
  cases findnextLoop dev (2 ^ 28) df v <;> rfl

theorem conclude_map (x : Option (Except Errno Unit × List ℕ × FindData × Volume)) :
    conclude dev fuel (x.map fun r => (r.1, p :: r.2.1, r.2.2)) = (conclude dev fuel x).map (p :: ·) := by
  cases x with
  | none => rfl
  | some r =>
    obtain ⟨res, places, df, v⟩ := r
    dsimp only [Option.map_some, conclude]
    split
    · rfl
    · rw [Option.map_map]
      rfl

theorem endTurn_inDisc {last : Bool} {n : ℕ} (h : InDisc df v) (hlog : v'.logBlockSize = v.logBlockSize)
    (hleft : df.sectorsLeft ≠ 0) : InDisc ({ df with currSecofs := n }.endTurn last) v' := by
  have hsum := h.lt
  rw [InDisc, blocksPerSector_congr hlog]
  rw [FindData.endTurn]
  split
  · have hsector : dword (df.currSector + 1) = df.currSector + 1 := Kernel.dword_of_lt (by omega)
    dsimp only
    rw [hsector, show df.currSector + 1 + (df.sectorsLeft - 1) = df.currSector + df.sectorsLeft by omega]
    exact h
  · exact h

theorem endTurn_looksFor {last : Bool} {n : ℕ} (h : LooksFor df template attr) :
    LooksFor ({ df with currSecofs := n }.endTurn last) template attr := by
  rw [FindData.endTurn]
  split
  · exact ⟨h.template, h.attr⟩
  · exact ⟨h.template, h.attr⟩

theorem exists_cons_iff {P : ℕ → Prop} (hp : P p) :
    (∃ qs, ((∀ q ∈ ps, P q) ∧ qs = ps) ∧ ps' = p :: qs) ↔ (∀ q ∈ p :: ps, P q) ∧ ps' = p :: ps := by
  rw [List.forall_mem_cons]
  constructor
  · rintro ⟨qs, ⟨hall, rfl⟩, rfl⟩
    exact ⟨⟨hp, hall⟩, rfl⟩
  · rintro ⟨⟨-, hall⟩, rfl⟩
    exact ⟨ps, ⟨hall, rfl⟩, rfl⟩

/-- The call after one that has ended with a record goes on behind it, but not at the end of a sector. -/
theorem findnexts_behind {P : ℕ → Prop} (hfault : ∀ j, dev.fault j = false) (hh : Holds dev v) (hin : InDisc df' v)
    (hleft : df'.sectorsLeft ≠ 0) (hr : RecordOk dev.disc p) (hat : At df p limit)
    (hsecofs : df'.currSecofs = df.currSecofs + (record dev.disc p).lenDr) (hsector : df'.currSector = df.currSector)
    (hsectors : df'.sectorsLeft = df.sectorsLeft) (hp : P p ↔ (p + (record dev.disc p).lenDr) % bytesPerSector ≠ 0)
    (hrest : At df' (p + (record dev.disc p).lenDr) limit → ∀ qs,
      conclude dev fuel (findnextLoop dev (2 ^ 28) df' v) = some qs ↔ (∀ q ∈ ps, P q) ∧ qs = ps) :
    (findnexts dev (fuel + 1) df' v).map (p :: ·) = some ps' ↔ (∀ q ∈ p :: ps, P q) ∧ ps' = p :: ps := by
  have hmod := hat.mod_eq
  have hid := hr.id
  have hend := hr.sector
  rw [findnexts_succ]
  by_cases hzero : (p + (record dev.disc p).lenDr) % bytesPerSector = 0
  · have hover : bytesPerSector ≤ df'.currSecofs := by
      unfold bytesPerSector at *
      omega
    rw [findnextLoop_over hh hfault hin hleft (by decide) hover]
    exact iff_of_false (fun h => nomatch h) (fun h => hp.mp (h.1 p List.mem_cons_self) hzero)
  · have hlast : p % bytesPerSector + (record dev.disc p).lenDr < bytesPerSector := by
      unfold bytesPerSector at *
      omega
    have hat' := hat.stop hlast
    have hnext : At df' (p + (record dev.disc p).lenDr) limit := by
      constructor
      · rw [hsecofs]
        exact hat'.secofs
      · rw [hsector, hsecofs]
        exact hat'.place
      · rw [hsector, hsectors]
        exact hat'.left
    rw [map_cons_eq_some]
    simp only [hrest hnext]
    exact exists_cons_iff (hp.mpr hzero)

theorem conclude_laid (hfault : ∀ j, dev.fault j = false) (hl : Laid dev.disc limit p ps)
    (hlimit : limit % bytesPerSector = 0) (hid : ∀ q ∈ ps, (record dev.disc q).lenFi < 100) (hat : At df p limit)
    (hin : InDisc df v) (hlooks : LooksFor df template attr) (hh : Holds dev v) (hk : limit - p < k)
    (hfuel : limit - p ≤ fuel) (hbound : limit - p < 2 ^ 28) :
    conclude dev fuel (findnextLoop dev k df v) = some ps' ↔
      (∀ q ∈ ps, Stops dev.disc template attr q → (q + (record dev.disc q).lenDr) % bytesPerSector ≠ 0) ∧ ps' = ps := by
  obtain ⟨k, rfl⟩ : ∃ m, k = m + 1 := ⟨k - 1, by omega⟩
  induction hl generalizing df v k fuel ps' with
  | done =>
    rw [findnextLoop_end hat.left_eq]
    simp [conclude, eq_comm]
  | @record p ps hr hle hl ih =>
    have hrid := hr.id
    have hlt : p < limit := by omega
    have hleft := hat.left_ne hlt
    obtain ⟨v', dr, hh', hlog, -, hturn⟩ := findnextLoop_turn hh hfault hin hleft k hat
    rw [hturn hr (hid p List.mem_cons_self)]
    have hids : ∀ q ∈ ps, (record dev.disc q).lenFi < 100 := fun q hq => hid q (List.mem_cons_of_mem _ hq)
    have hstop : ∀ df₁ : FindData, df₁.currSecofs = df.currSecofs + (record dev.disc p).lenDr →
        df₁.currSector = df.currSector → df₁.sectorsLeft = df.sectorsLeft → LooksFor df₁ template attr →
        Stops dev.disc template attr p → ((findnexts dev fuel df₁ v').map ([p] ++ ·) = some ps' ↔
          (∀ q ∈ p :: ps, Stops dev.disc template attr q → (q + (record dev.disc q).lenDr) % bytesPerSector ≠ 0) ∧
            ps' = p :: ps) := by
      intro df₁ hsecofs hsector hsectors hlooks₁ hstops
      obtain ⟨fuel, rfl⟩ : ∃ m, fuel = m + 1 := ⟨fuel - 1, by omega⟩
      obtain ⟨m, hm⟩ : ∃ m, 2 ^ 28 = m + 1 := ⟨2 ^ 28 - 1, rfl⟩
      have hin₁ : InDisc df₁ v' := by
        rw [InDisc, hsector, hsectors, blocksPerSector_congr hlog]
        exact hin
      apply findnexts_behind hfault hh' hin₁ (by rwa [hsectors]) hr hat hsecofs hsector hsectors (forall_prop_of_true hstops)
      intro hat₁ qs
      rw [hm]
      exact @ih v' fuel qs df₁ hids hat₁ hin₁ hlooks₁ hh' (by omega) (by omega) m (by omega)
    dsimp only
    have htemplate := hlooks.template
    have hattr := hlooks.attr
    subst htemplate hattr
    cases hsel : selects df.searchTemplate df.searchAttr (record dev.disc p) with
    | error e =>
      have he := selects_error hsel
      subst he
      exact hstop _ rfl rfl rfl ⟨rfl, rfl⟩ (by rw [Stops, hsel]; exact fun h => nomatch h)
    | ok name => cases name with
      | some fcbname =>
        exact hstop _ rfl rfl rfl ⟨rfl, rfl⟩ (by rw [Stops, hsel]; exact fun h => nomatch h)
      | none =>
        obtain ⟨k, rfl⟩ : ∃ m, k = m + 1 := ⟨k - 1, by omega⟩
        have hrest (qs : List ℕ) := @ih v' fuel qs _ hids (hat.record hin.lt hlt hr.sector) (endTurn_inDisc hin hlog hleft)
          (endTurn_looksFor hlooks) hh' (by omega) (by omega) k (by omega)
        rw [conclude_map, map_cons_eq_some]
        simp only [hrest]
        exact exists_cons_iff fun hstops => absurd hsel hstops
  | @padding p ps hlt hzero hmod hl ih =>
    have hleft := hat.left_ne hlt
    obtain ⟨v', dr, hh', hlog, hturn, -⟩ := findnextLoop_turn hh hfault hin hleft k hat
    rw [hturn hzero]
    obtain ⟨k, rfl⟩ : ∃ m, k = m + 1 := ⟨k - 1, by omega⟩
    have hend := sector_end p
    have hpos := Nat.mod_lt p (show 0 < bytesPerSector by decide)
    rw [Nat.min_eq_right (sector_le hlimit hlt)] at ih
    exact @ih v' fuel ps' _ hid (hat.padding hin.lt hlt) (endTurn_inDisc hin hlog hleft) (endTurn_looksFor hlooks) hh' (by omega)
      (by omega) k (by omega)

end Run

section Bound

theorem readbuf_error {block : ℕ} {e : Errno} (h : (readbuf dev block v).1 = .error e) : e = .eio := by
  rw [readbuf] at h
  split at h
  · rw [fetch] at h
    split at h
    · next hfetch =>
      split at hfetch <;> cases hfetch
      cases h
      rfl
    · cases h
  · cases h

theorem endTurn_sum {last : Bool} {n : ℕ} (hlt : df.currSector + df.sectorsLeft < 2 ^ 32) (hleft : df.sectorsLeft ≠ 0) :
    ({ df with currSecofs := n }.endTurn last).currSector + ({ df with currSecofs := n }.endTurn last).sectorsLeft =
      df.currSector + df.sectorsLeft := by
  rw [FindData.endTurn]
  split
  · have hsector : dword (df.currSector + 1) = df.currSector + 1 := Kernel.dword_of_lt (by omega)
    dsimp only
    omega
  · rfl

theorem findnextLoop_bound {res : Except Errno Unit} {places : List ℕ}
    (h : findnextLoop dev k df v = some (res, places, df', v')) (hlt : df.currSector + df.sectorsLeft < 2 ^ 32) :
    (∀ q ∈ places, q < (df.currSector + df.sectorsLeft) * bytesPerSector) ∧
      df'.currSector + df'.sectorsLeft = df.currSector + df.sectorsLeft ∧
      (res = .error .enmfile → df'.sectorsLeft = 0) := by
  induction k generalizing df v places with
  | zero => cases h
  | succ k ih =>
    by_cases hleft : df.sectorsLeft = 0
    · rw [findnextLoop_end hleft] at h
      cases h
      exact ⟨List.forall_mem_nil _, rfl, fun _ => hleft⟩
    · rw [findnextLoop, if_neg hleft] at h
      cases hread : readbuf dev (dword (df.currSector * 2 ^ v.logBlocksPerSector)) v with
      | mk r v₁ => cases r with
        | error e =>
          have he := readbuf_error (congrArg Prod.fst hread)
          rw [hread, he] at h
          cases h
          exact ⟨List.forall_mem_nil _, rfl, fun hres => nomatch hres⟩
        | ok place =>
          rw [hread] at h
          dsimp only at h
          by_cases hin : bytesPerSector ≤ place + df.currSecofs
          · rw [if_pos hin] at h
            cases h
          · rw [if_neg hin] at h
            have hplace : df.currSector * bytesPerSector + df.currSecofs <
                (df.currSector + df.sectorsLeft) * bytesPerSector := by
              have hone : 1 * bytesPerSector ≤ df.sectorsLeft * bytesPerSector :=
                Nat.mul_le_mul_right _ (Nat.pos_of_ne_zero hleft)
              rw [Nat.add_mul]
              omega
            have hsingle : ∀ q ∈ [df.currSector * bytesPerSector + df.currSecofs],
                q < (df.currSector + df.sectorsLeft) * bytesPerSector := by
              simpa using hplace
            split at h
            · have hsum := @endTurn_sum df true df.currSecofs hlt hleft
              have hrest := ih h (by rwa [hsum])
              rwa [hsum] at hrest
            · split at h
              · cases h
              · split at h
                · next hsel =>
                  have he := selects_error hsel
                  rw [he] at h
                  cases h
                  exact ⟨hsingle, rfl, fun hres => nomatch hres⟩
                · cases h
                  exact ⟨hsingle, rfl, fun hres => nomatch hres⟩
                · have hsum := @endTurn_sum df false (u16 (df.currSecofs + (record v₁.buffer.data (place + df.currSecofs)).lenDr))
                    hlt hleft
                  obtain ⟨⟨res₁, places₁, df₁, v₂⟩, hrest, hr⟩ := Option.map_eq_some_iff.mp h
                  cases hr
                  obtain ⟨hplaces, hsum', hend⟩ := ih hrest (by rwa [hsum])
                  rw [hsum] at hplaces hsum'
                  exact ⟨List.forall_mem_cons.mpr ⟨hplace, hplaces⟩, hsum', hend⟩

theorem conclude_bound (hlt : df.currSector + df.sectorsLeft < 2 ^ 32)
    (h : conclude dev fuel (findnextLoop dev k df v) = some ps) :
    ∀ q ∈ ps, q < (df.currSector + df.sectorsLeft) * bytesPerSector := by
  induction fuel generalizing df v k ps with
  | zero =>
    cases hcall : findnextLoop dev k df v with
    | none =>
      rw [hcall] at h
      cases h
    | some r =>
      obtain ⟨res, places, df', v'⟩ := r
      rw [hcall, conclude] at h
      split at h
      · cases h
        exact (findnextLoop_bound hcall hlt).1
      · cases h
  | succ fuel ih =>
    cases hcall : findnextLoop dev k df v with
    | none =>
      rw [hcall] at h
      cases h
    | some r =>
      obtain ⟨res, places, df', v'⟩ := r
      obtain ⟨hplaces, hsum, -⟩ := findnextLoop_bound hcall hlt
      rw [hcall, conclude] at h
      split at h
      · cases h
        exact hplaces
      · obtain ⟨rest, hrest, rfl⟩ := Option.map_eq_some_iff.mp h
        rw [findnexts_succ] at hrest
        have hbound := ih (by rwa [hsum]) hrest
        rw [hsum] at hbound
        exact List.forall_mem_append.mpr ⟨hplaces, hbound⟩

end Bound

section Agreement

variable {label : Label} {fn : ℕ → Byte} {fnsize attr : ℕ} {template : List Byte}

theorem findAll_eq (hattr : attr ≠ aVolid) (hfn : buildFcbName fn fnsize true = .ok template)
    (hlt : (df.begin f v template attr).currSector + (df.begin f v template attr).sectorsLeft < 2 ^ 32) :
    findAll dev label f fn fnsize attr df v =
      conclude dev (f.dataLength + 1) (findnextLoop dev (2 ^ 28) (df.begin f v template attr) v) := by
  rw [findAll, findfirst, if_neg hattr, hfn]
  dsimp only
  rw [findnext]
  cases hcall : findnextLoop dev (2 ^ 28) (df.begin f v template attr) v with
  | none => rfl
  | some r =>
    obtain ⟨res, places, df', v'⟩ := r
    dsimp only [conclude]
    split
    · next hres =>
      obtain ⟨m, hm⟩ : ∃ m, 2 ^ 28 = m + 1 := ⟨2 ^ 28 - 1, rfl⟩
      rw [findnexts_succ, hm, findnextLoop_end ((findnextLoop_bound hcall hlt).2.2 hres)]
      simp [conclude]
    · rfl

structure Plain (dev : Device) (f : File) (v : Volume) (template : List Byte) (attr : ℕ) (ps : List ℕ) : Prop where
  lenEar : f.lenEar = 0
  extent : f.extent % v.blocksPerSector = 0
  short : f.dataLength / bytesPerSector < 2 ^ 16
  reads : ∀ q ∈ ps, (record dev.disc q).lenFi < 60 ∧ (q + (record dev.disc q).lenDr) % bytesPerSector < v.blockSize
  stops : ∀ q ∈ ps, Stops dev.disc template (attr % 2 ^ 8) q → (q + (record dev.disc q).lenDr) % bytesPerSector ≠ 0

theorem mem_of_sector {disc : ℕ → Byte} (hl : Laid disc limit p ps) (hp : p ≤ q) (hq : q < limit)
    (hmod : q % bytesPerSector = 0) : q ∈ ps := by
  induction hl with
  | done => omega
  | @record p ps hr hle hl ih =>
    by_cases heq : p = q
    · rw [heq]
      exact List.mem_cons_self
    · have hsector := hr.sector
      have hnext : p + (record disc p).lenDr ≤ q := by
        unfold bytesPerSector at *
        omega
      exact List.mem_cons_of_mem _ (ih hnext)
  | @padding p ps hlt hzero hne hl ih =>
    have hle : (p / bytesPerSector + 1) * bytesPerSector ≤ q := by
      unfold bytesPerSector at *
      omega
    exact ih (Nat.le_trans (Nat.min_le_right _ _) hle)

theorem Directory.dataLength_eq (hd : Directory dev f v ps) : f.dataLength = f.dataLength / bytesPerSector * bytesPerSector :=
  (Nat.div_mul_cancel (Nat.dvd_of_mod_eq_zero hd.length)).symm

theorem begin_left (hd : Directory dev f v ps) :
    (df.begin f v' template attr).sectorsLeft = f.dataLength / bytesPerSector % 2 ^ 16 := by
  have hlt := hd.opened.length
  have hlength := hd.length
  have hround : dword (f.dataLength + bytesPerSector - 1) / 2 ^ logBytesPerSector = f.dataLength / bytesPerSector := by
    unfold dword bytesPerSector logBytesPerSector at *
    omega
  exact congrArg u16 hround

theorem begin_inDisc (hs : v.SizeOk) (hd : Directory dev f v ps) : InDisc (df.begin f v template attr) v := by
  have hfits := hd.fits
  have hblocks : f.dataLength / v.blockSize = f.dataLength / bytesPerSector * v.blocksPerSector := by
    conv_lhs => rw [hd.dataLength_eq, ← blocksPerSector_mul_blockSize hs, ← Nat.mul_assoc]
    rw [Nat.mul_div_cancel _ (blockSize_pos v), blocksPerSector_mul_blockSize hs]
  have hsector : f.extent / v.blocksPerSector * v.blocksPerSector ≤ f.extent := Nat.div_mul_le_self _ _
  have hmod : f.dataLength / bytesPerSector % 2 ^ 16 * v.blocksPerSector ≤
      f.dataLength / bytesPerSector * v.blocksPerSector := Nat.mul_le_mul_right _ (Nat.mod_le _ _)
  rw [InDisc, begin_left hd]
  change (f.extent / v.blocksPerSector + _) * _ < _
  rw [Nat.add_mul]
  omega

theorem start_mod_eq_zero_iff (hs : v.SizeOk) :
    start f v % bytesPerSector = 0 ↔ (f.extent + f.lenEar) % v.blocksPerSector = 0 := by
  have hmod := place_mod hs (f.extent + f.lenEar) 0 (blockSize_pos v)
  rw [Nat.add_zero, Nat.add_zero] at hmod
  rw [start, hmod, Nat.mul_eq_zero]
  exact or_iff_left (Nat.ne_of_gt (blockSize_pos v))

theorem start_eq (hs : v.SizeOk) (hstart : start f v % bytesPerSector = 0) :
    start f v = (f.extent + f.lenEar) / v.blocksPerSector * bytesPerSector := by
  have hblock := (start_mod_eq_zero_iff hs).mp hstart
  rw [start, ← blocksPerSector_mul_blockSize hs, ← Nat.mul_assoc, Nat.div_mul_cancel (Nat.dvd_of_mod_eq_zero hblock)]

theorem begin_of_findAll (hs : v.SizeOk) (hd : Directory dev f v ps) (hstart : start f v % bytesPerSector = 0)
    (hall : conclude dev fuel (findnextLoop dev k (df.begin f v template attr) v') = some ps) :
    f.lenEar = 0 ∧ f.dataLength / bytesPerSector < 2 ^ 16 := by
  have hlength := hd.dataLength_eq
  have hnonempty := Nat.pos_of_ne_zero hd.nonempty
  have hlast : start f v + f.dataLength - bytesPerSector ∈ ps := by
    have hle : bytesPerSector ≤ f.dataLength := Nat.le_of_dvd hnonempty (Nat.dvd_of_mod_eq_zero hd.length)
    have hlength' := hd.length
    apply mem_of_sector hd.laid
    · omega
    · unfold bytesPerSector
      omega
    · unfold bytesPerSector at *
      omega
  have hbound := conclude_bound (begin_inDisc hs hd).lt hall _ hlast
  rw [begin_left hd, start_eq hs hstart] at hbound
  change _ < (f.extent / v.blocksPerSector + _) * _ at hbound
  have hsectors : (f.extent + f.lenEar) / v.blocksPerSector + f.dataLength / bytesPerSector <
      f.extent / v.blocksPerSector + f.dataLength / bytesPerSector % 2 ^ 16 + 1 := by
    unfold bytesPerSector at *
    omega
  have hle : f.extent / v.blocksPerSector ≤ (f.extent + f.lenEar) / v.blocksPerSector :=
    Nat.div_le_div_right (Nat.le_add_right _ _)
  have hmod := Nat.mod_le (f.dataLength / bytesPerSector) (2 ^ 16)
  constructor
  · have hquotient : (f.extent + f.lenEar) / v.blocksPerSector = f.extent / v.blocksPerSector := by omega
    have hend := Nat.div_add_mod' (f.extent + f.lenEar) v.blocksPerSector
    have hbegin : f.extent / v.blocksPerSector * v.blocksPerSector ≤ f.extent := Nat.div_mul_le_self _ _
    rw [(start_mod_eq_zero_iff hs).mp hstart, hquotient] at hend
    omega
  · have hlt := Nat.mod_lt (f.dataLength / bytesPerSector) (show 0 < 2 ^ 16 by decide)
    omega

theorem begin_at (hs : v.SizeOk) (hd : Directory dev f v ps) (hstart : start f v % bytesPerSector = 0) (hear : f.lenEar = 0)
    (hshort : f.dataLength / bytesPerSector < 2 ^ 16) :
    At (df.begin f v template attr) (start f v) (start f v + f.dataLength) := by
  have heq := start_eq hs hstart
  rw [hear, Nat.add_zero] at heq
  constructor
  · exact (by decide : 0 < bytesPerSector)
  · rw [heq]
    exact Nat.add_zero _
  · rw [begin_left hd, Nat.mod_eq_of_lt hshort, Nat.add_mul, ← hd.dataLength_eq, heq]
    exact congrArg (· * bytesPerSector + f.dataLength) (show f.extent / 2 ^ v.logBlocksPerSector = _ from rfl)

theorem findAll_laid (hfault : ∀ j, dev.fault j = false) (hd : Directory dev f v ps) (hh : Holds dev v)
    (hstart : start f v % bytesPerSector = 0) (hear : f.lenEar = 0) (hshort : f.dataLength / bytesPerSector < 2 ^ 16)
    (hid : ∀ q ∈ ps, (record dev.disc q).lenFi < 60) :
    conclude dev (f.dataLength + 1) (findnextLoop dev (2 ^ 28) (df.begin f v template attr) v) = some ps ↔
      ∀ q ∈ ps, Stops dev.disc template (attr % 2 ^ 8) q → (q + (record dev.disc q).lenDr) % bytesPerSector ≠ 0 := by
  have hlimit : (start f v + f.dataLength) % bytesPerSector = 0 := by
    rw [Nat.add_mod, hstart, hd.length]
    rfl
  have hlt : f.dataLength < 2 ^ 28 := by
    rw [hd.dataLength_eq]
    unfold bytesPerSector at *
    omega
  have hlooks : LooksFor (df.begin f v template attr) template (attr % 2 ^ 8) := ⟨rfl, rfl⟩
  rw [conclude_laid hfault hd.laid hlimit (fun q hq => Nat.lt_trans (hid q hq) (by decide)) (begin_at hh.size hd hstart hear hshort)
    (begin_inDisc hh.size hd) hlooks hh (by omega) (by omega) (by omega)]
  exact and_iff_left rfl

theorem agree_iff (label : Label) (df : FindData) (hfault : ∀ j, dev.fault j = false) (hd : Directory dev f v ps) (hpointer : f.filePointer = 0)
    (hh : Holds dev v) (hh' : Holds dev v') (hlog : v'.logBlockSize = v.logBlockSize) (hattr : attr ≠ aVolid)
    (hfn : buildFcbName fn fnsize true = .ok template) :
    (∃ places, readdirs dev (f.dataLength + 1) f v = some places ∧
        findAll dev label f fn fnsize attr df v' = some places) ↔ Plain dev f v template attr ps := by
  have hd' := hd.congr hlog
  have hstart' : start f v' = start f v := start_congr f hlog
  rw [findAll_eq hattr hfn (begin_inDisc hh'.size hd').lt]
  by_cases hstart : start f v % bytesPerSector = 0
  · simp only [readdirs_eq_some_iff hfault hd hh hpointer hstart]
    have hstart₁ : start f v' % bytesPerSector = 0 := by rw [hstart', hstart]
    constructor
    · rintro ⟨places, ⟨hreads, rfl⟩, hall⟩
      obtain ⟨hear, hshort⟩ := begin_of_findAll hh'.size hd' hstart₁ hall
      have hblock := (start_mod_eq_zero_iff hh.size).mp hstart
      rw [hear, Nat.add_zero] at hblock
      have hids : ∀ q ∈ places, (record dev.disc q).lenFi < 60 := fun q hq => (hreads.2 q hq).1
      exact ⟨hear, hblock, hshort, hreads.2, (findAll_laid hfault hd' hh' hstart₁ hear hshort hids).mp hall⟩
    · intro hplain
      have hreads : Reads dev.disc v.blockSize (start f v) ps := by
        refine ⟨?_, hplain.reads⟩
        rw [hstart]
        exact blockSize_pos v
      have hids : ∀ q ∈ ps, (record dev.disc q).lenFi < 60 := fun q hq => (hreads.2 q hq).1
      exact ⟨ps, ⟨hreads, rfl⟩,
        (findAll_laid hfault hd' hh' hstart₁ hplain.lenEar hplain.short hids).mpr hplain.stops⟩
  · rw [readdirs_eq_none hfault hd hh hpointer hstart]
    refine iff_of_false ?_ (fun hplain => hstart ?_)
    · rintro ⟨places, h, -⟩
      cases h
    rw [start_mod_eq_zero_iff hh.size, hplain.lenEar, Nat.add_zero, hplain.extent]

/-- `iso9660_do_readdir` and the calls of `iso9660_findfirst` and `iso9660_findnext` go through the same records of a directory
if and only if it has no extended attribute record and begins with a sector, it has fewer than 65536 sectors, each place that
is looked at is in the first block of its sector, the identifiers fit, and no record with which a call ends is the end of its
sector. -/
theorem enumerations_agree_iff (dev : Device) (hfault : ∀ j, dev.fault j = false) (logBlockSize : ℕ) (data : ℕ → Byte)
    (hsize : (mounted logBlockSize data).SizeOk) (blocks blocks' : List ℕ) (f : File) (ps : List ℕ)
    (hd : Directory dev f (mounted logBlockSize data) ps) (hpointer : f.filePointer = 0) (label : Label) (fn : ℕ → Byte)
    (fnsize attr : ℕ) (template : List Byte) (hattr : attr ≠ aVolid) (hfn : buildFcbName fn fnsize true = .ok template)
    (df : FindData) :
    (∃ places, readdirs dev (f.dataLength + 1) f (readbufs dev blocks (mounted logBlockSize data)) = some places ∧
        findAll dev label f fn fnsize attr df (readbufs dev blocks' (mounted logBlockSize data)) = some places) ↔
      Plain dev f (mounted logBlockSize data) template attr ps := by
  have hh : Holds dev (mounted logBlockSize data) := mounted_holds data hsize
  have hlog := readbufs_logBlockSize hh blocks
  have hlog' := readbufs_logBlockSize hh blocks'
  have hiff := agree_iff label df hfault (hd.congr hlog) hpointer (readbufs_holds hh blocks)
    (readbufs_holds hh blocks') (hlog'.trans hlog.symm) hattr hfn
  refine hiff.trans ⟨fun h => ?_, fun h => ?_⟩
  · have hextent := h.extent
    have hreads := h.reads
    rw [blocksPerSector_congr hlog] at hextent
    simp only [blockSize_congr hlog] at hreads
    exact ⟨h.lenEar, hextent, h.short, hreads, h.stops⟩
  · refine ⟨h.lenEar, ?_, h.short, ?_, h.stops⟩
    · rw [blocksPerSector_congr hlog]
      exact h.extent
    · simp only [blockSize_congr hlog]
      exact h.reads

theorem enumerations_agree_iff_sample :
    ∃ places, readdirs oneRecord 2049 ⟨21, 2048, 0, 0, true, 0⟩ (mounted 11 fun _ => 0) = some places ∧
      findAll oneRecord ⟨[], ⟨0, 0, 0, 0, 0, 0⟩⟩ ⟨21, 2048, 0, 0, true, 0⟩ (fun _ => 0x58) 1 0
        ⟨[], 0, 0, 0, 0, 0, 0, 0, 0, []⟩ (mounted 11 fun _ => 0) = some places := by
  apply (enumerations_agree_iff oneRecord (fun _ => rfl) 11 (fun _ => 0) (by decide) [] [] ⟨21, 2048, 0, 0, true, 0⟩ [43008]
    (oneRecord_directory rfl rfl) rfl _ _ _ _ (0x58 :: List.replicate 10 0x20) (by decide) rfl _).mpr
  refine ⟨rfl, rfl, by decide, ?_, ?_⟩
  · rw [List.forall_mem_singleton]
    decide
  · rw [List.forall_mem_singleton]
    exact fun _ => by decide

/-- The search looks into the extended attribute record, and not into the last sector. -/
theorem enumerations_differ : Directory oneRecord ⟨20, 2048, 1, 0, true, 0⟩ (mounted 11 fun _ => 0) [43008] ∧
    readdirs oneRecord 2049 ⟨20, 2048, 1, 0, true, 0⟩ (mounted 11 fun _ => 0) = some [43008] ∧
    findAll oneRecord ⟨[], ⟨0, 0, 0, 0, 0, 0⟩⟩ ⟨20, 2048, 1, 0, true, 0⟩ (fun _ => 0x58) 1 0
      ⟨[], 0, 0, 0, 0, 0, 0, 0, 0, []⟩ (mounted 11 fun _ => 0) = some [] :=
  ⟨oneRecord_directory rfl rfl, rfl, rfl⟩

end Agreement

end FreeDos32.Iso9660
