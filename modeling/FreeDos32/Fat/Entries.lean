import FreeDos32.Fat.StaleRing

namespace FreeDos32.Fat

variable {slot : ℕ → Option Direntry} {check fuel order k n fp : ℕ} {slots before : List Direntry}
  {semi : Option ℕ} {lfn : List ℕ} {L : LookupData} {cde : ℕ → Direntry} {d e : Direntry}

/-- A short entry of a directory: the number of its slot, and the entries since the short entry before it, the
nearest first. -/
structure Entry where
  number : ℕ
  de : Direntry
  before : List Direntry

/-- The short entries among `k` slots from number `n` on, after entries that are none. -/
def entries (slot : ℕ → Option Direntry) : ℕ → ℕ → List Direntry → List Entry
  | 0, _, _ => []
  | k + 1, n, before =>
    match slot n with
    | none => []
    | some de =>
      if de 0 = fatEndofdir then []
      else if de.isShort then ⟨n, de, before⟩ :: entries slot k (n + 1) []
      else entries slot k (n + 1) (de :: before)

namespace Entry

def checksum (x : Entry) : ℕ := lfnChecksum x.de.name % 256

/-- The long name in the parts before the entry; none when they do not end in a last one. -/
def longName (x : Entry) : Except Errno (ℕ × List ℕ) :=
  match walkSlots x.checksum (x.before.take 20) 1 none [] with
  | .inl r => r
  | .inr _ => .ok (0, [])

def shortName (x : Entry) : Except Errno (List ℕ) := expandFcbName x.de.name

/-- The slot goes on with the entry's long name, of which the parts that are there lack the last one. -/
def ContinuedBy (x : Entry) (slot : Direntry) : Prop :=
  x.before.length < 20 ∧ lfnFetchSlots ≤ x.number + 1 ∧ ∃ r, walkSlots x.checksum x.before 1 none [] = .inr r ∧
    slot.attr = fatALfn ∧ r.1 = (slot 0).toNat &&& 0x1F ∧ x.checksum = (slot 13).toNat

end Entry

theorem isShort_attr (h : d.isShort = true) : d.attr ≠ fatALfn := by
  intro ha
  rw [Direntry.isShort, ha, Bool.and_eq_true] at h
  exact absurd h.2 (by decide)

theorem Entry.ContinuedBy.congr {x : Entry} (h : x.ContinuedBy d) (hb : d.toBytes = e.toBytes) : x.ContinuedBy e := by
  obtain ⟨h1, h2, r, h3, h4, h5, h6⟩ := h
  have h0 : d 0 = e 0 := toBytes_eq hb (by decide)
  have h11 : d.attr = e.attr := toBytes_eq hb (by decide)
  have h13 : d 13 = e 13 := toBytes_eq hb (by decide)
  exact ⟨h1, h2, r, h3, h11 ▸ h4, h0 ▸ h5, h13 ▸ h6⟩

theorem Entry.not_continuedBy {x : Entry} (h : d.isShort = true ∨ d 0 = fatEndofdir) : ¬x.ContinuedBy d := by
  rintro ⟨-, -, r, hr, hattr, horder, -⟩
  rcases h with h | h
  · exact isShort_attr h hattr
  · have hpos := walkSlots_order hr
    rw [h] at horder
    have hzero : (fatEndofdir.toNat &&& 0x1F) = 0 := by decide
    omega

theorem walkSlots_append (slots' : List Direntry) : walkSlots check (slots ++ slots') order semi lfn =
    match walkSlots check slots order semi lfn with
    | .inl r => .inl r
    | .inr (order, semi, lfn) => walkSlots check slots' order semi lfn := by
  induction slots generalizing order semi lfn with
  | nil => rfl
  | cons d slots ih =>
    simp only [List.cons_append, walkSlots]
    split
    · rfl
    · split
      · rfl
      · split
        · rfl
        · exact ih

theorem fetchSlots_zero (hfp : lfnFetchSlots * 32 ≤ fp) :
    fetchSlots fp check cde (fuel + 1) order 0 semi lfn = fetchSlots fp check cde (fuel + 1) order 21 semi lfn := by
  have h21 : ¬(21 = 0 ∧ fp < lfnFetchSlots * 32) := fun h => absurd h.1 (by decide)
  rw [fetchSlots_wrap hfp, fetchSlots, if_neg h21]
  rfl

/-- With 20 slots or more before the entry, `fetch_lfn` sees the last 20 of them in the ring. -/
theorem fetchLfn_long (L : LookupData) (hshort : d.isShort = true) (hlen : 20 ≤ before.length) (hfp : lfnFetchSlots * 32 ≤ fp) :
    fetchLfn fp (taken L before.reverse d) =
      match walkSlots (lfnChecksum d.name % 256) (before.take 20) 1 none [] with
      | .inl r => r
      | .inr _ => .ok (0, []) := by
  have hzero : ({ L with cdePos := 0 } : LookupData).cdePos = 0 := rfl
  obtain ⟨hpos, hring⟩ := fetchAll_ring before.reverse hzero
  simp only [List.length_reverse] at hpos hring
  have hk : before.length % 21 ≤ 20 := Nat.le_of_lt_succ (Nat.mod_lt _ (by decide))
  -- what the ring holds behind the current slot
  have hcde : ∀ i < 20, ∀ e, before[i]? = some e →
      ((taken L before.reverse d).cde ((before.length - 1 - i) % 21)).toBytes = e.toBytes := fun i hi e he => by
    have hne : (before.length - 1 - i) % 21 ≠ (({ L with cdePos := 0 } : LookupData).fetchAll before.reverse).cdePos := by
      rw [hpos]
      omega
    rw [taken, LookupData.fetch_cde, if_neg hne]
    refine hring i (by omega) (by omega) e ?_
    rw [List.getElem?_reverse (by omega), ← he]
    congr 1
    omega
  have hcur : ((taken L before.reverse d).cde (before.length % 21)).attr = d.attr := by
    have hcur := fetch_current d (({ L with cdePos := 0 } : LookupData).fetchAll before.reverse)
    rw [show (LookupData.fetch d (LookupData.fetchAll before.reverse { L with cdePos := 0 })).cdePos = before.length % 21
      from hpos] at hcur
    exact toBytes_eq hcur (by decide)
  have htake : (before.take 20).take (before.length % 21) = before.take (before.length % 21) := by
    rw [List.take_take, Nat.min_eq_left hk]
  have hsplit : before.take 20 = before.take (before.length % 21) ++ (before.take 20).drop (before.length % 21) := by
    rw [← htake]
    exact (List.take_append_drop _ _).symm
  have hlen₁ : (before.take (before.length % 21)).length = before.length % 21 := by
    rw [List.length_take]
    omega
  have hlen₂ : ((before.take 20).drop (before.length % 21)).length = 20 - before.length % 21 := by
    rw [List.length_drop, List.length_take]
    omega
  rw [fetchLfn_taken, List.length_reverse, hsplit, walkSlots_append]
  rw [show (32 : ℕ) = (31 - before.length % 21 + 1) + (before.take (before.length % 21)).length by omega,
    fetchSlots_walk (by omega) fun i e he => ?_]
  · rcases walkSlots (lfnChecksum d.name % 256) (before.take (before.length % 21)) 1 none [] with r | ⟨order, semi, lfn⟩
    · rfl
    · dsimp only
      rw [hlen₁, Nat.sub_self, fetchSlots_zero hfp,
        show 31 - before.length % 21 + 1 = 12 + ((before.take 20).drop (before.length % 21)).length by omega,
        fetchSlots_walk (by omega) fun i e he => ?_]
      · rcases walkSlots (lfnChecksum d.name % 256) ((before.take 20).drop (before.length % 21)) order semi lfn with
          r | ⟨order, semi, lfn⟩
        · rfl
        · dsimp only
          rw [hlen₂, show 21 - (20 - before.length % 21) = before.length % 21 + 1 by omega, fetchSlots, if_neg (by omega)]
          dsimp only
          rw [if_neg (Nat.succ_ne_zero _), Nat.add_sub_cancel, if_pos (.inl (hcur ▸ isShort_attr hshort))]
      · have hi : i < 20 - before.length % 21 := by
          have := (List.getElem?_eq_some_iff.mp he).1
          omega
        rw [List.getElem?_drop, List.getElem?_take_of_lt (by omega)] at he
        rw [← hcde (before.length % 21 + i) (by omega) e he]
        congr 2
        omega
  · have hi : i < before.length % 21 := by
      have := (List.getElem?_eq_some_iff.mp he).1
      omega
    rw [List.getElem?_take_of_lt hi] at he
    rw [← hcde i (by omega) e he]
    congr 2
    omega

theorem fetchLfn_entry {x : Entry} (L : LookupData) (hshort : x.de.isShort = true) (hnum : x.before.length ≤ x.number)
    (hring : ¬x.ContinuedBy (L.cde 20)) : fetchLfn (32 * (x.number + 1)) (taken L x.before.reverse x.de) = x.longName := by
  by_cases hlen : 20 ≤ x.before.length
  · refine fetchLfn_long L hshort hlen ?_
    unfold lfnFetchSlots
    omega
  · have hlen' : x.before.length < 20 := Nat.lt_of_not_le hlen
    rw [fetchLfn_short L (by rw [List.length_reverse]; exact hlen'), List.length_reverse, List.reverse_reverse,
      Entry.longName, List.take_of_length_le (Nat.le_of_lt hlen')]
    change (match walkSlots x.checksum x.before 1 none [] with
      | .inl r => r
      | .inr (order, semi, lfn) => _) = _
    rcases hw : walkSlots x.checksum x.before 1 none [] with r | ⟨order, semi, lfn⟩
    · rfl
    · -- the ring goes on with its last slot, which is no part of this name
      dsimp only
      rw [show 32 - x.before.length = 31 - x.before.length + 1 by omega]
      by_cases hfp : 32 * (x.number + 1) < lfnFetchSlots * 32
      · exact fetchSlots_start hfp
      · rw [fetchSlots_wrap (Nat.le_of_not_lt hfp), taken_last L (by rw [List.length_reverse]; exact hlen')]
        refine if_pos ?_
        by_contra hno
        simp only [not_or, not_not] at hno
        refine hring ⟨hlen', ?_, _, hw, hno.1, hno.2.1, hno.2.2⟩
        unfold lfnFetchSlots at hfp ⊢
        omega

/-- A slot that comes after twenty others in a row, none of which is a short entry, and is none itself. -/
def Late (slot : ℕ → Option Direntry) (d : Direntry) : Prop :=
  ∃ n, slot (n + 20) = some d ∧ ∀ i ≤ 20, ∃ e, slot (n + i) = some e ∧ e.isShort = false

/-- The slots before number `n` are those of a list, the nearest first, and no short entries. -/
structure Passed (slot : ℕ → Option Direntry) (n : ℕ) (before : List Direntry) : Prop where
  room : before.length ≤ n
  slots : ∀ i e, before[i]? = some e → slot (n - 1 - i) = some e ∧ e.isShort = false

theorem Passed.nil (slot : ℕ → Option Direntry) (n : ℕ) : Passed slot n [] := ⟨Nat.zero_le n, fun _ _ h => by simp at h⟩

theorem Passed.cons (h : Passed slot n before) (hd : slot n = some d) (hs : d.isShort = false) :
    Passed slot (n + 1) (d :: before) := by
  refine ⟨Nat.succ_le_succ h.room, fun i e he => ?_⟩
  cases i with
  | zero =>
    cases he
    exact ⟨hd, hs⟩
  | succ i =>
    rw [show n + 1 - 1 - (i + 1) = n - 1 - i by omega]
    exact h.slots i e he

/-- What a call leaves in the last slot of the ring: what was there, or a slot that it has read. -/
def Leaves (slot : ℕ → Option Direntry) (L M : LookupData) : Prop :=
  M.cde 20 = L.cde 20 ∨ ∃ d, (M.cde 20).toBytes = d.toBytes ∧ ((d.isShort = true ∨ d 0 = fatEndofdir) ∨ Late slot d)

theorem Passed.leaves (h : Passed slot n before) (L : LookupData) :
    Leaves slot L (({ L with cdePos := 0 } : LookupData).fetchAll before.reverse) := by
  by_cases hlen : before.length ≤ 20
  · left
    have hsmall := LookupData.fetchAll_small (L := { L with cdePos := 0 }) rfl before.reverse
      (by rw [List.length_reverse]; exact hlen)
    exact hsmall.2.2 20 (by rw [List.length_reverse]; exact hlen)
  · right
    have hroom := h.room
    have hzero : ({ L with cdePos := 0 } : LookupData).cdePos = 0 := rfl
    have hring := (fetchAll_ring before.reverse hzero).2
    rw [List.length_reverse] at hring
    obtain ⟨t, ht, htlt, hmod⟩ : ∃ t, t < 21 ∧ t + 20 < before.length ∧ (before.length - 1 - t) % 21 = 20 :=
      ⟨(before.length - 21) % 21, Nat.mod_lt _ (by decide), by omega, by omega⟩
    have hat : ∀ i < before.length, ∃ e, before[i]? = some e := fun i hi => ⟨_, List.getElem?_eq_getElem hi⟩
    obtain ⟨d, hd⟩ := hat t (by omega)
    refine ⟨d, ?_, .inr ⟨n - 1 - t - 20, ?_, fun i hi => ?_⟩⟩
    · have hcde := hring t (by omega) ht d (by rw [List.getElem?_reverse (by omega), ← hd]; congr 1; omega)
      rw [hmod] at hcde
      exact hcde
    · rw [show n - 1 - t - 20 + 20 = n - 1 - t by omega]
      exact (h.slots t d hd).1
    · obtain ⟨e, he⟩ := hat (t + 20 - i) (by omega)
      refine ⟨e, ?_⟩
      rw [show n - 1 - t - 20 + i = n - 1 - (t + 20 - i) by omega]
      exact h.slots _ e he

theorem Passed.leaves_fetch (h : Passed slot n before) (L : LookupData) (hd : d.isShort = true ∨ d 0 = fatEndofdir) :
    Leaves slot L (taken L before.reverse d) := by
  by_cases hpos : (({ L with cdePos := 0 } : LookupData).fetchAll before.reverse).cdePos = 20
  · have hcur := LookupData.fetch_bytes d (({ L with cdePos := 0 } : LookupData).fetchAll before.reverse)
    rw [hpos] at hcur
    exact .inr ⟨d, hcur, .inl hd⟩
  · have hsame : (taken L before.reverse d).cde 20 = (({ L with cdePos := 0 } : LookupData).fetchAll before.reverse).cde 20 := by
      rw [taken, LookupData.fetch_cde, if_neg (Ne.symm hpos)]
    have hle := h.leaves L
    rw [Leaves, ← hsame] at hle
    exact hle

/-- What `fat_do_readdir` makes of the slots from number `n` on, after those in `before`. -/
def Reads (slot : ℕ → Option Direntry) (L : LookupData) (r : Outcome Errno Unit × ℕ × LookupData) : List Entry → Prop
  | [] => ∃ m M, r = (.error .enmfile, m, M) ∧ Leaves slot L M
  | x :: _ => r = (((taken L x.before.reverse x.de).names (32 * (x.number + 1))).1, x.number + 1,
      ((taken L x.before.reverse x.de).names (32 * (x.number + 1))).2)

theorem scan_entries (h : Passed slot n before) (hend : slot (n + k) = none) (hk : k < fuel) (L : LookupData) :
    Reads slot L (scan slot fuel n (({ L with cdePos := 0 } : LookupData).fetchAll before.reverse))
      (entries slot k n before) := by
  induction fuel generalizing n k before with
  | zero => omega
  | succ fuel ih =>
    rw [scan]
    cases k with
    | zero =>
      rw [Nat.add_zero] at hend
      rw [hend]
      exact ⟨n, _, rfl, h.leaves L⟩
    | succ k =>
      rw [entries]
      cases hs : slot n with
      | none => exact ⟨n, _, rfl, h.leaves L⟩
      | some d =>
        dsimp only
        by_cases h0 : d 0 = fatEndofdir
        · rw [if_pos h0, if_pos h0]
          exact ⟨n + 1, _, rfl, h.leaves_fetch L (.inr h0)⟩
        · rw [if_neg h0, if_neg h0]
          by_cases hshort : d.isShort = true
          · rw [if_pos hshort, if_pos hshort]
            rfl
          · rw [if_neg hshort, if_neg hshort]
            have hring : ((({ L with cdePos := 0 } : LookupData).fetchAll before.reverse).fetch d).advance =
                ({ L with cdePos := 0 } : LookupData).fetchAll (d :: before).reverse := by
              rw [List.reverse_cons, LookupData.fetchAll_concat]
            rw [hring]
            exact ih (h.cons hs (Bool.eq_false_iff.mpr hshort)) (by rw [Nat.add_assoc, Nat.add_comm 1]; exact hend) (by omega)

/-- What is known of an entry that is listed from slot `n` on. -/
structure Listed (slot : ℕ → Option Direntry) (k n : ℕ) (x : Entry) : Prop where
  at_slot : slot x.number = some x.de
  short : x.de.isShort = true
  live : x.de 0 ≠ fatEndofdir
  passed : Passed slot x.number x.before
  lower : n ≤ x.number
  upper : x.number < n + k

theorem mem_entries {x : Entry} (h : Passed slot n before) (hx : x ∈ entries slot k n before) : Listed slot k n x := by
  induction k generalizing n before with
  | zero => cases hx
  | succ k ih =>
    rw [entries] at hx
    split at hx
    · cases hx
    · next d hs =>
      have hrest : ∀ {bs}, Passed slot (n + 1) bs → x ∈ entries slot k (n + 1) bs → Listed slot (k + 1) n x := fun hb hx => by
        obtain ⟨h1, h2, h3, h4, h5, h6⟩ := ih hb hx
        exact ⟨h1, h2, h3, h4, by omega, by omega⟩
      split at hx
      · cases hx
      · next h0 =>
        split at hx
        · next hshort =>
          rcases List.mem_cons.mp hx with rfl | hx
          · exact ⟨hs, hshort, h0, h, Nat.le_refl n, Nat.lt_add_of_pos_right (Nat.succ_pos k)⟩
          · exact hrest (.nil _ _) hx
        · next hshort => exact hrest (h.cons hs (Bool.eq_false_iff.mpr hshort)) hx

theorem entries_cons {x : Entry} {xs : List Entry} (h : entries slot k n before = x :: xs) :
    xs = entries slot (n + k - (x.number + 1)) (x.number + 1) [] := by
  induction k generalizing n before with
  | zero => cases h
  | succ k ih =>
    rw [entries] at h
    split at h
    · cases h
    · split at h
      · cases h
      · split at h
        · cases h
          change _ = entries slot (n + (k + 1) - (n + 1)) (n + 1) []
          rw [show n + (k + 1) - (n + 1) = k by omega]
        · rw [ih h, show n + 1 + k = n + (k + 1) by omega]

end FreeDos32.Fat
