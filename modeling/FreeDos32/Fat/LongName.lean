import FreeDos32.Fat.Scan
import FreeDos32.Unicode.Utf16
import FreeDos32.Unicode.Utf8

namespace FreeDos32.Fat

open Prog Unicode

variable {u us : List ℕ} {checksum n t : ℕ} {semi : Option ℕ} {lfn chars : List ℕ} {de : Direntry} {s : SplitState}
  {lud : LookupData}

def IsSurrogate (x : ℕ) : Prop := 0xD800 ≤ x ∧ x ≤ 0xDFFF

instance (x : ℕ) : Decidable (IsSurrogate x) := inferInstanceAs (Decidable (_ ∧ _))

def utf16Decode : List ℕ → Option (List ℕ)
  | [] => some []
  | [x] => if IsSurrogate x then none else some [x]
  | x :: y :: us =>
    if ¬IsSurrogate x then (utf16Decode (y :: us)).map (x :: ·)
    else if x < 0xDC00 ∧ 0xDC00 ≤ y ∧ y ≤ 0xDFFF then
      (utf16Decode us).map fun chars => (0x10000 + (x - 0xD800) * 0x400 + (y - 0xDC00)) :: chars
    else none

theorem length_utf16Decode (h : utf16Decode us = some chars) : chars.length ≤ us.length := by
  induction us using utf16Decode.induct generalizing chars with
  | case1 =>
    cases h
    exact Nat.le_refl _
  | case2 x hx => simp [utf16Decode, hx] at h
  | case3 x hx =>
    rw [utf16Decode, if_neg hx] at h
    cases h
    exact Nat.le_refl _
  | case4 x y us hx ih =>
    rw [utf16Decode, if_pos hx, Option.map_eq_some_iff] at h
    obtain ⟨rest, hrest, rfl⟩ := h
    exact Nat.succ_le_succ (ih hrest)
  | case5 x y us hx hp ih =>
    rw [utf16Decode, if_neg hx, if_pos hp, Option.map_eq_some_iff] at h
    obtain ⟨rest, hrest, rfl⟩ := h
    have := ih hrest
    simp only [List.length_cons]
    omega
  | case6 x y us hx hp => rw [utf16Decode, if_neg hx, if_neg hp] at h; cases h

theorem lead_iff {x : ℕ} (hx : x < 65536) : x &&& 0xFC00 = 0xD800 ↔ 0xD800 ≤ x ∧ x < 0xDC00 := by
  rw [and_high_bits]
  omega

theorem trail_iff {x : ℕ} (hx : x < 65536) : x &&& 0xFC00 = 0xDC00 ↔ 0xDC00 ≤ x ∧ x ≤ 0xDFFF := by
  rw [and_high_bits]
  omega

theorem pair_value {x y : ℕ} (hx : 0xD800 ≤ x ∧ x < 0xDC00) (hy : 0xDC00 ≤ y ∧ y ≤ 0xDFFF) :
    ((x &&& 0x03FF) <<< 10) + 0x010000 ||| (y &&& 0x03FF) = 0x10000 + (x - 0xD800) * 0x400 + (y - 0xDC00) := by
  rw [and_low_bits, and_low_bits, Nat.shiftLeft_eq, show x % 1024 * 2 ^ 10 + 0x010000 = (x % 1024 + 64) <<< 10 by
    rw [Nat.shiftLeft_eq]; omega, ← Nat.shiftLeft_add_eq_or_of_lt (by omega : y % 1024 < 2 ^ 10), Nat.shiftLeft_eq]
  omega

def NameUnits (u : List ℕ) : Prop := ∀ x ∈ u, x ≠ 0 ∧ x < 65536

theorem fetchUnits_one {x : ℕ} (h0 : x ≠ 0) (hx : x < 65536) (hs : ¬IsSurrogate x) (hl : lfn.length + 1 ≠ fatLfnMax) :
    fetchUnits (x :: us) none lfn = fetchUnits us none (lfn ++ [x]) := by
  have hlead : ¬x &&& 0xFC00 = 0xD800 := by
    rw [lead_iff hx]
    unfold IsSurrogate at hs
    omega
  rw [fetchUnits, if_neg hlead, if_neg h0, if_neg hl]

theorem fetchUnits_decode (hu : NameUnits us) (h : utf16Decode us = some chars)
    (hl : lfn.length + chars.length < fatLfnMax) : fetchUnits us none lfn = .ok (none, lfn ++ chars) := by
  induction us using utf16Decode.induct generalizing chars lfn with
  | case1 =>
    cases h
    rw [fetchUnits, List.append_nil]
  | case2 x hx => simp [utf16Decode, hx] at h
  | case3 x hx =>
    rw [utf16Decode, if_neg hx] at h
    cases h
    obtain ⟨h0, hlt⟩ := hu x List.mem_cons_self
    rw [fetchUnits_one h0 hlt hx (Nat.ne_of_lt hl), fetchUnits]
  | case4 x y us hx ih =>
    rw [utf16Decode, if_pos hx, Option.map_eq_some_iff] at h
    obtain ⟨rest, hrest, rfl⟩ := h
    obtain ⟨h0, hlt⟩ := hu x List.mem_cons_self
    simp only [List.length_cons] at hl
    rw [fetchUnits_one h0 hlt hx (by omega), ih (fun z hz => hu z (List.mem_cons_of_mem x hz)) hrest
      (by simp only [List.length_append, List.length_singleton]; omega), List.append_assoc]
    rfl
  | case5 x y us hx hp ih =>
    rw [utf16Decode, if_neg hx, if_pos hp, Option.map_eq_some_iff] at h
    obtain ⟨rest, hrest, rfl⟩ := h
    obtain ⟨-, hltx⟩ := hu x List.mem_cons_self
    obtain ⟨-, hlty⟩ := hu y (List.mem_cons_of_mem x List.mem_cons_self)
    have hlead : 0xD800 ≤ x ∧ x < 0xDC00 := by
      rw [not_not, IsSurrogate] at hx
      omega
    simp only [List.length_cons] at hl
    rw [fetchUnits, if_pos ((lead_iff hltx).mpr hlead), fetchUnits,
      if_neg (not_not.mpr ((trail_iff hlty).mpr hp.2)), if_neg (by omega), pair_value hlead hp.2,
      ih (fun z hz => hu z (List.mem_cons_of_mem x (List.mem_cons_of_mem y hz))) hrest
        (by simp only [List.length_append, List.length_singleton]; omega), List.append_assoc]
    rfl
  | case6 x y us hx hp => rw [utf16Decode, if_neg hx, if_neg hp] at h; cases h

theorem fetchUnits_append (hu : ∀ x ∈ us, x ≠ 0) (rest : List ℕ) :
    fetchUnits (us ++ rest) semi lfn = match fetchUnits us semi lfn with
      | .error e => .error e
      | .ok (semi, lfn) => fetchUnits rest semi lfn := by
  induction us generalizing semi lfn with
  | nil => simp only [List.nil_append, fetchUnits]
  | cons x us ih =>
    have h0 := hu x List.mem_cons_self
    have ih' := fun semi lfn => @ih semi lfn fun z hz => hu z (List.mem_cons_of_mem x hz)
    cases semi with
    | none =>
      simp only [List.cons_append, fetchUnits, if_neg h0, ih']
      split
      · rfl
      · split <;> rfl
    | some wc =>
      simp only [List.cons_append, fetchUnits, ih']
      split
      · rfl
      · split <;> rfl

theorem fetchUnits_terminator (rest : List ℕ) : fetchUnits (0 :: rest) none lfn = .ok (none, lfn) := by
  rw [fetchUnits, if_neg (by decide), if_pos rfl]

structure LfnSlot (checksum order : ℕ) (units : List ℕ) (de : Direntry) : Prop where
  order : (de 0).toNat = order
  attr : de.attr = fatALfn
  checksum : (de 13).toNat = checksum % 256
  units : lfnChars.map (get16 de) = units

def slotCount (units : ℕ) : ℕ := (units + 12) / 13

def slotOrder (n t : ℕ) : ℕ := if t + 1 = n then t + 1 + 0x40 else t + 1

def slotPad : ℕ → List ℕ
  | 0 => []
  | k + 1 => 0 :: List.replicate k 0xFFFF

def slotUnits (u : List ℕ) (t : ℕ) : List ℕ := (u.drop (13 * t)).take 13 ++ slotPad (13 * (t + 1) - u.length)

theorem slotOrder_bits : ∀ n ≤ 20, ∀ t < n, slotOrder n t &&& 0x1F = t + 1 ∧
    (slotOrder n t &&& 0x40 ≠ 0 ↔ t + 1 = n) := by
  decide

theorem fetchUnits_pad (k : ℕ) : fetchUnits (slotPad k) none lfn = .ok (none, lfn) := by
  cases k with
  | zero => rfl
  | succ k => exact fetchUnits_terminator _

theorem fetchSlots_step {cde : ℕ → Direntry} {filePointer fuel order order' k k' : ℕ}
    (hk : ¬(k = 0 ∧ filePointer < lfnFetchSlots * 32)) (hk' : (if k = 0 then lfnFetchSlots else k) - 1 = k')
    (hs : LfnSlot checksum order' us (cde k')) (ho : order = order' &&& 0x1F) :
    fetchSlots filePointer (checksum % 256) cde (fuel + 1) order k semi lfn =
      match fetchUnits us semi lfn with
      | .error e => .error e
      | .ok (semi, lfn) =>
        if order' &&& 0x40 ≠ 0 then .ok (order, lfn)
        else fetchSlots filePointer (checksum % 256) cde fuel (order + 1) k' semi lfn := by
  subst hk'
  have hbelongs : ¬((cde ((if k = 0 then lfnFetchSlots else k) - 1)).attr ≠ fatALfn ∨
      order ≠ (cde ((if k = 0 then lfnFetchSlots else k) - 1) 0).toNat &&& 0x1F ∨
      checksum % 256 ≠ (cde ((if k = 0 then lfnFetchSlots else k) - 1) 13).toNat) := by
    rw [hs.attr, hs.order, hs.checksum, ← ho]
    simp
  rw [fetchSlots, if_neg hk]
  dsimp only
  rewrite [if_neg hbelongs, hs.units, hs.order]
  cases fetchUnits us semi lfn <;> rfl

theorem fetchSlots_run {cde : ℕ → Direntry} {filePointer entries : ℕ} (hu : NameUnits u) (hn : slotCount u.length ≤ 20)
    (hle : slotCount u.length ≤ entries) (hfp : 21 ≤ entries → 21 * 32 ≤ filePointer)
    (hslot : ∀ t < slotCount u.length, LfnSlot checksum (slotOrder (slotCount u.length) t) (slotUnits u t)
      (cde ((entries - 1 - t) % 21)))
    (ht : t < slotCount u.length) {fuel : ℕ} (hfuel : slotCount u.length ≤ fuel + t)
    (hrest : fetchUnits (u.drop (13 * t)) semi lfn = .ok (none, chars)) :
    fetchSlots filePointer (checksum % 256) cde fuel (t + 1) ((entries - t) % 21) semi lfn =
      .ok (slotCount u.length, chars) := by
  induction fuel generalizing t semi lfn with
  | zero => omega
  | succ fuel ih =>
    have hs := hslot t ht
    obtain ⟨hmask, hlast⟩ := slotOrder_bits _ hn t ht
    have hk : (if (entries - t) % 21 = 0 then lfnFetchSlots else (entries - t) % 21) - 1 = (entries - 1 - t) % 21 := by
      unfold lfnFetchSlots
      split <;> omega
    have hsplit : u.drop (13 * t) = (u.drop (13 * t)).take 13 ++ u.drop (13 * (t + 1)) := by
      rw [Nat.mul_succ, ← List.drop_drop, List.take_append_drop]
    have hnz : ∀ x ∈ (u.drop (13 * t)).take 13, x ≠ 0 := fun x hx =>
      (hu x (List.mem_of_mem_drop (List.mem_of_mem_take hx))).1
    rw [hsplit, fetchUnits_append hnz] at hrest
    rw [fetchSlots_step (by unfold lfnFetchSlots; omega) hk hs hmask.symm, slotUnits, fetchUnits_append hnz]
    cases hf : fetchUnits ((u.drop (13 * t)).take 13) semi lfn with
    | error e =>
      rw [hf] at hrest
      cases hrest
    | ok r =>
      obtain ⟨semi', lfn'⟩ := r
      rw [hf] at hrest
      dsimp only at hrest ⊢
      by_cases hend : t + 1 = slotCount u.length
      · -- the last slot: nothing of the name is left and what follows is padding
        have hnil : u.drop (13 * (t + 1)) = [] := by
          apply List.drop_eq_nil_of_le
          unfold slotCount at hend
          omega
        rw [hnil, fetchUnits] at hrest
        cases hrest
        rw [fetchUnits_pad]
        dsimp only
        rw [if_pos (hlast.mpr hend), hend]
      · have hpad : 13 * (t + 1) - u.length = 0 := by
          unfold slotCount at hend ht
          omega
        rw [hpad, slotPad, fetchUnits]
        dsimp only
        rw [if_neg (by rw [hlast]; exact hend)]
        have hpos : (entries - 1 - t) % 21 = (entries - (t + 1)) % 21 := by
          congr 1
          omega
        rw [hpos]
        exact ih (by omega) (by omega) hrest

section Split

def lfnHeader (checksum order : ℕ) (slot : Direntry) : Direntry :=
  overlay 26 [0, 0] (overlay 11 [fatALfn, 0, UInt8.ofNat checksum] (overlay 0 [UInt8.ofNat order] slot))

theorem putUnit_new (h : s.slotPos = 0 ∨ s.slotPos = 13) (x : ℕ) : s.putUnit checksum x =
    { lud := (s.lud.setCde (19 - s.order) (lfnHeader checksum (s.order + 1))).setCde (19 - s.order)
        (overlay 1 (le16 x)), slotPos := 1, order := s.order + 1, namePos := s.namePos + 1 } := by
  obtain ⟨lud, slotPos, order, namePos⟩ := s
  have hk : lfnFetchSlots - 1 - (order + 1) = 19 - order := by
    unfold lfnFetchSlots
    omega
  rcases h with h | h
  · cases h
    rw [SplitState.putUnit, if_neg (by decide : ¬(0 : ℕ) = lfnCharsPerSlot)]
    dsimp only
    rw [if_pos rfl]
    simp only [SplitState.slot, hk]
    rfl
  · cases h
    rw [SplitState.putUnit, if_pos (by decide : (13 : ℕ) = lfnCharsPerSlot)]
    dsimp only
    rw [if_pos rfl]
    simp only [SplitState.slot, hk]
    rfl

theorem putUnit_same (h0 : s.slotPos ≠ 0) (h13 : s.slotPos ≠ 13) (x : ℕ) : s.putUnit checksum x =
    { lud := s.lud.setCde (20 - s.order) (overlay (lfnChars.getD s.slotPos 0) (le16 x)), slotPos := s.slotPos + 1,
      order := s.order, namePos := s.namePos + 1 } := by
  have h13' : ¬s.slotPos = lfnCharsPerSlot := h13
  rw [SplitState.putUnit, if_neg h13', if_neg h0]
  rfl

theorem putUnit_namePos (x : ℕ) : (s.putUnit checksum x).namePos = s.namePos + 1 := by
  by_cases h : s.slotPos = 0 ∨ s.slotPos = 13
  · rw [putUnit_new h]
  · obtain ⟨h0, h13⟩ := not_or.mp h
    rw [putUnit_same h0 h13]

theorem putUnits_ok (h : s.namePos + us.length < fatLfnMax) :
    s.putUnits checksum us = (true, us.foldl (fun s x => s.putUnit checksum x) s) := by
  induction us generalizing s with
  | nil => rfl
  | cons x us ih =>
    rw [List.length_cons] at h
    have hname := @putUnit_namePos checksum s x
    rw [SplitState.putUnits, if_neg (by rw [hname]; omega), ih (by rw [hname]; omega), List.foldl_cons]

theorem foldl_putUnit_namePos (us : List ℕ) (s : SplitState) :
    (us.foldl (fun s x => s.putUnit checksum x) s).namePos = s.namePos + us.length := by
  induction us generalizing s with
  | nil => rfl
  | cons x us ih =>
    rw [List.foldl_cons, ih, putUnit_namePos, List.length_cons]
    omega

theorem splitChars_ok {wcs : List ℕ} {fuel : ℕ} {fn : List UInt8}
    (hdec : decodeAll unicodeUtf8ToWchar fuel fn = .ok (wcs, [])) (henc : encodeAll unicodeWcharToUtf16le wcs = .ok u)
    (hl : s.namePos + u.length < fatLfnMax) :
    splitChars checksum fuel fn s = (.ok (), u.foldl (fun s x => s.putUnit checksum x) s) := by
  induction fuel generalizing fn wcs u s with
  | zero =>
    cases hdec
    cases henc
    rfl
  | succ fuel ih =>
    cases fn with
    | nil =>
      cases hdec
      cases henc
      rfl
    | cons b fn =>
      rw [decodeAll] at hdec
      rw [splitChars, if_neg (by simp)]
      cases hd : unicodeUtf8ToWchar (b :: fn) with
      | error e =>
        rw [hd] at hdec
        cases hdec
      | ok r =>
        obtain ⟨wc, res⟩ := r
        rw [hd] at hdec
        obtain ⟨⟨as, rest⟩, hq, hcons⟩ := map_eq_ok hdec
        cases hcons
        obtain ⟨x, y, hx, hy, rfl⟩ := encodeAll_cons_inv henc
        rw [List.length_append] at hl
        dsimp only
        rw [hx]
        dsimp only
        rw [putUnits_ok (by omega)]
        dsimp only
        rw [ih hq hy (by rw [foldl_putUnit_namePos]; omega), List.foldl_append]

theorem get16_overlay {o o' x : ℕ} (hx : x < 65536) (d : Direntry) (ho : o = o' ∨ o + 2 ≤ o' ∨ o' + 2 ≤ o) :
    get16 (overlay o (le16 x) d) o' = if o = o' then x else get16 d o' := by
  have hlen : (le16 x).length = 2 := rfl
  rcases ho with rfl | ho | ho
  · have h0 := overlay_at (o := o) (d := d) (i := 0) (by rw [hlen]; omega : 0 < (le16 x).length)
    have h1 := overlay_at (o := o) (d := d) (i := 1) (by rw [hlen]; omega : 1 < (le16 x).length)
    rw [Nat.add_zero] at h0
    rw [if_pos rfl, get16, h0, h1]
    simp only [le16, List.getD_cons_zero, List.getD_cons_succ, UInt8.toNat_ofNat']
    omega
  · rw [if_neg (by omega), get16, get16, overlay_of_ge (by rw [hlen]; omega), overlay_of_ge (by rw [hlen]; omega)]
  · rw [if_neg (by omega), get16, get16, overlay_of_lt (by omega), overlay_of_lt (by omega)]

theorem overlay_le16_of_ne {o x i : ℕ} (d : Direntry) (h : i < o ∨ o + 2 ≤ i) : overlay o (le16 x) d i = d i := by
  have hlen : (le16 x).length = 2 := rfl
  rcases h with h | h
  · exact overlay_of_lt h
  · exact overlay_of_ge (by rw [hlen]; exact h)

theorem lfnChars_apart : ∀ i < 13, ∀ j < 13, lfnChars.getD i 0 = lfnChars.getD j 0 ∧ i = j ∨
    lfnChars.getD i 0 + 2 ≤ lfnChars.getD j 0 ∨ lfnChars.getD j 0 + 2 ≤ lfnChars.getD i 0 := by
  decide

theorem lfnChars_place : ∀ i < 13, 1 ≤ lfnChars.getD i 0 ∧ (lfnChars.getD i 0 + 2 ≤ 11 ∨ 14 ≤ lfnChars.getD i 0) := by
  decide

theorem get16_lfnChars {i j x : ℕ} (hi : i < 13) (hj : j < 13) (hx : x < 65536) (d : Direntry) :
    get16 (overlay (lfnChars.getD i 0) (le16 x) d) (lfnChars.getD j 0) =
      if i = j then x else get16 d (lfnChars.getD j 0) := by
  have h := lfnChars_apart i hi j hj
  rw [get16_overlay hx d (by omega)]
  by_cases hij : i = j
  · rw [if_pos hij, if_pos (by rw [hij])]
  · rw [if_neg hij, if_neg (by omega)]

/-- What tells a slot of a long name and its place in it. -/
structure LfnHead (checksum order : ℕ) (de : Direntry) : Prop where
  order : (de 0).toNat = order
  attr : de.attr = fatALfn
  checksum : (de 13).toNat = checksum % 256

theorem lfnHead_header {order : ℕ} (ho : order < 256) (d : Direntry) :
    LfnHead checksum order (lfnHeader checksum order d) where
  order := by
    change (UInt8.ofNat order).toNat = order
    rw [UInt8.toNat_ofNat', Nat.mod_eq_of_lt ho]
  attr := rfl
  checksum := by
    change (UInt8.ofNat checksum).toNat = checksum % 256
    rw [UInt8.toNat_ofNat']

theorem LfnHead.putUnit {order i : ℕ} {d : Direntry} (h : LfnHead checksum order d) (hi : i < 13) (x : ℕ) :
    LfnHead checksum order (overlay (lfnChars.getD i 0) (le16 x) d) := by
  have hp := lfnChars_place i hi
  have h0 : overlay (lfnChars.getD i 0) (le16 x) d 0 = d 0 := overlay_le16_of_ne d (by omega)
  have h11 : overlay (lfnChars.getD i 0) (le16 x) d 11 = d 11 := overlay_le16_of_ne d (by omega)
  have h13 : overlay (lfnChars.getD i 0) (le16 x) d 13 = d 13 := overlay_le16_of_ne d (by omega)
  exact ⟨by rw [h0]; exact h.order, h11.trans h.attr, by rw [h13]; exact h.checksum⟩

/-- The units `u` have been put into the slots. -/
structure Filled (checksum : ℕ) (u : List ℕ) (s : SplitState) : Prop where
  order : s.order = slotCount u.length
  slotPos : s.slotPos + 13 * (s.order - 1) = u.length
  head : ∀ t < s.order, LfnHead checksum (t + 1) (s.lud.cde (19 - t))
  unit : ∀ i x, u[i]? = some x → get16 (s.lud.cde (19 - i / 13)) (lfnChars.getD (i % 13) 0) = x

theorem Filled.putUnit_eq (h : Filled checksum u s) (x : ℕ) : s.putUnit checksum x =
    { lud := s.lud.setCde (19 - u.length / 13) fun slot => overlay (lfnChars.getD (u.length % 13) 0) (le16 x)
        (if u.length % 13 = 0 then lfnHeader checksum (u.length / 13 + 1) slot else slot)
      slotPos := u.length % 13 + 1, order := u.length / 13 + 1, namePos := s.namePos + 1 } := by
  have ho := h.order
  have hp := h.slotPos
  unfold slotCount at ho
  by_cases hm : u.length % 13 = 0
  · have horder : s.order = u.length / 13 := by omega
    rw [putUnit_new (by omega), horder, hm]
    simp only [LookupData.setCde, if_true]
    congr 2
    funext j
    by_cases hj : j = 19 - u.length / 13
    · simp only [if_pos hj]
      rfl
    · simp only [if_neg hj]
  · have horder : s.order = u.length / 13 + 1 := by omega
    have hpos : s.slotPos = u.length % 13 := by omega
    have hk : 20 - (u.length / 13 + 1) = 19 - u.length / 13 := by omega
    rw [putUnit_same (by omega) (by omega), horder, hpos, hk]
    simp only [if_neg hm]

theorem Filled.putUnit (h : Filled checksum u s) (hl : u.length < 260) {x : ℕ} (hx : x < 65536) :
    Filled checksum (u ++ [x]) (s.putUnit checksum x) := by
  have ho := h.order
  unfold slotCount at ho
  have hmod := Nat.mod_lt u.length (by omega : 0 < 13)
  rw [h.putUnit_eq x]
  refine ⟨?_, ?_, fun t ht => ?_, fun i y hy => ?_⟩
  · simp only [slotCount, List.length_append, List.length_singleton]
    omega
  · simp only [List.length_append, List.length_singleton]
    omega
  · dsimp only at ht
    simp only [LookupData.setCde]
    by_cases htm : t = u.length / 13
    · rw [if_pos (by rw [htm])]
      apply LfnHead.putUnit _ hmod
      by_cases hm : u.length % 13 = 0
      · rw [if_pos hm, htm]
        exact lfnHead_header (by omega) _
      · rw [if_neg hm]
        exact h.head t (by omega)
    · rw [if_neg (by omega)]
      exact h.head t (by omega)
  · simp only [LookupData.setCde]
    have hi : i < (u ++ [x]).length := (List.getElem?_eq_some_iff.mp hy).1
    rw [List.length_append, List.length_singleton] at hi
    by_cases him : i / 13 = u.length / 13
    · rw [if_pos (by rw [him]), get16_lfnChars hmod (Nat.mod_lt i (by omega)) hx]
      by_cases hlast : i = u.length
      · rw [hlast, List.getElem?_concat_length] at hy
        rw [if_pos (by rw [hlast])]
        exact Option.some.inj hy
      · rw [List.getElem?_append_left (by omega)] at hy
        rw [if_neg (by omega), if_neg (by omega)]
        exact h.unit i y hy
    · rw [List.getElem?_append_left (by omega)] at hy
      rw [if_neg (by omega)]
      exact h.unit i y hy

theorem filled_foldl (hu : ∀ x ∈ u, x < 65536) (hl : u.length < fatLfnMax) (lud : LookupData) :
    Filled checksum u (u.foldl (fun s x => s.putUnit checksum x) ⟨lud, 0, 0, 0⟩) := by
  induction u using List.reverseRecOn with
  | nil => exact ⟨rfl, rfl, fun t ht => absurd ht (Nat.not_lt_zero t), fun i x hx => by simp at hx⟩
  | append_singleton u x ih =>
    rw [List.length_append, List.length_singleton, fatLfnMax] at hl
    rw [List.foldl_append]
    refine (ih (fun y hy => hu y (List.mem_append_left _ hy)) (by unfold fatLfnMax; omega)).putUnit (by omega) ?_
    exact hu x (List.mem_append_right _ List.mem_cons_self)

def putAt (g : ℕ → ℕ) (places : List ℕ) (d : Direntry) : Direntry :=
  places.foldl (fun d i => overlay (lfnChars.getD i 0) (le16 (g i)) d) d

theorem putAt_get16 {g : ℕ → ℕ} (hg : ∀ i, g i < 65536) {places : List ℕ} (hp : ∀ i ∈ places, i < 13) {j : ℕ}
    (hj : j < 13) (d : Direntry) : get16 (putAt g places d) (lfnChars.getD j 0) =
      if j ∈ places then g j else get16 d (lfnChars.getD j 0) := by
  induction places generalizing d with
  | nil => rfl
  | cons i places ih =>
    have hi := hp i List.mem_cons_self
    have hstep : putAt g (i :: places) d = putAt g places (overlay (lfnChars.getD i 0) (le16 (g i)) d) := rfl
    rw [hstep, ih fun k hk => hp k (List.mem_cons_of_mem i hk), get16_lfnChars hi hj (hg i)]
    by_cases hmem : j ∈ places
    · rw [if_pos hmem, if_pos (List.mem_cons_of_mem i hmem)]
    · by_cases hij : i = j
      · rw [if_neg hmem, if_pos hij, if_pos (by rw [hij]; exact List.mem_cons_self), hij]
      · rw [if_neg hmem, if_neg hij, if_neg]
        rw [List.mem_cons, not_or]
        exact ⟨fun h => hij h.symm, hmem⟩

theorem LfnHead.putAt {order : ℕ} {d : Direntry} (h : LfnHead checksum order d) (g : ℕ → ℕ) {places : List ℕ}
    (hp : ∀ i ∈ places, i < 13) : LfnHead checksum order (putAt g places d) := by
  induction places generalizing d with
  | nil => exact h
  | cons i places ih =>
    exact ih (h.putUnit (hp i List.mem_cons_self) (g i)) fun k hk => hp k (List.mem_cons_of_mem i hk)

def padUnit (q i : ℕ) : ℕ := if i = q then 0 else 0xFFFF

theorem close_pad : ∀ q ≤ 13, ((lfnChars.drop q).mapIdx fun i o => (o, if i = 0 then 0 else 0xFFFF)) =
    (List.range' q (13 - q)).map fun i => (lfnChars.getD i 0, padUnit q i) := by
  decide

theorem close_eq (h0 : s.order ≠ 0) (hp : s.slotPos ≤ 13) : s.close =
    { s.lud.setCde (20 - s.order) fun slot => putAt (padUnit s.slotPos) (List.range' s.slotPos (13 - s.slotPos))
        (overlay 0 [slot 0 ||| 0x40] slot) with lfnEntries := s.order } := by
  unfold SplitState.close
  rw [if_neg h0, close_pad _ hp]
  simp only [List.foldl_map]
  rfl

theorem order_last : ∀ t < 20, (UInt8.ofNat (t + 1) ||| 0x40).toNat = t + 1 + 0x40 := by decide

theorem LfnHead.last {d : Direntry} (h : LfnHead checksum (t + 1) d) (ht : t < 20) :
    LfnHead checksum (t + 1 + 0x40) (overlay 0 [d 0 ||| 0x40] d) where
  order := by
    have hd : d 0 = UInt8.ofNat (t + 1) := by
      rw [← h.order, UInt8.ofNat_toNat]
    change (d 0 ||| 0x40).toNat = _
    rw [hd]
    exact order_last t ht
  attr := h.attr
  checksum := h.checksum

theorem slotUnits_getElem? {j : ℕ} (ht : 13 * t ≤ u.length) (hj : j < 13) : (slotUnits u t)[j]? =
    if 13 * t + j < u.length then u[13 * t + j]? else some (padUnit (u.length - 13 * t) j) := by
  rw [slotUnits]
  by_cases hlt : 13 * t + j < u.length
  · rw [if_pos hlt, List.getElem?_append_left (by rw [List.length_take, List.length_drop]; omega),
      List.getElem?_take_of_lt hj, List.getElem?_drop]
  · have hlen : ((u.drop (13 * t)).take 13).length = u.length - 13 * t := by
      rw [List.length_take, List.length_drop]
      omega
    obtain ⟨k, hk⟩ : ∃ k, 13 * (t + 1) - u.length = k + 1 := ⟨13 * (t + 1) - u.length - 1, by omega⟩
    rw [if_neg hlt, List.getElem?_append_right (by rw [hlen]; omega), hlen, hk, slotPad, padUnit]
    by_cases hz : j = u.length - 13 * t
    · rw [if_pos hz, hz, Nat.sub_self, List.getElem?_cons_zero]
    · obtain ⟨i, hi⟩ : ∃ i, j - (u.length - 13 * t) = i + 1 := ⟨j - (u.length - 13 * t) - 1, by omega⟩
      rw [if_neg hz, hi, List.getElem?_cons_succ, List.getElem?_replicate, if_pos (by omega)]

theorem map_lfnChars_eq {units : List ℕ} (hlen : units.length = 13)
    (h : ∀ j < 13, units[j]? = some (get16 de (lfnChars.getD j 0))) : lfnChars.map (get16 de) = units := by
  apply List.ext_getElem?
  intro j
  by_cases hj : j < 13
  · have hget : lfnChars[j]? = some (lfnChars.getD j 0) := by
      rw [List.getD_eq_getElem?_getD, List.getElem?_eq_getElem (show j < lfnChars.length from hj)]
      rfl
    rw [h j hj, List.getElem?_map, hget]
    rfl
  · rw [List.getElem?_eq_none (by rw [List.length_map]; exact Nat.le_of_not_lt hj),
      List.getElem?_eq_none (by rw [hlen]; exact Nat.le_of_not_lt hj)]

theorem length_slotUnits (ht : t < slotCount u.length) : (slotUnits u t).length = 13 := by
  unfold slotCount at ht
  have hpad : ∀ k, (slotPad k).length = k := by
    intro k
    cases k with
    | zero => rfl
    | succ k => rw [slotPad, List.length_cons, List.length_replicate]
  rw [slotUnits, List.length_append, List.length_take, List.length_drop, hpad]
  omega

theorem Filled.close (h : Filled checksum u s) (h1 : 1 ≤ u.length) (hl : u.length < 260) :
    s.close.lfnEntries = slotCount u.length ∧ ∀ t < slotCount u.length,
      LfnSlot checksum (slotOrder (slotCount u.length) t) (slotUnits u t) (s.close.cde (19 - t)) := by
  have ho := h.order
  have hp := h.slotPos
  have hcount : slotCount u.length = (u.length + 12) / 13 := rfl
  rw [close_eq (by omega) (by omega)]
  refine ⟨ho, fun t ht => ?_⟩
  have hrange : ∀ i ∈ List.range' s.slotPos (13 - s.slotPos), i < 13 := fun i hi => by
    have := List.mem_range'_1.mp hi
    omega
  have hpad : ∀ i, padUnit s.slotPos i < 65536 := fun i => by
    unfold padUnit
    split <;> omega
  have hin : ∀ j < 13, 13 * t + j < u.length →
      (slotUnits u t)[j]? = some (get16 (s.lud.cde (19 - t)) (lfnChars.getD j 0)) := fun j hj hlt => by
    rw [slotUnits_getElem? (by omega) hj, if_pos hlt]
    have hx := List.getElem?_eq_getElem hlt
    have hunit := h.unit _ _ hx
    rw [show (13 * t + j) / 13 = t by omega, show (13 * t + j) % 13 = j by omega] at hunit
    rw [hx, hunit]
  simp only [LookupData.setCde]
  by_cases hlast : t + 1 = slotCount u.length
  · have hhead := ((h.head t (by omega)).last (by omega)).putAt (padUnit s.slotPos) hrange
    rw [if_pos (by omega), slotOrder, if_pos hlast]
    refine ⟨hhead.order, hhead.attr, hhead.checksum, map_lfnChars_eq (length_slotUnits ht) fun j hj => ?_⟩
    have hplace := lfnChars_place j hj
    have hfirst : get16 (overlay 0 [s.lud.cde (19 - t) 0 ||| 0x40] (s.lud.cde (19 - t))) (lfnChars.getD j 0) =
        get16 (s.lud.cde (19 - t)) (lfnChars.getD j 0) := by
      rw [get16, get16, overlay_of_ge (by simp only [List.length_singleton]; omega),
        overlay_of_ge (by simp only [List.length_singleton]; omega)]
    rw [putAt_get16 hpad hrange hj, hfirst]
    by_cases hlt : 13 * t + j < u.length
    · rw [if_neg (by rw [List.mem_range'_1]; omega), hin j hj hlt]
    · rw [if_pos (by rw [List.mem_range'_1]; omega), slotUnits_getElem? (by omega) hj, if_neg hlt,
        show u.length - 13 * t = s.slotPos by omega]
  · have hhead := h.head t (by omega)
    rw [if_neg (by omega), slotOrder, if_neg hlast]
    refine ⟨hhead.order, hhead.attr, hhead.checksum, map_lfnChars_eq (length_slotUnits ht) fun j hj => ?_⟩
    exact hin j hj (by omega)

end Split

theorem LfnSlot.congr {order : ℕ} {units : List ℕ} {d e : Direntry} (h : LfnSlot checksum order units e)
    (hb : d.toBytes = e.toBytes) : LfnSlot checksum order units d where
  order := by
    rw [toBytes_eq hb (by decide)]
    exact h.order
  attr := (toBytes_eq hb (by decide)).trans h.attr
  checksum := by
    rw [toBytes_eq hb (by decide)]
    exact h.checksum
  units := by
    rw [← h.units]
    apply List.map_congr_left
    have hplace : ∀ o ∈ lfnChars, o + 1 < 32 := by decide
    intro o ho
    have := hplace o ho
    rw [get16, get16, toBytes_eq hb (by omega), toBytes_eq hb (by omega)]

theorem LfnSlot.passed {k : ℕ} {units : List ℕ} (h : LfnSlot checksum (slotOrder k t) units de) : de 0 ≠ fatEndofdir ∧ de.isShort = false := by
  have hattr := h.attr
  refine ⟨fun h0 => ?_, ?_⟩
  · have ho := h.order
    rw [h0, slotOrder] at ho
    change 0 = _ at ho
    split at ho <;> omega
  · have hpart : (!hasAttr fatALfn fatAVolid || fatALfn == fatAVolid) = false := by decide
    rw [Direntry.isShort, hattr, hpart, Bool.and_false]

theorem unit_lt {wcs : List ℕ} (h : encodeAll unicodeWcharToUtf16le wcs = .ok u) : ∀ x ∈ u, x < 65536 := by
  refine encodeAll_forall (fun wc x hx => ?_) h
  rw [wcharToUtf16le_eq] at hx
  split at hx
  · cases hx
    simpa using ‹wc < 0x10000›
  · split at hx
    · cases hx
      intro y hy
      rcases List.mem_cons.mp hy with rfl | hy
      · exact Nat.mod_lt _ (by decide)
      · rw [List.mem_singleton.mp hy]
        omega
    · cases hx

/-- The slots of the long name, in the order in which `fat_link` stores them. -/
def LookupData.lfnSlots (lud : LookupData) : List Direntry :=
  (List.range lud.lfnEntries).map fun i => lud.cde (lfnFetchSlots - 1 - lud.lfnEntries + i)

theorem length_lfnSlots (lud : LookupData) : lud.lfnSlots.length = lud.lfnEntries := by
  rw [LookupData.lfnSlots, List.length_map, List.length_range]

theorem splitLfn_slots {fn : List UInt8} {wcs : List ℕ}
    (hdec : decodeAll unicodeUtf8ToWchar fn.length fn = .ok (wcs, []))
    (henc : encodeAll unicodeWcharToUtf16le wcs = .ok u) (h1 : 1 ≤ u.length) (hl : u.length < fatLfnMax) :
    (splitLfn fn checksum lud).1 = .ok () ∧ (splitLfn fn checksum lud).2.lfnSlots.length = slotCount u.length ∧
      ∀ t < slotCount u.length, ∃ de, (splitLfn fn checksum lud).2.lfnSlots[slotCount u.length - 1 - t]? = some de ∧
        LfnSlot checksum (slotOrder (slotCount u.length) t) (slotUnits u t) de := by
  have hfill : Filled checksum u (u.foldl (fun s x => s.putUnit checksum x) ⟨lud, 0, 0, 0⟩) :=
    filled_foldl (unit_lt henc) hl lud
  have hsplit : splitChars checksum fn.length fn ⟨lud, 0, 0, 0⟩ =
      (.ok (), u.foldl (fun s x => s.putUnit checksum x) ⟨lud, 0, 0, 0⟩) := by
    apply splitChars_ok hdec henc
    rw [Nat.zero_add]
    exact hl
  obtain ⟨hentries, hslots⟩ := hfill.close h1 hl
  have hn : slotCount u.length ≤ 20 := by
    unfold slotCount
    unfold fatLfnMax at hl
    omega
  rw [splitLfn, hsplit]
  dsimp only
  refine ⟨rfl, by rw [length_lfnSlots, hentries], fun t ht => ⟨_, ?_, hslots t ht⟩⟩
  have hidx : lfnFetchSlots - 1 - slotCount u.length + (slotCount u.length - 1 - t) = 19 - t := by
    unfold lfnFetchSlots
    omega
  rw [LookupData.lfnSlots, hentries, List.getElem?_map, List.getElem?_range (by omega), Option.map_some, hidx]

theorem fetchLfn_slots {des : List Direntry} {short : Direntry} {filePointer : ℕ} (hu : NameUnits u)
    (hwf : utf16Decode u = some chars) (h1 : 1 ≤ u.length) (hl : u.length < fatLfnMax) (h0 : lud.cdePos = 0)
    (hle : slotCount u.length ≤ des.length) (hfp : 21 ≤ des.length → 21 * 32 ≤ filePointer)
    (hslots : ∀ t < slotCount u.length, ∃ de, des[des.length - 1 - t]? = some de ∧
      LfnSlot (lfnChecksum short.name) (slotOrder (slotCount u.length) t) (slotUnits u t) de) :
    fetchLfn filePointer ((lud.fetchAll des).fetch short) = .ok (slotCount u.length, chars) := by
  obtain ⟨hpos, hring⟩ := fetchAll_ring des h0
  have hn : slotCount u.length ≤ 20 ∧ 0 < slotCount u.length := by
    unfold slotCount
    unfold fatLfnMax at hl
    omega
  have hcur : ((lud.fetchAll des).fetch short).cdePos = (des.length - 0) % 21 := hpos
  have hname : (((lud.fetchAll des).fetch short).cde ((des.length - 0) % 21)).name = short.name := by
    apply List.map_congr_left
    intro i hi
    simp only [LookupData.fetch, LookupData.setCde, hpos]
    rw [if_pos (by rw [Nat.sub_zero])]
    exact overlay_toBytes _ _ (by have := List.mem_range.mp hi; omega)
  rw [fetchLfn, hcur, hname]
  refine fetchSlots_run hu hn.1 hle hfp (fun t ht => ?_) hn.2 (by omega) ?_
  · obtain ⟨de, hde, hs⟩ := hslots t ht
    refine hs.congr ?_
    rw [← hring t (by omega) (by omega) de hde]
    simp only [LookupData.fetch, LookupData.setCde, hpos]
    rw [if_neg (by omega)]
  · rw [Nat.mul_zero, List.drop_zero]
    have hlen := length_utf16Decode hwf
    exact fetchUnits_decode hu hwf (by simp only [List.length_nil]; omega)

theorem names_of_fetchLfn {filePointer k : ℕ} (h : fetchLfn filePointer lud = .ok (k, chars)) :
    (lud.names filePointer).1 = (match expandFcbName (lud.cde lud.cdePos).name with
        | .ok _ => .ok ()
        | .error e => .error e) ∧
      (lud.names filePointer).2.lfn = chars ∧ (lud.names filePointer).2.lfnEntries = k ∧
      (lud.names filePointer).2.cde = lud.cde ∧ (lud.names filePointer).2.cdePos = lud.cdePos := by
  rw [LookupData.names, h]
  cases expandFcbName (lud.cde lud.cdePos).name <;> exact ⟨rfl, rfl, rfl, rfl, rfl⟩

/-- A long name is read back as it has been split, wherever in a directory its slots are and whatever has
been read before them. -/
theorem fatDoReaddir_splitLfn {v : Volume} {l : List ℕ} {c : ℕ} {fn : List UInt8} {wcs : List ℕ} {short : Direntry}
    {before : List Direntry} (hdec : decodeAll unicodeUtf8ToWchar fn.length fn = .ok (wcs, []))
    (henc : encodeAll unicodeWcharToUtf16le wcs = .ok u) (hwf : utf16Decode u = some chars) (hz : 0 ∉ u)
    (h1 : 1 ≤ u.length) (hl : u.length < 260) (hshort : short.isShort = true) (hlive : short 0 ≠ fatEndofdir)
    (hbefore : ∀ de ∈ before, de 0 ≠ fatEndofdir ∧ de.isShort = false)
    (hdir : OpenDir l c v) (hpointer : (v.channels c).filePointer = 32 * n)
    (hstored : Stored (v.slot l c) n
      (before ++ (splitLfn fn (lfnChecksum short.name) lud).2.lfnSlots ++ [short]))
    (hbound : before.length + 21 ≤ v.geo.loopBound) :
    (splitLfn fn (lfnChecksum short.name) lud).1 = .ok () ∧
      ∃ w, (fatDoReaddir c).run v = (match expandFcbName short.name with
          | .ok _ => .ok ()
          | .error e => .error e, w) ∧
        w.lud.lfn = chars ∧ w.lud.lfnEntries = (splitLfn fn (lfnChecksum short.name) lud).2.lfnSlots.length ∧
        (w.lud.cde w.lud.cdePos).toBytes = short.toBytes := by
  obtain ⟨hok, hlen, hslots⟩ := @splitLfn_slots u (lfnChecksum short.name) lud fn wcs hdec henc h1 hl
  refine ⟨hok, ?_⟩
  generalize hd : (splitLfn fn (lfnChecksum short.name) lud).2.lfnSlots = slots at hstored hlen hslots ⊢
  have hn : slotCount u.length ≤ 20 := by
    unfold slotCount
    omega
  have hlength : (before ++ slots).length = before.length + slotCount u.length := by rw [List.length_append, hlen]
  have hskip : ∀ de ∈ before ++ slots, de 0 ≠ fatEndofdir ∧ de.isShort = false := by
    intro de hde
    rcases List.mem_append.mp hde with hde | hde
    · exact hbefore de hde
    · obtain ⟨i, hi⟩ := List.mem_iff_getElem?.mp hde
      have hlt : i < slots.length := (List.getElem?_eq_some_iff.mp hi).1
      obtain ⟨e, he, hs⟩ := hslots (slotCount u.length - 1 - i) (by omega)
      rw [show slotCount u.length - 1 - (slotCount u.length - 1 - i) = i by omega, hi] at he
      cases he
      exact hs.passed
  have hprefix : Stored (v.slot l c) n (before ++ slots) := fun i de hde =>
    hstored i de (by rw [List.getElem?_append_left (List.getElem?_eq_some_iff.mp hde).1]; exact hde)
  obtain ⟨d, hslot, hbytes⟩ := Option.map_eq_some_iff.mp (hstored (before ++ slots).length short (by
    rw [List.getElem?_concat_length]))
  -- the slots of the long name are the last ones read before the short entry
  have hlast : ∀ t < slotCount u.length, ∃ de, (before ++ slots)[(before ++ slots).length - 1 - t]? = some de ∧
      LfnSlot (lfnChecksum short.name) (slotOrder (slotCount u.length) t) (slotUnits u t) de := by
    intro t ht
    obtain ⟨de, hde, hs⟩ := hslots t ht
    refine ⟨de, ?_, hs⟩
    rw [List.getElem?_append_right (by omega), ← hde]
    congr 1
    omega
  have hunits : NameUnits u := fun x hx => ⟨fun h => hz (h ▸ hx), unit_lt henc x hx⟩
  have hfetch : fetchLfn (32 * (n + (before ++ slots).length + 1))
      ((({ v.lud with cdePos := 0 } : LookupData).fetchAll (before ++ slots)).fetch short) =
        .ok (slotCount u.length, chars) :=
    fetchLfn_slots hunits hwf h1 hl rfl (by omega) (by omega) hlast
  obtain ⟨w, hrun, hsc⟩ := fatDoReaddir_run hdir hpointer
  obtain ⟨fuel, hfuel⟩ : ∃ fuel, v.geo.loopBound = fuel + 1 + (before ++ slots).length :=
    ⟨v.geo.loopBound - 1 - (before ++ slots).length, by omega⟩
  have hread : ∀ lud : LookupData, lud.fetch d = lud.fetch short := fun lud => by
    rw [LookupData.fetch, LookupData.fetch, hbytes]
  rw [hfuel, scan_skip hprefix hskip, scan, hslot] at hrun hsc
  dsimp only at hrun hsc
  rw [if_neg (by rw [toBytes_eq hbytes (by decide)]; exact hlive), if_pos (by rw [isShort_eq hbytes]; exact hshort),
    hread] at hrun hsc
  obtain ⟨hres, hlfn, hentries, hcde, hpos⟩ := names_of_fetchLfn hfetch
  have hcur := fetch_current short (({ v.lud with cdePos := 0 } : LookupData).fetchAll (before ++ slots))
  refine ⟨w, ?_, ?_, ?_, ?_⟩
  · rw [hrun, hres, name_eq hcur]
  · rw [hsc.names]
    exact hlfn
  · rw [hsc.names, hlen]
    exact hentries
  · rw [hsc.names]
    dsimp only
    rw [hcde, hpos]
    exact hcur

def twoSlotName : List UInt8 := List.replicate 12 0x41 ++ [0xF0, 0x90, 0x80, 0x81]

def twoSlotShort : Direntry := Direntry.ofBytes ([0x41, 0x41, 0x41, 0x41, 0x41, 0x41, 0x7E, 0x31, 0x20, 0x20, 0x20] ++ [0x20])

def twoSlotEntries : List Direntry :=
  Direntry.ofBytes [fatFreeent] ::
    (splitLfn twoSlotName (lfnChecksum twoSlotShort.name) emptyFloppy.lud).2.lfnSlots ++ [twoSlotShort]

def twoSlotVolume : Volume := { freshVolume floppyGeometry quietEnv
    (fun s i => if s = 3 then (twoSlotEntries.flatMap Direntry.toBytes).getD i 0 else 0) 10 6 with
  files := fun _ => {
    de := rootDirentry floppyGeometry, deChanged := false, deSector := 0, deSecofs := 0, firstCluster := 0, references := 1 }
  channels := fun _ => {
    filePointer := 0, f := 1, magic := true, flags := 0, references := 1, clusterIndex := 0, cluster := 0, dentry := none } }

theorem twoSlotVolume_openDir : OpenDir [] 1 twoSlotVolume where
  sound := Sound.of_same ⟨freshVolume_mediaOk floppyGeometry quietEnv _ 10 6, floppyGeometry_geoOk⟩ rfl rfl
  chain := ⟨trivial, by simp, rfl, .inl rfl⟩
  dir := by decide
  reads := ⟨rfl, rfl⟩
  aligned := by decide

theorem stored_of_bytes {slot : ℕ → Option Direntry} {des : List Direntry}
    (h : ∀ i < des.length, (slot (n + i)).map Direntry.toBytes = (des.map Direntry.toBytes)[i]?) : Stored slot n des := by
  intro i de hde
  rw [h i (List.getElem?_eq_some_iff.mp hde).1, List.getElem?_map, hde]
  rfl

theorem fatDoReaddir_splitLfn_two : ∃ w, (fatDoReaddir 1).run twoSlotVolume = (.ok (), w) ∧
    w.lud.lfn = List.replicate 12 0x41 ++ [0x10001] ∧ w.lud.lfnEntries = 2 := by
  have hstored : Stored (twoSlotVolume.slot [] 1) 0 ([Direntry.ofBytes [fatFreeent]] ++
      (splitLfn twoSlotName (lfnChecksum twoSlotShort.name) emptyFloppy.lud).2.lfnSlots ++ [twoSlotShort]) :=
    stored_of_bytes (by decide +kernel)
  have hdec : decodeAll unicodeUtf8ToWchar twoSlotName.length twoSlotName =
      .ok (List.replicate 12 0x41 ++ [0x10001], []) := by decide
  have henc : encodeAll unicodeWcharToUtf16le (List.replicate 12 0x41 ++ [0x10001]) =
      .ok (List.replicate 12 0x41 ++ [0xD800, 0xDC01]) := by decide
  have hwf : utf16Decode (List.replicate 12 0x41 ++ [0xD800, 0xDC01]) = some (List.replicate 12 0x41 ++ [0x10001]) := by
    decide
  obtain ⟨-, w, hrun, hlfn, hentries, -⟩ := fatDoReaddir_splitLfn hdec henc hwf (by decide) (by decide) (by decide)
    (by decide) (by decide) (by decide) twoSlotVolume_openDir rfl hstored (by decide)
  exact ⟨w, hrun, hlfn, hentries⟩

end FreeDos32.Fat
