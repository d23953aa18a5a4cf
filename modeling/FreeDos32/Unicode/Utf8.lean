import Mathlib.Data.Nat.Bitwise
import FreeDos32.Library.Codec
import FreeDos32.Unicode.Utf

namespace FreeDos32.Unicode

theorem lead_class : ∀ n < 256, leadTable.findIdx? (fun t => n &&& t.1 == t.2) =
    if n < 0x80 then some 0 else if n < 0xC0 then none else if n < 0xE0 then some 1 else if n < 0xF0 then some 2
    else if n < 0xF8 then some 3 else none := by
  decide +kernel

theorem lead_bits : ∀ n < 256, ∀ k < 4, (n &&& (0xFF - (leadTable.getD k (0, 0)).1)) = n % [128, 32, 16, 8].getD k 0 := by
  decide +kernel

theorem continuation_bits : ∀ n < 256, (n &&& 0xC0 = 0x80 ↔ 0x80 ≤ n ∧ n < 0xC0) ∧ n &&& 0x3F = n % 64 := by
  decide +kernel

theorem shift_or {x y : ℕ} (hy : y < 64) : (x <<< 6) ||| y = x * 64 + y := by
  rw [← Nat.shiftLeft_add_eq_or_of_lt hy, Nat.shiftLeft_eq]

def IsTail (b : UInt8) : Prop := 0x80 ≤ b.toNat ∧ b.toNat < 0xC0

instance (b : UInt8) : Decidable (IsTail b) := inferInstanceAs (Decidable (_ ∧ _))

theorem continuation_cons (k wc : ℕ) (b : UInt8) (bs : List UInt8) :
    continuation (k + 1) wc (b :: bs) = if IsTail b
      then continuation k (wc * 64 + b.toNat % 64) bs else .error .eilseq := by
  obtain ⟨hc, hb⟩ := continuation_bits b.toNat b.toNat_lt
  rw [continuation, hb, shift_or (Nat.mod_lt _ (by decide))]
  by_cases h : IsTail b
  · rw [if_neg (not_not.mpr (hc.mpr h)), if_pos h]
  · rw [if_pos (fun he => h (hc.mp he)), if_neg h]

def tailCount (lead : ℕ) : ℕ := if lead < 0xE0 then 1 else if lead < 0xF0 then 2 else 3

theorem utf8ToWchar_cons (b : UInt8) (bs : List UInt8) : unicodeUtf8ToWchar (b :: bs) =
    if b.toNat < 0x80 then .ok (b.toNat, 1)
    else if b.toNat < 0xC0 ∨ 0xF8 ≤ b.toNat then .error .eilseq
    else if bs.length < tailCount b.toNat then .error .enametoolong
    else (continuation (tailCount b.toNat) (b.toNat % [128, 32, 16, 8].getD (tailCount b.toNat) 0) bs).map
      (·, tailCount b.toNat + 1) := by
  have hb := b.toNat_lt
  unfold tailCount
  rw [unicodeUtf8ToWchar, lead_class _ hb]
  by_cases h0 : b.toNat < 0x80
  · simp only [if_pos h0, lead_bits _ hb 0 (by decide)]
    rw [if_neg (by omega), continuation]
    have : b.toNat % 128 = b.toNat := Nat.mod_eq_of_lt h0
    simp [Except.map, this]
  · rw [if_neg h0, if_neg h0]
    by_cases h1 : b.toNat < 0xC0
    · rw [if_pos h1, if_pos (.inl h1)]
    · rw [if_neg h1]
      by_cases h2 : b.toNat < 0xE0
      · simp only [if_pos h2, lead_bits _ hb 1 (by decide)]
        rw [if_neg (show ¬(b.toNat < 0xC0 ∨ 0xF8 ≤ b.toNat) by omega)]
      · by_cases h3 : b.toNat < 0xF0
        · simp only [if_neg h2, if_pos h3, lead_bits _ hb 2 (by decide)]
          rw [if_neg (show ¬(b.toNat < 0xC0 ∨ 0xF8 ≤ b.toNat) by omega)]
        · by_cases h4 : b.toNat < 0xF8
          · simp only [if_neg h2, if_neg h3, if_pos h4, lead_bits _ hb 3 (by decide)]
            rw [if_neg (show ¬(b.toNat < 0xC0 ∨ 0xF8 ≤ b.toNat) by omega)]
          · simp only [if_neg h2, if_neg h3, if_neg h4]
            rw [if_pos (by omega)]

theorem wcharToUtf8_eq {wc size : ℕ} (hsize : 4 ≤ size) : unicodeWcharToUtf8 wc size =
    if wc < 0x80 then .ok [UInt8.ofNat wc]
    else if wc < 0x800 then .ok [UInt8.ofNat (0xC0 + wc / 64), UInt8.ofNat (0x80 + wc % 64)]
    else if wc < 0x10000 then
      .ok [UInt8.ofNat (0xE0 + wc / 4096), UInt8.ofNat (0x80 + wc / 64 % 64), UInt8.ofNat (0x80 + wc % 64)]
    else if wc < 0x200000 then
      .ok [UInt8.ofNat (0xF0 + wc / 262144), UInt8.ofNat (0x80 + wc / 4096 % 64), UInt8.ofNat (0x80 + wc / 64 % 64),
        UInt8.ofNat (0x80 + wc % 64)]
    else .error .einval := by
  have hand : ∀ x, x &&& 0x3F = x % 64 := fun x => Nat.and_two_pow_sub_one_eq_mod x 6
  have hcont : ∀ x < 64, 0x80 ||| x = 0x80 + x := by decide
  have hlead2 : ∀ x < 32, 0xC0 ||| x = 0xC0 + x := by decide
  have hlead3 : ∀ x < 16, 0xE0 ||| x = 0xE0 + x := by decide
  have hlead4 : ∀ x < 8, 0xF0 ||| x = 0xF0 + x := by decide
  have hmod : ∀ x, x % 64 < 64 := fun x => Nat.mod_lt x (by decide)
  rw [unicodeWcharToUtf8, if_pos (Int.natCast_nonneg wc)]
  simp only [Int.toNat_natCast, Nat.shiftRight_eq_div_pow, Nat.div_div_eq_div_mul, hand]
  split
  · rw [if_neg (by omega)]
  · split
    · rw [if_neg (by omega), hlead2 _ (by omega), hcont _ (hmod _)]
    · split
      · rw [if_neg (by omega), hlead3 _ (by omega), hcont _ (hmod _), hcont _ (hmod _)]
      · split
        · rw [if_neg (by omega), hlead4 _ (by omega), hcont _ (hmod _), hcont _ (hmod _), hcont _ (hmod _)]
        · rfl

theorem toNat_ofNat_byte {x : ℕ} (hx : x < 256) : (UInt8.ofNat x).toNat = x := by
  rw [UInt8.toNat_ofNat']
  exact Nat.mod_eq_of_lt hx

theorem utf8_two {b c : UInt8} {t : List UInt8} (hb : 0xC0 ≤ b.toNat ∧ b.toNat < 0xE0) (hc : IsTail c) :
    unicodeUtf8ToWchar (b :: c :: t) = .ok (b.toNat % 32 * 64 + c.toNat % 64, 2) := by
  rw [utf8ToWchar_cons, if_neg (by omega), if_neg (by omega)]
  simp only [tailCount, if_pos hb.2]
  rw [if_neg (by simp), continuation_cons, if_pos hc, continuation]
  rfl

theorem utf8_three {b c d : UInt8} {t : List UInt8} (hb : 0xE0 ≤ b.toNat ∧ b.toNat < 0xF0) (hc : IsTail c)
    (hd : IsTail d) : unicodeUtf8ToWchar (b :: c :: d :: t) =
      .ok ((b.toNat % 16 * 64 + c.toNat % 64) * 64 + d.toNat % 64, 3) := by
  rw [utf8ToWchar_cons, if_neg (by omega), if_neg (by omega)]
  simp only [tailCount, if_neg (show ¬b.toNat < 0xE0 by omega), if_pos hb.2]
  rw [if_neg (by simp), continuation_cons, if_pos hc, continuation_cons, if_pos hd, continuation]
  rfl

theorem utf8_four {b c d e : UInt8} {t : List UInt8} (hb : 0xF0 ≤ b.toNat ∧ b.toNat < 0xF8) (hc : IsTail c)
    (hd : IsTail d) (he : IsTail e) : unicodeUtf8ToWchar (b :: c :: d :: e :: t) =
      .ok (((b.toNat % 8 * 64 + c.toNat % 64) * 64 + d.toNat % 64) * 64 + e.toNat % 64, 4) := by
  rw [utf8ToWchar_cons, if_neg (by omega), if_neg (by omega)]
  simp only [tailCount, if_neg (show ¬b.toNat < 0xE0 by omega), if_neg (show ¬b.toNat < 0xF0 by omega)]
  rw [if_neg (by simp), continuation_cons, if_pos hc, continuation_cons, if_pos hd, continuation_cons, if_pos he,
    continuation]
  rfl

inductive Accepted : List UInt8 → ℕ → ℕ → Prop
  | one {b : UInt8} {t : List UInt8} (hb : b.toNat < 0x80) : Accepted (b :: t) b.toNat 1
  | two {b c : UInt8} {t : List UInt8} (hb : 0xC0 ≤ b.toNat ∧ b.toNat < 0xE0) (hc : IsTail c) :
      Accepted (b :: c :: t) (b.toNat % 32 * 64 + c.toNat % 64) 2
  | three {b c d : UInt8} {t : List UInt8} (hb : 0xE0 ≤ b.toNat ∧ b.toNat < 0xF0) (hc : IsTail c) (hd : IsTail d) :
      Accepted (b :: c :: d :: t) ((b.toNat % 16 * 64 + c.toNat % 64) * 64 + d.toNat % 64) 3
  | four {b c d e : UInt8} {t : List UInt8} (hb : 0xF0 ≤ b.toNat ∧ b.toNat < 0xF8) (hc : IsTail c) (hd : IsTail d)
      (he : IsTail e) : Accepted (b :: c :: d :: e :: t)
        (((b.toNat % 8 * 64 + c.toNat % 64) * 64 + d.toNat % 64) * 64 + e.toNat % 64) 4

theorem continuation_inv {k wc r : ℕ} {bs : List UInt8} (h : continuation (k + 1) wc bs = .ok r) :
    ∃ c t, bs = c :: t ∧ IsTail c ∧ continuation k (wc * 64 + c.toNat % 64) t = .ok r := by
  cases bs with
  | nil => simp [continuation] at h
  | cons c t =>
    rw [continuation_cons] at h
    split at h
    · exact ⟨c, t, rfl, ‹_›, h⟩
    · cases h

theorem map_eq_ok {α β ε : Type} {x : Except ε α} {f : α → β} {y : β} (h : x.map f = .ok y) :
    ∃ a, x = .ok a ∧ f a = y := by
  cases x with
  | error e => cases h
  | ok a => exact ⟨a, rfl, by simpa [Except.map] using h⟩

theorem utf8_accepted {s : List UInt8} {wc n : ℕ} (h : unicodeUtf8ToWchar s = .ok (wc, n)) : Accepted s wc n := by
  cases s with
  | nil => simp [unicodeUtf8ToWchar] at h
  | cons b bs =>
    rw [utf8ToWchar_cons] at h
    by_cases h0 : b.toNat < 0x80
    · rw [if_pos h0] at h
      cases h
      exact .one h0
    · rw [if_neg h0] at h
      split at h
      · cases h
      · split at h
        · cases h
        · obtain ⟨r, hr, hrn⟩ := map_eq_ok h
          unfold tailCount at hr hrn
          by_cases h2 : b.toNat < 0xE0
          · rw [if_pos h2] at hr hrn
            obtain ⟨c, t, rfl, hc, h'⟩ := continuation_inv hr
            cases h'
            cases hrn
            exact .two (by omega) hc
          · by_cases h3 : b.toNat < 0xF0
            · rw [if_neg h2, if_pos h3] at hr hrn
              obtain ⟨c, t, rfl, hc, h'⟩ := continuation_inv hr
              obtain ⟨d, t, rfl, hd, h'⟩ := continuation_inv h'
              cases h'
              cases hrn
              exact .three (by omega) hc hd
            · rw [if_neg h2, if_neg h3] at hr hrn
              obtain ⟨c, t, rfl, hc, h'⟩ := continuation_inv hr
              obtain ⟨d, t, rfl, hd, h'⟩ := continuation_inv h'
              obtain ⟨e, t, rfl, he, h'⟩ := continuation_inv h'
              cases h'
              cases hrn
              exact .four (by omega) hc hd he

theorem utf8_decodes {wc size : ℕ} (hsize : 4 ≤ size) (hwc : wc < 0x200000) :
    Decodes (fun wc : ℕ => unicodeWcharToUtf8 wc size) unicodeUtf8ToWchar wc := by
  have htail : ∀ x, IsTail (UInt8.ofNat (0x80 + x % 64)) ∧ (UInt8.ofNat (0x80 + x % 64)).toNat % 64 = x % 64 := by
    intro x
    unfold IsTail
    rw [toNat_ofNat_byte (by omega)]
    omega
  unfold Decodes
  simp only [wcharToUtf8_eq hsize]
  by_cases h1 : wc < 0x80
  · rw [if_pos h1]
    refine ⟨_, rfl, by simp, fun t => ?_⟩
    rw [List.cons_append, utf8ToWchar_cons, toNat_ofNat_byte (by omega), if_pos h1]
    rfl
  rw [if_neg h1]
  by_cases h2 : wc < 0x800
  · rw [if_pos h2]
    refine ⟨_, rfl, by simp, fun t => ?_⟩
    have hb : (UInt8.ofNat (0xC0 + wc / 64)).toNat = 0xC0 + wc / 64 := toNat_ofNat_byte (by omega)
    refine (utf8_two (by rw [hb]; omega) (htail _).1).trans ?_
    rw [hb, (htail _).2]
    exact congrArg (fun x => Except.ok (x, 2)) (by omega)
  rw [if_neg h2]
  by_cases h3 : wc < 0x10000
  · rw [if_pos h3]
    refine ⟨_, rfl, by simp, fun t => ?_⟩
    have hb : (UInt8.ofNat (0xE0 + wc / 4096)).toNat = 0xE0 + wc / 4096 := toNat_ofNat_byte (by omega)
    refine (utf8_three (by rw [hb]; omega) (htail _).1 (htail _).1).trans ?_
    rw [hb, (htail _).2, (htail _).2]
    exact congrArg (fun x => Except.ok (x, 3)) (by omega)
  · rw [if_neg h3, if_pos hwc]
    refine ⟨_, rfl, by simp, fun t => ?_⟩
    have hb : (UInt8.ofNat (0xF0 + wc / 262144)).toNat = 0xF0 + wc / 262144 := toNat_ofNat_byte (by omega)
    refine (utf8_four (by rw [hb]; omega) (htail _).1 (htail _).1 (htail _).1).trans ?_
    rw [hb, (htail _).2, (htail _).2, (htail _).2]
    exact congrArg (fun x => Except.ok (x, 4)) (by omega)

/-- The bytes do not start with a form that is longer than the character needs: no lead byte C0 or C1, no E0
before a byte below A0 and no F0 before a byte below 90. -/
def ShortestForm : List UInt8 → Prop
  | b :: c :: _ => ¬(b.toNat = 0xC0 ∨ b.toNat = 0xC1) ∧ ¬(b.toNat = 0xE0 ∧ c.toNat < 0xA0) ∧
      ¬(b.toNat = 0xF0 ∧ c.toNat < 0x90)
  | _ => True

theorem ofNat_eq_byte {x : ℕ} {b : UInt8} (hx : x = b.toNat) : UInt8.ofNat x = b := by
  rw [hx, UInt8.ofNat_toNat]

theorem Accepted.reencodes {s : List UInt8} {wc n size : ℕ} (h : Accepted s wc n) (hsize : 4 ≤ size) :
    unicodeWcharToUtf8 wc size = .ok (s.take n) ↔ ShortestForm s := by
  rw [wcharToUtf8_eq hsize]
  cases h with
  | @one b t hb =>
    rw [if_pos hb]
    refine iff_of_true (by simp) ?_
    cases t with
    | nil => trivial
    | cons c t => exact ⟨by omega, by omega, by omega⟩
  | @two b c t hb hc =>
    obtain ⟨hc1, hc2⟩ := hc
    simp only [ShortestForm]
    by_cases h1 : b.toNat % 32 * 64 + c.toNat % 64 < 0x80
    · rw [if_pos h1]
      exact iff_of_false (by simp) (by omega)
    · rw [if_neg h1, if_pos (by omega)]
      refine iff_of_true ?_ (by omega)
      rw [ofNat_eq_byte (b := b) (by omega), ofNat_eq_byte (b := c) (by omega)]
      rfl
  | @three b c d t hb hc hd =>
    obtain ⟨hc1, hc2⟩ := hc
    obtain ⟨hd1, hd2⟩ := hd
    simp only [ShortestForm]
    by_cases h1 : (b.toNat % 16 * 64 + c.toNat % 64) * 64 + d.toNat % 64 < 0x800
    · refine iff_of_false (fun he => ?_) (by omega)
      split at he
      · simp at he
      · simp at he
    · rw [if_neg (by omega), if_neg h1, if_pos (by omega)]
      refine iff_of_true ?_ (by omega)
      rw [ofNat_eq_byte (b := b) (by omega), ofNat_eq_byte (b := c) (by omega), ofNat_eq_byte (b := d) (by omega)]
      rfl
  | @four b c d e t hb hc hd he =>
    obtain ⟨hc1, hc2⟩ := hc
    obtain ⟨hd1, hd2⟩ := hd
    obtain ⟨he1, he2⟩ := he
    simp only [ShortestForm]
    by_cases h1 : ((b.toNat % 8 * 64 + c.toNat % 64) * 64 + d.toNat % 64) * 64 + e.toNat % 64 < 0x10000
    · refine iff_of_false (fun he => ?_) (by omega)
      split at he
      · simp at he
      · split at he
        · simp at he
        · simp at he
    · rw [if_neg (by omega), if_neg (by omega), if_neg h1, if_pos (by omega)]
      refine iff_of_true ?_ (by omega)
      rw [ofNat_eq_byte (b := b) (by omega), ofNat_eq_byte (b := c) (by omega), ofNat_eq_byte (b := d) (by omega),
        ofNat_eq_byte (b := e) (by omega)]
      rfl

theorem Accepted.utf8Len {s : List UInt8} {wc n : ℕ} (h : Accepted s wc n) :
    ∃ b t, s = b :: t ∧ unicodeUtf8Len b = .ok n := by
  cases h with
  | @one b t hb =>
    refine ⟨b, t, rfl, ?_⟩
    rw [unicodeUtf8Len, lead_class _ b.toNat_lt, if_pos hb]
  | @two b c t hb hc =>
    refine ⟨b, c :: t, rfl, ?_⟩
    rw [unicodeUtf8Len, lead_class _ b.toNat_lt, if_neg (by omega), if_neg (by omega), if_pos hb.2]
  | @three b c d t hb hc hd =>
    refine ⟨b, c :: d :: t, rfl, ?_⟩
    rw [unicodeUtf8Len, lead_class _ b.toNat_lt, if_neg (by omega), if_neg (by omega), if_neg (by omega), if_pos hb.2]
  | @four b c d e t hb hc hd he =>
    refine ⟨b, c :: d :: e :: t, rfl, ?_⟩
    rw [unicodeUtf8Len, lead_class _ b.toNat_lt, if_neg (by omega), if_neg (by omega), if_neg (by omega),
      if_neg (by omega), if_pos hb.2]

/-- What is encoded is decoded; what is decoded is encoded again as it was just when it was a shortest form. -/
theorem utf8_codec (size : ℕ) (hsize : 4 ≤ size) :
    (∀ wcs : List ℕ, (∀ wc ∈ wcs, wc < 0x200000) →
      ∃ s, encodeAll (fun wc : ℕ => unicodeWcharToUtf8 wc size) wcs = .ok s ∧
        decodeAll unicodeUtf8ToWchar s.length s = .ok (wcs, [])) ∧
    ∀ (s : List UInt8) (wc n : ℕ), unicodeUtf8ToWchar s = .ok (wc, n) →
      ((unicodeWcharToUtf8 wc size = .ok (s.take n) ∧ ∃ b t, s = b :: t ∧ unicodeUtf8Len b = .ok n) ↔
        ShortestForm s) := by
  constructor
  · intro wcs hwcs
    obtain ⟨s, hs, hdec⟩ := decodeAll_encodeAll fun wc hwc => utf8_decodes hsize (hwcs wc hwc)
    exact ⟨s, hs, hdec _ (Nat.le_refl _)⟩
  · intro s wc n h
    have hacc := utf8_accepted h
    exact (and_iff_left hacc.utf8Len).trans (hacc.reencodes hsize)

theorem utf8_codec_eacute : unicodeWcharToUtf8 0xE9 4 = .ok [0xC3, 0xA9] ∧ unicodeUtf8Len 0xC3 = .ok 2 := by
  have h := ((utf8_codec 4 (Nat.le_refl _)).2 [0xC3, 0xA9] 0xE9 2 (by decide)).mpr ⟨by decide, by decide, by decide⟩
  exact ⟨h.1, by decide⟩

/-- The bytes C0 80 are accepted as the character 0, which is encoded as one byte. -/
theorem utf8_overlong : unicodeUtf8ToWchar [0xC0, 0x80] = .ok (0, 2) ∧
    unicodeWcharToUtf8 0 4 ≠ .ok [0xC0, 0x80] := by
  decide

section Strings

variable {c : ℕ} {cs : List ℕ} {s : List UInt8}

/-- The UTF-8 encoding of a string. -/
def Utf8 (cs : List ℕ) (s : List UInt8) : Prop := encodeAll (fun wc : ℕ => unicodeWcharToUtf8 wc 4) cs = .ok s

theorem Utf8.head_lt (h : Utf8 (c :: cs) s) : c < 0x200000 := by
  obtain ⟨x, -, hx, -⟩ := encodeAll_cons_inv h
  rw [wcharToUtf8_eq (Nat.le_refl 4)] at hx
  by_contra hc
  rw [if_neg (by omega), if_neg (by omega), if_neg (by omega), if_neg (by omega)] at hx
  cases hx

theorem Utf8.lt (h : Utf8 cs s) : ∀ c ∈ cs, c < 0x200000 := by
  induction cs generalizing s with
  | nil => exact fun c hc => absurd hc List.not_mem_nil
  | cons c cs ih =>
    obtain ⟨x, y, -, hy, rfl⟩ := encodeAll_cons_inv h
    exact List.forall_mem_cons.mpr ⟨h.head_lt, ih hy⟩

theorem Utf8.cons_inv (h : Utf8 (c :: cs) s) (hc : c < 0x200000) :
    ∃ x y, unicodeWcharToUtf8 c 4 = .ok x ∧ x ≠ [] ∧ (∀ t, unicodeUtf8ToWchar (x ++ t) = .ok (c, x.length)) ∧ Utf8 cs y ∧
      s = x ++ y := by
  obtain ⟨x, y, hx, hy, rfl⟩ := encodeAll_cons_inv h
  obtain ⟨x', hx', hne, hdec⟩ := utf8_decodes (Nat.le_refl 4) hc
  have he : x' = x := Except.ok.inj (hx'.symm.trans hx)
  rw [he] at hne hdec
  exact ⟨x, y, hx, hne, hdec, hy, rfl⟩

theorem Utf8.append_inv {cs' : List ℕ} (h : Utf8 (cs ++ cs') s) : ∃ x y, Utf8 cs x ∧ Utf8 cs' y ∧ s = x ++ y := by
  induction cs generalizing s with
  | nil => exact ⟨[], s, rfl, h, rfl⟩
  | cons c cs ih =>
    obtain ⟨x, y, hx, hy, rfl⟩ := encodeAll_cons_inv h
    obtain ⟨u, w, hu, hw, rfl⟩ := ih hy
    exact ⟨x ++ u, w, encodeAll_cons hx hu, hw, (List.append_assoc ..).symm⟩

theorem wcharToUtf8_byte {b : UInt8} (hc : c < 0x200000) (h : unicodeWcharToUtf8 c 4 = .ok s) (hb : b ∈ s) :
    b.toNat = c ∨ 0x80 ≤ b.toNat := by
  rw [wcharToUtf8_eq (Nat.le_refl 4)] at h
  split at h
  · cases h
    left
    rw [List.mem_singleton.mp hb, toNat_ofNat_byte (by omega)]
  · right
    split at h
    · cases h
      simp only [List.mem_cons, List.not_mem_nil, or_false] at hb
      rcases hb with rfl | rfl <;> rw [toNat_ofNat_byte (by omega)] <;> omega
    · split at h
      · cases h
        simp only [List.mem_cons, List.not_mem_nil, or_false] at hb
        rcases hb with rfl | rfl | rfl <;> rw [toNat_ofNat_byte (by omega)] <;> omega
      · cases h
        simp only [List.mem_cons, List.not_mem_nil, or_false] at hb
        rcases hb with rfl | rfl | rfl | rfl <;> rw [toNat_ofNat_byte (by omega)] <;> omega

theorem Utf8.byte {b : UInt8} (h : Utf8 cs s) (hcs : ∀ c ∈ cs, c < 0x200000) (hb : b ∈ s) :
    b.toNat ∈ cs ∨ 0x80 ≤ b.toNat := by
  induction cs generalizing s with
  | nil =>
    cases h
    cases hb
  | cons c cs ih =>
    obtain ⟨x, y, hx, hy, rfl⟩ := encodeAll_cons_inv h
    rcases List.mem_append.mp hb with hb | hb
    · exact (wcharToUtf8_byte (hcs c List.mem_cons_self) hx hb).imp_left fun he => by rw [he]; exact List.mem_cons_self
    · exact (ih hy (fun c hc => hcs c (List.mem_cons_of_mem _ hc)) hb).imp_left (List.mem_cons_of_mem _)

theorem utf8_skip {n : ℕ} (h : unicodeUtf8ToWchar s = .ok (c, n)) : 0 < n ∧ n ≤ s.length := by
  have ha := utf8_accepted h
  cases ha <;> simp

theorem utf8_single (hc : c < 0x80) (h : Utf8 [c] s) : s = [UInt8.ofNat c] := by
  obtain ⟨x, y, hx, hy, rfl⟩ := encodeAll_cons_inv h
  cases hy
  rw [wcharToUtf8_eq (Nat.le_refl 4), if_pos hc] at hx
  cases hx
  rfl

end Strings

end FreeDos32.Unicode
