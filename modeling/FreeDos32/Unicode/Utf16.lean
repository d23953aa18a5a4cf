import Mathlib.Data.Nat.Bitwise
import FreeDos32.Library.Codec
import FreeDos32.Unicode.Utf

namespace FreeDos32.Unicode

theorem and_high_bits (x : ℕ) : x &&& 0xFC00 = x / 1024 % 64 * 1024 := by
  apply Nat.eq_of_testBit_eq
  intro i
  have hmask : (0xFC00 : ℕ) = 63 * 2 ^ 10 := by decide
  have h63 : (63 : ℕ) = 2 ^ 6 - 1 := by decide
  rw [Nat.testBit_and, hmask, show x / 1024 % 64 * 1024 = x / 2 ^ 10 % 2 ^ 6 * 2 ^ 10 by rfl, Nat.testBit_mul_two_pow,
    Nat.testBit_mul_two_pow, h63, Nat.testBit_two_pow_sub_one, Nat.testBit_mod_two_pow, Nat.testBit_div_two_pow]
  by_cases hi : 10 ≤ i
  · simp [hi, Bool.and_comm]
  · simp [hi]

theorem and_low_bits (x : ℕ) : x &&& 0x03FF = x % 1024 := Nat.and_two_pow_sub_one_eq_mod x 10

def leadUnit (wc : ℕ) : ℕ := (0xD800 + (wc / 65536 - 1) * 64 + wc / 1024 % 64 * 256) % 65536

theorem wcharToUtf16le_eq (wc : ℕ) : unicodeWcharToUtf16le wc =
    if wc < 0x10000 then .ok [wc] else if wc < 0x200000 then .ok [leadUnit wc, 0xDC00 + wc % 1024]
    else .error .einval := by
  rw [unicodeWcharToUtf16le, and_high_bits, and_low_bits, leadUnit]
  have h1 : (0xDC00 + wc % 1024) % 0x10000 = 0xDC00 + wc % 1024 := Nat.mod_eq_of_lt (by omega)
  have h2 : (wc / 1024 % 64 * 1024) >>> 2 = wc / 1024 % 64 * 256 := by
    rw [Nat.shiftRight_eq_div_pow]
    omega
  rw [h1, h2, Nat.shiftLeft_eq, Nat.shiftRight_eq_div_pow]

theorem utf16ToWchar_cons (endian : ℕ → ℕ) (u : ℕ) (us : List ℕ) : utf16ToWchar endian (u :: us) =
    if endian u / 1024 % 64 ≠ 54 then .ok (endian u, 1)
    else
      match us with
      | [] => .error .enametoolong
      | u' :: _ => if endian u' / 1024 % 64 ≠ 55 then .error .eilseq
          else .ok ((endian u % 1024 + 64) * 1024 + endian u' % 1024, 2) := by
  have h1 : ∀ x : ℕ, (x &&& 0xFC00 ≠ 0xD800) ↔ x / 1024 % 64 ≠ 54 := fun x => by
    rw [and_high_bits]
    omega
  have h2 : ∀ x : ℕ, (x &&& 0xFC00 ≠ 0xDC00) ↔ x / 1024 % 64 ≠ 55 := fun x => by
    rw [and_high_bits]
    omega
  have h3 : ∀ x y : ℕ, ((x &&& 0x03FF) <<< 10) + 0x010000 ||| (y &&& 0x03FF) = (x % 1024 + 64) * 1024 + y % 1024 := by
    intro x y
    rw [and_low_bits, and_low_bits, Nat.shiftLeft_eq, show x % 1024 * 2 ^ 10 + 0x010000 = (x % 1024 + 64) <<< 10 by
      rw [Nat.shiftLeft_eq]; omega, ← Nat.shiftLeft_add_eq_or_of_lt (by omega : y % 1024 < 2 ^ 10), Nat.shiftLeft_eq]
  cases us with
  | nil => simp only [utf16ToWchar, h1]
  | cons u' us => simp only [utf16ToWchar, h1, h2, h3]

def IsScalar (wc : ℕ) : Prop := wc < 0xD800 ∨ (0xDFFF < wc ∧ wc ≤ 0x10FFFF)

/-- The bits that `unicode_wchar_to_utf16le` puts in the wrong place are zero. -/
def Codable (wc : ℕ) : Prop := wc < 0x10000 ∨ wc &&& 0xFC00 = 0

section Endian

variable {endian : ℕ → ℕ} (hendian : ∀ v < 0x10000, endian (endian v) = v) {wc : ℕ}

def utf16Units (endian : ℕ → ℕ) (wc : ℕ) : Except Errno (List ℕ) := (unicodeWcharToUtf16le wc).map (List.map endian)

include hendian in
theorem utf16_decodes (h : IsScalar wc) (hok : Codable wc) : Decodes (utf16Units endian) (utf16ToWchar endian) wc := by
  unfold IsScalar at h
  unfold Codable at hok
  rw [and_high_bits] at hok
  unfold Decodes utf16Units
  rw [wcharToUtf16le_eq]
  by_cases h1 : wc < 0x10000
  · rw [if_pos h1]
    refine ⟨[endian wc], rfl, by simp, fun t => ?_⟩
    rw [List.cons_append, utf16ToWchar_cons, hendian wc h1, if_pos (by omega)]
    rfl
  · rw [if_neg h1, if_pos (by omega)]
    have hlead : leadUnit wc = 0xD800 + (wc / 65536 - 1) * 64 := by
      unfold leadUnit
      omega
    refine ⟨[endian (leadUnit wc), endian (0xDC00 + wc % 1024)], rfl, by simp, fun t => ?_⟩
    rw [List.cons_append, utf16ToWchar_cons, hendian _ (by omega), if_neg (by omega)]
    simp only [List.cons_append]
    rw [hendian _ (by omega), if_neg (by omega)]
    exact congrArg (fun x => Except.ok (x, 2)) (by omega)

include hendian in
theorem utf16_mistakes (h : IsScalar wc) (hbad : ¬Codable wc) :
    Mistakes (utf16Units endian) (utf16ToWchar endian) wc := by
  unfold IsScalar at h
  unfold Codable at hbad
  rw [and_high_bits] at hbad
  have hlt : leadUnit wc < 65536 := Nat.mod_lt _ (by decide)
  unfold Mistakes utf16Units
  rw [wcharToUtf16le_eq, if_neg (by omega), if_pos (by omega)]
  refine ⟨[endian (leadUnit wc), endian (0xDC00 + wc % 1024)], rfl, by simp, fun t b n hdec => ?_⟩
  rw [List.cons_append, utf16ToWchar_cons, hendian _ (by omega)] at hdec
  split at hdec
  · cases hdec
    omega
  · simp only [List.cons_append] at hdec
    rw [hendian _ (by omega), if_neg (by omega)] at hdec
    cases hdec
    unfold leadUnit at *
    omega

theorem utf16_len {us : List ℕ} {wc n : ℕ} (h : utf16ToWchar endian us = .ok (wc, n)) :
    us.head?.map (utf16Len endian) = some n := by
  cases us with
  | nil => cases h
  | cons u us =>
    rw [List.head?_cons, Option.map_some, utf16Len]
    unfold utf16ToWchar at h
    simp only at h
    by_cases hs : endian u &&& 0xFC00 = 0xD800
    · rw [if_neg (not_not.mpr hs)] at h
      rw [if_pos hs]
      cases us with
      | nil => cases h
      | cons u' us =>
        simp only at h
        split at h
        · cases h
        · cases h
          rfl
    · rw [if_pos hs] at h
      rw [if_neg hs]
      cases h
      rfl

include hendian in
theorem utf16_roundtrip {wcs : List ℕ} (h : ∀ wc ∈ wcs, IsScalar wc) :
    ∃ s, encodeAll (utf16Units endian) wcs = .ok s ∧
      (decodeAll (utf16ToWchar endian) s.length s = .ok (wcs, []) ↔ ∀ wc ∈ wcs, Codable wc) := by
  by_cases hall : ∀ wc ∈ wcs, Codable wc
  · obtain ⟨s, hs, hdec⟩ := decodeAll_encodeAll fun wc hwc => utf16_decodes hendian (h wc hwc) (hall wc hwc)
    exact ⟨s, hs, iff_of_true (hdec _ (Nat.le_refl _)) hall⟩
  · obtain ⟨s, hs, hdec⟩ := decodeAll_mistakes fun wc hwc => by
      by_cases hc : Codable wc
      · exact .inl (utf16_decodes hendian (h wc hwc) hc)
      · exact .inr (utf16_mistakes hendian (h wc hwc) hc)
    simp only [not_forall] at hall
    obtain ⟨wc, hwc, hc⟩ := hall
    exact ⟨s, hs, iff_of_false (hdec ⟨wc, hwc, utf16_mistakes hendian (h wc hwc) hc⟩ _) fun hall => hc (hall wc hwc)⟩

end Endian

theorem bigEndian16_eq {v : ℕ} (hv : v < 0x10000) : bigEndian16 v = v % 256 * 256 + v / 256 := by
  unfold bigEndian16
  rw [Nat.shiftRight_eq_div_pow, ← Nat.shiftLeft_add_eq_or_of_lt (by omega : v / 2 ^ 8 < 2 ^ 8), Nat.shiftLeft_eq]
  omega

theorem bigEndian16_bigEndian16 (v : ℕ) (hv : v < 0x10000) : bigEndian16 (bigEndian16 v) = v := by
  have h := bigEndian16_eq hv
  rw [bigEndian16_eq (by omega), h]
  omega

theorem utf16Units_littleEndian16 : utf16Units littleEndian16 = unicodeWcharToUtf16le := by
  funext wc
  have hid : List.map littleEndian16 = id := by
    funext l
    exact List.map_id l
  rw [utf16Units, hid]
  cases unicodeWcharToUtf16le wc <;> rfl

theorem utf16Units_bigEndian16 : utf16Units bigEndian16 = unicodeWcharToUtf16be := by
  funext wc
  rw [utf16Units, unicodeWcharToUtf16le, unicodeWcharToUtf16be]
  split
  · rfl
  · split <;> rfl

/-- Both codecs give a list of characters back just when none of them has a bit that the encoder misplaces;
the length function always agrees with the decoder. -/
theorem utf16_codecs (wcs : List ℕ) (h : ∀ wc ∈ wcs, IsScalar wc) :
    (∃ s, encodeAll unicodeWcharToUtf16le wcs = .ok s ∧
      ((decodeAll unicodeUtf16leToWchar s.length s = .ok (wcs, []) ∧
          ∀ us wc n, unicodeUtf16leToWchar us = .ok (wc, n) → us.head?.map unicodeUtf16leLen = some n) ↔
        ∀ wc ∈ wcs, wc < 0x10000 ∨ wc &&& 0xFC00 = 0)) ∧
    ∃ s, encodeAll unicodeWcharToUtf16be wcs = .ok s ∧
      ((decodeAll unicodeUtf16beToWchar s.length s = .ok (wcs, []) ∧
          ∀ us wc n, unicodeUtf16beToWchar us = .ok (wc, n) → us.head?.map unicodeUtf16beLen = some n) ↔
        ∀ wc ∈ wcs, wc < 0x10000 ∨ wc &&& 0xFC00 = 0) := by
  constructor
  · have hid : ∀ v, v < 0x10000 → littleEndian16 (littleEndian16 v) = v := fun _ _ => rfl
    obtain ⟨s, hs, hdec⟩ := utf16_roundtrip hid h
    rw [utf16Units_littleEndian16] at hs
    exact ⟨s, hs, (and_iff_left fun us wc n => utf16_len).trans hdec⟩
  · obtain ⟨s, hs, hdec⟩ := utf16_roundtrip bigEndian16_bigEndian16 h
    rw [utf16Units_bigEndian16] at hs
    exact ⟨s, hs, (and_iff_left fun us wc n => utf16_len).trans hdec⟩

instance (wc : ℕ) : Decidable (IsScalar wc) := inferInstanceAs (Decidable (_ ∨ _))

theorem utf16_codecs_linearB :
    (∃ s, encodeAll unicodeWcharToUtf16le [0x41, 0x10001] = .ok s ∧
      decodeAll unicodeUtf16leToWchar s.length s = .ok ([0x41, 0x10001], [])) ∧
    ∃ s, encodeAll unicodeWcharToUtf16be [0x41, 0x10001] = .ok s ∧
      decodeAll unicodeUtf16beToWchar s.length s = .ok ([0x41, 0x10001], []) := by
  obtain ⟨⟨s, hs, hle⟩, t, ht, hbe⟩ := utf16_codecs [0x41, 0x10001] (by decide)
  exact ⟨⟨s, hs, (hle.mpr (by decide)).1⟩, t, ht, (hbe.mpr (by decide)).1⟩

/-- U+10400 is encoded as D900 DC00, which stands for U+50000. -/
theorem utf16_misplaced_bits : encodeAll unicodeWcharToUtf16le [0x10400] = .ok [0xD900, 0xDC00] ∧
    decodeAll unicodeUtf16leToWchar 2 [0xD900, 0xDC00] = .ok ([0x50000], []) ∧
    encodeAll unicodeWcharToUtf16be [0x10400] = .ok [0x00D9, 0x00DC] ∧
    decodeAll unicodeUtf16beToWchar 2 [0x00D9, 0x00DC] = .ok ([0x50000], []) := by
  decide

end FreeDos32.Unicode
