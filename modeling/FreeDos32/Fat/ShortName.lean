import Mathlib.Data.List.Nodup
import FreeDos32.Fat.Name
import FreeDos32.Unicode.Utf8

namespace FreeDos32.Fat

open Unicode

variable {c size fuel res : ℕ} {cs : List ℕ} {s t dest : List UInt8}

/-- An upper-case character that is valid in short names. -/
def ShortChar (c : ℕ) : Prop := 0x20 < c ∧ c ≤ 255 ∧ c ∉ invalidSfnCharacters ∧ nlsToupper c = c

instance (c : ℕ) : Decidable (ShortChar c) := inferInstanceAs (Decidable (_ ∧ _ ∧ _ ∧ _))

theorem ShortChar.lt (h : ShortChar c) : c < 0x200000 := Nat.lt_of_le_of_lt h.2.1 (by decide)

theorem ShortChar.shortChar (h : ShortChar c) : shortChar c = .ok (UInt8.ofNat c, 0) := by
  obtain ⟨h1, h2, h3, h4⟩ := h
  rw [Fat.shortChar, if_neg (by omega), h4, if_neg (by simp only [not_or]; exact ⟨by omega, h3⟩), if_neg (by simp)]

theorem ShortChar.not_mem (h : ShortChar c) : c ≠ 0x20 ∧ c ≠ 0x2E ∧ c ∉ validLfnCharacters := by
  obtain ⟨h1, -, h3, -⟩ := h
  refine ⟨by omega, fun he => h3 (he ▸ by decide), fun hm => h3 ?_⟩
  have hsub : ∀ c ∈ validLfnCharacters, c ∈ invalidSfnCharacters := by decide
  exact hsub c hm

theorem shortChars_fuel (h : s.length ≤ fuel) : shortChars size fuel s dest res = shortChars size s.length s dest res := by
  induction fuel using Nat.strong_induction_on generalizing s dest res with
  | _ fuel ih =>
    cases fuel with
    | zero =>
      rw [Nat.le_zero.mp h]
    | succ fuel =>
      cases s with
      | nil => rfl
      | cons b s =>
        rw [List.length_cons, shortChars, shortChars]
        cases hdec : unicodeUtf8ToWchar (b :: s) with
        | error e => rfl
        | ok r =>
          obtain ⟨wc, skip⟩ := r
          have hskip := utf8_skip hdec
          have hrest : ∀ dest res, shortChars size fuel ((b :: s).drop skip) dest res =
              shortChars size s.length ((b :: s).drop skip) dest res := by
            intro dest res
            rw [ih fuel (by omega) (by simp at h ⊢; omega), ih s.length (by simp at h; omega) (by simp; omega)]
          simp only [hrest]

theorem shortChars_cons (size res : ℕ) (dest : List UInt8) {x : List UInt8} (hx : x ≠ []) (hdec : unicodeUtf8ToWchar (x ++ t) = .ok (c, x.length)) :
    shortChars size (x ++ t).length (x ++ t) dest res =
      if c = 0x20 ∨ c = 0x2E then shortChars size t.length t dest (res ||| 2)
      else if dest.length = size then (dest, .ok 2)
      else
        let y := if c ∈ validLfnCharacters then 0x5F else c
        match shortChar y with
        | .error e => (dest ++ [UInt8.ofNat y], .error e)
        | .ok (b, bit) => shortChars size t.length t (dest ++ [b])
          ((if c ∈ validLfnCharacters then res ||| 2 else res) ||| bit) := by
  obtain ⟨b, x, rfl⟩ := List.exists_cons_of_ne_nil hx
  rw [List.length_append, List.length_cons, Nat.succ_add, shortChars, if_neg (by simp), hdec]
  have hdrop : (b :: x ++ t).drop (b :: x).length = t := List.drop_left
  simp only [hdrop]
  have hfuel : ∀ dest res, shortChars size (x.length + t.length) t dest res = shortChars size t.length t dest res :=
    fun dest res => shortChars_fuel (Nat.le_add_left _ _)
  simp only [hfuel]
  split
  · rfl
  · by_cases hc : c ∈ validLfnCharacters <;> simp only [hc, if_true, if_false] <;> rfl

theorem shortChars_valid (res : ℕ) (dest : List UInt8) (hcs : ∀ c ∈ cs, ShortChar c) (h : Utf8 cs s) (hsize : dest.length + cs.length ≤ size) :
    shortChars size (s ++ t).length (s ++ t) dest res =
      shortChars size t.length t (dest ++ cs.map UInt8.ofNat) res := by
  induction cs generalizing s dest with
  | nil =>
    cases h
    rw [List.nil_append, List.map_nil, List.append_nil]
  | cons c cs ih =>
    have hc := hcs c List.mem_cons_self
    obtain ⟨x, y, -, hne, hdec, hy, rfl⟩ := h.cons_inv hc.lt
    obtain ⟨h20, h2E, hlfn⟩ := hc.not_mem
    rw [List.length_cons] at hsize
    rw [List.append_assoc, shortChars_cons _ _ _ hne (hdec _), if_neg (by simp [h20, h2E]), if_neg (by omega)]
    simp only [if_neg hlfn, hc.shortChar, Nat.or_zero]
    rw [ih _ (fun c hc => hcs c (List.mem_cons_of_mem _ hc)) hy (by simp; omega), List.map_cons, List.append_assoc]
    rfl

theorem genShortFnamePart_valid (hcs : ∀ c ∈ cs, ShortChar c) (h : Utf8 cs s) (hsize : cs.length ≤ size) :
    genShortFnamePart size s = (cs.map UInt8.ofNat, .ok 0) := by
  have hrun : shortChars size (s ++ []).length (s ++ []) [] 0 = shortChars size 0 [] ([] ++ cs.map UInt8.ofNat) 0 :=
    shortChars_valid 0 [] hcs h (by simpa using hsize)
  rw [List.append_nil] at hrun
  rw [genShortFnamePart, hrun]
  rfl

theorem isDot_false {i : ℕ} (h : (0x2E : UInt8) ∉ s) : isDot s i = false := by
  rw [isDot, beq_eq_false_iff_ne]
  by_cases hi : i < s.length
  · rw [List.getD_eq_getElem _ _ hi]
    exact fun he => h (he ▸ List.getElem_mem hi)
  · rw [List.getD_eq_default _ _ (by omega)]
    decide

theorem lastEmbeddedDot_none (h : (0x2E : UInt8) ∉ s) : lastEmbeddedDot s = none := by
  have hnil : (List.range s.length).filter (fun i =>
      decide (1 ≤ i) && isDot s i && !isDot s (i - 1) && decide (i + 2 < s.length) && !isDot s (i + 1)) = [] := by
    apply List.filter_eq_nil_iff.mpr
    intro i _
    simp [isDot_false h]
  rw [lastEmbeddedDot, hnil]
  rfl

theorem isDot_append (hs : (0x2E : UInt8) ∉ s) (ht : (0x2E : UInt8) ∉ t) (i : ℕ) :
    isDot (s ++ 0x2E :: t) i = decide (i = s.length) := by
  rcases Nat.lt_trichotomy i s.length with h | h | h
  · have hi := isDot_false (i := i) hs
    rw [isDot, List.getD_append _ _ _ _ h, ← isDot, hi, decide_eq_false (by omega)]
  · rw [h, isDot, List.getD_append_right _ _ _ _ (Nat.le_refl _), Nat.sub_self, decide_eq_true rfl]
    rfl
  · have hi := isDot_false (i := i - s.length - 1) ht
    rw [isDot, List.getD_append_right _ _ _ _ (by omega), show i - s.length = (i - s.length - 1) + 1 by omega,
      List.getD_cons_succ, ← isDot, hi, decide_eq_false (by omega)]

/-- The only dot of a name is an embedded one if there is something before it and two bytes at least behind it. -/
theorem lastEmbeddedDot_append (hs : (0x2E : UInt8) ∉ s) (ht : (0x2E : UInt8) ∉ t) (hne : s ≠ []) :
    lastEmbeddedDot (s ++ 0x2E :: t) = if 2 ≤ t.length then some s.length else none := by
  have hpos := List.length_pos_iff.mpr hne
  have hlen : (s ++ 0x2E :: t).length = s.length + t.length + 1 := by
    rw [List.length_append, List.length_cons, Nat.add_assoc]
  have hp : (fun i => decide (1 ≤ i) && isDot (s ++ 0x2E :: t) i && !isDot (s ++ 0x2E :: t) (i - 1) &&
      decide (i + 2 < (s ++ 0x2E :: t).length) && !isDot (s ++ 0x2E :: t) (i + 1)) =
        fun i => i == s.length && decide (2 ≤ t.length) := by
    funext i
    simp only [isDot_append hs ht, hlen]
    by_cases hi : i = s.length
    · have h1 : decide (1 ≤ s.length) = true := decide_eq_true hpos
      have h2 : decide (s.length - 1 = s.length) = false := decide_eq_false (by omega)
      have h3 : decide (s.length + 1 = s.length) = false := decide_eq_false (by omega)
      have h4 : (s.length + 2 < s.length + t.length + 1) = (2 ≤ t.length) := by
        apply propext
        omega
      rw [hi, h1, h2, h3, decide_eq_true rfl, beq_self_eq_true]
      simp only [h4, Bool.not_false, Bool.and_true, Bool.true_and]
    · simp [hi]
  rw [lastEmbeddedDot, hp, hlen]
  by_cases h2 : 2 ≤ t.length
  · simp only [h2, decide_true, Bool.and_true, if_true]
    rw [List.filter_beq, List.count_eq_one_of_mem List.nodup_range (List.mem_range.mpr (by omega))]
    rfl
  · simp [h2]

theorem unpadded_padded (n : ℕ) (s : List UInt8) : unpadded (padded n s) = unpadded s := by
  have hspaces : ∀ k, (List.replicate k (0x20 : UInt8) ++ s.reverse).dropWhile (· == 0x20) =
      s.reverse.dropWhile (· == 0x20) := by
    intro k
    induction k with
    | zero => rw [List.replicate_zero, List.nil_append]
    | succ k ih =>
      rw [List.replicate_succ, List.cons_append, List.dropWhile_cons_of_pos (by decide), ih]
  rw [unpadded, unpadded, padded, List.reverse_append, List.reverse_replicate, hspaces]

theorem unpadded_self (h : ∀ b ∈ s, b ≠ 0x20) : unpadded s = s := by
  rw [unpadded]
  cases hr : s.reverse with
  | nil =>
    rw [List.reverse_eq_nil_iff.mp hr]
    rfl
  | cons b l =>
    have hb : b ∈ s := List.mem_reverse.mp (hr ▸ List.mem_cons_self)
    rw [List.dropWhile_cons_of_neg (by simp [h b hb]), ← hr, List.reverse_reverse]

theorem padded_eleven (h : s.length ≤ 8) : padded 11 s = padded 8 s ++ padded 3 [] := by
  have hlen : 11 - s.length = (8 - s.length) + 3 := by omega
  rw [padded, padded, padded, hlen, List.replicate_add, List.append_assoc]
  rfl

theorem checkShortFname_padded (b : UInt8) (hb : b ≠ 0x20) (n e : List UInt8) (res : ℕ) :
    checkShortFname (padded 8 (b :: n) ++ e) res = (padded 8 ((if b = fatFreeent then 0x05 else b) :: n) ++ e, .ok res) := by
  simp only [padded, List.cons_append, checkShortFname, if_neg hb, List.length_cons]
  split <;> rfl

theorem unpadded_cons {b : UInt8} (hb : b ≠ 0x20) (s : List UInt8) : unpadded (b :: s) = b :: unpadded s := by
  have happ : ∀ l : List UInt8, (l ++ [b]).dropWhile (· == 0x20) = l.dropWhile (· == 0x20) ++ [b] := by
    intro l
    induction l with
    | nil => simp [hb]
    | cons c l ih =>
      by_cases hc : c = 0x20
      · rw [List.cons_append, List.dropWhile_cons_of_pos (by simp [hc]), List.dropWhile_cons_of_pos (by simp [hc]), ih]
      · rw [List.cons_append, List.dropWhile_cons_of_neg (by simp [hc]), List.dropWhile_cons_of_neg (by simp [hc])]
        rfl
  rw [unpadded, List.reverse_cons, happ, List.reverse_append, unpadded]
  rfl

theorem mem_unpadded {b : UInt8} (h : b ∈ unpadded s) : b ∈ s := by
  rw [unpadded, List.mem_reverse] at h
  exact List.mem_reverse.mp ((List.dropWhile_sublist _).subset h)

theorem expandFcbName_padded {b : UInt8} {n e : List UInt8} (hlen : n.length ≤ 7) (hb : b ≠ 0x20) (hb5 : b ≠ 0x05)
    (hn : ∀ c ∈ b :: n, c ≠ 0) (he : ∀ c ∈ e, c ≠ 0) :
    expandFcbName (padded 8 ((if b = fatFreeent then 0x05 else b) :: n) ++ padded 3 e) =
      .ok ((b :: unpadded n ++ if unpadded e = [] then [] else 0x2E :: unpadded e).map UInt8.toNat) := by
  have h8 : (padded 8 ((if b = fatFreeent then 0x05 else b) :: n)).length = 8 := by
    simp [padded]
    omega
  have hb' : (if b = fatFreeent then 0x05 else b) ≠ 0x20 := by
    split
    · decide
    · exact hb
  have hfirst : (if (if b = fatFreeent then 0x05 else b) = 0x05 then fatFreeent else if b = fatFreeent then 0x05 else b) = b := by
    by_cases hf : b = fatFreeent
    · rw [if_pos hf, if_pos rfl, hf]
    · rw [if_neg hf, if_neg hb5]
  have hzero : ∀ c ∈ b :: unpadded n ++ (if unpadded e = [] then [] else 0x2E :: unpadded e), (c != 0) = true := by
    intro c hc
    rw [bne_iff_ne]
    rcases List.mem_append.mp hc with hc | hc
    · rcases List.mem_cons.mp hc with rfl | hc
      · exact hn c List.mem_cons_self
      · exact hn c (List.mem_cons_of_mem _ (mem_unpadded hc))
    · split at hc
      · cases hc
      · rcases List.mem_cons.mp hc with rfl | hc
        · decide
        · exact he c (mem_unpadded hc)
  have htake : ∀ l : List UInt8, (∀ c ∈ l, (c != 0) = true) → l.takeWhile (· != 0) = l := by
    intro l h
    induction l with
    | nil => rfl
    | cons c l ih =>
      rw [List.takeWhile_cons, if_pos (h c List.mem_cons_self), ih fun c hc => h c (List.mem_cons_of_mem _ hc)]
  rw [expandFcbName, List.take_left' h8, List.drop_left' h8, unpadded_padded, unpadded_padded, unpadded_cons hb']
  simp only [hfirst]
  rw [htake _ hzero]

/-- A name of at most eight characters with an extension of at most three. -/
structure ShortName where
  name : List ℕ
  ext : List ℕ
  name_ne : name ≠ []
  name_length : name.length ≤ 8
  ext_length : ext.length ≤ 3
  valid : ∀ c ∈ name ++ ext, ShortChar c

namespace ShortName

def chars (x : ShortName) : List ℕ := x.name ++ if x.ext = [] then [] else 0x2E :: x.ext

variable (x : ShortName)

theorem name_valid : ∀ c ∈ x.name, ShortChar c := fun c hc => x.valid c (List.mem_append_left _ hc)

theorem ext_valid : ∀ c ∈ x.ext, ShortChar c := fun c hc => x.valid c (List.mem_append_right _ hc)

theorem chars_inv (h : Utf8 x.chars s) : ∃ u, Utf8 x.name u ∧
    ((x.ext = [] ∧ s = u) ∨ (x.ext ≠ [] ∧ ∃ e, Utf8 x.ext e ∧ s = u ++ 0x2E :: e)) := by
  obtain ⟨u, w, hu, hw, rfl⟩ := h.append_inv
  refine ⟨u, hu, ?_⟩
  by_cases he : x.ext = []
  · rw [if_pos he] at hw
    cases hw
    exact .inl ⟨he, List.append_nil _⟩
  · rw [if_neg he] at hw
    obtain ⟨d, e, hd, he', rfl⟩ := encodeAll_cons_inv hw
    cases hd
    exact .inr ⟨he, e, he', rfl⟩

end ShortName

theorem utf8_no_dot (h : Utf8 cs s) (hcs : ∀ c ∈ cs, ShortChar c) : (0x2E : UInt8) ∉ s := by
  intro hm
  rcases h.byte (fun c hc => (hcs c hc).lt) hm with hm | hm
  · exact (hcs _ hm).not_mem.2.1 rfl
  · exact absurd hm (by decide)

theorem utf8_ne_nil (h : Utf8 cs s) (hcs : ∀ c ∈ cs, ShortChar c) (hne : cs ≠ []) : s ≠ [] := by
  obtain ⟨c, cs, rfl⟩ := List.exists_cons_of_ne_nil hne
  obtain ⟨x, y, -, hx, -, -, rfl⟩ := h.cons_inv (hcs c List.mem_cons_self).lt
  simp [hx]

theorem two_le_length (h : Utf8 cs s) (hcs : ∀ c ∈ cs, ShortChar c) (hne : cs ≠ []) (hext : ∀ c < 0x80, cs ≠ [c]) :
    2 ≤ s.length := by
  obtain ⟨c, cs, rfl⟩ := List.exists_cons_of_ne_nil hne
  obtain ⟨x, y, hx, hxne, -, hy, rfl⟩ := h.cons_inv (hcs c List.mem_cons_self).lt
  have hpos := List.length_pos_iff.mpr hxne
  rw [List.length_append]
  by_cases hcs' : cs = []
  · -- the only character is encoded in two bytes
    have h80 : 0x80 ≤ c := by
      by_contra hlt
      exact hext c (by omega) (by rw [hcs'])
    have h255 := (hcs c List.mem_cons_self).2.1
    rw [wcharToUtf8_eq (Nat.le_refl 4), if_neg (by omega), if_pos (by omega)] at hx
    cases hx
    exact Nat.le_add_right 2 _
  · have hy' := List.length_pos_iff.mpr (utf8_ne_nil hy (fun c hc => hcs c (List.mem_cons_of_mem _ hc)) hcs')
    omega

theorem genShortFname1_parts (x : ShortName) (h : Utf8 x.chars s) (hext : ∀ c < 0x80, x.ext ≠ [c]) :
    genShortFname1 s = checkShortFname (padded 8 (x.name.map UInt8.ofNat) ++ padded 3 (x.ext.map UInt8.ofNat)) 0 := by
  obtain ⟨u, hu, hs⟩ := x.chars_inv h
  have hdot := utf8_no_dot hu x.name_valid
  have hne := utf8_ne_nil hu x.name_valid x.name_ne
  have hname := genShortFnamePart_valid x.name_valid hu x.name_length
  rcases hs with ⟨he, rfl⟩ | ⟨he, e, hue, rfl⟩
  · have hspecial : ¬(s = [0x2E] ∨ s = [0x2E, 0x2E]) := by
      rintro (rfl | rfl) <;> exact hdot (by decide)
    rw [genShortFname1, if_neg hspecial, lastEmbeddedDot_none hdot, hname, he]
    simp only [List.map_nil]
    rw [padded_eleven (by rw [List.length_map]; exact x.name_length)]
  · have hdot' := utf8_no_dot hue x.ext_valid
    have hlen := two_le_length hue x.ext_valid he hext
    have hspecial : ¬(u ++ 0x2E :: e = [0x2E] ∨ u ++ 0x2E :: e = [0x2E, 0x2E]) := by
      obtain ⟨b, u, rfl⟩ := List.exists_cons_of_ne_nil hne
      rintro (hs | hs) <;> exact hdot (by rw [(List.cons.inj hs).1]; exact List.mem_cons_self)
    have hdrop : (u ++ 0x2E :: e).drop (u.length + 1) = e := by
      rw [List.drop_append, Nat.add_sub_cancel_left, List.drop_eq_nil_of_le (Nat.le_succ _)]
      rfl
    rw [genShortFname1, if_neg hspecial, lastEmbeddedDot_append hdot hdot' hne, if_pos hlen]
    simp only [List.take_left, hname, hdrop, genShortFnamePart_valid x.ext_valid hue x.ext_length, Nat.or_zero]

/-- An extension of one byte is taken for a part of the name. -/
theorem genShortFname1_one (x : ShortName) (h : Utf8 x.chars s) (hc : c < 0x80) (hext : x.ext = [c]) :
    (genShortFname1 s).2 ≠ .ok 0 := by
  obtain ⟨u, hu, ⟨he, -⟩ | ⟨-, e, hue, rfl⟩⟩ := x.chars_inv h
  · rw [hext] at he
    cases he
  have hdot := utf8_no_dot hu x.name_valid
  have hdot' := utf8_no_dot hue x.ext_valid
  have hne := utf8_ne_nil hu x.name_valid x.name_ne
  have hvalid : ShortChar c := x.ext_valid c (hext ▸ List.mem_singleton_self c)
  obtain ⟨-, h2E, -⟩ := hvalid.not_mem
  rw [hext] at hue
  have he := utf8_single hc hue
  subst he
  have hspecial : ¬(u ++ [0x2E, UInt8.ofNat c] = [0x2E] ∨ u ++ [0x2E, UInt8.ofNat c] = [0x2E, 0x2E]) := by
    obtain ⟨b, u, rfl⟩ := List.exists_cons_of_ne_nil hne
    rintro (hs | hs) <;> exact hdot (by rw [(List.cons.inj hs).1]; exact List.mem_cons_self)
  have hpart : ∃ n, genShortFnamePart 8 (u ++ [0x2E, UInt8.ofNat c]) = (n, .ok 2) := by
    have hname : shortChars 8 _ (u ++ [0x2E, UInt8.ofNat c]) [] 0 =
        shortChars 8 2 [0x2E, UInt8.ofNat c] ([] ++ x.name.map UInt8.ofNat) 0 :=
      shortChars_valid 0 [] x.name_valid hu (by simpa using x.name_length)
    rw [genShortFnamePart, hname, List.nil_append]
    have hstep := shortChars_cons 8 0 (x.name.map UInt8.ofNat) (x := [0x2E]) (t := [UInt8.ofNat c]) (c := 0x2E) (by simp) rfl
    rw [List.singleton_append] at hstep
    change shortChars 8 2 [0x2E, UInt8.ofNat c] (x.name.map UInt8.ofNat) 0 = _ at hstep
    rw [hstep, if_pos (.inr rfl)]
    have hdec : unicodeUtf8ToWchar ([UInt8.ofNat c] ++ []) = .ok (c, 1) := by
      rw [List.append_nil, utf8ToWchar_cons, toNat_ofNat_byte (by omega), if_pos hc]
    have hlast := shortChars_cons 8 (0 ||| 2) (x.name.map UInt8.ofNat) (by simp) hdec
    rw [List.append_nil] at hlast
    rw [hlast, if_neg (by simp [hvalid.not_mem.1, h2E])]
    split
    · exact ⟨_, rfl⟩
    · simp only [if_neg hvalid.not_mem.2.2, hvalid.shortChar]
      exact ⟨_, rfl⟩
  obtain ⟨n, hn⟩ := hpart
  rw [genShortFname1, if_neg hspecial, lastEmbeddedDot_append hdot hdot' hne, if_neg (by simp), hn]
  simp only [checkShortFname]
  split
  · simp
  · split
    · simp
    · split <;> simp

theorem map_toNat_ofNat (h : ∀ c ∈ cs, ShortChar c) : (cs.map UInt8.ofNat).map UInt8.toNat = cs := by
  have hid : ∀ c ∈ cs, (UInt8.toNat ∘ UInt8.ofNat) c = c := by
    intro c hc
    have hle := (h c hc).2.1
    exact toNat_ofNat_byte (by omega)
  rw [List.map_map, List.map_congr_left hid, List.map_id']

theorem ShortChar.byte_ne {b : UInt8} (h : ∀ c ∈ cs, ShortChar c) (hb : b ∈ cs.map UInt8.ofNat) :
    b ≠ 0x20 ∧ b ≠ 0x05 ∧ b ≠ 0 := by
  obtain ⟨c, hc, rfl⟩ := List.mem_map.mp hb
  obtain ⟨h1, h2, -, -⟩ := h c hc
  have hn : (UInt8.ofNat c).toNat = c := toNat_ofNat_byte (by omega)
  refine ⟨fun he => ?_, fun he => ?_, fun he => ?_⟩ <;> rw [he] at hn <;> simp at hn <;> omega

/-- When a name that fits in the short namespace is taken as it is. -/
theorem genShortFname1_shortName (x : ShortName) (s : List UInt8) (h : Utf8 x.chars s) :
    ((genShortFname1 s).2 = .ok 0 ∧ expandFcbName (genShortFname1 s).1 = .ok x.chars) ↔ ∀ c < 0x80, x.ext ≠ [c] := by
  constructor
  · rintro ⟨h0, -⟩ c hc hext
    exact genShortFname1_one x h hc hext h0
  · intro hext
    have hne := x.name_ne
    have hlen := x.name_length
    have hbytes := fun b => ShortChar.byte_ne (b := b) x.name_valid
    have hchars := map_toNat_ofNat x.name_valid
    obtain ⟨b, n, hn⟩ := List.exists_cons_of_ne_nil (show x.name.map UInt8.ofNat ≠ [] by simp [hne])
    rw [genShortFname1_parts x h hext, hn, checkShortFname_padded b (hbytes b (hn ▸ List.mem_cons_self)).1]
    rw [hn] at hbytes hchars
    refine ⟨rfl, ?_⟩
    have hn7 : n.length ≤ 7 := by
      have := congrArg List.length hn
      simp at this
      omega
    rw [expandFcbName_padded hn7 (hbytes b List.mem_cons_self).1 (hbytes b List.mem_cons_self).2.1
      (fun c hc => (hbytes c hc).2.2) fun c hc => (ShortChar.byte_ne x.ext_valid hc).2.2,
      unpadded_self fun c hc => (hbytes c (List.mem_cons_of_mem _ hc)).1,
      unpadded_self fun c hc => (ShortChar.byte_ne x.ext_valid hc).1]
    rw [List.map_append, hchars, ShortName.chars]
    by_cases he : x.ext = []
    · simp [he]
    · rw [if_neg (by simpa using he), if_neg he, List.map_cons, map_toNat_ofNat x.ext_valid]
      rfl

/-- A name that begins with the character of the mark of a deleted entry. -/
theorem genShortFname1_shortName_ring : (genShortFname1 [0xC3, 0xA5, 0x41, 0x2E, 0x42, 0x43]).2 = .ok 0 ∧
    expandFcbName (genShortFname1 [0xC3, 0xA5, 0x41, 0x2E, 0x42, 0x43]).1 = .ok [0xE5, 0x41, 0x2E, 0x42, 0x43] :=
  (genShortFname1_shortName ⟨[0xE5, 0x41], [0x42, 0x43], by decide, by decide, by decide, by decide⟩
    [0xC3, 0xA5, 0x41, 0x2E, 0x42, 0x43] (by rfl)).mpr (by simp)

theorem genShortFname1_oneLetter : ∃ x : ShortName, Utf8 x.chars [0x41, 0x2E, 0x42] ∧
    genShortFname1 [0x41, 0x2E, 0x42] = ([0x41, 0x42, 0x20, 0x20, 0x20, 0x20, 0x20, 0x20, 0x20, 0x20, 0x20], .ok 2) :=
  ⟨⟨[0x41], [0x42], by decide, by decide, by decide, by decide⟩, rfl, rfl⟩

end FreeDos32.Fat
