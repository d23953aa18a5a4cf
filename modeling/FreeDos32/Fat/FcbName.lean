import FreeDos32.Fat.Find
import FreeDos32.Fat.ShortName

namespace FreeDos32.Fat

open Unicode

variable {wildcards : Bool} {c size fuel res room extra : ℕ} {cs : List ℕ} {s t dest : List UInt8}

/-- The loop of `build_fcb_name_part` with the bytes that it has written when it fails. -/
def fcbBytes (wildcards : Bool) (size : ℕ) : ℕ → List UInt8 → List UInt8 → ℕ → List UInt8 × Except Errno ℕ
  | 0, _, dest, res => (dest, .ok res)
  | fuel + 1, src, dest, res =>
    if src.headD 0 = 0 then (dest, .ok res)
    else
      match unicodeUtf8ToWchar src with
      | .error e => (dest, .error e)
      | .ok (wc, skip) =>
        let src := src.drop skip
        if wildcards = true ∧ wc = 0x2A then (dest ++ List.replicate (size - dest.length) 0x3F, .ok res)
        else if dest.length = size then (dest, .ok 1)
        else if wc > 255 then fcbBytes wildcards size fuel src (dest ++ [0x5F]) 1
        else if wc < 0x20 then (dest ++ [UInt8.ofNat wc], .error .einval)
        else if ¬(wildcards = true ∧ wc = 0x3F) ∧ wc ∈ invalidSfnCharacters then (dest ++ [UInt8.ofNat wc], .error .einval)
        else fcbBytes wildcards size fuel src (dest ++ [UInt8.ofNat (nlsToupper wc)]) res

def fcbNamePart (size : ℕ) (src : List UInt8) (wildcards : Bool) : List UInt8 × Except Errno ℕ :=
  fcbBytes wildcards size src.length src [] 0

/-- The value together with the bytes. -/
def outcome (r : List UInt8 × Except Errno ℕ) : Except Errno (List UInt8 × ℕ) := r.2.map fun n => (r.1, n)

theorem fcbChars_eq (fuel : ℕ) (src dest : List UInt8) (res : ℕ) :
    fcbChars wildcards size fuel src dest res = outcome (fcbBytes wildcards size fuel src dest res) := by
  induction fuel generalizing src dest res with
  | zero => rfl
  | succ fuel ih =>
    rw [fcbChars, fcbBytes]
    split
    · rfl
    · cases unicodeUtf8ToWchar src with
      | error e => rfl
      | ok r =>
        simp only [ih]
        split
        · rfl
        · split
          · rfl
          · split
            · rfl
            · split
              · rfl
              · split <;> rfl

/-- `fat_build_fcb_name` with the bytes that it has written when it fails. -/
def buildFcbName (src past : List UInt8) (wildcards : Bool) : List UInt8 × Except Errno ℕ :=
  if src = [0x2E] ∨ src = [0x2E, 0x2E] then (padded 11 src, .ok 0)
  else
    match src.findIdx? (· == 0x2E) with
    | some dot =>
      match fcbNamePart 8 (src.take dot) wildcards with
      | (name, .error e) => (padded 11 name, .error e)
      | (name, .ok res1) =>
        match fcbNamePart 3 (((src ++ past).drop (dot + 1)).take src.length) wildcards with
        | (ext, .error e) => (padded 8 name ++ padded 3 ext, .error e)
        | (ext, .ok res2) => checkShortFname (padded 8 name ++ padded 3 ext) (if res1 ≠ 0 ∨ res2 ≠ 0 then 1 else 0)
    | none =>
      match fcbNamePart 8 src wildcards with
      | (name, .error e) => (padded 11 name, .error e)
      | (name, .ok res1) => checkShortFname (padded 11 name) (if res1 ≠ 0 then 1 else 0)

theorem checkFcbName_eq (dest : List UInt8) (res : ℕ) : checkFcbName dest res = outcome (checkShortFname dest res) := by
  cases dest with
  | nil => rfl
  | cons c dest =>
    rw [checkFcbName, checkShortFname]
    split
    · rfl
    · split <;> rfl

theorem fatBuildFcbName_eq (src past : List UInt8) (wildcards : Bool) :
    fatBuildFcbName src past wildcards = outcome (buildFcbName src past wildcards) := by
  rw [fatBuildFcbName, buildFcbName]
  simp only [buildFcbNamePart, fcbChars_eq, checkFcbName_eq]
  split
  · rfl
  · cases src.findIdx? (· == 0x2E) with
    | none =>
      simp only [fcbNamePart]
      rcases fcbBytes wildcards 8 src.length src [] 0 with ⟨n, e | r⟩ <;> rfl
    | some dot =>
      simp only [fcbNamePart]
      rcases fcbBytes wildcards 8 (src.take dot).length (src.take dot) [] 0 with ⟨n, e | r⟩
      · rfl
      · generalize ((src ++ past).drop (dot + 1)).take src.length = x
        rcases fcbBytes wildcards 3 x.length x [] 0 with ⟨n', e | r'⟩ <;> rfl

theorem fcbBytes_fuel (h : s.length ≤ fuel) :
    fcbBytes wildcards size fuel s dest res = fcbBytes wildcards size s.length s dest res := by
  induction fuel using Nat.strong_induction_on generalizing s dest res with
  | _ fuel ih =>
    cases fuel with
    | zero => rw [Nat.le_zero.mp h]
    | succ fuel =>
      cases s with
      | nil => rfl
      | cons b s =>
        rw [List.length_cons, fcbBytes, fcbBytes]
        cases hdec : unicodeUtf8ToWchar (b :: s) with
        | error e => rfl
        | ok r =>
          obtain ⟨wc, skip⟩ := r
          have hskip := utf8_skip hdec
          have hrest : ∀ dest res, fcbBytes wildcards size fuel ((b :: s).drop skip) dest res =
              fcbBytes wildcards size s.length ((b :: s).drop skip) dest res := by
            intro dest res
            rw [ih fuel (by omega) (by simp at h ⊢; omega), ih s.length (by simp at h; omega) (by simp; omega)]
          simp only [hrest]

theorem fcbBytes_cons {x : List UInt8} (h0 : x.headD 0 ≠ 0) (hdec : unicodeUtf8ToWchar (x ++ t) = .ok (c, x.length)) :
    fcbBytes wildcards size (x ++ t).length (x ++ t) dest res =
      if wildcards = true ∧ c = 0x2A then (dest ++ List.replicate (size - dest.length) 0x3F, .ok res)
      else if dest.length = size then (dest, .ok 1)
      else if c > 255 then fcbBytes wildcards size t.length t (dest ++ [0x5F]) 1
      else if c < 0x20 then (dest ++ [UInt8.ofNat c], .error .einval)
      else if ¬(wildcards = true ∧ c = 0x3F) ∧ c ∈ invalidSfnCharacters then (dest ++ [UInt8.ofNat c], .error .einval)
      else fcbBytes wildcards size t.length t (dest ++ [UInt8.ofNat (nlsToupper c)]) res := by
  cases x with
  | nil => exact absurd rfl h0
  | cons b x =>
    rw [List.length_append, List.length_cons, Nat.succ_add, fcbBytes, if_neg (by exact h0), hdec]
    have hdrop : (b :: x ++ t).drop (b :: x).length = t := List.drop_left
    have hfuel : ∀ dest res, fcbBytes wildcards size (x.length + t.length) t dest res =
        fcbBytes wildcards size t.length t dest res := fun dest res => fcbBytes_fuel (Nat.le_add_left _ _)
    simp only [hdrop, hfuel]

/-- A byte that `build_fcb_name_part` leaves as it is. -/
def FcbByte (b : UInt8) : Prop := 0x20 ≤ b.toNat ∧ b.toNat ∉ invalidSfnCharacters ∧ nlsToupper b.toNat = b.toNat

theorem fcbByte_toupper : ∀ c < 256, (0x20 ≤ c ∧ c ∉ invalidSfnCharacters) → (0x20 ≤ nlsToupper c ∧ nlsToupper c < 256) ∧
    nlsToupper c ∉ invalidSfnCharacters ∧ nlsToupper (nlsToupper c) = nlsToupper c := by
  unfold nlsToupper
  decide +kernel

theorem FcbByte.ofNat (h : c < 256) (h20 : 0x20 ≤ c) (hc : c ∉ invalidSfnCharacters) :
    FcbByte (UInt8.ofNat (nlsToupper c)) := by
  obtain ⟨⟨h1, h2⟩, h3, h4⟩ := fcbByte_toupper c h ⟨h20, hc⟩
  rw [FcbByte, toNat_ofNat_byte h2]
  exact ⟨h1, h3, h4⟩

theorem fcbBytes_ok {d : List UInt8} {r : ℕ} (h : fcbBytes false size fuel s dest res = (d, .ok r))
    (hdest : ∀ b ∈ dest, FcbByte b) (hsize : dest.length ≤ size) : (∀ b ∈ d, FcbByte b) ∧ d.length ≤ size := by
  induction fuel generalizing s dest res with
  | zero =>
    cases h
    exact ⟨hdest, hsize⟩
  | succ fuel ih =>
    have hpush : ∀ (b : UInt8) (s : List UInt8) (res : ℕ), fcbBytes false size fuel s (dest ++ [b]) res = (d, .ok r) →
        FcbByte b → dest.length ≠ size → (∀ b ∈ d, FcbByte b) ∧ d.length ≤ size := by
      intro b s res h hb hlt
      apply ih h
      · intro x hx
        rcases List.mem_append.mp hx with hx | hx
        · exact hdest x hx
        · exact List.mem_singleton.mp hx ▸ hb
      · rw [List.length_append, List.length_singleton]
        omega
    rw [fcbBytes] at h
    split at h
    · cases h
      exact ⟨hdest, hsize⟩
    · split at h
      · cases h
      · rw [if_neg (by simp)] at h
        split at h
        · cases h
          exact ⟨hdest, hsize⟩
        · split at h
          · exact hpush _ _ _ h (by unfold FcbByte; decide) ‹_›
          · split at h
            · cases h
            · split at h
              · cases h
              · rename_i hinv
                exact hpush _ _ _ h (.ofNat (by omega) (by omega) (by simpa using hinv)) ‹_›

theorem FcbByte.lt (b : UInt8) : b.toNat < 0x200000 := Nat.lt_trans b.toNat_lt (by decide)

theorem headD_ne_zero {x : List UInt8} (hc : c < 0x200000) (h0 : c ≠ 0) (hx : unicodeWcharToUtf8 c 4 = .ok x) (hne : x ≠ []) :
    (x ++ t).headD 0 ≠ 0 := by
  obtain ⟨b, x, rfl⟩ := List.exists_cons_of_ne_nil hne
  have hb := wcharToUtf8_byte hc hx List.mem_cons_self
  intro he
  change b = 0 at he
  rw [he] at hb
  rcases hb with hb | hb
  · exact h0 hb.symm
  · exact absurd hb (by decide)

theorem fcbBytes_valid {n : List UInt8} (hn : ∀ b ∈ n, FcbByte b) (h : Utf8 (n.map UInt8.toNat) s) (ht : t.headD 0 = 0)
    (hsize : dest.length + n.length ≤ size) :
    fcbBytes false size (s ++ t).length (s ++ t) dest res = (dest ++ n, .ok res) := by
  induction n generalizing s dest with
  | nil =>
    cases h
    rw [List.nil_append, List.append_nil]
    cases t with
    | nil => rfl
    | cons b t => rw [List.length_cons, fcbBytes, if_pos ht]
  | cons b n ih =>
    obtain ⟨h20, hinv, hup⟩ := hn b List.mem_cons_self
    have hlt := b.toNat_lt
    rw [List.length_cons] at hsize
    rw [List.map_cons] at h
    obtain ⟨x, y, hx, hne, hdec, hy, rfl⟩ := h.cons_inv (FcbByte.lt b)
    have h0 := headD_ne_zero (t := []) (FcbByte.lt b) (by omega) hx hne
    rw [List.append_nil] at h0
    rw [List.append_assoc, fcbBytes_cons h0 (hdec _), if_neg (by simp), if_neg (by omega), if_neg (by omega),
      if_neg (by omega), if_neg (by simp [hinv]), hup, UInt8.ofNat_toNat,
      ih (fun c hc => hn c (List.mem_cons_of_mem _ hc)) hy (by simp; omega), List.append_assoc]
    rfl

theorem fcbNamePart_valid {n : List UInt8} (hn : ∀ b ∈ n, FcbByte b) (h : Utf8 (n.map UInt8.toNat) s)
    (ht : t.headD 0 = 0) (hsize : n.length ≤ size) : fcbNamePart size (s ++ t) false = (n, .ok 0) := by
  rw [fcbNamePart, fcbBytes_valid hn h ht (by simpa using hsize)]
  rfl

theorem FcbByte.no_dot {n : List UInt8} (hn : ∀ b ∈ n, FcbByte b) (h : Utf8 (n.map UInt8.toNat) s) : (0x2E : UInt8) ∉ s := by
  intro hm
  rcases h.byte (fun c hc => by obtain ⟨b, -, rfl⟩ := List.mem_map.mp hc; exact FcbByte.lt b) hm with hm | hm
  · obtain ⟨b, hb, he⟩ := List.mem_map.mp hm
    exact (hn b hb).2.1 (he ▸ by decide)
  · exact absurd hm (by decide)

theorem findIdx?_dot (hs : (0x2E : UInt8) ∉ s) : (s ++ 0x2E :: t).findIdx? (· == 0x2E) = some s.length := by
  induction s with
  | nil => rfl
  | cons b s ih =>
    have hb : (b == 0x2E) = false := by
      rw [beq_eq_false_iff_ne]
      exact fun he => hs (he ▸ List.mem_cons_self)
    rw [List.cons_append, List.findIdx?_cons, hb, ih fun hm => hs (List.mem_cons_of_mem _ hm)]
    rfl

theorem buildFcbName_valid {b : UInt8} {n e past : List UInt8} (hn : ∀ c ∈ b :: n, FcbByte c) (he : ∀ c ∈ e, FcbByte c)
    (hb : b ≠ 0x20) (hlen : n.length ≤ 7) (hlen' : e.length ≤ 3)
    (h : Utf8 ((b :: n ++ if e = [] then [] else 0x2E :: e).map UInt8.toNat) s) :
    buildFcbName s (0 :: past) false = (padded 8 ((if b = fatFreeent then 0x05 else b) :: n) ++ padded 3 e, .ok 0) := by
  rw [List.map_append] at h
  obtain ⟨u, w, hu, hw, rfl⟩ := h.append_inv
  have hdot := FcbByte.no_dot hn hu
  have hne : u ≠ [] := by
    obtain ⟨x, y, -, hx, -, -, rfl⟩ := hu.cons_inv (FcbByte.lt b)
    simp [hx]
  have hspecial : ¬(u ++ w = [0x2E] ∨ u ++ w = [0x2E, 0x2E]) := by
    obtain ⟨c, u, rfl⟩ := List.exists_cons_of_ne_nil hne
    rintro (hs | hs) <;> exact hdot (by rw [(List.cons.inj hs).1]; exact List.mem_cons_self)
  have hname : fcbNamePart 8 (u ++ []) false = (b :: n, .ok 0) := fcbNamePart_valid hn hu rfl (by simp; omega)
  rw [List.append_nil] at hname
  rw [buildFcbName, if_neg hspecial]
  by_cases hen : e = []
  · rw [if_pos hen] at hw
    cases hw
    have hnone : u.findIdx? (· == 0x2E) = none := by
      rw [List.findIdx?_eq_none_iff]
      intro c hc
      rw [beq_eq_false_iff_ne]
      exact fun he => hdot (he ▸ hc)
    rw [List.append_nil, hnone, hname, hen]
    simp only
    rw [padded_eleven (by simp; omega), checkShortFname_padded b hb]
    rfl
  · rw [if_neg hen, List.map_cons] at hw
    obtain ⟨d, y, hd, hy, rfl⟩ := encodeAll_cons_inv hw
    have hdot' : d = [0x2E] := (Except.ok.inj hd).symm
    subst hdot'
    rw [List.singleton_append]
    have htail : ((u ++ 0x2E :: y ++ 0 :: past).drop (u.length + 1)).take (u ++ 0x2E :: y).length =
        y ++ 0 :: past.take u.length := by
      have hdrop : (u ++ 0x2E :: y ++ 0 :: past).drop (u.length + 1) = y ++ 0 :: past := by
        rw [List.append_assoc, List.drop_append, Nat.add_sub_cancel_left, List.drop_eq_nil_of_le (Nat.le_succ _)]
        rfl
      have hl : (u ++ 0x2E :: y).length = y.length + (u.length + 1) := by
        simp
        omega
      rw [hdrop, hl, List.take_length_add_append]
      rfl
    have hext : fcbNamePart 3 (y ++ 0 :: past.take u.length) false = (e, .ok 0) := fcbNamePart_valid he hy rfl hlen'
    rw [findIdx?_dot hdot]
    simp only [List.take_left, hname, htail, hext, checkShortFname_padded b hb]
    rfl

theorem buildFcbName_parts {past b : List UInt8} {r : ℕ} (hs : ¬(s = [0x2E] ∨ s = [0x2E, 0x2E]))
    (h : buildFcbName s past false = (b, .ok r)) : ∃ n e, (∀ c ∈ n, FcbByte c) ∧ (∀ c ∈ e, FcbByte c) ∧ n.length ≤ 8 ∧
      e.length ≤ 3 ∧ ∃ res, checkShortFname (padded 8 n ++ padded 3 e) res = (b, .ok r) := by
  have hpart : ∀ {size : ℕ} {s d : List UInt8} {r : ℕ}, fcbNamePart size s false = (d, .ok r) →
      (∀ c ∈ d, FcbByte c) ∧ d.length ≤ size := fun h => fcbBytes_ok h (by simp) (Nat.zero_le _)
  rw [buildFcbName, if_neg hs] at h
  cases hf : s.findIdx? (· == 0x2E) with
  | none =>
    rw [hf] at h
    rcases hn : fcbNamePart 8 s false with ⟨n, e | res⟩
    · rw [hn] at h
      cases h
    · rw [hn] at h
      obtain ⟨h1, h2⟩ := hpart hn
      refine ⟨n, [], h1, by simp, h2, Nat.zero_le _, if res ≠ 0 then 1 else 0, ?_⟩
      rw [← padded_eleven h2]
      exact h
  | some dot =>
    rw [hf] at h
    dsimp only at h
    rcases hn : fcbNamePart 8 (s.take dot) false with ⟨n, e | res⟩
    · rw [hn] at h
      cases h
    · rw [hn] at h
      dsimp only at h
      rcases he : fcbNamePart 3 (((s ++ past).drop (dot + 1)).take s.length) false with ⟨e, x | res'⟩
      · rw [he] at h
        cases h
      · rw [he] at h
        obtain ⟨h1, h2⟩ := hpart hn
        obtain ⟨h3, h4⟩ := hpart he
        exact ⟨n, e, h1, h3, h2, h4, _, h⟩

theorem unpadded_prefix (s : List UInt8) : ∃ k, s = unpadded s ++ List.replicate k 0x20 := by
  have hspaces : ∀ l : List UInt8, ∃ k, l = List.replicate k 0x20 ++ l.dropWhile (· == 0x20) := by
    intro l
    induction l with
    | nil => exact ⟨0, rfl⟩
    | cons b l ih =>
      by_cases hb : b = 0x20
      · obtain ⟨k, hk⟩ := ih
        refine ⟨k + 1, ?_⟩
        rw [List.dropWhile_cons_of_pos (by simp [hb]), List.replicate_succ, List.cons_append, ← hk, hb]
      · exact ⟨0, by rw [List.dropWhile_cons_of_neg (by simp [hb])]; rfl⟩
  obtain ⟨k, hk⟩ := hspaces s.reverse
  refine ⟨k, ?_⟩
  rw [unpadded, ← List.reverse_replicate, ← List.reverse_append, ← hk, List.reverse_reverse]

theorem padded_unpadded (h : s.length ≤ size) : padded size (unpadded s) = padded size s := by
  obtain ⟨k, hk⟩ := unpadded_prefix s
  have hlen : s.length = (unpadded s).length + k := by
    conv_lhs => rw [hk, List.length_append, List.length_replicate]
  have hs : padded size s = unpadded s ++ List.replicate k 0x20 ++ List.replicate (size - s.length) 0x20 :=
    congrArg (· ++ List.replicate (size - s.length) 0x20) hk
  have hsize : size - (unpadded s).length = k + (size - s.length) := by omega
  rw [hs, padded, List.append_assoc, ← List.replicate_add, hsize]

theorem utf8_exists (cs : List ℕ) (h : ∀ c ∈ cs, c < 0x200000) : ∃ s, Utf8 cs s := by
  obtain ⟨s, hs, -⟩ := decodeAll_encodeAll fun c hc => utf8_decodes (Nat.le_refl 4) (h c hc)
  exact ⟨s, hs⟩

/-- A name that has been built is built again from what it expands to. -/
theorem fatBuildFcbName_expand (src past b : List UInt8) (r : ℕ) (h : fatBuildFcbName src past false = .ok (b, r)) :
    ∃ wcs s, expandFcbName b = .ok wcs ∧ Utf8 wcs s ∧ ∀ past', fatBuildFcbName s (0 :: past') false = .ok (b, 0) := by
  by_cases hs : src = [0x2E] ∨ src = [0x2E, 0x2E]
  · rw [fatBuildFcbName, if_pos hs] at h
    cases h
    rcases hs with rfl | rfl
    · exact ⟨[0x2E], [0x2E], rfl, rfl, fun _ => rfl⟩
    · exact ⟨[0x2E, 0x2E], [0x2E, 0x2E], rfl, rfl, fun _ => rfl⟩
  rw [fatBuildFcbName_eq, outcome] at h
  rcases hb : buildFcbName src past false with ⟨b', e | r'⟩ <;> rw [hb] at h
  · cases h
  cases h
  obtain ⟨n, e, hn, he, hnlen, helen, res, hcheck⟩ := buildFcbName_parts hs hb
  cases n with
  | nil => cases hcheck
  | cons c n =>
    have hc : c ≠ 0x20 := by
      rintro rfl
      cases hcheck
    rw [checkShortFname_padded c hc] at hcheck
    cases hcheck
    have hne : ∀ x : UInt8, FcbByte x → x ≠ 0x05 ∧ x ≠ 0 := by
      rintro x ⟨h20, -, -⟩
      constructor <;> rintro rfl <;> exact absurd h20 (by decide)
    have hnlen' : n.length ≤ 7 := Nat.le_of_succ_le_succ hnlen
    have hexp := expandFcbName_padded hnlen' hc (hne c (hn c List.mem_cons_self)).1 (fun x hx => (hne x (hn x hx)).2)
      fun x hx => (hne x (he x hx)).2
    obtain ⟨s, hs⟩ := utf8_exists ((c :: unpadded n ++ if unpadded e = [] then [] else 0x2E :: unpadded e).map UInt8.toNat)
      fun x hx => by obtain ⟨b, -, rfl⟩ := List.mem_map.mp hx; exact FcbByte.lt b
    refine ⟨_, s, hexp, hs, fun past' => ?_⟩
    have hnu : (unpadded n).length ≤ 7 := by
      obtain ⟨k, hk⟩ := unpadded_prefix n
      have := congrArg List.length hk
      rw [List.length_append] at this
      omega
    have heu : (unpadded e).length ≤ 3 := by
      obtain ⟨k, hk⟩ := unpadded_prefix e
      have := congrArg List.length hk
      rw [List.length_append] at this
      omega
    have hbuild : buildFcbName s (0 :: past') false =
        (padded 8 ((if c = fatFreeent then 0x05 else c) :: unpadded n) ++ padded 3 (unpadded e), .ok 0) := buildFcbName_valid
      (fun x hx => hn x (List.mem_cons.mpr ((List.mem_cons.mp hx).imp_right mem_unpadded)))
      (fun x hx => he x (mem_unpadded hx)) hc hnu heu hs
    have hpad : ∀ x : UInt8, x ≠ 0x20 → padded 8 (x :: unpadded n) = padded 8 (x :: n) := by
      intro x hx
      rw [← unpadded_cons hx, padded_unpadded (Nat.succ_le_succ hnlen')]
    rw [fatBuildFcbName_eq, hbuild, padded_unpadded helen, hpad _ (by split; decide; exact hc)]
    rfl

/-- A lower-case letter with an accent, a space in the name and a character that is in no code page. -/
theorem fatBuildFcbName_expand_accent : ∃ wcs s,
    expandFcbName [0xC9, 0x20, 0x42, 0x20, 0x20, 0x20, 0x20, 0x20, 0x5F, 0x20, 0x20] = .ok wcs ∧ Utf8 wcs s ∧
      ∀ past', fatBuildFcbName s (0 :: past') false =
        .ok ([0xC9, 0x20, 0x42, 0x20, 0x20, 0x20, 0x20, 0x20, 0x5F, 0x20, 0x20], 0) :=
  fatBuildFcbName_expand [0xC3, 0xA9, 0x20, 0x62, 0x2E, 0xC4, 0x80] [0]
    [0xC9, 0x20, 0x42, 0x20, 0x20, 0x20, 0x20, 0x20, 0x5F, 0x20, 0x20] 1 (by decide)

section Reads

/-- The scan of a part of a name that has room for `room` more characters comes to an end in `s`, whatever the `extra`
bytes behind it are. -/
inductive Ends (wildcards : Bool) (extra : ℕ) : ℕ → List UInt8 → Prop
  | nul {room : ℕ} {s : List UInt8} : Ends wildcards extra room (0 :: s)
  | malformed {room : ℕ} {s : List UInt8} {e : Errno}
      (h : ∀ t : List UInt8, t.length = extra → unicodeUtf8ToWchar (s ++ t) = .error e) (hne : s ≠ []) :
      Ends wildcards extra room s
  | star {room n : ℕ} {s : List UInt8} (h : unicodeUtf8ToWchar s = .ok (0x2A, n)) (hw : wildcards = true) :
      Ends wildcards extra room s
  | full {c n : ℕ} {s : List UInt8} (h : unicodeUtf8ToWchar s = .ok (c, n)) : Ends wildcards extra 0 s
  | invalid {room c n : ℕ} {s : List UInt8} (h : unicodeUtf8ToWchar s = .ok (c, n))
      (hc : c < 0x20 ∨ c ∈ invalidSfnCharacters) (hw : ¬(wildcards = true ∧ c = 0x3F)) : Ends wildcards extra room s
  | next {room c n : ℕ} {s : List UInt8} (h : unicodeUtf8ToWchar s = .ok (c, n)) (hs : Ends wildcards extra room (s.drop n)) :
      Ends wildcards extra (room + 1) s

theorem continuation_append {k : ℕ} (wc : ℕ) {s : List UInt8} (t : List UInt8) (h : k ≤ s.length) :
    continuation k wc (s ++ t) = continuation k wc s := by
  induction k generalizing wc s with
  | zero => rfl
  | succ k ih =>
    cases s with
    | nil => exact absurd h (Nat.not_succ_le_zero _)
    | cons b s =>
      have hle : k ≤ s.length := Nat.le_of_succ_le_succ h
      rw [List.cons_append, continuation_cons, continuation_cons, ih _ hle]

theorem continuation_replicate (k wc : ℕ) : ∃ r, ∀ t, continuation k wc (List.replicate k 0x80 ++ t) = .ok r := by
  induction k generalizing wc with
  | zero => exact ⟨wc, fun _ => rfl⟩
  | succ k ih =>
    obtain ⟨r, hr⟩ := ih (wc * 64 + (0x80 : UInt8).toNat % 64)
    refine ⟨r, fun t => ?_⟩
    rw [List.replicate_succ, List.cons_append, continuation_cons, if_pos (by decide), hr]

/-- What a character that lacks bytes becomes depends on the bytes that follow. -/
theorem continuation_split (k wc : ℕ) (s : List UInt8) (h : s.length < k) :
    (∀ t, continuation k wc (s ++ t) = .error .eilseq ∨ (s ++ t).length < k) ∨
      (∃ r, ∀ t, continuation k wc (s ++ (List.replicate (k - s.length) 0x80 ++ t)) = .ok r) ∧
        ∀ t, continuation k wc (s ++ 0 :: t) = .error .eilseq := by
  induction k generalizing wc s with
  | zero => exact absurd h (Nat.not_lt_zero _)
  | succ k ih =>
    cases s with
    | nil =>
      refine .inr ⟨?_, fun t => ?_⟩
      · obtain ⟨r, hr⟩ := continuation_replicate (k + 1) wc
        exact ⟨r, hr⟩
      · rw [List.nil_append, continuation_cons, if_neg (by decide)]
    | cons b s =>
      by_cases hb : IsTail b
      · rcases ih (wc * 64 + b.toNat % 64) s (by simpa using h) with hall | ⟨⟨r, hr⟩, herr⟩
        · refine .inl fun t => ?_
          rw [List.cons_append, continuation_cons, if_pos hb]
          rcases hall t with ht | ht
          · exact .inl ht
          · exact .inr (by simpa using ht)
        · refine .inr ⟨⟨r, fun t => ?_⟩, fun t => ?_⟩
          · rw [List.cons_append, continuation_cons, if_pos hb, List.length_cons, Nat.add_sub_add_right]
            exact hr t
          · rw [List.cons_append, continuation_cons, if_pos hb]
            exact herr t
      · refine .inl fun t => .inl ?_
        rw [List.cons_append, continuation_cons, if_neg hb]

theorem utf8_append {r : ℕ × ℕ} (h : unicodeUtf8ToWchar s = .ok r) (t : List UInt8) : unicodeUtf8ToWchar (s ++ t) = .ok r := by
  cases s with
  | nil => cases h
  | cons b s =>
    rw [utf8ToWchar_cons] at h
    rw [List.cons_append, utf8ToWchar_cons]
    split at h
    · rw [if_pos ‹_›]
      exact h
    · rw [if_neg ‹_›]
      split at h
      · cases h
      · rw [if_neg ‹_›]
        split at h
        · cases h
        · rw [if_neg (by rw [List.length_append]; omega), continuation_append _ _ (by omega)]
          exact h

/-- How the first character of `s` depends on the `extra` bytes behind it. -/
theorem utf8_split (hne : s ≠ []) (extra : ℕ) : (∃ c n, unicodeUtf8ToWchar s = .ok (c, n)) ∨
    (∃ e, ∀ t : List UInt8, t.length = extra → unicodeUtf8ToWchar (s ++ t) = .error e) ∨
      ∃ c j, 0 < j ∧ j ≤ extra ∧ (∀ t, unicodeUtf8ToWchar (s ++ (List.replicate j 0x80 ++ t)) = .ok (c, s.length + j)) ∧
        unicodeUtf8ToWchar (s ++ List.replicate extra 0) = .error .eilseq := by
  obtain ⟨b, s, rfl⟩ := List.exists_cons_of_ne_nil hne
  simp only [List.cons_append, utf8ToWchar_cons]
  by_cases h1 : b.toNat < 0x80
  · exact .inl ⟨_, _, if_pos h1⟩
  by_cases h2 : b.toNat < 0xC0 ∨ 0xF8 ≤ b.toNat
  · exact .inr (.inl ⟨_, fun t _ => by rw [if_neg h1, if_pos h2]⟩)
  simp only [if_neg h1, if_neg h2]
  generalize tailCount b.toNat = k
  generalize b.toNat % [128, 32, 16, 8].getD k 0 = wc
  by_cases hk : k ≤ s.length
  · rw [if_neg (by omega)]
    cases hc : continuation k wc s with
    | ok r => exact .inl ⟨r, k + 1, rfl⟩
    | error e =>
      refine .inr (.inl ⟨e, fun t _ => ?_⟩)
      rw [if_neg (by rw [List.length_append]; omega), continuation_append _ _ hk, hc]
      rfl
  · by_cases hx : s.length + extra < k
    · refine .inr (.inl ⟨.enametoolong, fun t ht => ?_⟩)
      rw [if_pos (by rw [List.length_append]; omega)]
    · rcases continuation_split k wc s (by omega) with hall | ⟨⟨r, hr⟩, herr⟩
      · refine .inr (.inl ⟨.eilseq, fun t ht => ?_⟩)
        have hlen : ¬(s ++ t).length < k := by
          rw [List.length_append]
          omega
        rw [if_neg hlen, (hall t).resolve_right hlen]
        rfl
      · refine .inr (.inr ⟨r, k - s.length, by omega, by omega, fun t => ?_, ?_⟩)
        · rw [if_neg (by simp; omega), hr, List.length_cons]
          simp only [Except.map]
          congr 2
          omega
        · obtain ⟨m, rfl⟩ := Nat.exists_eq_succ_of_ne_zero (show extra ≠ 0 by omega)
          rw [if_neg (by simp; omega), List.replicate_succ, herr]
          rfl

theorem fcbBytes_step {n : ℕ} (h0 : s.headD 0 ≠ 0) (h : unicodeUtf8ToWchar s = .ok (c, n)) (t : List UInt8) :
    fcbBytes wildcards size (s ++ t).length (s ++ t) dest res =
      if wildcards = true ∧ c = 0x2A then (dest ++ List.replicate (size - dest.length) 0x3F, .ok res)
      else if dest.length = size then (dest, .ok 1)
      else if c > 255 then fcbBytes wildcards size (s.drop n ++ t).length (s.drop n ++ t) (dest ++ [0x5F]) 1
      else if c < 0x20 then (dest ++ [UInt8.ofNat c], .error .einval)
      else if ¬(wildcards = true ∧ c = 0x3F) ∧ c ∈ invalidSfnCharacters then (dest ++ [UInt8.ofNat c], .error .einval)
      else fcbBytes wildcards size (s.drop n ++ t).length (s.drop n ++ t) (dest ++ [UInt8.ofNat (nlsToupper c)]) res := by
  have hskip := utf8_skip h
  have hlen : (s.take n).length = n := by
    rw [List.length_take]
    omega
  have hsplit : s ++ t = s.take n ++ (s.drop n ++ t) := by
    rw [← List.append_assoc, List.take_append_drop]
  have hdec : unicodeUtf8ToWchar (s.take n ++ (s.drop n ++ t)) = .ok (c, (s.take n).length) := by
    rw [hlen, ← hsplit]
    exact utf8_append h t
  have hhead : (s.take n).headD 0 ≠ 0 := by
    cases s with
    | nil => exact absurd rfl h0
    | cons b s =>
      cases n with
      | zero => omega
      | succ n => exact h0
  rw [hsplit, fcbBytes_cons hhead hdec]

theorem fcbBytes_nul (h0 : s.headD 0 = 0) : fcbBytes wildcards size s.length s dest res = (dest, .ok res) := by
  cases s with
  | nil => rfl
  | cons b s => rw [List.length_cons, fcbBytes, if_pos h0]

theorem fcbBytes_error {e : Errno} (h0 : s.headD 0 ≠ 0) (h : unicodeUtf8ToWchar s = .error e) :
    fcbBytes wildcards size s.length s dest res = (dest, .error e) := by
  cases s with
  | nil => exact absurd rfl h0
  | cons b s => rw [List.length_cons, fcbBytes, if_neg (by exact h0), h]

theorem Ends.same (h : Ends wildcards extra room s) (res : ℕ) (dest : List UInt8) (hroom : dest.length + room = size) {t' : List UInt8}
    (ht : t.length = extra) (ht' : t'.length = extra) :
    fcbBytes wildcards size (s ++ t).length (s ++ t) dest res =
      fcbBytes wildcards size (s ++ t').length (s ++ t') dest res := by
  have hnul : ∀ {s : List UInt8}, s.headD 0 = 0 → s ≠ [] → ∀ t : List UInt8, (s ++ t).headD 0 = 0 := by
    intro s h0 hne t
    obtain ⟨b, s, rfl⟩ := List.exists_cons_of_ne_nil hne
    exact h0
  have hfull : ∀ {c n : ℕ} {s : List UInt8}, unicodeUtf8ToWchar s = .ok (c, n) → s ≠ [] := by
    rintro c n s h rfl
    cases h
  induction h generalizing dest res with
  | nul => rw [fcbBytes_nul rfl, fcbBytes_nul rfl]
  | @malformed room s e h hne =>
    by_cases h0 : s.headD 0 = 0
    · rw [fcbBytes_nul (hnul h0 hne t), fcbBytes_nul (hnul h0 hne t')]
    · obtain ⟨b, s, rfl⟩ := List.exists_cons_of_ne_nil hne
      rw [fcbBytes_error (by exact h0) (h t ht), fcbBytes_error (by exact h0) (h t' ht')]
  | @star room n s h hw =>
    by_cases h0 : s.headD 0 = 0
    · rw [fcbBytes_nul (hnul h0 (hfull h) t), fcbBytes_nul (hnul h0 (hfull h) t')]
    · rw [fcbBytes_step h0 h, fcbBytes_step h0 h, if_pos ⟨hw, rfl⟩, if_pos ⟨hw, rfl⟩]
  | @full c n s h =>
    by_cases h0 : s.headD 0 = 0
    · rw [fcbBytes_nul (hnul h0 (hfull h) t), fcbBytes_nul (hnul h0 (hfull h) t')]
    · rw [fcbBytes_step h0 h, fcbBytes_step h0 h]
      simp only [Nat.add_zero] at hroom
      simp only [hroom, if_true]
  | @invalid room c n s h hc hw =>
    by_cases h0 : s.headD 0 = 0
    · rw [fcbBytes_nul (hnul h0 (hfull h) t), fcbBytes_nul (hnul h0 (hfull h) t')]
    · have hsmall : ∀ c ∈ invalidSfnCharacters, c ≤ 255 := by decide
      have h255 : ¬c > 255 := by
        rcases hc with hc | hc
        · omega
        · have := hsmall c hc
          omega
      rw [fcbBytes_step h0 h, fcbBytes_step h0 h]
      simp only [if_neg h255]
      rcases hc with hc | hc
      · simp only [if_pos hc]
      · simp only [if_pos (show ¬(wildcards = true ∧ c = 0x3F) ∧ c ∈ invalidSfnCharacters from ⟨hw, hc⟩), ite_self]
  | @next room c n s h hs ih =>
    by_cases h0 : s.headD 0 = 0
    · rw [fcbBytes_nul (hnul h0 (hfull h) t), fcbBytes_nul (hnul h0 (hfull h) t')]
    · have hrest : ∀ (b : UInt8) (res : ℕ), fcbBytes wildcards size (s.drop n ++ t).length (s.drop n ++ t) (dest ++ [b]) res =
          fcbBytes wildcards size (s.drop n ++ t').length (s.drop n ++ t') (dest ++ [b]) res := by
        intro b res
        apply ih
        rw [List.length_append, List.length_singleton]
        omega
      rw [fcbBytes_step h0 h, fcbBytes_step h0 h]
      simp only [hrest]

/-- A scan that does not come to an end depends on the bytes behind the part. -/
theorem exists_differ (res : ℕ) (dest : List UInt8) (hextra : 0 < extra) (h : ¬Ends wildcards extra room s) (hroom : dest.length + room = size) :
    ∃ t t' : List UInt8, t.length = extra ∧ t'.length = extra ∧
      (fcbBytes wildcards size (s ++ t).length (s ++ t) dest res).2 ≠ .error .eilseq ∧
      (fcbBytes wildcards size (s ++ t').length (s ++ t') dest res).2 = .error .eilseq := by
  induction hn : s.length using Nat.strong_induction_on generalizing s dest res room with
  | _ len ih =>
    subst hn
    obtain ⟨m, rfl⟩ := Nat.exists_eq_succ_of_ne_zero (Nat.ne_of_gt hextra)
    have hzeros : ∀ k, (List.replicate k (0 : UInt8)).headD 0 = 0 := fun k => by cases k <;> rfl
    by_cases hne : s = []
    · refine ⟨List.replicate (m + 1) 0, List.replicate (m + 1) 0x80, List.length_replicate, List.length_replicate, ?_, ?_⟩
      · rw [hne, List.nil_append, fcbBytes_nul (hzeros _)]
        simp
      · rw [hne, List.nil_append, fcbBytes_error (e := .eilseq) (by rw [List.replicate_succ, List.headD_cons]; decide)
          (by rw [List.replicate_succ, utf8ToWchar_cons]; rfl)]
    have h0 : s.headD 0 ≠ 0 := by
      obtain ⟨b, s, rfl⟩ := List.exists_cons_of_ne_nil hne
      intro h0
      change b = 0 at h0
      exact h (h0 ▸ .nul)
    have h0' : ∀ t : List UInt8, (s ++ t).headD 0 ≠ 0 := by
      obtain ⟨b, s, rfl⟩ := List.exists_cons_of_ne_nil hne
      exact fun t => h0
    rcases utf8_split hne (m + 1) with ⟨c, n, hdec⟩ | ⟨e, he⟩ | ⟨c, j, hj0, hj, hdec, herr⟩
    · -- the character is there, and the scan goes on behind it
      obtain ⟨r, rfl⟩ : ∃ r, room = r + 1 := by
        apply Nat.exists_eq_succ_of_ne_zero
        rintro rfl
        exact h (.full hdec)
      have hskip := utf8_skip hdec
      have hrest : ¬Ends wildcards (m + 1) r (s.drop n) := fun hr => h (.next hdec hr)
      have hstep : ∃ b res', ∀ t : List UInt8, fcbBytes wildcards size (s ++ t).length (s ++ t) dest res =
          fcbBytes wildcards size (s.drop n ++ t).length (s.drop n ++ t) (dest ++ [b]) res' := by
        have hstar : ¬(wildcards = true ∧ c = 0x2A) := by
          rintro ⟨hw, rfl⟩
          exact h (.star hdec hw)
        simp only [fcbBytes_step h0 hdec, if_neg hstar, if_neg (show ¬dest.length = size by omega)]
        by_cases h255 : c > 255
        · simp only [if_pos h255]
          exact ⟨_, _, fun t => rfl⟩
        · have h20 : ¬c < 0x20 := fun hlt => h (.invalid hdec (.inl hlt) (by rintro ⟨-, rfl⟩; omega))
          have hinv : ¬(¬(wildcards = true ∧ c = 0x3F) ∧ c ∈ invalidSfnCharacters) := fun hi =>
            h (.invalid hdec (.inr hi.2) hi.1)
          simp only [if_neg h255, if_neg h20, if_neg hinv]
          exact ⟨_, _, fun t => rfl⟩
      obtain ⟨b, res', hstep⟩ := hstep
      have hroom' : (dest ++ [b]).length + r = size := by
        rw [List.length_append, List.length_singleton]
        omega
      obtain ⟨t, t', ht, ht', hok, hbad⟩ := ih (s.drop n).length (by rw [List.length_drop]; omega) res' (dest ++ [b]) hrest
        hroom' rfl
      exact ⟨t, t', ht, ht', by rwa [hstep], by rwa [hstep]⟩
    · exact absurd (.malformed he hne) h
    · -- the character is completed or not
      refine ⟨List.replicate j 0x80 ++ List.replicate (m + 1 - j) 0, List.replicate (m + 1) 0, by simp; omega,
        List.length_replicate, ?_, ?_⟩
      · have hx : unicodeUtf8ToWchar ((s ++ List.replicate j 0x80) ++ List.replicate (m + 1 - j) 0) =
            .ok (c, (s ++ List.replicate j 0x80).length) := by
          rw [List.append_assoc, hdec, List.length_append, List.length_replicate]
        rw [← List.append_assoc, fcbBytes_cons (h0' _) hx]
        simp only [fcbBytes_nul (hzeros _)]
        repeat' split
        all_goals simp
      · rw [fcbBytes_error (h0' _) herr]

/-- The part behind the first dot, if it comes to that, ends inside of the name. -/
def OwnBytes (src : List UInt8) (wildcards : Bool) : Prop :=
  src = [0x2E] ∨ src = [0x2E, 0x2E] ∨ ∀ dot, src.findIdx? (· == 0x2E) = some dot →
    (∃ e, (fcbNamePart 8 (src.take dot) wildcards).2 = .error e) ∨ Ends wildcards (dot + 1) 3 (src.drop (dot + 1))

theorem extension_bytes {src past : List UInt8} {dot : ℕ} (h : src.findIdx? (· == 0x2E) = some dot)
    (hpast : src.length ≤ past.length) :
    ((src ++ past).drop (dot + 1)).take src.length = src.drop (dot + 1) ++ past.take (dot + 1) ∧
      (past.take (dot + 1)).length = dot + 1 := by
  have hlt : dot < src.length := (List.findIdx?_eq_some_iff_getElem.mp h).1
  have hdrop : (src.drop (dot + 1)).length = src.length - (dot + 1) := List.length_drop
  have hlen : src.length = (src.drop (dot + 1)).length + (dot + 1) := by omega
  constructor
  · rw [List.drop_append_of_le_length (by omega)]
    conv_lhs => rw [hlen]
    exact List.take_length_add_append _
  · rw [List.length_take]
    omega

/-- When nothing but the name decides what is built. -/
theorem buildFcbName_own (src : List UInt8) (wildcards : Bool) :
    (∀ past past' : List UInt8, src.length ≤ past.length → src.length ≤ past'.length →
      buildFcbName src past wildcards = buildFcbName src past' wildcards) ↔ OwnBytes src wildcards := by
  by_cases hs : src = [0x2E] ∨ src = [0x2E, 0x2E]
  · simp only [buildFcbName, if_pos hs, implies_true, true_iff]
    rw [OwnBytes, ← or_assoc]
    exact .inl hs
  rw [OwnBytes, ← or_assoc, or_iff_right hs]
  simp only [buildFcbName, if_neg hs]
  cases hdot : src.findIdx? (· == 0x2E) with
  | none => simp
  | some dot =>
    simp only [Option.some.injEq, forall_eq']
    rcases hname : fcbNamePart 8 (src.take dot) wildcards with ⟨n, e | r⟩
    · simp
    · simp only [reduceCtorEq, exists_false, false_or]
      constructor
      · intro hsame
        by_contra hends
        obtain ⟨t, t', ht, ht', hok, hbad⟩ := exists_differ 0 [] (Nat.succ_pos dot) hends (Nat.zero_add 3)
        have hpast : ∀ u : List UInt8, u.length = dot + 1 → (u ++ List.replicate src.length 0).take (dot + 1) = u :=
          fun u hu => List.take_left' hu
        have hlong : ∀ u : List UInt8, src.length ≤ (u ++ List.replicate src.length 0).length := fun u => by simp
        have h := hsame (t ++ List.replicate src.length 0) (t' ++ List.replicate src.length 0) (hlong t) (hlong t')
        rw [(extension_bytes hdot (hlong t)).1, (extension_bytes hdot (hlong t')).1, hpast t ht, hpast t' ht'] at h
        simp only [fcbNamePart] at h
        rcases hx : fcbBytes wildcards 3 (src.drop (dot + 1) ++ t).length (src.drop (dot + 1) ++ t) [] 0 with ⟨x, y⟩
        rcases hx' : fcbBytes wildcards 3 (src.drop (dot + 1) ++ t').length (src.drop (dot + 1) ++ t') [] 0 with ⟨x', y'⟩
        rw [hx] at h hok
        rw [hx'] at h hbad
        subst hbad
        have hcheck : ∀ b res, (checkShortFname b res).2 ≠ .error .eilseq := by
          intro b res
          cases b with
          | nil => simp [checkShortFname]
          | cons c b =>
            rw [checkShortFname]
            split
            · simp
            · split <;> simp
        cases y with
        | error e => exact hok (congrArg Prod.snd h)
        | ok m => exact hcheck _ _ (congrArg Prod.snd h)
      · intro hends past past' hp hp'
        obtain ⟨hb, hl⟩ := extension_bytes hdot hp
        obtain ⟨hb', hl'⟩ := extension_bytes hdot hp'
        rw [hb, hb', fcbNamePart, fcbNamePart, hends.same 0 [] (Nat.zero_add 3) hl hl']

/-- The extension is taken from what follows the name. -/
theorem buildFcbName_past :
    buildFcbName [0x41, 0x2E, 0x42] [0x43, 0x44, 0x45] false = ([0x41, 0x20, 0x20, 0x20, 0x20, 0x20, 0x20, 0x20, 0x42, 0x43, 0x44], .ok 0) ∧
      buildFcbName [0x41, 0x2E, 0x42] [0, 0, 0] false = ([0x41, 0x20, 0x20, 0x20, 0x20, 0x20, 0x20, 0x20, 0x42, 0x20, 0x20], .ok 0) := by
  decide

end Reads

end FreeDos32.Fat
