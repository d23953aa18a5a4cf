import Mathlib.Data.List.Perm.Basic
import FreeDos32.Fat.Buffer

namespace FreeDos32.Fat.Cache

variable {α : Type}

/-- What a reader sees at each sector: the buffered copy when there is one. -/
def logical (c : Cache α) (s : ℕ) : α :=
  match c.findBuffer s with
  | some b => (c.buffers b).data (s - (c.buffers b).sector)
  | none => c.device s

structure Ok (c : Cache α) : Prop where
  noFault : ∀ k, c.fault k = false
  perBuffer : 0 < c.sectorsPerBuffer
  some : 0 < c.numBuffers
  lru : c.buffersLru.Perm (List.range c.numBuffers)
  aligned : ∀ b < c.numBuffers, (c.buffers b).valid = true →
    c.sectorsPerBuffer ∣ (c.buffers b).sector
  extent : ∀ b < c.numBuffers, (c.buffers b).valid = true →
    (c.buffers b).count = min c.sectorsPerBuffer (c.deviceEnd - (c.buffers b).sector)
  clean : ∀ b < c.numBuffers, (c.buffers b).valid = true → (c.buffers b).dirty = false →
    ∀ k < (c.buffers b).count, (c.buffers b).data k = c.device ((c.buffers b).sector + k)
  unique : ∀ b < c.numBuffers, ∀ b' < c.numBuffers, (c.buffers b).valid = true →
    (c.buffers b').valid = true → (c.buffers b).sector = (c.buffers b').sector → b = b'

/-- The parts of a cache that no operation changes. -/
structure SameShape (c d : Cache α) : Prop where
  deviceEnd : d.deviceEnd = c.deviceEnd
  log : d.logBytesPerSector = c.logBytesPerSector
  perBuffer : d.sectorsPerBuffer = c.sectorsPerBuffer
  num : d.numBuffers = c.numBuffers

theorem SameShape.refl (c : Cache α) : SameShape c c := ⟨rfl, rfl, rfl, rfl⟩

theorem SameShape.trans {c d e : Cache α} (h : SameShape c d) (h' : SameShape d e) : SameShape c e :=
  ⟨h'.1.trans h.1, h'.2.trans h.2, h'.3.trans h.3, h'.4.trans h.4⟩

@[simp] theorem setBuffer_same (b : ℕ) (x : Buffer α) (c : Cache α) : (c.setBuffer b x).buffers b = x :=
  if_pos rfl

theorem setBuffer_other {b k : ℕ} (h : k ≠ b) (x : Buffer α) (c : Cache α) :
    (c.setBuffer b x).buffers k = c.buffers k := if_neg h

theorem findBuffer_lt {c : Cache α} {s b : ℕ} (h : c.findBuffer s = .some b) :
    b < c.numBuffers ∧ (c.buffers b).Covers s := by
  have hm := List.mem_of_find?_eq_some h
  have hp := List.find?_some h
  exact ⟨List.mem_range.mp hm, by simpa using hp⟩

theorem findBuffer_none {c : Cache α} {s : ℕ} :
    c.findBuffer s = none ↔ ∀ b < c.numBuffers, ¬(c.buffers b).Covers s := by
  simp [findBuffer, List.find?_eq_none]

namespace Ok

variable {c : Cache α}

theorem sector_eq (h : c.Ok) {b s : ℕ} (hb : b < c.numBuffers) (hc : (c.buffers b).Covers s) :
    (c.buffers b).sector = s / c.sectorsPerBuffer * c.sectorsPerBuffer := by
  obtain ⟨hv, h1, h2⟩ := hc
  obtain ⟨q, hq⟩ := h.aligned b hb hv
  have he := h.extent b hb hv
  have hlt : s < c.sectorsPerBuffer * q + c.sectorsPerBuffer := by omega
  have hd : s / c.sectorsPerBuffer = q := by
    apply Nat.div_eq_of_lt_le
    · rw [Nat.mul_comm]; omega
    · rw [Nat.add_mul, Nat.one_mul, Nat.mul_comm]; omega
  rw [hd, hq, Nat.mul_comm]

theorem covers_unique (h : c.Ok) {b b' s : ℕ} (hb : b < c.numBuffers) (hb' : b' < c.numBuffers)
    (hc : (c.buffers b).Covers s) (hc' : (c.buffers b').Covers s) : b = b' :=
  h.unique b hb b' hb' hc.1 hc'.1 ((h.sector_eq hb hc).trans (h.sector_eq hb' hc').symm)

theorem findBuffer_eq (h : c.Ok) {b s : ℕ} (hb : b < c.numBuffers) (hc : (c.buffers b).Covers s) :
    c.findBuffer s = .some b := by
  cases hf : c.findBuffer s with
  | none => exact absurd hc (findBuffer_none.mp hf b hb)
  | some b' =>
    obtain ⟨hb', hc'⟩ := findBuffer_lt hf
    rw [h.covers_unique hb hb' hc hc']

theorem covers_lt (h : c.Ok) {b s : ℕ} (hb : b < c.numBuffers) (hc : (c.buffers b).Covers s) :
    s < c.deviceEnd := by
  have he := h.extent b hb hc.1
  have := hc.2
  omega

theorem logical_covered (h : c.Ok) {b s : ℕ} (hb : b < c.numBuffers) (hc : (c.buffers b).Covers s) :
    c.logical s = (c.buffers b).data (s - (c.buffers b).sector) := by
  rw [logical, h.findBuffer_eq hb hc]

theorem logical_uncovered {s : ℕ} (hn : ∀ b < c.numBuffers, ¬(c.buffers b).Covers s) :
    c.logical s = c.device s := by
  rw [logical, findBuffer_none.mpr hn]

theorem mem_lru (h : c.Ok) {b : ℕ} : b ∈ c.buffersLru ↔ b < c.numBuffers := by
  rw [h.lru.mem_iff, List.mem_range]

theorem lru_head_lt (h : c.Ok) : c.buffersLru.headD 0 < c.numBuffers := by
  cases hl : c.buffersLru with
  | nil =>
    have := h.lru.length_eq
    have := h.some
    simp_all
  | cons b bs => exact h.mem_lru.mp (by simp [hl])

end Ok

def flushed (b : ℕ) (c : Cache α) : Cache α :=
  if (c.buffers b).valid && (c.buffers b).dirty then
    { c.setBuffer b { c.buffers b with dirty := false } with
      transfers := c.transfers + 1
      device := fun s =>
        if (c.buffers b).Covers s then (c.buffers b).data (s - (c.buffers b).sector) else c.device s }
  else c

theorem flushed_shape (b : ℕ) (c : Cache α) : SameShape c (c.flushed b) := by
  unfold flushed
  split <;> exact ⟨rfl, rfl, rfl, rfl⟩

theorem flushed_lru (b : ℕ) (c : Cache α) : (c.flushed b).buffersLru = c.buffersLru := by
  unfold flushed
  split <;> rfl

theorem flushed_fault (b : ℕ) (c : Cache α) : (c.flushed b).fault = c.fault := by
  unfold flushed
  split <;> rfl

theorem flushed_buffers (b k : ℕ) (c : Cache α) : (c.flushed b).buffers k =
    { c.buffers k with dirty := (c.buffers k).dirty && !(decide (k = b) && (c.buffers k).valid) } := by
  unfold flushed
  by_cases hk : k = b
  · subst hk
    split
    next h => simp_all [setBuffer]
    · cases hv : (c.buffers k).valid <;> cases hd : (c.buffers k).dirty <;> simp_all <;>
        (cases hx : c.buffers k; simp_all)
  · split <;> simp [setBuffer, hk]

theorem flushed_covers (b k s : ℕ) (c : Cache α) :
    ((c.flushed b).buffers k).Covers s ↔ (c.buffers k).Covers s := by
  simp [flushed_buffers, Buffer.Covers]

theorem flushed_findBuffer (b s : ℕ) (c : Cache α) : (c.flushed b).findBuffer s = c.findBuffer s := by
  unfold findBuffer
  rw [(flushed_shape b c).num]
  simp only [flushed_covers]

theorem flushed_device (b s : ℕ) (c : Cache α) : (c.flushed b).device s =
    if (c.buffers b).Covers s ∧ (c.buffers b).dirty then
      (c.buffers b).data (s - (c.buffers b).sector) else c.device s := by
  unfold flushed
  cases hv : (c.buffers b).valid <;> cases hd : (c.buffers b).dirty <;> simp [Buffer.Covers, hv]

/-- Every sector a flush writes was covered by that buffer, so readers see no change. -/
theorem flushed_logical {c : Cache α} {b : ℕ} (hb : b < c.numBuffers) :
    (c.flushed b).logical = c.logical := by
  funext s
  unfold logical
  rw [flushed_findBuffer]
  cases hf : c.findBuffer s with
  | none =>
    have hn := findBuffer_none.mp hf b hb
    simp [flushed_device, hn]
  | some k => simp [flushed_buffers]

theorem Ok.flushed {c : Cache α} (h : c.Ok) {b : ℕ} (hb : b < c.numBuffers) : (c.flushed b).Ok := by
  have hs := flushed_shape b c
  refine ⟨?_, ?_, ?_, ?_, ?_, ?_, ?_, ?_⟩
  · rw [flushed_fault]; exact h.noFault
  · rw [hs.perBuffer]; exact h.perBuffer
  · rw [hs.num]; exact h.some
  · rw [flushed_lru, hs.num]; exact h.lru
  · intro k hk hv
    rw [flushed_buffers] at hv ⊢
    rw [hs.perBuffer]
    exact h.aligned k (hs.num ▸ hk) hv
  · intro k hk hv
    rw [flushed_buffers] at hv ⊢
    rw [hs.perBuffer, hs.deviceEnd]
    exact h.extent k (hs.num ▸ hk) hv
  · intro k hk hv hd j hj
    rw [hs.num] at hk
    rw [flushed_buffers] at hv hd hj ⊢
    rw [flushed_device]
    have hc : (c.buffers k).Covers ((c.buffers k).sector + j) := ⟨hv, by omega, by simpa using hj⟩
    by_cases hkb : (c.buffers b).Covers ((c.buffers k).sector + j)
    · obtain rfl := h.covers_unique hb hk hkb hc
      cases hdirty : (c.buffers b).dirty with
      | true => simp [hc]
      | false => simpa [hdirty] using h.clean b hk hv hdirty j hj
    · have hne : k ≠ b := fun he => hkb (he ▸ hc)
      simp only [hne, decide_false, Bool.false_and, Bool.not_false, Bool.and_true] at hd
      simpa [hkb] using h.clean k hk hv hd j hj
  · intro k hk k' hk' hv hv' he
    rw [hs.num] at hk hk'
    rw [flushed_buffers] at hv hv' he
    rw [flushed_buffers] at he
    exact h.unique k hk k' hk' hv hv' he

theorem Ok.flushBuffer_eq {c : Cache α} (h : c.Ok) {b : ℕ} (hb : b < c.numBuffers) :
    (flushBuffer b).run c = (.ok (), c.flushed b) := by
  unfold flushBuffer Cache.flushed
  simp only [Prog.run_bind_state]
  split
  next hvd =>
    have hv : (c.buffers b).valid = true := by simp_all
    have he := h.extent b hb hv
    have hres : min (c.buffers b).count (c.deviceEnd - (c.buffers b).sector) = (c.buffers b).count := by
      omega
    have hw : (fatBlockdevWrite b (c.buffers b).count (c.buffers b).sector).run c =
        (.ok (c.buffers b).count, { c with
          transfers := c.transfers + 1
          device := fun s => if (c.buffers b).sector ≤ s ∧ s < (c.buffers b).sector + (c.buffers b).count
            then (c.buffers b).data (s - (c.buffers b).sector) else c.device s }) := by
      simp [fatBlockdevWrite, h.noFault, hres]
    rw [Prog.run_bind_ok hw]
    simp [setBuffer, Buffer.Covers, hv]
  next => rfl

theorem Ok.anyTransfers {c : Cache α} (h : c.Ok) (n : ℕ) : ({ c with transfers := n } : Cache α).Ok :=
  ⟨h.noFault, h.perBuffer, h.some, h.lru, h.aligned, h.extent, h.clean, h.unique⟩

/-- A buffer with nothing to write back may be given a copy of any range no other buffer holds. -/
theorem Ok.replace {c : Cache α} (h : c.Ok) {b : ℕ} (hb : b < c.numBuffers)
    (hclean : (c.buffers b).valid = true → (c.buffers b).dirty = false) {x : Buffer α}
    (hx : x.valid = true → c.sectorsPerBuffer ∣ x.sector ∧
      x.count = min c.sectorsPerBuffer (c.deviceEnd - x.sector) ∧
      (∀ k < x.count, x.data k = c.device (x.sector + k)) ∧
      ∀ k < c.numBuffers, k ≠ b → (c.buffers k).valid = true → (c.buffers k).sector ≠ x.sector) :
    (c.setBuffer b x).Ok ∧ (c.setBuffer b x).logical = c.logical := by
  have hok : (c.setBuffer b x).Ok := by
    refine ⟨h.noFault, h.perBuffer, h.some, h.lru, ?_, ?_, ?_, ?_⟩
    · intro k hk hv
      by_cases hkb : k = b
      · subst hkb
        rw [setBuffer_same] at hv ⊢
        exact (hx hv).1
      · rw [setBuffer_other hkb] at hv ⊢
        exact h.aligned k hk hv
    · intro k hk hv
      by_cases hkb : k = b
      · subst hkb
        rw [setBuffer_same] at hv ⊢
        exact (hx hv).2.1
      · rw [setBuffer_other hkb] at hv ⊢
        exact h.extent k hk hv
    · intro k hk hv hd j hj
      by_cases hkb : k = b
      · subst hkb
        rw [setBuffer_same] at hv hj ⊢
        exact (hx hv).2.2.1 j hj
      · rw [setBuffer_other hkb] at hv hd hj ⊢
        exact h.clean k hk hv hd j hj
    · intro k hk k' hk' hv hv' he
      by_cases hkb : k = b <;> by_cases hkb' : k' = b
      · rw [hkb, hkb']
      · subst hkb
        rw [setBuffer_same] at hv he
        rw [setBuffer_other hkb'] at hv' he
        exact absurd he.symm ((hx hv).2.2.2 k' hk' hkb' hv')
      · subst hkb'
        rw [setBuffer_same] at hv' he
        rw [setBuffer_other hkb] at hv he
        exact absurd he ((hx hv').2.2.2 k hk hkb hv)
      · rw [setBuffer_other hkb] at hv he
        rw [setBuffer_other hkb'] at hv' he
        exact h.unique k hk k' hk' hv hv' he
  refine ⟨hok, ?_⟩
  funext s
  by_cases hcov : ∃ k < c.numBuffers, k ≠ b ∧ (c.buffers k).Covers s
  · obtain ⟨k, hk, hkb, hc⟩ := hcov
    rw [h.logical_covered hk hc, hok.logical_covered (b := k) hk (by rwa [setBuffer_other hkb]),
      setBuffer_other hkb]
  · -- no other buffer holds the sector, so before and after readers see the device
    have hold : c.logical s = c.device s := by
      by_cases hc : (c.buffers b).Covers s
      · rw [h.logical_covered hb hc, h.clean b hb hc.1 (hclean hc.1) _ (by have := hc.2; omega)]
        congr 1
        have := hc.2
        omega
      · apply Ok.logical_uncovered
        intro k hk hck
        by_cases hkb : k = b
        · exact hc (hkb ▸ hck)
        · exact hcov ⟨k, hk, hkb, hck⟩
    rw [hold]
    by_cases hc : x.Covers s
    · rw [hok.logical_covered (b := b) hb (by rwa [setBuffer_same]), setBuffer_same,
        (hx hc.1).2.2.1 _ (by have := hc.2; omega)]
      congr 1
      have := hc.2
      omega
    · apply Ok.logical_uncovered
      intro k hk hck
      by_cases hkb : k = b
      · subst hkb
        rw [setBuffer_same] at hck
        exact hc hck
      · rw [setBuffer_other hkb] at hck
        exact hcov ⟨k, hk, hkb, hck⟩

theorem Ok.drop {c : Cache α} (h : c.Ok) {b : ℕ} (hb : b < c.numBuffers)
    (hclean : (c.buffers b).valid = true → (c.buffers b).dirty = false) {x : Buffer α}
    (hx : x.valid = false) : (c.setBuffer b x).Ok ∧ (c.setBuffer b x).logical = c.logical :=
  h.replace hb hclean (fun hv => absurd (hx.symm.trans hv) Bool.false_ne_true)

theorem flushed_clean (b : ℕ) (c : Cache α) (hv : ((c.flushed b).buffers b).valid = true) :
    ((c.flushed b).buffers b).dirty = false := by
  rw [flushed_buffers] at hv ⊢
  simp_all

theorem Ok.touched {c : Cache α} (h : c.Ok) {b : ℕ} (hb : b < c.numBuffers) :
    (c.touch b).Ok := by
  refine ⟨h.noFault, h.perBuffer, h.some, ?_, h.aligned, h.extent, h.clean, h.unique⟩
  have hm : b ∈ c.buffersLru := h.mem_lru.mpr hb
  have hp : (c.buffersLru.erase b ++ [b]).Perm (b :: c.buffersLru.erase b) :=
    List.perm_append_comm
  exact (hp.trans (List.perm_cons_erase hm).symm).trans h.lru

theorem setBuffer_setBuffer (b : ℕ) (x y : Buffer α) (c : Cache α) :
    (c.setBuffer b x).setBuffer b y = c.setBuffer b y := by
  unfold setBuffer
  congr 1
  funext k
  dsimp only
  split <;> rfl

def refilled (c : Cache α) (b base : ℕ) : Buffer α where
  sector := base
  count := min c.sectorsPerBuffer (c.deviceEnd - base)
  valid := true
  dirty := false
  data := fun k => if k < min c.sectorsPerBuffer (c.deviceEnd - base) then c.device (base + k)
    else (c.buffers b).data k

theorem div_mul_bounds {s n : ℕ} (hn : 0 < n) : s / n * n ≤ s ∧ s < s / n * n + n := by
  have h := Nat.div_add_mod s n
  have hlt := Nat.mod_lt s hn
  rw [Nat.mul_comm] at h
  constructor <;> omega

variable {c : Cache α} {s b : ℕ}

theorem Ok.loadBuffer_eq (h : c.Ok) (hb : b < c.numBuffers) :
    let base := s / c.sectorsPerBuffer * c.sectorsPerBuffer
    let d := { c.flushed b with transfers := (c.flushed b).transfers + 1 }
    (loadBuffer s b).run c = if s < c.deviceEnd then (.ok (), d.setBuffer b (d.refilled b base))
      else (.error .eio, d.setBuffer b
        { d.refilled b base with valid := false, count := (d.buffers b).count }) := by
  intro base d
  have hs := flushed_shape b c
  have hnf : ∀ k, (c.flushed b).fault k = false := by rw [flushed_fault]; exact h.noFault
  have hbase := div_mul_bounds (s := s) h.perBuffer
  unfold loadBuffer
  rw [Prog.run_bind_ok (h.flushBuffer_eq hb), Prog.run_bind_state, Prog.run_bind_update, hs.perBuffer]
  have hread : (fatBlockdevRead b c.sectorsPerBuffer base).run (invalidate b base (c.flushed b)) =
      (.ok (min c.sectorsPerBuffer (c.deviceEnd - base)), d.setBuffer b
        { d.refilled b base with valid := false, count := (d.buffers b).count }) := by
    simp [fatBlockdevRead, invalidate, hnf, setBuffer, d, refilled, hs.deviceEnd, hs.perBuffer]
    funext k
    split <;> simp_all
  rw [Prog.run_bind_ok hread]
  have hiff : base + min c.sectorsPerBuffer (c.deviceEnd - base) ≤ s ↔ ¬s < c.deviceEnd := by
    simp only [base]
    omega
  by_cases hlt : s < c.deviceEnd
  · rw [if_neg (by rw [ge_iff_le, hiff]; exact not_not.mpr hlt), if_pos hlt]
    simp [validate, setBuffer_setBuffer, refilled, d, hs.deviceEnd, hs.perBuffer]
  · rw [if_pos (by rw [ge_iff_le, hiff]; exact hlt), if_neg hlt, Prog.run_fail]

theorem Ok.loadBuffer_ok (h : c.Ok) (hb : b < c.numBuffers) (hf : c.findBuffer s = none)
    (hs : s < c.deviceEnd) :
    ∃ d, (loadBuffer s b).run c = (.ok (), d) ∧ d.Ok ∧ d.logical = c.logical ∧ SameShape c d ∧
      (d.buffers b).Covers s ∧ d.buffersLru = c.buffersLru ∧ ∀ k ≠ b, d.buffers k = c.buffers k := by
  have hsh := flushed_shape b c
  have hbase := div_mul_bounds (s := s) h.perBuffer
  have hd := (h.flushed hb).anyTransfers ((c.flushed b).transfers + 1)
  have hrep := hd.replace (b := b) (hsh.num ▸ hb) (flushed_clean b c)
    (x := refilled { c.flushed b with transfers := (c.flushed b).transfers + 1 } b
      (s / c.sectorsPerBuffer * c.sectorsPerBuffer)) (fun _ => ?_)
  · refine ⟨_, by rw [h.loadBuffer_eq hb, if_pos hs], hrep.1, ?_, ?_, ?_, ?_, ?_⟩
    · exact hrep.2.trans (flushed_logical hb)
    · exact ⟨hsh.1, hsh.2, hsh.3, hsh.4⟩
    · rw [setBuffer_same]
      refine ⟨rfl, hbase.1, ?_⟩
      simp only [refilled, hsh.perBuffer, hsh.deviceEnd]
      omega
    · exact flushed_lru b c
    · intro k hk
      rw [setBuffer_other hk]
      simp [flushed_buffers, hk]
  · refine ⟨?_, rfl, ?_, ?_⟩
    · simp only [refilled, hsh.perBuffer]
      exact Nat.dvd_mul_left _ _
    · intro k hk
      exact if_pos hk
    · intro k hk hkb hv he
      simp only [hsh.num, flushed_buffers, refilled] at hk hv he
      have hext := h.extent k hk hv
      exact findBuffer_none.mp hf k hk ⟨hv, by omega, by omega⟩

theorem Ok.loadBuffer_past (h : c.Ok) (hb : b < c.numBuffers) (hs : ¬s < c.deviceEnd) :
    ∃ d, (loadBuffer s b).run c = (.error .eio, d) ∧ d.Ok ∧ d.logical = c.logical ∧ SameShape c d := by
  have hsh := flushed_shape b c
  have hd := (h.flushed hb).anyTransfers ((c.flushed b).transfers + 1)
  have hrun := h.loadBuffer_eq (s := s) hb
  dsimp only at hrun
  rw [if_neg hs] at hrun
  have hdrop := fun x hx => hd.drop (b := b) (x := x) (hsh.num ▸ hb) (flushed_clean b c) hx
  exact ⟨_, hrun, (hdrop _ rfl).1, (hdrop _ rfl).2.trans (flushed_logical hb), hsh.1, hsh.2, hsh.3, hsh.4⟩

/-- The buffer `fat_readbuf` gives up when the sector is in none of them. -/
def victim (c : Cache α) (buffer : Option ℕ) : ℕ := buffer.getD (c.buffersLru.headD 0)

theorem Ok.victim_lt (h : c.Ok) {buffer : Option ℕ}
    (hbuf : ∀ k, buffer = .some k → k < c.numBuffers) : c.victim buffer < c.numBuffers := by
  cases buffer with
  | none => exact h.lru_head_lt
  | some k => exact hbuf k rfl

theorem Ok.fatReadbuf_ok (h : c.Ok) {buffer : Option ℕ}
    (hbuf : ∀ k, buffer = .some k → k < c.numBuffers) (hs : s < c.deviceEnd) :
    ∃ b d, (fatReadbuf s buffer).run c =
        (.ok (b, (s - (d.buffers b).sector) <<< c.logBytesPerSector), d) ∧
      d.Ok ∧ d.logical = c.logical ∧ SameShape c d ∧ b < c.numBuffers ∧ (d.buffers b).Covers s ∧
      d.buffersLru = c.buffersLru.erase b ++ [b] ∧
      ∀ k ≠ c.victim buffer, d.buffers k = c.buffers k := by
  unfold fatReadbuf
  simp only [Prog.run_bind_state]
  cases hf : c.findBuffer s with
  | some b =>
    obtain ⟨hb, hc⟩ := findBuffer_lt hf
    exact ⟨b, c.touch b, rfl, h.touched hb, rfl, ⟨rfl, rfl, rfl, rfl⟩, hb, hc, rfl, fun _ _ => rfl⟩
  | none =>
    have hb := h.victim_lt hbuf
    obtain ⟨d, hrun, hd, hl, hsh, hc, hlru, hother⟩ := h.loadBuffer_ok hb hf hs
    refine ⟨c.victim buffer, d.touch (c.victim buffer), ?_, hd.touched (hsh.num ▸ hb), hl,
      ⟨hsh.1, hsh.2, hsh.3, hsh.4⟩, hb, hc, ?_, hother⟩
    · simp only [Option.isNone_none, ↓reduceIte, Option.getD_none]
      change (loadBuffer s (c.victim buffer) >>= _).run c = _
      rw [Prog.run_bind_ok hrun]
      simp [touch, victim, hsh.log]
    · rw [← hlru]; rfl

theorem Ok.fatReadbuf_past (h : c.Ok) {buffer : Option ℕ}
    (hbuf : ∀ k, buffer = .some k → k < c.numBuffers) (hs : ¬s < c.deviceEnd) :
    ∃ d, (fatReadbuf s buffer).run c = (.error .eio, d) ∧ d.Ok ∧ d.logical = c.logical ∧ SameShape c d := by
  have hf : c.findBuffer s = none := by
    rw [findBuffer_none]
    intro b hb hc
    exact hs (h.covers_lt hb hc)
  obtain ⟨d, hrun, hrest⟩ := h.loadBuffer_past (s := s) (h.victim_lt hbuf) hs
  refine ⟨d, ?_, hrest⟩
  unfold fatReadbuf
  simp only [Prog.run_bind_state, hf, Option.isNone_none, ↓reduceIte, Option.getD_none]
  change (loadBuffer s (c.victim buffer) >>= _).run c = _
  rw [Prog.run_bind_error hrun]

theorem Ok.poke_dirty (h : c.Ok) (hb : b < c.numBuffers) (hc : (c.buffers b).Covers s) (g : α → α)
    (writeThrough : Bool) :
    ∃ d, (do pokeSector b (s - (c.buffers b).sector) g; fatDirtybuf b writeThrough).run c =
        (.ok (), d) ∧ d.Ok ∧
      d.logical = Function.update c.logical s (g (c.logical s)) ∧ SameShape c d ∧
      d.buffersLru = c.buffersLru ∧ ∀ k t, (d.buffers k).Covers t ↔ (c.buffers k).Covers t := by
  let x : Buffer α := { c.buffers b with
    dirty := true
    data := fun j => if j = s - (c.buffers b).sector then g ((c.buffers b).data j)
      else (c.buffers b).data j }
  have hcov : ∀ k t, ((c.setBuffer b x).buffers k).Covers t ↔ (c.buffers k).Covers t := by
    intro k t
    by_cases hk : k = b
    · subst hk; rw [setBuffer_same]; rfl
    · rw [setBuffer_other hk]
  have hok : (c.setBuffer b x).Ok := by
    have hfield : ∀ k, ((c.setBuffer b x).buffers k).valid = (c.buffers k).valid ∧
        ((c.setBuffer b x).buffers k).sector = (c.buffers k).sector ∧
        ((c.setBuffer b x).buffers k).count = (c.buffers k).count := by
      intro k
      by_cases hk : k = b
      · subst hk; rw [setBuffer_same]; exact ⟨rfl, rfl, rfl⟩
      · rw [setBuffer_other hk]; exact ⟨rfl, rfl, rfl⟩
    refine ⟨h.noFault, h.perBuffer, h.some, h.lru, ?_, ?_, ?_, ?_⟩
    · intro k hk hv
      rw [(hfield k).2.1]
      exact h.aligned k hk ((hfield k).1 ▸ hv)
    · intro k hk hv
      rw [(hfield k).2.1, (hfield k).2.2]
      exact h.extent k hk ((hfield k).1 ▸ hv)
    · intro k hk hv hd j hj
      by_cases hkb : k = b
      · subst hkb
        rw [setBuffer_same] at hd
        exact absurd hd.symm Bool.false_ne_true
      · rw [setBuffer_other hkb] at hv hd hj ⊢
        exact h.clean k hk hv hd j hj
    · intro k hk k' hk' hv hv' he
      rw [(hfield k).2.1, (hfield k').2.1] at he
      exact h.unique k hk k' hk' ((hfield k).1 ▸ hv) ((hfield k').1 ▸ hv') he
  have hlog : (c.setBuffer b x).logical = Function.update c.logical s (g (c.logical s)) := by
    funext t
    by_cases hct : ∃ k < c.numBuffers, (c.buffers k).Covers t
    · obtain ⟨k, hk, hct⟩ := hct
      rw [hok.logical_covered hk ((hcov k t).mpr hct)]
      by_cases hkb : k = b
      · subst hkb
        rw [setBuffer_same]
        by_cases hts : t = s
        · subst hts
          simp [x, h.logical_covered hk hct]
        · rw [Function.update_of_ne hts, h.logical_covered hk hct]
          have hne : t - (c.buffers k).sector ≠ s - (c.buffers k).sector := by
            have := hct.2
            have := hc.2
            omega
          simp [x, hne]
      · have hts : t ≠ s := fun he => hkb (h.covers_unique hk hb (he ▸ hct) hc)
        rw [setBuffer_other hkb, Function.update_of_ne hts, h.logical_covered hk hct]
    · have hts : t ≠ s := fun he => hct ⟨b, hb, he ▸ hc⟩
      rw [Function.update_of_ne hts, Ok.logical_uncovered (c := c) (fun k hk hck => hct ⟨k, hk, hck⟩),
        Ok.logical_uncovered (c := c.setBuffer b x) (fun k hk hck => hct ⟨k, hk, (hcov k t).mp hck⟩)]
      rfl
  have hrun : (do pokeSector b (s - (c.buffers b).sector) g; fatDirtybuf b writeThrough).run c =
      (if writeThrough then flushBuffer b else pure ()).run (c.setBuffer b x) := by
    simp [pokeSector, fatDirtybuf, hc.1, setBuffer_setBuffer, x]
  cases writeThrough with
  | false => exact ⟨_, hrun, hok, hlog, ⟨rfl, rfl, rfl, rfl⟩, rfl, hcov⟩
  | true =>
    have hb' : b < (c.setBuffer b x).numBuffers := hb
    refine ⟨_, hrun.trans (hok.flushBuffer_eq hb'), hok.flushed hb', ?_, ?_, flushed_lru b _, ?_⟩
    · exact (flushed_logical hb').trans hlog
    · have hs := flushed_shape b (c.setBuffer b x)
      exact ⟨hs.1, hs.2, hs.3, hs.4⟩
    · intro k t
      rw [flushed_covers, hcov]

def Clean (c : Cache α) (b : ℕ) : Prop := (c.buffers b).valid = true → (c.buffers b).dirty = false

theorem flushed_keeps_clean {k : ℕ} (h : c.Clean k) : (c.flushed b).Clean k := by
  intro hv
  rw [flushed_buffers] at hv ⊢
  simp [h hv]

theorem Ok.flushBuffers_ok (n : ℕ) {k : ℕ} (h : c.Ok) (hk : k + n ≤ c.numBuffers) :
    ∃ d, (flushBuffers k n).run c = (.ok (), d) ∧ d.Ok ∧ d.logical = c.logical ∧ SameShape c d ∧
      d.buffersLru = c.buffersLru ∧ (∀ b, c.Clean b ∨ (k ≤ b ∧ b < k + n) → d.Clean b) ∧
      ∀ b t, (d.buffers b).Covers t ↔ (c.buffers b).Covers t := by
  induction n generalizing c k with
  | zero =>
    refine ⟨c, rfl, h, rfl, .refl c, rfl, ?_, fun _ _ => Iff.rfl⟩
    rintro b (hb | hb)
    · exact hb
    · omega
  | succ n ih =>
    have hk' : k < c.numBuffers := by omega
    have hs := flushed_shape k c
    obtain ⟨d, hrun, hd, hl, hsh, hlru, hclean, hcov⟩ :=
      ih (h.flushed hk') (k := k + 1) (by rw [hs.num]; omega)
    refine ⟨d, ?_, hd, hl.trans (flushed_logical hk'), hs.trans hsh, hlru.trans (flushed_lru k c), ?_, ?_⟩
    · unfold flushBuffers
      rw [Prog.run_bind_ok (h.flushBuffer_eq hk'), hrun]
    · rintro b (hb | ⟨h1, h2⟩)
      · exact hclean b (Or.inl (flushed_keeps_clean hb))
      · by_cases hbk : b = k
        · subst hbk
          exact hclean b (Or.inl (flushed_clean b c))
        · exact hclean b (Or.inr ⟨by omega, by omega⟩)
    · intro b t
      rw [hcov, flushed_covers]

/-- Once every buffer is clean the device holds what readers see. -/
theorem Ok.device_eq_logical (h : c.Ok) (hc : ∀ b < c.numBuffers, c.Clean b) : c.device = c.logical := by
  funext s
  cases hf : c.findBuffer s with
  | none => rw [Ok.logical_uncovered (findBuffer_none.mp hf)]
  | some b =>
    obtain ⟨hb, hcov⟩ := findBuffer_lt hf
    rw [h.logical_covered hb hcov, h.clean b hb hcov.1 (hc b hb hcov.1) _ (by have := hcov.2; omega)]
    congr 1
    have := hcov.2
    omega

end FreeDos32.Fat.Cache
