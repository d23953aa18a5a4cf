import FreeDos32.Leanfs.Words
import FreeDos32.Library.Loops

namespace FreeDos32.Leanfs

open Prog

variable {v w : Volume} {p : BufPtr} {b c d k : ℕ}

/-- The order of last use has each buffer once. -/
def BuffersOk (v : Volume) : Prop := v.lru.Perm (List.range numBuffers)

/-- The cluster is in a buffer. -/
def Volume.Buffered (v : Volume) (c : ℕ) : Prop := ∃ b < numBuffers, v.held b = some c

instance (v : Volume) (c : ℕ) : Decidable (v.Buffered c) := Nat.decidableExistsLT _

/-- The pointer is not to anything else than a buffer. -/
def BufPtr.Valid : BufPtr → Prop
  | .buf b => b < numBuffers
  | _ => True

/-- The volume after a cluster has been read into the least recently used buffer, unless it is in one. -/
def Volume.touch (c : ℕ) (v : Volume) : Volume := v.useBuffer ((v.bufferFor c .null).getD 0) c

/-- What `leanfs_readbuf` may say of the buffer that it uses. -/
structure Chosen (v : Volume) (c : ℕ) (p : BufPtr) (b : ℕ) : Prop where
  lt : b < numBuffers
  eq : v.bufferFor c p = some b
  hit_or_given : v.held b = some c ∨ ¬v.Buffered c ∧ v.given p = some b

theorem BuffersOk.mem_lru (h : BuffersOk v) : b ∈ v.lru ↔ b < numBuffers := by
  rw [h.mem_iff, List.mem_range]

theorem BuffersOk.length_lru (h : BuffersOk v) : v.lru.length = numBuffers := by
  rw [h.length_eq, List.length_range]

theorem BuffersOk.nodup (h : BuffersOk v) : v.lru.Nodup := h.nodup_iff.mpr List.nodup_range

theorem BuffersOk.useBuffer (h : BuffersOk v) (hb : b < numBuffers) (c : ℕ) : BuffersOk (v.useBuffer b c) :=
  (Lru.perm_use (h.mem_lru.mpr hb)).trans h

theorem searchForBuffer_some (h : v.searchForBuffer c = some b) : b < numBuffers ∧ v.held b = some c := by
  refine ⟨List.mem_range.mp (List.mem_of_find?_eq_some h), ?_⟩
  have := List.find?_some h
  simpa using this

theorem searchForBuffer_none (h : v.searchForBuffer c = none) : ¬v.Buffered c := by
  rintro ⟨b, hb, he⟩
  have := List.find?_eq_none.mp h b (List.mem_range.mpr hb)
  simp [he] at this

theorem Volume.Buffered.search (h : v.Buffered c) : ∃ b, v.searchForBuffer c = some b := by
  cases hs : v.searchForBuffer c with
  | none => exact absurd h (searchForBuffer_none hs)
  | some b => exact ⟨b, rfl⟩

theorem given_lt (h : BuffersOk v) (hp : p.Valid) (hb : v.given p = some b) : b < numBuffers := by
  cases p with
  | null => exact h.mem_lru.mp (List.mem_of_getLast? hb)
  | buf k => exact Option.some.inj hb ▸ hp
  | unset => cases hb

theorem exists_chosen (h : BuffersOk v) (hp : p.Valid) (hset : p ≠ .unset ∨ v.Buffered c) :
    ∃ b, Chosen v c p b := by
  cases hs : v.searchForBuffer c with
  | some b =>
    obtain ⟨hlt, hheld⟩ := searchForBuffer_some hs
    exact ⟨b, hlt, by rw [Volume.bufferFor, hs, Option.some_or], .inl hheld⟩
  | none =>
    have hno := searchForBuffer_none hs
    have hg : ∃ b, v.given p = some b := by
      cases p with
      | null =>
        have hpos : v.lru ≠ [] := fun h0 => by
          have := h.length_lru
          rw [h0] at this
          cases this
        exact ⟨_, List.getLast?_eq_some_getLast hpos⟩
      | buf k => exact ⟨k, rfl⟩
      | unset => exact absurd (hset.resolve_left fun hne => hne rfl) hno
    obtain ⟨b, hb⟩ := hg
    exact ⟨b, given_lt h hp hb, by rw [Volume.bufferFor, hs, hb, Option.none_or], .inr ⟨hno, hb⟩⟩

theorem readbuf_run (h : BuffersOk v) (hp : p.Valid) (hset : p ≠ .unset ∨ v.Buffered c) (hc : c < v.deviceEnd) :
    ∃ b, (leanfsReadbuf c p).run v = (.ok b, v.useBuffer b c) ∧ Chosen v c p b := by
  obtain ⟨b, hch⟩ := exists_chosen h hp hset
  refine ⟨b, ?_, hch⟩
  rw [leanfsReadbuf, run_bind_state, hch.eq]
  dsimp only
  rw [if_pos (Or.inr hc)]
  rfl

theorem readbuf_hang (h : ¬v.Buffered c) : (leanfsReadbuf c .unset).run v = (.hang, v) := by
  rw [leanfsReadbuf, run_bind_state]
  have hno : v.bufferFor c .unset = none := by
    unfold Volume.bufferFor
    cases hs : v.searchForBuffer c with
    | none => rfl
    | some b => exact absurd ⟨b, searchForBuffer_some hs⟩ h
  rw [hno]
  rfl

theorem poke_run (h : v.held b = some c) (g : (ℕ → UInt8) → ℕ → UInt8) :
    (poke b g).run v = (.ok (), v.setCluster c g) := by
  rw [poke, run_bind_state, h]
  rfl

@[simp] theorem useBuffer_held_self (v : Volume) (b c : ℕ) : (v.useBuffer b c).held b = some c :=
  Function.update_self ..

@[simp] theorem useBuffer_data (v : Volume) (b c : ℕ) : (v.useBuffer b c).data b = v.clusters c := by
  simp [Volume.data, Volume.useBuffer]

theorem within_useBuffer (v : Volume) (b c : ℕ) : Lru.Within 1 b (v.useBuffer b c).lru := Lru.within_use ..

/-- A buffer that is not given up keeps its cluster. -/
theorem Chosen.keeps (h : Chosen v c p b) (hk : v.held k = some d) (hne : v.given p ≠ some k) :
    (v.useBuffer b c).held k = some d := by
  by_cases hkb : k = b
  · subst hkb
    rw [useBuffer_held_self]
    rw [h.hit_or_given.resolve_right fun hg => hne hg.2] at hk
    exact hk
  · exact (Function.update_of_ne hkb ..).trans hk

theorem Chosen.buffered (h : Chosen v c p b) (hd : v.Buffered d) (hne : ∀ k, v.given p = some k → v.held k ≠ some d) :
    (v.useBuffer b c).Buffered d := by
  obtain ⟨k, hk, he⟩ := hd
  exact ⟨k, hk, h.keeps he fun hg => hne k hg he⟩

theorem buffered_of_useBuffer (h : (v.useBuffer b c).Buffered d) (hne : d ≠ c) : v.Buffered d := by
  obtain ⟨k, hk, he⟩ := h
  refine ⟨k, hk, ?_⟩
  by_cases hkb : k = b
  · subst hkb
    rw [useBuffer_held_self] at he
    exact absurd (Option.some.inj he).symm hne
  · exact (Function.update_of_ne hkb ..).symm.trans he

/-- What has been used a few buffers ago is not the least recently used one. -/
theorem given_null_ne {n : ℕ} (h : BuffersOk v) (hk : Lru.Within n k v.lru) (hn : n < numBuffers) :
    v.given .null ≠ some k := hk.ne_last h.nodup (by rwa [h.length_lru])

theorem Chosen.touch (h : Chosen v c .null b) : v.touch c = v.useBuffer b c := by
  rw [Volume.touch, h.eq, Option.getD_some]

theorem BuffersOk.touch (h : BuffersOk v) (c : ℕ) : BuffersOk (v.touch c) := by
  obtain ⟨b, hch⟩ := exists_chosen (c := c) h (p := .null) trivial (.inl nofun)
  rw [hch.touch]
  exact h.useBuffer hch.lt c

/-- What has been used a few buffers ago stays where it is. -/
theorem touch_keeps {n : ℕ} (h : BuffersOk v) (hk : v.held k = some d) (hw : Lru.Within n k v.lru)
    (hn : n < numBuffers) (c : ℕ) : (v.touch c).held k = some d ∧ Lru.Within (n + 1) k (v.touch c).lru := by
  obtain ⟨b, hch⟩ := exists_chosen (c := c) h (p := .null) trivial (.inl nofun)
  rw [hch.touch]
  exact ⟨hch.keeps hk (given_null_ne h hw hn), hw.use b⟩

/-- The buffers of two volumes have the same clusters and have been used in the same order. -/
def SameBuffers (v w : Volume) : Prop := w.lru = v.lru ∧ w.held = v.held

theorem SameBuffers.touch (h : SameBuffers v w) (c : ℕ) : SameBuffers (v.touch c) (w.touch c) := by
  have heq : w.bufferFor c .null = v.bufferFor c .null := by
    simp only [Volume.bufferFor, Volume.searchForBuffer, Volume.given, h.1, h.2]
  constructor
  · simp only [Volume.touch, Volume.useBuffer, heq, h.1]
  · simp only [Volume.touch, Volume.useBuffer, heq, h.2]

theorem SameBuffers.buffered (h : SameBuffers v w) : w.Buffered c ↔ v.Buffered c := by
  simp only [Volume.Buffered, h.2]

/-- Nothing differs but the use of the buffers. -/
def Reread (v w : Volume) : Prop := ∃ lru held, w = { v with lru := lru, held := held }

theorem Reread.trans {u : Volume} (h : Reread v w) (h' : Reread w u) : Reread v u := by
  obtain ⟨l, t, rfl⟩ := h
  obtain ⟨l', t', rfl⟩ := h'
  exact ⟨l', t', rfl⟩

theorem Reread.useBuffer (v : Volume) (b c : ℕ) : Reread v (v.useBuffer b c) := ⟨_, _, rfl⟩

/-- A cluster that is in a buffer is found there. -/
theorem touch_held (h : v.Buffered c) : (v.touch c).held = v.held := by
  obtain ⟨b, hb⟩ := h.search
  have hfor : v.bufferFor c .null = some b := by rw [Volume.bufferFor, hb, Option.some_or]
  rw [Volume.touch, hfor]
  exact Function.update_eq_self_iff.mpr (searchForBuffer_some hb).2.symm

end FreeDos32.Leanfs
