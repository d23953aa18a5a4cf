import FreeDos32.Fat.Contents

namespace FreeDos32.Fat

open Prog

variable {G : Layout} {u v w : Volume} {m : ℕ → UInt8} {c p pos s o : ℕ} {bytes : List UInt8}

theorem storeBytes_run (hm : MediaOk v) (hs : s < v.cache.deviceEnd) (hint : Option ℕ)
    (hhint : ∀ k, hint = some k → k < v.cache.numBuffers) (o : ℕ) (bytes : List UInt8) (ho : o < v.geo.bytesPerSector)
    (hlen : o + bytes.length ≤ v.geo.bytesPerSector) (writeThrough : Bool) :
    ∃ r x y w, (fatReadbuf s hint).run v = (.ok r, x) ∧ (bufWrite r.1 (r.2 + o) bytes).run x = (.ok (), y) ∧
      (fatDirtybuf r.1 writeThrough).run y = (.ok (), w) ∧
      Recached (overlay (s * v.geo.bytesPerSector + o) bytes v.byte) v w ∧ r.1 < v.cache.numBuffers := by
  obtain ⟨r, x, hrun, hx, hseat, -, -⟩ := fatReadbuf_run hm hs hint hhint
  have hg := hx.geo
  rw [← hg] at ho hlen
  obtain ⟨a, d, hwrite, hdirty, hd, -⟩ := bufWrite_dirty hseat hx.media ho bytes hlen writeThrough
  have htrans := hx.trans hd
  rw [hx.byte, hg] at htrans
  refine ⟨r, x, x.setCache a, x.setCache d, hrun, hwrite, hdirty (x.setCache a) rfl, htrans, ?_⟩
  rw [← hx.shape.num]
  exact hseat.lt

structure Patched (G : Layout) (u : Volume) (m : ℕ → UInt8) (w : Volume) : Prop where
  sound : Sound w
  books : books w = books u
  byte : w.byte = m
  cursors : Cursors G w

namespace Patched

theorem tidy {G' : Layout} (h : Patched G u m w) (ho : Orderly G' (Fat.books u) m) (hg : G'.goneFiles = G.goneFiles)
    (hch : ∀ k ∈ w.channelsOpen, (w.channels k).f ∉ G.goneFiles → G'.chain ((Fat.books u).fileAddr (w.channels k).f) =
      G.chain ((Fat.books u).fileAddr (w.channels k).f)) : Tidy G' w := by
  refine ⟨h.sound, by rw [h.books, h.byte]; exact ho, fun k hk hkg => ?_⟩
  rw [hg] at hkg
  have hcur := h.cursors k hk hkg
  rw [CursorOk, h.books] at hcur ⊢
  rw [hch k hk hkg]
  exact hcur

theorem of_still (h : Still G u v) (hw : Recached m v w) : Patched G u m w :=
  ⟨hw.sound h.sound, hw.books.trans h.books, hw.byte, hw.cursors h.cursors⟩

end Patched

theorem Usable.of_books {G' : Layout} (h : Usable G u c) (hb : books w = books u) (hg : G'.goneFiles = G.goneFiles := by rfl) :
    Usable G' w c := by
  have hf : (w.channels c).f = (u.channels c).f := congrArg ChannelInfo.f (congrFun (congrArg Books.channel hb) c)
  have hopen : w.channelsOpen = u.channelsOpen := congrArg Books.channelsOpen hb
  have hfiles : w.filesOpen = u.filesOpen := congrArg Books.filesOpen hb
  refine ⟨hopen ▸ h.channel, ?_, ?_⟩
  · rw [hf, hfiles]
    exact h.file
  · rw [hf, hg]
    exact h.there

theorem writeSlice_self (bytes : List UInt8) : writeSlice (some bytes) 0 bytes.length = bytes := by
  apply List.ext_getElem?
  intro i
  simp only [writeSlice, List.getElem?_map, Nat.zero_add]
  by_cases hi : i < bytes.length
  · simp [hi]
  · simp [hi]

theorem length_writeSlice (buffer : Option (List UInt8)) (k n : ℕ) : (writeSlice buffer k n).length = n := by
  cases buffer <;> simp [writeSlice]

/-- The bytes of a directory are not counted in its entry. -/
theorem run_growFile (hd : hasAttr (v.files (v.channels c).f).de.attr fatADir = true) (n : ℕ) :
    (Prog.update fun v : Volume =>
      if hasAttr (v.files (v.channels c).f).de.attr fatADir = false ∧ n ≥ (v.files (v.channels c).f).de.fileSize
      then v.setFile (v.channels c).f fun f => { f with de := f.de.setFileSize n }
      else v : FatM Unit).run v = (.ok (), v) := by
  rw [run_update, if_neg (by simp [hd])]

section Directory

variable (ho : Orderly G (books u) u.byte) (hc : Usable G u c)
  (hdir : hasAttr (u.files (u.channels c).f).de.attr fatADir = true)

include hdir in
theorem Still.isDir (h : Still G u v) : hasAttr (v.files (v.channels c).f).de.attr fatADir = true := by
  rw [h.channelFile, show (v.files (u.channels c).f).de = _ from congrArg FileInfo.de (h.file _)]
  exact hdir

include ho hc hdir in
theorem doWriteLoop_round (hv : Still G u v) (hat : G.at u.geo (u.home c) pos = some p) (hlen : 0 < bytes.length)
    (hfit : pos % u.geo.bytesPerSector + bytes.length ≤ u.geo.bytesPerSector) :
    ∃ w hint, Patched G u (overlay p bytes u.byte) w ∧ ∀ fuel,
      (doWriteLoop c (some bytes) bytes.length (fuel + 1) 0 pos none).run v =
        (doWriteLoop c (some bytes) bytes.length fuel (0 + bytes.length) (pos + bytes.length) hint).run w := by
  have hmod := Nat.mod_lt pos (bytesPerSector_pos u.geo)
  have hdm : pos / u.geo.bytesPerSector * u.geo.bytesPerSector + pos % u.geo.bytesPerSector = pos := by
    rw [Nat.mul_comm]
    exact Nat.div_add_mod _ _
  have hget := fatGetFileSector_still ho hc (pos / u.geo.bytesPerSector) v hv
  obtain ⟨r, x, hrun, -⟩ := fatGetFileSector_run hv.sound (hc.onChain ho hv) (pos / u.geo.bytesPerSector)
  rw [hrun] at hget
  obtain ⟨hx, hfound⟩ := hget
  cases r with
  | none =>
    have hnone := hfound.1 _ hmod
    rw [hdm, hat] at hnone
    cases hnone
  | some s =>
    have hs := hfound.1 _ hmod
    rw [hdm, hat] at hs
    have hp : p = s * u.geo.bytesPerSector + pos % u.geo.bytesPerSector := Option.some.inj hs
    have hcount : (if 0 + (u.geo.bytesPerSector - pos % u.geo.bytesPerSector) > bytes.length then bytes.length - 0
        else u.geo.bytesPerSector - pos % u.geo.bytesPerSector) = bytes.length := by
      split <;> omega
    have hgrow := run_growFile (hx.isDir hdir) (pos + bytes.length)
    have hgx := hx.geo
    obtain ⟨r, y, z, t, h1, h2, h3, ht, -⟩ := storeBytes_run hx.sound.media (hfound.lt ho hc hx) none
      (by simp) (pos % u.geo.bytesPerSector) bytes (by rw [hgx]; exact hmod) (by rw [hgx]; exact hfit)
      (hasFlag (v.channels c).flags oFsync)
    refine ⟨t, some r.1, ?_, fun fuel => ?_⟩
    · rw [hx.byte, hgx, ← hp] at ht
      exact .of_still hx ht
    · rw [doWriteLoop, if_neg (by omega), run_bind_state, hv.geo, run_bind_ok hrun]
      dsimp only
      rw [hcount, writeSlice_self, run_bind_ok hgrow, run_bind_ok h1, run_bind_ok h2, run_bind_ok h3]

include ho hc hdir in
theorem doWriteLoop_slot (hat : G.at u.geo (u.home c) pos = some p) (hlen : 0 < bytes.length)
    (hfit : pos % u.geo.bytesPerSector + bytes.length ≤ u.geo.bytesPerSector) (fuel : ℕ) :
    Triple (Still G u) (doWriteLoop c (some bytes) bytes.length fuel 0 pos none)
      (fun r w => r = bytes.length ∧ Patched G u (overlay p bytes u.byte) w) (fun _ _ => False) := by
  intro v hv
  obtain ⟨w, hint, hw, hround⟩ := doWriteLoop_round ho hc hdir hv hat hlen hfit
  cases fuel with
  | zero => trivial
  | succ fuel =>
    rw [hround]
    cases fuel with
    | zero => trivial
    | succ fuel =>
      rw [doWriteLoop, if_pos (by omega), run_pure]
      exact ⟨by omega, hw⟩

include ho hc hdir in
theorem fatDoWrite_slot (hat : G.at u.geo (u.home c) pos = some p) (hpos : 32 ∣ pos) (h0 : 0 < bytes.length)
    (hlen : bytes.length ≤ 32) (hflag : hasFlag (u.channels c).flags oSync = false) :
    Triple (Still G u) (fatDoWrite c (some bytes) bytes.length pos)
      (fun r w => r = bytes.length ∧ Patched G u (overlay p bytes u.byte) w) (fun _ _ => False) := by
  refine .bind_state fun v hv => ?_
  have hd := hv.isDir hdir
  have hfl : hasFlag (v.channels c).flags oSync = false := by
    rw [show (v.channels c).flags = _ from congrArg ChannelInfo.flags (hv.channel c)]
    exact hflag
  have hdir' : IsDir u.byte (u.home c) := (hc.fileOk ho).dir.mp hdir
  have hsize : pos < 65535 * 32 := ho.entries.size _ (hc.owner ho) hdir' pos p hat
  have hend : pos + bytes.length ≤ 65535 * 32 := by omega
  have hg : GeoOk u.geo v.cache.deviceEnd := hv.geo ▸ hv.sound.geo
  have hfit := hg.slot_fits hpos
  refine .ite (fun h => absurd h (by omega)) fun _ => .ite (fun h => absurd h.2 (by omega)) fun _ =>
    .ite (fun h => absurd h.1 (by rw [hd]; decide)) fun _ => ?_
  refine .bind ((doWriteLoop_slot ho hc hdir hat h0 (by omega) _).conseq (fun _ h => h.2) (fun _ _ h => h)
    fun _ _ h => h.elim) fun r => ?_
  rw [when_neg (by rw [hd]; decide), when_neg (by rw [hfl]; decide)]
  exact .pure fun _ h => h

include ho hc hdir in
theorem writeAll_slot (hat : G.at u.geo (u.home c) pos = some p) (hpos : 32 ∣ pos) (h0 : 0 < bytes.length)
    (hlen : bytes.length ≤ 32) (hflag : hasFlag (u.channels c).flags oSync = false) :
    Triple (Still G u) (writeAll c (some bytes) bytes.length pos)
      (fun _ => Patched G u (overlay p bytes u.byte)) (fun _ _ => False) := by
  refine .bind (fatDoWrite_slot ho hc hdir hat hpos h0 hlen hflag) fun r => ?_
  rintro w ⟨rfl, hw⟩
  rw [if_neg (by simp)]
  exact hw

include ho hc hdir in
theorem writeAll_slot_run (hv : Still G u v) (hat : G.at u.geo (u.home c) pos = some p) (hpos : 32 ∣ pos)
    (h0 : 0 < bytes.length) (hlen : bytes.length ≤ 32) (hflag : hasFlag (u.channels c).flags oSync = false)
    (hloop : 2 ≤ u.geo.loopBound) : ∃ w, (writeAll c (some bytes) bytes.length pos).run v = (.ok (), w) ∧
      Patched G u (overlay p bytes u.byte) w := by
  have hd := hv.isDir hdir
  have hfl : hasFlag (v.channels c).flags oSync = false := by
    rw [show (v.channels c).flags = _ from congrArg ChannelInfo.flags (hv.channel c)]
    exact hflag
  have hdir' : IsDir u.byte (u.home c) := (hc.fileOk ho).dir.mp hdir
  have hsize : pos < 65535 * 32 := ho.entries.size _ (hc.owner ho) hdir' pos p hat
  have hend : ¬pos + bytes.length > 65535 * 32 := by omega
  have hg : GeoOk u.geo v.cache.deviceEnd := hv.geo ▸ hv.sound.geo
  have hfit := hg.slot_fits hpos
  obtain ⟨w, hint, hw, hround⟩ := doWriteLoop_round ho hc hdir hv hat h0 (by omega)
  have hloop' : (doWriteLoop c (some bytes) bytes.length v.geo.loopBound 0 pos none).run v = (.ok (0 + bytes.length), w) := by
    obtain ⟨fuel, hfuel⟩ : ∃ fuel, v.geo.loopBound = fuel + 1 + 1 :=
      ⟨v.geo.loopBound - 2, by rw [hv.geo]; omega⟩
    rw [hfuel, hround, doWriteLoop, if_pos (Nat.le_add_left _ _), run_pure]
  have hwrite : (fatDoWrite c (some bytes) bytes.length pos).run v = (.ok (0 + bytes.length), w) := by
    rw [fatDoWrite, run_bind_state, if_neg (Nat.ne_of_gt h0), if_neg fun h => hend h.2, if_neg, run_bind_ok hloop',
      when_neg, when_neg]
    · rfl
    · rw [hfl]
      decide
    · rw [hd]
      decide
    · rw [hd]
      exact fun h => Bool.noConfusion h.1
  refine ⟨w, ?_, hw⟩
  rw [writeAll, run_bind_ok hwrite, if_neg (by simp)]
  rfl

end Directory

section Fill

variable {hint : Option ℕ} {k size offset lo hi : ℕ}

/-- The slots of a part of a directory that nothing refers to, where they look live. -/
def Vacant (G : Layout) (g : Geometry) (a lo hi : ℕ) : Prop :=
  ∀ pos p, 32 ∣ pos → lo ≤ pos → pos < hi → G.at g a pos = some p → p ∉ G.owners ∧ p ∈ G.loose

/-- The part of a file from `lo` to `hi` is there and holds zeroes, and the bytes elsewhere are those of `m`. -/
structure Zeroed (G : Layout) (g : Geometry) (a lo hi : ℕ) (m m' : ℕ → UInt8) : Prop where
  zero : ∀ pos p, lo ≤ pos → pos < hi → G.at g a pos = some p → m' p = 0
  other : ∀ p, (∀ pos, lo ≤ pos → pos < hi → G.at g a pos ≠ some p) → m' p = m p

theorem Zeroed.append {g : Geometry} {a mid : ℕ} {m m' m'' : ℕ → UInt8} (h : Zeroed G g a lo mid m m')
    (h' : Zeroed G g a mid hi m' m'') (hlo : lo ≤ mid) (hhi : mid ≤ hi) : Zeroed G g a lo hi m m'' where
  zero pos p h1 h2 hat := by
    by_cases hp : ∃ pos', mid ≤ pos' ∧ pos' < hi ∧ G.at g a pos' = some p
    · obtain ⟨pos', h3, h4, hat'⟩ := hp
      exact h'.zero pos' p h3 h4 hat'
    · rw [h'.other p fun pos' h3 h4 hat' => hp ⟨pos', h3, h4, hat'⟩]
      apply h.zero pos p h1 ?_ hat
      by_contra hge
      exact hp ⟨pos, Nat.le_of_not_lt hge, h2, hat⟩
  other p hp := by
    rw [h'.other p fun pos h1 h2 => hp pos (by omega) h2]
    exact h.other p fun pos h1 h2 => hp pos h1 (by omega)

theorem Tidy.zeroSector (h : Tidy G v) {a i n : ℕ} (ha : a ∈ G.owners)
    (hsec : ∀ j < v.geo.bytesPerSector, G.at v.geo a (i * v.geo.bytesPerSector + j) = some (s * v.geo.bytesPerSector + j))
    (hn : o + n ≤ v.geo.bytesPerSector)
    (hvac : Vacant G v.geo a lo hi) (hlo : lo % 32 = 0) (hlo' : lo ≤ i * v.geo.bytesPerSector + o)
    (hhi : i * v.geo.bytesPerSector + o + n ≤ hi)
    (hw : Recached (overlay (s * v.geo.bytesPerSector + o) (List.replicate n 0) v.byte) v w) :
    Tidy G w ∧ Zeroed G v.geo a (i * v.geo.bytesPerSector + o) (i * v.geo.bytesPerSector + o + n) v.byte w.byte := by
  have hg := h.sound.geo
  have hother : ∀ x, (∀ pos, i * v.geo.bytesPerSector + o ≤ pos → pos < i * v.geo.bytesPerSector + o + n →
      G.at v.geo a pos ≠ some x) → overlay (s * v.geo.bytesPerSector + o) (List.replicate n 0) v.byte x = v.byte x := by
    intro x hx
    by_cases hin : s * v.geo.bytesPerSector + o ≤ x ∧ x < s * v.geo.bytesPerSector + o + n
    · have hj := hsec (x - s * v.geo.bytesPerSector) (by omega)
      rw [Nat.add_sub_cancel' (by omega)] at hj
      exact absurd hj (hx _ (by omega) (by omega))
    · rw [overlay, List.length_replicate, if_neg hin]
  refine ⟨h.recached hw ?_ ?_, ?_⟩
  · -- a slot that changes begins in the part, since the part begins with a slot
    intro a' ha' hd' pos q hpos hat
    by_cases hsame : ∀ j < 32, overlay (s * v.geo.bytesPerSector + o) (List.replicate n 0) v.byte (q + j) = v.byte (q + j)
    · exact .inl hsame
    · right
      obtain ⟨j, hj, hne⟩ : ∃ j < 32, overlay (s * v.geo.bytesPerSector + o) (List.replicate n 0) v.byte (q + j) ≠
          v.byte (q + j) := by
        simpa using hsame
      obtain ⟨pos', h1, h2, hat'⟩ : ∃ pos', i * v.geo.bytesPerSector + o ≤ pos' ∧
          pos' < i * v.geo.bytesPerSector + o + n ∧ G.at v.geo a pos' = some (q + j) := by
        by_contra hno
        exact hne (hother _ fun pos' h1 h2 h3 => hno ⟨pos', h1, h2, h3⟩)
      have hslot := hg.posAddr_slot hat hpos hj
      obtain ⟨rfl, rfl⟩ := Chains.posAddr_unique hg h.order.chains ha' ha hslot hat'
      obtain ⟨hno, hloose⟩ := hvac pos q hpos (by omega) (by omega) hat
      exact ⟨hno, fun _ => hloose⟩
  · intro x hx
    apply hother
    intro pos _ _ hat
    have := hg.posAddr_le hat
    omega
  · rw [hw.byte]
    constructor
    · intro pos q h1 h2 hat
      have hq := hsec (pos - i * v.geo.bytesPerSector) (by omega)
      rw [Nat.add_sub_cancel' (by omega), hat] at hq
      have hq' := Option.some.inj hq
      rw [overlay, List.length_replicate, if_pos (by omega)]
      rw [List.getD_eq_getElem?_getD, List.getElem?_replicate, if_pos (by omega)]
      rfl
    · exact hother

theorem doWriteLoop_zero (fuel : ℕ) (h : Tidy G v) (hc : Usable G v c)
    (hdir : hasAttr (v.files (v.channels c).f).de.attr fatADir = true) (hvac : Vacant G v.geo (v.home c) lo hi)
    (hlo : lo % 32 = 0) (hk : k ≤ size) (hoff : lo ≤ offset) (hend : offset + (size - k) ≤ hi)
    (hex : ∀ pos, offset ≤ pos → pos < offset + (size - k) → G.at v.geo (v.home c) pos ≠ none)
    (hhint : ∀ j, hint = some j → j < v.cache.numBuffers) :
    Triple (· = v) (doWriteLoop c none size fuel k offset hint)
      (fun r w => r = size ∧ Tidy G w ∧ books w = books v ∧
        Zeroed G v.geo (v.home c) offset (offset + (size - k)) v.byte w.byte) (fun _ _ => False) := by
  rintro v rfl
  induction fuel generalizing v k offset hint with
  | zero => trivial
  | succ fuel ih =>
    rw [doWriteLoop]
    by_cases hdone : k ≥ size
    · rw [if_pos hdone, run_pure]
      refine ⟨by omega, h, rfl, fun pos p h1 h2 => absurd h2 (by omega), fun p _ => rfl⟩
    · have hbps := bytesPerSector_pos v.geo
      have hmod := Nat.mod_lt offset hbps
      have hdm : offset / v.geo.bytesPerSector * v.geo.bytesPerSector + offset % v.geo.bytesPerSector = offset := by
        rw [Nat.mul_comm]
        exact Nat.div_add_mod _ _
      rw [if_neg hdone, run_bind_state]
      have hget := fatGetFileSector_still h.order hc (offset / v.geo.bytesPerSector) v (.refl h)
      rw [run_bind]
      rcases hrun : (fatGetFileSector c (offset / v.geo.bytesPerSector)).run v with ⟨r | _ | _, x⟩ <;> rw [hrun] at hget
      · obtain ⟨hx, hfound⟩ := hget
        cases r with
        | none =>
          have hnone := hfound.1 _ hmod
          rw [hdm] at hnone
          exact absurd hnone (hex offset (Nat.le_refl _) (by omega))
        | some s =>
          dsimp only
          set n := (if k + (v.geo.bytesPerSector - offset % v.geo.bytesPerSector) > size then size - k
            else v.geo.bytesPerSector - offset % v.geo.bytesPerSector) with hn
          have hn1 : 0 < n ∧ k + n ≤ size ∧ offset % v.geo.bytesPerSector + n ≤ v.geo.bytesPerSector := by
            rw [hn]
            split <;> omega
          have hgx := hx.geo
          have hhome := hx.home c
          have hgrow := run_growFile (hx.isDir hdir) (offset + n)
          have hnum : x.cache.numBuffers = v.cache.numBuffers := congrArg Books.numBuffers hx.books
          obtain ⟨r, y, z, t, h1, h2, h3, ht, hr⟩ := storeBytes_run hx.sound.media (hfound.lt h.order hc hx)
            hint (by rw [hnum]; exact hhint) (offset % v.geo.bytesPerSector) (writeSlice none k n) (by rw [hgx]; exact hmod)
            (by rw [hgx, length_writeSlice]; exact hn1.2.2) (hasFlag (v.channels c).flags oFsync)
          have hslice : writeSlice none k n = List.replicate n 0 := rfl
          rw [run_bind_ok hgrow, run_bind_ok h1, run_bind_ok h2, run_bind_ok h3]
          rw [hslice, ← hgx] at ht
          have hxt := hx.tidy h.order
          obtain ⟨htt, hz⟩ := hxt.zeroSector (hc.owner h.order) (i := offset / v.geo.bytesPerSector)
            (by rw [hgx]; exact hfound.1) (by rw [hgx]; exact hn1.2.2) (hgx.symm ▸ hvac) hlo
            (by rw [hgx, hdm]; exact hoff) (by rw [hgx, hdm]; omega) ht
          rw [hgx, hdm, hx.byte] at hz
          have hbt : books t = books v := ht.books.trans hx.books
          have hgt : t.geo = v.geo := congrArg Books.geo hbt
          have hct : (t.channels c).f = (v.channels c).f :=
            congrArg ChannelInfo.f (congrFun (congrArg Books.channel hbt) c)
          have hht : t.home c = v.home c := by rw [Volume.home, Volume.home, hbt, hct]
          have hut : Usable G t c := hc.of_books hbt
          have hdt : hasAttr (t.files (t.channels c).f).de.attr fatADir = true := by
            rw [hct, show (t.files (v.channels c).f).de = _ from
              congrArg FileInfo.de (congrFun (congrArg Books.file hbt) (v.channels c).f)]
            exact hdir
          have hroom : ∀ j, some r.1 = some j → j < t.cache.numBuffers := by
            intro j hj
            cases hj
            rw [ht.shape.num]
            exact hr
          have hih := ih hn1.2.1 (show lo ≤ offset + n by omega) (by omega) t htt hut hdt (by rw [hgt, hht]; exact hvac)
            (by rw [hgt, hht]; exact fun pos hp1 hp2 => hex pos (by omega) (by omega)) hroom
          rw [hgt, hht] at hih
          rcases hloop : (doWriteLoop c none size fuel (k + n) (offset + n) (some r.1)).run t with ⟨r' | _ | _, w⟩ <;>
            rw [hloop] at hih
          · obtain ⟨hr', htw, hbw, hzw⟩ := hih
            refine ⟨hr', htw, hbw.trans hbt, ?_⟩
            rw [show offset + n + (size - (k + n)) = offset + (size - k) by omega] at hzw
            exact hz.append hzw (by omega) (by omega)
          · exact hih
          · trivial
      · exact hget.elim
      · trivial

end Fill

end FreeDos32.Fat
