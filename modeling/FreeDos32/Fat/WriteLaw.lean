import FreeDos32.Fat.Writing

namespace FreeDos32.Fat

open Prog

variable {G G' G'' : Layout} {v w x : Volume} {c f k n pos offset : ℕ} {bytes bytes' old : List UInt8}

/-- A file's bytes with `bytes` stored at `pos`; from the end of the file up to there it is filled with zeroes. -/
def spliced (old : List UInt8) (pos : ℕ) (bytes : List UInt8) : List UInt8 :=
  (old ++ List.replicate (pos - old.length) 0).take pos ++ bytes ++ old.drop (pos + bytes.length)

theorem length_spliced (old : List UInt8) (pos : ℕ) (bytes : List UInt8) :
    (spliced old pos bytes).length = max old.length (pos + bytes.length) := by
  simp only [spliced, List.length_append, List.length_take, List.length_replicate, List.length_drop]
  omega

theorem spliced_inside (h : pos ≤ old.length) : spliced old pos bytes = old.take pos ++ bytes ++ old.drop (pos + bytes.length) := by
  rw [spliced, Nat.sub_eq_zero_of_le h, List.replicate_zero, List.append_nil]

theorem take_fileSlice (g : Geometry) (l : List ℕ) (m : ℕ → UInt8) (h : pos ≤ n) :
    (fileSlice g l m 0 n).take pos = fileSlice g l m 0 pos := by
  have := drop_take_fileSlice g l m n 0 pos
  rwa [List.drop_zero, Nat.sub_zero, Nat.min_eq_left h] at this

theorem drop_fileSlice (g : Geometry) (l : List ℕ) (m : ℕ → UInt8) (pos n : ℕ) :
    (fileSlice g l m 0 n).drop pos = fileSlice g l m pos (n - pos) := by
  have := drop_take_fileSlice g l m n pos (n - pos)
  rwa [Nat.min_self, List.take_of_length_le (by rw [List.length_drop, length_fileSlice])] at this

namespace Written

theorem keeps (h : Written G v c pos bytes G' w) (offset : ℕ) (hoff : offset < (G.chain (v.home c)).length * v.geo.bytesPerCluster)
    (hout : offset < pos ∨ pos + bytes.length ≤ offset) :
    (placeOf v.geo false (G'.chain (v.home c)) offset).elim 0 w.byte =
      (placeOf v.geo false (G.chain (v.home c)) offset).elim 0 v.byte := by
  obtain ⟨l, hG, -⟩ := h.chain
  have hchain : G'.chain (v.home c) = G.chain (v.home c) ++ l := by rw [hG, Layout.setChain_self]
  have hsame : placeOf v.geo false (G'.chain (v.home c)) offset = placeOf v.geo false (G.chain (v.home c)) offset := by
    rw [hchain]
    exact placeOf_append _ _ _ hoff
  rw [← hsame]
  cases hp : placeOf v.geo false (G'.chain (v.home c)) offset with
  | none => rfl
  | some p =>
    have hback : ∀ {q : ℕ}, placeOf v.geo false (G'.chain (v.home c)) q = some p →
        placeOf w.geo false (G'.chain (w.home c)) q = some p := by
      intro q hq
      rw [h.geo, h.home]
      exact hq
    have hle := h.writes.place_le (hback hp)
    rw [h.geo] at hle
    refine h.other p hle fun j hj hp' => ?_
    have := h.writes.place_inj (hback hp) (hback hp')
    omega

theorem contents (h : Written G v c pos bytes G' w) (hpos : pos ≤ (v.files (v.channels c).f).de.fileSize)
    (hfull : (v.files (v.channels c).f).de.fileSize ≤ (G.chain (v.home c)).length * v.geo.bytesPerCluster)
    (hsize : (w.files (v.channels c).f).de.fileSize = max (v.files (v.channels c).f).de.fileSize (pos + bytes.length)) :
    contents G' w (v.channels c).f = spliced (contents G v (v.channels c).f) pos bytes := by
  have hkeep := h.keeps
  have hdata := h.data
  have haddr : (Fat.books w).fileAddr (v.channels c).f = v.home c := h.fileAddr _
  rw [spliced_inside (by rw [length_contents]; exact hpos)]
  rw [Fat.contents, Fat.contents, h.geo, haddr, hsize]
  change _ = (fileSlice v.geo (G.chain (v.home c)) v.byte 0 _).take pos ++ bytes ++
    (fileSlice v.geo (G.chain (v.home c)) v.byte 0 _).drop (pos + bytes.length)
  generalize (v.files (v.channels c).f).de.fileSize = s at *
  have hsplit : max s (pos + bytes.length) = pos + bytes.length + (s - (pos + bytes.length)) := by omega
  rw [take_fileSlice _ _ _ hpos, drop_fileSlice, hsplit, ← fileSlice_append, ← fileSlice_append, Nat.zero_add, Nat.zero_add,
    hdata]
  congr 1
  · congr 1
    apply fileSlice_congr
    intro i hi
    rw [Nat.zero_add]
    exact hkeep i (by omega) (.inl hi)
  · apply fileSlice_congr
    intro i hi
    exact hkeep _ (by omega) (.inr (by omega))

theorem others (h : Written G v c pos bytes G' w) {a p : ℕ} (ha : a ∈ G.owners) (hne : a ≠ v.home c)
    (hat : G.at v.geo a offset = some p) : w.byte p = v.byte p := by
  obtain ⟨l, hG, -⟩ := h.chain
  have hchain : G'.chain a = G.chain a := by rw [hG, Layout.setChain_ne hne]
  have hown : a ∈ G'.owners := by
    rw [hG]
    exact ha
  have hat' : posAddr w.geo (G'.chain a) a offset = some p := by
    rw [hchain, h.geo]
    exact hat
  refine h.other p (h.geo ▸ h.writes.sound.geo.posAddr_le hat') fun j _ hp => ?_
  have hp' : posAddr w.geo (G'.chain (w.home c)) (w.home c) (pos + j) = some p := by
    rw [posAddr_eq, decide_eq_false h.writes.not_fixed, h.geo, h.home]
    exact hp
  have hsame := (Chains.posAddr_unique h.writes.sound.geo h.writes.tidy.order.chains hown h.writes.owner hat' hp').1
  rw [h.home] at hsame
  exact hne hsame

end Written

/-- The file of an open instance now holds the bytes `new`, and all others are as before. -/
structure Changed (G : Layout) (v : Volume) (c : ℕ) (new : List UInt8) (G' : Layout) (w : Volume) : Prop
    extends Grown G v c G' w where
  wellFormed : WellFormed G' w
  holds : contents G' w (v.channels c).f = new
  others : ∀ a ∈ G.owners, a ≠ v.home c → G'.chain a = G.chain a ∧
    ∀ offset p, G.at v.geo a offset = some p → w.byte p = v.byte p

theorem WellFormed.writes (h : WellFormed G v) (hc : Usable G v c) (hd : (v.files (v.channels c).f).de.isDir = false) :
    Writes G v c := .of_tidy h.toTidy hc hd (by rw [h.settled.stale]; exact Set.notMem_empty _)

namespace Changed

theorem size (h : Changed G v c bytes G' w) : (w.files (v.channels c).f).de.fileSize = bytes.length := by
  rw [← h.holds, length_contents]

theorem of_still (h : WellFormed G v) (hc : Usable G v c) (hd : (v.files (v.channels c).f).de.isDir = false)
    (hw : Still G v w) : Changed G v c (contents G v (v.channels c).f) G w where
  toGrown := .of_still (h.writes hc hd) hw
  wellFormed := by
    refine ⟨hw.tidy h.order, h.settled, fun f hf hfd => ?_⟩
    have hde : (w.files f).de = (v.files f).de := congrArg FileInfo.de (hw.file f)
    have hopen : w.filesOpen = v.filesOpen := congrArg Books.filesOpen hw.books
    rw [hde] at hfd ⊢
    rw [hw.books, hw.geo]
    exact h.full f (hopen ▸ hf) hfd
  holds := by
    have hde : (w.files (v.channels c).f).de = (v.files (v.channels c).f).de := congrArg FileInfo.de (hw.file _)
    rw [contents, contents, hw.geo, hw.books, hw.byte, hde]
  others _ _ _ := ⟨rfl, fun _ _ _ => congrFun hw.byte _⟩

theorem trans (h : Changed G v c bytes G' w) (h' : Changed G' w c bytes' G'' x) : Changed G v c bytes' G'' x where
  toGrown := h.toGrown.trans h'.toGrown
  wellFormed := h'.wellFormed
  holds := by
    rw [← h.channelFile]
    exact h'.holds
  others a ha hne := by
    obtain ⟨l, hG, -⟩ := h.chain
    have hown : a ∈ G'.owners := by
      rw [hG]
      exact ha
    obtain ⟨hchain, hbyte⟩ := h.others a ha hne
    obtain ⟨hchain', hbyte'⟩ := h'.others a hown (by rw [h.home]; exact hne)
    refine ⟨hchain'.trans hchain, fun offset p hat => (hbyte' offset p ?_).trans (hbyte offset p hat)⟩
    rw [h.geo, Layout.at, hchain]
    exact hat

theorem seek (h : Changed G v c bytes G' w) (pos : ℕ) :
    Changed G v c bytes G' (w.setChannel c fun x => { x with filePointer := pos }) := by
  have hchanged := of_still h.wellFormed h.writes.usable h.writes.regular
    ((Still.refl h.wellFormed.toTidy).seek c pos)
  rw [h.channelFile, h.holds] at hchanged
  exact h.trans hchanged

theorem contents_ne (h : Changed G v c bytes G' w) (hv : WellFormed G v) (hc : Usable G v c) (hf : f ∈ v.filesOpen)
    (hd : (v.files f).de.isDir = false) (hne : f ≠ (v.channels c).f) : contents G' w f = contents G v f := by
  have hthere : ∀ k, k ∉ G.goneFiles := fun k => by
    rw [hv.settled.goneFiles]
    exact Set.notMem_empty _
  have hfile := hv.order.files.file f hf (hthere f)
  have hown : (books v).fileAddr f ∈ G.owners := hfile.owner
  have hfix : ¬((books v).fileAddr f = 0 ∧ v.geo.rootCluster = 0) := by
    intro h0
    have hdir : (v.files f).de.isDir = true := hfile.dir.mpr (.inl h0.1)
    rw [hd] at hdir
    cases hdir
  have haddr : (books v).fileAddr f ≠ v.home c := fun he =>
    hne (hv.order.files.inj f hf _ hc.file (hthere f) (hthere _) he)
  obtain ⟨hchain, hbyte⟩ := h.others _ hown haddr
  have hde : (w.files f).de = (v.files f).de := congrArg FileInfo.de (h.file_ne hne)
  rw [contents, contents, h.geo, h.fileAddr, hde, hchain]
  apply fileSlice_congr
  intro i _
  cases hp : placeOf v.geo false (G.chain ((books v).fileAddr f)) (0 + i) with
  | none => rfl
  | some p =>
    refine hbyte (0 + i) p ?_
    rw [Layout.at, posAddr_eq, decide_eq_false hfix]
    exact hp

end Changed

theorem fatDoWrite_full (buffer : Option (List UInt8)) (h : Writes G v c) (hn : 0 < n)
    (hloop : 2 ^ 32 + v.geo.dataClusters ≤ v.geo.loopBound) (hfull : 0xFFFFFFFF < offset + n ∨ capacity G v c ≤ offset) :
    ∃ e w, (fatDoWrite c buffer n offset).run v = (.error e, w) := by
  by_cases hbig : 0xFFFFFFFF < offset + n
  · have hd : hasAttr (v.files (v.channels c).f).de.attr fatADir = false := h.regular
    refine ⟨.efbig, v, ?_⟩
    rw [fatDoWrite, run_bind_state]
    dsimp only
    rw [if_neg (by omega), if_neg (fun hc => by rw [hd] at hc; exact absurd hc.1 (by decide)), if_pos ⟨hd, hbig⟩]
    rfl
  · rcases fatDoWrite_file buffer h hn (Nat.le_of_not_lt hbig) hloop with ⟨-, w, hrun⟩ | ⟨hroom, -⟩
    · exact ⟨_, w, hrun⟩
    · exact absurd hroom (by omega)

/-- `fat_do_write` from a place in the file on, or from its end on. -/
theorem fatDoWrite_contents (buffer : Option (List UInt8)) (h : WellFormed G v) (hc : Usable G v c)
    (hd : (v.files (v.channels c).f).de.isDir = false) (hn : 0 < n) (hpos : pos ≤ (v.files (v.channels c).f).de.fileSize)
    (hfit : pos + n ≤ 0xFFFFFFFF) (hloop : 2 ^ 32 + v.geo.dataClusters ≤ v.geo.loopBound) (hroom : pos < capacity G v c) :
    ∃ G' w, (fatDoWrite c buffer n pos).run v = (.ok (min n (capacity G v c - pos)), w) ∧
      Changed G v c (spliced (contents G v (v.channels c).f) pos (writeSlice buffer 0 (min n (capacity G v c - pos)))) G' w := by
  rcases fatDoWrite_file buffer (h.writes hc hd) hn hfit hloop with ⟨hfull, -⟩ | ⟨-, k, G', w, rfl, hrun, htidy, hst, hsize⟩
  · exact absurd hroom (Nat.not_lt.mpr hfull)
  obtain ⟨l, hG, -⟩ := hst.chain
  have hthere : ∀ k, k ∉ G.goneFiles := fun k => by
    rw [h.settled.goneFiles]
    exact Set.notMem_empty _
  have hkeep : ∀ a, (G.chain a).length ≤ (G'.chain a).length := by
    intro a
    rw [hG]
    by_cases ha : a = v.home c
    · rw [ha, Layout.setChain_self, List.length_append]
      exact Nat.le_add_right _ _
    · rw [Layout.setChain_ne ha]
  refine ⟨G', w, hrun, hst.toGrown, ⟨htidy, ?_, fun f hf hfd => ?_⟩, ?_, fun a ha hne => ⟨?_, fun q p hat =>
    hst.others ha hne hat⟩⟩
  · rw [hG]
    exact ⟨h.settled.loose, h.settled.gone, h.settled.goneFiles, h.settled.goneNodes, h.settled.stale⟩
  · have hopen : w.filesOpen = v.filesOpen := by
      obtain ⟨y, hb, -⟩ := hst.books
      exact congrArg Books.filesOpen hb
    rw [hst.fileAddr, hst.geo]
    by_cases hff : f = (v.channels c).f
    · subst hff
      have hroom' := hst.room (List.ne_nil_of_length_pos (by rw [length_writeSlice]; omega))
      have hold := h.full _ hc.file hd
      have := Nat.mul_le_mul_right v.geo.bytesPerCluster (hkeep (v.home c))
      rw [length_writeSlice] at hroom'
      rw [hsize]
      change _ ≤ (G'.chain (v.home c)).length * _
      change _ ≤ (G.chain (v.home c)).length * _ at hold
      omega
    · have hde : (w.files f).de = (v.files f).de := congrArg FileInfo.de (hst.file_ne hff)
      rw [hde] at hfd ⊢
      exact Nat.le_trans (h.full f (hopen ▸ hf) hfd) (Nat.mul_le_mul_right _ (hkeep _))
  · refine hst.contents hpos (h.full _ hc.file hd) ?_
    rw [hsize, length_writeSlice]
  · rw [hG, Layout.setChain_ne hne]

/-- Where `fat_write` starts to store. -/
def writeStart (v : Volume) (c : ℕ) (buffer : List UInt8) : ℕ :=
  if buffer ≠ [] ∧ hasFlag (v.channels c).flags oAppend = true then (v.files (v.channels c).f).de.fileSize
  else (v.channels c).filePointer

/-- Whether `fat_write` gets past its first checks. -/
structure Writable (v : Volume) (c : ℕ) : Prop where
  magic : (v.channels c).magic = true
  writeable : (v.channels c).isNotWriteable = false
  regular : (v.files (v.channels c).f).de.isDir = false

instance (v : Volume) (c : ℕ) : Decidable (Writable v c) :=
  decidable_of_iff ((v.channels c).magic = true ∧ (v.channels c).isNotWriteable = false ∧
    (v.files (v.channels c).f).de.isDir = false) ⟨fun h => ⟨h.1, h.2.1, h.2.2⟩, fun h => ⟨h.1, h.2, h.3⟩⟩

theorem fatWrite_run {buffer : List UInt8} (h : Writable v c) (hne : buffer ≠ []) :
    (fatWrite c buffer).run v =
      (if writeStart v c buffer > (v.files (v.channels c).f).de.fileSize then do
          let res ← fatDoWrite c none ((writeStart v c buffer - (v.files (v.channels c).f).de.fileSize) % 2 ^ 32)
            (v.files (v.channels c).f).de.fileSize
          let w ← Prog.state
          if ssize res < (writeStart v c buffer : Int) - (w.files (v.channels c).f).de.fileSize then pure (ssize res)
          else writeAtPointer c buffer (writeStart v c buffer) (ssize res)
        else writeAtPointer c buffer (writeStart v c buffer) 0 : FatM Int).run
      (v.setChannel c fun x => { x with filePointer := writeStart v c buffer }) := by
  have hstart : (if hasFlag (v.channels c).flags oAppend = true then (v.files (v.channels c).f).de.fileSize
      else (v.channels c).filePointer) = writeStart v c buffer := by
    unfold writeStart
    simp only [hne, ne_eq, not_false_eq_true, true_and]
  have hchecks : ¬((v.channels c).magic = false ∨ (v.channels c).isNotWriteable = true ∨
      hasAttr (v.files (v.channels c).f).de.attr fatADir = true) := by
    have hd : hasAttr (v.files (v.channels c).f).de.attr fatADir = false := h.regular
    rw [h.magic, h.writeable, hd]
    decide
  rw [fatWrite, run_bind_state]
  dsimp only
  rw [if_neg hchecks, if_neg hne, hstart, run_bind_update]

theorem writeSlice_take (bytes : List UInt8) (h : k ≤ bytes.length) : writeSlice (some bytes) 0 k = bytes.take k := by
  apply List.ext_getElem
  · rw [length_writeSlice, List.length_take]
    omega
  · intro i hi hi'
    rw [length_writeSlice] at hi
    simp [writeSlice, List.getElem?_eq_getElem (by omega : i < bytes.length)]

theorem writeAtPointer_full (h : Writes G v c) (hne : bytes ≠ []) (hloop : 2 ^ 32 + v.geo.dataClusters ≤ v.geo.loopBound)
    (hfull : 0xFFFFFFFF < pos + bytes.length ∨ capacity G v c ≤ pos) (j : Int) :
    ∃ e w, (writeAtPointer c bytes pos j).run v = (.error e, w) := by
  obtain ⟨e, w, hrun⟩ := fatDoWrite_full (some bytes) h (List.length_pos_iff.mpr hne) hloop hfull
  exact ⟨e, w, run_bind_error hrun⟩

theorem writeAtPointer_run (pos : ℕ) (h : WellFormed G v) (hc : Usable G v c) (hd : (v.files (v.channels c).f).de.isDir = false)
    (hne : bytes ≠ []) (hpos : pos ≤ (v.files (v.channels c).f).de.fileSize) (hfit : pos + bytes.length ≤ 0xFFFFFFFF)
    (hloop : 2 ^ 32 + v.geo.dataClusters ≤ v.geo.loopBound) (hroom : pos < capacity G v c) (j : Int)
    (hk : k = min bytes.length (capacity G v c - pos)) :
    ∃ G' w, Changed G v c (spliced (contents G v (v.channels c).f) pos (bytes.take k)) G' w ∧
      (writeAtPointer c bytes pos j).run v = (.ok (if 2 ^ 31 ≤ k then ssize k else j + k), w) ∧
      (k < 2 ^ 31 → (w.channels c).filePointer = pos + k) := by
  obtain ⟨G', w, hrun, hw⟩ := fatDoWrite_contents (some bytes) h hc hd (List.length_pos_iff.mpr hne) hpos hfit hloop hroom
  rw [← hk] at hrun hw
  rw [writeSlice_take bytes (by omega)] at hw
  rw [writeAtPointer, run_bind_ok hrun]
  by_cases hbig : 2 ^ 31 ≤ k
  · have hneg : ssize k < 0 := by
      rw [ssize, if_neg (by omega)]
      omega
    rw [if_pos hneg, if_pos hbig]
    exact ⟨G', w, hw, rfl, fun h => by omega⟩
  · have hpos' : ¬ssize k < 0 := by
      rw [ssize, if_pos (by omega)]
      omega
    rw [if_neg hpos', if_neg hbig]
    exact ⟨G', _, hw.seek _, rfl, fun _ => by rw [Volume.setChannel_self]⟩

theorem padding_run (h : WellFormed G v) (hc : Usable G v c) (hd : (v.files (v.channels c).f).de.isDir = false)
    (hn : 0 < n) (hfit : (v.files (v.channels c).f).de.fileSize + n ≤ 0xFFFFFFFF)
    (hloop : 2 ^ 32 + v.geo.dataClusters ≤ v.geo.loopBound)
    (hroom : (v.files (v.channels c).f).de.fileSize < capacity G v c)
    (hk : k = min n (capacity G v c - (v.files (v.channels c).f).de.fileSize)) :
    ∃ G' w, (fatDoWrite c none n (v.files (v.channels c).f).de.fileSize).run v = (.ok k, w) ∧
      Changed G v c (contents G v (v.channels c).f ++ List.replicate k 0) G' w := by
  obtain ⟨G', w, hrun, hw⟩ := fatDoWrite_contents none h hc hd hn (Nat.le_refl _) hfit hloop hroom
  rw [← hk] at hrun hw
  have hzero : spliced (contents G v (v.channels c).f) (v.files (v.channels c).f).de.fileSize (writeSlice none 0 k) =
      contents G v (v.channels c).f ++ List.replicate k 0 := by
    rw [← length_contents G v, spliced_inside (Nat.le_refl _), List.take_length,
      List.drop_eq_nil_of_le (Nat.le_add_right _ _), List.append_nil]
    rfl
  rw [hzero] at hw
  exact ⟨G', w, hrun, hw⟩

theorem spliced_padded (h : old.length ≤ pos) :
    spliced (old ++ List.replicate (pos - old.length) 0) pos bytes = spliced old pos bytes := by
  have hlen : (old ++ List.replicate (pos - old.length) 0).length = pos := by
    rw [List.length_append, List.length_replicate]
    omega
  rw [spliced_inside (Nat.le_of_eq hlen.symm), spliced, List.drop_eq_nil_of_le (by omega),
    List.drop_eq_nil_of_le (by omega)]

theorem fatWrite_changed {buffer : List UInt8} (h : WellFormed G v) (hc : Usable G v c) (hw : Writable v c)
    (hne : buffer ≠ []) (hfit : writeStart v c buffer + buffer.length ≤ 0xFFFFFFFF)
    (hgap : writeStart v c buffer - (v.files (v.channels c).f).de.fileSize < 2 ^ 31)
    (hroom : writeStart v c buffer + buffer.length ≤ capacity G v c)
    (hloop : 2 ^ 32 + v.geo.dataClusters ≤ v.geo.loopBound) :
    ∃ r G' w, (fatWrite c buffer).run v = (.ok r, w) ∧
      Changed G v c (spliced (contents G v (v.channels c).f) (writeStart v c buffer) buffer) G' w := by
  have hlen : 0 < buffer.length := List.length_pos_iff.mpr hne
  rw [fatWrite_run hw hne]
  generalize writeStart v c buffer = p at *
  have hv₁ := Changed.of_still h hc hw.regular ((Still.refl h.toTidy).seek c p)
  have hf₁ : ((v.setChannel c fun x => { x with filePointer := p }).channels c).f = (v.channels c).f := hv₁.channelFile c
  have hfiles₁ : (v.setChannel c fun x => { x with filePointer := p }).files = v.files := rfl
  have hcap₁ := hv₁.capacity
  have hgeo₁ := hv₁.geo
  have hold₁ := hv₁.holds
  have hw₁ := hv₁.writes
  generalize v.setChannel c (fun x => { x with filePointer := p }) = v₁ at *
  by_cases hpast : p > (v.files (v.channels c).f).de.fileSize
  · rw [if_pos hpast]
    have hsmall : (p - (v.files (v.channels c).f).de.fileSize) % 2 ^ 32 = p - (v.files (v.channels c).f).de.fileSize :=
      Nat.mod_eq_of_lt (by omega)
    obtain ⟨G', w, hrun, hpad⟩ := padding_run hv₁.wellFormed hw₁.usable hw₁.regular
      (n := p - (v.files (v.channels c).f).de.fileSize) (by omega) (by rw [hf₁, hfiles₁]; omega)
      (by rw [hgeo₁]; exact hloop) (by rw [hf₁, hfiles₁, hcap₁]; omega) (k := p - (v.files (v.channels c).f).de.fileSize)
      (by rw [hf₁, hfiles₁, hcap₁]; omega)
    rw [hf₁, hfiles₁] at hrun
    rw [hf₁, hold₁] at hpad
    have hall := hv₁.trans hpad
    have hsize : (w.files (v.channels c).f).de.fileSize = p := by
      rw [hall.size, List.length_append, List.length_replicate, length_contents]
      omega
    obtain ⟨G'', x, hx, hrun', -⟩ := writeAtPointer_run p hall.wellFormed hall.writes.usable hall.writes.regular hne
      (by rw [hall.channelFile, hsize]) hfit (by rw [hall.geo]; exact hloop) (by rw [hall.capacity]; omega)
      (ssize (p - (v.files (v.channels c).f).de.fileSize)) (k := buffer.length) (by rw [hall.capacity]; omega)
    rw [hall.channelFile, hall.holds, List.take_length] at hx
    rw [← length_contents G v, spliced_padded (by rw [length_contents]; omega)] at hx
    rw [hsmall, run_bind_ok hrun, run_bind_state, hsize]
    have hcompare : ¬ssize (p - (v.files (v.channels c).f).de.fileSize) < (p : Int) - (p : Int) := by
      rw [ssize, if_pos hgap]
      omega
    rw [if_neg hcompare, hrun']
    exact ⟨_, G'', x, rfl, hall.trans hx⟩
  · rw [if_neg hpast]
    obtain ⟨G'', x, hx, hrun', -⟩ := writeAtPointer_run p hv₁.wellFormed hw₁.usable hw₁.regular hne
      (by rw [hf₁, hfiles₁]; omega) hfit (by rw [hgeo₁]; exact hloop) (by rw [hcap₁]; omega)
      0 (k := buffer.length) (by rw [hcap₁]; omega)
    rw [hf₁, hold₁, List.take_length] at hx
    rw [hrun']
    exact ⟨_, G'', x, rfl, hv₁.trans hx⟩

theorem Grown.usable {d : ℕ} (h : Grown G v c G' w) (hd : Usable G v d) : Usable G' w d := by
  obtain ⟨y, hb, -⟩ := h.books
  obtain ⟨l, hG, -⟩ := h.chain
  have hopen : w.channelsOpen = v.channelsOpen := congrArg Books.channelsOpen hb
  have hfiles : w.filesOpen = v.filesOpen := congrArg Books.filesOpen hb
  refine ⟨hopen ▸ hd.channel, ?_, ?_⟩
  · rw [h.channelFile, hfiles]
    exact hd.file
  · rw [h.channelFile, hG]
    exact hd.there

section Letter

variable (flags pointer : ℕ)

def letterEntry : Direntry :=
  Direntry.ofBytes ([0x41] ++ List.replicate 10 0x20 ++ List.replicate 15 0 ++ [0x02, 0x00, 0x01, 0x00, 0x00, 0x00])

def letterGeometry : Geometry := { floppyGeometry with loopBound := 2 ^ 33 }

def letterDevice : ℕ → SectorData := fun s i =>
  if s = 1 ∨ s = 2 then [0xF8, 0xFF, 0xFF, 0xFF, 0x0F].getD i 0
  else if s = 3 then letterEntry.toBytes.getD i 0
  else if s = 4 then [0x61].getD i 0
  else 0

def letterVolume : Volume := { freshVolume letterGeometry quietEnv letterDevice 10 5 with
  dentries := fun d => {
    parent := if d = 3 then some rootDentry else none, children := [], references := 1, deSector := d, deEntcnt := 0,
    attr := if d = 3 then 0 else fatADir, lfnEntries := 1 }
  dentriesSlab := [3]
  files := fun _ => {
    de := letterEntry, deChanged := false, deSector := 3, deSecofs := 0, firstCluster := 2, references := 1 }
  filesOpen := [1]
  channels := fun _ => {
    filePointer := pointer, f := 1, magic := true, flags := flags, references := 1, clusterIndex := 0, cluster := 0,
    dentry := some 3 }
  channelsOpen := [2] }

def letterBytes (a : ℕ) : UInt8 := letterDevice (a / 512) (a % 512)

def letterLayout : Layout where
  owners := {0, 1536}
  chain a := if a = 1536 then [2] else []
  named := False
  name _ _ := 0
  fresh := True
  reserved := fatEntry letterGeometry letterBytes
  loose := ∅
  gone := ∅
  goneFiles := ∅
  goneNodes := ∅
  stale := ∅

theorem letterVolume_sound : Sound (letterVolume flags pointer) :=
  Sound.of_same (v := freshVolume letterGeometry quietEnv letterDevice 10 5)
    ⟨freshVolume_mediaOk .., ⟨by decide, by decide, by decide, by decide, by decide, by decide, by decide, by decide,
      by decide, fun _ => rfl, fun h => by cases h⟩⟩ rfl rfl

theorem letterVolume_byte : (letterVolume flags pointer).byte = letterBytes := by
  funext a
  rfl

theorem letterBytes_entry {i : ℕ} (h : i < 512) : letterBytes (1536 + i) = letterEntry.toBytes.getD i 0 := by
  have hdiv : (1536 + i) / 512 = 3 := by omega
  have hmod : (1536 + i) % 512 = i := by omega
  rw [letterBytes, hdiv, hmod]
  rfl

theorem letterBytes_slot {i : ℕ} (h : i < 32) : letterBytes (1536 + i) = letterEntry i := by
  rw [letterBytes_entry (by omega), toBytes_getD _ h]

theorem letter_isDir {a : ℕ} : a ∈ letterLayout.owners ∧ IsDir letterBytes a ↔ a = 0 := by
  constructor
  · rintro ⟨rfl | rfl, hdir⟩
    · rfl
    · exact absurd hdir (by unfold IsDir; decide)
  · rintro rfl
    exact ⟨.inl rfl, .inl rfl⟩

theorem letter_root {pos p : ℕ} (h : letterLayout.at letterGeometry 0 pos = some p) : pos < 512 ∧ p = 1536 + pos := by
  rw [Layout.at, posAddr, if_pos ⟨rfl, rfl⟩] at h
  split at h
  · exact ⟨‹_›, (Option.some.inj h).symm⟩
  · cases h

theorem letter_live : (slotAt letterBytes 1536).Live := by decide

theorem letter_entries : Entries letterLayout letterGeometry letterBytes where
  root := .inl rfl
  slots a ha hdir pos p halign hat hlive := by
    obtain rfl := letter_isDir.mp ⟨ha, hdir⟩
    obtain ⟨hpos, rfl⟩ := letter_root hat
    by_cases h0 : pos = 0
    · subst h0
      exact .inl (.inr rfl)
    · refine absurd ?_ hlive.2.1
      rw [slotAt, Nat.add_zero, letterBytes_entry hpos, List.getD_eq_getElem?_getD, List.getElem?_eq_none]
      · rfl
      · rw [length_toBytes]
        omega
  linked := by
    rintro p (rfl | rfl) h0 -
    · exact absurd rfl h0
    · exact letter_live
  inside := by
    rintro p (rfl | rfl) h0
    · exact absurd rfl h0
    · exact ⟨0, .inl rfl, .inl rfl, 0, by decide, rfl⟩
  size a ha hdir pos p hat := by
    obtain rfl := letter_isDir.mp ⟨ha, hdir⟩
    have := (letter_root hat).1
    omega

theorem letter_entry_dir : ¬IsDir letterBytes 1536 := by
  unfold IsDir
  decide

theorem letter_file : FileOk letterLayout letterGeometry letterBytes ⟨letterEntry, false, 3, 0, 2⟩ := by
  have haddr : (⟨letterEntry, false, 3, 0, 2⟩ : FileInfo).addr letterGeometry = 1536 := rfl
  have hdir : ¬letterEntry.isDir = true := by decide
  have hfirst : letterEntry.firstCluster = 2 := by decide
  have hslot : (slotAt letterBytes 1536).firstCluster = 2 := by decide
  constructor
  · exact .inr ⟨by decide, by decide⟩
  · rw [haddr]
    exact .inr rfl
  · rw [haddr]
    rfl
  · exact hfirst
  · rw [haddr]
    exact iff_of_false hdir letter_entry_dir
  · intro _
    change letterEntry.Live
    decide
  · intro _ _ i _ hi
    exact letterBytes_slot hi
  · intro _ _
    change 2 ≠ 0
    decide
  · intro _ _
    rw [haddr]
    exact .inr hslot

theorem letter_fileAddr (f : ℕ) : (books (letterVolume flags pointer)).fileAddr f = 1536 := by
  change (⟨letterEntry, false, 3, 0, 2⟩ : FileInfo).addr letterGeometry = 1536
  rfl

theorem letter_nodeAddr : (books (letterVolume flags pointer)).nodeAddr 3 = 1536 := by
  change (⟨some rootDentry, 3, 0, 0, 1⟩ : NodeInfo).addr letterGeometry = 1536
  rfl

theorem letter_rootAddr : (books (letterVolume flags pointer)).nodeAddr rootDentry = 0 := by
  change (⟨none, 0, 0, fatADir, 1⟩ : NodeInfo).addr letterGeometry = 0
  rfl

theorem letter_files : FilesOk letterLayout (books (letterVolume flags pointer)) letterBytes where
  file _ _ _ := letter_file
  inj := by
    intro f hf f' hf' _ _ _
    rw [List.mem_singleton.mp hf, List.mem_singleton.mp hf']
  root := rfl
  closed := by
    rintro p (rfl | rfl) h0 - hno
    · exact absurd rfl h0
    · exact absurd (letter_fileAddr flags pointer 1) (hno 1 (List.mem_singleton.mpr rfl) (Set.notMem_empty _))

theorem letter_node : NodeOk letterLayout (books (letterVolume flags pointer)) letterBytes ⟨some rootDentry, 3, 0, 0, 1⟩ := by
  have haddr : (⟨some rootDentry, 3, 0, 0, 1⟩ : NodeInfo).addr letterGeometry = 1536 := rfl
  have hroot := letter_rootAddr flags pointer
  have hattr : ¬hasAttr 0 fatADir = true := by decide
  have hgeo : (books (letterVolume flags pointer)).geo = letterGeometry := rfl
  constructor
  · rw [hgeo, haddr]
    exact .inr rfl
  · exact Nat.le_succ 2
  · rw [hgeo, haddr]
    exact iff_of_false hattr letter_entry_dir
  · refine ⟨rootDentry, rfl, ?_, ?_, ?_⟩
    · rw [hroot]
      exact .inl rfl
    · rw [hroot]
      exact .inl rfl
    · rw [hroot, hgeo, haddr]
      rfl

theorem letter_nodes : NodesOk letterLayout (books (letterVolume flags pointer)) letterBytes where
  node := by
    intro d hd _
    obtain rfl := List.mem_singleton.mp hd
    exact letter_node flags pointer
  inj := by
    intro d hd d' hd' _ _ _
    rw [List.mem_singleton.mp hd, List.mem_singleton.mp hd']
  root := by
    have hattr : hasAttr fatADir fatADir = true := by decide
    exact ⟨rfl, rfl, hattr, rfl⟩
  channel := by
    intro c _ _
    exact ⟨3, rfl, (letter_nodeAddr flags pointer).trans (letter_fileAddr flags pointer 1).symm⟩

theorem letter_chains : Chains (table letterGeometry letterBytes) fatEoc letterGeometry.InRange letterLayout.owners
    letterLayout.chain where
  links := by
    rintro a (rfl | rfl)
    · trivial
    · change table letterGeometry letterBytes 2 = fatEoc
      decide
  ok := by
    rintro a (rfl | rfl) x hx
    · cases hx
    · rw [List.mem_singleton.mp hx]
      exact ⟨by decide, by decide⟩
  nodup := by
    rintro a (rfl | rfl)
    · exact List.nodup_nil
    · exact List.pairwise_singleton _ 2
  disjoint := by
    rintro a (rfl | rfl) b (rfl | rfl) hab x hx
    · cases hx
    · cases hx
    · exact List.not_mem_nil
    · exact absurd rfl hab

theorem letter_wellFormed : WellFormed letterLayout (letterVolume flags pointer) where
  sound := letterVolume_sound flags pointer
  order := by
    rw [letterVolume_byte]
    exact ⟨⟨letter_entries, letter_files flags pointer, letter_nodes flags pointer, False.elim⟩, letter_chains,
      fun _ _ _ _ => rfl, by change 5 = zeros letterGeometry letterBytes; decide⟩
  cursors := fun _ _ _ => .inl rfl
  settled := ⟨rfl, rfl, rfl, rfl, rfl⟩
  full := by
    intro f _ _
    have hsize : letterEntry.fileSize = 1 := by decide
    rw [letter_fileAddr]
    change letterEntry.fileSize ≤ 512
    rw [hsize]
    decide

theorem letter_usable : Usable letterLayout (letterVolume flags pointer) 2 where
  channel := List.mem_singleton.mpr rfl
  file := List.mem_singleton.mpr rfl
  there := Set.notMem_empty _

theorem letter_writable (hw : (⟨pointer, 1, true, flags, 1, 0, 0, some 3⟩ : Channel).isNotWriteable = false) :
    Writable (letterVolume flags pointer) 2 where
  magic := rfl
  writeable := hw
  regular := by
    change letterEntry.isDir = false
    decide

theorem letter_size : ((letterVolume flags pointer).files 1).de.fileSize = 1 := by
  change letterEntry.fileSize = 1
  decide

theorem letter_capacity : capacity letterLayout (letterVolume flags pointer) 2 = 3072 := by
  rw [capacity, Volume.home, letter_fileAddr]
  change (1 + 5) * letterGeometry.bytesPerCluster = 3072
  decide

theorem letter_loop : 2 ^ 32 + (letterVolume flags pointer).geo.dataClusters ≤ (letterVolume flags pointer).geo.loopBound := by
  change 2 ^ 32 + 6 ≤ 2 ^ 33
  decide

theorem letter_contents : contents letterLayout (letterVolume flags pointer) 1 = [0x61] := by
  rw [contents, letterVolume_byte, letter_fileAddr, letter_size]
  change fileSlice letterGeometry [2] letterBytes 0 1 = [0x61]
  decide

end Letter

/-- What a call of `fat_read` for `n` bytes at `pos` returns. -/
def readAt (v : Volume) (c pos n : ℕ) : Outcome Errno (List UInt8) :=
  ((fatRead c n).run (v.setChannel c fun x => { x with filePointer := pos })).1

/-- A file reads as the old bytes with the new ones stored where `fat_write` starts; of the others nothing has changed. -/
theorem fatWrite_contents {buffer : List UInt8} (h : WellFormed G v) (hc : Usable G v c) (hw : Writable v c)
    (hne : buffer ≠ []) (hfit : writeStart v c buffer + buffer.length ≤ 0xFFFFFFFF)
    (hgap : writeStart v c buffer - (v.files (v.channels c).f).de.fileSize < 2 ^ 31)
    (hroom : writeStart v c buffer + buffer.length ≤ capacity G v c)
    (hloop : 2 ^ 32 + v.geo.dataClusters ≤ v.geo.loopBound) :
    ∃ old r G' w, (fatWrite c buffer).run v = (.ok r, w) ∧ WellFormed G' w ∧
      (w.files (v.channels c).f).de.fileSize =
        max (v.files (v.channels c).f).de.fileSize (writeStart v c buffer + buffer.length) ∧
      (∀ d, Usable G v d → (v.channels d).f = (v.channels c).f → (v.channels d).Reads → ∀ pos n,
        readAt v d pos n = .ok ((old.drop pos).take n) ∧
        readAt w d pos n = .ok (((spliced old (writeStart v c buffer) buffer).drop pos).take n)) ∧
      (∀ d, Usable G v d → (v.channels d).f ≠ (v.channels c).f → (v.files (v.channels d).f).de.isDir = false →
        (v.channels d).Reads → ∀ pos n, readAt w d pos n = readAt v d pos n) ∧
      (∀ f ≠ (v.channels c).f, (w.files f).info = (v.files f).info) ∧
      ∀ a ∈ G.owners, a ≠ v.home c → G'.chain a = G.chain a ∧
        ∀ offset p, G.at v.geo a offset = some p → w.byte p = v.byte p := by
  obtain ⟨r, G', w, hrun, hch⟩ := fatWrite_changed h hc hw hne hfit hgap hroom hloop
  refine ⟨contents G v (v.channels c).f, r, G', w, hrun, hch.wellFormed, ?_, fun d hd hf hr pos n => ⟨?_, ?_⟩,
    fun d hd hf hreg hr pos n => ?_, fun f hf => hch.file_ne hf, hch.others⟩
  · rw [hch.size, length_spliced, length_contents]
  · rw [← hf]
    exact fatRead_contents h hd (hf ▸ hw.regular) hr pos n
  · have hread := fatRead_contents hch.wellFormed (hch.usable hd)
      (by rw [hch.channelFile, hf, ← hch.channelFile]; exact hch.writes.regular) (hr.of_info (hch.channel d)) pos n
    rw [hch.channelFile, hf, hch.holds] at hread
    exact hread
  · have hde : (w.files (v.channels d).f).de = (v.files (v.channels d).f).de := congrArg FileInfo.de (hch.file_ne hf)
    have hread := fatRead_contents hch.wellFormed (hch.usable hd)
      (by rw [hch.channelFile, hde]; exact hreg) (hr.of_info (hch.channel d)) pos n
    rw [hch.channelFile, hch.contents_ne h hc hd.file hreg hf] at hread
    exact hread.trans (fatRead_contents h hd hreg hr pos n).symm

/-- Two letters after a gap of two bytes. -/
theorem fatWrite_contents_letter : ∃ r w, (fatWrite 2 [0x62, 0x63]).run (letterVolume oRdwr 3) = (.ok r, w) ∧
    (w.files 1).de.fileSize = 5 ∧
    ∀ pos n, readAt w 2 pos n = .ok (([0x61, 0, 0, 0x62, 0x63].drop pos).take n) := by
  have hstart : writeStart (letterVolume oRdwr 3) 2 [0x62, 0x63] = 3 := by decide
  have hsize := letter_size oRdwr 3
  have hreads : ((letterVolume oRdwr 3).channels 2).Reads := ⟨rfl, rfl⟩
  obtain ⟨old, r, G', w, hrun, -, hnew, hread, -⟩ := fatWrite_contents (letter_wellFormed oRdwr 3) (letter_usable oRdwr 3)
    (letter_writable oRdwr 3 rfl) (by decide : ([0x62, 0x63] : List UInt8) ≠ []) (by rw [hstart]; decide)
    (by rw [hstart]; decide) (by rw [hstart, letter_capacity]; decide) (letter_loop oRdwr 3)
  have hsame := hread 2 (letter_usable oRdwr 3) rfl hreads
  -- the old contents are those that could be read before
  have hold : old = [0x61] := by
    have h₁ := (hsame 0 (max old.length 1)).1
    have h₂ := fatRead_contents (letter_wellFormed oRdwr 3) (letter_usable oRdwr 3)
      (letter_writable oRdwr 3 rfl).regular hreads 0 (max old.length 1)
    rw [readAt, h₂] at h₁
    have h₃ := Outcome.ok.inj h₁
    rw [List.drop_zero, List.drop_zero, List.take_of_length_le (Nat.le_max_left _ _), List.take_of_length_le] at h₃
    · rw [← h₃]
      exact letter_contents oRdwr 3
    · rw [length_contents]
      exact Nat.le_max_right _ _
  refine ⟨r, w, hrun, ?_, fun pos n => ?_⟩
  · change (w.files 1).de.fileSize = max ((letterVolume oRdwr 3).files 1).de.fileSize _ at hnew
    rw [hnew, hsize, hstart]
    rfl
  · have := (hsame pos n).2
    rw [hold, hstart] at this
    exact this

/-- An append stores at the end of the file, whatever the file pointer; and a write of nothing pads nothing. -/
theorem fatWrite_append_letter :
    (∃ r w, (fatWrite 2 [0x62, 0x63]).run (letterVolume (oRdwr ||| oAppend) 0) = (.ok r, w) ∧
      (w.files 1).de.fileSize = 3 ∧
      (w.files 1).de.fileSize ≠ max ((letterVolume (oRdwr ||| oAppend) 0).files 1).de.fileSize (0 + 2)) ∧
    ∃ r w, (fatWrite 2 []).run (letterVolume oRdwr 3) = (.ok r, w) ∧
      (w.files 1).de.fileSize ≠ max ((letterVolume oRdwr 3).files 1).de.fileSize (3 + 0) := by
  constructor
  · have hstart : writeStart (letterVolume (oRdwr ||| oAppend) 0) 2 [0x62, 0x63] = 1 := by decide
    obtain ⟨r, G', w, hrun, hch⟩ := fatWrite_changed (letter_wellFormed (oRdwr ||| oAppend) 0)
      (letter_usable (oRdwr ||| oAppend) 0) (letter_writable (oRdwr ||| oAppend) 0 rfl)
      (by decide : ([0x62, 0x63] : List UInt8) ≠ [])
      (by rw [hstart]; decide) (by rw [hstart]; decide) (by rw [hstart, letter_capacity]; decide)
      (letter_loop (oRdwr ||| oAppend) 0)
    have hsize : (w.files 1).de.fileSize = 3 := by
      have := hch.size
      rw [length_spliced, length_contents, hstart] at this
      change (w.files 1).de.fileSize = max ((letterVolume (oRdwr ||| oAppend) 0).files 1).de.fileSize _ at this
      rw [this, letter_size]
      rfl
    refine ⟨r, w, hrun, hsize, ?_⟩
    rw [hsize, letter_size]
    decide
  · refine ⟨0, letterVolume oRdwr 3, by rfl, ?_⟩
    rw [letter_size]
    decide

end FreeDos32.Fat
