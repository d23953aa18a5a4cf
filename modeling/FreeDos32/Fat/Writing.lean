import FreeDos32.Fat.Reading
import FreeDos32.Fat.Store

namespace FreeDos32.Fat

open Prog

variable {G G' G'' : Layout} {m : ℕ → UInt8} {u v w x : Volume} {c f k n i s o pos offset size : ℕ}
  {bytes bytes' : List UInt8} {hint : Option ℕ}

theorem fileSize_setFileSize (de : Direntry) (n : ℕ) : (de.setFileSize n).fileSize = n % 2 ^ 32 := by
  have h := get32_le32 n (fun i => de.setFileSize n (28 + i)) fun i hi => overlay_at (by simpa [le32, le16] using hi)
  exact h

theorem setFileSize_below (de : Direntry) (n : ℕ) (hi : i < 28) : de.setFileSize n i = de i := overlay_of_lt hi

theorem firstCluster_of_below {de de' : Direntry} (h : ∀ i < 28, de' i = de i) : de'.firstCluster = de.firstCluster := by
  simp only [Direntry.firstCluster, get16]
  rw [h 20 (by omega), h 21 (by omega), h 26 (by omega), h 27 (by omega)]

/-- The cached entry of a file counted as changed. -/
def Volume.mark (f : ℕ) (v : Volume) : Volume := v.setFile f fun x => { x with deChanged := true }

theorem books_mark (f : ℕ) (v : Volume) :
    books (v.mark f) = (books v).setFile f { (books v).file f with deChanged := true } := books_setFile f _ v

theorem fileAddr_mark (f k : ℕ) (v : Volume) : (books (v.mark f)).fileAddr k = (books v).fileAddr k := by
  rw [books_mark]
  refine Books.setFile_addr ?_ k
  rfl

theorem home_mark (f c : ℕ) (v : Volume) : (v.mark f).home c = v.home c := fileAddr_mark f _ v

theorem file_mark (c : ℕ) (v : Volume) : (v.mark (v.channels c).f).files ((v.mark (v.channels c).f).channels c).f =
    { v.files (v.channels c).f with deChanged := true } := Volume.setFile_self ..

theorem cursors_mark : Cursors G (v.mark f) ↔ Cursors G v := by
  unfold Cursors CursorOk
  simp only [fileAddr_mark]
  exact Iff.rfl

theorem Sound.mark (h : Sound v) (f : ℕ) : Sound (v.mark f) := h.of_same rfl rfl

theorem Recached.mark (h : Recached m v w) (f : ℕ) : Recached m (v.mark f) (w.mark f) := by
  refine ⟨⟨h.media.1, h.media.2, h.media.3, h.media.4, h.media.5⟩, ?_, h.shape, h.byte⟩
  have heq := h.eq
  generalize w.cache = a at heq
  subst heq
  rfl

/-- An open instance of a regular file that is written to. Its cached entry need not be counted as changed yet. -/
structure Writes (G : Layout) (v : Volume) (c : ℕ) : Prop where
  tidy : Tidy G (v.mark (v.channels c).f)
  usable : Usable G v c
  regular : (v.files (v.channels c).f).de.isDir = false
  current : (v.channels c).f ∉ G.stale

theorem Tidy.setEntry {g : Direntry → Direntry} (h : Tidy G v) (hf : f ∈ v.filesOpen) (hfg : f ∉ G.goneFiles)
    (hfs : f ∉ G.stale) (hname : ∀ i < 11, g (v.files f).de i = (v.files f).de i)
    (hvol : hasAttr (g (v.files f).de).attr fatAVolid = hasAttr (v.files f).de.attr fatAVolid)
    (hdir : hasAttr (g (v.files f).de).attr fatADir = hasAttr (v.files f).de.attr fatADir)
    (hfc : (g (v.files f).de).firstCluster = (v.files f).de.firstCluster)
    (hsize : (v.files f).de.isDir = false → 0 < (g (v.files f).de).fileSize → (v.files f).firstCluster ≠ 0) :
    Tidy G (v.setFile f fun x => { x with de := g x.de, deChanged := true }) := by
  have hfile := h.order.files.file f hf hfg
  exact h.setFile hf hfg rfl (hfile.touch hname hvol hdir hfc hsize) hname (.inl hfs)

namespace Writes

theorem of_tidy (h : Tidy G v) (hc : Usable G v c) (hd : (v.files (v.channels c).f).de.isDir = false)
    (hst : (v.channels c).f ∉ G.stale) : Writes G v c where
  tidy := h.setEntry (g := id) hc.file hc.there hst (fun _ _ => rfl) rfl rfl rfl
    (h.order.files.file _ hc.file hc.there).size
  usable := hc
  regular := hd
  current := hst

theorem sound (h : Writes G v c) : Sound v := h.tidy.sound.of_same rfl rfl

theorem usable_mark (h : Writes G v c) : Usable G (v.mark (v.channels c).f) c :=
  ⟨h.usable.channel, h.usable.file, h.usable.there⟩

theorem not_dir (h : Writes G v c) : ¬IsDir v.byte (v.home c) := by
  have hd : ((v.mark (v.channels c).f).files ((v.mark (v.channels c).f).channels c).f).de.isDir = false := by
    rw [file_mark]
    exact h.regular
  have hnot := h.usable_mark.file_not_dir h.tidy.order hd
  rw [home_mark] at hnot
  exact hnot

theorem not_fixed (h : Writes G v c) : ¬(v.home c = 0 ∧ v.geo.rootCluster = 0) := fun he => h.not_dir (.inl he.1)

theorem owner (h : Writes G v c) : v.home c ∈ G.owners := by
  have hown := h.usable_mark.owner h.tidy.order
  rwa [home_mark] at hown

theorem chained (h : Writes G v c) : Chained G v c := by
  have hfix : ¬((v.mark (v.channels c).f).home c = 0 ∧ v.geo.rootCluster = 0) := by
    rw [home_mark]
    exact h.not_fixed
  obtain ⟨hrange, hfirst, hnot, hfree⟩ := h.usable_mark.chained h.tidy.order hfix
  rw [home_mark] at hrange
  rw [home_mark, file_mark] at hfirst
  rw [file_mark] at hnot
  exact ⟨hrange, hfirst, hnot, hfree⟩

theorem still (h : Writes G v c) (hw : Still G v w) : Writes G w c := by
  have hf := hw.channelFile c
  have hb : books (w.mark (v.channels c).f) = books (v.mark (v.channels c).f) := by rw [books_mark, books_mark, hw.books]
  have hinfo := congrArg FileInfo.de (hw.file (v.channels c).f)
  refine ⟨?_, h.usable.of_books hw.books, ?_, ?_⟩
  · rw [hf]
    refine ⟨hw.sound.mark _, ?_, cursors_mark.mpr hw.cursors⟩
    rw [hb]
    have horder := h.tidy.order
    have hbyte : (w.mark (v.channels c).f).byte = (v.mark (v.channels c).f).byte := hw.byte
    rw [hbyte]
    exact horder
  · rw [hf]
    exact (congrArg Direntry.isDir hinfo).trans h.regular
  · rw [hf]
    exact h.current

theorem still_refl (h : Writes G v c) : Still G v v := ⟨h.sound, rfl, rfl, cursors_mark.mp h.tidy.cursors⟩

theorem onChain (h : Writes G v c) : OnChain (G.chain (v.home c)) c v where
  links := by
    have hl := h.tidy.order.chains.links _ h.owner
    exact hl
  range := h.chained.range
  first := h.chained.first
  cursor := h.still_refl.cursors c h.usable.channel h.usable.there

end Writes

theorem placeOf_append (g : Geometry) (l l' : List ℕ) (h : pos < l.length * g.bytesPerCluster) :
    placeOf g false (l ++ l') pos = placeOf g false l pos := by
  have hlt : pos / g.bytesPerCluster < l.length := (Nat.div_lt_iff_lt_mul (bytesPerCluster_pos g)).mpr h
  simp [placeOf, List.getElem?_append_left hlt]

/-- An open instance has made its file longer: from `v` to `w` the file has got clusters, and nothing else has changed
that the order of the volume depends on but the file's cached entry. -/
structure Grown (G : Layout) (v : Volume) (c : ℕ) (G' : Layout) (w : Volume) : Prop where
  writes : Writes G' w c
  chain : ∃ l, G' = G.setChain (v.home c) (G.chain (v.home c) ++ l) G.loose ∧ l.length + w.freeClusters = v.freeClusters
  books : ∃ x : FileInfo, books w = ((books v).setFile (v.channels c).f x).setFree w.freeClusters ∧
    x.addr v.geo = v.home c

namespace Grown

theorem geo (h : Grown G v c G' w) : w.geo = v.geo := by
  obtain ⟨y, hb, -⟩ := h.books
  exact congrArg Books.geo hb

theorem channel (h : Grown G v c G' w) (k : ℕ) : (w.channels k).info = (v.channels k).info := by
  obtain ⟨y, hb, -⟩ := h.books
  exact congrFun (congrArg Books.channel hb) k

theorem channelFile (h : Grown G v c G' w) (k : ℕ) : (w.channels k).f = (v.channels k).f :=
  congrArg ChannelInfo.f (h.channel k)

theorem numBuffers (h : Grown G v c G' w) : w.cache.numBuffers = v.cache.numBuffers := by
  obtain ⟨y, hb, -⟩ := h.books
  exact congrArg Books.numBuffers hb

theorem fileAddr (h : Grown G v c G' w) (k : ℕ) : (Fat.books w).fileAddr k = (Fat.books v).fileAddr k := by
  obtain ⟨y, hb, haddr⟩ := h.books
  rw [hb]
  exact Books.setFile_addr haddr k

theorem home (h : Grown G v c G' w) (k : ℕ) : w.home k = v.home k := by
  rw [Volume.home, Volume.home, h.fileAddr, h.channelFile]

theorem file_ne (h : Grown G v c G' w) (hk : k ≠ (v.channels c).f) : (w.files k).info = (v.files k).info := by
  obtain ⟨y, hb, -⟩ := h.books
  have hfile := congrFun (congrArg Books.file hb) k
  exact hfile.trans (Books.setFile_ne hk y)

theorem of_still (h : Writes G v c) (hw : Still G v w) : Grown G v c G w where
  writes := h.still hw
  chain := by
    refine ⟨[], ?_, ?_⟩
    · rw [List.append_nil, setChain_same]
    · have hfree : w.freeClusters = v.freeClusters := congrArg Books.freeClusters hw.books
      rw [hfree, List.length_nil, Nat.zero_add]
  books := by
    refine ⟨(Fat.books v).file (v.channels c).f, ?_, rfl⟩
    have hfree : w.freeClusters = v.freeClusters := congrArg Books.freeClusters hw.books
    rw [Books.setFile_same, hfree, hw.books]
    rfl

theorem trans (h : Grown G v c G' w) (h' : Grown G' w c G'' x) : Grown G v c G'' x where
  writes := h'.writes
  chain := by
    obtain ⟨l, hG, hl⟩ := h.chain
    obtain ⟨l', hG', hl'⟩ := h'.chain
    refine ⟨l ++ l', ?_, ?_⟩
    · rw [hG', h.home, hG, Layout.setChain_self]
      simp [Layout.setChain]
    · rw [List.length_append]
      omega
  books := by
    obtain ⟨y, hb, -⟩ := h.books
    obtain ⟨y', hb', haddr⟩ := h'.books
    refine ⟨y', ?_, ?_⟩
    · rw [hb', h.channelFile, hb]
      simp [Books.setFile, Books.setFree]
    · rw [← h.geo, haddr, h.home]

end Grown

theorem Writes.place_inj (h : Writes G v c) {p : ℕ} (hp : placeOf v.geo false (G.chain (v.home c)) pos = some p)
    (hp' : placeOf v.geo false (G.chain (v.home c)) offset = some p) : pos = offset := by
  have hat : ∀ q, posAddr v.geo (G.chain (v.home c)) (v.home c) q = placeOf v.geo false (G.chain (v.home c)) q := by
    intro q
    rw [posAddr_eq, decide_eq_false h.not_fixed]
  have hchains := h.tidy.order.chains
  rw [← hat] at hp hp'
  exact (Chains.posAddr_unique h.sound.geo hchains h.owner h.owner hp hp').2

theorem Writes.place_le (h : Writes G v c) {p : ℕ} (hp : placeOf v.geo false (G.chain (v.home c)) pos = some p) :
    v.geo.rootSector * v.geo.bytesPerSector ≤ p := by
  have hat : posAddr v.geo (G.chain (v.home c)) (v.home c) pos = some p := by
    rw [posAddr_eq, decide_eq_false h.not_fixed, hp]
  exact h.sound.geo.posAddr_le hat

/-- Besides, `bytes` have been stored at position `pos` and nothing else behind the table. -/
structure Written (G : Layout) (v : Volume) (c pos : ℕ) (bytes : List UInt8) (G' : Layout) (w : Volume) : Prop
    extends Grown G v c G' w where
  room : bytes ≠ [] → pos + bytes.length ≤ (G'.chain (v.home c)).length * v.geo.bytesPerCluster
  data : fileSlice v.geo (G'.chain (v.home c)) w.byte pos bytes.length = bytes
  other : ∀ p, v.geo.rootSector * v.geo.bytesPerSector ≤ p →
    (∀ j < bytes.length, placeOf v.geo false (G'.chain (v.home c)) (pos + j) ≠ some p) → w.byte p = v.byte p

namespace Written

theorem of_grown (h : Grown G v c G' w)
    (hbyte : ∀ p, v.geo.rootSector * v.geo.bytesPerSector ≤ p → w.byte p = v.byte p) (pos : ℕ) :
    Written G v c pos [] G' w where
  toGrown := h
  room hne := absurd rfl hne
  data := rfl
  other p hp _ := hbyte p hp

theorem append (h : Written G v c pos bytes G' w) (h' : Written G' w c (pos + bytes.length) bytes' G'' x) :
    Written G v c pos (bytes ++ bytes') G'' x := by
  have hgeo := h.geo
  have hhome := h.home c
  have hroom' := h'.room
  have hdata' := h'.data
  have hother' := h'.other
  rw [hgeo, hhome] at hroom' hdata' hother'
  have hgrown := h.toGrown.trans h'.toGrown
  obtain ⟨l, hG, -⟩ := h'.chain
  have hchain : G''.chain (v.home c) = G'.chain (v.home c) ++ l := by
    rw [hG, hhome, Layout.setChain_self]
  have hinj : ∀ {a b p : ℕ}, placeOf v.geo false (G''.chain (v.home c)) a = some p →
      placeOf v.geo false (G''.chain (v.home c)) b = some p → a = b := by
    rw [← hgrown.geo, ← hgrown.home c]
    exact h'.writes.place_inj
  have hle : ∀ {a p : ℕ}, placeOf v.geo false (G''.chain (v.home c)) a = some p →
      v.geo.rootSector * v.geo.bytesPerSector ≤ p := by
    rw [← hgrown.geo, ← hgrown.home c]
    exact h'.writes.place_le
  have hfront : ∀ j < bytes.length, placeOf v.geo false (G''.chain (v.home c)) (pos + j) =
      placeOf v.geo false (G'.chain (v.home c)) (pos + j) := by
    intro j hj
    have hroom := h.room (List.ne_nil_of_length_pos (by omega))
    rw [hchain]
    exact placeOf_append _ _ _ (by omega)
  refine ⟨hgrown, fun hne => ?_, ?_, fun p hp hno => ?_⟩
  · by_cases hnil : bytes' = []
    · subst hnil
      rw [List.append_nil] at hne ⊢
      have hroom := h.room hne
      rw [hchain, List.length_append, Nat.add_mul]
      omega
    · rw [List.length_append, ← Nat.add_assoc]
      exact hroom' hnil
  · rw [List.length_append, ← fileSlice_append, hdata']
    congr 1
    rw [← h.data, length_fileSlice]
    apply fileSlice_congr
    intro j hj
    rw [hfront j hj]
    cases hpl : placeOf v.geo false (G'.chain (v.home c)) (pos + j) with
    | none => rfl
    | some p =>
      rw [← hfront j hj] at hpl
      apply hother' p (hle hpl)
      intro j' _ hpl'
      have := hinj hpl hpl'
      omega
  · rw [List.length_append] at hno
    refine (hother' p hp fun j hj => ?_).trans (h.other p hp fun j hj => ?_)
    · rw [Nat.add_assoc]
      exact hno _ (by omega)
    · rw [← hfront j hj]
      exact hno j (by omega)

theorem after (h : Written G' w c pos bytes G'' x) (hw : Grown G v c G' w)
    (hbyte : ∀ p, v.geo.rootSector * v.geo.bytesPerSector ≤ p → w.byte p = v.byte p) : Written G v c pos bytes G'' x :=
  (of_grown hw hbyte pos).append h

end Written

theorem Volume.setFile_setFile (f : ℕ) (g g' : File → File) (v : Volume) :
    (v.setFile f g).setFile f g' = v.setFile f (g' ∘ g) := by
  unfold Volume.setFile
  congr 1
  funext k
  by_cases hk : k = f
  · simp only [if_pos hk, Function.comp_apply]
  · simp only [if_neg hk]

/-- What `fat_do_write` does to the size of a regular file before it stores up to position `n`. -/
def Volume.growTo (c n : ℕ) (v : Volume) : Volume :=
  if hasAttr (v.files (v.channels c).f).de.attr fatADir = false ∧ n ≥ (v.files (v.channels c).f).de.fileSize
  then v.setFile (v.channels c).f fun x => { x with de := x.de.setFileSize n }
  else v

theorem Writes.growTo (h : Writes G v c) (hne : G.chain (v.home c) ≠ []) (hn : n < 2 ^ 32) :
    Grown G v c G (v.growTo c n) ∧ ((v.growTo c n).files (v.channels c).f).de.fileSize =
      max (v.files (v.channels c).f).de.fileSize n := by
  have hregular : hasAttr (v.files (v.channels c).f).de.attr fatADir = false := h.regular
  unfold Volume.growTo
  by_cases hgrow : n ≥ (v.files (v.channels c).f).de.fileSize
  · rw [if_pos ⟨hregular, hgrow⟩, Volume.setFile_self, fileSize_setFileSize, Nat.mod_eq_of_lt hn, Nat.max_eq_right hgrow]
    refine ⟨⟨⟨?_, ⟨h.usable.channel, h.usable.file, h.usable.there⟩, ?_, h.current⟩, ⟨[], ?_, ?_⟩, ?_⟩, rfl⟩
    · have hfirst : (v.files (v.channels c).f).firstCluster ≠ 0 := fun h0 => hne (h.chained.nil_iff.mpr h0)
      have hset := h.tidy.setEntry (g := fun de => de.setFileSize n) h.usable.file h.usable.there h.current
        (fun i hi => setFileSize_below _ n (by omega)) (congrArg (hasAttr · _) (setFileSize_below _ n (by omega)))
        (congrArg (hasAttr · _) (setFileSize_below _ n (by omega)))
        (firstCluster_of_below fun i hi => setFileSize_below _ n hi) fun _ _ => by
          rw [Volume.mark, Volume.setFile_self]
          exact hfirst
      rw [Volume.mark, Volume.setFile_setFile] at hset
      rw [Volume.mark]
      have hcomp := Volume.setFile_setFile (v.channels c).f (fun x => { x with de := x.de.setFileSize n })
        (fun x => { x with deChanged := true }) v
      exact hcomp.symm ▸ hset
    · change ((v.setFile (v.channels c).f fun x => { x with de := x.de.setFileSize n }).files (v.channels c).f).de.isDir =
        false
      rw [Volume.setFile_self]
      exact (isDir_de_congr (setFileSize_below _ n (by omega))).trans h.regular
    · rw [List.append_nil, setChain_same]
    · exact Nat.zero_add _
    · exact ⟨_, books_setFile _ _ v, rfl⟩
  · rw [if_neg fun hc => hgrow hc.2, Nat.max_eq_left (Nat.le_of_lt (Nat.lt_of_not_le hgrow))]
    exact ⟨.of_still h h.still_refl, rfl⟩

theorem SectorFound.room {g : Geometry} {l : List ℕ} (h : SectorFound g false l i k (some s)) :
    (i + 1) * g.bytesPerSector ≤ l.length * g.bytesPerCluster := by
  obtain ⟨hlt, -⟩ := List.getElem?_eq_some_iff.mp (h.2 rfl)
  rw [Nat.div_lt_iff_lt_mul (sectorsPerCluster_pos g)] at hlt
  rw [bytesPerCluster_eq, ← Nat.mul_assoc]
  exact Nat.mul_le_mul_right _ hlt

theorem bytesAt_overlay (a : ℕ) (bytes : List UInt8) (m : ℕ → UInt8) :
    bytesAt (overlay a bytes m) a bytes.length = bytes := by
  apply List.ext_getElem
  · rw [length_bytesAt]
  · intro j hj hj'
    simp only [bytesAt, List.getElem_map, List.getElem_range]
    rw [overlay_at hj', List.getD_eq_getElem?_getD, List.getElem?_eq_getElem hj']
    rfl

theorem Writes.store (bytes : List UInt8) (hint : Option ℕ) (h : Writes G v c) (hfound : SectorFound v.geo false (G.chain (v.home c)) i k (some s))
    (hlen : o + bytes.length ≤ v.geo.bytesPerSector) (h0 : 0 < bytes.length)
    (hhint : ∀ j, hint = some j → j < v.cache.numBuffers) (writeThrough : Bool) :
    ∃ r x y w, (fatReadbuf s hint).run v = (.ok r, x) ∧ (bufWrite r.1 (r.2 + o) bytes).run x = (.ok (), y) ∧
      (fatDirtybuf r.1 writeThrough).run y = (.ok (), w) ∧
      Written G v c (i * v.geo.bytesPerSector + o) bytes G w ∧ w.files = v.files ∧ r.1 < v.cache.numBuffers := by
  obtain ⟨r, x, y, w, h1, h2, h3, hw, hr⟩ := storeBytes_run h.sound.media (hfound.lt h.sound.geo h.chained.range) hint
    hhint o bytes (by omega) hlen writeThrough
  have hfiles : w.files = v.files := by
    rw [hw.eq]
    rfl
  have hch := hw.channels
  -- only places of the file are stored to
  have hplace : ∀ p, (∀ j < bytes.length, placeOf v.geo false (G.chain (v.home c)) (i * v.geo.bytesPerSector + o + j) ≠
      some p) → w.byte p = v.byte p := by
    intro p hp
    rw [hw.byte, overlay]
    split
    · rename_i hin
      have hat := hfound.1 (o + (p - (s * v.geo.bytesPerSector + o))) (by omega)
      refine absurd ?_ (hp (p - (s * v.geo.bytesPerSector + o)) (by omega))
      rw [Nat.add_assoc, hat]
      congr 1
      omega
    · rfl
  have hslots : SameSlots G v.geo v.byte (overlay (s * v.geo.bytesPerSector + o) bytes v.byte) := by
    refine h.tidy.order.sameSlots_of_file h.sound.geo h.owner h.not_dir fun p hp => ?_
    rw [← hw.byte]
    apply hplace
    intro j _ hat
    refine hp (i * v.geo.bytesPerSector + o + j) ?_
    rw [Layout.at, posAddr_eq]
    change placeOf v.geo (decide (v.home c = 0 ∧ v.geo.rootCluster = 0)) _ _ = _
    rw [decide_eq_false h.not_fixed]
    exact hat
  have htidy : Tidy G (w.mark (v.channels c).f) := by
    refine h.tidy.recached (hw.mark _) hslots fun p hp => ?_
    rw [← hw.byte]
    apply hplace
    intro j _ hat
    have := h.place_le hat
    exact absurd hp (Nat.not_lt.mpr this)
  have hroom := hfound.room
  rw [Nat.add_mul, Nat.one_mul] at hroom
  refine ⟨r, x, y, w, h1, h2, h3, ⟨⟨⟨?_, h.usable.of_books hw.books, ?_, ?_⟩, ⟨[], ?_, ?_⟩, ?_⟩, fun _ => ?_, ?_,
    fun p _ hp => hplace p hp⟩, hfiles, hr⟩
  · rw [hch]
    exact htidy
  · rw [hfiles, hch]
    exact h.regular
  · rw [hch]
    exact h.current
  · rw [List.append_nil, setChain_same]
  · rw [show w.freeClusters = v.freeClusters from congrArg Books.freeClusters hw.books]
    exact Nat.zero_add _
  · refine ⟨(Fat.books v).file (v.channels c).f, ?_, rfl⟩
    rw [Books.setFile_same, show w.freeClusters = v.freeClusters from congrArg Books.freeClusters hw.books, hw.books]
    rfl
  · omega
  · rw [← hfound.slice hlen, hw.byte, bytesAt_overlay]

theorem Appended.mark {y : ℕ} (h : Appended G v c y w) :
    Appended G (v.mark (v.channels c).f) c y (w.mark (v.channels c).f) where
  range := h.range
  free := h.free
  sound := h.sound.mark _
  books := by
    rw [books_mark, books_mark, home_mark, h.books]
    change _ = (((Fat.books v).setFile (v.channels c).f _).appended (v.channels c).f _ y)
    unfold Books.appended
    by_cases hnil : G.chain (v.home c) = []
    · simp [hnil, Books.setFile, FileInfo.startAt]
    · simp [hnil, Books.setFile]
  outside := h.outside
  entry := by
    rw [home_mark]
    exact h.entry

theorem Writes.appended {y : ℕ} (h : Writes G v c) (ha : Appended G v c y w) (hch : w.channels = v.channels) :
    Grown G v c (G.setChain (v.home c) (G.chain (v.home c) ++ [y]) G.loose) w ∧ w.freeClusters + 1 = v.freeClusters ∧
      (w.files (v.channels c).f).de.fileSize = (v.files (v.channels c).f).de.fileSize := by
  have hinfo : (w.files (v.channels c).f).info = if G.chain (v.home c) = [] then
      (v.files (v.channels c).f).info.startAt y else (v.files (v.channels c).f).info := by
    have hfile := congrFun (congrArg Books.file ha.books) (v.channels c).f
    exact hfile.trans (Books.setFile_self ..)
  have hde : ∀ i, i < 20 ∨ 28 ≤ i → (w.files (v.channels c).f).de i = (v.files (v.channels c).f).de i := by
    intro i hi
    have hinfo' := congrArg FileInfo.de hinfo
    change (w.files (v.channels c).f).de = _ at hinfo'
    rw [hinfo']
    by_cases hnil : G.chain (v.home c) = []
    · rw [if_pos hnil]
      rcases hi with hi | hi
      · exact setFirstCluster_other _ _ hi
      · exact setFirstCluster_above _ _ hi
    · rw [if_neg hnil]
      rfl
  have hfree : w.freeClusters + 1 = v.freeClusters := by
    have hpos := zeros_pos ha.range ha.free
    have hw : w.freeClusters = v.freeClusters - 1 := congrArg Books.freeClusters ha.books
    have hv := h.chained.free
    omega
  refine ⟨⟨⟨?_, ha.usable h.usable _ rfl, ?_, ?_⟩, ⟨[y], rfl, ?_⟩, ?_⟩, hfree, ?_⟩
  · rw [hch]
    have hgrows : Layout.Grows G (v.mark (v.channels c).f).geo (v.mark (v.channels c).f).byte
        ((v.mark (v.channels c).f).home c) (G.chain ((v.mark (v.channels c).f).home c) ++ [y]) G.loose := by
      rw [home_mark]
      exact .of_file h.not_dir _
    have htidy := ha.mark.tidy h.tidy.order h.usable_mark (.refl h.tidy) hch hgrows h.current
    rwa [home_mark] at htidy
  · rw [hch]
    exact (isDir_de_congr (hde 11 (by omega))).trans h.regular
  · rw [hch]
    exact h.current
  · rw [List.length_singleton]
    omega
  · refine ⟨if G.chain (v.home c) = [] then (v.files (v.channels c).f).info.startAt y
      else (v.files (v.channels c).f).info, ?_, ?_⟩
    · rw [show w.freeClusters = v.freeClusters - 1 from congrArg Books.freeClusters ha.books]
      exact ha.books
    · split <;> rfl
  · simp only [Direntry.fileSize, get32, get16]
    rw [hde 28 (by omega), hde (28 + 1) (by omega), hde (28 + 2) (by omega), hde (28 + 2 + 1) (by omega)]

def capacity (G : Layout) (v : Volume) (c : ℕ) : ℕ :=
  ((G.chain (v.home c)).length + v.freeClusters) * v.geo.bytesPerCluster

theorem Grown.capacity (h : Grown G v c G' w) : capacity G' w c = capacity G v c := by
  obtain ⟨l, hG, hl⟩ := h.chain
  rw [Fat.capacity, Fat.capacity, h.geo, h.home, hG, Layout.setChain_self, List.length_append, ← hl, Nat.add_assoc]

theorem writeSlice_add (buffer : Option (List UInt8)) (k n j : ℕ) :
    writeSlice buffer k (n + j) = writeSlice buffer k n ++ writeSlice buffer (k + n) j := by
  cases buffer with
  | none => simp [writeSlice]
  | some b => simp [writeSlice, List.range_add, Function.comp_def, Nat.add_assoc]

/-- The size of a file of `s` bytes after `n` bytes have been stored at `pos`. -/
def sizeAfter (s pos n : ℕ) : ℕ := if n = 0 then s else max s (pos + n)

/-- The loop of `fat_do_write` on a regular file stores as much as there is room for, and fails when there is none for
the first byte. -/
theorem doWriteLoop_file (buffer : Option (List UInt8)) (k offset : ℕ) (hint : Option ℕ) (fuel : ℕ) (h : Writes G v c) (hk : k ≤ size)
    (hend : offset + (size - k) < 2 ^ 32) (hhint : ∀ j, hint = some j → j < v.cache.numBuffers)
    (hfuel : size - k + v.freeClusters < fuel) :
    ((k = 0 ∧ 0 < size ∧ capacity G v c ≤ offset) ∧
      ∃ w, (doWriteLoop c buffer size fuel k offset hint).run v = (.error .enospc, w)) ∨
    (¬(k = 0 ∧ 0 < size ∧ capacity G v c ≤ offset) ∧ ∃ n G' w, n = min (size - k) (capacity G v c - offset) ∧
      (doWriteLoop c buffer size fuel k offset hint).run v = (.ok (k + n), w) ∧
      Written G v c offset (writeSlice buffer k n) G' w ∧
      (w.files (v.channels c).f).de.fileSize = sizeAfter (v.files (v.channels c).f).de.fileSize offset n) := by
  induction fuel generalizing G v k offset hint with
  | zero => omega
  | succ fuel ih =>
    rw [doWriteLoop]
    by_cases hdone : k ≥ size
    · rw [if_pos hdone]
      refine .inr ⟨by omega, 0, G, v, by omega, rfl, ?_, rfl⟩
      have hnil : writeSlice buffer k 0 = [] := List.eq_nil_of_length_eq_zero (length_writeSlice ..)
      rw [hnil]
      exact .of_grown (.of_still h h.still_refl) (fun _ _ => rfl) _
    · rw [if_neg hdone, run_bind_state]
      have hbps := bytesPerSector_pos v.geo
      have hmod := Nat.mod_lt offset hbps
      have hdm : offset / v.geo.bytesPerSector * v.geo.bytesPerSector + offset % v.geo.bytesPerSector = offset := by
        rw [Nat.mul_comm]
        exact Nat.div_add_mod _ _
      obtain ⟨r, x, hrun, hx, -, -, hon, hfound⟩ := fatGetFileSector_run h.sound h.onChain
        (offset / v.geo.bytesPerSector)
      have hroot : v.atFixedRoot c = false := h.chained.notFixed
      have hstill : Still G v x := h.still_refl.onChain hx hon
      have hxw : Writes G x c := h.still hstill
      have hxgrown : Grown G v c G x := .of_still h hstill
      have hxf : (x.channels c).f = (v.channels c).f := hx.file
      have hxde : (x.files (v.channels c).f).de = (v.files (v.channels c).f).de := by rw [hx.files]
      have hxfree : x.freeClusters = v.freeClusters := congrArg Books.freeClusters hstill.books
      have hxnum : x.cache.numBuffers = v.cache.numBuffers := hx.shape.num
      rw [hroot] at hfound
      rw [run_bind_ok hrun]
      cases r with
      | none =>
        obtain ⟨hlen, hlast⟩ := hfound.2 rfl
        have hpast : (G.chain (v.home c)).length * v.geo.bytesPerCluster ≤ offset := by
          have hsec := (Nat.le_div_iff_mul_le (sectorsPerCluster_pos v.geo)).mp hlen
          have := Nat.mul_le_mul_right v.geo.bytesPerSector hsec
          rw [bytesPerCluster_eq, ← Nat.mul_assoc]
          omega
        have hlast' : G.chain (x.home c) ≠ [] → (G.chain (x.home c)).getLast? = some (x.channels c).cluster := by
          rw [hstill.home]
          exact hlast
        rcases fatAppendCluster_run hxw.chained hxw.still_refl hlast' with ⟨y, z, hrun', ha, hch⟩ | ⟨⟨z, hrun', hz⟩, hfull⟩
        · obtain ⟨hgrown, hfree, hsize⟩ := hxw.appended ha hch
          have hall := hxgrown.trans hgrown
          have hbyte : ∀ p, v.geo.rootSector * v.geo.bytesPerSector ≤ p → z.byte p = v.byte p := by
            intro p hp
            rw [← hx.byte]
            exact ha.outside p (by rw [hx.geo]; exact hp)
          have hih := ih k offset hint hall.writes hk hend (by rw [hall.numBuffers]; exact hhint) (by omega)
          rw [hall.capacity, hall.channelFile] at hih
          rw [run_bind_ok (run_attempt_ok hrun')]
          rw [hxf, hxde] at hsize
          rw [hsize] at hih
          rcases hih with hfull | ⟨hcond, n, G₁, w, hn, hloop, hst, hw⟩
          · exact .inl hfull
          · exact .inr ⟨hcond, n, G₁, w, hn, hloop, hst.after hall hbyte, hw⟩
        · have hcap : capacity G v c ≤ offset := by
            rw [capacity, ← hxfree, hfull, Nat.add_zero]
            exact hpast
          rw [run_bind_ok (run_attempt_error hrun')]
          dsimp only
          by_cases hk0 : k = 0
          · rw [if_neg fun hc => hc.2 hk0]
            exact .inl ⟨⟨hk0, by omega, hcap⟩, z, rfl⟩
          · rw [if_pos ⟨rfl, hk0⟩]
            have hvz := hstill.trans hz
            have hnil : writeSlice buffer k 0 = [] := List.eq_nil_of_length_eq_zero (length_writeSlice ..)
            refine .inr ⟨fun hc => hk0 hc.1, 0, G, z, by omega, rfl, ?_, ?_⟩
            · rw [hnil]
              exact .of_grown (.of_still h hvz) (fun p _ => congrFun hvz.byte p) _
            · exact congrArg Direntry.fileSize (congrArg FileInfo.de (hvz.file _))
      | some s =>
        dsimp only
        generalize hn₁ : (if k + (v.geo.bytesPerSector - offset % v.geo.bytesPerSector) > size then size - k
          else v.geo.bytesPerSector - offset % v.geo.bytesPerSector) = n₁
        have hn₁' : 0 < n₁ ∧ k + n₁ ≤ size ∧ offset % v.geo.bytesPerSector + n₁ ≤ v.geo.bytesPerSector := by
          rw [← hn₁]
          split <;> omega
        have hne : G.chain (x.home c) ≠ [] := by
          rw [hstill.home]
          intro hnil
          have hat := hfound.2 rfl
          rw [hnil] at hat
          cases hat
        obtain ⟨hgrown, hsize⟩ := hxw.growTo hne (n := offset + n₁) (by omega)
        have hall := hxgrown.trans hgrown
        have hgrow : (Prog.update (fun v => if hasAttr (v.files (v.channels c).f).de.attr fatADir = false ∧
            offset + n₁ ≥ (v.files (v.channels c).f).de.fileSize
            then v.setFile (v.channels c).f fun f => { f with de := f.de.setFileSize (offset + n₁) }
            else v) : FatM Unit).run x = (.ok (), x.growTo c (offset + n₁)) := rfl
        have hfound' : SectorFound (x.growTo c (offset + n₁)).geo false (G.chain ((x.growTo c (offset + n₁)).home c))
            (offset / v.geo.bytesPerSector) (x.channels c).cluster (some s) := by
          rw [hall.geo, hall.home]
          exact hfound
        obtain ⟨b, y, z, t, h1, h2, h3, hst, hfiles, hb⟩ := hall.writes.store (writeSlice buffer k n₁) hint hfound'
          (o := offset % v.geo.bytesPerSector) (by rw [hall.geo, length_writeSlice]; exact hn₁'.2.2)
          (by rw [length_writeSlice]; exact hn₁'.1) (by rw [hall.numBuffers]; exact hhint)
          (hasFlag (v.channels c).flags oFsync)
        rw [run_bind_ok hgrow, run_bind_ok h1, run_bind_ok h2, run_bind_ok h3]
        rw [hall.geo, hdm] at hst
        have hgbyte : (x.growTo c (offset + n₁)).byte = v.byte := by
          have hsame : (x.growTo c (offset + n₁)).byte = x.byte := by
            unfold Volume.growTo
            split <;> rfl
          rw [hsame, hx.byte]
        have hst' := hst.after hall fun p _ => congrFun hgbyte p
        have hfree : t.freeClusters ≤ v.freeClusters := by
          obtain ⟨l, -, hl⟩ := hst'.chain
          omega
        have hroom := hst'.room (List.ne_nil_of_length_pos (by rw [length_writeSlice]; exact hn₁'.1))
        rw [length_writeSlice] at hroom
        have hcap : (G.chain (v.home c)).length * v.geo.bytesPerCluster ≤ capacity G v c :=
          Nat.mul_le_mul_right _ (Nat.le_add_right _ _)
        have hih := ih (k + n₁) (offset + n₁) (some b.1) hst'.writes hn₁'.2.1 (by omega) (by
          rintro _ ⟨⟩
          rw [hst.numBuffers]
          exact hb) (by omega)
        rw [hst'.capacity, hst'.channelFile, hfiles] at hih
        rw [hxf, hxde] at hsize
        rw [hsize] at hih
        rcases hih with ⟨hcond, -⟩ | ⟨-, n, G₁, w, hn, hloop, hrest, hw⟩
        · omega
        · refine .inr ⟨by omega, n₁ + n, G₁, w, by omega, ?_, ?_, ?_⟩
          · rw [hloop, Nat.add_assoc]
          · rw [writeSlice_add]
            refine hst'.append ?_
            rw [length_writeSlice]
            exact hrest
          · rw [hw, sizeAfter, sizeAfter, if_neg (by omega : ¬n₁ + n = 0)]
            split <;> omega

section Stamp

variable (now : DosStamp)

/-- What `fat_do_write` does to an entry when it is done. -/
def stampEntry (de : Direntry) : Direntry :=
  let de := ((de.setModTime now.time).setModDate now.date).setAccDate now.date
  de.setAttr (de.attr ||| fatAArchiv)

theorem stampModified_eq (x : File) : x.stampModified now = { x with de := stampEntry now x.de, deChanged := true } := rfl

theorem stampEntry_other (de : Direntry) (h₁ : i ≠ 11) (h₂ : ¬(18 ≤ i ∧ i < 20)) (h₃ : ¬(22 ≤ i ∧ i < 26)) :
    stampEntry now de i = de i := by
  have h₄ : ¬(24 ≤ i ∧ i < 24 + (le16 now.date).length) := fun h => h₃ (by simp [le16] at h; omega)
  have h₅ : ¬(22 ≤ i ∧ i < 22 + (le16 now.time).length) := fun h => h₃ (by simp [le16] at h; omega)
  have h₆ : ¬(18 ≤ i ∧ i < 18 + (le16 now.date).length) := fun h => h₂ (by simp [le16] at h; omega)
  have h₇ : ¬(11 ≤ i ∧ i < 11 + 1) := by omega
  simp only [stampEntry, Direntry.setAttr, Direntry.setAccDate, Direntry.setModDate, Direntry.setModTime, overlay,
    if_neg h₄, if_neg h₅, if_neg h₆, List.length_singleton, if_neg h₇]

theorem attr_stampEntry (de : Direntry) : (stampEntry now de).attr = de.attr ||| fatAArchiv := by
  simp [stampEntry, Direntry.setAttr, Direntry.setAccDate, Direntry.setModDate, Direntry.setModTime, Direntry.attr, overlay]

theorem fileSize_stampEntry (de : Direntry) : (stampEntry now de).fileSize = de.fileSize := by
  simp only [Direntry.fileSize, get32, get16]
  rw [stampEntry_other now, stampEntry_other now, stampEntry_other now, stampEntry_other now] <;> omega

theorem firstCluster_stampEntry (de : Direntry) : (stampEntry now de).firstCluster = de.firstCluster := by
  simp only [Direntry.firstCluster, get16]
  rw [stampEntry_other now, stampEntry_other now, stampEntry_other now, stampEntry_other now] <;> omega

theorem Writes.stamp (h : Writes G v c) (t : ℕ) :
    Tidy G (({ v with ticks := t } : Volume).setFile (v.channels c).f (File.stampModified now)) := by
  have hmark : Tidy G (({ v with ticks := t } : Volume).mark (v.channels c).f) :=
    ⟨h.tidy.sound.of_same rfl rfl, h.tidy.order, h.tidy.cursors⟩
  have hset := hmark.setEntry (f := (v.channels c).f) (g := stampEntry now) h.usable.file h.usable.there h.current
    (fun i hi => stampEntry_other now _ (by omega) (by omega) (by omega))
    (by rw [attr_stampEntry, hasAttr_archiv _ (by decide)])
    (by rw [attr_stampEntry, hasAttr_archiv _ (by decide)])
    (firstCluster_stampEntry now _) fun hd h0 => by
      rw [fileSize_stampEntry] at h0
      exact (hmark.order.files.file _ h.usable.file h.usable.there).size hd h0
  rw [Volume.mark, Volume.setFile_setFile] at hset
  have hcomp : ((fun x : File => { x with de := stampEntry now x.de, deChanged := true }) ∘
      fun x => { x with deChanged := true }) = File.stampModified now := rfl
  rw [hcomp] at hset
  exact hset

end Stamp

theorem Grown.of_books (hw : Writes G w c) (y : FileInfo)
    (hb : Fat.books w = (Fat.books v).setFile (v.channels c).f y) (haddr : y.addr v.geo = v.home c) : Grown G v c G w where
  writes := hw
  chain := by
    refine ⟨[], by rw [List.append_nil, setChain_same], ?_⟩
    have hfree : w.freeClusters = v.freeClusters := congrArg Books.freeClusters hb
    rw [hfree, List.length_nil, Nat.zero_add]
  books := by
    have hfree : w.freeClusters = v.freeClusters := congrArg Books.freeClusters hb
    exact ⟨y, by rw [hb, hfree]; rfl, haddr⟩

theorem fatDoWrite_file (buffer : Option (List UInt8)) (h : Writes G v c) (hsize : 0 < size)
    (hfit : offset + size ≤ 0xFFFFFFFF) (hloop : 2 ^ 32 + v.geo.dataClusters ≤ v.geo.loopBound) :
    (capacity G v c ≤ offset ∧ ∃ w, (fatDoWrite c buffer size offset).run v = (.error .enospc, w)) ∨
    (offset < capacity G v c ∧ ∃ n G' w, n = min size (capacity G v c - offset) ∧
      (fatDoWrite c buffer size offset).run v = (.ok n, w) ∧ Tidy G' w ∧
      Written G v c offset (writeSlice buffer 0 n) G' w ∧
      (w.files (v.channels c).f).de.fileSize = max (v.files (v.channels c).f).de.fileSize (offset + n)) := by
  have hd : hasAttr (v.files (v.channels c).f).de.attr fatADir = false := h.regular
  have hfree : v.freeClusters ≤ v.geo.dataClusters := h.chained.free ▸ zeros_le _ _
  rw [fatDoWrite, run_bind_state]
  dsimp only
  rw [if_neg (by omega), if_neg (fun hc => by rw [hd] at hc; exact absurd hc.1 (by decide)), if_neg (by omega)]
  rcases doWriteLoop_file buffer 0 offset none v.geo.loopBound h (Nat.zero_le size) (by omega) (by simp)
    (by omega) with ⟨⟨-, -, hcap⟩, w, hrun⟩ | ⟨hcond, n, G', w, hn, hrun, hst, hw⟩
  · rw [run_bind_error hrun]
    exact .inl ⟨hcap, w, rfl⟩
  · rw [Nat.sub_zero] at hn
    have hroom : offset < capacity G v c := by omega
    have hn0 : n ≠ 0 := by omega
    rw [Nat.zero_add] at hrun
    have hf : (w.channels c).f = (v.channels c).f := hst.channelFile c
    -- the time stamps
    let y : Volume := ({ w with ticks := w.ticks + 1 } : Volume).setFile (w.channels c).f
      (File.stampModified (w.env.clock w.ticks))
    have hstamp : (do
        let now ← fatTimestamps
        Prog.update (Volume.setFile (v.channels c).f (File.stampModified now)) : FatM Unit).run w = (.ok (), y) := by
      rw [← hf]
      rfl
    have htidy : Tidy G' y := hst.writes.stamp _ _
    have hyfile : y.files (w.channels c).f = (w.files (w.channels c).f).stampModified (w.env.clock w.ticks) :=
      Volume.setFile_self ..
    have hyw : Writes G' y c := by
      refine .of_tidy htidy ⟨hst.writes.usable.channel, hst.writes.usable.file, hst.writes.usable.there⟩ ?_
        hst.writes.current
      change (y.files (w.channels c).f).de.isDir = false
      rw [hyfile, stampModified_eq, Direntry.isDir, attr_stampEntry, hasAttr_archiv _ (by decide)]
      exact hst.writes.regular
    have hygrown : Grown G' w c G' y := .of_books hyw _ (books_setFile _ _ _) rfl
    have hysize : (y.files (v.channels c).f).de.fileSize = max (v.files (v.channels c).f).de.fileSize (offset + n) := by
      rw [← hf, hyfile, stampModified_eq, fileSize_stampEntry, hf, hw, sizeAfter, if_neg hn0]
    have hyst : Written G v c offset (writeSlice buffer 0 n) G' y := by
      have happ := hst.append (.of_grown hygrown (fun _ _ => rfl) _)
      rwa [List.append_nil] at happ
    rw [run_bind_ok hrun, when_pos hd, run_bind_ok hstamp]
    refine .inr ⟨hroom, n, G', ?_⟩
    by_cases hsync : hasFlag (v.channels c).flags oSync = true
    · obtain ⟨z, hrun', hz, hzb, hzbyte, -⟩ := fatSync_tidy htidy
      have hzgrown : Grown G' y c G' z := .of_still hyw ⟨hz.sound, hzb, hzbyte, hz.cursors⟩
      have happ := hyst.append (.of_grown hzgrown (fun p _ => congrFun hzbyte p) _)
      rw [List.append_nil] at happ
      rw [when_pos hsync, run_bind_ok hrun']
      refine ⟨z, hn, rfl, hz, happ, ?_⟩
      rw [← hysize]
      exact congrArg (fun b : Books => (b.file (v.channels c).f).de.fileSize) hzb
    · rw [when_neg hsync]
      exact ⟨y, hn, rfl, htidy, hyst, hysize⟩

end FreeDos32.Fat
