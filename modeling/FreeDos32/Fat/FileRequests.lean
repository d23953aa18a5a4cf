import FreeDos32.Fat.Closing
import FreeDos32.Fat.FileShown
import FreeDos32.Fat.Mount

namespace FreeDos32.Fat

open Prog

variable {G G' : Layout} {s t : FileStore} {v w : Volume} {c f k n pos length : ℕ} {new data : List UInt8}

theorem WellFormed.not_gone (h : WellFormed G v) (f : ℕ) : f ∉ G.goneFiles := by
  rw [h.settled.goneFiles]
  exact Set.notMem_empty _

/-- Nothing of the files has changed but what the entry of one of them says besides its size. -/
theorem Changed.of_books {y : FileInfo} (h : WellFormed G v) (hc : Usable G v c)
    (hd : (v.files (v.channels c).f).de.isDir = false) (hw : Tidy G w)
    (hb : books w = (books v).setFile (v.channels c).f y) (haddr : y.addr v.geo = v.home c) (hdir : y.de.isDir = false)
    (hsize : y.de.fileSize = (v.files (v.channels c).f).de.fileSize)
    (hbyte : ∀ p, v.geo.rootSector * v.geo.bytesPerSector ≤ p → w.byte p = v.byte p) :
    Changed G v c (contents G v (v.channels c).f) G w := by
  have hgeo : w.geo = v.geo := congrArg Books.geo hb
  have hf : (w.channels c).f = (v.channels c).f := congrArg (fun b : Books => (b.channel c).f) hb
  have hopen : w.filesOpen = v.filesOpen := congrArg Books.filesOpen hb
  have hchannels : w.channelsOpen = v.channelsOpen := congrArg Books.channelsOpen hb
  have hself : (w.files (v.channels c).f).info = y :=
    (congrArg (fun b : Books => b.file (v.channels c).f) hb).trans (Books.setFile_self ..)
  have hne : ∀ {k}, k ≠ (v.channels c).f → (w.files k).info = (v.files k).info := fun hk =>
    (congrArg (fun b : Books => b.file _) hb).trans (Books.setFile_ne hk y)
  have hplace : ∀ k, (books w).fileAddr k = (books v).fileAddr k := fun k => by
    rw [hb]
    exact Books.setFile_addr haddr k
  have hstale : (v.channels c).f ∉ G.stale := by
    rw [h.settled.stale]
    exact Set.notMem_empty _
  have hregular : (w.files (v.channels c).f).de.isDir = false := by
    rw [show (w.files (v.channels c).f).de = y.de from congrArg FileInfo.de hself]
    exact hdir
  have hwsize : (w.files (v.channels c).f).de.fileSize = (v.files (v.channels c).f).de.fileSize := by
    rw [show (w.files (v.channels c).f).de = y.de from congrArg FileInfo.de hself]
    exact hsize
  have hwrites : Writes G w c := by
    refine .of_tidy hw ⟨hchannels ▸ hc.channel, ?_, ?_⟩ ?_ ?_
    · rw [hf, hopen]
      exact hc.file
    · rw [hf]
      exact hc.there
    · rw [hf]
      exact hregular
    · rw [hf]
      exact hstale
  refine ⟨.of_books hwrites y hb haddr, ⟨hw, h.settled, fun g hg hgd => ?_⟩, ?_, fun a ha hne => ⟨rfl, fun q p hat => ?_⟩⟩
  · rw [hplace, hgeo]
    by_cases hgf : g = (v.channels c).f
    · rw [hgf, hwsize]
      exact h.full _ hc.file hd
    · have hde : (w.files g).de = (v.files g).de := congrArg FileInfo.de (hne hgf)
      rw [hde] at hgd ⊢
      exact h.full g (hopen ▸ hg) hgd
  · rw [contents, contents, hgeo, hplace, hwsize]
    apply fileSlice_congr
    intro i _
    cases hp : placeOf v.geo false (G.chain ((books v).fileAddr (v.channels c).f)) (0 + i) with
    | none => rfl
    | some p => exact hbyte p ((h.writes hc hd).place_le hp)
  · exact hbyte p (h.sound.geo.posAddr_le hat)

section Read

/-- What `stampAccessed` makes of an entry. -/
theorem setAccDate_other (de : Direntry) (d : ℕ) {i : ℕ} (hi : ¬(18 ≤ i ∧ i < 20)) : de.setAccDate d i = de i := by
  rw [Direntry.setAccDate, overlay, if_neg]
  simpa [le16] using hi

theorem fileSize_setAccDate (de : Direntry) (d : ℕ) : (de.setAccDate d).fileSize = de.fileSize := by
  simp only [Direntry.fileSize, get32, get16]
  rw [setAccDate_other, setAccDate_other, setAccDate_other, setAccDate_other] <;> omega

theorem firstCluster_setAccDate (de : Direntry) (d : ℕ) : (de.setAccDate d).firstCluster = de.firstCluster := by
  simp only [Direntry.firstCluster, get16]
  rw [setAccDate_other, setAccDate_other, setAccDate_other, setAccDate_other] <;> omega

variable (h : WellFormed G v) (hc : Usable G v c) (hd : (v.files (v.channels c).f).de.isDir = false)

include h hc hd

theorem stampAccessed_changed : ∃ w, (stampAccessed (v.channels c).f).run v = (.ok (), w) ∧
    Changed G v c (contents G v (v.channels c).f) G w := by
  refine ⟨({ v with ticks := v.ticks + 1 } : Volume).setFile (v.channels c).f fun f =>
    { f with de := f.de.setAccDate (v.env.clock v.ticks).date, deChanged := true }, rfl, ?_⟩
  have hticks : Tidy G ({ v with ticks := v.ticks + 1 } : Volume) := ⟨h.sound.of_same rfl rfl, h.order, h.cursors⟩
  have hattr : ∀ bit, hasAttr ((v.files (v.channels c).f).de.setAccDate (v.env.clock v.ticks).date).attr bit =
      hasAttr (v.files (v.channels c).f).de.attr bit := fun bit =>
    congrArg (hasAttr · bit) (setAccDate_other _ _ (by omega))
  have htidy := hticks.setEntry (f := (v.channels c).f) (g := fun de => de.setAccDate (v.env.clock v.ticks).date)
    hc.file hc.there (by rw [h.settled.stale]; exact Set.notMem_empty _) (fun i hi => setAccDate_other _ _ (by omega))
    (hattr _) (hattr _) (firstCluster_setAccDate _ _) fun hreg hpos => by
      rw [fileSize_setAccDate] at hpos
      exact (h.order.files.file _ hc.file hc.there).size hreg hpos
  refine .of_books h hc hd htidy (books_setFile _ _ ({ v with ticks := v.ticks + 1 } : Volume)) rfl ?_ ?_ fun _ _ => rfl
  · exact (hattr _).trans hd
  · exact fileSize_setAccDate _ _

theorem fatRead_changed (hr : (v.channels c).Reads) (n : ℕ) : ∃ w,
    (fatRead c n).run v = (.ok (((contents G v (v.channels c).f).drop (v.channels c).filePointer).take n),
      w.setChannel c fun x => { x with
        filePointer := (v.channels c).filePointer +
          (((contents G v (v.channels c).f).drop (v.channels c).filePointer).take n).length }) ∧
      Changed G v c (contents G v (v.channels c).f) G w ∧ skeleton w = skeleton v ∧ pointers w = pointers v := by
  have hroot : v.atFixedRoot c = false := (h.writes hc hd).chained.notFixed
  have hfull : (v.files (v.channels c).f).de.fileSize ≤ (G.chain (v.home c)).length * v.geo.bytesPerCluster :=
    h.full _ hc.file hd
  obtain ⟨x, hrun, -⟩ := readLoop_file n 0 (v.channels c).filePointer none n h.sound
    (hc.onChain h.order (.refl h.toTidy)) hroot hd hfull (by simp) (by omega)
  have hstill := readLoop_still h.order hc n n 0 (v.channels c).filePointer
    (fun k (hk : none = some k) => nomatch hk) v (.refl h.toTidy)
  have hsk := Neutral.skeleton (Neutral.readLoop c n n 0 (v.channels c).filePointer none) v
  have hpt := Unmoving.readLoop c n n 0 (v.channels c).filePointer none v
  have hdata : fileSlice v.geo (G.chain (v.home c)) v.byte (v.channels c).filePointer
      (min (n - 0) ((v.files (v.channels c).f).de.fileSize - (v.channels c).filePointer)) =
      ((contents G v (v.channels c).f).drop (v.channels c).filePointer).take n := by
    rw [contents, drop_take_fileSlice, Nat.sub_zero]
    rfl
  rw [hdata] at hrun
  rw [hrun] at hstill hsk hpt
  have hx : Changed G v c (contents G v (v.channels c).f) G x := .of_still h hc hd hstill
  have hno : ¬((v.channels c).magic = false ∨ (v.channels c).isNotReadable = true) := by
    rw [hr.magic, hr.readable]
    decide
  rw [fatRead, run_bind_state]
  dsimp only
  rw [if_neg hno, run_bind_ok hrun, run_bind_state]
  by_cases hstamp : hasFlag (v.channels c).flags oNoatime = false ∧ hasAttr (x.files (v.channels c).f).de.attr fatADir = false
  · have hf : (x.channels c).f = (v.channels c).f := hx.channelFile c
    obtain ⟨y, hrun', hy⟩ := stampAccessed_changed hx.wellFormed hx.writes.usable hx.writes.regular
    have hsk' := Neutral.skeleton (Neutral.stampAccessed (v.channels c).f) x
    have hpt' := Unmoving.stampAccessed (v.channels c).f x
    have hholds := hx.holds
    rw [hf] at hrun'
    rw [hf, hholds] at hy
    rw [hrun'] at hsk' hpt'
    rw [when_pos hstamp, run_bind_ok hrun']
    exact ⟨y, rfl, hx.trans hy, hsk'.trans hsk, hpt'.trans hpt⟩
  · rw [when_neg hstamp]
    exact ⟨x, rfl, hx, hsk, hpt⟩

end Read

section Truncate

theorem zeros_cut {g : Geometry} {m m' : ℕ → UInt8} {l : List ℕ} {j : ℕ} (hnum : g.activeFat < g.numFats)
    (hlinks : Links (table g m) fatEoc l) (hrange : ∀ k ∈ l, g.InRange k) (hnd : l.Nodup) (h : CutEntry g l j m m') :
    zeros g m' = zeros g m + (l.length - j) := by
  have hentry : ∀ i < g.dataClusters, table g m' (i + 2) =
      if i + 2 ∈ l.drop j then 0 else if (l.take j).getLast? = some (i + 2) then fatEoc else table g m (i + 2) :=
    fun i hi => h _ hnum _ (by omega)
  have hused : ∀ {x}, x ∈ l → table g m x ≠ 0 := fun hx => links_entry_ne_zero hlinks hrange hx
  have hsub := List.drop_sublist j l
  rw [zeros, zeros, ← List.length_drop, ← countP_mem (hnd.sublist hsub) (a := 2) (n := g.dataClusters) fun x hx => by
    have hx' := hrange x (hsub.subset hx)
    exact ⟨hx'.1, by have := hx'.2; omega⟩]
  apply countP_split
  · intro i hi
    rw [hentry i (List.mem_range.mp hi)]
    by_cases hdrop : i + 2 ∈ l.drop j
    · simp [hdrop]
    · by_cases hlast : (l.take j).getLast? = some (i + 2)
      · have hne := hused (List.mem_of_mem_take (List.mem_of_getLast? hlast))
        simp [hdrop, hlast, hne, fatEoc]
      · simp [hdrop, hlast]
  · intro i _ hzero
    rw [decide_eq_false_iff_not]
    intro hdrop
    exact hused (hsub.subset hdrop) (by simpa using hzero)

/-- Deleting what is behind the last cluster of a file changes the table at most. -/
theorem deleteNoCluster_frame (ho : Orderly G (books v) v.byte) (hc : Usable G v c) (hw : Still G v w)
    (hk : (G.chain (v.home c))[k]? = some n) (hend : (G.chain (v.home c)).length = k + 1)
    (hloop : v.geo.dataClusters ≤ v.geo.loopBound) :
    ∃ x, (fatDeleteFileClusters (v.channels c).f n).run w = (.error .enxio, x) ∧ Tidy G x ∧ books x = books v ∧
      ∀ p, v.geo.rootSector * v.geo.bytesPerSector ≤ p → x.byte p = v.byte p := by
  obtain ⟨x, hrun, htidy⟩ := deleteNoCluster_tidy ho hc hw hk hend hloop
  have hown := hc.owner ho
  have hrange := ho.chains.ok _ hown n (List.mem_of_getElem? hk)
  have hlast := (ho.chains.links _ hown).last hk hend
  have hn0 : n ≠ 0 := by
    have := hrange.1
    omega
  obtain ⟨y, hread, hy⟩ := readFatEntry_run hw.sound.media hw.sound.geo (n := n) (by rw [hw.geo]; exact hrange.2)
  have hys := hy.sound hw.sound
  have hystill := hw.recached hy
  have hg : GeoOk v.geo y.cache.deviceEnd := hystill.geo ▸ hys.geo
  obtain ⟨z, hwrite, hz⟩ := writeFatEntry_run hys.media hys.geo (n := n) (by rw [hystill.geo]; exact hrange.2) fatEoc
  have hentry : fatEntry w.geo w.byte w.geo.activeFat n = fatEoc := by
    rw [hw.geo, hw.byte]
    exact hlast
  have hzgeo : z.geo = v.geo := hz.geo.trans hystill.geo
  have hpast : z.geo.dataClusters + 1 < fatEoc := by
    have := hg.dataClusters_lt
    rw [hzgeo]
    unfold fatEoc
    omega
  obtain ⟨fuel, hfuel⟩ := Nat.exists_eq_succ_of_ne_zero (n := z.geo.loopBound) (by
    have hlow : 2 ≤ n := hrange.1
    have hhigh : n ≤ v.geo.dataClusters + 1 := hrange.2
    rw [hzgeo]
    omega)
  have hrest := hrun
  rw [fatDeleteFileClusters, run_bind_state, if_pos hn0, run_bind_ok hread, run_bind_ok hwrite, hentry, fatDeleteClusters,
    run_bind_state, hfuel, deleteClustersLoop, run_bind_error (readFatEntry_past hpast)] at hrest
  have hzx : z = x := congrArg Prod.snd hrest
  subst hzx
  refine ⟨z, hrun, htidy, hz.books.trans hystill.books, fun p hp => ?_⟩
  rw [hz.byte, hystill.geo, hystill.byte]
  exact storeEntry_outside hg hrange.2 hp

variable (h : WellFormed G v) (hc : Usable G v c) (hd : (v.files (v.channels c).f).de.isDir = false)

include h hc hd in
/-- A file that keeps its last cluster keeps its bytes too: there is nothing to delete behind that cluster. -/
theorem fatFtruncate_kept (hw : Writable v c) (hlen : length < (v.files (v.channels c).f).de.fileSize)
    (hkeep : ¬clustersFor v.geo length < (G.chain (v.home c)).length) (hloop : v.geo.dataClusters ≤ v.geo.loopBound) :
    ∃ w, (fatFtruncate c length).run v = (.error .enxio, w) ∧ Changed G v c (contents G v (v.channels c).f) G w := by
  have hle := Shortened.clusters_le h hc hd hlen
  have hall : (G.chain (v.home c)).length = clustersFor v.geo length := by omega
  have h0 : length ≠ 0 := by
    rintro rfl
    have hne := clustersFor_ne_zero v.geo (Nat.ne_of_gt hlen)
    have hfull := (clustersFor_le_iff v.geo).mpr (h.full _ hc.file hd)
    rw [clustersFor_zero] at hall
    change clustersFor v.geo (v.files (v.channels c).f).de.fileSize ≤ (G.chain (v.home c)).length at hfull
    omega
  obtain ⟨k, x, hrun, hx, -, hlast⟩ := lastClusterFor_run h hc hd hle
  have hpos := Nat.pos_of_ne_zero (clustersFor_ne_zero v.geo h0)
  obtain ⟨w, hrun', htidy, hb, hbyte⟩ := deleteNoCluster_frame h.order hc hx (hlast h0) (by omega) hloop
  refine ⟨w, ?_, ?_⟩
  · rw [fatFtruncate_run hw, if_pos hlen, run_bind_ok hrun, run_bind_error hrun']
  · refine .of_books h hc hd htidy (y := (books v).file (v.channels c).f) ?_ rfl hd rfl hbyte
    rw [Books.setFile_same]
    exact hb

theorem Shows.shortened (h : Shows G s v) (hc : c ∈ s.opened) (hs : Shortened G v c n w)
    (hn : n < s.size (s.handles c).file) (hcut : s.need n < s.clusters (s.handles c).file)
    (hsk : skeleton w = skeleton v) (hpt : pointers w = pointers v) :
    Shows (Shortened.layout G v c n) (s.hold (s.handles c).file ((s.bytes (s.handles c).file).take n) (s.need n)) w := by
  have husable := h.usable hc
  have hreg := h.regular hc
  have hf := h.channelFile hc
  have hlt : n < (v.files (v.channels c).f).de.fileSize := by
    rw [h.size hc]
    exact hn
  have hbig : (v.files (v.channels c).f).de.fileSize < 2 ^ 32 := get32_lt _ 28
  have hresized := hs.resized h.wellFormed husable hreg hlt (by omega)
  have hown := husable.owner h.wellFormed.order
  have hgeo := hs.geo
  obtain ⟨now, hb⟩ := hs.books
  have hself : (books w).fileAddr (v.channels c).f = v.home c := hs.fileAddr _
  have hchain : (Shortened.layout G v c n).chain (v.home c) = Shortened.rest G v c n := Layout.setChain_self ..
  have hrest : (Shortened.rest G v c n).length = s.need n := by
    rw [Shortened.length_rest h.wellFormed husable hreg hlt, h.clustersFor]
  rw [← hf]
  refine h.step (hs.wellFormed h.wellFormed husable hreg hlt h.files) hsk hpt ?_ ?_ ⟨?_, ?_⟩ ?_
  · have hzeros : w.freeClusters = zeros v.geo w.byte := congrArg Books.freeClusters hb
    have hold : v.freeClusters = zeros v.geo v.byte := h.wellFormed.order.free
    have hchains := h.wellFormed.order.chains
    have hcount := zeros_cut h.wellFormed.sound.geo.active (hchains.links _ hown) (hchains.ok _ hown)
      (hchains.nodup _ hown) hs.entry
    have hlen := h.chain hc
    have hfree := h.free
    rw [h.clustersFor] at hcount
    change w.freeClusters = s.free + s.clusters (v.channels c).f - s.need n
    rw [hf]
    omega
  · intro g
    by_cases hg : g = (v.channels c).f
    · obtain ⟨now', hfile⟩ := hs.file
      rw [hg, show (w.files (v.channels c).f).de = _ from congrArg FileInfo.de hfile, Direntry.isDir, attr_shortenedInfo,
        hasAttr_archiv _ (by decide)]
      rfl
    · exact congrArg (fun x : FileInfo => x.de.isDir) (hs.file_ne hg)
  · have hholds := hs.holds h.wellFormed husable hreg hlt
    rw [contents, hresized.size, hself, hchain, hholds, h.holds hc, hf]
  · rw [hself, hchain, hrest]
  · intro g hg hgf hdir
    have haddr : (books v).fileAddr g ≠ v.home c := fun he =>
      hgf (h.wellFormed.order.files.inj g hg _ husable.file (h.wellFormed.not_gone g) (h.wellFormed.not_gone _) he)
    have hsame : (Shortened.layout G v c n).chain ((books v).fileAddr g) = G.chain ((books v).fileAddr g) :=
      Layout.setChain_ne haddr _ _
    have hfile := h.wellFormed.order.files.file g hg (h.wellFormed.not_gone g)
    have hfix : ¬((books v).fileAddr g = 0 ∧ v.geo.rootCluster = 0) := by
      intro h0
      have hdir' : (v.files g).de.isDir = true := hfile.dir.mpr (.inl h0.1)
      rw [hdir] at hdir'
      cases hdir'
    have hde : (w.files g).de = (v.files g).de := congrArg FileInfo.de (hs.file_ne hgf)
    rw [hs.fileAddr, hsame, contents, contents, hgeo, hs.fileAddr, hsame, hde]
    refine ⟨fileSlice_congr fun i _ => ?_, rfl⟩
    cases hp : placeOf v.geo false (G.chain ((books v).fileAddr g)) (0 + i) with
    | none => rfl
    | some p =>
      have hat : posAddr v.geo (G.chain ((books v).fileAddr g)) ((books v).fileAddr g) (0 + i) = some p := by
        rw [posAddr_eq, decide_eq_false hfix]
        exact hp
      exact hs.outside p (h.wellFormed.sound.geo.posAddr_le hat)

end Truncate

section Fsync

/-- Writing an entry back stores to a directory, not to a file. -/
theorem Shut.contents (h : WellFormed G v) (hs : Shut f v w) {g : ℕ} (hg : g ∈ v.filesOpen)
    (hgd : (v.files g).de.isDir = false) : contents G w g = contents G v g := by
  have hfile := h.order.files.file g hg (h.not_gone g)
  have hnotdir : ¬IsDir v.byte ((books v).fileAddr g) := by
    intro hdir
    have hdir' : (v.files g).de.isDir = true := hfile.dir.mpr hdir
    rw [hgd] at hdir'
    cases hdir'
  have hfix : ¬((books v).fileAddr g = 0 ∧ v.geo.rootCluster = 0) := fun h0 => hnotdir (.inl h0.1)
  have hde : (w.files g).de = (v.files g).de := congrArg FileInfo.de (hs.file g)
  rw [Fat.contents, Fat.contents, hs.geo, hs.place, hde]
  apply fileSlice_congr
  intro i _
  cases hp : placeOf v.geo false (G.chain ((books v).fileAddr g)) (0 + i) with
  | none => rfl
  | some p =>
    rcases hs.written with hw | ⟨-, h0, hf, hw⟩
    · exact congrFun hw p
    · change w.byte p = v.byte p
      rw [hw, overlay, length_toBytes]
      refine if_neg fun hin => hnotdir ?_
      have hfowner : (books v).fileAddr f ∈ G.owners := (h.order.files.file f hf (h.not_gone f)).owner
      obtain ⟨a, ha, hda, pos, hpos, hat⟩ := h.order.entries.inside _ hfowner h0
      have hslot := h.sound.geo.posAddr_slot hat hpos (i := p - (books v).fileAddr f) (by omega)
      rw [Nat.add_sub_cancel' hin.1] at hslot
      have hat' : posAddr v.geo (G.chain ((books v).fileAddr g)) ((books v).fileAddr g) (0 + i) = some p := by
        rw [posAddr_eq, decide_eq_false hfix]
        exact hp
      have hsame : (books v).fileAddr g = a :=
        (Chains.posAddr_unique h.sound.geo h.order.chains hfile.owner ha hat' hslot).1
      rw [hsame]
      exact hda

theorem fatFsync_free (c : ℕ) (datasync : Bool) : Keeps Volume.freeClusters (fatFsync c datasync) := by
  refine .bind .state fun _ => .ite (.fail _) (.bind (.when ?_) fun _ => fatSync_free)
  refine .bind .state fun _ => .bind (onCache_free _) fun _ => .bind (.bind .state fun _ => onCache_free _) fun _ => ?_
  exact .bind (.update fun _ => rfl) fun _ => onCache_free _

end Fsync

section Requests

variable (hc : c ∈ s.opened)

include hc

theorem fatRead_refines (n : ℕ) : Refines (fun t v => t = s ∧ Shown t v) (fatRead c n) (FileStore.read c n)
    (fun _ => Shown) fun _ => Shown := by
  rintro v t ⟨rfl, G, h⟩
  rw [FileStore.read, run_bind_state]
  dsimp only
  by_cases hno : (t.handles c).isNotReadable = true
  · have hrun : (fatRead c n).run v = (.error .ebadf, v) := by
      rw [fatRead, run_bind_state]
      dsimp only
      rw [h.notReadable hc, if_pos (.inr hno)]
      rfl
    rw [if_pos hno, hrun]
    exact ⟨rfl, G, h⟩
  · have hr : (v.channels c).Reads := ⟨(h.handle c hc).magic, by rw [h.notReadable hc, Bool.eq_false_iff]; exact hno⟩
    obtain ⟨w, hrun, hw, hsk, hpt⟩ := fatRead_changed h.wellFormed (h.usable hc) (h.regular hc) hr n
    rw [h.holds hc, show (v.channels c).filePointer = _ from (h.handle c hc).pointer] at hrun
    rw [if_neg hno, hrun]
    exact ⟨rfl, G, (h.unchanged hc hw hsk hpt).seek hc _⟩

theorem seek_refines (res : Int) : Refines (fun t v => t = s ∧ Shown t v)
    (if res < 0 then Prog.fail .einval else do
      Prog.update (Volume.setChannel c fun x => { x with filePointer := res.toNat })
      pure res.toNat : FatM ℕ)
    (if res < 0 then Prog.fail .einval else do
      Prog.update (FileStore.seek c res.toNat)
      pure res.toNat) (fun _ => Shown) fun _ => Shown := by
  refine .ite Iff.rfl (fun _ => .fail _ fun _ _ h => h.2) fun _ => ?_
  refine .bind (R := fun _ => Shown) (.update fun t v h => ?_) fun _ => .pure _ fun _ _ h => h
  obtain ⟨rfl, G, h⟩ := h
  exact ⟨G, h.seek hc _⟩

theorem fatLseek_refines (offset : Int) (whence : Whence) :
    Refines (fun t v => t = s ∧ Shown t v) (fatLseek c offset whence) (FileStore.lseek c offset whence)
      (fun _ => Shown) fun _ => Shown := by
  rintro v t ⟨rfl, G, h⟩
  have hreg : hasAttr (v.files (v.channels c).f).de.attr fatADir = false := h.regular hc
  have hpointer : (v.channels c).filePointer = (t.handles c).pointer := (h.handle c hc).pointer
  have hmagic : ¬(v.channels c).magic = false := by
    rw [(h.handle c hc).magic]
    decide
  rw [FileStore.lseek, fatLseek, run_bind_state, run_bind_state]
  dsimp only
  rw [if_neg hmagic, hreg, hpointer, h.size hc]
  cases whence with
  | seekSet => exact seek_refines hc _ v t ⟨rfl, G, h⟩
  | seekCur => exact seek_refines hc _ v t ⟨rfl, G, h⟩
  | seekEnd => exact seek_refines hc _ v t ⟨rfl, G, h⟩

theorem writeAtPointer_refines (buffer : List UInt8) (start : ℕ) (j : Int)
    (hstart : start ≤ s.size (s.handles c).file ∨ s.free = 0 ∧ s.room (s.handles c).file ≤ start) :
    Refines (fun t v => t = s ∧ Shown t v) (writeAtPointer c buffer start j)
      (FileStore.writeAt c (s.handles c).file buffer start j) (fun _ => Shown) fun _ => Shown := by
  have hslice : buffer = writeSlice (some buffer) 0 buffer.length := by rw [writeSlice_take _ (Nat.le_refl _), List.take_length]
  refine .bind (fatDoWrite_refines hc (some buffer) hslice hstart) fun res => .ite Iff.rfl (fun _ => ?_) fun _ => ?_
  · exact .pure _ fun _ _ h => h.2
  · refine .bind (R := fun _ => Shown) (.update fun t v h => ?_) fun _ => .pure _ fun _ _ h => h
    obtain ⟨hput, G, h⟩ := h
    exact ⟨G, h.seek (FileStore.opened_put hput ▸ hc) _⟩

/-- The gap up to a pointer behind the end is filled from the end on. -/
theorem fill_refines (n pos : ℕ) (hpos : pos = s.size (s.handles c).file) :
    Refines (fun t v => t = s ∧ Shown t v) (fatDoWrite c none n pos)
      (FileStore.put (s.handles c).file pos (List.replicate n 0))
      (fun k t v => (FileStore.put (s.handles c).file pos (List.replicate n 0)).run s = (.ok k, t) ∧ Shown t v) fun _ => Shown :=
  fatDoWrite_refines hc none rfl (.inl (Nat.le_of_eq hpos))

theorem fatWrite_refines (buffer : List UInt8) : Refines (fun t v => t = s ∧ Shown t v) (fatWrite c buffer)
    (FileStore.write c buffer) (fun _ => Shown) fun _ => Shown := by
  refine .bind_state ?_
  rintro v t ⟨rfl, G, h⟩
  have hreg : hasAttr (v.files (v.channels c).f).de.attr fatADir = false := h.regular hc
  have hchecks : ((v.channels c).magic = false ∨ (v.channels c).isNotWriteable = true ∨
      hasAttr (v.files (v.channels c).f).de.attr fatADir = true) ↔ (t.handles c).isNotWriteable = true := by
    rw [(h.handle c hc).magic, h.notWriteable hc, hreg]
    simp
  have hpointer : (v.channels c).filePointer = (t.handles c).pointer := (h.handle c hc).pointer
  have hsize := h.size hc
  have hfile := h.channelFile hc
  refine .ite hchecks (fun _ => ?_) fun _ => .ite Iff.rfl (fun _ => ?_) fun _ => ?_
  · exact .fail _ fun t' v' heq => by rw [heq.1, heq.2]; exact ⟨G, h⟩
  · exact .pure _ fun t' v' heq => by rw [heq.1, heq.2]; exact ⟨G, h⟩
  rw [(h.handle c hc).flags, hpointer, hsize, hfile]
  generalize (if hasFlag (t.handles c).flags oAppend = true then t.size (t.handles c).file else (t.handles c).pointer) = start
  have hcs : c ∈ (t.seek c start).opened := hc
  have hseek := h.seek hc start
  refine .bind (R := fun _ t' v' => t' = t.seek c start ∧ Shown t' v') (.update fun t' v' heq => ?_) fun _ => ?_
  · rw [heq.1, heq.2]
    exact ⟨rfl, G, hseek⟩
  have hsf : ((t.seek c start).handles c).file = (t.handles c).file := FileStore.seek_file c
  have hss : (t.seek c start).size (t.handles c).file = t.size (t.handles c).file := rfl
  refine .ite Iff.rfl (fun hpast => ?_) fun hpast => ?_
  · have hput := fill_refines hcs ((start - t.size (t.handles c).file) % 2 ^ 32) (t.size (t.handles c).file) (by rw [hsf, hss])
    rw [hsf] at hput
    refine .bind hput fun k => .bind_state ?_
    rintro v' t' ⟨hrun, G', h'⟩
    have hct : c ∈ t'.opened := by
      rw [FileStore.opened_put hrun]
      exact hc
    have hft : (t'.handles c).file = (t.handles c).file := by
      rw [FileStore.handles_put hrun]
      exact hsf
    have hsize' := h'.size hct
    have hfile' := h'.channelFile hct
    rw [hft] at hsize' hfile'
    rw [hfile'] at hsize'
    rw [hsize']
    refine .ite Iff.rfl (fun _ => ?_) fun hgo => ?_
    · exact .pure _ fun t₁ v₁ heq => by rw [heq.1, heq.2]; exact ⟨G', h'⟩
    · have hpos : 0 < (t.seek c start).clusterBytes := by
        rw [FileStore.seek_clusterBytes, ← h.clusterBytes]
        exact bytesPerCluster_pos _
      have hstart := FileStore.padded hpos hpast hrun hgo
      rw [← hft] at hstart ⊢
      refine (writeAtPointer_refines hct buffer start (ssize k) hstart).conseq (fun t₁ v₁ heq => ?_) (fun _ _ _ h => h)
        fun _ _ _ h => h
      rw [heq.1, heq.2]
      exact ⟨rfl, G', h'⟩
  · rw [← hsf]
    exact writeAtPointer_refines hcs buffer start 0 (.inl (by rw [hsf, hss]; exact Nat.le_of_not_lt hpast))

theorem fatFtruncate_refines (length : Int) : Refines (fun t v => t = s ∧ Shown t v) (fatFtruncate c length)
    (FileStore.ftruncate c length) (fun _ => Shown) fun _ => Shown := by
  rintro v t ⟨rfl, G, h⟩
  have hreg : hasAttr (v.files (v.channels c).f).de.attr fatADir = false := h.regular hc
  rw [FileStore.ftruncate, run_bind_state]
  dsimp only
  by_cases hneg : length < 0
  · have hrun : (fatFtruncate c length).run v = (.error .einval, v) := by
      rw [fatFtruncate, run_bind_state]
      dsimp only
      rw [if_pos hneg]
      rfl
    rw [if_pos hneg, hrun]
    exact ⟨rfl, G, h⟩
  rw [if_neg hneg]
  by_cases hno : (t.handles c).isNotWriteable = true
  · have hrun : (fatFtruncate c length).run v = (.error .ebadf, v) := by
      rw [fatFtruncate, run_bind_state]
      dsimp only
      rw [if_neg hneg, h.notWriteable hc, if_pos (.inl hno)]
      rfl
    rw [if_pos hno, hrun]
    exact ⟨rfl, G, h⟩
  rw [if_neg hno]
  have hw : Writable v c := ⟨(h.handle c hc).magic, by rw [h.notWriteable hc, Bool.eq_false_iff]; exact hno, h.regular hc⟩
  obtain ⟨n, rfl⟩ := Int.eq_ofNat_of_zero_le (Int.not_lt.mp hneg)
  rw [Int.toNat_natCast]
  have hsize := h.size hc
  have hloop := h.loop
  have hsk := Neutral.skeleton (Neutral.fatFtruncate c n) v
  have hpt := Unmoving.fatFtruncate c n v
  by_cases hlt : n < t.size (t.handles c).file
  · rw [if_pos hlt]
    by_cases hcut : t.need n < t.clusters (t.handles c).file
    · obtain ⟨w, hrun, hs⟩ := fatFtruncate_shortens h.wellFormed (h.usable hc) hw (by rw [hsize]; exact hlt)
        (by rw [h.clustersFor, h.chain hc]; exact hcut) (by omega)
      rw [hrun] at hsk hpt
      rw [if_pos hcut, hrun]
      exact ⟨rfl, _, h.shortened hc hs hlt hcut hsk hpt⟩
    · obtain ⟨w, hrun, hw'⟩ := fatFtruncate_kept h.wellFormed (h.usable hc) (h.regular hc) hw (by rw [hsize]; exact hlt)
        (by rw [h.clustersFor, h.chain hc]; exact hcut) (by omega)
      rw [hrun] at hsk hpt
      rw [if_neg hcut, hrun]
      exact ⟨rfl, G, h.unchanged hc hw' hsk hpt⟩
  rw [if_neg hlt, fatFtruncate_run hw, hsize, if_neg hlt]
  by_cases hgt : n > t.size (t.handles c).file
  · rw [if_pos hgt, if_pos hgt]
    have hput := fill_refines hc ((n - t.size (t.handles c).file) % 2 ^ 32) (t.size (t.handles c).file) rfl
    have hrest : Refines (fun t' v' => t' = t ∧ Shown t' v')
        (do
          let res ← fatDoWrite c none ((n - t.size (t.handles c).file) % 2 ^ 32) (t.size (t.handles c).file)
          pure (ssize res))
        (do
          let res ← FileStore.put (t.handles c).file (t.size (t.handles c).file)
            (List.replicate ((n - t.size (t.handles c).file) % 2 ^ 32) 0)
          pure (ssize res)) (fun _ => Shown) fun _ => Shown :=
      .bind hput fun _ => .pure _ fun _ _ h => h.2
    exact hrest v t ⟨rfl, G, h⟩
  · rw [if_neg hgt, if_neg hgt]
    exact ⟨rfl, G, h⟩

theorem fatFsync_refines (datasync : Bool) : Refines (fun t v => t = s ∧ Shown t v) (fatFsync c datasync)
    (pure () : StoreM Unit) (fun _ => Shown) fun _ => Shown := by
  rintro v t ⟨rfl, G, h⟩
  have husable := h.usable hc
  obtain ⟨w, hrun, htidy, hs, hch, -, -⟩ := fatFsync_tidy h.wellFormed.toTidy husable.file husable.there
    (h.handle c hc).magic datasync
  have hsk := Neutral.skeleton (Neutral.fatFsync c datasync) v
  have hpt := Unmoving.fatFsync c datasync v
  have hfree := fatFsync_free c datasync v
  rw [hrun] at hsk hpt hfree
  have hde : ∀ g, (w.files g).de = (v.files g).de := fun g => congrArg FileInfo.de (hs.file g)
  have hw : WellFormed G w := by
    refine ⟨htidy, h.wellFormed.settled, fun g hg hgd => ?_⟩
    rw [hde] at hgd ⊢
    rw [hs.place, hs.geo]
    exact h.wellFormed.full g (hs.filesOpen hg) hgd
  have hf := h.channelFile hc
  have hshown : Shows G (t.hold (t.handles c).file (t.bytes (t.handles c).file) (t.clusters (t.handles c).file)) w := by
    refine h.step hw hsk hpt ?_ (fun g => by rw [hde]) ⟨?_, ?_⟩ fun g hg _ hgd => ⟨hs.contents h.wellFormed hg hgd, ?_⟩
    · rw [FileStore.hold_same, ← h.free]
      exact hfree
    · rw [hs.contents h.wellFormed (hf ▸ husable.file) (h.handle c hc).regular]
      exact h.bytes c hc
    · rw [hs.place]
      exact h.clusters c hc
    · rw [hs.place]
  rw [FileStore.hold_same] at hshown
  rw [hrun]
  exact ⟨rfl, G, hshown⟩

end Requests

end FreeDos32.Fat
