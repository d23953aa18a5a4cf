import FreeDos32.Fat.Release
import FreeDos32.Fat.WriteCount

namespace FreeDos32.Fat

open Prog

variable {G : Layout} {b : Books} {g : Geometry} {e : ℕ} {m : ℕ → UInt8} {v w x : Volume} {c f i j k n length : ℕ} {l : List ℕ}

/-- The number of clusters that `n` bytes take. -/
def clustersFor (g : Geometry) (n : ℕ) : ℕ := (n + g.bytesPerCluster - 1) / g.bytesPerCluster

theorem clustersFor_zero (g : Geometry) : clustersFor g 0 = 0 := by
  have := bytesPerCluster_pos g
  exact Nat.div_eq_of_lt (by omega)

theorem clustersFor_pos (g : Geometry) (hn : 0 < n) : clustersFor g n = (n - 1) / g.bytesPerCluster + 1 := by
  rw [clustersFor, ← Nat.add_div_right _ (bytesPerCluster_pos g)]
  congr 1
  omega

theorem clustersFor_ne_zero (g : Geometry) (hn : n ≠ 0) : clustersFor g n ≠ 0 := by
  rw [clustersFor_pos g (Nat.pos_of_ne_zero hn)]
  exact Nat.succ_ne_zero _

theorem clustersFor_le_iff (g : Geometry) : clustersFor g n ≤ k ↔ n ≤ k * g.bytesPerCluster := by
  have hpos := bytesPerCluster_pos g
  rw [clustersFor, ← Nat.lt_succ_iff, Nat.div_lt_iff_lt_mul hpos, Nat.succ_mul]
  omega

/-- The layout when a file has been left the clusters `l`; its slot may still show the old first one. -/
def Layout.unfresh (G : Layout) : Layout := { G with fresh := False }

theorem FileOk.unfresh {y : FileInfo} (h : FileOk G g m y) : FileOk G.unfresh g m y :=
  ⟨h.place, h.owner, h.first, h.de, h.dir, h.live, h.flushed, h.size, fun hd => h.shows (.inl (hd.resolve_right id))⟩

theorem Orderly.unfresh (h : Orderly G b m) : Orderly G.unfresh b m where
  entries := ⟨h.entries.root, h.entries.slots, h.entries.linked, h.entries.inside, h.entries.size⟩
  files := ⟨fun f hf hg => (h.files.file f hf hg).unfresh, h.files.inj, h.files.root, h.files.closed⟩
  nodes := by
    refine ⟨fun d hd hg => ?_, h.nodes.inj, h.nodes.root, h.nodes.channel⟩
    have hnode := h.nodes.node d hd hg
    exact ⟨hnode.owner, hnode.sector, hnode.attr, hnode.entry⟩
  names hn := ⟨(h.names hn).slot, (h.names hn).file, (h.names hn).stale⟩
  chains := h.chains
  reserved := h.reserved
  free := h.free

theorem FileOk.shortened {L : Set ℕ} {y z : FileInfo} (h : FileOk G g m y) (hreg : y.de.isDir = false)
    (hsector : z.deSector = y.deSector) (hsecofs : z.deSecofs = y.deSecofs) (hname : ∀ i < 11, z.de i = y.de i)
    (hvol : hasAttr z.de.attr fatAVolid = hasAttr y.de.attr fatAVolid)
    (hdir : hasAttr z.de.attr fatADir = hasAttr y.de.attr fatADir) (hfirst : z.firstCluster = l.headD 0)
    (hfc : z.de.firstCluster = z.firstCluster) (hchanged : z.deChanged = true)
    (hsize : 0 < z.de.fileSize → z.firstCluster ≠ 0) : FileOk (G.unfresh.setChain (y.addr g) l L) g m z := by
  have haddr : z.addr g = y.addr g := by rw [FileInfo.addr, FileInfo.addr, hsector, hsecofs]
  have hisdir : z.de.isDir = false := hdir.trans hreg
  constructor
  · rw [hsector, hsecofs]
    exact h.place
  · rw [haddr]
    exact h.owner
  · rw [haddr, Layout.setChain_self]
    exact hfirst
  · exact hfc
  · rw [haddr, hisdir, ← hreg]
    exact h.dir
  · rw [haddr]
    exact fun h0 => (live_of_name hname hvol).mpr (h.live h0)
  · exact fun hclean => absurd (hchanged.symm.trans hclean) (by decide)
  · exact fun _ => hsize
  · rintro (hd | hd)
    · rw [hisdir] at hd
      cases hd
    · exact hd.elim

/-- What `fat_ftruncate` leaves of a file that it shortens to `n` bytes. -/
def shortenedInfo (now : DosStamp) (n : ℕ) (y : FileInfo) : FileInfo :=
  let y := if n = 0 then y.startAt 0 else y
  { y with de := (stampEntry now y.de).setFileSize n, deChanged := true }

theorem shortenedInfo_de (now : DosStamp) (n : ℕ) (y : FileInfo) (hi : i < 11) : (shortenedInfo now n y).de i = y.de i := by
  have hstamp : ∀ de, ((stampEntry now de).setFileSize n) i = de i := fun de =>
    (setFileSize_below _ n (by omega)).trans (stampEntry_other now de (by omega) (by omega) (by omega))
  unfold shortenedInfo
  split
  · exact (hstamp _).trans (setFirstCluster_other _ _ (by omega))
  · exact hstamp _

theorem attr_shortenedInfo (now : DosStamp) (n : ℕ) (y : FileInfo) :
    (shortenedInfo now n y).de.attr = y.de.attr ||| fatAArchiv := by
  have hstamp : ∀ de, ((stampEntry now de).setFileSize n).attr = de.attr ||| fatAArchiv := fun de =>
    (setFileSize_below _ n (by omega)).trans (attr_stampEntry now de)
  unfold shortenedInfo
  split
  · refine (hstamp _).trans (congrArg (· ||| fatAArchiv) ?_)
    exact setFirstCluster_other (i := 11) y.de 0 (by decide)
  · exact hstamp _

theorem FileOk.shortenedInfo {L : Set ℕ} {y : FileInfo} (now : DosStamp) (h : FileOk G g m y) (hreg : y.de.isDir = false)
    (hn : n < y.de.fileSize) (hl : n = 0 ∧ l = [] ∨ n ≠ 0 ∧ l.headD 0 = (G.chain (y.addr g)).headD 0) :
    FileOk (G.unfresh.setChain (y.addr g) l L) g m (shortenedInfo now n y) := by
  have hattr : ∀ bit, fatAArchiv &&& bit = 0 → hasAttr (Fat.shortenedInfo now n y).de.attr bit = hasAttr y.de.attr bit := by
    intro bit hbit
    rw [attr_shortenedInfo, hasAttr_archiv _ hbit]
  have hfc : ∀ de, ((stampEntry now de).setFileSize n).firstCluster = de.firstCluster := fun de =>
    (firstCluster_of_below fun i hi => setFileSize_below _ n hi).trans (firstCluster_stampEntry now de)
  refine h.shortened hreg ?_ ?_ (fun i hi => shortenedInfo_de now n y hi) (hattr _ (by decide)) (hattr _ (by decide)) ?_ ?_
    rfl ?_
  all_goals unfold Fat.shortenedInfo
  · split <;> rfl
  · split <;> rfl
  · rcases hl with ⟨rfl, rfl⟩ | ⟨hne, hl⟩
    · rfl
    · rw [if_neg hne, hl]
      exact h.first
  · split
    · exact (hfc _).trans (firstCluster_setFirstCluster _ (by decide))
    · exact (hfc _).trans h.de
  · rw [fileSize_setFileSize]
    intro hpos
    have hne : n ≠ 0 := by
      rintro rfl
      exact absurd hpos (by decide)
    rw [if_neg hne]
    exact h.size hreg (by omega)

/-- The volume after the file of an open instance has been shortened to `n` bytes. -/
structure Shortened (G : Layout) (v : Volume) (c n : ℕ) (w : Volume) : Prop where
  sound : Sound w
  books : ∃ now, books w = ((books v).setFile (v.channels c).f (shortenedInfo now n (v.files (v.channels c).f).info)).setFree
    (zeros v.geo w.byte)
  outside : ∀ p, v.geo.rootSector * v.geo.bytesPerSector ≤ p → w.byte p = v.byte p
  entry : CutEntry v.geo (G.chain (v.home c)) (clustersFor v.geo n) v.byte w.byte
  reset : ∀ k ∈ v.channelsOpen, (v.channels k).f = (v.channels c).f → (w.channels k).clusterIndex = 0
  others : ∀ k ∈ v.channelsOpen, (v.channels k).f ∉ G.goneFiles → (v.channels k).f ≠ (v.channels c).f →
    CursorOk G (Fat.books v) (w.channels k)

theorem books_resetCursors (f : ℕ) (v : Volume) : books (v.resetCursors f) = books v := by
  unfold books Volume.resetCursors
  congr 1
  funext k
  dsimp only
  split <;> rfl

theorem Books.setFile_setFree (b : Books) (f n : ℕ) (y z : FileInfo) :
    ((b.setFile f y).setFree n).setFile f z = (b.setFile f z).setFree n := by
  unfold Books.setFile Books.setFree
  rw [Function.update_idem]

theorem fatFtruncate_run (hw : Writable v c) :
    (fatFtruncate c length).run v =
      (if length < (v.files (v.channels c).f).de.fileSize then do
          let last ← lastClusterFor c length
          fatDeleteFileClusters (v.channels c).f last
          let now ← fatTimestamps
          Prog.update (Volume.setFile (v.channels c).f fun f =>
            { f.stampModified now with de := (f.stampModified now).de.setFileSize length })
          Prog.when (hasFlag (v.channels c).flags oSync = true) fatSync
          Prog.update (Volume.resetCursors (v.channels c).f)
          pure 0
        else if length > (v.files (v.channels c).f).de.fileSize then do
          let res ← fatDoWrite c none ((length - (v.files (v.channels c).f).de.fileSize) % 2 ^ 32)
            (v.files (v.channels c).f).de.fileSize
          pure (ssize res)
        else pure 0 : FatM Int).run v := by
  have hreg : hasAttr (v.files (v.channels c).f).de.attr fatADir = false := hw.regular
  rw [fatFtruncate, run_bind_state]
  dsimp only
  rw [if_neg (by omega), if_neg (by rw [hw.writeable, hreg]; decide), Int.toNat_natCast]

section Shorten

variable (h : WellFormed G v) (hc : Usable G v c) (hd : (v.files (v.channels c).f).de.isDir = false)

include h hc hd in
theorem lastClusterFor_run (hlen : clustersFor v.geo length ≤ (G.chain (v.home c)).length) :
    ∃ k w, (lastClusterFor c length).run v = (.ok k, w) ∧ Still G v w ∧
      (length = 0 → k = 0) ∧ (length ≠ 0 → (G.chain (v.home c))[clustersFor v.geo length - 1]? = some k) := by
  by_cases h0 : length = 0
  · rw [lastClusterFor, if_pos h0]
    exact ⟨0, v, rfl, .refl h.toTidy, fun _ => rfl, fun h => absurd h0 h⟩
  have hneed := clustersFor_pos v.geo (Nat.pos_of_ne_zero h0)
  have hroot : v.atFixedRoot c = false := (h.writes hc hd).chained.notFixed
  have hon := hc.onChain h.order (.refl h.toTidy)
  obtain ⟨r, w, hrun, hw, -, -, hwon, hfound⟩ := fatGetFileSector_run h.sound hon ((length - 1) / v.geo.bytesPerSector)
  have hstill : Still G v w := (Still.refl h.toTidy).onChain hw hwon
  have hindex : (length - 1) / v.geo.bytesPerSector / v.geo.sectorsPerCluster = clustersFor v.geo length - 1 := by
    rw [hneed, Nat.add_sub_cancel, Nat.div_div_eq_div_mul, bytesPerCluster_eq, Nat.mul_comm]
  rw [hroot] at hfound
  rw [lastClusterFor, if_neg h0, run_bind_state, run_bind_ok hrun]
  cases r with
  | none =>
    obtain ⟨hpast, -⟩ := hfound.2 rfl
    have hne := clustersFor_ne_zero v.geo h0
    rw [hindex] at hpast
    omega
  | some s =>
    have hcluster := hfound.2 rfl
    rw [hindex] at hcluster
    exact ⟨_, w, rfl, hstill, fun h => absurd h h0, fun _ => hcluster⟩

include h hc hd in
theorem cutFile_run (hcut : clustersFor v.geo length < (G.chain (v.home c)).length)
    (hloop : v.geo.dataClusters ≤ v.geo.loopBound) :
    ∃ k x w, (lastClusterFor c length).run v = (.ok k, x) ∧ Still G v x ∧
      (fatDeleteFileClusters (v.channels c).f k).run x = (.ok (), w) ∧ w.channels = x.channels ∧
      Cut v (v.channels c).f (clustersFor v.geo length) (G.chain (v.home c))
        (if length = 0 then (v.files (v.channels c).f).info.startAt 0 else (v.files (v.channels c).f).info) w := by
  obtain ⟨k, x, hrun, hx, hzero, hlast⟩ := lastClusterFor_run h hc hd (Nat.le_of_lt hcut)
  by_cases h0 : length = 0
  · obtain ⟨w, hrun', hch, hw⟩ := deleteAllClusters_cut h.order hc hx (List.ne_nil_of_length_pos (by omega)) hloop
    rw [if_pos h0]
    refine ⟨k, x, w, hrun, hx, hzero h0 ▸ hrun', hch, ?_⟩
    rw [h0, clustersFor_zero]
    exact hw
  · have hneed := Nat.sub_one_add_one (clustersFor_ne_zero v.geo h0)
    obtain ⟨w, hrun', hch, hw⟩ := deleteSomeClusters_cut h.order hc hx (hlast h0) (by rw [hneed]; exact hcut) hloop
    rw [hneed] at hw
    rw [if_neg h0]
    exact ⟨k, x, w, hrun, hx, hrun', hch, hw⟩

include h hc in
theorem fatFtruncate_shortens (hw : Writable v c) (hlen : length < (v.files (v.channels c).f).de.fileSize)
    (hcut : clustersFor v.geo length < (G.chain (v.home c)).length) (hloop : v.geo.dataClusters ≤ v.geo.loopBound) :
    ∃ w, (fatFtruncate c length).run v = (.ok 0, w) ∧ Shortened G v c length w := by
  obtain ⟨k, x, y, hrun, hx, hrun', hych, hy⟩ := cutFile_run h hc hw.regular hcut hloop
  have hygeo : y.geo = v.geo := congrArg Books.geo hy.books
  have hyfile : (y.files (v.channels c).f).info =
      (if length = 0 then (v.files (v.channels c).f).info.startAt 0 else (v.files (v.channels c).f).info) := by
    have := congrArg (fun b : Books => b.file (v.channels c).f) hy.books
    exact this.trans (Books.setFile_self ..)
  -- the entry is changed
  generalize hz : ({ y with ticks := y.ticks + 1 } : Volume).setFile (v.channels c).f (fun f =>
    { f.stampModified (y.env.clock y.ticks) with de := (f.stampModified (y.env.clock y.ticks)).de.setFileSize length }) = z
  have hzrun : ∀ (α : Type) (rest : FatM α), (do
      let now ← fatTimestamps
      Prog.update (Volume.setFile (v.channels c).f fun f =>
        { f.stampModified now with de := (f.stampModified now).de.setFileSize length })
      rest : FatM α).run y = rest.run z := by
    intro α rest
    rw [← hz]
    rfl
  have hzbooks : books z = ((books v).setFile (v.channels c).f (shortenedInfo (y.env.clock y.ticks) length
      (v.files (v.channels c).f).info)).setFree (zeros v.geo y.byte) := by
    rw [← hz, books_setFile]
    change (books y).setFile _ _ = _
    rw [hy.books, Books.setFile_setFree]
    congr 2
    change ({ (y.files (v.channels c).f).info with de := (stampEntry (y.env.clock y.ticks)
      (y.files (v.channels c).f).info.de).setFileSize length, deChanged := true } : FileInfo) = _
    rw [hyfile]
    rfl
  have hzsound : Sound z := hy.sound.of_same (by rw [← hz]; rfl) (by rw [← hz]; rfl)
  have hzbyte : z.byte = y.byte := by
    rw [← hz]
    rfl
  have hzch : z.channels = x.channels := by
    rw [← hych, ← hz]
    rfl
  -- and written to the device, if that is asked for
  obtain ⟨t, hsync, htsound, htbooks, htbyte, htch⟩ : ∃ t, (Prog.when (hasFlag (v.channels c).flags oSync = true) fatSync :
      FatM Unit).run z = (.ok (), t) ∧ Sound t ∧ books t = books z ∧ t.byte = z.byte ∧ t.channels = z.channels := by
    by_cases hs : hasFlag (v.channels c).flags oSync = true
    · rw [when_pos hs]
      obtain ⟨t, b, hrun'', ht⟩ := fatSync_run hzsound.media hzsound.geo.one_lt_device
      exact ⟨t, hrun'', ht.sound (hzsound.of_same rfl rfl), ht.books, ht.byte, ht.channels⟩
    · rw [when_neg hs]
      exact ⟨z, rfl, hzsound, rfl, rfl, rfl⟩
  have hopen : t.channelsOpen = v.channelsOpen := congrArg Books.channelsOpen (htbooks.trans hzbooks)
  have hf : ∀ k, (t.channels k).f = (v.channels k).f := fun k => by
    rw [htch, hzch]
    exact hx.channelFile k
  rw [fatFtruncate_run hw, if_pos hlen, run_bind_ok hrun, run_bind_ok hrun', hzrun, run_bind_ok hsync, run_bind_update]
  refine ⟨_, rfl, htsound.of_same rfl rfl, ⟨y.env.clock y.ticks, ?_⟩, fun p hp => ?_, fun i hi n hn => ?_, fun k hk hkf => ?_,
    fun k hk hkg hkf => ?_⟩
  · rw [books_resetCursors, htbooks, hzbooks, ← hzbyte, ← htbyte]
    rfl
  · change t.byte p = v.byte p
    rw [htbyte, hzbyte]
    exact hy.outside p hp
  · change fatEntry v.geo t.byte i n = _
    rw [htbyte, hzbyte]
    exact hy.entry i hi n hn
  · change (if k ∈ t.channelsOpen ∧ (t.channels k).f = _ then _ else _ : Channel).clusterIndex = 0
    rw [if_pos ⟨hopen ▸ hk, (hf k).trans hkf⟩]
  · change CursorOk G _ (if k ∈ t.channelsOpen ∧ (t.channels k).f = _ then _ else t.channels k)
    rw [if_neg fun hcond => hkf ((hf k).symm.trans hcond.2), htch, hzch, ← hx.books]
    exact hx.cursors k (hx.channelsOpen ▸ hk) (by rw [hx.channelFile]; exact hkg)

end Shorten

namespace Shortened

variable (h : WellFormed G v) (hc : Usable G v c) (hd : (v.files (v.channels c).f).de.isDir = false)
  (hs : Shortened G v c n w) (hn : n < (v.files (v.channels c).f).de.fileSize)

/-- The chain that is left. -/
def rest (G : Layout) (v : Volume) (c n : ℕ) : List ℕ := (G.chain (v.home c)).take (clustersFor v.geo n)

def layout (G : Layout) (v : Volume) (c n : ℕ) : Layout := G.unfresh.setChain (v.home c) (rest G v c n) G.loose

include hs in
theorem geo : w.geo = v.geo := by
  obtain ⟨now, hb⟩ := hs.books
  exact congrArg Books.geo hb

include hs in
theorem file : ∃ now, (w.files (v.channels c).f).info = shortenedInfo now n (v.files (v.channels c).f).info := by
  obtain ⟨now, hb⟩ := hs.books
  exact ⟨now, (congrArg (fun b : Books => b.file (v.channels c).f) hb).trans (Books.setFile_self ..)⟩

include hs in
theorem file_ne (hf : f ≠ (v.channels c).f) : (w.files f).info = (v.files f).info := by
  obtain ⟨now, hb⟩ := hs.books
  exact (congrArg (fun b : Books => b.file f) hb).trans (Books.setFile_ne hf _)

theorem addr_shortenedInfo (now : DosStamp) (n : ℕ) (y : FileInfo) : (shortenedInfo now n y).addr g = y.addr g := by
  unfold shortenedInfo
  split <;> rfl

include hs in
theorem fileAddr (f : ℕ) : (Fat.books w).fileAddr f = (Fat.books v).fileAddr f := by
  obtain ⟨now, hb⟩ := hs.books
  rw [hb]
  exact Books.setFile_addr (addr_shortenedInfo now n _) f

include h hc hd hn in
theorem clusters_le : clustersFor v.geo n ≤ (G.chain (v.home c)).length := by
  have hfull : _ ≤ (G.chain (v.home c)).length * v.geo.bytesPerCluster := h.full _ hc.file hd
  exact (clustersFor_le_iff v.geo).mpr (by omega)

include h hc hd hn in
theorem length_rest : (rest G v c n).length = clustersFor v.geo n :=
  List.length_take_of_le (clusters_le h hc hd hn)

include h hc hd hs hn in
theorem orderly : Orderly (layout G v c n) (Fat.books w) w.byte := by
  obtain ⟨now, hb⟩ := hs.books
  have hfile := h.order.files.file _ hc.file hc.there
  have hhead : n = 0 ∧ rest G v c n = [] ∨ n ≠ 0 ∧ (rest G v c n).headD 0 = (G.chain (v.home c)).headD 0 := by
    by_cases h0 : n = 0
    · refine .inl ⟨h0, ?_⟩
      rw [rest, h0, clustersFor_zero, List.take_zero]
    · refine .inr ⟨h0, ?_⟩
      obtain ⟨k, hk⟩ := Nat.exists_eq_succ_of_ne_zero (clustersFor_ne_zero v.geo h0)
      rw [rest, hk]
      cases G.chain (v.home c) <;> rfl
  have hle := clusters_le h hc hd hn
  have hstale : (v.channels c).f ∉ G.stale := by
    rw [h.settled.stale]
    exact Set.notMem_empty _
  rw [hb]
  exact h.order.unfresh.cut h.sound.geo hc.file hc.there (hc.file_not_dir h.order hd) hstale hle
    (addr_shortenedInfo now n _) (fun i hi => shortenedInfo_de now n _ hi) (hfile.shortenedInfo now hd hn hhead)
    hs.outside hs.entry

include h hc hd hs hn in
theorem wellFormed (hopen : ∀ k ∈ v.channelsOpen, (v.channels k).f ∈ v.filesOpen) : WellFormed (layout G v c n) w := by
  obtain ⟨now, hb⟩ := hs.books
  have hchannels : w.channelsOpen = v.channelsOpen := congrArg Books.channelsOpen hb
  have hfiles : w.filesOpen = v.filesOpen := congrArg Books.filesOpen hb
  have hthere : ∀ k, k ∉ G.goneFiles := fun k => by
    rw [h.settled.goneFiles]
    exact Set.notMem_empty _
  have hf : ∀ k, (w.channels k).f = (v.channels k).f := fun k => congrArg (fun b : Books => (b.channel k).f) hb
  refine ⟨⟨hs.sound, hs.orderly h hc hd hn, fun k hk _ => ?_⟩,
    ⟨h.settled.loose, h.settled.gone, h.settled.goneFiles, h.settled.goneNodes, h.settled.stale⟩, fun f hff hfd => ?_⟩
  · rw [hchannels] at hk
    by_cases hkf : (v.channels k).f = (v.channels c).f
    · exact .inl (hs.reset k hk hkf)
    · have haddr : (Fat.books v).fileAddr (v.channels k).f ≠ v.home c := fun he =>
        hkf (h.order.files.inj _ (hopen k hk) _ hc.file (hthere _) (hthere _) he)
      have hcur := hs.others k hk (hthere _) hkf
      unfold CursorOk at hcur ⊢
      rw [hs.fileAddr, hf, layout, Layout.setChain_ne haddr]
      rw [hf] at hcur
      exact hcur
  · rw [hfiles] at hff
    rw [hs.fileAddr, hs.geo]
    by_cases hfc : f = (v.channels c).f
    · obtain ⟨now, hw⟩ := hs.file
      have hsize : (w.files f).de.fileSize ≤ n := by
        rw [hfc, show (w.files (v.channels c).f).de = _ from congrArg FileInfo.de hw]
        exact (fileSize_setFileSize _ n).trans_le (Nat.mod_le _ _)
      rw [hfc]
      change _ ≤ ((layout G v c n).chain (v.home c)).length * _
      rw [layout, Layout.setChain_self, length_rest h hc hd hn, ← hfc]
      exact Nat.le_trans hsize ((clustersFor_le_iff v.geo).mp (Nat.le_refl _))
    · have haddr : (Fat.books v).fileAddr f ≠ v.home c := fun he =>
        hfc (h.order.files.inj _ hff _ hc.file (hthere _) (hthere _) he)
      have hde : (w.files f).de = (v.files f).de := congrArg FileInfo.de (hs.file_ne hfc)
      rw [hde] at hfd ⊢
      rw [layout, Layout.setChain_ne haddr]
      exact h.full f hff hfd

include h hc hd hs hn in
theorem holds : fileSlice w.geo (rest G v c n) w.byte 0 n = (contents G v (v.channels c).f).take n := by
  rw [contents, take_fileSlice _ _ _ (Nat.le_of_lt hn), hs.geo]
  apply fileSlice_congr
  intro i hi
  rw [Nat.zero_add]
  have hbyte := (clustersFor_le_iff v.geo).mp (Nat.le_refl (clustersFor v.geo n))
  have hlt : i / v.geo.bytesPerCluster < clustersFor v.geo n :=
    (Nat.div_lt_iff_lt_mul (bytesPerCluster_pos v.geo)).mpr (by omega)
  have hplace : placeOf v.geo false (rest G v c n) i = placeOf v.geo false (G.chain (v.home c)) i := by
    rw [placeOf, placeOf, if_neg (by decide), if_neg (by decide), rest, List.getElem?_take_of_lt hlt]
  rw [hplace]
  change _ = (placeOf v.geo false (G.chain (v.home c)) i).elim 0 v.byte
  cases hp : placeOf v.geo false (G.chain (v.home c)) i with
  | none => rfl
  | some p =>
    have hat : posAddr v.geo (G.chain (v.home c)) (v.home c) i = some p := by
      rw [posAddr_eq, decide_eq_false (hc.not_fixedRoot h.order hd)]
      exact hp
    exact hs.outside p (h.sound.geo.posAddr_le hat)

include h hc hs in
theorem freed (hk : v.geo.InRange k) :
    (table v.geo v.byte k ≠ 0 ∧ table w.geo w.byte k = 0) ↔ k ∈ G.chain (v.home c) ∧ k ∉ rest G v c n := by
  have hown := hc.owner h.order
  have hrange := h.order.chains.ok _ hown
  have hnd := h.order.chains.nodup _ hown
  have hentry : table v.geo w.byte k = _ := hs.entry _ h.sound.geo.active k hk.2
  have hsplit : k ∈ G.chain (v.home c) ↔ k ∈ rest G v c n ∨ k ∈ (G.chain (v.home c)).drop (clustersFor v.geo n) := by
    rw [rest, ← List.mem_append, List.take_append_drop]
  have hdis : k ∈ rest G v c n → k ∉ (G.chain (v.home c)).drop (clustersFor v.geo n) := fun hm hm' =>
    List.disjoint_take_drop hnd (Nat.le_refl _) hm hm'
  rw [hs.geo, hentry]
  by_cases hdrop : k ∈ (G.chain (v.home c)).drop (clustersFor v.geo n)
  · have hused := links_entry_ne_zero (h.order.chains.links _ hown) hrange (List.mem_of_mem_drop hdrop)
    rw [if_pos hdrop]
    exact iff_of_true ⟨hused, rfl⟩ ⟨List.mem_of_mem_drop hdrop, fun hm => hdis hm hdrop⟩
  · rw [if_neg hdrop]
    refine iff_of_false (fun hfree => ?_) fun hmem => hmem.2 ((hsplit.mp hmem.1).resolve_right hdrop)
    split at hfree
    · exact absurd hfree.2 (by decide)
    · exact hfree.1 hfree.2

end Shortened

/-- A file's bytes, cut off or with zeroes added. -/
def resized (old : List UInt8) (n : ℕ) : List UInt8 := old.take n ++ List.replicate (n - old.length) 0

/-- What is promised when a file has been truncated or extended to `n` bytes: it has the clusters `l`. -/
structure Resized (G : Layout) (v : Volume) (c n : ℕ) (l : List ℕ) (w : Volume) : Prop where
  size : (w.files (v.channels c).f).de.fileSize = n
  first : (w.files (v.channels c).f).firstCluster = l.headD 0
  links : Links (table w.geo w.byte) fatEoc l
  range : ∀ k ∈ l, w.geo.InRange k
  clusters : l.length = clustersFor w.geo n
  holds : fileSlice w.geo l w.byte 0 n = resized (contents G v (v.channels c).f) n
  freed : ∀ k, v.geo.InRange k → ((table v.geo v.byte k ≠ 0 ∧ table w.geo w.byte k = 0) ↔ k ∈ G.chain (v.home c) ∧ k ∉ l)

/-- What is promised of `fat_ftruncate`. -/
def Truncates (G : Layout) (v : Volume) (c n : ℕ) : Outcome Errno Int × Volume → Prop
  | (.ok r, w) => r = 0 ∧ ∃ l, Resized G v c n l w
  | _ => False

theorem Shortened.resized (h : WellFormed G v) (hc : Usable G v c) (hd : (v.files (v.channels c).f).de.isDir = false)
    (hs : Shortened G v c n w) (hn : n < (v.files (v.channels c).f).de.fileSize) (hfit : n ≤ 0xFFFFFFFF) :
    Resized G v c n (Shortened.rest G v c n) w := by
  have hord := hs.orderly h hc hd hn
  have hown : v.home c ∈ G.owners := hc.owner h.order
  have hchain : (layout G v c n).chain (v.home c) = rest G v c n := Layout.setChain_self ..
  have hgeo := hs.geo
  obtain ⟨now, hb⟩ := hs.books
  have hfiles : w.filesOpen = v.filesOpen := congrArg Books.filesOpen hb
  have hopen : (v.channels c).f ∈ w.filesOpen := hfiles ▸ hc.file
  obtain ⟨now, hfile⟩ := hs.file
  have hlinks := hord.chains.links _ hown
  have hrange := hord.chains.ok _ hown
  have hfirst := (hord.files.file _ hopen hc.there).first
  change (w.files (v.channels c).f).firstCluster = ((layout G v c n).chain ((Fat.books w).fileAddr (v.channels c).f)).headD 0 at hfirst
  rw [hs.fileAddr] at hfirst
  change _ = ((layout G v c n).chain (v.home c)).headD 0 at hfirst
  rw [hchain] at hlinks hrange hfirst
  refine ⟨?_, hfirst, hlinks, hrange, ?_, ?_, fun k hk => hs.freed h hc hk⟩
  · rw [show (w.files (v.channels c).f).de = _ from congrArg FileInfo.de hfile]
    exact (fileSize_setFileSize _ n).trans (Nat.mod_eq_of_lt (by omega))
  · rw [hgeo]
    exact length_rest h hc hd hn
  · rw [hs.holds h hc hd hn, Fat.resized, length_contents, Nat.sub_eq_zero_of_le (Nat.le_of_lt hn), List.replicate_zero,
      List.append_nil]

/-- `fat_ftruncate` does what is promised when it gives clusters back, or when there is nothing to do. -/
theorem fatFtruncate_truncates (h : WellFormed G v) (hc : Usable G v c) (hw : Writable v c) (hfit : length ≤ 0xFFFFFFFF)
    (hloop : 2 ^ 32 + v.geo.dataClusters ≤ v.geo.loopBound) :
    Truncates G v c length ((fatFtruncate c length).run v) ↔
      (length < (v.files (v.channels c).f).de.fileSize ∧ clustersFor v.geo length < (G.chain (v.home c)).length) ∨
        (length = (v.files (v.channels c).f).de.fileSize ∧ clustersFor v.geo length = (G.chain (v.home c)).length) := by
  have hd := hw.regular
  have hwrites := h.writes hc hd
  have hown := hc.owner h.order
  have hfull : clustersFor v.geo (v.files (v.channels c).f).de.fileSize ≤ (G.chain (v.home c)).length :=
    (clustersFor_le_iff v.geo).mpr (h.full _ hc.file hd)
  rw [fatFtruncate_run hw]
  rcases Nat.lt_trichotomy length (v.files (v.channels c).f).de.fileSize with hlt | rfl | hgt
  · by_cases hcut : clustersFor v.geo length < (G.chain (v.home c)).length
    · obtain ⟨w, hrun, hs⟩ := fatFtruncate_shortens h hc hw hlt hcut (by omega)
      rw [← fatFtruncate_run hw, hrun]
      exact iff_of_true ⟨rfl, _, hs.resized h hc hd hlt hfit⟩ (.inl ⟨hlt, hcut⟩)
    · -- the clusters after the last one are to be freed, and there are none
      have hlen := Shortened.clusters_le h hc hd hlt
      have h0 : length ≠ 0 := by
        rintro rfl
        have := clustersFor_ne_zero v.geo (Nat.ne_of_gt hlt)
        rw [clustersFor_zero] at hcut
        omega
      obtain ⟨k, x, hrun, hx, -, hlast⟩ := lastClusterFor_run h hc hd hlen
      have hne := clustersFor_ne_zero v.geo h0
      obtain ⟨w, hrun', -⟩ := deleteNoCluster_tidy h.order hc hx (hlast h0) (by omega) (by omega)
      rw [if_pos hlt, run_bind_ok hrun, run_bind_error hrun']
      exact iff_of_false id (by omega)
  · rw [if_neg (Nat.lt_irrefl _), if_neg (Nat.lt_irrefl _)]
    constructor
    · rintro ⟨-, l, hl⟩
      have hsub : G.chain (v.home c) ⊆ l := fun k hk => by
        by_contra hno
        have := (hl.freed k (h.order.chains.ok _ hown k hk)).mpr ⟨hk, hno⟩
        exact this.1 this.2
      have hge := (List.subperm_of_subset (h.order.chains.nodup _ hown) hsub).length_le
      exact .inr ⟨rfl, by rw [hl.clusters] at hge; omega⟩
    · rintro (⟨hlt, -⟩ | ⟨-, hsame⟩)
      · exact absurd hlt (Nat.lt_irrefl _)
      · refine ⟨rfl, G.chain (v.home c), rfl, hc.first h.order, h.order.chains.links _ hown, h.order.chains.ok _ hown,
          hsame.symm, ?_, fun k _ => iff_of_false (fun hk => hk.1 hk.2) fun hk => hk.2 hk.1⟩
        rw [Fat.resized, length_contents, Nat.sub_self, List.replicate_zero, List.append_nil, List.take_of_length_le]
        · rfl
        · rw [length_contents]
  · rw [if_neg (by omega), if_pos hgt]
    refine iff_of_false ?_ (by omega)
    rw [Nat.mod_eq_of_lt (by omega)]
    by_cases hroom : (v.files (v.channels c).f).de.fileSize < capacity G v c
    · obtain ⟨G', w, hrun, -⟩ := padding_run h hc hd (n := length - (v.files (v.channels c).f).de.fileSize) (by omega)
        (by omega) hloop hroom rfl
      rw [run_bind_ok hrun]
      rintro ⟨hzero, -⟩
      generalize hk : min (length - (v.files (v.channels c).f).de.fileSize) (capacity G v c -
        (v.files (v.channels c).f).de.fileSize) = k at hzero
      by_cases hbig : k < 2 ^ 31
      · rw [ssize_of_lt hbig] at hzero
        omega
      · have := ssize_neg (Nat.le_of_not_lt hbig) (by omega)
        omega
    · obtain ⟨e, w, hrun⟩ := fatDoWrite_full none hwrites (n := length - (v.files (v.channels c).f).de.fileSize)
        (by omega) hloop (.inr (Nat.le_of_not_lt hroom))
      rw [run_bind_error hrun]
      exact id

/-- A letter is removed, and its cluster with it. -/
theorem fatFtruncate_truncates_letter :
    Truncates letterLayout (letterVolume oRdwr 0) 2 0 ((fatFtruncate 2 (0 : ℕ)).run (letterVolume oRdwr 0)) := by
  refine (fatFtruncate_truncates (letter_wellFormed oRdwr 0) (letter_usable oRdwr 0) (letter_writable oRdwr 0 rfl)
    (by decide) (letter_loop oRdwr 0)).mpr (.inl ⟨?_, ?_⟩)
  · change 0 < ((letterVolume oRdwr 0).files 1).de.fileSize
    rw [letter_size]
    decide
  · rw [Volume.home, letter_fileAddr]
    decide

/-- Extended by a byte, the file is one byte longer and the call returns 1; cut back it fails. -/
theorem fatFtruncate_letters : ((fatFtruncate 2 (2 : ℕ)).run (letterVolume oRdwr 0)).1 = .ok 1 ∧
    ¬Truncates letterLayout (letterVolume oRdwr 0) 2 2 ((fatFtruncate 2 (2 : ℕ)).run (letterVolume oRdwr 0)) ∧
    ((do let _ ← fatFtruncate 2 2; fatFtruncate 2 1 : FatM Int).run (letterVolume oRdwr 0)).1 = .error .enxio := by
  refine ⟨by decide +kernel, fun h => ?_, by decide +kernel⟩
  have hsize : ((letterVolume oRdwr 0).files ((letterVolume oRdwr 0).channels 2).f).de.fileSize = 1 := letter_size oRdwr 0
  have hcond := (fatFtruncate_truncates (letter_wellFormed oRdwr 0) (letter_usable oRdwr 0) (letter_writable oRdwr 0 rfl)
    (by decide) (letter_loop oRdwr 0)).mp h
  rw [hsize] at hcond
  omega

end FreeDos32.Fat
