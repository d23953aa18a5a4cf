import FreeDos32.Fat.FreeSearch
import FreeDos32.Fat.Order
import FreeDos32.Library.Count

namespace FreeDos32.Fat

open Prog

variable {G : Layout} {b : Books} {g : Geometry} {e : ℕ} {m m' : ℕ → UInt8} {u v w : Volume} {a c x f n : ℕ}

theorem zeros_used (hx : g.InRange x) (hfree : table g m x = 0) (hused : table g m' x ≠ 0)
    (hne : ∀ n, g.InRange n → n ≠ x → (table g m' n = 0 ↔ table g m n = 0)) : zeros g m' + 1 = zeros g m := by
  unfold Geometry.InRange at hx hne
  refine countP_range_flip (j := x - 2) (by omega) ?_ ?_ fun i hi hij => ?_
  · rw [show x - 2 + 2 = x by omega]
    simpa using hfree
  · rw [show x - 2 + 2 = x by omega]
    simpa using hused
  · have := hne (i + 2) (by omega) (by omega)
    rw [Bool.eq_iff_iff]
    simpa using this

theorem zeros_same (hne : ∀ n, g.InRange n → (table g m' n = 0 ↔ table g m n = 0)) : zeros g m' = zeros g m := by
  apply List.countP_congr
  intro i hi
  have := hne (i + 2) ⟨by omega, by have := List.mem_range.mp hi; omega⟩
  simpa using this

theorem zeros_le (g : Geometry) (m : ℕ → UInt8) : zeros g m ≤ g.dataClusters := by
  have := List.countP_le_length (p := fun i => table g m (i + 2) == 0) (l := List.range g.dataClusters)
  rwa [List.length_range] at this

theorem zeros_pos (hx : g.InRange x) (hfree : table g m x = 0) : 0 < zeros g m := by
  rw [zeros, List.countP_pos_iff]
  refine ⟨x - 2, List.mem_range.mpr ?_, ?_⟩
  · have := hx.1
    have := hx.2
    omega
  · rw [show x - 2 + 2 = x by have := hx.1; omega]
    simpa using hfree

section Find

theorem Still.setNextFree (h : Still G u v) (k : ℕ) :
    Still G u { v with nextFree := k, fsinfoChanged := true } :=
  ⟨h.sound.of_same rfl rfl, h.books, h.byte, h.cursors⟩

/-- What a search of the clusters from `lo` up to `hi` comes to. -/
def FreeFound (u : Volume) (lo hi : ℕ) : Outcome Errno ℕ → Prop
  | .ok x => u.geo.InRange x ∧ table u.geo u.byte x = 0
  | .error err => err = .enospc ∧ ∀ n, lo ≤ n → n < hi → table u.geo u.byte n ≠ 0
  | .hang => False

theorem findFreeCluster_run (hv : Still G u v) : ∃ r w, findFreeCluster.run v = (r, w) ∧ Still G u w ∧
    w.channels = v.channels ∧ FreeFound u 2 (u.geo.dataClusters + 2) r := by
  have hg := hv.sound.geo
  have hchosen := findFreeCluster_chosen hv.sound.media (hg.tableOk.entriesOk hg.active)
  have hentry : ∀ n, v.entry n = table u.geo u.byte n := fun n => by rw [Volume.entry, hv.geo, hv.byte]
  generalize findFreeCluster.run v = res at hchosen
  cases hchosen with
  | found hk hw =>
    refine ⟨_, _, rfl, (hv.recached hw).setNextFree _, hw.channels, hv.geo ▸ hk.range, ?_⟩
    rw [← hentry]
    exact hk.free
  | none hused hw =>
    refine ⟨_, _, rfl, (hv.recached hw).setNextFree _, hw.channels, rfl, fun n h1 h2 => ?_⟩
    rw [← hentry]
    exact hused n (hv.geo ▸ ⟨h1, by omega⟩)

theorem zeros_eq_zero (h : ∀ n, 2 ≤ n → n < g.dataClusters + 2 → table g m n ≠ 0) : zeros g m = 0 := by
  rw [zeros, List.countP_eq_zero]
  intro i hi
  have := h (i + 2) (by omega) (by have := List.mem_range.mp hi; omega)
  simpa using this

end Find

def FileInfo.startAt (f : FileInfo) (x : ℕ) : FileInfo :=
  { f with firstCluster := x, de := f.de.setFirstCluster x, deChanged := true }

def Books.appended (b : Books) (f : ℕ) (l : List ℕ) (x : ℕ) : Books :=
  { b.setFile f (if l = [] then (b.file f).startAt x else b.file f) with freeClusters := b.freeClusters - 1 }

/-- The volume after `fat_append_cluster` has given the cluster `x` to the file of an open instance. -/
structure Appended (G : Layout) (u : Volume) (c x : ℕ) (w : Volume) : Prop where
  range : u.geo.InRange x
  free : table u.geo u.byte x = 0
  sound : Sound w
  books : books w = (books u).appended (u.channels c).f (G.chain (u.home c)) x
  outside : ∀ p, u.geo.rootSector * u.geo.bytesPerSector ≤ p → w.byte p = u.byte p
  entry : ∀ k < u.geo.numFats, ∀ n ≤ u.geo.dataClusters + 1, fatEntry u.geo w.byte k n =
    if n = x then fatEoc else if (G.chain (u.home c)).getLast? = some n then x else fatEntry u.geo u.byte k n

/-- The chain of the file of an open instance is known, and the number of free clusters. -/
structure Chained (G : Layout) (u : Volume) (c : ℕ) : Prop where
  range : ∀ k ∈ G.chain (u.home c), u.geo.InRange k
  first : (u.files (u.channels c).f).firstCluster = (G.chain (u.home c)).headD 0
  notFixed : (u.files (u.channels c).f).isFixedRoot = false
  free : u.freeClusters = zeros u.geo u.byte

theorem Usable.chained (hc : Usable G u c) (ho : Orderly G (books u) u.byte)
    (hfix : ¬(u.home c = 0 ∧ u.geo.rootCluster = 0)) : Chained G u c where
  range := ho.chains.ok _ (hc.owner ho)
  first := hc.first ho
  notFixed := by
    rw [← Bool.not_eq_true, isFixedRoot_iff]
    exact fun h => hfix (((hc.fileOk ho).fixedRoot ho.files.root).mp h)
  free := ho.free

section Append

variable (hn : Chained G u c)

include hn in
theorem Chained.nil_iff : G.chain (u.home c) = [] ↔ (u.files (u.channels c).f).firstCluster = 0 := by
  have hfirst := hn.first
  constructor
  · intro hnil
    rw [hfirst, hnil]
    rfl
  · intro hzero
    cases hl : G.chain (u.home c) with
    | nil => rfl
    | cons x l =>
      have hx := hn.range x (by rw [hl]; exact List.mem_cons_self)
      rw [hl, List.headD_cons, hzero] at hfirst
      unfold Geometry.InRange at hx
      omega

theorem books_setFile (f : ℕ) (g : File → File) (v : Volume) :
    books (v.setFile f g) = (books v).setFile f (g (v.files f)).info := by
  unfold books Books.setFile
  congr 1
  funext k
  simp only [Volume.setFile]
  by_cases hk : k = f
  · rw [if_pos hk, hk, Function.update_self]
  · rw [if_neg hk, Function.update_of_ne hk]

theorem Books.setFile_same (b : Books) (f : ℕ) : b.setFile f (b.file f) = b := by
  rw [Books.setFile, Function.update_eq_self]

def takeCluster (fid last cluster : ℕ) : FatM ℕ := do
  linkCluster fid last cluster
  Prog.update fun v => { v with
    freeClusters := (v.freeClusters + (2 ^ 32 - 1)) % 2 ^ 32
    fsinfoChanged := true }
  writeFatEntry cluster fatEoc
  pure cluster

include hn in
theorem linkCluster_run {l : ℕ} (hv : Still G u v)
    (hlast : G.chain (u.home c) ≠ [] → (G.chain (u.home c)).getLast? = some l) (hx : u.geo.InRange x) :
    ∃ w, (linkCluster (u.channels c).f l x).run v = (.ok (), w) ∧ Sound w ∧
      books w = (books u).setFile (u.channels c).f (if G.chain (u.home c) = [] then
        ((books u).file (u.channels c).f).startAt x else (books u).file (u.channels c).f) ∧
      (∀ p, u.geo.rootSector * u.geo.bytesPerSector ≤ p → w.byte p = u.byte p) ∧
      w.channels = v.channels ∧
      ∀ k < u.geo.numFats, ∀ n ≤ u.geo.dataClusters + 1, fatEntry u.geo w.byte k n =
        if (G.chain (u.home c)).getLast? = some n then x else fatEntry u.geo u.byte k n := by
  have hinfo := hv.file (u.channels c).f
  have hfc : (v.files (u.channels c).f).firstCluster = (u.files (u.channels c).f).firstCluster :=
    congrArg FileInfo.firstCluster hinfo
  rw [linkCluster, run_bind_state, hfc]
  by_cases hnil : G.chain (u.home c) = []
  · rw [if_pos (hn.nil_iff.mp hnil), if_pos hnil, hnil]
    refine ⟨_, rfl, hv.sound.of_same rfl rfl, ?_, fun p _ => congrFun hv.byte p, rfl, fun k _ n _ => ?_⟩
    · rw [books_setFile, hv.books]
      congr 1
      rw [show (books u).file (u.channels c).f = (u.files (u.channels c).f).info from rfl, ← hinfo]
      rfl
    · change fatEntry u.geo v.byte k n = _
      rw [hv.byte]
      rfl
  · have hl := hlast hnil
    have hrange := hn.range l (List.mem_of_getLast? hl)
    rw [if_neg (fun h => hnil (hn.nil_iff.mpr h)), if_neg hnil]
    obtain ⟨w, hrun, hw⟩ := writeFatEntry_run hv.sound.media hv.sound.geo (n := l) (by rw [hv.geo]; exact hrange.2) x
    have hg : GeoOk u.geo v.cache.deviceEnd := hv.geo ▸ hv.sound.geo
    refine ⟨w, hrun, hw.sound hv.sound, ?_, fun p hp => ?_, hw.channels, fun k hk n hn => ?_⟩
    · rw [hw.books, hv.books, Books.setFile_same]
    · rw [hw.byte, hv.geo, storeEntry_outside hg hrange.2 hp, hv.byte]
    · rw [hw.byte, hv.geo, hv.byte, fatEntry_storeEntry hg (.inl hx.2) hrange.2 hn hk, hl]
      exact if_congr ⟨fun h => by rw [h], fun h => (Option.some.inj h).symm⟩ rfl rfl

include hn in
theorem takeCluster_run {l : ℕ} (hv : Still G u v)
    (hlast : G.chain (u.home c) ≠ [] → (G.chain (u.home c)).getLast? = some l) (hx : u.geo.InRange x)
    (hfree : table u.geo u.byte x = 0) :
    ∃ w, (takeCluster (u.channels c).f l x).run v = (.ok x, w) ∧ Appended G u c x w ∧ w.channels = v.channels := by
  obtain ⟨y, hrun, hsound, hbooks, hout, hch, hentry⟩ := linkCluster_run hn hv hlast hx
  have hygeo : y.geo = u.geo := congrArg Books.geo hbooks
  have hcount : (y.freeClusters + (2 ^ 32 - 1)) % 2 ^ 32 = u.freeClusters - 1 := by
    have hsame : y.freeClusters = u.freeClusters := congrArg Books.freeClusters hbooks
    have hle := zeros_le u.geo u.byte
    have hlim := (hygeo ▸ hsound.geo : GeoOk u.geo _).dataClusters_lt
    have hzeros : u.freeClusters = zeros u.geo u.byte := hn.free
    have hpos := zeros_pos hx hfree
    omega
  rw [takeCluster, run_bind_ok hrun, run_bind_update, hcount]
  generalize hz : ({ y with freeClusters := u.freeClusters - 1, fsinfoChanged := true } : Volume) = z
  have hzs : Sound z := hsound.of_same (by rw [← hz]) (by rw [← hz])
  have hzgeo : z.geo = u.geo := by rw [← hz, ← hygeo]
  have hzbyte : z.byte = y.byte := byte_of_same (by rw [← hz]) (by rw [← hz])
  have hzbooks : books z = (books u).appended (u.channels c).f (G.chain (u.home c)) x := by
    rw [← hz, Books.appended, ← hbooks]
    rfl
  obtain ⟨w, hrun', hw⟩ := writeFatEntry_run hzs.media hzs.geo (n := x) (by rw [hzgeo]; exact hx.2) fatEoc
  have hg : GeoOk u.geo z.cache.deviceEnd := hzgeo ▸ hzs.geo
  rw [run_bind_ok hrun']
  refine ⟨w, rfl, ⟨hx, hfree, hw.sound hzs, hw.books.trans hzbooks, fun p hp => ?_, fun k hk n hn => ?_⟩, ?_⟩
  · rw [hw.byte, hzgeo, hzbyte, storeEntry_outside hg hx.2 hp, hout p hp]
  · rw [hw.byte, hzgeo, hzbyte, fatEntry_storeEntry hg (.inr rfl) hx.2 hn hk, hentry k hk n hn]
  · rw [hw.channels, ← hz]
    exact hch

include hn in
theorem fatAppendCluster_run (hv : Still G u v)
    (hlast : G.chain (u.home c) ≠ [] → (G.chain (u.home c)).getLast? = some (v.channels c).cluster) :
    (∃ x w, (fatAppendCluster c).run v = (.ok x, w) ∧ Appended G u c x w ∧ w.channels = v.channels) ∨
      (∃ w, (fatAppendCluster c).run v = (.error .enospc, w) ∧ Still G u w) ∧ u.freeClusters = 0 := by
  have hinfo := hv.file (u.channels c).f
  have hnot : ¬(v.files (v.channels c).f).isFixedRoot = true := by
    rw [hv.channelFile, isFixedRoot_iff]
    have hds : (v.files (u.channels c).f).deSector = (u.files (u.channels c).f).deSector :=
      congrArg FileInfo.deSector hinfo
    have hfc : (v.files (u.channels c).f).firstCluster = (u.files (u.channels c).f).firstCluster :=
      congrArg FileInfo.firstCluster hinfo
    rw [hds, hfc, ← isFixedRoot_iff, hn.notFixed]
    decide
  obtain ⟨r, y, hrun, hy, hch, hfound⟩ := findFreeCluster_run hv
  rw [fatAppendCluster, run_bind_state, if_neg hnot]
  cases r with
  | hang => exact hfound.elim
  | ok x =>
    obtain ⟨hx, hfree⟩ := hfound
    obtain ⟨w, hrun', hw, hch'⟩ := takeCluster_run hn hy hlast hx hfree
    rw [takeCluster] at hrun'
    rw [run_bind_ok hrun, hv.channelFile, hrun']
    exact .inl ⟨x, w, rfl, hw, hch'.trans hch⟩
  | error err =>
    obtain ⟨rfl, hnone⟩ := hfound
    rw [run_bind_error hrun]
    exact .inr ⟨⟨y, rfl, hy⟩, hn.free.trans (zeros_eq_zero hnone)⟩

end Append

theorem headD_snoc {l : List ℕ} (hl : l ≠ []) (x : ℕ) : (l ++ [x]).headD 0 = l.headD 0 := by
  cases l with
  | nil => exact absurd rfl hl
  | cons y l => rfl

theorem FileOk.startAt {L : Set ℕ} {y : FileInfo} (h : FileOk G g m y) (hg : GeoOk g e) (hx : g.InRange x)
    (hnil : y.firstCluster = 0) : FileOk (G.setChain (y.addr g) [x] L) g m (y.startAt x) where
  place := h.place
  owner := h.owner
  first := by
    change x = ((G.setChain (y.addr g) [x] L).chain (y.addr g)).headD 0
    rw [Layout.setChain_self]
    rfl
  de := by
    have hlim := hg.dataClusters_lt
    have hr := hx.2
    exact firstCluster_setFirstCluster _ (by omega)
  dir := by
    have hattr : (y.de.setFirstCluster x).isDir = y.de.isDir := isDir_de_congr (setFirstCluster_other _ _ (by omega))
    rw [FileInfo.startAt, hattr]
    exact h.dir
  live h0 := (live_congr fun i hi => setFirstCluster_other _ _ (by omega)).mpr (h.live h0)
  flushed hc := absurd hc (by simp [FileInfo.startAt])
  size _ _ h0 := by
    have h2 := hx.1
    have h0' : x = 0 := h0
    omega
  shows hd h0 := by
    have hattr : (y.de.setFirstCluster x).isDir = y.de.isDir := isDir_de_congr (setFirstCluster_other _ _ (by omega))
    rw [FileInfo.startAt, hattr] at hd
    rcases h.shows hd h0 with hz | hz
    · exact .inl hz
    · exact .inl (hz.trans hnil)

theorem FileOk.setChain_head {l : List ℕ} {L : Set ℕ} {y : FileInfo} (h : FileOk G g m y)
    (hl : l.headD 0 = (G.chain (y.addr g)).headD 0) : FileOk (G.setChain (y.addr g) l L) g m y := by
  refine ⟨h.place, h.owner, ?_, h.de, h.dir, h.live, h.flushed, h.size, h.shows⟩
  rw [Layout.setChain_self, hl]
  exact h.first

namespace Appended

variable {L : Set ℕ} (ho : Orderly G (Fat.books u) u.byte) (hc : Usable G u c) (h : Appended G u c x w)

include h in
theorem geo_eq : w.geo = u.geo := congrArg Books.geo h.books

include h in
theorem geoOk : GeoOk u.geo w.cache.deviceEnd := h.geo_eq ▸ h.sound.geo

include ho h in
theorem not_mem {i : ℕ} (hi : i ∈ G.owners) : x ∉ G.chain i := by
  refine ho.chains.not_mem (x := x) ?_ ?_ hi
  · have hf : table (Fat.books u).geo u.byte x = 0 := h.free
    rw [hf]
    exact fun hz => absurd hz.1 (by decide)
  · have hf : table (Fat.books u).geo u.byte x = 0 := h.free
    rw [hf]
    decide

include ho hc h in
theorem chains : Chains (table u.geo w.byte) fatEoc u.geo.InRange G.owners
    (Function.update G.chain (u.home c) (G.chain (u.home c) ++ [x])) := by
  have hown := hc.owner ho
  have hentry : ∀ n ≤ u.geo.dataClusters + 1, table u.geo w.byte n = if n = x then fatEoc
      else if (G.chain (u.home c)).getLast? = some n then x else table u.geo u.byte n :=
    fun n hn => h.entry _ h.geoOk.active n hn
  have hlast : ∀ i ∈ G.owners, i ≠ u.home c → ∀ n ∈ G.chain i, (G.chain (u.home c)).getLast? ≠ some n :=
    fun i hi hne n hn he => ho.chains.disjoint i hi _ hown hne n hn (List.mem_of_getLast? he)
  have hne : ∀ {i}, i ∈ G.owners → ∀ n ∈ G.chain i, n ≠ x := fun hi n hn he => h.not_mem ho hi (he ▸ hn)
  have hins : insert (u.home c) G.owners = G.owners := Set.insert_eq_of_mem hown
  rw [← hins]
  refine ho.chains.replace _ (.snoc (ho.chains.links _ hown) ?_ ?_ ?_ (ho.chains.nodup _ hown)) ?_ ?_ ?_ ?_
  · intro n hn hnl
    rw [hentry n (ho.chains.ok _ hown n hn).2, if_neg (hne hown n hn), if_neg hnl]
    rfl
  · intro n hn
    have hm := List.mem_of_getLast? hn
    rw [hentry n (ho.chains.ok _ hown n hm).2, if_neg (hne hown n hm), if_pos hn]
  · rw [hentry x h.range.2, if_pos rfl]
  · intro n hn
    rcases List.mem_append.mp hn with hn | hn
    · exact ho.chains.ok _ hown n hn
    · rw [List.mem_singleton.mp hn]
      exact h.range
  · exact List.nodup_append.mpr ⟨ho.chains.nodup _ hown, by simp, fun n hn k hk =>
      List.mem_singleton.mp hk ▸ hne hown n hn⟩
  · intro i hi hni n hn hmem
    rcases List.mem_append.mp hn with hn | hn
    · exact ho.chains.disjoint i hi _ hown hni n hmem hn
    · exact hne hi n hmem (List.mem_singleton.mp hn)
  · intro i hi hni n hn
    rw [hentry n (ho.chains.ok i hi n hn).2, if_neg (hne hi n hn), if_neg (hlast i hi hni n hn)]
    rfl

include ho hc h in
theorem free_eq : u.freeClusters - 1 = zeros u.geo w.byte := by
  have hown := hc.owner ho
  have hused : zeros u.geo w.byte + 1 = zeros u.geo u.byte := zeros_used h.range h.free ?_ fun n hn hne => ?_
  · have hz : u.freeClusters = zeros u.geo u.byte := ho.free
    omega
  · have hx : table u.geo w.byte x = fatEoc := (h.entry _ h.geoOk.active x h.range.2).trans (if_pos rfl)
    rw [hx]
    decide
  · have hn' : table u.geo w.byte n = if (G.chain (u.home c)).getLast? = some n then x else table u.geo u.byte n :=
      (h.entry _ h.geoOk.active n hn.2).trans (if_neg hne)
    rw [hn']
    split
    · next hlast =>
      -- the last cluster of the chain holds an end mark before and the new cluster afterwards
      have hm := List.mem_of_getLast? hlast
      have h2 := h.range.1
      rcases (ho.chains.links _ hown).entry hm with he | he
      · have he' : table u.geo u.byte n = fatEoc := he
        rw [he']
        have : fatEoc ≠ 0 := by decide
        omega
      · have he' := (ho.chains.ok _ hown _ he).1
        have he'' : 2 ≤ table u.geo u.byte n := he'
        omega
    · rfl

include ho hc h in
theorem orderly (hG : G.Grows u.geo u.byte (u.home c) (G.chain (u.home c) ++ [x]) L)
    (hst : (u.channels c).f ∉ G.stale) :
    Orderly (G.setChain (u.home c) (G.chain (u.home c) ++ [x]) L) (Fat.books w) w.byte := by
  have hown := hc.owner ho
  rw [h.books]
  refine { Recorded.sameSlots (Recorded.setFree (Recorded.setFile ho.toRecorded hc.file hc.there ?_ hG ?_ ?_
    (.inl hst)) (u.freeClusters - 1)) (h.geoOk.sameSlots_of_table h.outside) with
      chains := h.chains ho hc, reserved := ?_, free := h.free_eq ho hc }
  · split <;> rfl
  · split
    · next hnil =>
      have hfile := hc.fileOk ho
      have hzero : (u.files (u.channels c).f).firstCluster = 0 := by
        rw [hc.first ho, hnil]
        rfl
      rw [hnil]
      exact hfile.startAt h.geoOk h.range hzero
    · next hnil => exact (hc.fileOk ho).setChain_head (headD_snoc hnil x)
  · intro i hi
    split
    · exact setFirstCluster_other _ _ (by omega)
    · rfl
  · intro k hk n hn
    have hx := h.range.1
    refine (h.entry k hk n ?_).trans ?_
    · have := h.range.2
      change n ≤ u.geo.dataClusters + 1
      omega
    · rw [if_neg (by omega), if_neg fun he => ?_]
      · exact ho.reserved k hk n hn
      · have := (ho.chains.ok _ hown n (List.mem_of_getLast? he)).1
        omega

include h in
theorem fileAddr_eq (k : ℕ) : (Fat.books w).fileAddr k = (Fat.books u).fileAddr k := by
  rw [h.books]
  refine Books.setFile_addr (b := Fat.books u) ?_ k
  split <;> rfl

include h in
theorem channelFile (k : ℕ) : (w.channels k).f = (u.channels k).f :=
  congrArg ChannelInfo.f (congrFun (congrArg Books.channel h.books) k)

include h in
theorem cursors {v : Volume} (hv : Still G u v) (hch : w.channels = v.channels) :
    Cursors (G.setChain (u.home c) (G.chain (u.home c) ++ [x]) L) w := by
  intro k hk hkg
  have hopen : w.channelsOpen = v.channelsOpen := (congrArg Books.channelsOpen h.books).trans hv.channelsOpen.symm
  rw [hopen] at hk
  rw [hch] at hkg ⊢
  rcases hv.cursors k hk hkg with h0 | hcur
  · exact .inl h0
  · right
    rw [hv.books] at hcur
    rw [h.fileAddr_eq]
    by_cases ha : (Fat.books u).fileAddr (v.channels k).f = u.home c
    · rw [ha] at hcur ⊢
      rw [Layout.setChain_self, List.getElem?_append_left (List.getElem?_eq_some_iff.mp hcur).1]
      exact hcur
    · rw [Layout.setChain_ne ha]
      exact hcur

include ho hc h in
theorem tidy {v : Volume} (hv : Still G u v) (hch : w.channels = v.channels)
    (hG : G.Grows u.geo u.byte (u.home c) (G.chain (u.home c) ++ [x]) L) (hst : (u.channels c).f ∉ G.stale) :
    Tidy (G.setChain (u.home c) (G.chain (u.home c) ++ [x]) L) w :=
  ⟨h.sound, h.orderly ho hc hG hst, h.cursors hv hch⟩

include hc h in
theorem usable (G' : Layout) (hG' : G'.goneFiles = G.goneFiles) : Usable G' w c := by
  refine ⟨?_, ?_, ?_⟩
  · have hopen : w.channelsOpen = u.channelsOpen := congrArg Books.channelsOpen h.books
    rw [hopen]
    exact hc.channel
  · have hopen : w.filesOpen = u.filesOpen := congrArg Books.filesOpen h.books
    rw [hopen, h.channelFile]
    exact hc.file
  · rw [h.channelFile, hG']
    exact hc.there

end Appended

end FreeDos32.Fat
