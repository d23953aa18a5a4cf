import FreeDos32.Fat.RefsTree
import FreeDos32.Fat.Slots

namespace FreeDos32.Fat

open Prog

variable {G : Layout} {b b' : Books} {m : ℕ → UInt8} {c d f : ℕ}

def Books.newFile (b : Books) (f : ℕ) (x : FileInfo) : Books :=
  { b with file := Function.update b.file f x, filesOpen := f :: b.filesOpen }

def Books.newNode (b : Books) (d : ℕ) (x : NodeInfo) : Books :=
  { b with node := Function.update b.node d x, nodes := d :: b.nodes }

def Books.newChannel (b : Books) (c : ℕ) (x : ChannelInfo) : Books :=
  { b with channel := Function.update b.channel c x, channelsOpen := c :: b.channelsOpen }

theorem Books.newFile_self (f : ℕ) (x : FileInfo) : (b.newFile f x).file f = x := Function.update_self ..

theorem Books.newFile_ne {k : ℕ} (h : k ≠ f) (x : FileInfo) : (b.newFile f x).file k = b.file k :=
  Function.update_of_ne h ..

theorem Books.newFile_addr_ne {k : ℕ} (h : k ≠ f) (x : FileInfo) : (b.newFile f x).fileAddr k = b.fileAddr k := by
  rw [Books.fileAddr, Books.newFile_ne h]
  rfl

theorem Books.newFile_addr_self (f : ℕ) (x : FileInfo) : (b.newFile f x).fileAddr f = x.addr b.geo := by
  rw [Books.fileAddr, Books.newFile_self]
  rfl

theorem Books.newNode_self (d : ℕ) (x : NodeInfo) : (b.newNode d x).node d = x := Function.update_self ..

theorem Books.newNode_ne {k : ℕ} (h : k ≠ d) (x : NodeInfo) : (b.newNode d x).node k = b.node k :=
  Function.update_of_ne h ..

theorem Books.newNode_addr_ne {k : ℕ} (h : k ≠ d) (x : NodeInfo) : (b.newNode d x).nodeAddr k = b.nodeAddr k := by
  rw [Books.nodeAddr, Books.newNode_ne h]
  rfl

theorem Books.newNode_addr_self (d : ℕ) (x : NodeInfo) : (b.newNode d x).nodeAddr d = x.addr b.geo := by
  rw [Books.nodeAddr, Books.newNode_self]
  rfl

theorem Recorded.newFile {x : FileInfo} (h : Recorded G b m) (hf : f ∉ b.filesOpen) (hfs : G.named → f ∉ G.stale)
    (hx : FileOk G b.geo m x) (hno : ∀ k ∈ b.filesOpen, k ∉ G.goneFiles → b.fileAddr k ≠ x.addr b.geo)
    (hch : ∀ c ∈ b.channelsOpen, (b.channel c).f ≠ f)
    (hname : G.named → x.addr b.geo ≠ 0 → ∀ i < 11, x.de i = G.name (x.addr b.geo) i) :
    Recorded G (b.newFile f x) m := by
  have hne : ∀ {k}, k ∈ b.filesOpen → k ≠ f := fun hk he => hf (he ▸ hk)
  refine ⟨h.entries, ⟨fun k hk hkg => ?_, fun k hk k' hk' hkg hkg' he => ?_, h.files.root, fun q hq h0 hqg hall => ?_⟩,
    ⟨fun d hd hdg => ?_, h.nodes.inj, h.nodes.root, fun c hc hcg => ?_⟩, fun hn => ?_⟩
  · rcases List.mem_cons.mp hk with rfl | hk
    · rw [Books.newFile_self]
      exact hx
    · rw [Books.newFile_ne (hne hk)]
      exact h.files.file k hk hkg
  · rcases List.mem_cons.mp hk with hkf | hkb <;> rcases List.mem_cons.mp hk' with hkf' | hkb'
    · rw [hkf, hkf']
    · rw [hkf, Books.newFile_addr_self, Books.newFile_addr_ne (hne hkb')] at he
      exact absurd he.symm (hno k' hkb' hkg')
    · rw [hkf', Books.newFile_addr_self, Books.newFile_addr_ne (hne hkb)] at he
      exact absurd he (hno k hkb hkg)
    · rw [Books.newFile_addr_ne (hne hkb), Books.newFile_addr_ne (hne hkb')] at he
      exact h.files.inj k hkb k' hkb' hkg hkg' he
  · refine h.files.closed q hq h0 hqg fun k hk hkg he => hall k (List.mem_cons_of_mem _ hk) hkg ?_
    rw [Books.newFile_addr_ne (hne hk)]
    exact he
  · have hn := h.nodes.node d hd hdg
    exact hn.layout rfl hn.owner Iff.rfl fun _ _ h1 h2 h3 => ⟨h1, h2, h3⟩
  · obtain ⟨d, hd, he⟩ := h.nodes.channel c hc hcg
    exact ⟨d, hd, he.trans (Books.newFile_addr_ne (hch c hc) x).symm⟩
  · have hnames := h.names hn
    refine ⟨hnames.slot, fun k hk hkg hks h0 i hi => ?_, fun k hk => ?_⟩
    · rcases List.mem_cons.mp hk with rfl | hk
      · rw [Books.newFile_addr_self] at h0 ⊢
        rw [Books.newFile_self]
        exact hname hn h0 i hi
      · rw [Books.newFile_addr_ne (hne hk)] at h0 ⊢
        rw [Books.newFile_ne (hne hk)]
        exact hnames.file k hk hkg hks h0 i hi
    · have hkf : k ≠ f := fun he => hfs hn (he ▸ hk)
      rw [Books.newFile_ne hkf]
      exact hnames.stale k hk

theorem Recorded.newNode {x : NodeInfo} (h : Recorded G b m) (hd : d ∉ b.nodes) (hroot : d ≠ rootDentry)
    (hx : NodeOk G b m x) (hno : ∀ k ∈ b.nodes, k ∉ G.goneNodes → b.nodeAddr k ≠ x.addr b.geo)
    (hpar : ∀ k ∈ b.nodes, (b.node k).parent ≠ some d) (hxpar : x.parent ≠ some d)
    (hch : ∀ c ∈ b.channelsOpen, (b.channel c).dentry ≠ some d) : Recorded G (b.newNode d x) m := by
  have hne : ∀ {k}, k ∈ b.nodes → k ≠ d := fun hk he => hd (he ▸ hk)
  have hkeep : ∀ {y : NodeInfo}, NodeOk G b m y → y.parent ≠ some d → NodeOk G (b.newNode d x) m y := fun hy hyd =>
    hy.layout rfl hy.owner Iff.rfl fun k hk h1 h2 h3 => by
      have hkd : k ≠ d := fun he => hyd (he ▸ hk)
      rw [Books.newNode_addr_ne hkd]
      exact ⟨h1, h2, h3⟩
  refine ⟨h.entries, ⟨h.files.file, h.files.inj, h.files.root, h.files.closed⟩, ⟨fun k hk hkg => ?_,
    fun k hk k' hk' hkg hkg' he => ?_, ?_, fun c hc hcg => ?_⟩, fun hn => ?_⟩
  · rcases List.mem_cons.mp hk with rfl | hk
    · rw [Books.newNode_self]
      exact hkeep hx hxpar
    · rw [Books.newNode_ne (hne hk)]
      exact hkeep (h.nodes.node k hk hkg) (hpar k hk)
  · rcases List.mem_cons.mp hk with hkd | hkb <;> rcases List.mem_cons.mp hk' with hkd' | hkb'
    · rw [hkd, hkd']
    · rw [hkd, Books.newNode_addr_self, Books.newNode_addr_ne (hne hkb')] at he
      exact absurd he.symm (hno k' hkb' hkg')
    · rw [hkd', Books.newNode_addr_self, Books.newNode_addr_ne (hne hkb)] at he
      exact absurd he (hno k hkb hkg)
    · rw [Books.newNode_addr_ne (hne hkb), Books.newNode_addr_ne (hne hkb')] at he
      exact h.nodes.inj k hkb k' hkb' hkg hkg' he
  · rw [Books.newNode_ne (Ne.symm hroot)]
    exact h.nodes.root
  · obtain ⟨k, hk, he⟩ := h.nodes.channel c hc hcg
    have hkd : k ≠ d := fun hkd => hch c hc (hkd ▸ hk)
    exact ⟨k, hk, by rw [Books.newNode_addr_ne hkd]; exact he⟩
  · exact ⟨(h.names hn).slot, (h.names hn).file, (h.names hn).stale⟩

theorem Recorded.newChannel {x : ChannelInfo} (h : Recorded G b m) (hc : c ∉ b.channelsOpen)
    (hx : x.f ∉ G.goneFiles → ∃ d, x.dentry = some d ∧ b.nodeAddr d = b.fileAddr x.f) :
    Recorded G (b.newChannel c x) m := by
  refine ⟨h.entries, ⟨h.files.file, h.files.inj, h.files.root, h.files.closed⟩, ⟨fun k hk hkg => ?_, h.nodes.inj,
    h.nodes.root, fun k hk hkg => ?_⟩, fun hn => ⟨(h.names hn).slot, (h.names hn).file, (h.names hn).stale⟩⟩
  · have hn := h.nodes.node k hk hkg
    exact hn.layout rfl hn.owner Iff.rfl fun _ _ h1 h2 h3 => ⟨h1, h2, h3⟩
  · by_cases hkc : k = c
    · subst hkc
      have hself : (b.newChannel k x).channel k = x := Function.update_self ..
      rw [hself] at hkg ⊢
      exact hx hkg
    · have hother : (b.newChannel c x).channel k = b.channel k := Function.update_of_ne hkc ..
      rw [hother] at hkg ⊢
      exact h.nodes.channel k ((List.mem_cons.mp hk).resolve_left hkc) hkg

/-- Objects are given up; open instances of files keep their file and node. -/
structure Books.Less (b b' : Books) : Prop where
  geo : b'.geo = b.geo
  node : b'.node = b.node
  nodes : b'.nodes ⊆ b.nodes
  file : b'.file = b.file
  filesOpen : b'.filesOpen ⊆ b.filesOpen
  channelFile : ∀ c, (b'.channel c).f = (b.channel c).f
  channelNode : ∀ c, (b'.channel c).dentry = (b.channel c).dentry
  channelsOpen : b'.channelsOpen ⊆ b.channelsOpen

theorem Recorded.less (h : Recorded G b m) (hb : b.Less b')
    (hflush : ∀ f ∈ b.filesOpen, f ∉ b'.filesOpen → f ∉ G.goneFiles → b.fileAddr f ∉ G.gone → b.fileAddr f ≠ 0 →
      (b.file f).deChanged = false) : Recorded G b' m := by
  have hfa : ∀ k, b'.fileAddr k = b.fileAddr k := fun k => by rw [Books.fileAddr, Books.fileAddr, hb.file, hb.geo]
  have hna : ∀ k, b'.nodeAddr k = b.nodeAddr k := fun k => by rw [Books.nodeAddr, Books.nodeAddr, hb.node, hb.geo]
  refine ⟨hb.geo ▸ h.entries, ⟨fun k hk hkg => ?_, fun k hk k' hk' hkg hkg' he => ?_, ?_, fun q hq h0 hqg hno => ?_⟩,
    ⟨fun d hd hdg => ?_, fun d hd d' hd' hdg hdg' he => ?_, ?_, fun c hc hcg => ?_⟩, fun hn => ?_⟩
  · rw [hb.geo, hb.file]
    exact h.files.file k (hb.filesOpen hk) hkg
  · rw [hfa, hfa] at he
    exact h.files.inj k (hb.filesOpen hk) k' (hb.filesOpen hk') hkg hkg' he
  · rw [hb.geo]
    exact h.files.root
  · by_cases hopen : ∃ k ∈ b.filesOpen, k ∉ G.goneFiles ∧ b.fileAddr k = q
    · -- the entry has been written back before the file was given up
      obtain ⟨k, hk, hkg, he⟩ := hopen
      have hk' : k ∉ b'.filesOpen := fun hk' => hno k hk' hkg (by rw [hfa, he])
      have hok := h.files.file k hk hkg
      have haddr : (b.file k).addr b.geo = q := he
      have hslot := hok.flushed (hflush k hk hk' hkg (he ▸ hqg) (he ▸ h0)) (by rw [haddr]; exact h0)
      rw [haddr] at hslot
      have hfirst := hok.first
      rw [haddr] at hfirst
      have hfirst' : (slotAt m q).firstCluster = _ := firstCluster_congr hslot
      have hsize' : (slotAt m q).fileSize = _ := fileSize_congr hslot
      have hdir' : (slotAt m q).isDir = _ := isDir_de_congr (hslot 11 (by omega) (by omega))
      rw [hfirst', hsize', hdir', hok.de]
      exact ⟨hfirst, hok.size⟩
    · exact h.files.closed q hq h0 hqg fun k hk hkg he => hopen ⟨k, hk, hkg, he⟩
  · have hn := h.nodes.node d (hb.nodes hd) hdg
    rw [hb.node]
    exact hn.layout hb.geo hn.owner Iff.rfl fun k _ h1 h2 h3 => by
      rw [hna]
      exact ⟨h1, h2, h3⟩
  · rw [hna, hna] at he
    exact h.nodes.inj d (hb.nodes hd) d' (hb.nodes hd') hdg hdg' he
  · rw [hb.node]
    exact h.nodes.root
  · rw [hb.channelFile] at hcg ⊢
    obtain ⟨k, hk, he⟩ := h.nodes.channel c (hb.channelsOpen hc) hcg
    exact ⟨k, (hb.channelNode c).trans hk, by rw [hna, hfa, he]⟩
  · have hnames := h.names hn
    refine ⟨hnames.slot, fun k hk hkg hks h0 i hi => ?_, fun k hk => ?_⟩
    · rw [hfa] at h0 ⊢
      rw [hb.file]
      exact hnames.file k (hb.filesOpen hk) hkg hks h0 i hi
    · rw [hb.file]
      exact hnames.stale k hk

end FreeDos32.Fat
