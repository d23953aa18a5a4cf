import FreeDos32.Fat.Dir
import FreeDos32.Fat.Table
import FreeDos32.Library.Chain

namespace FreeDos32.Fat

structure NodeInfo where
  parent : Option ℕ
  deSector : ℕ
  deEntcnt : ℕ
  attr : UInt8
  lfnEntries : ℕ

structure FileInfo where
  de : Direntry
  deChanged : Bool
  deSector : ℕ
  deSecofs : ℕ
  firstCluster : ℕ

structure ChannelInfo where
  f : ℕ
  magic : Bool
  flags : ℕ
  references : ℕ
  dentry : Option ℕ

/-- The part of the state that the use of the volume's sectors depends on. -/
structure Books where
  geo : Geometry
  numBuffers : ℕ
  freeClusters : ℕ
  node : ℕ → NodeInfo
  nodes : List ℕ
  file : ℕ → FileInfo
  filesOpen : List ℕ
  channel : ℕ → ChannelInfo
  channelsOpen : List ℕ

def Dentry.info (d : Dentry) : NodeInfo := ⟨d.parent, d.deSector, d.deEntcnt, d.attr, d.lfnEntries⟩

def File.info (f : File) : FileInfo := ⟨f.de, f.deChanged, f.deSector, f.deSecofs, f.firstCluster⟩

def Channel.info (c : Channel) : ChannelInfo := ⟨c.f, c.magic, c.flags, c.references, c.dentry⟩

def books (v : Volume) : Books where
  geo := v.geo
  numBuffers := v.cache.numBuffers
  freeClusters := v.freeClusters
  node d := (v.dentries d).info
  nodes := v.dentriesSlab
  file f := (v.files f).info
  filesOpen := v.filesOpen
  channel c := (v.channels c).info
  channelsOpen := v.channelsOpen

def FileInfo.addr (f : FileInfo) (g : Geometry) : ℕ := f.deSector * g.bytesPerSector + f.deSecofs

def NodeInfo.addr (d : NodeInfo) (g : Geometry) : ℕ :=
  d.deSector * g.bytesPerSector + d.deEntcnt * 32 % g.bytesPerSector

def Books.fileAddr (b : Books) (f : ℕ) : ℕ := (b.file f).addr b.geo

def Books.nodeAddr (b : Books) (d : ℕ) : ℕ := (b.node d).addr b.geo

theorem length_toBytes (de : Direntry) : de.toBytes.length = 32 := by
  rw [Direntry.toBytes, List.length_map, List.length_range]

theorem toBytes_getD (de : Direntry) {i : ℕ} (h : i < 32) : de.toBytes.getD i 0 = de i := by
  rw [Direntry.toBytes, List.getD_eq_getElem?_getD, List.getElem?_map, List.getElem?_range h]
  rfl

def slotAt (m : ℕ → UInt8) (a : ℕ) : Direntry := fun i => m (a + i)

def Direntry.isDir (de : Direntry) : Bool := hasAttr de.attr fatADir

/-- A slot of a file or directory other than the entries of a directory for itself and its parent. -/
def Direntry.Live (de : Direntry) : Prop :=
  de 0 ≠ fatFreeent ∧ de 0 ≠ fatEndofdir ∧ hasAttr de.attr fatAVolid = false ∧ de.name ≠ dotName ∧
    de.name ≠ dotdotName

instance (de : Direntry) : Decidable de.Live := inferInstanceAs (Decidable (_ ∧ _))

/-- Files and directories go by the address of their entry; the root directory has none and goes by 0. -/
def IsDir (m : ℕ → UInt8) (a : ℕ) : Prop := a = 0 ∨ (slotAt m a).isDir = true

def Geometry.InRange (g : Geometry) (k : ℕ) : Prop := 2 ≤ k ∧ k ≤ g.dataClusters + 1

def Geometry.clusterAddr (g : Geometry) (k : ℕ) : ℕ := g.clusterSector k * g.bytesPerSector

def posAddr (g : Geometry) (clusters : List ℕ) (a pos : ℕ) : Option ℕ :=
  if a = 0 ∧ g.rootCluster = 0 then
    if pos < g.rootSize * g.bytesPerSector then some (g.rootSector * g.bytesPerSector + pos) else none
  else clusters[pos / g.bytesPerCluster]?.map fun k => g.clusterAddr k + pos % g.bytesPerCluster

def table (g : Geometry) (m : ℕ → UInt8) : ℕ → ℕ := fatEntry g m g.activeFat

def zeros (g : Geometry) (m : ℕ → UInt8) : ℕ := (List.range g.dataClusters).countP fun i => table g m (i + 2) == 0

/-- How the volume's sectors are used: `owners` are the files and directories, with their chains and,
where `named` says so, their names; where `fresh` says so, no slot shows a first cluster that its open
file no longer starts at. While a call is under way, `loose` are slots that look live and are
no owners', `gone` are owners whose slot has been deleted, `goneFiles` and `goneNodes` the file and the
node of one, and `stale` files that have been renamed but not in their cached entry. -/
structure Layout where
  owners : Set ℕ
  chain : ℕ → List ℕ
  named : Prop
  name : ℕ → ℕ → UInt8
  fresh : Prop
  reserved : ℕ → ℕ → ℕ
  loose : Set ℕ
  gone : Set ℕ
  goneFiles : Set ℕ
  goneNodes : Set ℕ
  stale : Set ℕ

def Layout.at (G : Layout) (g : Geometry) (a pos : ℕ) : Option ℕ := posAddr g (G.chain a) a pos

structure Entries (G : Layout) (g : Geometry) (m : ℕ → UInt8) : Prop where
  root : 0 ∈ G.owners
  slots : ∀ a ∈ G.owners, IsDir m a → ∀ pos p, 32 ∣ pos → G.at g a pos = some p → (slotAt m p).Live →
    p ∈ G.owners ∨ p ∈ G.loose
  linked : ∀ p ∈ G.owners, p ≠ 0 → p ∉ G.gone → (slotAt m p).Live
  inside : ∀ p ∈ G.owners, p ≠ 0 → ∃ a ∈ G.owners, IsDir m a ∧ ∃ pos, 32 ∣ pos ∧ G.at g a pos = some p
  size : ∀ a ∈ G.owners, IsDir m a → ∀ pos p, G.at g a pos = some p → pos < 65535 * 32

structure FileOk (G : Layout) (g : Geometry) (m : ℕ → UInt8) (f : FileInfo) : Prop where
  place : (f.deSector = 0 ∧ f.deSecofs = 0) ∨ (2 ≤ f.deSector ∧ f.deSecofs < g.bytesPerSector)
  owner : f.addr g ∈ G.owners
  first : f.firstCluster = (G.chain (f.addr g)).headD 0
  de : f.de.firstCluster = f.firstCluster
  dir : f.de.isDir = true ↔ IsDir m (f.addr g)
  live : f.addr g ≠ 0 → f.de.Live
  flushed : f.deChanged = false → f.addr g ≠ 0 → ∀ i, 11 ≤ i → i < 32 → m (f.addr g + i) = f.de i
  size : f.de.isDir = false → 0 < f.de.fileSize → f.firstCluster ≠ 0
  shows : f.de.isDir = true ∨ G.fresh → f.addr g ≠ 0 →
    (slotAt m (f.addr g)).firstCluster = 0 ∨ (slotAt m (f.addr g)).firstCluster = f.firstCluster

structure FilesOk (G : Layout) (b : Books) (m : ℕ → UInt8) : Prop where
  file : ∀ f ∈ b.filesOpen, f ∉ G.goneFiles → FileOk G b.geo m (b.file f)
  inj : ∀ f ∈ b.filesOpen, ∀ f' ∈ b.filesOpen, f ∉ G.goneFiles → f' ∉ G.goneFiles →
    b.fileAddr f = b.fileAddr f' → f = f'
  root : (G.chain 0).headD 0 = b.geo.rootCluster
  closed : ∀ p ∈ G.owners, p ≠ 0 → p ∉ G.gone → (∀ f ∈ b.filesOpen, f ∉ G.goneFiles → b.fileAddr f ≠ p) →
    (slotAt m p).firstCluster = (G.chain p).headD 0 ∧
      ((slotAt m p).isDir = false → 0 < (slotAt m p).fileSize → (slotAt m p).firstCluster ≠ 0)

structure NodeOk (G : Layout) (b : Books) (m : ℕ → UInt8) (d : NodeInfo) : Prop where
  owner : d.addr b.geo ∈ G.owners
  sector : 2 ≤ d.deSector
  attr : hasAttr d.attr fatADir = true ↔ IsDir m (d.addr b.geo)
  entry : ∃ p, d.parent = some p ∧ b.nodeAddr p ∈ G.owners ∧ IsDir m (b.nodeAddr p) ∧
    G.at b.geo (b.nodeAddr p) (d.deEntcnt * 32) = some (d.addr b.geo)

structure NodesOk (G : Layout) (b : Books) (m : ℕ → UInt8) : Prop where
  node : ∀ d ∈ b.nodes, d ∉ G.goneNodes → NodeOk G b m (b.node d)
  inj : ∀ d ∈ b.nodes, ∀ d' ∈ b.nodes, d ∉ G.goneNodes → d' ∉ G.goneNodes → b.nodeAddr d = b.nodeAddr d' → d = d'
  root : (b.node rootDentry).deSector = 0 ∧ (b.node rootDentry).deEntcnt = 0 ∧
    hasAttr (b.node rootDentry).attr fatADir = true ∧ (b.node rootDentry).parent = none
  channel : ∀ c ∈ b.channelsOpen, (b.channel c).f ∉ G.goneFiles →
    ∃ d, (b.channel c).dentry = some d ∧ b.nodeAddr d = b.fileAddr (b.channel c).f

/-- The short names on disk and those in the cached entries. -/
structure NamesOk (G : Layout) (b : Books) (m : ℕ → UInt8) : Prop where
  slot : ∀ p ∈ G.owners, p ≠ 0 → p ∉ G.gone → ∀ i < 11, m (p + i) = G.name p i
  file : ∀ f ∈ b.filesOpen, f ∉ G.goneFiles → f ∉ G.stale → b.fileAddr f ≠ 0 →
    ∀ i < 11, (b.file f).de i = G.name (b.fileAddr f) i
  stale : ∀ f ∈ G.stale, (b.file f).deChanged = false

/-- The cached objects tell the truth about the directories. -/
structure Recorded (G : Layout) (b : Books) (m : ℕ → UInt8) : Prop where
  entries : Entries G b.geo m
  files : FilesOk G b m
  nodes : NodesOk G b m
  names : G.named → NamesOk G b m

/-- The volume is in good order: besides, every file has a chain of its own and the free clusters are
counted. -/
structure Orderly (G : Layout) (b : Books) (m : ℕ → UInt8) : Prop extends Recorded G b m where
  chains : Chains (table b.geo m) fatEoc b.geo.InRange G.owners G.chain
  reserved : ∀ k < b.geo.numFats, ∀ n ≤ 1, fatEntry b.geo m k n = G.reserved k n
  free : b.freeClusters = zeros b.geo m

def CursorOk (G : Layout) (b : Books) (c : Channel) : Prop :=
  c.clusterIndex = 0 ∨ (G.chain (b.fileAddr c.f))[c.clusterIndex]? = some c.cluster

structure Sound (v : Volume) : Prop where
  media : MediaOk v
  geo : GeoOk v.geo v.cache.deviceEnd

def Cursors (G : Layout) (v : Volume) : Prop :=
  ∀ c ∈ v.channelsOpen, (v.channels c).f ∉ G.goneFiles → CursorOk G (books v) (v.channels c)

structure Tidy (G : Layout) (v : Volume) : Prop where
  sound : Sound v
  order : Orderly G (books v) v.byte
  cursors : Cursors G v

/-- `w` differs from `u` in nothing that the order of the volume depends on but cached clusters, which
are right. -/
structure Still (G : Layout) (u w : Volume) : Prop where
  sound : Sound w
  books : books w = books u
  byte : w.byte = u.byte
  cursors : Cursors G w

/-- No call is under way. -/
structure Layout.Settled (G : Layout) : Prop where
  loose : G.loose = ∅
  gone : G.gone = ∅
  goneFiles : G.goneFiles = ∅
  goneNodes : G.goneNodes = ∅
  stale : G.stale = ∅

end FreeDos32.Fat
