import FreeDos32.Fat.FileStore
import FreeDos32.Fat.Pointers
import FreeDos32.Fat.Skeleton
import FreeDos32.Fat.WriteRoom

namespace FreeDos32.Fat

open Prog

variable {G G' : Layout} {s t : FileStore} {v w : Volume} {c f k n pos : ℕ} {new data : List UInt8}

structure HandleShown (v : Volume) (c : ℕ) (h : Handle) : Prop where
  channel : c ∈ v.channelsOpen
  regular : (v.files h.file).de.isDir = false
  magic : (v.channels c).magic = true
  file : (v.channels c).f = h.file
  flags : (v.channels c).flags = h.flags
  pointer : pointers v c = h.pointer

/-- A volume in good order on which the open instances `s.opened` of regular files are as the store says. -/
structure Shows (G : Layout) (s : FileStore) (v : Volume) : Prop where
  wellFormed : WellFormed G v
  loop : 2 ^ 32 + v.geo.dataClusters ≤ v.geo.loopBound
  files : ∀ k ∈ v.channelsOpen, (v.channels k).f ∈ v.filesOpen
  clusterBytes : v.geo.bytesPerCluster = s.clusterBytes
  free : v.freeClusters = s.free
  handle : ∀ c ∈ s.opened, HandleShown v c (s.handles c)
  bytes : ∀ c ∈ s.opened, contents G v (s.handles c).file = s.bytes (s.handles c).file
  clusters : ∀ c ∈ s.opened, (G.chain ((books v).fileAddr (s.handles c).file)).length = s.clusters (s.handles c).file

/-- Some layout shows that the volume is as the store says. -/
def Shown (s : FileStore) (v : Volume) : Prop := ∃ G, Shows G s v

theorem FileStore.hold_same (f : ℕ) (s : FileStore) : s.hold f (s.bytes f) (s.clusters f) = s := by
  simp [FileStore.hold]

namespace Shows

section Instance

variable (h : Shows G s v) (hc : c ∈ s.opened)

include h hc

theorem channelFile : (v.channels c).f = (s.handles c).file := (h.handle c hc).file

theorem usable : Usable G v c where
  channel := (h.handle c hc).channel
  file := h.files c (h.handle c hc).channel
  there := by
    rw [h.wellFormed.settled.goneFiles]
    exact Set.notMem_empty _

theorem regular : (v.files (v.channels c).f).de.isDir = false := by
  rw [h.channelFile hc]
  exact (h.handle c hc).regular

theorem holds : contents G v (v.channels c).f = s.bytes (s.handles c).file := by
  rw [h.channelFile hc]
  exact h.bytes c hc

theorem size : (v.files (v.channels c).f).de.fileSize = s.size (s.handles c).file := by
  rw [FileStore.size, ← h.holds hc, length_contents]

theorem chain : (G.chain (v.home c)).length = s.clusters (s.handles c).file := by
  rw [Volume.home, h.channelFile hc]
  exact h.clusters c hc

theorem capacity : capacity G v c = s.room (s.handles c).file := by
  rw [Fat.capacity, FileStore.room, h.chain hc, h.free, h.clusterBytes]

theorem full : s.size (s.handles c).file ≤ s.clusters (s.handles c).file * s.clusterBytes := by
  have hfull : (v.files (v.channels c).f).de.fileSize ≤ (G.chain (v.home c)).length * v.geo.bytesPerCluster :=
    h.wellFormed.full _ (h.usable hc).file (h.regular hc)
  rwa [h.size hc, h.chain hc, h.clusterBytes] at hfull

theorem notWriteable : (v.channels c).isNotWriteable = (s.handles c).isNotWriteable := by
  rw [Channel.isNotWriteable, (h.handle c hc).flags]
  rfl

theorem notReadable : (v.channels c).isNotReadable = (s.handles c).isNotReadable := by
  rw [Channel.isNotReadable, (h.handle c hc).flags]
  rfl

end Instance

theorem clustersFor (h : Shows G s v) (n : ℕ) : clustersFor v.geo n = s.need n := by
  rw [Fat.clustersFor, FileStore.need, h.clusterBytes]

/-- One file may have changed, of the others only what their users do not see. -/
theorem step (h : Shows G s v) (hw : WellFormed G' w) (hsk : skeleton w = skeleton v) (hpt : pointers w = pointers v)
    (hfree : w.freeClusters = (s.hold f new k).free) (hdir : ∀ g, (w.files g).de.isDir = (v.files g).de.isDir)
    (hself : contents G' w f = new ∧ (G'.chain ((books w).fileAddr f)).length = k)
    (hother : ∀ g ∈ v.filesOpen, g ≠ f → (v.files g).de.isDir = false → contents G' w g = contents G v g ∧
      (G'.chain ((books w).fileAddr g)).length = (G.chain ((books v).fileAddr g)).length) :
    Shows G' (s.hold f new k) w := by
  have hgeo : w.geo = v.geo := congrArg Skeleton.geo hsk
  have hopen : w.channelsOpen = v.channelsOpen := congrArg Skeleton.channelsOpen hsk
  have hfiles : w.filesOpen = v.filesOpen := congrArg Skeleton.filesOpen hsk
  have hfile : ∀ c, (w.channels c).f = (v.channels c).f := fun c => congrFun (congrArg Skeleton.file hsk) c
  have hmagic : ∀ c, (w.channels c).magic = (v.channels c).magic := fun c => congrFun (congrArg Skeleton.magic hsk) c
  have hflags : ∀ c, (w.channels c).flags = (v.channels c).flags := fun c => congrFun (congrArg Skeleton.flags hsk) c
  have hseen : ∀ c ∈ s.opened, (s.handles c).file ∈ v.filesOpen := fun c hc => by
    rw [← h.channelFile hc]
    exact (h.usable hc).file
  refine ⟨hw, ?_, ?_, ?_, hfree, ?_, ?_, ?_⟩
  · rw [hgeo]
    exact h.loop
  · intro k hk
    rw [hfile, hfiles]
    exact h.files k (hopen ▸ hk)
  · rw [hgeo]
    exact h.clusterBytes
  · intro c hc
    obtain ⟨h1, h2, h3, h4, h5, h6⟩ := h.handle c hc
    refine ⟨hopen ▸ h1, ?_, ?_, ?_, ?_, ?_⟩
    · exact (hdir _).trans h2
    · exact (hmagic c).trans h3
    · exact (hfile c).trans h4
    · exact (hflags c).trans h5
    · rw [hpt]
      exact h6
  · intro c hc
    change contents G' w (s.handles c).file = (s.hold f new k).bytes (s.handles c).file
    by_cases hcf : (s.handles c).file = f
    · rw [hcf, FileStore.hold_bytes]
      exact hself.1
    · rw [FileStore.hold_bytes_ne hcf, (hother _ (hseen c hc) hcf (h.handle c hc).regular).1]
      exact h.bytes c hc
  · intro c hc
    change (G'.chain ((books w).fileAddr (s.handles c).file)).length = (s.hold f new k).clusters (s.handles c).file
    by_cases hcf : (s.handles c).file = f
    · rw [hcf, FileStore.hold_clusters]
      exact hself.2
    · rw [FileStore.hold_clusters_ne hcf, (hother _ (hseen c hc) hcf (h.handle c hc).regular).2]
      exact h.clusters c hc

theorem changed (h : Shows G s v) (hc : c ∈ s.opened) (hch : Changed G v c new G' w) (hsk : skeleton w = skeleton v)
    (hpt : pointers w = pointers v) (hlen : (G'.chain (v.home c)).length = k) :
    Shows G' (s.hold (s.handles c).file new k) w := by
  have hf := h.channelFile hc
  have husable := h.usable hc
  have hown := husable.owner h.wellFormed.order
  have hthere : ∀ g, g ∉ G.goneFiles := fun g => by
    rw [h.wellFormed.settled.goneFiles]
    exact Set.notMem_empty _
  obtain ⟨l, hG, hl⟩ := hch.chain
  refine h.step hch.wellFormed hsk hpt ?_ ?_ ⟨?_, ?_⟩ ?_
  · have hold := h.chain hc
    have hfree := h.free
    have hnew := congrArg (fun G : Layout => (G.chain (v.home c)).length) hG
    simp only [Layout.setChain_self, List.length_append] at hnew
    change w.freeClusters = s.free + s.clusters (s.handles c).file - k
    omega
  · intro g
    by_cases hg : g = (v.channels c).f
    · rw [hg, h.regular hc, ← hch.channelFile c]
      exact hch.writes.regular
    · exact congrArg (fun x : FileInfo => x.de.isDir) (hch.file_ne hg)
  · rw [← hf]
    exact hch.holds
  · rw [hch.fileAddr, ← hf]
    exact hlen
  · intro g hg hgf hdir
    rw [← hf] at hgf
    refine ⟨hch.contents_ne h.wellFormed husable hg hdir hgf, ?_⟩
    have haddr : (books v).fileAddr g ≠ v.home c := fun he =>
      hgf (h.wellFormed.order.files.inj g hg _ husable.file (hthere g) (hthere _) he)
    rw [hch.fileAddr, hG, Layout.setChain_ne haddr]

theorem unchanged (h : Shows G s v) (hc : c ∈ s.opened) (hch : Changed G v c (contents G v (v.channels c).f) G w)
    (hsk : skeleton w = skeleton v) (hpt : pointers w = pointers v) : Shows G s w := by
  have hsame := h.changed hc hch hsk hpt (h.chain hc)
  rwa [h.holds hc, FileStore.hold_same] at hsame

theorem still (h : Shows G s v) (hc : c ∈ s.opened) (hw : Still G v w) (hsk : skeleton w = skeleton v)
    (hpt : pointers w = pointers v) : Shows G s w :=
  h.unchanged hc (.of_still h.wellFormed (h.usable hc) (h.regular hc) hw) hsk hpt

theorem seek (h : Shows G s v) (hc : c ∈ s.opened) (pos : ℕ) :
    Shows G (s.seek c pos) (v.setChannel c fun x => { x with filePointer := pos }) := by
  have hmove : ∀ k, ((v.setChannel c fun x => { x with filePointer := pos }).channels k).info = (v.channels k).info := by
    intro k
    by_cases hk : k = c
    · subst hk
      rw [Volume.setChannel_self]
      rfl
    · rw [Volume.setChannel_ne hk]
  have hstill := (Still.refl h.wellFormed.toTidy).seek c pos
  have hw := (Changed.of_still h.wellFormed (h.usable hc) (h.regular hc) hstill).wellFormed
  refine ⟨hw, h.loop, ?_, h.clusterBytes, h.free, ?_, ?_, ?_⟩
  · intro k hk
    have hf := congrArg ChannelInfo.f (hmove k)
    exact (congrArg (· ∈ v.filesOpen) hf).mpr (h.files k hk)
  · intro d hd
    obtain ⟨h1, h2, h3, h4, h5, h6⟩ := h.handle d hd
    refine ⟨h1, ?_, ?_, ?_, ?_, ?_⟩
    · rw [FileStore.seek_file]
      exact h2
    · exact (congrArg ChannelInfo.magic (hmove d)).trans h3
    · rw [FileStore.seek_file]
      exact (congrArg ChannelInfo.f (hmove d)).trans h4
    · rw [FileStore.seek_flags]
      exact (congrArg ChannelInfo.flags (hmove d)).trans h5
    · rw [pointers_seek]
      by_cases hdc : d = c
      · subst hdc
        simp [FileStore.seek]
      · simpa [FileStore.seek, hdc] using h6
  · intro d hd
    rw [FileStore.seek_file, FileStore.seek_bytes]
    exact h.bytes d hd
  · intro d hd
    rw [FileStore.seek_file, FileStore.seek_clusters]
    have hb : books (v.setChannel c fun x => { x with filePointer := pos }) = books v := hstill.books
    rw [hb]
    exact h.clusters d hd

end Shows

/-- `fat_do_write` stores in the bytes of the file, and takes the clusters that these need. -/
theorem fatDoWrite_refines (hc : c ∈ s.opened) (buffer : Option (List UInt8)) (hdata : data = writeSlice buffer 0 n)
    (hpos : pos ≤ s.size (s.handles c).file ∨ s.free = 0 ∧ s.room (s.handles c).file ≤ pos) :
    Refines (fun t v => t = s ∧ Shown t v) (fatDoWrite c buffer n pos) (FileStore.put (s.handles c).file pos data)
      (fun k t v => (FileStore.put (s.handles c).file pos data).run s = (.ok k, t) ∧ Shown t v) fun _ => Shown := by
  rintro v t ⟨rfl, G, h⟩
  have hlen : data.length = n := by rw [hdata, length_writeSlice]
  have hreg : hasAttr (v.files (v.channels c).f).de.attr fatADir = false := h.regular hc
  have hcap := h.capacity hc
  have hfull := h.full hc
  unfold FileStore.put
  rw [run_bind_state]
  by_cases hn : n = 0
  · have hnil : data = [] := List.eq_nil_of_length_eq_zero (hlen.trans hn)
    have hrun : (fatDoWrite c buffer n pos).run v = (.ok 0, v) := by
      rw [fatDoWrite, run_bind_state]
      dsimp only
      rw [if_pos hn]
      rfl
    rw [if_pos hnil, hrun]
    exact ⟨rfl, rfl, G, h⟩
  have hne : data ≠ [] := fun hnil => hn (by rw [← hlen, hnil]; rfl)
  rw [if_neg hne, hlen]
  by_cases hbig : 0xFFFFFFFF < pos + n
  · have hrun : (fatDoWrite c buffer n pos).run v = (.error .efbig, v) := by
      rw [fatDoWrite, run_bind_state]
      dsimp only
      rw [if_neg hn, if_neg fun hdir => by rw [hreg] at hdir; exact absurd hdir.1 (by decide), if_pos ⟨hreg, hbig⟩]
      rfl
    rw [if_pos hbig, hrun]
    exact ⟨rfl, G, h⟩
  rw [if_neg hbig]
  have hfit : pos + n ≤ 0xFFFFFFFF := Nat.le_of_not_lt hbig
  by_cases hroom : t.room (t.handles c).file ≤ pos
  · have hnone : t.free = 0 := by
      rcases hpos with hpos | hpos
      · rw [FileStore.room, Nat.add_mul] at hroom
        have hzero : t.free * t.clusterBytes = 0 := by omega
        refine (Nat.mul_eq_zero.mp hzero).resolve_right ?_
        rw [← h.clusterBytes]
        exact Nat.ne_of_gt (bytesPerCluster_pos _)
      · exact hpos.1
    obtain ⟨w, hrun, hw⟩ := fatDoWrite_nospace buffer h.wellFormed (h.usable hc) (h.regular hc) (Nat.pos_of_ne_zero hn)
      hfit h.loop (h.free.trans hnone) (by rw [hcap]; exact hroom)
    have hsk := Neutral.skeleton (Neutral.fatDoWrite c buffer n pos) v
    have hpt := Unmoving.fatDoWrite c buffer n pos v
    rw [hrun] at hsk hpt
    rw [if_pos hroom, hrun]
    exact ⟨rfl, G, h.still hc hw hsk hpt⟩
  · have hin : pos ≤ t.size (t.handles c).file := by
      rcases hpos with hpos | hpos
      · exact hpos
      · exact absurd hpos.2 hroom
    obtain ⟨G', w, hrun, hw, hchain⟩ := fatDoWrite_taken buffer h.wellFormed (h.usable hc) (h.regular hc)
      (Nat.pos_of_ne_zero hn) (by rw [h.size hc]; exact hin) hfit h.loop (by rw [hcap]; omega) rfl
    have hsk := Neutral.skeleton (Neutral.fatDoWrite c buffer n pos) v
    have hpt := Unmoving.fatDoWrite c buffer n pos v
    rw [hrun] at hsk hpt
    have hslice : writeSlice buffer 0 (min n (capacity G v c - pos)) = data.take (min n (capacity G v c - pos)) := by
      have hsplit := writeSlice_add buffer 0 (min n (capacity G v c - pos)) (n - min n (capacity G v c - pos))
      rw [Nat.add_sub_cancel' (Nat.min_le_left _ _), ← hdata] at hsplit
      rw [hsplit, List.take_append_of_le_length (by rw [length_writeSlice]), List.take_of_length_le]
      rw [length_writeSlice]
    rw [h.clustersFor, h.chain hc, hcap] at hchain
    rw [hslice, h.holds hc, hcap] at hw
    rw [hcap] at hrun
    rw [if_neg hroom, hrun]
    exact ⟨rfl, rfl, G', h.changed hc hw hsk hpt hchain⟩

end FreeDos32.Fat
