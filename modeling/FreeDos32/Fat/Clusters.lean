import FreeDos32.Fat.Walk

namespace FreeDos32.Fat

open Prog

variable {G : Layout} {u v w : Volume} {c f d : ℕ} {α : Type}

theorem books_setChannel {g : Channel → Channel} (hg : ∀ x, (g x).info = x.info) (c : ℕ) (v : Volume) :
    books (v.setChannel c g) = books v := by
  unfold books
  congr 1
  funext k
  simp only [Volume.setChannel]
  split
  · exact hg _
  · rfl

theorem Recached.books {m : ℕ → UInt8} (h : Recached m v w) : books w = books v := by
  have hnum := h.shape.num
  rw [h.eq]
  unfold Fat.books
  rw [← hnum]
  rfl

theorem Recached.cursors {m : ℕ → UInt8} (h : Recached m v w) (hv : Cursors G v) : Cursors G w := by
  unfold Cursors
  rw [h.books, h.channels, h.eq]
  exact hv

namespace Still

theorem refl (h : Tidy G u) : Still G u u := ⟨h.sound, rfl, rfl, h.cursors⟩

theorem tidy (h : Still G u w) (ho : Orderly G (Fat.books u) u.byte) : Tidy G w :=
  ⟨h.sound, by rw [h.books, h.byte]; exact ho, h.cursors⟩

theorem trans (h : Still G u v) (h' : Still G v w) : Still G u w :=
  ⟨h'.sound, h'.books.trans h.books, h'.byte.trans h.byte, h'.cursors⟩

theorem recached (h : Still G u v) (hr : Recached v.byte v w) : Still G u w :=
  ⟨hr.sound h.sound, hr.books.trans h.books, hr.byte.trans h.byte, hr.cursors h.cursors⟩

theorem geo (h : Still G u w) : w.geo = u.geo := congrArg Books.geo h.books

theorem file (h : Still G u w) (f : ℕ) : (w.files f).info = (u.files f).info :=
  congrFun (congrArg Books.file h.books) f

theorem channel (h : Still G u w) (c : ℕ) : (w.channels c).info = (u.channels c).info :=
  congrFun (congrArg Books.channel h.books) c

theorem channelsOpen (h : Still G u w) : w.channelsOpen = u.channelsOpen := congrArg Books.channelsOpen h.books

theorem channelFile (h : Still G u w) (c : ℕ) : (w.channels c).f = (u.channels c).f :=
  congrArg ChannelInfo.f (h.channel c)

theorem setChannel (h : Still G u v) {g : Channel → Channel} (hg : ∀ x, (g x).info = x.info)
    (hok : c ∈ v.channelsOpen → (v.channels c).f ∉ G.goneFiles → CursorOk G (Fat.books v) (g (v.channels c))) :
    Still G u (v.setChannel c g) := by
  refine ⟨h.sound.of_same rfl rfl,
    (books_setChannel hg c v).trans h.books, h.byte, ?_⟩
  intro k hk hf
  rw [books_setChannel hg]
  by_cases hkc : k = c
  · subst hkc
    rw [Volume.setChannel_self] at hf ⊢
    have hff : (g (v.channels k)).f = (v.channels k).f := congrArg ChannelInfo.f (hg _)
    rw [hff] at hf
    exact hok hk hf
  · rw [Volume.setChannel_ne hkc] at hf ⊢
    exact h.cursors k hk hf

theorem seek (h : Still G u v) (c pos : ℕ) : Still G u (v.setChannel c fun x => { x with filePointer := pos }) :=
  h.setChannel (fun _ => rfl) fun hc hf => h.cursors c hc hf

end Still

structure Usable (G : Layout) (u : Volume) (c : ℕ) : Prop where
  channel : c ∈ u.channelsOpen
  file : (u.channels c).f ∈ u.filesOpen
  there : (u.channels c).f ∉ G.goneFiles

def Volume.home (v : Volume) (c : ℕ) : ℕ := (books v).fileAddr (v.channels c).f

theorem Still.home (h : Still G u w) (c : ℕ) : w.home c = u.home c := by
  rw [Volume.home, Volume.home, h.books, h.channelFile]

namespace Usable

theorem fileOk (hc : Usable G u c) (ho : Orderly G (books u) u.byte) :
    FileOk G u.geo u.byte (u.files (u.channels c).f).info := ho.files.file _ hc.file hc.there

theorem owner (hc : Usable G u c) (ho : Orderly G (books u) u.byte) : u.home c ∈ G.owners := (hc.fileOk ho).owner

theorem first (hc : Usable G u c) (ho : Orderly G (books u) u.byte) :
    (u.files (u.channels c).f).firstCluster = (G.chain (u.home c)).headD 0 := (hc.fileOk ho).first

end Usable

theorem FileOk.fixedRoot {g : Geometry} {m : ℕ → UInt8} {f : FileInfo} (h : FileOk G g m f)
    (hroot : (G.chain 0).headD 0 = g.rootCluster) :
    (f.deSector = 0 ∧ f.firstCluster = 0) ↔ (f.addr g = 0 ∧ g.rootCluster = 0) := by
  have hpos := bytesPerSector_pos g
  have hfirst := h.first
  have hplace := h.place
  unfold FileInfo.addr at *
  constructor
  · rintro ⟨hs, hf⟩
    have h0 : f.deSector * g.bytesPerSector + f.deSecofs = 0 := by
      rw [hs, Nat.zero_mul]
      omega
    rw [h0, hroot] at hfirst
    exact ⟨h0, hfirst.symm.trans hf⟩
  · rintro ⟨h0, hr⟩
    have hs : f.deSector = 0 := by
      rcases Nat.eq_zero_or_pos f.deSector with hz | hz
      · exact hz
      · have := Nat.mul_pos hz hpos
        omega
    rw [h0, hroot, hr] at hfirst
    exact ⟨hs, hfirst⟩

section Walk

variable (ho : Orderly G (books u) u.byte) (hc : Usable G u c)

/-- What `fat_get_file_sector` finds: the sector of a part of the file, with the cluster cached, or that
the file ends before. -/
def Found (G : Layout) (u : Volume) (c i : ℕ) (r : Option ℕ) (v : Volume) : Prop :=
  let fixed := u.home c = 0 ∧ u.geo.rootCluster = 0
  let l := G.chain (u.home c)
  match r with
  | some s => (∀ o < u.geo.bytesPerSector, G.at u.geo (u.home c) (i * u.geo.bytesPerSector + o) =
      some (s * u.geo.bytesPerSector + o)) ∧ (¬fixed → l[i / u.geo.sectorsPerCluster]? = some (v.channels c).cluster)
  | none => (∀ o < u.geo.bytesPerSector, G.at u.geo (u.home c) (i * u.geo.bytesPerSector + o) = none) ∧
      (¬fixed → l.length ≤ i / u.geo.sectorsPerCluster ∧ (l ≠ [] → l.getLast? = some (v.channels c).cluster))

theorem Usable.onChain (hc : Usable G u c) (ho : Orderly G (books u) u.byte) (hv : Still G u v) :
    OnChain (G.chain (u.home c)) c v where
  links := by
    rw [hv.geo, hv.byte]
    exact ho.chains.links _ (hc.owner ho)
  range k hk := by
    rw [hv.geo]
    exact ho.chains.ok _ (hc.owner ho) k hk
  first := by
    rw [hv.channelFile, show (v.files (u.channels c).f).firstCluster = _ from
      congrArg FileInfo.firstCluster (hv.file _)]
    exact hc.first ho
  cursor := by
    have hcur := hv.cursors c (hv.channelsOpen ▸ hc.channel) (by rw [hv.channelFile]; exact hc.there)
    rwa [CursorOk, hv.books, hv.channelFile] at hcur

theorem Usable.atFixedRoot (hc : Usable G u c) (ho : Orderly G (books u) u.byte) (hv : Still G u v) :
    v.atFixedRoot c = decide (u.home c = 0 ∧ u.geo.rootCluster = 0) := by
  have hfix := (hc.fileOk ho).fixedRoot ho.files.root
  have hds : (v.files (u.channels c).f).deSector = (u.files (u.channels c).f).deSector :=
    congrArg FileInfo.deSector (hv.file _)
  have hfc : (v.files (u.channels c).f).firstCluster = (u.files (u.channels c).f).firstCluster :=
    congrArg FileInfo.firstCluster (hv.file _)
  rw [Bool.eq_iff_iff, decide_eq_true_iff, Volume.atFixedRoot, hv.channelFile, isFixedRoot_iff, hds, hfc]
  exact hfix

theorem Browsed.books (h : Browsed c u w) : books w = books u := by
  have hnum := h.shape.num
  have hinfo := h.info
  obtain ⟨p, i, k, he⟩ := h.eq
  unfold Fat.books
  rw [hnum, funext hinfo, he]
  rfl

theorem Still.browsed (h : Still G u v) (hw : Browsed c v w) (hcur : CursorOk G (Fat.books v) (w.channels c)) :
    Still G u w := by
  refine ⟨hw.sound, hw.books.trans h.books, hw.byte.trans h.byte, fun k hk hf => ?_⟩
  rw [hw.books]
  by_cases hkc : k = c
  · subst hkc
    exact hcur
  · have hopen : w.channelsOpen = v.channelsOpen := congrArg Books.channelsOpen hw.books
    rw [hw.other hkc] at hf ⊢
    rw [hopen] at hk
    exact h.cursors k hk hf

theorem Still.onChain (hv : Still G u v) (hw : Browsed c v w) (hon : OnChain (G.chain (u.home c)) c w) :
    Still G u w := by
  refine hv.browsed hw ?_
  rw [CursorOk, hv.books, hw.file, hv.channelFile]
  exact hon.cursor

theorem found_of_sectorFound {i : ℕ} {r : Option ℕ}
    (h : SectorFound u.geo (decide (u.home c = 0 ∧ u.geo.rootCluster = 0)) (G.chain (u.home c)) i
      (w.channels c).cluster r) : Found G u c i r w := by
  unfold Found Layout.at
  simp only [posAddr_eq]
  cases r with
  | some s => exact ⟨h.1, fun hroot => h.2 (decide_eq_false hroot)⟩
  | none => exact ⟨h.1, fun hroot => h.2 (decide_eq_false hroot)⟩

include ho hc in
theorem fatGetFileSector_still (i : ℕ) :
    Triple (Still G u) (fatGetFileSector c i) (fun r v => Still G u v ∧ Found G u c i r v) (fun _ _ => False) := by
  intro v hv
  obtain ⟨r, w, hrun, hw, -, -, hon, hfound⟩ := fatGetFileSector_run hv.sound (hc.onChain ho hv) i
  rw [hc.atFixedRoot ho hv, hv.geo] at hfound
  rw [hrun]
  exact ⟨hv.onChain hw hon, found_of_sectorFound hfound⟩

end Walk

end FreeDos32.Fat
