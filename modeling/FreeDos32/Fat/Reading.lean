import FreeDos32.Fat.Contents

namespace FreeDos32.Fat

open Prog

variable {G : Layout} {g : Geometry} {m m' : ℕ → UInt8} {l l' : List ℕ} {v w : Volume} {c f k n i s pos offset size : ℕ}
  {hint : Option ℕ}

/-- The `n` bytes from position `pos` on of a file with the clusters `l`. -/
def fileSlice (g : Geometry) (l : List ℕ) (m : ℕ → UInt8) (pos n : ℕ) : List UInt8 :=
  (List.range n).map fun i => (placeOf g false l (pos + i)).elim 0 m

def contents (G : Layout) (v : Volume) (f : ℕ) : List UInt8 :=
  fileSlice v.geo (G.chain ((books v).fileAddr f)) v.byte 0 (v.files f).de.fileSize

theorem length_fileSlice (g : Geometry) (l : List ℕ) (m : ℕ → UInt8) (pos n : ℕ) : (fileSlice g l m pos n).length = n := by
  rw [fileSlice, List.length_map, List.length_range]

theorem length_contents (G : Layout) (v : Volume) (f : ℕ) : (contents G v f).length = (v.files f).de.fileSize :=
  length_fileSlice ..

theorem fileSlice_append (g : Geometry) (l : List ℕ) (m : ℕ → UInt8) (pos n k : ℕ) :
    fileSlice g l m pos n ++ fileSlice g l m (pos + n) k = fileSlice g l m pos (n + k) := by
  simp only [fileSlice, List.range_add, List.map_append, List.map_map, Function.comp_def, Nat.add_assoc]

theorem fileSlice_congr (h : ∀ i < n, (placeOf g false l' (pos + i)).elim 0 m' = (placeOf g false l (pos + i)).elim 0 m) :
    fileSlice g l' m' pos n = fileSlice g l m pos n :=
  List.map_congr_left fun i hi => h i (List.mem_range.mp hi)

theorem drop_take_fileSlice (g : Geometry) (l : List ℕ) (m : ℕ → UInt8) (s pos n : ℕ) :
    ((fileSlice g l m 0 s).drop pos).take n = fileSlice g l m pos (min n (s - pos)) := by
  apply List.ext_getElem
  · simp [length_fileSlice]
  · intro i hi hi'
    simp [fileSlice]

theorem placeOf_ne_none (g : Geometry) (h : pos < l.length * g.bytesPerCluster) : placeOf g false l pos ≠ none := by
  have hlt : pos / g.bytesPerCluster < l.length := (Nat.div_lt_iff_lt_mul (bytesPerCluster_pos g)).mpr h
  simp [placeOf, List.getElem?_eq_getElem hlt]

theorem SectorFound.slice {o : ℕ} (h : SectorFound g false l i k (some s)) (hn : o + n ≤ g.bytesPerSector) :
    bytesAt m (s * g.bytesPerSector + o) n = fileSlice g l m (i * g.bytesPerSector + o) n := by
  apply List.map_congr_left
  intro j hj
  have hlt : o + j < g.bytesPerSector := by
    rw [List.mem_range] at hj
    omega
  rw [Nat.add_assoc, Nat.add_assoc, h.1 _ hlt]
  rfl

theorem readLoop_file (size k offset : ℕ) (hint : Option ℕ) (fuel : ℕ) (hv : Sound v) (h : OnChain l c v) (hroot : v.atFixedRoot c = false)
    (hd : (v.files (v.channels c).f).de.isDir = false)
    (hfull : (v.files (v.channels c).f).de.fileSize ≤ l.length * v.geo.bytesPerCluster)
    (hhint : ∀ j, hint = some j → j < v.cache.numBuffers) (hfuel : size - k ≤ fuel) :
    ∃ w, (readLoop c size fuel k offset hint).run v = (.ok (fileSlice v.geo l v.byte offset
      (min (size - k) ((v.files (v.channels c).f).de.fileSize - offset))), w) ∧ Browsed c v w := by
  induction fuel generalizing v k offset hint with
  | zero =>
    rw [Nat.le_zero.mp hfuel, Nat.zero_min]
    exact ⟨v, rfl, .refl hv c⟩
  | succ fuel ih =>
    have hisdir : hasAttr (v.files (v.channels c).f).de.attr fatADir = false := hd
    rw [readLoop, run_bind_state]
    dsimp only
    generalize hs : (v.files (v.channels c).f).de.fileSize = s at *
    by_cases hdone : k ≥ size ∨ (hasAttr (v.files (v.channels c).f).de.attr fatADir = false ∧ offset ≥ s)
    · rw [if_pos hdone]
      have hmin : min (size - k) (s - offset) = 0 := by omega
      rw [hmin]
      exact ⟨v, rfl, .refl hv c⟩
    · have hlt : k < size ∧ offset < s := by
        rw [not_or, not_and] at hdone
        exact ⟨Nat.lt_of_not_le hdone.1, Nat.lt_of_not_le (hdone.2 hisdir)⟩
      have hmod := Nat.mod_lt offset (bytesPerSector_pos v.geo)
      have hdm : offset / v.geo.bytesPerSector * v.geo.bytesPerSector + offset % v.geo.bytesPerSector = offset := by
        rw [Nat.mul_comm]
        exact Nat.div_add_mod _ _
      obtain ⟨r, x, hrun, hx, -, -, hon, hfound⟩ := fatGetFileSector_run hv h (offset / v.geo.bytesPerSector)
      rw [if_neg hdone, run_bind_ok hrun]
      rw [hroot] at hfound
      cases r with
      | none =>
        have hnone := hfound.1 _ hmod
        rw [hdm] at hnone
        exact absurd hnone (placeOf_ne_none _ (by omega))
      | some sec =>
        dsimp only
        rw [hisdir]
        generalize hn : (if k + (if (false = false) ∧ offset + (v.geo.bytesPerSector - offset % v.geo.bytesPerSector) ≥ s
          then s - offset else v.geo.bytesPerSector - offset % v.geo.bytesPerSector) > size then size - k
          else if (false = false) ∧ offset + (v.geo.bytesPerSector - offset % v.geo.bytesPerSector) ≥ s then s - offset
          else v.geo.bytesPerSector - offset % v.geo.bytesPerSector) = n
        have hn' : 0 < n ∧ k + n ≤ size ∧ offset + n ≤ s ∧ offset % v.geo.bytesPerSector + n ≤ v.geo.bytesPerSector := by
          simp only [true_and] at hn
          rw [← hn]
          split <;> split <;> omega
        have hsec : sec < x.cache.deviceEnd := by
          rw [hx.shape.deviceEnd]
          exact hfound.lt hv.geo h.range
        obtain ⟨b, y, hrun', hy, hseat, -, -⟩ := fatReadbuf_run hx.sound.media hsec hint
          (by rw [hx.shape.num]; exact hhint)
        have hb := hx.recached hy
        have hgy := hb.geo
        have hbytes := run_bufBytes hseat hb.sound.media (o := offset % v.geo.bytesPerSector) (n := n)
          (by rw [hgy]; exact hmod) (by rw [hgy]; exact hn'.2.2.2)
        rw [hgy, hb.byte, hfound.slice hn'.2.2.2, hdm] at hbytes
        rw [run_bind_ok hrun', run_bind_ok hbytes]
        have hcur : (y.channels c).clusterIndex = 0 ∨ l[(y.channels c).clusterIndex]? = some (y.channels c).cluster := by
          rw [hy.channels]
          exact hon.cursor
        have hfile : y.files (y.channels c).f = v.files (v.channels c).f := by rw [hb.files, hb.file]
        obtain ⟨w, hloop, hw⟩ := ih (k + n) (offset + n) (some b.1) hb.sound (h.browsed hb hcur)
          (hb.atFixedRoot.trans hroot) (by rw [hfile]; exact hd) (by rw [hfile, hs, hgy]; exact hfull)
          (by rintro _ ⟨⟩; exact hseat.lt) (by omega)
        rw [hfile, hs, hgy, hb.byte] at hloop
        have hlen : min (size - k) (s - offset) = n + min (size - (k + n)) (s - (offset + n)) := by omega
        rw [run_bind_ok hloop, hlen, ← fileSlice_append]
        exact ⟨w, rfl, hb.trans hw⟩

theorem fatRead_file (hv : Sound v) (h : OnChain l c v) (hroot : v.atFixedRoot c = false)
    (hd : (v.files (v.channels c).f).de.isDir = false)
    (hfull : (v.files (v.channels c).f).de.fileSize ≤ l.length * v.geo.bytesPerCluster) (hr : (v.channels c).Reads) (n : ℕ) :
    ((fatRead c n).run v).1 = .ok (fileSlice v.geo l v.byte (v.channels c).filePointer
      (min n ((v.files (v.channels c).f).de.fileSize - (v.channels c).filePointer))) := by
  have hno : ¬((v.channels c).magic = false ∨ (v.channels c).isNotReadable = true) := by
    rw [hr.magic, hr.readable]
    simp
  obtain ⟨w, hrun, -⟩ := readLoop_file n 0 (v.channels c).filePointer none n
    hv h hroot hd hfull (by simp) (by omega)
  rw [fatRead, run_bind_state]
  dsimp only
  rw [if_neg hno, run_bind_ok hrun, run_bind_state]
  by_cases hstamp : hasFlag (v.channels c).flags oNoatime = false ∧
      hasAttr (w.files (v.channels c).f).de.attr fatADir = false
  · rw [when_pos hstamp]
    rfl
  · rw [when_neg hstamp]
    rfl

/-- A volume in good order, where the clusters of each open file hold as many bytes as its size says. -/
structure WellFormed (G : Layout) (v : Volume) : Prop extends Tidy G v where
  settled : G.Settled
  full : ∀ f ∈ v.filesOpen, (v.files f).de.isDir = false →
    (v.files f).de.fileSize ≤ (G.chain ((books v).fileAddr f)).length * v.geo.bytesPerCluster

theorem Usable.file_not_dir (hc : Usable G v c) (ho : Orderly G (books v) v.byte)
    (hd : (v.files (v.channels c).f).de.isDir = false) : ¬IsDir v.byte (v.home c) := by
  intro hdir
  have hfile := (hc.fileOk ho).dir.mpr hdir
  change (v.files (v.channels c).f).de.isDir = true at hfile
  rw [hd] at hfile
  cases hfile

theorem Usable.not_fixedRoot (hc : Usable G v c) (ho : Orderly G (books v) v.byte)
    (hd : (v.files (v.channels c).f).de.isDir = false) : ¬(v.home c = 0 ∧ v.geo.rootCluster = 0) :=
  fun h => hc.file_not_dir ho hd (.inl h.1)

theorem fatRead_contents (h : WellFormed G v) (hc : Usable G v c) (hd : (v.files (v.channels c).f).de.isDir = false)
    (hr : (v.channels c).Reads) (pos n : ℕ) :
    ((fatRead c n).run (v.setChannel c fun x => { x with filePointer := pos })).1 =
      .ok (((contents G v (v.channels c).f).drop pos).take n) := by
  have hs := (Still.refl h.toTidy).seek c pos
  have hself := Volume.setChannel_self c (fun x => { x with filePointer := pos }) v
  have hf : ((v.setChannel c fun x => { x with filePointer := pos }).channels c).f = (v.channels c).f := by rw [hself]
  have hread := fatRead_file hs.sound (hc.onChain h.order hs)
    (by rw [hc.atFixedRoot h.order hs]; exact decide_eq_false (hc.not_fixedRoot h.order hd))
    (by rw [hf]; exact hd) (by rw [hf, hs.geo]; exact h.full _ hc.file hd)
    (hr.of_info (by rw [hself]; rfl)) n
  rw [hf, hs.geo, hs.byte, hself] at hread
  rw [hread, contents, drop_take_fileSlice]
  rfl

end FreeDos32.Fat
