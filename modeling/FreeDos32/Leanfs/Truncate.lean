import FreeDos32.Leanfs.Deletion

namespace FreeDos32.Leanfs

open Prog

variable {v w : Volume} {x : Node} {c f g k m n length : ℕ}

/-- The clusters that a file keeps when it is made `n` clusters long. -/
def Node.Kept (x : Node) (c n k : ℕ) : Prop :=
  (∃ t < n, x.cells[t]? = some k) ∨ ∃ j, 16 + j * c < n ∧ x.ptrs[j]? = some k

theorem Owned.kept_iff (ho : Owned v x) (hl : Laid v f x) (hk : k ∈ x.all) :
    ¬x.Freed v.iclusterCount n x.cells.length k ↔ x.Kept v.iclusterCount n k := by
  constructor
  · intro hno
    rcases List.mem_append.mp hk with hk | hk
    · obtain ⟨t, ht⟩ := List.mem_iff_getElem?.mp hk
      have hlt := (List.getElem?_eq_some_iff.mp ht).1
      exact .inl ⟨t, Nat.lt_of_not_le fun hle => hno (.inl ⟨t, hle, hlt, ht⟩), ht⟩
    · obtain ⟨j, hj⟩ := List.mem_iff_getElem?.mp hk
      have hlt := (hl.numPtrs j).mp (List.getElem?_eq_some_iff.mp hj).1
      exact .inr ⟨j, Nat.lt_of_not_le fun hle => hno (.inr ⟨j, hle, hlt, hj⟩), hj⟩
  · rintro (⟨t, htn, ht⟩ | ⟨j, hjn, hj⟩) (⟨s, hns, -, hs⟩ | ⟨s, hns, -, hs⟩)
    · rw [ho.cells_inj ht hs] at htn
      omega
    · exact ho.apart ht hs
    · exact ho.apart hs hj
    · rw [ho.ptrs_inj hj hs] at hjn
      omega

/-- What shortening file `f` to `n` clusters is to do: the bitmap keeps the clusters of the file that are still used
and those of everything else, each of the others becomes free once, and no open instance of the file has a cached
position past its new end. -/
structure FreesTail (v : Volume) (f : ℕ) (x : Node) (n : ℕ) (w : Volume) : Prop where
  kept : ∀ k ∈ x.all, w.allocated k = true ↔ x.Kept v.iclusterCount n k
  others : ∀ k ∉ x.all, w.allocated k = v.allocated k
  once : w.freeClustersCount =
    v.freeClustersCount + (x.cells.length - n + (x.ptrs.length - ptrsFor v.iclusterCount n))
  inside : ∀ g < v.numFiles, (v.files g).references ≠ 0 → (v.files g).pf = (v.files f).pf →
    (w.files g).iclusterFirst < n
  reset : ∀ g < v.numFiles, (v.files g).references ≠ 0 → (v.files g).pf = (v.files f).pf →
    n ≤ (v.files g).iclusterFirst → (w.files g).icluster = 0 ∧ (w.files g).iclusterFirst = 0

/-- The number of clusters of a file with `length` bytes. -/
def Volume.clustersFor (v : Volume) (length : ℕ) : ℕ := (length + inodeSize + v.clusterBytes - 1) / v.clusterBytes

theorem clustersFor_pos (hg : Geo v) (length : ℕ) : 0 < v.clustersFor length := by
  apply Nat.div_pos _ hg.clusterBytes_pos
  unfold inodeSize
  omega

theorem clustersFor_le (hg : Geo v) (h : length + inodeSize ≤ n * v.clusterBytes) : v.clustersFor length ≤ n := by
  have hpos := hg.clusterBytes_pos
  apply Nat.le_of_lt_succ
  rw [Volume.clustersFor, Nat.div_lt_iff_lt_mul hpos, Nat.succ_mul]
  omega

/-- The volume at the end of `leanfs_ftruncate`, when the clusters have been deleted. -/
def Volume.shortened (f n length : ℕ) (v : Volume) : Volume :=
  ((leanfsValidatePos (v.files f).pf).run ((v.setInode f (Inode.setClustersCount n)).setInode f
    (Inode.setFileSize length))).2

theorem shortened_files (hn : n < 2 ^ 32) (w : Volume) (f length g : ℕ) : (w.shortened f n length).files g =
    if g < w.numFiles ∧ (w.files g).references ≠ 0 ∧ (w.files g).pf = (w.files f).pf ∧ n ≤ (w.files g).iclusterFirst
    then { w.files g with icluster := 0, iclusterFirst := 0 } else w.files g := by
  have hcount : (((w.setInode f (Inode.setClustersCount n)).setInode f (Inode.setFileSize length)).pfiles
      (w.files f).pf).inode.clustersCount = n := by
    simp only [Volume.setInode, Volume.setPFile, if_pos]
    unfold Inode.setFileSize Inode.setClustersCount Inode.clustersCount
    rw [word_setWord_ne (by decide), word_setWord_ne (by decide), word_setWord_of_lt hn]
  unfold Volume.shortened leanfsValidatePos
  rw [run_update]
  dsimp only
  rw [hcount]
  rfl

theorem freesTail_shortened (h : DeletedTo v f x n x.cells.length w) (hl : Laid v f x) (ho : Owned v x)
    (hcur : CursorOk v f x) (hn : 0 < n) (hle : n ≤ x.cells.length)
    (hlast : max n 16 < x.cells.length → InUse v f (x.cells.length - 1) w) (length : ℕ) :
    FreesTail v f x n (w.shortened f n length) := by
  have hc : 0 < v.iclusterCount := h.touched.iclusterCount ▸ h.sound.geo.iclusterCount_pos
  have hlt : n < 2 ^ 32 := Nat.lt_of_le_of_lt hle (hl.count ▸ Inode.clustersCount_lt _)
  constructor
  · intro k hk
    rw [← ho.kept_iff hl hk]
    exact (h.allocated k).trans (and_iff_right (ho.allocated k hk))
  · intro k hk
    have hno : ¬x.Freed v.iclusterCount n x.cells.length k := by
      rintro (⟨t, -, -, ht⟩ | ⟨j, -, -, hj⟩)
      · exact hk (List.mem_append_left _ (List.mem_of_getElem? ht))
      · exact hk (List.mem_append_right _ (List.mem_of_getElem? hj))
    exact Bool.eq_iff_iff.mpr ((h.allocated k).trans (and_iff_left hno))
  · have hcount := h.count
    rw [hl.length_ptrs hc] at hcount
    rw [← Nat.add_assoc]
    exact hcount.trans (Nat.add_assoc ..).symm
  · intro g hg hr hp
    rw [shortened_files hlt]
    split
    · exact hn
    · next hno =>
      apply Nat.lt_of_not_le
      intro hge
      exact hno ⟨h.touched.numFiles ▸ hg, h.touched.references g ▸ hr, by rw [h.touched.pf, h.touched.pf, hp], hge⟩
  · intro g hg hr hp hge
    have hge' : n ≤ (w.files g).iclusterFirst := by
      by_cases hgf : g = f
      · subst hgf
        -- the loop has gone at least as far as the cached position was
        obtain ⟨j, hj, hptr⟩ := hcur.resolve_left (by omega)
        have hin := (hl.numPtrs j).mp (List.getElem?_eq_some_iff.mp hptr).1
        obtain ⟨h16, hfar⟩ := hlast (by omega)
        obtain ⟨s, hs, -⟩ := h.cursor.resolve_left (by omega)
        rw [h.touched.iclusterCount] at hs
        rw [hs] at hfar
        have hjs : j < s + 1 := Nat.lt_of_mul_lt_mul_right (show j * v.iclusterCount < (s + 1) * v.iclusterCount by
          rw [Nat.succ_mul]
          omega)
        have := Nat.mul_le_mul_right v.iclusterCount (Nat.le_of_lt_succ hjs)
        omega
      · rwa [h.touched.files_ne hgf]
    rw [shortened_files hlt, if_pos]
    · exact ⟨rfl, rfl⟩
    · exact ⟨h.touched.numFiles ▸ hg, h.touched.references g ▸ hr, by rw [h.touched.pf, h.touched.pf, hp], hge'⟩

/-- Shortening a file frees what it is to free exactly if the clusters can be looked up. -/
theorem ftruncate_freesTail_iff (hs : Sound v) (hl : Laid v f x) (ho : Owned v x) (hcur : CursorOk v f x)
    (hw : (v.files f).isWriteable = true) (hsize : (v.inode f).fileSize + inodeSize ≤ x.cells.length * v.clusterBytes)
    (hlt : length < (v.inode f).fileSize) :
    (∃ w, (leanfsFtruncate f length).run v = (.ok 0, w) ∧ FreesTail v f x (v.clustersFor length) w) ↔
      v.Deletable f (v.clustersFor length) := by
  have hle : v.clustersFor length ≤ x.cells.length := clustersFor_le hs.geo (by omega)
  have hstart : (leanfsFtruncate f length).run v = (do
      leanfsDeleteClusters f (v.clustersFor length)
      Prog.update (Volume.setInode f (Inode.setFileSize length))
      leanfsValidatePos (v.files f).pf
      pure 0 : LeanM ℕ).run v := by
    rw [leanfsFtruncate, run_bind_state, if_neg (Int.not_lt.mpr (Int.natCast_nonneg _)),
      if_neg (by rw [hw]; exact Bool.noConfusion), Int.toNat_natCast, if_pos hlt]
    rfl
  constructor
  · rintro ⟨w, hrun, -⟩
    by_contra hno
    obtain ⟨u, hhang⟩ := deleteClusters_hang hs hl ho hcur hno
    rw [hstart, run_bind_hang hhang] at hrun
    cases hrun
  · intro hd
    obtain ⟨w, hrun, hdel, hlast⟩ := deleteClusters_run hs hl ho hcur hle hd
    refine ⟨w.shortened f (v.clustersFor length) length, ?_,
      freesTail_shortened hdel hl ho hcur (clustersFor_pos hs.geo length) hle hlast length⟩
    rw [hstart, run_bind_ok hrun, Volume.shortened, hdel.touched.pf]
    rfl

/-- The inode of a file of 17 clusters, from 5 to 21, with its indirect cluster at 22. -/
def sampleInode : Inode := fun j =>
  if j = 0 then 0x80 else if j = 1 then 0x21 else if j = 8 then 17
  else if 24 ≤ j ∧ j < 84 ∧ j % 4 = 0 then UInt8.ofNat (j / 4)
  else if j = 84 then 22 else 0

/-- A volume of 32 clusters with that file open; `warm` tells whether the indirect cluster is in a buffer. -/
def sampleVolume (warm : Bool) : Volume where
  logClusterBytes := 9
  clustersCount := 32
  bitmapStartCluster := 2
  backupSuper := 3
  rootStartCluster := 4
  freeClustersCount := 9
  lru := (List.range numBuffers).reverse
  held := fun b => if warm && b == 0 then some 22 else none
  clusters := fun c => if c = 2 then setWord 0 (2 ^ 23 - 1) fun _ => 0 else setWord 0 21 fun _ => 0
  deviceEnd := 32
  pfiles := fun _ => { inode := sampleInode, firstCluster := 5, references := 1 }
  numPFiles := 29
  files := fun _ => { pf := 0, flags := oRdwr, references := 1, filePointer := 0, icluster := 0, iclusterFirst := 0 }
  numFiles := 146
  env := { oom := fun _ => false, time := fun _ => 0 }
  ticks := 0

def sampleNode : Node := { cells := List.range' 5 17, ptrs := [22] }

theorem sampleVolume_sound (warm : Bool) : Sound (sampleVolume warm) where
  geo := by
    constructor
    · revert warm
      decide
    · revert warm
      decide
    · intro k hk
      have hk : k < 32 := hk
      change k / (2 ^ 9 * 8) + 2 < 4
      omega
    · revert warm
      decide
    · revert warm
      decide
  buffers := List.reverse_perm _
  system := by
    revert warm
    decide +kernel
  accounted := by
    revert warm
    decide +kernel

theorem sampleVolume_laid (warm : Bool) : Laid (sampleVolume warm) 0 sampleNode where
  count := by
    revert warm
    decide
  first := rfl
  direct n k hn hk := by
    have hd : ∀ n < 15, sampleInode.dcluster n = 5 + (n + 1) := by decide
    rw [sampleNode, List.getElem?_range' (by omega), Nat.one_mul] at hk
    exact (hd n hn).trans (Option.some.inj hk)
  head k hk := by
    obtain rfl := Option.some.inj hk
    exact (by decide : sampleInode.iclustersHead = 22)
  next j k k' hk hk' := by
    have hlt : j + 1 < 1 := (List.getElem?_eq_some_iff.mp hk').1
    omega
  indirect j n k k' hk hn hk' := by
    have hj : j < 1 := (List.getElem?_eq_some_iff.mp hk).1
    obtain rfl := Nat.lt_one_iff.mp hj
    obtain rfl := Option.some.inj hk
    have hlt : 16 + 0 * (sampleVolume warm).iclusterCount + n < 17 := (List.getElem?_eq_some_iff.mp hk').1
    obtain rfl : n = 0 := by omega
    rw [Nat.zero_mul] at hk'
    obtain rfl := Option.some.inj hk'
    exact word_setWord_of_lt (by decide) 0 _
  numPtrs j := by
    have hc : (sampleVolume warm).iclusterCount = 127 := by
      revert warm
      decide
    rw [hc]
    change j < 1 ↔ 16 + j * 127 < 17
    omega

theorem sampleVolume_owned (warm : Bool) : Owned (sampleVolume warm) sampleNode where
  nodup := by decide
  area := by
    revert warm
    decide
  allocated := by
    revert warm
    decide +kernel

/-- With the indirect cluster in a buffer the file is shortened by its last cluster. -/
theorem ftruncate_freesTail_sample : ∃ w, (leanfsFtruncate 0 (8000 : ℕ)).run (sampleVolume true) = (.ok 0, w) ∧
    FreesTail (sampleVolume true) 0 sampleNode ((sampleVolume true).clustersFor 8000) w :=
  (ftruncate_freesTail_iff (sampleVolume_sound true) (sampleVolume_laid true) (sampleVolume_owned true) (.inl rfl)
    (by decide) (by decide) (by decide)).mpr (by decide +kernel)

/-- Otherwise the driver gives up the buffer that a variable happens to point to. -/
theorem ftruncate_not_freesTail : ¬∀ (v : Volume) (f : ℕ) (x : Node) (length : ℕ), Sound v → Laid v f x → Owned v x →
    CursorOk v f x → (v.files f).isWriteable = true →
    (v.inode f).fileSize + inodeSize ≤ x.cells.length * v.clusterBytes → length < (v.inode f).fileSize →
    ∃ w, (leanfsFtruncate f length).run v = (.ok 0, w) ∧ FreesTail v f x (v.clustersFor length) w := by
  intro h
  obtain ⟨w, hrun, -⟩ := h (sampleVolume false) 0 sampleNode 8000 (sampleVolume_sound false) (sampleVolume_laid false)
    (sampleVolume_owned false) (.inl rfl) (by decide) (by decide) (by decide)
  have hhang : ((leanfsFtruncate 0 (8000 : ℕ)).run (sampleVolume false)).1 = .hang := by decide +kernel
  rw [hrun] at hhang
  cases hhang

end FreeDos32.Leanfs
