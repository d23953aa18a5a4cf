import FreeDos32.Dynalink.Layout
import FreeDos32.Dynalink.Pei

namespace FreeDos32.Dynalink

open Prog Memory

def extent (x : SectionInfo) : ℕ := max x.size.toNat x.filesize.toNat

section Covered

variable (addr : SectionInfo → Dword) (sections : List SectionInfo)

/-- The region has room for the sections, nothing is written outside of it, and the sections hold the bytes that they have
in the file and zeroes behind them. -/
structure Covered (region : Block) (bytes : SectionInfo → List Byte) (m m' : Memory) : Prop where
  inside : ∀ x ∈ sections, ∀ k < extent x, Within region.addr region.size.toNat (addr x + BitVec.ofNat 32 k)
  outside : ∀ p, ¬Within region.addr region.size.toNat p → m' p = m p
  contents : ∀ x ∈ sections, ∀ k < extent x, m' (addr x + BitVec.ofNat 32 k) = (bytes x).getD k 0

/-- Sections that share a byte have the same for it. -/
def Agree (bytes : SectionInfo → List Byte) : Prop := ∀ x ∈ sections, ∀ y ∈ sections, ∀ j < extent x, ∀ k < extent y,
  addr x + BitVec.ofNat 32 j = addr y + BitVec.ofNat 32 k → (bytes x).getD j 0 = (bytes y).getD k 0

/-- Memory holds zeroes where the sections lie and nothing is written. -/
def Zeroed (written : SectionInfo → List Byte) (m : Memory) : Prop := ∀ x ∈ sections, ∀ k < extent x,
  (∀ y ∈ sections, ¬Within (addr y) (written y).length (addr x + BitVec.ofNat 32 k)) →
    m (addr x + BitVec.ofNat 32 k) = 0

instance (bytes : SectionInfo → List Byte) : Decidable (Agree addr sections bytes) :=
  inferInstanceAs (Decidable (∀ x ∈ sections, ∀ y ∈ sections, _))

instance (written : SectionInfo → List Byte) (m : Memory) : Decidable (Zeroed addr sections written m) :=
  inferInstanceAs (Decidable (∀ x ∈ sections, _))

variable {addr sections}

theorem extent_lt (x : SectionInfo) : extent x < 2 ^ 32 := Nat.max_lt.mpr ⟨x.size.isLt, x.filesize.isLt⟩

theorem putAll_outside {m : Memory} {written : SectionInfo → List Byte} {region : Block}
    (hlen : ∀ x, (written x).length ≤ extent x)
    (hinside : ∀ x ∈ sections, ∀ k < extent x, Within region.addr region.size.toNat (addr x + BitVec.ofNat 32 k))
    {p : Dword} (hp : ¬Within region.addr region.size.toNat p) :
    m.putAll (sections.map fun x => (addr x, written x)) p = m p := by
  refine putAll_of_not_within fun e he hw => ?_
  obtain ⟨x, hx, rfl⟩ := List.mem_map.mp he
  obtain ⟨k, hk, rfl⟩ := hw.exists_add
  exact hp (hinside x hx k (Nat.lt_of_lt_of_le hk (hlen x)))

theorem covered_iff {region : Block} {bytes written : SectionInfo → List Byte} {m : Memory}
    (hlen : ∀ x, (written x).length ≤ extent x) (hbytes : ∀ x k, (written x).getD k 0 = (bytes x).getD k 0) :
    Covered addr sections region bytes m (m.putAll (sections.map fun x => (addr x, written x))) ↔
      (∀ x ∈ sections, ∀ k < extent x, Within region.addr region.size.toNat (addr x + BitVec.ofNat 32 k)) ∧
      Agree addr sections bytes ∧ Zeroed addr sections written m := by
  constructor
  · refine fun h => ⟨h.inside, fun x hx y hy j hj k hk heq => ?_, fun x hx k hk hfree => ?_⟩
    · rw [← h.contents x hx j hj, heq, h.contents y hy k hk]
    · have hat := h.contents x hx k hk
      rw [putAll_of_not_within, ← hbytes, List.getD_eq_default] at hat
      · exact hat
      · have hself := hfree x hx
        rw [Within, toNat_add_sub_cancel, BitVec.toNat_ofNat, Nat.mod_eq_of_lt (Nat.lt_trans hk (extent_lt x))] at hself
        exact Nat.le_of_not_lt hself
      · intro e he
        obtain ⟨y, hy, rfl⟩ := List.mem_map.mp he
        exact hfree y hy
  · rintro ⟨hinside, hagree, hzero⟩
    refine ⟨hinside, fun p hp => putAll_outside hlen hinside hp, fun x hx k hk => ?_⟩
    rcases putAll_cases m (sections.map fun x => (addr x, written x)) (addr x + BitVec.ofNat 32 k) with
      ⟨hfree, heq⟩ | ⟨e, he, hw, heq⟩
    · have hfree' : ∀ y ∈ sections, ¬Within (addr y) (written y).length (addr x + BitVec.ofNat 32 k) :=
        fun y hy => hfree _ (List.mem_map_of_mem hy)
      have hself := hfree' x hx
      rw [Within, toNat_add_sub_cancel, BitVec.toNat_ofNat, Nat.mod_eq_of_lt (Nat.lt_trans hk (extent_lt x))] at hself
      rw [heq, hzero x hx k hk hfree', ← hbytes, List.getD_eq_default _ _ (Nat.le_of_not_lt hself)]
    · obtain ⟨y, hy, rfl⟩ := List.mem_map.mp he
      rw [heq, hbytes]
      exact hagree y hy x hx _ (Nat.lt_of_lt_of_le hw (hlen y)) k hk (eq_add_ofNat _ _).symm

/-- A region that is filled with zeroes first has them wherever nothing is written. -/
theorem covered_fill_iff {region : Block} {bytes : SectionInfo → List Byte} {m : Memory}
    (hlen : ∀ x, (bytes x).length ≤ extent x) :
    Covered addr sections region bytes m
        ((m.fill region.addr region.size.toNat 0).putAll (sections.map fun x => (addr x, bytes x))) ↔
      (∀ x ∈ sections, ∀ k < extent x, Within region.addr region.size.toNat (addr x + BitVec.ofNat 32 k)) ∧
      Agree addr sections bytes := by
  have hfill : ∀ m', Covered addr sections region bytes m m' ↔
      Covered addr sections region bytes (m.fill region.addr region.size.toNat 0) m' := fun m' =>
    ⟨fun h => ⟨h.inside, fun p hp => (h.outside p hp).trans (if_neg hp).symm, h.contents⟩,
      fun h => ⟨h.inside, fun p hp => (h.outside p hp).trans (if_neg hp), h.contents⟩⟩
  rw [hfill, covered_iff hlen fun _ _ => rfl]
  refine and_congr_right fun hinside => and_iff_left fun x hx k hk _ => ?_
  exact if_pos (hinside x hx k hk)

end Covered

/-- What the file has of a section. -/
def fileBytes (off : Dword) (contents : List Byte) (x : SectionInfo) : List Byte :=
  if x.fileptr = 0 then [] else bytesAt contents (off + x.fileptr).toNat x.filesize.toNat

theorem length_fileBytes (off : Dword) (contents : List Byte) (x : SectionInfo) :
    (fileBytes off contents x).length ≤ x.filesize.toNat := by
  unfold fileBytes
  split
  · exact Nat.zero_le _
  · exact List.length_take_le _ _

/-- What `common_load_executable` writes at a section. -/
def placedBytes (off : Dword) (contents : List Byte) (x : SectionInfo) : List Byte :=
  if x.filesize = 0 ∨ x.fileptr = 0 then List.replicate x.size.toNat 0 else fileBytes off contents x

theorem length_placedBytes (off : Dword) (contents : List Byte) (x : SectionInfo) :
    (placedBytes off contents x).length ≤ extent x := by
  unfold placedBytes
  split
  · rw [List.length_replicate]
    exact Nat.le_max_left _ _
  · exact Nat.le_trans (length_fileBytes off contents x) (Nat.le_max_right _ _)

theorem getD_placedBytes (off : Dword) (contents : List Byte) (x : SectionInfo) (k : ℕ) :
    (placedBytes off contents x).getD k 0 = (fileBytes off contents x).getD k 0 := by
  unfold placedBytes
  split
  next h =>
    have hnil : fileBytes off contents x = [] := by
      rcases h with h | h
      · have hlen := length_fileBytes off contents x
        rw [h] at hlen
        exact List.length_eq_zero_iff.mp (Nat.le_zero.mp hlen)
      · exact if_pos h
    rw [hnil]
    by_cases hk : k < x.size.toNat
    · rw [List.getD_eq_getElem _ _ (by rw [List.length_replicate]; exact hk), List.getElem_replicate]
      rfl
    · rw [List.getD_eq_default _ _ (by rw [List.length_replicate]; exact Nat.le_of_not_lt hk)]
      rfl
  · rfl

section Runs

variable {off : Dword} {calls : List (List Byte × Dword)} {contents : List Byte} {s : Load Disk}

/-- What the loops over the sections leave alone. -/
structure Rest (s t : Load Disk) : Prop where
  sections : t.sections = s.sections
  tables : t.tables = s.tables
  obtained : t.obtained = s.obtained

theorem writes_ends {f : ℕ → Unit → Body Disk Unit} {addr : SectionInfo → Dword} {written : SectionInfo → List Byte}
    (hf : ∀ (u : Load Disk) i x, u.world.contents = contents → u.sections[i]? = some x →
      (f i ()).Ends u (fun _ t => t.ram = u.ram.put (addr x) (written x) ∧ t.world.contents = contents ∧ Rest u t)
        fun _ _ => False)
    {pre rest : List SectionInfo} (hs : s.sections = pre ++ rest) (hfile : s.world.contents = contents) :
    (Prog.loop f rest.length pre.length ()).Ends s
      (fun _ t => t.ram = s.ram.putAll (rest.map fun x => (addr x, written x)) ∧ Rest s t) fun _ _ => False := by
  induction rest generalizing pre s with
  | nil => exact ⟨rfl, rfl, rfl, rfl⟩
  | cons x rest ih =>
    rw [List.length_cons, Prog.loop, ends_bind]
    have hat : s.sections[pre.length]? = some x := by
      rw [hs]
      exact getElem?_append_cons pre rest x
    refine (hf s pre.length x hfile hat).mono (fun _ u hu => ?_) fun _ _ he => he
    obtain ⟨hram, hcontents, hkeep⟩ := hu
    have hrest := ih (show u.sections = (pre ++ [x]) ++ rest by rw [hkeep.sections, hs, List.append_assoc]; rfl) hcontents
    rw [List.length_append] at hrest
    refine hrest.mono (fun _ t ht => ?_) fun _ _ he => he
    obtain ⟨htram, htkeep⟩ := ht
    refine ⟨?_, htkeep.sections.trans hkeep.sections, htkeep.tables.trans hkeep.tables,
      htkeep.obtained.trans hkeep.obtained⟩
    rw [htram, hram]
    rfl

theorem read_disk (n : Dword) (d : Disk) :
    ((diskFuncs off calls).fileRead n d).1.2.take n.toNat = bytesAt d.contents d.pos n.toNat := by
  show ((d.contents.drop d.pos).take n.toNat).take n.toNat = (d.contents.drop d.pos).take n.toNat
  rw [List.take_take, Nat.min_self]

theorem placeSection_ends (loadOffset : Dword) (i : ℕ) {x : SectionInfo} (hfile : s.world.contents = contents)
    (hat : s.sections[i]? = some x) :
    (placeSection (diskFuncs off calls) loadOffset i).Ends s (fun _ t =>
      t.ram = s.ram.put (loadOffset + x.base) (placedBytes off contents x) ∧ t.world.contents = contents ∧ Rest s t)
      fun _ _ => False := by
  unfold placeSection
  rw [ends_bind, ends_getSection hat, ends_ite]
  refine ⟨fun h => ?_, fun h => ?_⟩
  · rw [ends_memset]
    refine ⟨?_, hfile, rfl, rfl, rfl⟩
    rw [placedBytes, if_pos h, ← fill_eq_put]
    rfl
  · simp only [ends_bind, ends_fileSeek, ends_fileReadTo, ends_pure]
    refine ⟨?_, hfile, rfl, rfl, rfl⟩
    rw [placedBytes, if_neg h, fileBytes, if_neg (fun h0 => h (Or.inr h0)), ← hfile]
    exact congrArg (fun bs => s.ram.put (loadOffset + x.base) bs) (read_disk x.filesize _)

/-- The memory that `common_load_executable` asks for. -/
def neededMem (imageBase : Dword) (l : List SectionInfo) : Dword := match l.getLast? with
  | some last => last.base + last.size - imageBase
  | none => 0

/-- The memory that `pei_load` asks for. -/
def imageMemorySize (l : List SectionInfo) : Dword := match l.getLast? with
  | some last => last.base + last.filesize
  | none => 0

theorem ends_lastSection {n : Word} (hlen : s.sections.length = n.toNat) {Q : SectionInfo → Load Disk → Prop}
    {E : Exit Dword Fault → Load Disk → Prop} (hE : E (.fault .sectionIndex) s)
    (hQ : ∀ x, s.sections.getLast? = some x → Q x s) : (lastSection n).Ends s Q E := by
  unfold lastSection
  rw [ends_ite]
  refine ⟨fun _ => hE, fun hn => ?_⟩
  have hpos : s.sections ≠ [] := by
    intro h0
    rw [h0] at hlen
    exact hn (BitVec.eq_of_toNat_eq hlen.symm)
  have hlast : s.sections[n.toNat - 1]? = some (s.sections.getLast hpos) := by
    rw [← hlen, List.getLast_eq_getElem]
    exact List.getElem?_eq_getElem _
  rw [ends_getSection hlast]
  exact hQ _ (List.getLast?_eq_some_getLast hpos)

/-- The image of a load and how memory looks after it. -/
structure Written (s t : Load Disk) (block : Block) (l : List (Dword × List Byte)) : Prop where
  image : t.image = block
  obtained : block ∈ t.obtained
  ram : t.ram = s.ram.putAll l

/-- A block is found, and the rest is as it was. -/
structure Found (s t : Load Disk) (block : Block) : Prop where
  obtained : block.addr ≠ 0 → block ∈ t.obtained
  ram : t.ram = s.ram
  sections : t.sections = s.sections
  contents : t.world.contents = s.world.contents

theorem placeExecutable_ends (imageBase size : Dword) :
    (placeExecutable (diskFuncs off calls) imageBase size).Ends s
      (fun r t => r.2 = r.1 - imageBase ∧ Found s t ⟨r.1, size⟩) fun _ _ => False := by
  unfold placeExecutable
  simp only [ends_bind, ends_memAllocRegion, ends_ite, ends_memAlloc, ends_pure]
  refine ⟨fun _ => ⟨fun h => absurd h ‹_›, fun _ => ⟨(BitVec.sub_self imageBase).symm, ?_⟩⟩, fun _ => ⟨fun _ => ?_, ?_⟩⟩
  · exact ⟨fun _ => List.mem_cons_self, rfl, rfl, rfl⟩
  · exact ⟨fun _ => ⟨trivial, fun _ => List.mem_cons_self, rfl, rfl, rfl⟩, fun _ => ⟨trivial, fun h => absurd rfl h, rfl, rfl, rfl⟩⟩
  · exact fun h => absurd trivial h

theorem commonLoadExecutable_ends {n : Word} (hfile : s.world.contents = contents)
    (hlen : s.sections.length = n.toNat) :
    (commonLoadExecutable (diskFuncs off calls) n).Ends s (fun res t => res ≠ 0 →
      Written s t ⟨res, neededMem s.tables.imageBase s.sections⟩
        (s.sections.map fun x => (res - s.tables.imageBase + x.base, placedBytes off contents x)))
      fun _ _ => True := by
  unfold commonLoadExecutable
  rw [ends_function, ends_bind, ends_reads, ends_bind]
  refine ends_lastSection hlen trivial fun last hlast => ?_
  have hsize : neededMem s.tables.imageBase s.sections = last.base + last.size - s.tables.imageBase := by
    rw [neededMem, hlast]
  rw [hsize, ends_bind]
  refine (placeExecutable_ends _ _).mono (fun r u hu => ?_) fun _ _ he => he.elim
  obtain ⟨hoffset, hfound⟩ := hu
  simp only [ends_bind, ends_when, ends_ret, exits_returns]
  refine ⟨fun _ h => absurd rfl h, fun hres => ?_⟩
  have hrest := writes_ends (f := fun i _ => placeSection (diskFuncs off calls) r.2 i)
    (fun v i x hv hat => placeSection_ends r.2 i hv hat) (show u.sections = [] ++ s.sections from hfound.sections)
    (hfound.contents.trans hfile)
  rw [List.length_nil, hlen] at hrest
  refine hrest.mono (fun _ t ht => ?_) fun _ _ he => he.elim
  obtain ⟨hram, hkeep⟩ := ht
  rw [ends_update]
  refine fun _ => ⟨rfl, ?_, ?_⟩
  · show _ ∈ t.obtained
    rw [hkeep.obtained]
    exact hfound.obtained hres
  · show t.ram = _
    rw [hram, hfound.ram, hoffset]

theorem peiLoadSection_ends (imageBase : Dword) (i : ℕ) {x : SectionInfo} (hfile : s.world.contents = contents)
    (hat : s.sections[i]? = some x) :
    (peiLoadSection (diskFuncs off calls) imageBase i).Ends s (fun _ t =>
      t.ram = s.ram.put (imageBase + x.base) (fileBytes 0 contents x) ∧ t.world.contents = contents ∧ Rest s t)
      fun _ _ => False := by
  unfold peiLoadSection
  rw [ends_bind, ends_getSection hat, ends_when]
  refine ⟨fun h => ?_, fun h => ?_⟩
  · simp only [ends_bind, ends_fileSeek, ends_fileReadTo, ends_pure]
    refine ⟨?_, hfile, rfl, rfl, rfl⟩
    rw [fileBytes, if_neg h, ← hfile, show (0 : Dword) + x.fileptr = x.fileptr from BitVec.zero_add _]
    exact congrArg (fun bs => s.ram.put (imageBase + x.base) bs) (read_disk x.filesize _)
  · refine ⟨?_, hfile, rfl, rfl, rfl⟩
    rw [fileBytes, if_pos (not_not.mp h)]
    rfl

theorem placeImage_ends (pee : PeiExtraInfo) (imageBase size : Dword) :
    (placeImage (diskFuncs off calls) pee imageBase size).Ends s (fun res t => Found s t ⟨res, size⟩)
      fun e _ => e = .returns minusOne := by
  unfold placeImage
  simp only [ends_ite, ends_bind, ends_memAlloc, ends_memAllocRegion, ends_when, ends_ret, ends_pure]
  refine ⟨fun _ => ⟨fun _ => ⟨fun _ => List.mem_cons_self, rfl, rfl, rfl⟩, fun _ => ⟨fun h => absurd rfl h, rfl, rfl, rfl⟩⟩,
    fun _ => ⟨fun _ => ⟨fun _ => trivial, fun _ => ⟨fun _ => List.mem_cons_self, rfl, rfl, rfl⟩⟩,
      fun _ => ⟨fun _ => trivial, fun h => absurd trivial h⟩⟩⟩

/-- The relocations of the image are noted in its first section, where it lies stays as it is. -/
theorem setPeReloc_ends (pee : PeiExtraInfo) (imageBase relocOffset : Dword) {β : Type} (g : SectionInfo → β)
    (hg : ∀ x n r p, g { x with numReloc := n, reloc := r, peReloc := p } = g x) (hpos : s.sections ≠ []) :
    (setPeReloc (diskFuncs off calls) pee imageBase relocOffset).Ends s (fun _ t =>
      t.ram = s.ram ∧ t.world.contents = s.world.contents ∧ s.obtained ⊆ t.obtained ∧
      t.sections.map g = s.sections.map g) fun _ _ => False := by
  obtain ⟨x, l, hx⟩ := List.exists_cons_of_ne_nil hpos
  have hset : ∀ u : Load Disk, u.sections = s.sections.set 0 (x.setNumReloc 1) → u.ram = s.ram →
      u.world.contents = s.world.contents → s.obtained ⊆ u.obtained → ∀ r p,
      (setSection 0 fun x => { x with reloc := r, peReloc := p } : Body Disk Unit).Ends u (fun _ t =>
        t.ram = s.ram ∧ t.world.contents = s.world.contents ∧ s.obtained ⊆ t.obtained ∧
        t.sections.map g = s.sections.map g) fun _ _ => False := by
    intro u hu hram hworld hobtained r p
    rw [hx, List.set_cons_zero] at hu
    rw [ends_setSection (x := x.setNumReloc 1) (by rw [hu]; rfl)]
    refine ⟨hram, hworld, hobtained, ?_⟩
    show (u.sections.set 0 _).map g = _
    rw [hu, hx, List.set_cons_zero, List.map_cons, List.map_cons]
    exact congrArg (· :: l.map g) (hg x 1 r p)
  unfold setPeReloc
  simp only [ends_bind, ends_setTables]
  rw [ends_setSection (x := x) (by rw [Load.setTables_sections, hx]; rfl), ends_memAlloc]
  refine ⟨fun _ => ?_, fun _ => ?_⟩
  · refine hset _ ?_ ?_ ?_ ?_ _ _
    · rfl
    · rfl
    · rfl
    · exact List.subset_cons_self _ _
  · refine hset _ ?_ ?_ ?_ ?_ _ _
    · rfl
    · rfl
    · rfl
    · exact List.Subset.refl _

theorem peiLoadImage_ends (pee : PeiExtraInfo) {n : Word} (hfile : s.world.contents = contents)
    (hlen : s.sections.length = n.toNat) :
    (peiLoadImage (diskFuncs off calls) pee n).Ends s (fun res t => res ≠ minusOne →
      Written s t ⟨res, imageMemorySize s.sections⟩
        ((res, List.replicate (imageMemorySize s.sections).toNat 0) ::
          s.sections.map fun x => (res + x.base, fileBytes 0 contents x)))
      fun _ _ => True := by
  unfold peiLoadImage
  rw [ends_function, ends_bind, ends_reads, ends_bind]
  refine ends_lastSection hlen trivial fun last hlast => ?_
  have hsize : imageMemorySize s.sections = last.base + last.filesize := by
    rw [imageMemorySize, hlast]
  have hpos : s.sections ≠ [] := fun h => by rw [h] at hlast; exact nomatch hlast
  rw [hsize, ends_bind]
  refine (placeImage_ends pee _ _).mono (fun res u hfound => ?_) fun e _ he => ?_
  swap
  · rw [he]
    exact fun h => absurd rfl h
  rw [ends_bind, ends_when]
  refine ⟨fun _ h => absurd rfl h, fun hres => ?_⟩
  rw [ends_bind, ends_setTables, ends_bind, ends_when]
  have hload : ∀ (v : Load Disk) (E : Exit Dword Fault → Load Disk → Prop), v.ram = s.ram → v.world.contents = contents →
      ⟨res, last.base + last.filesize⟩ ∈ v.obtained →
      v.sections.map (fun x => (res + x.base, fileBytes 0 contents x)) =
        s.sections.map (fun x => (res + x.base, fileBytes 0 contents x)) →
      Ends (memset res (last.base + last.filesize) >>= fun _ =>
        Prog.loop (fun i _ => peiLoadSection (diskFuncs off calls) res i) n.toNat 0 () >>= fun _ =>
          Prog.update (fun t : Load Disk => t.setImage ⟨res, last.base + last.filesize⟩) >>= fun _ => pure res) v
        (fun res t => res ≠ minusOne → Written s t ⟨res, last.base + last.filesize⟩
          ((res, List.replicate (last.base + last.filesize).toNat 0) ::
            s.sections.map fun x => (res + x.base, fileBytes 0 contents x)))
        E := by
    intro v E hram hcontents hobtained hmap
    have hn : v.sections.length = n.toNat := by
      rw [← hlen, ← List.length_map, hmap, List.length_map]
    have hrest := writes_ends (s := v.setRam (v.ram.fill res (last.base + last.filesize).toNat 0))
      (f := fun i _ => peiLoadSection (diskFuncs off calls) res i) (fun w i x hw hat => peiLoadSection_ends res i hw hat)
      (show v.sections = [] ++ v.sections from rfl) hcontents
    rw [List.length_nil, hn] at hrest
    rw [ends_bind, ends_memset, ends_bind]
    refine hrest.mono (fun _ t ht => ?_) fun _ _ he => he.elim
    obtain ⟨htram, hkeep⟩ := ht
    rw [ends_bind, ends_update, ends_pure]
    refine fun _ => ⟨rfl, ?_, ?_⟩
    · show _ ∈ t.obtained
      rw [hkeep.obtained]
      exact hobtained
    · show t.ram = _
      rw [htram, hmap]
      show (v.ram.fill _ _ 0).putAll _ = _
      rw [hram, fill_eq_put]
      rfl
  refine ⟨fun _ => ?_, fun _ => ?_⟩
  · refine (setPeReloc_ends pee res _ (fun x => (res + x.base, fileBytes 0 contents x)) (fun _ _ _ _ => rfl) ?_).mono (fun _ v hv => ?_) fun _ _ he => he.elim
    rotate_left
    · obtain ⟨hram, hcontents, hobtained, hmap⟩ := hv
      refine hload v _ (hram.trans hfound.ram) (hcontents.trans (hfound.contents.trans hfile))
        (hobtained (hfound.obtained hres)) (hmap.trans ?_)
      show u.sections.map _ = _
      rw [hfound.sections]
    · show u.sections ≠ []
      rw [hfound.sections]
      exact hpos
  · refine hload _ _ ?_ (hfound.contents.trans hfile) (hfound.obtained hres) ?_
    · exact hfound.ram
    show u.sections.map _ = _
    rw [hfound.sections]

/-- Each section lies in the `size` bytes from `start` on. -/
def Fits (start size : Dword) (l : List SectionInfo) : Prop :=
  ∀ x ∈ l, extent x = 0 ∨ (x.base - start).toNat + extent x ≤ size.toNat

instance (start size : Dword) (l : List SectionInfo) : Decidable (Fits start size l) :=
  inferInstanceAs (Decidable (∀ x ∈ l, _))

theorem fits_iff {addr : SectionInfo → Dword} {start : Dword} {region : Block} {l : List SectionInfo}
    (haddr : ∀ x, addr x - region.addr = x.base - start) :
    (∀ x ∈ l, ∀ k < extent x, Within region.addr region.size.toNat (addr x + BitVec.ofNat 32 k)) ↔
      Fits start region.size l := by
  unfold Fits
  refine forall₂_congr fun x _ => ?_
  rw [within_block_iff region.size.isLt, haddr]

/-- An image of `common_load_executable` or of `pei_load` covers its sections if and only if they fit in what the last one
asks for, have the same for the bytes that they share and, where `common_load_executable` writes nothing, memory holds
zeroes already. -/
theorem loadExecutable_covered_iff {n : Word} (pee : PeiExtraInfo) (hlen : s.sections.length = n.toNat) :
    (∀ res t, (commonLoadExecutable (diskFuncs off calls) n).run s = (.ok res, t) → res ≠ 0 →
      let addr := fun x : SectionInfo => res - s.tables.imageBase + x.base
      t.image.addr = res ∧ t.image ∈ t.obtained ∧
        (Covered addr s.sections t.image (fileBytes off s.world.contents) s.ram t.ram ↔
          Fits s.tables.imageBase (neededMem s.tables.imageBase s.sections) s.sections ∧
          Agree addr s.sections (fileBytes off s.world.contents) ∧
          Zeroed addr s.sections (placedBytes off s.world.contents) s.ram)) ∧
    (∀ res t, (peiLoadImage (diskFuncs off calls) pee n).run s = (.ok res, t) → res ≠ minusOne →
      let addr := fun x : SectionInfo => res + x.base
      t.image.addr = res ∧ t.image ∈ t.obtained ∧
        (Covered addr s.sections t.image (fileBytes 0 s.world.contents) s.ram t.ram ↔
          Fits 0 (imageMemorySize s.sections) s.sections ∧
          Agree addr s.sections (fileBytes 0 s.world.contents))) := by
  constructor
  · intro res t hrun hres addr
    have hwritten := (ends_iff_of_run hrun).mp (commonLoadExecutable_ends rfl hlen) hres
    refine ⟨by rw [hwritten.image], hwritten.image ▸ hwritten.obtained, ?_⟩
    rw [hwritten.ram, hwritten.image, covered_iff (length_placedBytes off _) (getD_placedBytes off _)]
    refine and_congr_left' (fits_iff fun x => ?_)
    show res - s.tables.imageBase + x.base - res = x.base - s.tables.imageBase
    grind
  · intro res t hrun hres addr
    have hwritten := (ends_iff_of_run hrun).mp (peiLoadImage_ends pee rfl hlen) hres
    refine ⟨by rw [hwritten.image], hwritten.image ▸ hwritten.obtained, ?_⟩
    have hram : t.ram = (s.ram.fill res (imageMemorySize s.sections).toNat 0).putAll
        (s.sections.map fun x => (addr x, fileBytes 0 s.world.contents x)) := by
      rw [hwritten.ram, fill_eq_put]
      rfl
    have hlength : ∀ x, (fileBytes 0 s.world.contents x).length ≤ extent x := fun x =>
      Nat.le_trans (length_fileBytes 0 _ x) (Nat.le_max_right _ _)
    have hiff := @covered_fill_iff addr s.sections ⟨res, imageMemorySize s.sections⟩ (fileBytes 0 s.world.contents) s.ram
      hlength
    rw [hram, hwritten.image, hiff]
    refine and_congr_left' (fits_iff fun x => ?_)
    show res + x.base - res = x.base - 0
    grind

/-- A section with `size` bytes in memory and `filesize` bytes from the second byte of the file on. -/
def fileEntry (base size filesize : Dword) : SectionInfo := ⟨base, size, 1, filesize, 0, 0, [], ⟨0, 0, 0⟩⟩

/-- Before an executable for 0x1000 is loaded; memory holds `rest` everywhere. -/
def executableLoad (rest : Byte) (sections : List SectionInfo) : Load Disk where
  world := { contents := [9, 1, 2, 3, 4], pos := 0, blocks := fun _ => 0x8000, regions := fun _ => 0, turn := 0 }
  ram := fun _ => rest
  tables := ⟨0, 0, 0, 0, 0, 0, 0, 0, 0, 0, 0, 0, 0x1000, 0, 0, 0⟩
  sections
  symbols := []
  image := ⟨0, 0⟩
  obtained := []
  released := []
  strays := []

def adjoining : Load Disk := executableLoad 0xff [fileEntry 0x1000 4 4, fileEntry 0x1004 4 4]

/-- An image that is not to be relocated. -/
def unmovable : PeiExtraInfo := ⟨0, 0, 0, 0⟩

theorem adjoining_runs :
    (commonLoadExecutable (diskFuncs 0 []) 2).run adjoining =
      (.ok 0x1000, ((commonLoadExecutable (diskFuncs 0 []) 2).run adjoining).2) ∧
    (peiLoadImage (diskFuncs 0 []) unmovable 2).run adjoining =
      (.ok 0x1000, ((peiLoadImage (diskFuncs 0 []) unmovable 2).run adjoining).2) :=
  ⟨Prod.ext (by decide +kernel) rfl, Prod.ext (by decide +kernel) rfl⟩

theorem loadExecutable_covered_iff_adjoining :
    Covered (fun x => 0x1000 - 0x1000 + x.base) adjoining.sections
      ((commonLoadExecutable (diskFuncs 0 []) 2).run adjoining).2.image (fileBytes 0 [9, 1, 2, 3, 4]) adjoining.ram
      ((commonLoadExecutable (diskFuncs 0 []) 2).run adjoining).2.ram ∧
    Covered (fun x => 0x1000 + x.base) adjoining.sections
      ((peiLoadImage (diskFuncs 0 []) unmovable 2).run adjoining).2.image (fileBytes 0 [9, 1, 2, 3, 4]) adjoining.ram
      ((peiLoadImage (diskFuncs 0 []) unmovable 2).run adjoining).2.ram := by
  have hiff := @loadExecutable_covered_iff 0 [] adjoining 2 unmovable rfl
  have hcommon := hiff.1 _ _ adjoining_runs.1 (by decide)
  have hpei := hiff.2 _ _ adjoining_runs.2 (by decide)
  exact ⟨hcommon.2.2.mpr ⟨by decide, by decide +kernel, by decide +kernel⟩, hpei.2.2.mpr ⟨by decide, by decide +kernel⟩⟩

/-- Sections that are not in order, a last one that is larger in memory than in the file, and one whose tail is left as it
was found. -/
theorem loadExecutable_not_covered :
    (let s := executableLoad 0 [fileEntry 0x1010 4 4, fileEntry 0x1000 4 4]
     let r := (commonLoadExecutable (diskFuncs 0 []) 2).run s
     r.1 = .ok 0x1000 ∧ ¬Covered (fun x => 0x1000 - 0x1000 + x.base) s.sections r.2.image
       (fileBytes 0 s.world.contents) s.ram r.2.ram) ∧
    (let s := executableLoad 0 [fileEntry 0x1000 32 4]
     let r := (peiLoadImage (diskFuncs 0 []) unmovable 1).run s
     r.1 = .ok 0x1000 ∧ ¬Covered (fun x => 0x1000 + x.base) s.sections r.2.image
       (fileBytes 0 s.world.contents) s.ram r.2.ram) ∧
    (let s := executableLoad 0xff [fileEntry 0x1000 8 4]
     let r := (commonLoadExecutable (diskFuncs 0 []) 1).run s
     r.1 = .ok 0x1000 ∧ ¬Covered (fun x => 0x1000 - 0x1000 + x.base) s.sections r.2.image
       (fileBytes 0 s.world.contents) s.ram r.2.ram) := by
  refine ⟨⟨by decide +kernel, fun h => ?_⟩, ⟨by decide +kernel, fun h => ?_⟩, ⟨by decide +kernel, fun h => ?_⟩⟩
  · exact absurd (h.inside _ List.mem_cons_self 0 (by decide)) (by decide +kernel)
  · exact absurd (h.inside _ List.mem_cons_self 4 (by decide)) (by decide +kernel)
  · exact absurd (h.contents _ List.mem_cons_self 4 (by decide)) (by decide +kernel)

end Runs

end FreeDos32.Dynalink
