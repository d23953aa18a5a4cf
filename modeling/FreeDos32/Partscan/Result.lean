import FreeDos32.Partscan.Scan

namespace FreeDos32.Partscan

open Filesys (strcaseEq)

variable {d : Device} {read : Dword → Except Errno Block} {name : List Char} {env env' : Env} {p : PartTabl}
  {tbl : List PartTabl} {a b n k : ℕ} {l l' : List (PartTabl × ℕ)}

section Names

theorem toupper_digit {c : Char} (hc : c.isDigit) : Filesys.FsLayer.toupper c = c.toNat := by
  have hlt : ¬ 'a' ≤ c := by
    intro ha
    have h1 : 'a'.toNat ≤ c.toNat := ha
    have h2 : c.toNat ≤ '9'.toNat := by
      simp only [Char.isDigit, Bool.and_eq_true, decide_eq_true_eq] at hc
      exact hc.2
    exact absurd (Nat.le_trans h1 h2) (by decide)
  rw [Filesys.FsLayer.toupper, if_neg fun h => hlt h.1]

theorem map_toupper_digits : (Nat.toDigits 10 n).map Filesys.FsLayer.toupper = (Nat.toDigits 10 n).map Char.toNat := by
  apply List.map_congr_left
  intro c hc
  exact toupper_digit (Nat.isDigit_of_mem_toDigits (by decide) (by decide) hc)

theorem partName_inj (h : strcaseEq (partName name a) (partName name b)) : a = b := by
  simp only [strcaseEq, partName, List.map_append, decide_eq_true_eq] at h
  have hmap := List.append_cancel_left h
  rw [map_toupper_digits, map_toupper_digits] at hmap
  have hdigits := List.map_injective_iff.mpr (fun x y => Char.toNat_inj.mp) hmap
  rw [← Nat.ofDigitChars_ten_toDigits (n := a), hdigits, Nat.ofDigitChars_ten_toDigits]

end Names

section Entries

theorem isExtended_not_isData (h : p.isExtended) : p.isData = false := by
  simp [PartTabl.isData, h]

def settle (d : Device) (p : PartTabl) : PartTabl := if p.isData then checkLba p d else p

theorem addPartition_of_not_isData (h : p.isData = false) : addPartition d name n p env = (.ok (), p, env) := by
  simp [addPartition, h]

theorem addPartition_entry : (addPartition d name n p env).2.1 = settle d p := by
  unfold addPartition settle
  cases h : p.isData with
  | false => simp
  | true =>
    cases h1 : env.granted 0 <;> cases h2 : env.granted 1 <;> simp [Env.get, h1, h2]

theorem isExtended_settle : (settle d p).isExtended = p.isExtended := by
  unfold settle checkLba
  split
  · split <;> rfl
  · rfl

/-- An entry of a logical table as it is given to `add_partition`. -/
def moved (origin : Dword) (p : PartTabl) : PartTabl := { p with lbaStart := p.lbaStart + origin }

theorem find_map {f : PartTabl → PartTabl} (hf : ∀ p, (f p).isExtended = p.isExtended)
    (hfix : ∀ p, p.isData = false → f p = p) :
    (tbl.map f).find? PartTabl.isExtended = tbl.find? PartTabl.isExtended := by
  induction tbl with
  | nil => rfl
  | cons p tbl ih =>
    rw [List.map_cons, List.find?_cons, List.find?_cons, hf, ih]
    cases h : p.isExtended with
    | false => rfl
    | true => rw [hfix p (isExtended_not_isData h)]

theorem find_settle : (tbl.map (settle d)).find? PartTabl.isExtended = tbl.find? PartTabl.isExtended := by
  apply find_map fun _ => isExtended_settle
  intro p hp
  simp [settle, hp]

end Entries

section Loops

def addAll (d : Device) (name : List Char) (l : List (PartTabl × ℕ)) (env : Env) : Env :=
  l.foldl (fun env x => (addPartition d name x.2 x.1 env).2.2) env

theorem addAll_append : addAll d name (l ++ l') env = addAll d name l' (addAll d name l env) := by
  simp [addAll]

theorem addAll_filter : addAll d name (l.filter fun x => x.1.isData) env = addAll d name l env := by
  induction l generalizing env with
  | nil => rfl
  | cons x l ih =>
    cases h : x.1.isData with
    | false =>
      have hx : addAll d name (x :: l) env = addAll d name l env := by
        simp [addAll, addPartition_of_not_isData h]
      rw [List.filter_cons_of_neg (by simp [h]), ih, hx]
    | true =>
      rw [List.filter_cons_of_pos (by simp [h])]
      exact ih

theorem addPrimaries_eq :
    addPrimaries d name n tbl env = (tbl.map (settle d), addAll d name (tbl.zipIdx (n + 1)) env) := by
  induction tbl generalizing n env with
  | nil => rfl
  | cons p tbl ih =>
    have hcons : addPrimaries d name n (p :: tbl) env =
        ((addPartition d name (n + 1) p env).2.1 ::
            (addPrimaries d name (n + 1) tbl (addPartition d name (n + 1) p env).2.2).1,
          (addPrimaries d name (n + 1) tbl (addPartition d name (n + 1) p env).2.2).2) := rfl
    rw [hcons, ih, addPartition_entry]
    rfl

/-- The entries of a logical table that describe partitions, from the start of the disk on. -/
def logicalEntries (origin : Dword) (tbl : List PartTabl) : List PartTabl :=
  (tbl.filter PartTabl.isData).map (moved origin)

theorem addLogicals_eq {origin : Dword} :
    addLogicals d name origin n tbl env =
      (n + (logicalEntries origin tbl).length,
        tbl.map fun p => if p.isData then settle d (moved origin p) else p,
        addAll d name ((logicalEntries origin tbl).zipIdx (n + 1)) env) := by
  induction tbl generalizing n env with
  | nil => rfl
  | cons p tbl ih =>
    cases h : p.isData with
    | false =>
      have hcons : addLogicals d name origin n (p :: tbl) env =
          ((addLogicals d name origin n tbl env).1, p :: (addLogicals d name origin n tbl env).2.1,
            (addLogicals d name origin n tbl env).2.2) := by
        simp [addLogicals, h, addPartition_of_not_isData h]
      rw [hcons, ih]
      simp [logicalEntries, h]
    | true =>
      have hcons : addLogicals d name origin n (p :: tbl) env =
          ((addLogicals d name origin (n + 1) tbl (addPartition d name (n + 1) (moved origin p) env).2.2).1,
            (addPartition d name (n + 1) (moved origin p) env).2.1 ::
              (addLogicals d name origin (n + 1) tbl (addPartition d name (n + 1) (moved origin p) env).2.2).2.1,
            (addLogicals d name origin (n + 1) tbl (addPartition d name (n + 1) (moved origin p) env).2.2).2.2) := by
        simp [addLogicals, h, moved]
      rw [hcons, ih, addPartition_entry]
      simp [logicalEntries, h, addAll]
      omega

theorem find_addLogicals (d : Device) (name : List Char) (origin : Dword) (n : ℕ) (tbl : List PartTabl) (env : Env) :
    (addLogicals d name origin n tbl env).2.1.find? PartTabl.isExtended = tbl.find? PartTabl.isExtended := by
  rw [addLogicals_eq]
  apply find_map
  · intro p
    split
    · exact isExtended_settle
    · rfl
  · intro p hp
    simp [hp]

theorem extLoop_succ {extStart extStart1 : Dword} {fuel : ℕ} :
    extLoop d read name extStart (fuel + 1) extStart1 n tbl env =
      match tbl.find? PartTabl.isExtended with
      | none => some (.ok (), addAll d name ((logicalEntries (extStart + extStart1) tbl).zipIdx (n + 1)) env)
      | some p => match read (extStart + p.lbaStart) with
        | .error e => some (.error e, addAll d name ((logicalEntries (extStart + extStart1) tbl).zipIdx (n + 1)) env)
        | .ok b => extLoop d read name extStart fuel p.lbaStart (n + (logicalEntries (extStart + extStart1) tbl).length)
            (tableOf b) (addAll d name ((logicalEntries (extStart + extStart1) tbl).zipIdx (n + 1)) env) := by
  have hfind := find_addLogicals d name (extStart + extStart1) n tbl env
  rw [addLogicals_eq] at hfind
  rw [extLoop, addLogicals_eq]
  dsimp only
  exact hfind ▸ rfl

end Loops

section Chains

/-- The logical tables from the one at `ext + rel` on, with the sectors they are in. The first extended entry of a table
leads to the next one. -/
inductive Chain (read : Dword → Except Errno Block) (ext : ℕ) : ℕ → List (ℕ × List PartTabl) → Prop
  | last {rel : ℕ} {b : Block} : read (BitVec.ofNat 32 (ext + rel)) = .ok b →
      (tableOf b).find? PartTabl.isExtended = none → Chain read ext rel [(ext + rel, tableOf b)]
  | link {rel : ℕ} {b : Block} {p : PartTabl} {ts : List (ℕ × List PartTabl)} :
      read (BitVec.ofNat 32 (ext + rel)) = .ok b → (tableOf b).find? PartTabl.isExtended = some p →
      Chain read ext p.lbaStart.toNat ts → Chain read ext rel ((ext + rel, tableOf b) :: ts)

def chainEntries (ts : List (ℕ × List PartTabl)) : List PartTabl :=
  ts.flatMap fun t => logicalEntries (BitVec.ofNat 32 t.1) t.2

variable {ext rel : ℕ} {b : Block} {ts : List (ℕ × List PartTabl)}

theorem Chain.read_ok (hc : Chain read ext rel ts) : ∃ b, read (BitVec.ofNat 32 (ext + rel)) = .ok b := by
  cases hc with
  | last h _ => exact ⟨_, h⟩
  | link h _ _ => exact ⟨_, h⟩

theorem Chain.extLoop_eq (hc : Chain read ext rel ts) (hb : read (BitVec.ofNat 32 (ext + rel)) = .ok b) :
    extLoop d read name (BitVec.ofNat 32 ext) ts.length (BitVec.ofNat 32 rel) n (tableOf b) env =
      some (.ok (), addAll d name ((chainEntries ts).zipIdx (n + 1)) env) := by
  induction hc generalizing b n env with
  | @last rel b' hread hnone =>
    have hbuf : b' = b := Except.ok.inj (hread.symm.trans hb)
    subst hbuf
    rw [List.length_singleton, extLoop_succ, hnone, ← BitVec.ofNat_add]
    simp only [chainEntries, List.flatMap_cons, List.flatMap_nil, List.append_nil]
  | @link rel b' p ts hread hsome hts ih =>
    have hbuf : b' = b := Except.ok.inj (hread.symm.trans hb)
    subst hbuf
    have hp : BitVec.ofNat 32 ext + p.lbaStart = BitVec.ofNat 32 (ext + p.lbaStart.toNat) := by
      rw [BitVec.ofNat_add, BitVec.ofNat_toNat, BitVec.setWidth_eq]
    obtain ⟨b'', hb''⟩ := hts.read_ok
    rw [List.length_cons, extLoop_succ, hsome, ← BitVec.ofNat_add]
    simp only [hp, hb'']
    have hih := fun n env => @ih env n _ hb''
    simp only [BitVec.ofNat_toNat, BitVec.setWidth_eq] at hih
    rw [hih]
    simp only [chainEntries, List.flatMap_cons, List.zipIdx_append, addAll_append]
    congr 4
    omega

end Chains

section Registered

/-- A partition: its number, the sector it starts at on the disk, its number of sectors and its type. -/
structure Partition where
  number : ℕ
  start : ℕ
  size : ℕ
  type : Dword
  deriving DecidableEq

def Partition.device (d : Device) (name : List Char) (x : Partition) : BlockDevice where
  name := partName name x.number
  handle := { d with
    openCount := 0
    firstSector := BitVec.ofNat 32 x.start
    totalBlocks := BitVec.ofNat 32 x.size
    type := x.type
    multibootId := (d.multibootId &&& 0xFF00FFFF) ||| BitVec.ofNat 32 (x.number - 1) <<< 16 }

def partition (x : PartTabl × ℕ) : Partition := ⟨x.2, x.1.lbaStart.toNat, x.1.lbaSize.toNat, partType x.2 x.1⟩

theorem addPartition_granted (hp : p.isData) (hg : env.granted = fun _ => true)
    (hfresh : ∀ b ∈ env.list, ¬strcaseEq b.name (partName name n)) :
    (addPartition d name n p env).2.2 = { env with list := env.list ++ [(partition (p, n)).device d name] } := by
  obtain ⟨granted, list⟩ := env
  obtain rfl : granted = fun _ => true := hg
  have hany : list.any (fun b => strcaseEq b.name (partName name n)) = false := by
    rw [List.any_eq_false]
    exact hfresh
  have hsize : p.lbaStart + p.lbaSize - 1#32 - p.lbaStart + 1#32 = p.lbaSize := by bv_omega
  simp [addPartition, hp, Env.get, blockRegister, hany, hsize, partition, Partition.device]

theorem addAll_granted (hdata : ∀ x ∈ l, x.1.isData) (hnum : (l.map Prod.snd).Nodup)
    (hg : env.granted = fun _ => true)
    (hfresh : ∀ b ∈ env.list, ∀ x ∈ l, ¬strcaseEq b.name (partName name x.2)) :
    addAll d name l env = { env with list := env.list ++ l.map fun x => (partition x).device d name } := by
  induction l generalizing env with
  | nil => simp [addAll]
  | cons x l ih =>
    obtain ⟨hx, hl⟩ := List.forall_mem_cons.mp hdata
    rw [List.map_cons, List.nodup_cons] at hnum
    have hstep := addPartition_granted (d := d) (n := x.2) hx hg fun b hb => hfresh b hb x List.mem_cons_self
    have hcons : addAll d name (x :: l) env = addAll d name l (addPartition d name x.2 x.1 env).2.2 := rfl
    have hfresh' : ∀ b ∈ env.list ++ [(partition x).device d name], ∀ y ∈ l,
        ¬strcaseEq b.name (partName name y.2) := by
      intro b hb y hy
      rcases List.mem_append.mp hb with hb | hb
      · exact hfresh b hb y (List.mem_cons_of_mem x hy)
      · obtain rfl := List.mem_singleton.mp hb
        intro hname
        have hxy : x.2 = y.2 := partName_inj hname
        exact hnum.1 (hxy ▸ List.mem_map_of_mem hy)
    rw [hcons, hstep, @ih ⟨env.granted, env.list ++ [(partition x).device d name]⟩ hl hnum.2 hg hfresh']
    simp

end Registered

section Marks

/-- An entry counts as active if it is marked or if no entry is marked and it is the first one of a partition. -/
def isActive (mbr : List PartTabl) (x : PartTabl × ℕ) : Bool :=
  x.1.active ≠ (0 : Byte) || (mbr.all (fun p => p.active = (0 : Byte)) && x.2 = mbr.findIdx PartTabl.isData + 1)

def primaries (mbr : List PartTabl) : List Partition :=
  ((mbr.zipIdx 1).filter fun x => x.1.isData).map fun x => {
    number := x.2
    start := x.1.lbaStart.toNat
    size := x.1.lbaSize.toNat
    type := (if isActive mbr x then tActive else tPrimary) ||| x.1.type.setWidth 32 }

def mark (n : ℕ) (x : PartTabl × ℕ) : PartTabl × ℕ := (if x.2 = n then { x.1 with active := 0x80 } else x.1, x.2)

theorem map_mark_of_lt (h : k < n) : (tbl.zipIdx n).map (mark k) = tbl.zipIdx n := by
  rw [List.map_congr_left (g := id), List.map_id]
  intro x hx
  have hle := (List.mem_zipIdx hx).1
  have hne : x.2 ≠ k := by omega
  simp [mark, hne]

theorem zipIdx_markFirst :
    (markFirst tbl).zipIdx n = (tbl.zipIdx n).map (mark (n + tbl.findIdx PartTabl.isData)) := by
  induction tbl generalizing n with
  | nil => rfl
  | cons p tbl ih =>
    rw [List.findIdx_cons]
    cases h : p.isData with
    | true =>
      simp only [markFirst, h, if_true, List.zipIdx_cons, List.map_cons, cond_true, Nat.add_zero]
      rw [map_mark_of_lt (Nat.lt_succ_self n)]
      simp [mark]
    | false =>
      simp only [markFirst, h, Bool.false_eq_true, if_false, List.zipIdx_cons, List.map_cons, cond_false]
      rw [ih, show n + (tbl.findIdx PartTabl.isData + 1) = n + 1 + tbl.findIdx PartTabl.isData by omega]
      congr 1
      have hne : n ≠ n + 1 + tbl.findIdx PartTabl.isData := by omega
      simp [mark, hne]

end Marks

section Tables

def placed (ts : List (ℕ × List PartTabl)) : List (ℕ × PartTabl) :=
  ts.flatMap fun t => (t.2.filter PartTabl.isData).map fun p => (t.1, p)

def logicals (ts : List (ℕ × List PartTabl)) : List Partition :=
  ((placed ts).zipIdx 5).map fun x => {
    number := x.2
    start := x.1.1 + x.1.2.lbaStart.toNat
    size := x.1.2.lbaSize.toNat
    type := tLogical ||| x.1.2.type.setWidth 32 }

variable {mbr : List PartTabl} {ts : List (ℕ × List PartTabl)}

theorem partType_primary {x : PartTabl × ℕ} (hx : x.2 < 5) :
    partType x.2 x.1 = (if x.1.active ≠ 0 then tActive else tPrimary) ||| x.1.type.setWidth 32 := by
  rw [partType, if_pos hx]

theorem isActive_of_marked {x : PartTabl × ℕ} (h : mbr.all (fun p => p.active = (0 : Byte)) = false) :
    isActive mbr x = decide (x.1.active ≠ 0) := by
  simp only [isActive, h, Bool.false_and, Bool.or_false]

theorem isActive_of_unmarked {x : PartTabl × ℕ} (h : mbr.all (fun p => p.active = (0 : Byte)) = true)
    (hx : x.1.active = 0) : isActive mbr x = decide (x.2 = mbr.findIdx PartTabl.isData + 1) := by
  simp only [isActive, h, hx, ne_eq, not_true_eq_false, decide_false, Bool.false_or, Bool.true_and]

theorem primaries_eq (hlen : mbr.length ≤ 4) :
    (((markActive mbr).zipIdx 1).filter fun x => x.1.isData).map partition = primaries mbr := by
  have hlt : ∀ x ∈ mbr.zipIdx 1, x.2 < 5 := by
    intro x hx
    have := (List.mem_zipIdx hx).2.1
    omega
  have hnot : mbr.all (fun p => p.active = (0 : Byte)) = !mbr.any fun p => p.active ≠ (0 : Byte) := by
    rw [List.all_eq_not_any_not]
    simp
  cases h : mbr.any fun p => p.active ≠ (0 : Byte) with
  | true =>
    rw [h] at hnot
    simp only [markActive, h, if_true, primaries]
    apply List.map_congr_left
    intro x hx
    rw [partition, partType_primary (hlt x (List.mem_filter.mp hx).1), isActive_of_marked hnot]
    simp only [decide_eq_true_eq]
  | false =>
    rw [h] at hnot
    simp only [markActive, h, Bool.false_eq_true, if_false, primaries, zipIdx_markFirst]
    have hdata : (fun x : PartTabl × ℕ => x.1.isData) ∘ mark (1 + mbr.findIdx PartTabl.isData) = fun x => x.1.isData := by
      funext x
      simp only [Function.comp, mark]
      split <;> rfl
    rw [List.filter_map, hdata, List.map_map]
    apply List.map_congr_left
    intro x hx
    have hmem := (List.mem_filter.mp hx).1
    have hzero : x.1.active = 0 := by
      have hp := (List.all_eq_true.mp hnot) x.1 (List.fst_mem_of_mem_zipIdx hmem)
      simpa using hp
    rw [isActive_of_unmarked hnot hzero, Nat.add_comm (mbr.findIdx _) 1]
    have hmark : (mark (1 + mbr.findIdx PartTabl.isData) x).2 < 5 := hlt x hmem
    rw [Function.comp, partition, partType_primary hmark]
    by_cases hk : x.2 = 1 + mbr.findIdx PartTabl.isData
    · simp [mark, hk]
    · simp [mark, hk, hzero]

theorem chainEntries_eq : chainEntries ts = (placed ts).map fun x => moved (BitVec.ofNat 32 x.1) x.2 := by
  simp [chainEntries, placed, logicalEntries, List.map_flatMap]
  rfl

theorem logicals_eq (hin : ∀ x ∈ placed ts, x.1 + x.2.lbaStart.toNat < 2 ^ 32) :
    ((chainEntries ts).zipIdx 5).map partition = logicals ts := by
  rw [chainEntries_eq, List.zipIdx_map, List.map_map, logicals]
  apply List.map_congr_left
  intro x hx
  have hlt := hin x.1 (List.fst_mem_of_mem_zipIdx hx)
  have hge := (List.mem_zipIdx hx).1
  have hstart : (x.1.2.lbaStart + BitVec.ofNat 32 x.1.1).toNat = x.1.1 + x.1.2.lbaStart.toNat := by
    rw [BitVec.toNat_add, BitVec.toNat_ofNat, Nat.add_mod_mod, Nat.mod_eq_of_lt (by omega), Nat.add_comm]
  have hnot : ¬x.2 < 5 := by omega
  simp [partition, moved, partType, hstart, hnot]

end Tables

section Scan

/-- The partition tables of a disk whose sectors can be read: `mbr` is that of the first sector, `ts` are those of its
extended partition, if it has one. Where the scan recalculates the start of the extended partition it comes to the same. -/
structure WellFormed (d : Device) (read : Dword → Except Errno Block) (mbr : List PartTabl)
    (ts : List (ℕ × List PartTabl)) : Prop where
  geometry : d.heads * d.sects ≠ 0
  first : ∃ b, read 0 = .ok b ∧ mbr = tableOf b
  extended : (mbr.find? PartTabl.isExtended = none ∧ ts = []) ∨
    ∃ p, mbr.find? PartTabl.isExtended = some p ∧ checkLba p d = p ∧ Chain read p.lbaStart.toNat 0 ts
  inside : ∀ x ∈ placed ts, x.1 + x.2.lbaStart.toNat < 2 ^ 32

variable {mbr : List PartTabl} {ts : List (ℕ × List PartTabl)}

theorem find_markActive : (markActive mbr).find? PartTabl.isExtended = mbr.find? PartTabl.isExtended := by
  have hfirst : (markFirst mbr).find? PartTabl.isExtended = mbr.find? PartTabl.isExtended := by
    induction mbr with
    | nil => rfl
    | cons p tbl ih =>
      cases h : p.isData with
      | true =>
        have hp : p.isExtended = false := by
          simp only [PartTabl.isData, Bool.and_eq_true, Bool.not_eq_true'] at h
          exact h.2
        have hp' : PartTabl.isExtended { p with active := 0x80 } = false := hp
        simp only [markFirst, h, if_true, List.find?_cons, hp, hp']
      | false =>
        simp only [markFirst, h, Bool.false_eq_true, if_false, List.find?_cons, ih]
  unfold markActive
  split
  · rfl
  · exact hfirst

theorem Chain.start_ne_zero {p : PartTabl} {b : Block} {rel : ℕ} (hc : Chain read 0 rel ts) (hrel : rel = 0)
    (hb : read 0 = .ok b) (hp : (tableOf b).find? PartTabl.isExtended = some p) : p.lbaStart ≠ 0 := by
  induction hc with
  | last hread hnone =>
    subst hrel
    have hbuf := Except.ok.inj (hread.symm.trans hb)
    rw [hbuf, hp] at hnone
    cases hnone
  | link hread hsome _ ih =>
    subst hrel
    have hbuf := Except.ok.inj (hread.symm.trans hb)
    rw [hbuf, hp] at hsome
    cases hsome
    intro hzero
    exact ih (by rw [hzero]; rfl) hzero

theorem psScanpart_eq (hw : WellFormed d read mbr ts) : psScanpart ts.length d read name env =
    some (.ok (), addAll d name (((markActive mbr).zipIdx 1).filter (fun x => x.1.isData) ++
      (chainEntries ts).zipIdx 5) env) := by
  obtain ⟨b, hb, rfl⟩ := hw.first
  rw [addAll_append, addAll_filter]
  rw [psScanpart, if_neg hw.geometry]
  simp only [hb, addPrimaries_eq, find_settle, find_markActive]
  rcases hw.extended with ⟨hnone, rfl⟩ | ⟨p, hsome, hp, hc⟩
  · simp [hnone, chainEntries, addAll]
  · have hne : p.lbaStart ≠ 0 := by
      intro hzero
      rw [hzero] at hc
      exact hc.start_ne_zero rfl hb hsome hzero
    obtain ⟨b', hb'⟩ := hc.read_ok
    have hloop : extLoop d read name (BitVec.ofNat 32 p.lbaStart.toNat) ts.length (BitVec.ofNat 32 0) 4 (tableOf b')
        (addAll d name ((markActive (tableOf b)).zipIdx 1) env) = _ := hc.extLoop_eq hb'
    rw [Nat.add_zero, BitVec.ofNat_toNat, BitVec.setWidth_eq] at hb' hloop
    simp only [hsome, hp, hb', if_neg hne]
    exact hloop

def numbered (mbr : List PartTabl) (ts : List (ℕ × List PartTabl)) : List (PartTabl × ℕ) :=
  ((markActive mbr).zipIdx 1).filter (fun x => x.1.isData) ++ (chainEntries ts).zipIdx 5

theorem length_markActive : (markActive mbr).length = mbr.length := by
  have hfirst : (markFirst mbr).length = mbr.length := by
    have hzip : (markFirst mbr).zipIdx 0 = _ := zipIdx_markFirst
    have hlen := congrArg List.length hzip
    rwa [List.length_map, List.length_zipIdx, List.length_zipIdx] at hlen
  unfold markActive
  split
  · rfl
  · exact hfirst

theorem numbered_isData : ∀ x ∈ numbered mbr ts, x.1.isData := by
  intro x hx
  rcases List.mem_append.mp hx with hx | hx
  · exact (List.mem_filter.mp hx).2
  · have hmem := List.fst_mem_of_mem_zipIdx hx
    rw [chainEntries_eq] at hmem
    obtain ⟨y, hy, hyx⟩ := List.mem_map.mp hmem
    obtain ⟨t, -, ht⟩ := List.mem_flatMap.mp hy
    obtain ⟨p, hp, rfl⟩ := List.mem_map.mp ht
    rw [← hyx]
    exact (List.mem_filter.mp hp).2

theorem numbered_nodup (hlen : mbr.length ≤ 4) : ((numbered mbr ts).map Prod.snd).Nodup := by
  rw [numbered, List.map_append]
  apply List.nodup_append.mpr
  refine ⟨?_, ?_, ?_⟩
  · have hsub := (List.filter_sublist (p := fun x : PartTabl × ℕ => x.1.isData) (l := (markActive mbr).zipIdx 1)).map Prod.snd
    rw [List.zipIdx_map_snd] at hsub
    exact hsub.nodup List.nodup_range'
  · rw [List.zipIdx_map_snd]
    exact List.nodup_range'
  · intro a ha b hb
    obtain ⟨x, hx, rfl⟩ := List.mem_map.mp ha
    obtain ⟨y, hy, rfl⟩ := List.mem_map.mp hb
    have hlt := (List.mem_zipIdx (List.mem_filter.mp hx).1).2.1
    have hge := (List.mem_zipIdx hy).1
    rw [length_markActive] at hlt
    omega

theorem map_partition_numbered (hlen : mbr.length ≤ 4) (hin : ∀ x ∈ placed ts, x.1 + x.2.lbaStart.toNat < 2 ^ 32) :
    (numbered mbr ts).map partition = primaries mbr ++ logicals ts := by
  rw [numbered, List.map_append, primaries_eq hlen, logicals_eq hin]

theorem existsUnique_isActive (hnone : mbr.all fun p => p.active = (0 : Byte)) (hany : mbr.any PartTabl.isData) :
    ∃! x, x ∈ mbr.zipIdx 1 ∧ x.1.isData ∧ isActive mbr x := by
  obtain ⟨p, hp, hdata⟩ := List.any_eq_true.mp hany
  have hlt : mbr.findIdx PartTabl.isData < mbr.length := List.findIdx_lt_length_of_exists ⟨p, hp, hdata⟩
  have hzero : ∀ x ∈ mbr.zipIdx 1, x.1.active = 0 := by
    intro x hx
    have hx' := List.all_eq_true.mp hnone x.1 (List.fst_mem_of_mem_zipIdx hx)
    simpa using hx'
  have hmem : (mbr[mbr.findIdx PartTabl.isData], mbr.findIdx PartTabl.isData + 1) ∈ mbr.zipIdx 1 := by
    rw [List.mk_mem_zipIdx_iff_le_and_getElem?_sub]
    exact ⟨by omega, List.getElem?_eq_getElem hlt⟩
  refine ⟨_, ⟨hmem, List.findIdx_getElem, ?_⟩, ?_⟩
  · rw [isActive_of_unmarked hnone (hzero _ hmem)]
    exact decide_eq_true rfl
  · rintro ⟨q, k⟩ ⟨hq, -, hact⟩
    rw [isActive_of_unmarked hnone (hzero _ hq), decide_eq_true_eq] at hact
    obtain rfl : k = mbr.findIdx PartTabl.isData + 1 := hact
    rw [List.mk_mem_zipIdx_iff_le_and_getElem?_sub, Nat.add_sub_cancel, List.getElem?_eq_getElem hlt] at hq
    rw [Option.some.inj hq.2]

/-- The scan of well-formed tables registers a device for each partition, the primary ones under the numbers of their
entries and the logical ones from 5 on. -/
theorem psScanpart_registers (hw : WellFormed d read mbr ts) (hg : env.granted = fun _ => true)
    (hfresh : ∀ b ∈ env.list, ∀ x ∈ primaries mbr ++ logicals ts, ¬strcaseEq b.name (partName name x.number)) :
    (∃ fuel, psScanpart fuel d read name env = some (.ok (), { env with
      list := env.list ++ (primaries mbr ++ logicals ts).map (Partition.device d name) })) ∧
    (∀ x ∈ primaries mbr ++ logicals ts,
      (x.device d name).handle.firstSector.toNat = x.start ∧ (x.device d name).handle.totalBlocks.toNat = x.size ∧
        (x.device d name).handle.type = x.type) ∧
    (mbr.all (fun p => p.active = (0 : Byte)) → mbr.any PartTabl.isData →
      ∃! x, x ∈ mbr.zipIdx 1 ∧ x.1.isData ∧ isActive mbr x) := by
  have hlen : mbr.length ≤ 4 := by
    obtain ⟨b, -, rfl⟩ := hw.first
    exact Nat.le_refl 4
  have hmap := map_partition_numbered hlen hw.inside
  rw [← hmap] at hfresh ⊢
  refine ⟨⟨ts.length, ?_⟩, ?_, existsUnique_isActive⟩
  · have hadd : addAll d name (numbered mbr ts) env = _ :=
      addAll_granted numbered_isData (numbered_nodup hlen) hg fun b hb x hx =>
        hfresh b hb (partition x) (List.mem_map_of_mem hx)
    rw [psScanpart_eq hw, List.map_map, ← numbered, hadd]
    rfl
  · intro x hx
    obtain ⟨y, -, rfl⟩ := List.mem_map.mp hx
    simp only [Partition.device, partition, BitVec.ofNat_toNat, BitVec.setWidth_eq, and_self]

end Scan

section Sample

def sampleDisk : Device where
  openCount := 0
  firstSector := 0
  totalBlocks := 0x00200000
  type := 0
  multibootId := 0x80FFFFFF
  heads := 16
  sects := 63

def dwordBytes (v : Dword) : List Byte :=
  [v.setWidth 8, (v >>> 8).setWidth 8, (v >>> 16).setWidth 8, (v >>> 24).setWidth 8]

def tableBlock (l : List (Byte × Dword × Dword)) : Block := fun i =>
  (l.flatMap fun e => [0, 0, 0, 0, e.1, 0, 0, 0] ++ dwordBytes e.2.1 ++ dwordBytes e.2.2).getD (i - 446) 0

def sampleMbr : Block := tableBlock [(0x06, 63, 1000), (0x05, 2000, 3000)]

def firstEbr : Block := tableBlock [(0x06, 63, 900), (0x05, 1000, 2000)]

def secondEbr : Block := tableBlock [(0x06, 63, 800)]

def sampleRead (s : Dword) : Except Errno Block :=
  if s = 0 then .ok sampleMbr else if s = 2000 then .ok firstEbr else .ok secondEbr

theorem sample_wellFormed :
    WellFormed sampleDisk sampleRead (tableOf sampleMbr) [(2000, tableOf firstEbr), (3000, tableOf secondEbr)] where
  geometry := by decide
  first := ⟨sampleMbr, rfl, rfl⟩
  extended := by
    refine .inr ⟨entryAt sampleMbr 462, by decide, by decide, ?_⟩
    apply Chain.link (p := entryAt firstEbr 462) rfl (by decide)
    exact Chain.last rfl (by decide)
  inside := by decide

example : primaries (tableOf sampleMbr) ++ logicals [(2000, tableOf firstEbr), (3000, tableOf secondEbr)] =
    [⟨1, 63, 1000, 0x106⟩, ⟨5, 2063, 900, 0x206⟩, ⟨6, 3063, 800, 0x206⟩] := by decide

theorem psScanpart_registers_sample :
    ∃ fuel, psScanpart fuel sampleDisk sampleRead ['h', 'd', 'a'] ⟨fun _ => true, []⟩ = some (.ok (), ⟨fun _ => true,
      (primaries (tableOf sampleMbr) ++ logicals [(2000, tableOf firstEbr), (3000, tableOf secondEbr)]).map
        (Partition.device sampleDisk ['h', 'd', 'a'])⟩) :=
  (psScanpart_registers sample_wellFormed rfl fun _ hb => absurd hb List.not_mem_nil).1

end Sample

end FreeDos32.Partscan
