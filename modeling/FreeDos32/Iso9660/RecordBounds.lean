import FreeDos32.Iso9660.Names

namespace FreeDos32.Iso9660

open Kernel (dword)

/-- What parsing touches: a byte of the sector's buffer, a byte of an identifier of `n`, an element of a local array of `size`;
and a name part that is told to have `size` bytes where `left` remain. -/
inductive Access where
  | sector (i : ℕ)
  | name (i n : ℕ)
  | array (i size : ℕ)
  | part (size left : ℕ)

def Access.InBounds : Access → Prop
  | .sector i => i < bytesPerSector
  | .name i n => i < n
  | .array i size => i < size
  | .part size left => size ≤ left

instance : DecidablePred Access.InBounds
  | .sector _ => inferInstanceAs (Decidable (_ < _))
  | .name _ _ => inferInstanceAs (Decidable (_ < _))
  | .array _ _ => inferInstanceAs (Decidable (_ < _))
  | .part _ _ => inferInstanceAs (Decidable (_ ≤ _))

def AllInBounds (log : List Access) : Prop := ∀ a ∈ log, a.InBounds

instance (log : List Access) : Decidable (AllInBounds log) := inferInstanceAs (Decidable (∀ a ∈ log, a.InBounds))

section Logs

/-- The loop of `build_fcb_name_part` at the byte `i` of an identifier of `n`, with `destSize` bytes left from `dest` on in an array
of 11. The test of the loop reads a byte before it looks at the size. -/
def partLog (wildcards : Bool) (src : ℕ → Byte) (n : ℕ) : (destSize dest i srcSize : ℕ) → List Access
  | destSize, dest, i, srcSize =>
    .name i n ::
      if src i = 0 ∨ srcSize = 0 then []
      else .name i n ::
        if wildcards ∧ src i = 0x2A then (List.range destSize).map fun k => .array (dest + k) 11
        else if (src i).toInt < 0x20 then []
        else match destSize with
          | 0 => []
          | destSize + 1 => .array dest 11 :: partLog wildcards src n destSize (dest + 1) (i + 1) (srcSize - 1)

/-- `iso9660_build_fcb_name`; `memset` clears the name, and `memrchr` may read all of the identifier. -/
def buildFcbNameLog (src : ℕ → Byte) (n : ℕ) (wildcards : Bool) : List Access :=
  ((List.range 11).map fun k => .array k 11) ++
  ((List.range (if n ≤ 2 then n else 0)).map fun i => .name i n) ++
  if n = 1 ∧ (src 0 = 0x2E ∨ src 0 = 0) then [.array 0 11]
  else if n = 2 ∧ src 0 = 0x2E ∧ src 1 = 0x2E ∨ n = 1 ∧ src 0 = 1 then [.array 0 11, .array 1 11]
  else
    let srcSize := (memrchr src 0x3B n).getD n
    ((List.range n).map fun i => .name i n) ++
    match memrchr src 0x2E n with
    | some dot =>
      .part dot n :: partLog wildcards src n 8 0 0 dot ++
        match buildFcbNamePart wildcards 8 src dot with
        | .error _ => []
        | .ok _ =>
          let srcSize := dword (srcSize + 2 ^ 32 - (dot + 1))
          .part srcSize (n - (dot + 1)) :: partLog wildcards src n 3 8 (dot + 1) srcSize
    | none => .part srcSize n :: partLog wildcards src n 8 0 0 srcSize

/-- The fields of the record at `p` that are not its identifier. -/
def fieldsLog (p : ℕ) (fields : List ℕ) : List Access := fields.map fun k => .sector (p + k)

/-- The identifier is copied to an array of `room` bytes for the log, which has other fields, too. -/
def copyLog (room : ℕ) (data : ℕ → Byte) (p : ℕ) : List Access :=
  let dr := record data p
  .sector (p + 32) :: ((List.range dr.lenFi).flatMap fun k => [.sector (p + 33 + k), .array k room, .sector (p + 32)]) ++
  [.array dr.lenFi room] ++ fieldsLog p [0, 2, 3, 4, 5, 10, 11, 12, 13, 25, 26, 27]

/-- A turn of `iso9660_do_readdir`. -/
def readdirLog (data : ℕ → Byte) (p : ℕ) : List Access :=
  .sector p :: if data p = 0 then [] else copyLog 60 data p

/-- A turn of `iso9660_findnext`. -/
def findnextLog (template : List Byte) (searchAttr : ℕ) (data : ℕ → Byte) (p : ℕ) : List Access :=
  .sector p ::
    if data p = 0 then []
    else
      let dr := record data p
      copyLog 100 data p ++ fieldsLog p [25] ++
        if dr.flags &&& unallowedAttr searchAttr ≠ 0 then []
        else buildFcbNameLog dr.fileId dr.lenFi false ++
          match buildFcbName dr.fileId dr.lenFi false with
          | .error _ => []
          | .ok fcbname =>
            if compareFcbNames fcbname template then fieldsLog p [25, 18, 19, 20, 21, 22, 23, 10, 11, 12, 13] else []

/-- The first turns of a call of `iso9660_do_readdir`: the contents of the buffer, and where in them a record is looked at. -/
def readdirTurns (dev : Device) (f : File) : ℕ → ℤ → Volume → List ((ℕ → Byte) × ℕ)
  | 0, _, _ => []
  | fuel + 1, offset, v =>
    if f.dataLength ≤ offset then []
    else match readbuf dev (blockAt f v offset) v with
      | (.error _, _) => []
      | (.ok res, v) =>
        let p := res + (offset % v.blockSize).toNat
        (v.buffer.data, p) ::
          if v.buffer.data p = 0 then readdirTurns dev f fuel (offset + (dword (bytesPerSector + 2 ^ 32 - p % 2 ^ 32) : ℕ)) v else []

/-- The same for `iso9660_findnext`. -/
def findnextTurns (dev : Device) : ℕ → FindData → Volume → List ((ℕ → Byte) × ℕ)
  | 0, _, _ => []
  | fuel + 1, df, v =>
    if df.sectorsLeft = 0 then []
    else match readbuf dev (dword (df.currSector * 2 ^ v.logBlocksPerSector)) v with
      | (.error _, _) => []
      | (.ok res, v) =>
        let p := res + df.currSecofs
        (v.buffer.data, p) ::
          if v.buffer.data p = 0 then findnextTurns dev fuel (df.endTurn true) v
          else
            let dr := record v.buffer.data p
            let df := { df with currSecofs := u16 (df.currSecofs + dr.lenDr) }
            match selects df.searchTemplate df.searchAttr dr with
            | .ok none => findnextTurns dev fuel (df.endTurn false) v
            | _ => []

end Logs

/-- The loop of a name part comes to its end at a byte of the identifier: at one that ends it, or at the first that does not fit. -/
def StopsInside (wildcards : Bool) (src : ℕ → Byte) (n destSize i : ℕ) : Prop :=
  ∃ k ≤ destSize, i + k < n ∧
    (src (i + k) = 0 ∨ (wildcards ∧ src (i + k) = 0x2A) ∨ (src (i + k)).toInt < 0x20 ∨ k = destSize)

/-- The identifier is that of the directory or its parent; or its last semicolon is not before its last dot, and where there is no
semicolon the last part comes to its end before the identifier does. An extension is not looked at behind a name that is refused. -/
def NameTidy (src : ℕ → Byte) (n : ℕ) (wildcards : Bool) : Prop :=
  (n = 1 ∧ (src 0 = 0x2E ∨ src 0 = 0)) ∨ (n = 2 ∧ src 0 = 0x2E ∧ src 1 = 0x2E ∨ n = 1 ∧ src 0 = 1) ∨
    match memrchr src 0x2E n, memrchr src 0x3B n with
    | some dot, some semicolon => (∃ e, buildFcbNamePart wildcards 8 src dot = .error e) ∨ dot < semicolon
    | some dot, none => (∃ e, buildFcbNamePart wildcards 8 src dot = .error e) ∨ StopsInside wildcards src n 3 (dot + 1)
    | none, some _ => True
    | none, none => StopsInside wildcards src n 8 0

/-- The record is inside of the buffer, and its identifier and a final zero fit an array of `room` bytes. -/
def RecordTidy (room : ℕ) (data : ℕ → Byte) (p : ℕ) : Prop :=
  p < bytesPerSector ∧ (data p ≠ 0 → (record data p).Fits p room)

/-- And if the search looks at the name, then it can be parsed. -/
def SearchTidy (searchAttr : ℕ) (data : ℕ → Byte) (p : ℕ) : Prop :=
  RecordTidy 100 data p ∧
    (data p ≠ 0 → (record data p).flags &&& unallowedAttr searchAttr = 0 →
      NameTidy (record data p).fileId (record data p).lenFi false)

section Bounds

variable {src : ℕ → Byte} {n i dest destSize srcSize room p : ℕ} {wildcards : Bool} {data : ℕ → Byte} {a : Access}
  {log log' : List Access}

@[simp] theorem allInBounds_nil : AllInBounds [] := nofun

@[simp] theorem allInBounds_cons : AllInBounds (a :: log) ↔ a.InBounds ∧ AllInBounds log := List.forall_mem_cons

@[simp] theorem allInBounds_append : AllInBounds (log ++ log') ↔ AllInBounds log ∧ AllInBounds log' :=
  List.forall_mem_append

theorem allInBounds_map {β : Type} {f : β → Access} {l : List β} : AllInBounds (l.map f) ↔ ∀ x ∈ l, (f x).InBounds :=
  List.forall_mem_map

theorem allInBounds_flatMap {β : Type} {f : β → List Access} {l : List β} :
    AllInBounds (l.flatMap f) ↔ ∀ x ∈ l, AllInBounds (f x) := List.forall_mem_flatMap

theorem stopsInside_lt (h : StopsInside wildcards src n destSize i) : i < n := by
  obtain ⟨k, -, hk, -⟩ := h
  omega

theorem stopsInside_succ (h0 : src i ≠ 0) (hwild : ¬(wildcards ∧ src i = 0x2A)) (hchar : ¬(src i).toInt < 0x20) :
    StopsInside wildcards src n (destSize + 1) i ↔ StopsInside wildcards src n destSize (i + 1) := by
  constructor
  · rintro ⟨k, hk, hin, hstop⟩
    cases k with
    | zero =>
      obtain h | h | h | h := hstop
      · exact absurd h h0
      · exact absurd h hwild
      · exact absurd h hchar
      · cases h
    | succ k =>
      have hi : i + (k + 1) = i + 1 + k := by omega
      rw [hi] at hin hstop
      refine ⟨k, by omega, hin, ?_⟩
      simpa using hstop
  · rintro ⟨k, hk, hin, hstop⟩
    have hi : i + 1 + k = i + (k + 1) := by omega
    rw [hi] at hin hstop
    refine ⟨k + 1, by omega, hin, ?_⟩
    simpa using hstop

theorem first_inBounds_iff (destSize : ℕ) (hsize : i + srcSize ≤ n) (h0 : src i = 0 ∨ srcSize = 0) :
    AllInBounds [.name i n] ↔ i + srcSize < n ∨ StopsInside wildcards src n destSize i := by
  simp only [allInBounds_cons, allInBounds_nil, and_true, Access.InBounds]
  constructor
  · intro hi
    obtain h0 | h0 := h0
    · exact .inr ⟨0, Nat.zero_le _, hi, .inl h0⟩
    · exact .inl (by omega)
  · rintro (h | h)
    · omega
    · exact stopsInside_lt h

/-- A part that is no longer than what remains of the identifier is read inside of it, if it ends before it or stops. -/
theorem partLog_inBounds_iff (hdest : dest + destSize ≤ 11) (hsize : i + srcSize ≤ n) :
    AllInBounds (partLog wildcards src n destSize dest i srcSize) ↔
      i + srcSize < n ∨ StopsInside wildcards src n destSize i := by
  induction destSize generalizing dest i srcSize with
  | zero =>
    unfold partLog
    by_cases h0 : src i = 0 ∨ srcSize = 0
    · rw [if_pos h0]
      exact first_inBounds_iff _ hsize h0
    · rw [if_neg h0]
      simp only [not_or] at h0
      have hi : i < n := by omega
      have hstop : StopsInside wildcards src n 0 i := ⟨0, Nat.le_refl _, hi, .inr (.inr (.inr rfl))⟩
      simp only [hstop, or_true, iff_true]
      split_ifs <;> simp [Access.InBounds, hi]
  | succ destSize ih =>
    unfold partLog
    by_cases h0 : src i = 0 ∨ srcSize = 0
    · rw [if_pos h0]
      exact first_inBounds_iff _ hsize h0
    · rw [if_neg h0]
      simp only [not_or] at h0
      have hi : i < n := by omega
      by_cases hwild : wildcards ∧ src i = 0x2A
      · have hstop : StopsInside wildcards src n (destSize + 1) i := ⟨0, Nat.zero_le _, hi, .inr (.inl hwild)⟩
        rw [if_pos hwild]
        simp only [hstop, or_true, iff_true, allInBounds_cons, allInBounds_map, Access.InBounds, hi, true_and]
        intro k hk
        have hk := List.mem_range.mp hk
        omega
      · rw [if_neg hwild]
        by_cases hchar : (src i).toInt < 0x20
        · have hstop : StopsInside wildcards src n (destSize + 1) i := ⟨0, Nat.zero_le _, hi, .inr (.inr (.inl hchar))⟩
          rw [if_pos hchar]
          simp [hstop, Access.InBounds, hi]
        · rw [if_neg hchar, stopsInside_succ h0.1 hwild hchar]
          simp only [allInBounds_cons, Access.InBounds, hi, true_and]
          have hrest := ih (show dest + 1 + destSize ≤ 11 by omega) (show i + 1 + (srcSize - 1) ≤ n by omega)
          have hend : i + 1 + (srcSize - 1) = i + srcSize := by omega
          rw [hend] at hrest
          rw [hrest]
          constructor
          · exact And.right
          · intro h
            exact ⟨by omega, h⟩

theorem names_inBounds {m : ℕ} (h : m ≤ n) : AllInBounds ((List.range m).map fun i => .name i n) := by
  rw [allInBounds_map]
  intro i hi
  have hi := List.mem_range.mp hi
  exact Nat.lt_of_lt_of_le hi h

theorem partLog_inBounds (hdest : dest + destSize ≤ 11) (hsize : i + srcSize < n) :
    AllInBounds (partLog wildcards src n destSize dest i srcSize) :=
  (partLog_inBounds_iff hdest (Nat.le_of_lt hsize)).2 (.inl hsize)

/-- The extension behind the last dot: its size wraps around when the last semicolon is before the dot. -/
theorem extension_inBounds_iff {dot : ℕ} (hn : n < 2 ^ 32) (hdot : dot < n) (hc : src dot = 0x2E)
    (hs : srcSize = dword ((memrchr src 0x3B n).getD n + 2 ^ 32 - (dot + 1))) :
    AllInBounds (.part srcSize (n - (dot + 1)) :: partLog wildcards src n 3 8 (dot + 1) srcSize) ↔
      match memrchr src 0x3B n with
      | some semicolon => dot < semicolon
      | none => StopsInside wildcards src n 3 (dot + 1) := by
  have hsize {m : ℕ} (hm : dot < m) (hle : m ≤ n) : dword (m + 2 ^ 32 - (dot + 1)) = m - (dot + 1) := by
    unfold dword
    omega
  subst hs
  simp only [allInBounds_cons, Access.InBounds]
  cases hsep2 : memrchr src 0x3B n with
  | none =>
    rw [Option.getD_none, hsize hdot (Nat.le_refl n), partLog_inBounds_iff (by omega) (by omega)]
    have hend : ¬dot + 1 + (n - (dot + 1)) < n := by omega
    simp [hend]
  | some semicolon =>
    obtain ⟨hlt, hcs⟩ := memrchr_some hsep2
    have hne : semicolon ≠ dot := by
      rintro rfl
      rw [hc] at hcs
      exact absurd hcs (by decide)
    rw [Option.getD_some]
    constructor
    · rintro ⟨hle, -⟩
      unfold dword at hle
      show dot < semicolon
      omega
    · intro hafter
      rw [hsize hafter (Nat.le_of_lt hlt)]
      exact ⟨by omega, partLog_inBounds (by omega) (by omega)⟩

theorem buildFcbNameLog_inBounds_iff (hn : n < 2 ^ 32) : AllInBounds (buildFcbNameLog src n wildcards) ↔ NameTidy src n wildcards := by
  have hclear : AllInBounds ((List.range 11).map fun k => .array k 11) := by
    rw [allInBounds_map]
    exact fun k hk => List.mem_range.mp hk
  have hshort : AllInBounds ((List.range (if n ≤ 2 then n else 0)).map fun i => .name i n) := by
    apply names_inBounds
    split <;> omega
  unfold buildFcbNameLog NameTidy
  simp only [allInBounds_append, hclear, hshort, true_and]
  by_cases hdot : n = 1 ∧ (src 0 = 0x2E ∨ src 0 = 0)
  · rw [if_pos hdot]
    exact iff_of_true (by simp [Access.InBounds]) (.inl hdot)
  · rw [if_neg hdot]
    by_cases hdots : n = 2 ∧ src 0 = 0x2E ∧ src 1 = 0x2E ∨ n = 1 ∧ src 0 = 1
    · rw [if_pos hdots]
      exact iff_of_true (by simp [Access.InBounds]) (.inr (.inl hdots))
    · rw [if_neg hdots]
      simp only [hdot, hdots, false_or, allInBounds_append, names_inBounds (Nat.le_refl n), true_and]
      cases hsep1 : memrchr src 0x2E n with
      | none =>
        simp only [allInBounds_cons, Access.InBounds]
        cases hsep2 : memrchr src 0x3B n with
        | none =>
          rw [Option.getD_none, partLog_inBounds_iff (by omega) (by omega)]
          simp
        | some semicolon =>
          have hlt := (memrchr_some hsep2).1
          rw [Option.getD_some]
          exact iff_of_true ⟨Nat.le_of_lt hlt, partLog_inBounds (by omega) (by omega)⟩ trivial
      | some dot =>
        obtain ⟨hlt, hc⟩ := memrchr_some hsep1
        have hname : AllInBounds (partLog wildcards src n 8 0 0 dot) := partLog_inBounds (by omega) (by omega)
        simp only [List.cons_append, allInBounds_cons, allInBounds_append, Access.InBounds, Nat.le_of_lt hlt, hname, true_and]
        cases hpart : buildFcbNamePart wildcards 8 src dot with
        | error e =>
          have herror : ∃ e', buildFcbNamePart wildcards 8 src dot = .error e' := ⟨e, hpart⟩
          cases memrchr src 0x3B n with
          | none => exact iff_of_true allInBounds_nil (.inl herror)
          | some semicolon => exact iff_of_true allInBounds_nil (.inl herror)
        | ok name =>
          have hok : ¬∃ e', buildFcbNamePart wildcards 8 src dot = .error e' := by
            rintro ⟨e', h⟩
            rw [hpart] at h
            cases h
          rw [extension_inBounds_iff hn hlt hc rfl]
          cases memrchr src 0x3B n <;> simp only [hok, false_or]

section Records

theorem fieldsLog_inBounds {fields : List ℕ} (hp : p + 32 < bytesPerSector) (h : ∀ k ∈ fields, k ≤ 32) :
    AllInBounds (fieldsLog p fields) := by
  rw [fieldsLog, allInBounds_map]
  intro k hk
  have hk := h k hk
  show p + k < bytesPerSector
  omega

theorem copyLog_inBounds_iff : AllInBounds (copyLog room data p) ↔ (record data p).Fits p room := by
  simp only [copyLog, List.cons_append, allInBounds_cons, allInBounds_append, allInBounds_flatMap, allInBounds_nil, and_true]
  constructor
  · rintro ⟨hp, ⟨hbytes, hlast⟩, -⟩
    have hp : p + 32 < bytesPerSector := hp
    refine ⟨?_, hlast⟩
    by_cases h0 : (record data p).lenFi = 0
    · omega
    · have hend : p + 33 + ((record data p).lenFi - 1) < bytesPerSector :=
        (hbytes ((record data p).lenFi - 1) (List.mem_range.mpr (by omega))).1
      omega
  · rintro ⟨hin, hroom⟩
    refine ⟨?_, ⟨?_, hroom⟩, fieldsLog_inBounds (by omega) (by decide)⟩
    · show p + 32 < bytesPerSector
      omega
    · intro k hk
      have hk := List.mem_range.mp hk
      simp only [Access.InBounds]
      omega

theorem readdirLog_inBounds_iff : AllInBounds (readdirLog data p) ↔ RecordTidy 60 data p := by
  unfold readdirLog RecordTidy
  rw [allInBounds_cons]
  apply and_congr_right'
  by_cases h0 : data p = 0
  · simp [h0]
  · rw [if_neg h0, copyLog_inBounds_iff]
    exact ⟨fun h _ => h, fun h => h h0⟩

theorem findnextLog_inBounds_iff {template : List Byte} {searchAttr : ℕ} :
    AllInBounds (findnextLog template searchAttr data p) ↔ SearchTidy searchAttr data p := by
  unfold findnextLog SearchTidy RecordTidy
  rw [allInBounds_cons, and_assoc]
  apply and_congr_right'
  by_cases h0 : data p = 0
  · rw [if_pos h0]
    exact iff_of_true allInBounds_nil ⟨fun h => absurd h0 h, fun h => absurd h0 h⟩
  · rw [if_neg h0]
    have hlen : (record data p).lenFi < 2 ^ 32 := by
      have hbyte : (record data p).lenFi < 2 ^ 8 := (data (p + 32)).isLt
      omega
    simp only [allInBounds_append, copyLog_inBounds_iff, and_assoc]
    have hleft : (data p ≠ 0 → (record data p).Fits p 100) ↔ (record data p).Fits p 100 := ⟨fun h => h h0, fun h _ => h⟩
    rw [hleft]
    apply and_congr_right
    intro hfits
    have hp : p + 32 < bytesPerSector := by
      have hin := hfits.1
      omega
    have hflags : AllInBounds (fieldsLog p [25]) := fieldsLog_inBounds hp (by decide)
    by_cases hallowed : (record data p).flags &&& unallowedAttr searchAttr ≠ 0
    · rw [if_pos hallowed]
      exact iff_of_true ⟨hflags, allInBounds_nil⟩ fun _ h => absurd h hallowed
    · rw [if_neg hallowed, allInBounds_append, buildFcbNameLog_inBounds_iff hlen]
      simp only [not_not] at hallowed
      constructor
      · rintro ⟨-, hname, -⟩ _ _
        exact hname
      · intro hname
        refine ⟨hflags, hname h0 hallowed, ?_⟩
        cases buildFcbName (record data p).fileId (record data p).lenFi false with
        | error e => exact allInBounds_nil
        | ok fcbname =>
          simp only
          split
          · exact fieldsLog_inBounds hp (by decide)
          · exact allInBounds_nil

end Records

section Calls

variable {dev : Device} {f : File} {fuel : ℕ} {offset : ℤ} {v : Volume} {df : FindData}

/-- Where the call has a result, no record has led it out of bounds. -/
theorem readdirLoop_tidy {r : Except Errno Entry × Volume} (h : readdirLoop dev f fuel offset v = some r) :
    ∀ t ∈ readdirTurns dev f fuel offset v, RecordTidy 60 t.1 t.2 := by
  induction fuel generalizing offset v with
  | zero => cases h
  | succ fuel ih =>
    intro t ht
    rw [readdirTurns] at ht
    rw [readdirLoop] at h
    split at ht
    · cases ht
    · rename_i hend
      rw [if_neg hend] at h
      cases hread : readbuf dev (blockAt f v offset) v with
      | mk res v' =>
        rw [hread] at h ht
        cases res with
        | error e => cases ht
        | ok res =>
          simp only at h ht
          by_cases hout : bytesPerSector ≤ res + (offset % v'.blockSize).toNat
          · rw [if_pos hout] at h
            cases h
          · rw [if_neg hout] at h
            obtain rfl | ht := List.mem_cons.mp ht
            · refine ⟨by omega, ?_⟩
              intro h0
              rw [if_neg h0] at h
              by_contra hfits
              rw [if_neg hfits] at h
              cases h
            · by_cases h0 : v'.buffer.data (res + (offset % v'.blockSize).toNat) = 0
              · rw [if_pos h0] at h ht
                have hskip : dword (bytesPerSector + 2 ^ 32 - (res + (offset % v'.blockSize).toNat) % 2 ^ 32) =
                    bytesPerSector - (res + (offset % v'.blockSize).toNat) := by
                  unfold dword
                  unfold bytesPerSector at hout ⊢
                  omega
                rw [hskip] at ht
                exact ih h t ht
              · rw [if_neg h0] at ht
                cases ht

theorem findnextLoop_tidy {r : Except Errno Unit × List ℕ × FindData × Volume} (h : findnextLoop dev fuel df v = some r) :
    ∀ t ∈ findnextTurns dev fuel df v, RecordTidy 100 t.1 t.2 := by
  induction fuel generalizing df v r with
  | zero => cases h
  | succ fuel ih =>
    intro t ht
    rw [findnextTurns] at ht
    rw [findnextLoop] at h
    split at ht
    · cases ht
    · rename_i hend
      rw [if_neg hend] at h
      cases hread : readbuf dev (dword (df.currSector * 2 ^ v.logBlocksPerSector)) v with
      | mk res v' =>
        rw [hread] at h ht
        cases res with
        | error e => cases ht
        | ok res =>
          simp only at h ht
          by_cases hout : bytesPerSector ≤ res + df.currSecofs
          · rw [if_pos hout] at h
            cases h
          · rw [if_neg hout] at h
            by_cases h0 : v'.buffer.data (res + df.currSecofs) = 0
            · rw [if_pos h0] at h ht
              obtain rfl | ht := List.mem_cons.mp ht
              · exact ⟨by omega, fun hne => absurd h0 hne⟩
              · exact ih h t ht
            · rw [if_neg h0] at h ht
              by_cases hfits : (record v'.buffer.data (res + df.currSecofs)).Fits (res + df.currSecofs) 100
              · rw [if_neg (not_not.mpr hfits)] at h
                obtain rfl | ht := List.mem_cons.mp ht
                · exact ⟨by omega, fun _ => hfits⟩
                · split at ht
                  · rename_i hselects
                    rw [hselects] at h
                    obtain ⟨r', hr', -⟩ := Option.map_eq_some_iff.mp h
                    exact ih hr' t ht
                  · cases ht
              · rw [if_pos hfits] at h
                cases h

end Calls

end Bounds

/-- What `iso9660_build_fcb_name` touches, and what the turns of `iso9660_do_readdir` and `iso9660_findnext` touch, is in bounds
exactly if the identifier and the records that are looked at are tidy. -/
theorem parsing_inBounds_iff (dev : Device) :
    (∀ (src : ℕ → Byte) (n : BitVec 32) (wildcards : Bool),
      AllInBounds (buildFcbNameLog src n.toNat wildcards) ↔ NameTidy src n.toNat wildcards) ∧
    (∀ (f : File) (fuel : ℕ) (offset : ℤ) (v : Volume),
      AllInBounds ((readdirTurns dev f fuel offset v).flatMap fun t => readdirLog t.1 t.2) ↔
        ∀ t ∈ readdirTurns dev f fuel offset v, RecordTidy 60 t.1 t.2) ∧
    ∀ (fuel : ℕ) (df : FindData) (v : Volume),
      AllInBounds ((findnextTurns dev fuel df v).flatMap fun t => findnextLog df.searchTemplate df.searchAttr t.1 t.2) ↔
        ∀ t ∈ findnextTurns dev fuel df v, SearchTidy df.searchAttr t.1 t.2 := by
  refine ⟨?_, ?_, ?_⟩
  · intro src n wildcards
    exact buildFcbNameLog_inBounds_iff n.isLt
  · intro f fuel offset v
    rw [allInBounds_flatMap]
    exact forall₂_congr fun t _ => readdirLog_inBounds_iff
  · intro fuel df v
    rw [allInBounds_flatMap]
    exact forall₂_congr fun t _ => findnextLog_inBounds_iff

def identifier (bytes : List Byte) : ℕ → Byte := fun i => bytes.getD i 0x2A

/-- A disc with a record at `p` that has `lenFi` bytes in its identifier. -/
def discWith (p lenFi : ℕ) : Device where
  disc i := if i = p then 34 else if i = p + 32 then BitVec.ofNat 8 lenFi else if i < p + 33 then 0 else 0x41
  fault _ := false

def firstSector : File := ⟨0, 2048, 0, 0, true, 0⟩

/-- A search that has come to the byte `secofs` of the first sector. -/
def searching (secofs : ℕ) : FindData := ⟨[], 0, secofs, 0, 1, 0, 0, 0, 0, []⟩

/-- The directory `A` is read to the byte behind its name, `A;B.C` gets an extension of nearly 2^32 bytes; and an identifier of 60
bytes does not fit its copy, nor a record near the end of a sector the sector. -/
theorem parsing_not_inBounds :
    ¬AllInBounds (buildFcbNameLog (identifier [0x41]) 1 false) ∧
    ¬AllInBounds (buildFcbNameLog (identifier [0x41, 0x3B, 0x42, 0x2E, 0x43]) 5 false) ∧
    ¬AllInBounds ((readdirTurns (discWith 0 60) firstSector 1 0 (mounted 11 fun _ => 0)).flatMap fun t => readdirLog t.1 t.2) ∧
    ¬AllInBounds ((findnextTurns (discWith 2040 1) 1 (searching 2040) (mounted 11 fun _ => 0)).flatMap fun t =>
      findnextLog [] 0 t.1 t.2) := by
  refine ⟨?_, ?_, ?_, ?_⟩ <;> decide +kernel

end FreeDos32.Iso9660
