import FreeDos32.Kernel.PmmRuns
import FreeDos32.Kernel.Mem

namespace FreeDos32.Kernel

open Span

abbrev Byte := BitVec 8

def space : Byte := 32

def nul : Byte := 0

/-- A pointer into one of the two strings of a process. -/
inductive CharPointer where
  | filename (i : ℕ)
  | args (i : ℕ)
  deriving DecidableEq

/-- The buffers with the strings, where the end of a string is a zero; `none` is the null pointer. -/
structure ArgStrings where
  filename : List Byte
  args : Option (List Byte)
  memory : Memory
  optind : ℕ
  deriving DecidableEq

structure Argv where
  address : ℕ
  pointers : List CharPointer
  deriving DecidableEq

namespace Argv

/-- `_argc` is increased after each pointer that is stored. -/
def argc (argv : Argv) : ℕ := argv.pointers.length

end Argv

def countArgs (isNewarg : Bool) (argc : ℕ) : List Byte → ℕ
  | [] => argc
  | c :: rest =>
    if c = nul then argc
    else if isNewarg then countArgs (c != space) argc rest
    else if c ≠ space then countArgs true (argc + 1) rest
    else countArgs false argc rest

/-- The bytes from `args + i` on as the second loop leaves them, and the pointers that it stores. -/
def fillArgs (isNewarg : Bool) (i : ℕ) : List Byte → List Byte × List CharPointer
  | [] => ([], [])
  | c :: rest =>
    if c = nul then (c :: rest, [])
    else if isNewarg then
      if c = space then
        let r := fillArgs false (i + 1) rest
        (nul :: r.1, r.2)
      else
        let r := fillArgs true (i + 1) rest
        (c :: r.1, r.2)
    else if c ≠ space then
      let r := fillArgs true (i + 1) rest
      (c :: r.1, .args i :: r.2)
    else
      let r := fillArgs false (i + 1) rest
      (c :: r.1, r.2)

namespace ArgStrings

def count (s : ArgStrings) : ℕ := match s.args with
  | none => 1
  | some args => countArgs true 2 args

/-- The string at the pointer. -/
def string (p : CharPointer) (s : ArgStrings) : List Byte := match p with
  | .filename i => (s.filename.drop i).takeWhile (· ≠ nul)
  | .args i => ((s.args.getD []).drop i).takeWhile (· ≠ nul)

def putChar (p : CharPointer) (k : ℕ) (c : Byte) (s : ArgStrings) : ArgStrings := match p with
  | .filename i => { s with filename := s.filename.set (i + k) c }
  | .args i => { s with args := s.args.map fun args => args.set (i + k) c }

def putSpace (s : ArgStrings) (p : CharPointer) : ArgStrings := s.putChar p (s.string p).length space

end ArgStrings

def fd32GetArgv (s : ArgStrings) : Argv × ArgStrings :=
  let (address, memory) := memGet (dword (pointerSize * s.count)) s.memory
  match s.args with
  | none => ({ address, pointers := [.filename 0] }, { s with memory })
  | some args =>
    let r := fillArgs true 0 args
    ({ address, pointers := .filename 0 :: .args 0 :: r.2 }, { s with args := some r.1, memory })

/-- `none` stands for `fd32_abort`. -/
def fd32UngetArgv (argv : Argv) (s : ArgStrings) : Option ArgStrings :=
  let s := (argv.pointers.take (argv.argc - 1)).foldl ArgStrings.putSpace { s with optind := 0 }
  (memFree argv.address (dword (pointerSize * argv.argc)) s.memory).map fun memory => { s with memory }

/-- The words that spaces separate. -/
def words (s : List Byte) : List (List Byte) := (s.splitOnP (· == space)).filter (· ≠ [])

/-- As many pointers are stored as the first loop has counted, in memory that was free for them. -/
def ArgvFilled (s : ArgStrings) : Prop :=
  (fd32GetArgv s).1.argc = s.count ∧ (fd32GetArgv s).1.address ≠ 0 ∧
    Removes s.memory.highMemPool (fd32GetArgv s).2.memory.highMemPool (fd32GetArgv s).1.address
      (pointerSize * (fd32GetArgv s).1.argc)

/-- The first pointer is to the filename, and the strings at the others are the words. -/
def ArgvWords (s : ArgStrings) : Prop :=
  (fd32GetArgv s).1.pointers.head? = some (.filename 0) ∧
    (fd32GetArgv s).2.filename = s.filename ∧
    (fd32GetArgv s).1.pointers.tail.map (fun p => (fd32GetArgv s).2.string p) = match s.args with
      | none => []
      | some args => words (args.takeWhile (· ≠ nul))

def ArgvRestored (s : ArgStrings) : Prop :=
  ∃ s', fd32UngetArgv (fd32GetArgv s).1 (fd32GetArgv s).2 = some s' ∧ s'.filename = s.filename ∧ s'.args = s.args

def ArgvSound (s : ArgStrings) : Prop := ArgvFilled s ∧ ArgvWords s ∧ ArgvRestored s

variable {s : ArgStrings} {l pre : List Byte} {i : ℕ} {b : Bool} {args : List Byte}

theorem countArgs_cons {c : Byte} (hc : c ≠ nul) (b : Bool) (n : ℕ) (l : List Byte) : countArgs b n (c :: l) =
    if c = space then countArgs false n l else countArgs true (if b then n else n + 1) l := by
  rw [countArgs, if_neg hc]
  by_cases hs : c = space
  · cases b <;> simp [hs]
  · have hb : (c != space) = true := bne_iff_ne.mpr hs
    cases b <;> simp [hs, hb]

theorem fillArgs_cons {c : Byte} (hc : c ≠ nul) (b : Bool) (i : ℕ) (l : List Byte) : fillArgs b i (c :: l) =
    if c = space then ((if b then nul else c) :: (fillArgs false (i + 1) l).1, (fillArgs false (i + 1) l).2)
    else (c :: (fillArgs true (i + 1) l).1, (if b then [] else [.args i]) ++ (fillArgs true (i + 1) l).2) := by
  rw [fillArgs, if_neg hc]
  cases b <;> by_cases hs : c = space <;> simp [hs]

theorem fillArgs_zero (b : Bool) (i : ℕ) (l : List Byte) : fillArgs b i (nul :: l) = (nul :: l, []) := by
  rw [fillArgs, if_pos rfl]

theorem countArgs_eq (b : Bool) (i n : ℕ) (l : List Byte) : countArgs b n l = n + (fillArgs b i l).2.length := by
  induction l generalizing b i n with
  | nil => rfl
  | cons c l ih =>
    by_cases hc : c = nul
    · rw [hc, fillArgs_zero, countArgs, if_pos rfl]
      rfl
    · rw [countArgs_cons hc, fillArgs_cons hc]
      split
      · exact ih false (i + 1) n
      · rw [ih true (i + 1)]
        cases b <;> simp
        omega

theorem getArgv_argc (s : ArgStrings) : (fd32GetArgv s).1.argc = s.count := by
  cases hargs : s.args with
  | none => simp [fd32GetArgv, Argv.argc, ArgStrings.count, hargs]
  | some args =>
    simp only [fd32GetArgv, Argv.argc, ArgStrings.count, hargs, countArgs_eq true 0, List.length_cons]
    omega

/-- The string at the place `i` of the buffer. -/
def stringAt (l : List Byte) (i : ℕ) : List Byte := (l.drop i).takeWhile (· ≠ nul)

theorem stringAt_append (pre l : List Byte) : stringAt (pre ++ l) pre.length = l.takeWhile (· ≠ nul) := by
  rw [stringAt, List.drop_left]

def argsIndex : CharPointer → ℕ
  | .filename i => i
  | .args i => i

/-- The strings at the stored pointers, when `pre` is the part of the buffer that has been gone through. -/
def storedStrings (b : Bool) (pre l : List Byte) : List (List Byte) :=
  (fillArgs b pre.length l).2.map fun p => stringAt (pre ++ (fillArgs b pre.length l).1) (argsIndex p)

theorem storedStrings_cons {c : Byte} (hc : c ≠ nul) (b : Bool) (pre l : List Byte) : storedStrings b pre (c :: l) =
    if c = space then storedStrings false (pre ++ [if b then nul else c]) l
    else (if b then [] else [c :: (fillArgs true (pre.length + 1) l).1.takeWhile (· ≠ nul)]) ++
      storedStrings true (pre ++ [c]) l := by
  unfold storedStrings
  rw [fillArgs_cons hc]
  split
  · simp
  · have hread : stringAt (pre ++ c :: (fillArgs true (pre.length + 1) l).1) pre.length =
        c :: (fillArgs true (pre.length + 1) l).1.takeWhile (· ≠ nul) := by
      rw [stringAt_append, List.takeWhile_cons, if_pos (by simpa using hc)]
    cases b <;> simp [argsIndex, hread]

/-- When the loop begins inside of a word, what is left of it comes first. -/
theorem fillArgs_words (pre l : List Byte) :
    ∃ w ws, (l.takeWhile (· ≠ nul)).splitOnP (· == space) = w :: ws ∧
      (fillArgs true pre.length l).1.takeWhile (· ≠ nul) = w ∧ storedStrings true pre l = ws.filter (· ≠ []) ∧
      storedStrings false pre l = (w :: ws).filter (· ≠ []) := by
  induction l generalizing pre with
  | nil => exact ⟨[], [], rfl, rfl, rfl, rfl⟩
  | cons c l ih =>
    by_cases hc : c = nul
    · refine ⟨[], [], ?_⟩
      simp [hc, fillArgs_zero, storedStrings, List.splitOnP_nil]
    · have htake : (c :: l).takeWhile (· ≠ nul) = c :: l.takeWhile (· ≠ nul) := by
        rw [List.takeWhile_cons, if_pos (by simpa using hc)]
      rw [htake, List.splitOnP_cons_eq_if_modifyHead, fillArgs_cons hc, storedStrings_cons hc, storedStrings_cons hc]
      by_cases hs : c = space
      · obtain ⟨w, ws, hsplit, -, -, hskip⟩ := ih (pre ++ [nul])
        obtain ⟨w', ws', hsplit', -, -, hskip'⟩ := ih (pre ++ [c])
        obtain ⟨rfl, rfl⟩ := List.cons.inj (hsplit.symm.trans hsplit')
        have hb : (c == space) = true := beq_iff_eq.mpr hs
        rw [if_pos hb, if_pos hs, if_pos hs, if_pos hs, hsplit]
        exact ⟨[], w :: ws, rfl, rfl, hskip, hskip'⟩
      · obtain ⟨w, ws, hsplit, hword, hstored, -⟩ := ih (pre ++ [c])
        rw [List.length_append, List.length_singleton] at hword
        have hb : ¬(c == space) = true := fun h => hs (beq_iff_eq.mp h)
        rw [if_neg hb, if_neg hs, if_neg hs, if_neg hs, hsplit, List.modifyHead_cons]
        refine ⟨c :: w, ws, rfl, ?_, hstored, ?_⟩
        · rw [List.takeWhile_cons, if_pos (by simpa using hc)]
          exact congrArg _ hword
        · rw [hword, hstored]
          simp

theorem fillArgs_pointers {b : Bool} {p : CharPointer} (hp : p ∈ (fillArgs b i l).2) : ∃ k, p = .args k := by
  induction l generalizing b i with
  | nil => cases hp
  | cons c l ih =>
    by_cases hc : c = nul
    · rw [hc, fillArgs_zero] at hp
      cases hp
    · rw [fillArgs_cons hc] at hp
      split at hp
      · exact ih hp
      · rcases List.mem_append.mp hp with hp | hp
        · cases b with
          | true => cases hp
          | false => exact ⟨i, List.mem_singleton.mp hp⟩
        · exact ih hp

theorem getArgv_none (hargs : s.args = none) : fd32GetArgv s =
    ({ address := (memGet 4 s.memory).1, pointers := [.filename 0] }, { s with memory := (memGet 4 s.memory).2 }) := by
  simp only [fd32GetArgv, ArgStrings.count, hargs]
  rfl

theorem getArgv_some (hargs : s.args = some args) : ∃ address memory, fd32GetArgv s =
    ({ address, pointers := .filename 0 :: .args 0 :: (fillArgs true 0 args).2 },
      { s with args := some (fillArgs true 0 args).1, memory }) := by
  simp only [fd32GetArgv, hargs]
  exact ⟨_, _, rfl⟩

theorem splitOnP_head {w : List Byte} {ws : List (List Byte)}
    (h : (args.takeWhile (· ≠ nul)).splitOnP (· == space) = w :: ws) :
    w ≠ [] ↔ ∃ c ∈ args.head?, c ≠ nul ∧ c ≠ space := by
  cases args with
  | nil =>
    obtain ⟨rfl, -⟩ := List.cons.inj h
    simp
  | cons c l =>
    by_cases hc : c = nul
    · rw [List.takeWhile_cons, if_neg (by simpa using hc)] at h
      obtain ⟨rfl, -⟩ := List.cons.inj h
      simp [hc]
    · rw [List.takeWhile_cons, if_pos (by simpa using hc), List.splitOnP_cons_eq_if_modifyHead] at h
      by_cases hs : c = space
      · rw [if_pos (by simpa using hs)] at h
        obtain ⟨rfl, -⟩ := List.cons.inj h
        simp [hs]
      · obtain ⟨v, vs, hv⟩ := List.exists_cons_of_ne_nil (List.splitOnP_ne_nil (· == space) (l.takeWhile (· ≠ nul)))
        rw [if_neg (by simpa using hs), hv, List.modifyHead_cons] at h
        obtain ⟨rfl, -⟩ := List.cons.inj h
        simp [hc, hs]

/-- No word is empty, as the first one would be if the string were empty or began with a space. -/
theorem getArgv_words_iff (s : ArgStrings) :
    ArgvWords s ↔ ∀ args ∈ s.args, ∃ c ∈ args.head?, c ≠ nul ∧ c ≠ space := by
  cases hargs : s.args with
  | none => simp [ArgvWords, getArgv_none hargs, hargs]
  | some args =>
    obtain ⟨address, memory, hrun⟩ := getArgv_some hargs
    obtain ⟨w, ws, hsplit, hword, hstored, -⟩ := fillArgs_words [] args
    have hstrings : (fillArgs true 0 args).2.map (fun p => (fd32GetArgv s).2.string p) = ws.filter (· ≠ []) := by
      rw [← hstored, storedStrings]
      apply List.map_congr_left
      intro p hp
      obtain ⟨k, rfl⟩ := fillArgs_pointers hp
      rw [hrun]
      rfl
    have hfirst : (fd32GetArgv s).2.string (.args 0) = w := by
      rw [hrun]
      exact hword
    have hwords : words (args.takeWhile (· ≠ nul)) = (w :: ws).filter (· ≠ []) := by rw [words, hsplit]
    have hiff : ArgvWords s ↔ w ≠ [] := by
      have hpointers : (fd32GetArgv s).1.pointers = .filename 0 :: .args 0 :: (fillArgs true 0 args).2 := by rw [hrun]
      have hfile : (fd32GetArgv s).2.filename = s.filename := by rw [hrun]
      simp only [ArgvWords, hpointers, hfile, hargs, List.head?_cons, List.tail_cons, List.map_cons, hstrings, hfirst, hwords,
        true_and]
      constructor
      · rintro heq rfl
        have hmem : [] ∈ ([] :: ws).filter (· ≠ []) := by
          rw [← heq]
          exact List.mem_cons_self
        simp at hmem
      · intro hne
        rw [List.filter_cons, if_pos (by simpa using hne)]
    rw [hiff, splitOnP_head hsplit]
    simp

theorem foldl_putSpace_filename {ps : List CharPointer} (h : ∀ p ∈ ps, ∃ k, p = .args k) (s : ArgStrings) :
    (ps.foldl ArgStrings.putSpace s).filename = s.filename := by
  induction ps generalizing s with
  | nil => rfl
  | cons p ps ih =>
    obtain ⟨k, rfl⟩ := h p List.mem_cons_self
    rw [List.foldl_cons, ih fun q hq => h q (List.mem_cons_of_mem _ hq)]
    rfl

theorem getElem?_length_takeWhile (h : nul ∈ l) : l[(l.takeWhile (· ≠ nul)).length]? = some nul := by
  induction l with
  | nil => cases h
  | cons c l ih =>
    by_cases hc : c = nul
    · rw [List.takeWhile_cons, if_neg (by simpa using hc), hc]
      rfl
    · rw [List.takeWhile_cons, if_pos (by simpa using hc)]
      exact ih (List.mem_of_ne_of_mem (Ne.symm hc) h)

theorem set_ne {k : ℕ} {c d : Byte} (h : l[k]? = some c) (hne : d ≠ c) : l.set k d ≠ l := by
  intro heq
  obtain ⟨hlt, -⟩ := List.getElem?_eq_some_iff.mp h
  have hread := List.getElem?_set_self (a := d) hlt
  rw [heq, h] at hread
  exact hne (Option.some.inj hread).symm

theorem ungetArgv_some (hfile : nul ∈ s.filename) (hargs : s.args = some args) : ¬ArgvRestored s := by
  rintro ⟨s', hrun, hname, -⟩
  obtain ⟨address, memory, hget⟩ := getArgv_some hargs
  rw [hget] at hrun
  obtain ⟨memory', -, rfl⟩ := Option.map_eq_some_iff.mp hrun
  have hargc : Argv.argc ⟨address, .filename 0 :: .args 0 :: (fillArgs true 0 args).2⟩ - 1 =
      (fillArgs true 0 args).2.length + 1 := rfl
  dsimp only at hname
  rw [hargc, List.take_succ_cons, List.foldl_cons, foldl_putSpace_filename] at hname
  · have hset : s.filename.set (0 + (s.filename.takeWhile (· ≠ nul)).length) space = s.filename := hname
    rw [Nat.zero_add] at hset
    exact set_ne (getElem?_length_takeWhile hfile) (by decide) hset
  · intro p hp
    rcases List.mem_cons.mp (List.mem_of_mem_take hp) with rfl | hp
    · exact ⟨0, rfl⟩
    · exact fillArgs_pointers hp

theorem pmmAlloc_freeable {mp : Mempool} {size : ℕ} (hl : Listed mp.chunks) (hsize : headerSize ≤ size)
    (h : (pmmAlloc mp size).1 ≠ 0) : ∃ mp', pmmFree (pmmAlloc mp size).2 (pmmAlloc mp size).1 size = some mp' := by
  rcases hop : pmmAlloc mp size with ⟨v, mp'⟩
  rw [hop] at h
  rcases pmmAlloc_spec hl hop with ⟨h0, -⟩ | ⟨p, rfl, -, -, hcarved, -⟩
  · exact absurd h0 h
  · have hr : RegionOk ⟨p.start, size⟩ := ⟨hsize, hcarved.stop_lt hl⟩
    exact pmmFree_isSome (hcarved.listed hl) hr fun x hx => hcarved.not_has hl hx

theorem getArgv_none_sound (hl : Listed s.memory.highMemPool.chunks) (hargs : s.args = none)
    (hne : s.memory.highMemPool.chunks ≠ []) : ArgvFilled s ∧ ArgvRestored s := by
  obtain ⟨q, hq⟩ := List.exists_mem_of_ne_nil _ hne
  have haligned : aligned 4 = headerSize := by decide
  have hgranted : (pmmAlloc s.memory.highMemPool headerSize).1 ≠ 0 := pmmAlloc_ne_zero hl hq (hl.ok q hq).header
  have hremoves := pmmAlloc_removes hl hgranted
  have hget : memGet 4 s.memory = ((pmmAlloc s.memory.highMemPool headerSize).1,
      { s.memory with highMemPool := (pmmAlloc s.memory.highMemPool headerSize).2 }) := by
    rw [memGet, Memory.onHigh, poolGet, haligned]
  obtain ⟨pool, hpool⟩ := pmmAlloc_freeable hl (Nat.le_refl _) hgranted
  rw [ArgvFilled, ArgvRestored, getArgv_argc, getArgv_none hargs, hget, ArgStrings.count, hargs]
  constructor
  · exact ⟨rfl, hgranted, hremoves.mono (by decide)⟩
  · have hfree : memFree (pmmAlloc s.memory.highMemPool headerSize).1 4
        { s.memory with highMemPool := (pmmAlloc s.memory.highMemPool headerSize).2 } =
          some { s.memory with highMemPool := pool } := by
      rw [memFree, poolFree, haligned, hpool]
      rfl
    exact ⟨_, congrArg (Option.map _) hfree, rfl, rfl⟩

theorem getArgv_filled_ne_nil (hl : Listed s.memory.highMemPool.chunks) (h : ArgvFilled s) :
    s.memory.highMemPool.chunks ≠ [] := by
  intro hnil
  have haddress : (fd32GetArgv s).1.address = (pmmAlloc s.memory.highMemPool (aligned (dword (pointerSize * s.count)))).1 := by
    unfold fd32GetArgv
    cases s.args <;> rfl
  apply h.2.1
  rw [haddress]
  apply pmmAlloc_eq_zero hl
  rw [hnil]
  simp

/-- The second loop always stores as many pointers as the first one has counted. The strings are the words unless the arguments
are empty or begin with a space, but the buffers are restored only where there are no arguments. -/
theorem getArgv_sound_iff (hl : Listed s.memory.highMemPool.chunks) (hfile : nul ∈ s.filename) :
    (ArgvSound s ↔ s.args = none ∧ s.memory.highMemPool.chunks ≠ []) ∧ (fd32GetArgv s).1.argc = s.count ∧
      (ArgvWords s ↔ ∀ args ∈ s.args, ∃ c ∈ args.head?, c ≠ nul ∧ c ≠ space) := by
  refine ⟨⟨fun h => ⟨?_, getArgv_filled_ne_nil hl h.1⟩, fun h => ?_⟩, getArgv_argc s, getArgv_words_iff s⟩
  · by_contra hne
    obtain ⟨args, hargs⟩ := Option.ne_none_iff_exists'.mp hne
    exact ungetArgv_some hfile hargs h.2.2
  · obtain ⟨hfilled, hrestored⟩ := getArgv_none_sound hl h.1 h.2
    have hwords : ArgvWords s := by
      rw [getArgv_words_iff, h.1]
      simp
    exact ⟨hfilled, hwords, hrestored⟩

section Shell

def shellMemory : Memory where
  highMemPool := { size := 0x1000, chunks := [⟨0x100000, 0x1000⟩] }
  dosMemPool := { size := 0, chunks := [] }

/-- The program `a` without arguments. -/
def shellStrings : ArgStrings := { filename := [97, 0], args := none, memory := shellMemory, optind := 1 }

theorem shellMemory_listed : Listed shellMemory.highMemPool.chunks := by
  have hok : ChunkOk ⟨0x100000, 0x1000⟩ := ⟨by decide, by decide, by decide⟩
  exact ⟨List.pairwise_singleton _ _, by simpa [shellMemory] using hok⟩

theorem shellStrings_sound : ArgvSound shellStrings :=
  (getArgv_sound_iff (s := shellStrings) shellMemory_listed (by decide)).1.mpr ⟨rfl, by decide⟩

/-- With the arguments `x y` the end of the filename is lost; with ` x` the first word is empty. -/
theorem getArgv_unsound :
    (fd32UngetArgv (fd32GetArgv { shellStrings with args := some [120, 32, 121, 0] }).1
        (fd32GetArgv { shellStrings with args := some [120, 32, 121, 0] }).2).map ArgStrings.filename = some [97, 32] ∧
      ¬ArgvSound { shellStrings with args := some [120, 32, 121, 0] } ∧
      ¬ArgvWords { shellStrings with args := some [32, 120, 0] } := by
  refine ⟨by decide, fun h => ungetArgv_some (by decide) rfl h.2.2, ?_⟩
  rw [getArgv_words_iff]
  decide

end Shell

end FreeDos32.Kernel
