import FreeDos32.Kernel.List
import FreeDos32.Kernel.Mem
import FreeDos32.Library.Count
import Mathlib.Data.List.Find

namespace FreeDos32.Kernel

open Span

abbrev Name := List (BitVec 8)

abbrev Address := BitVec 32

structure Symbol where
  name : Name
  address : Address
  deriving DecidableEq

inductive CallMode where
  | add
  | substitute
  deriving DecidableEq

/-- `sizeof(ListItem)+sizeof(struct symbol)` -/
def callSize : ℕ := 16

/-- The two tables; `symbols` gives the symbol that lies behind a list item. -/
structure SyscallTables where
  syscallTable : List Symbol
  syscallTableD : ListHead
  items : Items
  symbols : ℕ → Symbol
  memory : Memory

def replaceFirst {α : Type} (p : α → Bool) (y : α) : List α → List α
  | [] => []
  | x :: l => if p x then y :: l else x :: replaceFirst p y l

namespace SyscallTables

def setSymbol (p : ℕ) (call : Symbol) (t : SyscallTables) : SyscallTables :=
  { t with symbols := Function.update t.symbols p call }

def pushBack (p : ℕ) (t : SyscallTables) : SyscallTables :=
  let (list, items) := listPushBack p t.syscallTableD t.items
  { t with syscallTableD := list, items }

/-- The items from the first one on; an address space of 32 bits has no more of them. -/
def dynamic (t : SyscallTables) : List ℕ := cells (fun p => (t.items p).next) (2 ^ 32) t.syscallTableD.begin_

def findStatic (name : Name) (t : SyscallTables) : Option Symbol := t.syscallTable.find? (·.name == name)

def findDynamic (name : Name) (t : SyscallTables) : Option ℕ := t.dynamic.find? fun p => (t.symbols p).name == name

end SyscallTables

def fd32AddCall (name : Name) (address : Address) (mode : CallMode) (t : SyscallTables) : ℤ × SyscallTables :=
  match t.findStatic name, mode with
  | some call, .substitute =>
    (call.address.toInt, { t with syscallTable := replaceFirst (·.name == name) ⟨name, address⟩ t.syscallTable })
  | some _, .add => (-1, t)
  | none, mode => match t.findDynamic name, mode with
    | none, .add =>
      let (p, memory) := memGet callSize t.memory
      if p ≠ 0 then (0, ({ t with memory }.pushBack p).setSymbol p ⟨name, address⟩) else (-1, { t with memory })
    | some p, .substitute => ((t.symbols p).address.toInt, t.setSymbol p ⟨name, address⟩)
    | none, .substitute => (-1, t)
    | some _, .add => (-1, t)

def fd32GetCall (name : Name) (t : SyscallTables) : Address :=
  match t.findStatic name with
  | some call => call.address
  | none => match t.findDynamic name with
    | some p => (t.symbols p).address
    | none => 0

structure AddCall where
  name : Name
  address : Address
  mode : CallMode
  deriving DecidableEq

namespace SyscallTables

def step (c : AddCall) (t : SyscallTables) : SyscallTables := (fd32AddCall c.name c.address c.mode t).2

def run (calls : List AddCall) (t : SyscallTables) : SyscallTables := calls.foldl (fun t c => t.step c) t

/-- The tables as the kernel starts with them. -/
def start (syscallTable : List Symbol) (memory : Memory) : SyscallTables where
  syscallTable
  syscallTableD := listInit
  items := fun _ => ⟨none, none⟩
  symbols := fun _ => ⟨[], 0⟩
  memory

/-- The name is in the static or in the dynamic table. -/
def Has (name : Name) (t : SyscallTables) : Prop :=
  (∃ call ∈ t.syscallTable, call.name = name) ∨ ∃ p ∈ t.dynamic, (t.symbols p).name = name

instance (name : Name) (t : SyscallTables) : Decidable (t.Has name) :=
  inferInstanceAs (Decidable ((∃ call ∈ t.syscallTable, _) ∨ ∃ p ∈ t.dynamic, _))

def Succeeds (c : AddCall) (t : SyscallTables) : Prop := match c.mode with
  | .add => ¬t.Has c.name
  | .substitute => t.Has c.name

instance (c : AddCall) (t : SyscallTables) : Decidable (t.Succeeds c) :=
  match c with
  | ⟨name, _, .add⟩ => inferInstanceAs (Decidable ¬t.Has name)
  | ⟨name, _, .substitute⟩ => inferInstanceAs (Decidable (t.Has name))

/-- There is memory for a name that is new. -/
def Available (c : AddCall) (t : SyscallTables) : Prop :=
  c.mode = .add → ¬t.Has c.name → (memGet callSize t.memory).1 ≠ 0

instance (c : AddCall) (t : SyscallTables) : Decidable (t.Available c) :=
  inferInstanceAs (Decidable (_ → _ → _))

def AllAvailable : List AddCall → SyscallTables → Prop
  | [], _ => True
  | c :: calls, t => t.Available c ∧ AllAvailable calls (t.step c)

instance decideAvailable : (calls : List AddCall) → (t : SyscallTables) → Decidable (AllAvailable calls t)
  | [], _ => inferInstanceAs (Decidable True)
  | c :: calls, t =>
    have := decideAvailable calls (t.step c)
    inferInstanceAs (Decidable (_ ∧ _))

/-- The address that the last successful call for the name gave. -/
def lastAddress (name : Name) : List AddCall → SyscallTables → Option Address
  | [], _ => none
  | c :: calls, t =>
    (lastAddress name calls (t.step c)).or (if c.name = name ∧ t.Succeeds c then some c.address else none)

/-- The address that the kernel comes with. -/
def builtIn (name : Name) (syscallTable : List Symbol) : Option Address :=
  (syscallTable.find? (·.name == name)).map Symbol.address

end SyscallTables

section First

variable {α : Type} {p q : α → Bool} {x y : α} {l : List α}

theorem find?_replaceFirst_self (hx : l.find? p = some x) (hy : p y = true) : (replaceFirst p y l).find? p = some y := by
  induction l with
  | nil => cases hx
  | cons z l ih =>
    rw [replaceFirst]
    split
    · simp [hy]
    · next hz =>
      simp only [List.find?_cons, hz] at hx ⊢
      exact ih hx

theorem find?_replaceFirst_other (hy : q y = false) (hq : ∀ x, p x = true → q x = false) :
    (replaceFirst p y l).find? q = l.find? q := by
  induction l with
  | nil => rfl
  | cons z l ih =>
    rw [replaceFirst]
    split
    · next hz => simp [hy, hq z hz]
    · rw [List.find?_cons, List.find?_cons, ih]

end First

namespace SyscallTables

variable {t : SyscallTables} {l : List ℕ} {name name' : Name} {c : AddCall} {calls : List AddCall} {p : ℕ}

/-- The items of the dynamic table are those of `l`, and they are not free memory. -/
structure Holds (t : SyscallTables) (l : List ℕ) : Prop where
  linked : Linked t.syscallTableD t.items l
  listed : Listed t.memory.highMemPool.chunks
  taken : ∀ p ∈ l, p < 2 ^ 32 ∧ ¬Covers t.memory.highMemPool.chunks p

theorem Holds.length_le (h : t.Holds l) : l.length ≤ 2 ^ 32 :=
  length_le_of_lt h.linked.nodup fun p hp => (h.taken p hp).1

theorem Holds.dynamic_eq (h : t.Holds l) : t.dynamic = l := h.linked.next.cells_eq h.length_le

/-- What the two tables have for the name, the static one first. -/
def find (name : Name) (t : SyscallTables) : Option Symbol :=
  (t.findStatic name).or ((t.findDynamic name).map t.symbols)

theorem getCall_eq (name : Name) (t : SyscallTables) : fd32GetCall name t = ((t.find name).map Symbol.address).getD 0 := by
  simp only [fd32GetCall, find]
  cases t.findStatic name with
  | some call => rfl
  | none => cases t.findDynamic name <;> rfl

theorem has_iff : t.Has name ↔ (t.find name).isSome := by
  have hs : (∃ call ∈ t.syscallTable, call.name = name) ↔ (t.findStatic name).isSome := by
    simp [findStatic]
  have hd : (∃ p ∈ t.dynamic, (t.symbols p).name = name) ↔ (t.findDynamic name).isSome := by
    simp [findDynamic]
  rw [Has, hs, hd, find]
  simp

theorem addCall_of_has (h : t.Has name) (address : Address) : fd32AddCall name address .add t = (-1, t) := by
  rw [has_iff, find] at h
  simp only [fd32AddCall]
  cases hs : t.findStatic name with
  | some call => rfl
  | none =>
    cases hd : t.findDynamic name with
    | some p => rfl
    | none => simp [hs, hd] at h

theorem find_none (h : ¬t.Has name) : t.findStatic name = none ∧ t.findDynamic name = none := by
  rw [has_iff, Option.not_isSome_iff_eq_none, find, Option.or_eq_none_iff, Option.map_eq_none_iff] at h
  exact h

theorem addCall_of_not_has (h : ¬t.Has name) (address : Address) :
    fd32AddCall name address .substitute t = (-1, t) := by
  obtain ⟨hs, hd⟩ := find_none h
  simp only [fd32AddCall, hs, hd]

theorem addCall_of_fails (h : ¬t.Succeeds c) : fd32AddCall c.name c.address c.mode t = (-1, t) := by
  obtain ⟨name, address, mode⟩ := c
  cases mode with
  | add => exact addCall_of_has (Decidable.not_not.mp h) address
  | substitute => exact addCall_of_not_has h address

/-- What a successful call makes of the tables. -/
structure Sets (c : AddCall) (t t' : SyscallTables) : Prop where
  holds : ∃ l, t'.Holds l
  self : t'.find c.name = some ⟨c.name, c.address⟩
  other : ∀ name, c.name ≠ name → t'.find name = t.find name

theorem sets_static {call : Symbol} (h : t.Holds l) (hs : t.findStatic name = some call) (address : Address) :
    Sets ⟨name, address, .substitute⟩ t
      { t with syscallTable := replaceFirst (·.name == name) ⟨name, address⟩ t.syscallTable } where
  holds := ⟨l, h.linked, h.listed, h.taken⟩
  self := by
    have hfind := find?_replaceFirst_self (y := ⟨name, address⟩) hs (by simp)
    simp only [find, findStatic, hfind]
    rfl
  other name' hne := by
    have hfind := find?_replaceFirst_other (p := (·.name == name)) (q := (·.name == name')) (y := ⟨name, address⟩)
      (l := t.syscallTable) (by simpa using hne) fun x hx => by
        rw [beq_iff_eq] at hx
        simpa [hx] using hne
    simp only [find, findStatic, hfind]
    rfl

theorem setSymbol_symbols (p : ℕ) (call : Symbol) (t : SyscallTables) (q : ℕ) :
    (t.setSymbol p call).symbols q = if q = p then call else t.symbols q := Function.update_apply ..

theorem findDynamic_setSymbol (hp : (t.symbols p).name = name) (address : Address) (name' : Name) :
    (t.setSymbol p ⟨name, address⟩).findDynamic name' = t.findDynamic name' := by
  have hname : ∀ q, ((t.setSymbol p ⟨name, address⟩).symbols q).name = (t.symbols q).name := by
    intro q
    rw [setSymbol_symbols]
    split
    · next hq => rw [hq, hp]
    · rfl
  simp only [findDynamic, hname]
  rfl

theorem name_of_findDynamic (hd : t.findDynamic name = some p) : (t.symbols p).name = name := by
  simpa using List.find?_some hd

theorem sets_dynamic (h : t.Holds l) (hs : t.findStatic name = none) (hd : t.findDynamic name = some p)
    (address : Address) : Sets ⟨name, address, .substitute⟩ t (t.setSymbol p ⟨name, address⟩) where
  holds := ⟨l, h.linked, h.listed, h.taken⟩
  self := by
    have hs' : (t.setSymbol p ⟨name, address⟩).findStatic name = none := hs
    rw [find, hs', findDynamic_setSymbol (name_of_findDynamic hd), hd]
    simp [setSymbol_symbols]
  other name' hne := by
    have hs' : (t.setSymbol p ⟨name, address⟩).findStatic name' = t.findStatic name' := rfl
    rw [find, find, hs', findDynamic_setSymbol (name_of_findDynamic hd)]
    cases hd' : t.findDynamic name' with
    | none => rfl
    | some q =>
      have hqp : q ≠ p := by
        rintro rfl
        exact hne ((name_of_findDynamic hd).symm.trans (name_of_findDynamic hd'))
      simp [setSymbol_symbols, hqp]

theorem memGet_fresh (h : t.Holds l) (hp : (memGet callSize t.memory).1 ≠ 0) :
    (memGet callSize t.memory).1 ∉ l ∧ (memGet callSize t.memory).1 < 2 ^ 32 ∧
      Listed (memGet callSize t.memory).2.highMemPool.chunks ∧
      (∀ x, Covers (memGet callSize t.memory).2.highMemPool.chunks x → Covers t.memory.highMemPool.chunks x) ∧
      ¬Covers (memGet callSize t.memory).2.highMemPool.chunks (memGet callSize t.memory).1 := by
  obtain ⟨q, hcarved⟩ := memGet_carved h.listed hp
  have hsize : 0 < aligned callSize := by decide
  have hx : Span.Has ⟨(memGet callSize t.memory).1, aligned callSize⟩ (memGet callSize t.memory).1 := has_start hsize
  have hcov := hcarved.within hx
  refine ⟨fun hmem => (h.taken _ hmem).2 hcov, h.listed.covers_lt hcov, hcarved.listed h.listed, fun x => hcarved.covers, ?_⟩
  intro hcov'
  exact hcarved.not_has h.listed hcov' hx

theorem sets_add {memory : Memory} (h : t.Holds l) (hs : t.findStatic name = none) (hd : t.findDynamic name = none)
    (hfresh : p ∉ l) (hlt : p < 2 ^ 32) (hlisted : Listed memory.highMemPool.chunks)
    (hsub : ∀ x, Covers memory.highMemPool.chunks x → Covers t.memory.highMemPool.chunks x)
    (hnot : ¬Covers memory.highMemPool.chunks p) (address : Address) :
    Sets ⟨name, address, .add⟩ t (({ t with memory }.pushBack p).setSymbol p ⟨name, address⟩) := by
  have hlinked := (h.linked.pushBack hfresh).1
  have hholds : (({ t with memory }.pushBack p).setSymbol p ⟨name, address⟩).Holds (l ++ [p]) := by
    refine ⟨hlinked, hlisted, fun q hq => ?_⟩
    rcases List.mem_append.mp hq with hq | hq
    · exact ⟨(h.taken q hq).1, fun hcov => (h.taken q hq).2 (hsub q hcov)⟩
    · rw [List.mem_singleton.mp hq]
      exact ⟨hlt, hnot⟩
  have hkeep : ∀ q ∈ l, (({ t with memory }.pushBack p).setSymbol p ⟨name, address⟩).symbols q = t.symbols q := by
    intro q hq
    rw [setSymbol_symbols, if_neg (ne_of_mem_of_not_mem hq hfresh)]
    rfl
  have hdyn : ∀ name', (({ t with memory }.pushBack p).setSymbol p ⟨name, address⟩).findDynamic name' =
      (t.findDynamic name').or (if name = name' then some p else none) := by
    intro name'
    have hl : (l.find? fun q => ((({ t with memory }.pushBack p).setSymbol p ⟨name, address⟩).symbols q).name == name') =
        l.find? fun q => (t.symbols q).name == name' := by
      apply List.find?_congr
      intro q hq
      rw [hkeep q hq]
    rw [findDynamic, findDynamic, hholds.dynamic_eq, h.dynamic_eq, List.find?_append, hl, List.find?_singleton]
    simp [setSymbol_symbols]
  refine ⟨⟨_, hholds⟩, ?_, fun name' hne => ?_⟩
  · rw [find, hdyn, hd]
    have hs' : (({ t with memory }.pushBack p).setSymbol p ⟨name, address⟩).findStatic name = none := hs
    simp [hs', setSymbol_symbols]
  · dsimp only at hne
    rw [find, find, hdyn, if_neg hne, Option.or_none]
    have hs' : (({ t with memory }.pushBack p).setSymbol p ⟨name, address⟩).findStatic name' = t.findStatic name' := rfl
    rw [hs']
    cases hd' : t.findDynamic name' with
    | none => rfl
    | some q =>
      have hq := List.mem_of_find?_eq_some hd'
      rw [h.dynamic_eq] at hq
      rw [Option.map_some, Option.map_some, hkeep q hq]

theorem step_sets (h : t.Holds l) (hok : t.Succeeds c) (hmem : t.Available c) :
    Sets c t (t.step c) ∧ (fd32AddCall c.name c.address c.mode t).1 = match c.mode with
      | .add => 0
      | .substitute => (fd32GetCall c.name t).toInt := by
  obtain ⟨name, address, mode⟩ := c
  cases mode with
  | add =>
    obtain ⟨hs, hd⟩ := find_none hok
    have hp := hmem rfl hok
    obtain ⟨hfresh, hlt, hlisted, hsub, hnot⟩ := memGet_fresh h hp
    have hsets := sets_add h hs hd hfresh hlt hlisted hsub hnot address
    simp only [step, fd32AddCall, hs, hd, if_pos hp]
    exact ⟨hsets, trivial⟩
  | substitute =>
    cases hs : t.findStatic name with
    | some call =>
      have hsets := sets_static h hs address
      simp only [step, fd32AddCall, fd32GetCall, hs]
      exact ⟨hsets, trivial⟩
    | none =>
      cases hd : t.findDynamic name with
      | some p =>
        have hsets := sets_dynamic h hs hd address
        simp only [step, fd32AddCall, fd32GetCall, hs, hd]
        exact ⟨hsets, trivial⟩
      | none =>
        have hhas : t.Has name := hok
        rw [has_iff, find, hs, hd] at hhas
        cases hhas

theorem start_holds {memory : Memory} (hl : Listed memory.highMemPool.chunks) (syscallTable : List Symbol) :
    (start syscallTable memory).Holds [] :=
  ⟨Linked.init _, hl, fun _ hp => absurd hp List.not_mem_nil⟩

theorem run_find (h : ∃ l, t.Holds l) (havail : AllAvailable calls t) :
    (∃ l, (t.run calls).Holds l) ∧ ∀ name, ((t.run calls).find name).map Symbol.address =
      (lastAddress name calls t).or ((t.find name).map Symbol.address) := by
  induction calls generalizing t with
  | nil => exact ⟨h, fun name => rfl⟩
  | cons c calls ih =>
    obtain ⟨l, hl⟩ := h
    by_cases hok : t.Succeeds c
    · have hsets := (step_sets hl hok havail.1).1
      obtain ⟨hholds, hfind⟩ := ih hsets.holds havail.2
      refine ⟨hholds, fun name => ?_⟩
      have hrun := hfind name
      rw [lastAddress, run, List.foldl_cons]
      rw [run] at hrun
      rw [hrun, Option.or_assoc]
      congr 1
      by_cases hname : c.name = name
      · rw [if_pos ⟨hname, hok⟩, ← hname, hsets.self]
        rfl
      · rw [if_neg fun hand => hname hand.1, hsets.other name hname, Option.none_or]
    · have hsame : t.step c = t := congrArg Prod.snd (addCall_of_fails hok)
      rw [AllAvailable, hsame] at havail
      obtain ⟨hholds, hfind⟩ := ih ⟨l, hl⟩ havail.2
      have hrun : t.run (c :: calls) = t.run calls := by
        rw [run, List.foldl_cons, hsame]
        rfl
      rw [hrun]
      refine ⟨hholds, fun name => ?_⟩
      rw [hfind, lastAddress, hsame, if_neg fun hand => hok hand.2, Option.or_none]

/-- A call fails with -1 and changes nothing exactly when it has to, and a substitution gives the previous address. -/
def Answers (c : AddCall) (t : SyscallTables) : Prop :=
  (¬t.Succeeds c → fd32AddCall c.name c.address c.mode t = (-1, t)) ∧
    (t.Succeeds c → (fd32AddCall c.name c.address c.mode t).1 = match c.mode with
      | .add => 0
      | .substitute => (fd32GetCall c.name t).toInt)

/-- After any calls the tables are a map from names to addresses. -/
theorem addCall_run {memory : Memory} (hl : Listed memory.highMemPool.chunks) (syscallTable : List Symbol)
    (calls : List AddCall) (havail : AllAvailable calls (start syscallTable memory)) :
    (∀ name, fd32GetCall name ((start syscallTable memory).run calls) =
        ((lastAddress name calls (start syscallTable memory)).or (builtIn name syscallTable)).getD 0) ∧
      ∀ c, ((start syscallTable memory).run calls).Available c → Answers c ((start syscallTable memory).run calls) := by
  obtain ⟨⟨l, hholds⟩, hfind⟩ := run_find ⟨_, start_holds hl syscallTable⟩ havail
  constructor
  · intro name
    have hstart : ((start syscallTable memory).find name).map Symbol.address = builtIn name syscallTable := by
      have hd : (start syscallTable memory).findDynamic name = none := by
        rw [findDynamic, (start_holds hl syscallTable).dynamic_eq]
        rfl
      rw [find, hd, Option.map_none, Option.or_none]
      rfl
    rw [getCall_eq, hfind, hstart]
  · intro c hc
    exact ⟨addCall_of_fails, fun hok => (step_sets hholds hok hc).2⟩

section Boot

def kernelCalls : List Symbol := [⟨[102], 0x1000⟩, ⟨[103], 0x2000⟩]

def bootMemory : Memory where
  highMemPool := { size := 0x1000, chunks := [⟨0x100000, 0x1000⟩] }
  dosMemPool := { size := 0, chunks := [] }

def bootCalls : List AddCall := [⟨[104], 0x3000, .add⟩, ⟨[102], 0x4000, .substitute⟩, ⟨[104], 0x5000, .add⟩]

theorem bootCalls_addCall : fd32GetCall [104] ((start kernelCalls bootMemory).run bootCalls) = 0x3000 ∧
    fd32GetCall [102] ((start kernelCalls bootMemory).run bootCalls) = 0x4000 := by
  have hok : ChunkOk ⟨0x100000, 0x1000⟩ := ⟨by decide, by decide, by decide⟩
  have hl : Listed bootMemory.highMemPool.chunks := ⟨List.pairwise_singleton _ _, by simpa [bootMemory] using hok⟩
  have hrun := (addCall_run hl kernelCalls bootCalls (by decide)).1
  rw [hrun, hrun]
  decide

end Boot

end SyscallTables

end FreeDos32.Kernel
