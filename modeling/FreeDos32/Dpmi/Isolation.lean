import FreeDos32.Dpmi.Ldtmanag

namespace FreeDos32.Dpmi

/-- The services that take a selector. -/
inductive SelectorRequest where
  | free
  | setBase (baseAddress : BitVec 32)
  | setLimit (limit : BitVec 32)
  | setRights (rights : BitVec 16)
  | createAlias
  deriving DecidableEq

inductive LdtRequest where
  | allocate (numSelectors : BitVec 16)
  | segment (realModeSegment : BitVec 16)
  | on (selector : Selector) (request : SelectorRequest)
  deriving DecidableEq

namespace SelectorRequest

def exec (selector : Selector) : SelectorRequest → DescriptorTable → Except LdtError Selector × DescriptorTable
  | free => fd32FreeDescriptor selector
  | setBase baseAddress => fd32SetSegmentBaseAddress selector baseAddress
  | setLimit limit => fd32SetSegmentLimit selector limit
  | setRights rights => fd32SetDescriptorAccessRights selector rights
  | createAlias => fd32CreateAliasDescriptor selector

end SelectorRequest

def LdtRequest.exec : LdtRequest → DescriptorTable → Except LdtError Selector × DescriptorTable
  | allocate numSelectors => fd32AllocateDescriptors numSelectors
  | segment realModeSegment => fd32SegmentToDescriptor realModeSegment
  | on selector request => request.exec selector

/-- The table, and the descriptors that have been handed out and not freed. -/
structure Ldt where
  table : DescriptorTable
  allocated : ℕ → Bool

namespace Ldt

def addRun (i n : ℕ) (allocated : ℕ → Bool) : ℕ → Bool := fun k => (i ≤ k && k < i + n) || allocated k

/-- What becomes of the descriptors that are allocated, by the result of a request. -/
def record (allocated : ℕ → Bool) : LdtRequest → Except LdtError Selector → ℕ → Bool
  | _, .error _ => allocated
  | .allocate numSelectors, .ok selector => addRun (selector.toNat / 8) numSelectors.toNat allocated
  | .segment _, .ok selector => addRun (selector.toNat / 8) 1 allocated
  | .on _ .createAlias, .ok selector => addRun (selector.toNat / 8) 1 allocated
  | .on selector .free, .ok _ => Function.update allocated (selector.toNat / 8) false
  | .on _ _, .ok _ => allocated

def step (a : LdtRequest) (w : Ldt) : Option Ldt :=
  let (res, table) := a.exec w.table
  some { table, allocated := record w.allocated a res }

/-- Descriptors 0 to 11 are the kernel's, and the others are free. -/
def start (kernel : DescriptorTable) : Ldt where
  table := fun i => if i < descriptorTableInf then kernel i else { kernel i with access := 0 }
  allocated := fun _ => false

/-- The selector denotes an allocated descriptor. -/
def Allocated (w : Ldt) (selector : Selector) : Prop := selector &&& 4 = 0 ∧ w.allocated (selector.toNat / 8) = true

instance (w : Ldt) (selector : Selector) : Decidable (w.Allocated selector) := inferInstanceAs (Decidable (_ ∧ _))

/-- The selector of the request is not that of a descriptor of the kernel that is in use. -/
def Spares (w : Ldt) : LdtRequest → Prop
  | .on selector _ => ∀ i < descriptorTableInf, ¬Denotes w.table selector i
  | _ => True

instance (w : Ldt) (a : LdtRequest) : Decidable (w.Spares a) := match a with
  | .on selector _ => inferInstanceAs (Decidable (∀ i < descriptorTableInf, ¬Denotes w.table selector i))
  | .allocate _ => .isTrue trivial
  | .segment _ => .isTrue trivial

end Ldt

section Services

variable {t : DescriptorTable} {selector : Selector} {request : SelectorRequest} {i : ℕ}

/-- A descriptor that is not in use is taken, and nothing else is changed. -/
def TakesOne (t : DescriptorTable) (r : Except LdtError Selector × DescriptorTable) : Prop :=
  ∃ j d, descriptorTableInf ≤ j ∧ j < descriptorTableSup ∧ (t j).access = 0 ∧ d.access ≠ 0 ∧
    r = (.ok (indexToSelector j), Function.update t j d)

theorem placeLoop_one (h : i < descriptorTableSup) (t : DescriptorTable) :
    placeLoop 1 i t = Function.update t i freshDescriptor := gdtPlace_fresh (Nat.lt_trans h (by decide)) t

theorem allocate_one (t : DescriptorTable) :
    (∃ j, descriptorTableInf ≤ j ∧ j < descriptorTableSup ∧ (t j).access = 0 ∧
      fd32AllocateDescriptors 1 t = (.ok (indexToSelector j), Function.update t j freshDescriptor)) ∨
    fd32AllocateDescriptors 1 t = (.error .descriptorUnavailable, t) := by
  have hone : (1 : BitVec 16).toNat = 1 := rfl
  obtain ⟨j, hj, hlt, hfree, hrun⟩ | ⟨-, hrun⟩ := allocate_cases 1 t
  · left
    rw [hone] at hlt hfree hrun
    rw [placeLoop_one (by omega)] at hrun
    exact ⟨j, hj, by omega, hfree j (Nat.le_refl _) (by omega), hrun⟩
  · exact .inr hrun

/-- All of the services but the last one change one descriptor, and only one of them makes it free. -/
theorem exec_eq (hreq : request ≠ .createAlias) :
    ∃ f, (∀ selector t, request.exec selector t = modifyDescriptor f selector t) ∧
      ∀ d : Descriptor, d.access ≠ 0 → ((f d).access = 0 ↔ request = .free) := by
  cases request with
  | createAlias => exact absurd rfl hreq
  | free =>
    refine ⟨fun d => { d with access := 0 }, fun _ _ => rfl, ?_⟩
    simp
  | setBase baseAddress =>
    refine ⟨Descriptor.setBase baseAddress, fun _ _ => rfl, ?_⟩
    simp [Descriptor.setBase]
  | setLimit limit =>
    refine ⟨Descriptor.setLimit limit, fun _ _ => rfl, ?_⟩
    simp [Descriptor.setLimit]
  | setRights rights =>
    refine ⟨fun d => { d with
      access := 0x10 ||| rights.setWidth 8
      gran := 0x0F &&& d.gran ||| ((rights >>> 8).setWidth 8 &&& 0xD0) }, fun _ _ => rfl, ?_⟩
    simp

theorem exec_error (h : ∀ i, ¬Denotes t selector i) : request.exec selector t = (.error .invalidSelector, t) := by
  by_cases hreq : request = .createAlias
  · subst hreq
    show fd32CreateAliasDescriptor selector t = _
    rw [fd32CreateAliasDescriptor, selToLdtIndex_error h]
  · obtain ⟨f, hf, -⟩ := exec_eq hreq
    rw [hf, modifyDescriptor_error h]

theorem exec_ok (h : Denotes t selector i) (hreq : request ≠ .createAlias) :
    ∃ d, request.exec selector t = (.ok 0, Function.update t i d) ∧ (d.access = 0 ↔ request = .free) := by
  obtain ⟨f, hf, hfree⟩ := exec_eq hreq
  rw [hf, modifyDescriptor_ok h]
  exact ⟨_, rfl, hfree _ h.2.2.2⟩

theorem createAlias_cases (h : Denotes t selector i) : TakesOne t (fd32CreateAliasDescriptor selector t) ∨
    fd32CreateAliasDescriptor selector t = (.error .descriptorUnavailable, t) := by
  have hset : ∀ x : BitVec 8, 2#8 ||| x ≠ 0 := by decide
  rw [fd32CreateAliasDescriptor, selToLdtIndex_ok h]
  obtain ⟨j, hj, hlt, hfree, hrun⟩ | hrun := allocate_one t
  · left
    have hdest : Denotes (Function.update t j freshDescriptor) (indexToSelector j) j :=
      denotes_indexToSelector hlt (by simp [freshDescriptor])
    simp only [hrun, selToLdtIndex_ok hdest, Function.update_idem]
    exact ⟨j, _, hj, hlt, hfree, hset _, rfl⟩
  · right
    simp only [hrun]

theorem segment_cases (realModeSegment : BitVec 16) (t : DescriptorTable) :
    (∃ j, descriptorTableInf ≤ j ∧ j < descriptorTableSup ∧ (t j).access ≠ 0 ∧
      fd32SegmentToDescriptor realModeSegment t = (.ok (indexToSelector j), t)) ∨
    TakesOne t (fd32SegmentToDescriptor realModeSegment t) ∨
    fd32SegmentToDescriptor realModeSegment t = (.error .descriptorUnavailable, t) := by
  rw [fd32SegmentToDescriptor]
  dsimp only
  split
  · next j hfind =>
    left
    have hmem := List.mem_range'_1.mp (List.mem_of_find?_eq_some hfind)
    have hmatch := List.find?_some hfind
    simp only [Descriptor.ofSegment, decide_eq_true_eq] at hmatch
    refine ⟨j, hmem.1, ?_, hmatch.2.2.2.1, rfl⟩
    have hsup := hmem.2
    unfold descriptorTableInf descriptorTableSup at hsup
    exact hsup
  · right
    obtain ⟨j, hj, hlt, hfree, hrun⟩ | hrun := allocate_one t
    · left
      have hdest : Denotes (Function.update t j freshDescriptor) (indexToSelector j) j :=
        denotes_indexToSelector hlt (by simp [freshDescriptor])
      simp only [hrun, selToLdtIndex_ok hdest, Function.update_idem, Function.update_self]
      exact ⟨j, _, hj, hlt, hfree, by simp [freshDescriptor], rfl⟩
    · right
      simp only [hrun]

end Services

namespace Ldt

variable {kernel : DescriptorTable} {w w' : Ldt} {a : LdtRequest} {selector : Selector} {i j n : ℕ}

/-- What a request has to keep apart. -/
structure Isolated (w : Ldt) (a : LdtRequest) : Prop where
  kernel : ∀ i < descriptorTableInf, (a.exec w.table).2 i = w.table i
  invalid : ∀ selector request, a = .on selector request → ¬w.Allocated selector →
    a.exec w.table = (.error .invalidSelector, w.table)
  others : ∀ selector request, a = .on selector request → ∀ i, (a.exec w.table).2 i ≠ w.table i →
    i = selector.toNat / 8 ∨ request = .createAlias ∧ w.allocated i = false ∧ (a.exec w.table).1 = .ok (indexToSelector i)

structure Inv (kernel : DescriptorTable) (w : Ldt) : Prop where
  kernel : ∀ i < descriptorTableInf, w.table i = kernel i
  range : ∀ i, w.allocated i = true → descriptorTableInf ≤ i ∧ i < descriptorTableSup
  used : ∀ i, descriptorTableInf ≤ i → i < descriptorTableSup → (w.allocated i = true ↔ (w.table i).access ≠ 0)

theorem start_inv (kernel : DescriptorTable) : Inv kernel (start kernel) := by
  constructor
  · intro i hi
    exact if_pos hi
  · intro i hi
    cases hi
  · intro i hi _
    simp [start, Nat.not_lt.mpr hi]

theorem Inv.allocated_iff (h : Inv kernel w) (selector : Selector) :
    w.Allocated selector ↔ ∃ i, descriptorTableInf ≤ i ∧ Denotes w.table selector i := by
  constructor
  · rintro ⟨hti, halloc⟩
    obtain ⟨hle, hlt⟩ := h.range _ halloc
    exact ⟨_, hle, hti, rfl, hlt, (h.used _ hle hlt).mp halloc⟩
  · rintro ⟨i, hle, hti, rfl, hlt, hused⟩
    exact ⟨hti, (h.used _ hle hlt).mpr hused⟩

theorem Inv.not_denotes (h : Inv kernel w) {request : SelectorRequest} (hs : w.Spares (.on selector request))
    (ha : ¬w.Allocated selector) : ∀ i, ¬Denotes w.table selector i := by
  intro i hden
  by_cases hlt : i < descriptorTableInf
  · exact hs i hlt hden
  · apply ha
    rw [h.allocated_iff]
    exact ⟨i, Nat.not_lt.mp hlt, hden⟩

theorem Inv.free (h : Inv kernel w) (hle : descriptorTableInf ≤ i) (hlt : i < descriptorTableSup)
    (hfree : (w.table i).access = 0) : w.allocated i = false := by
  have hiff := h.used i hle hlt
  rw [hfree] at hiff
  simpa using hiff

/-- One descriptor from 12 on changes. -/
theorem Inv.update (h : Inv kernel w) (hle : descriptorTableInf ≤ i) (hlt : i < descriptorTableSup) (d : Descriptor)
    (b : Bool) (hb : b = true ↔ d.access ≠ 0) :
    Inv kernel ⟨Function.update w.table i d, Function.update w.allocated i b⟩ := by
  constructor
  · intro k hk
    dsimp only
    rw [Function.update_of_ne (by omega)]
    exact h.kernel k hk
  · intro k hk
    by_cases hki : k = i
    · subst hki
      exact ⟨hle, hlt⟩
    · dsimp only at hk
      rw [Function.update_of_ne hki] at hk
      exact h.range k hk
  · intro k hk hk'
    by_cases hki : k = i
    · subst hki
      simpa using hb
    · dsimp only
      rw [Function.update_of_ne hki, Function.update_of_ne hki]
      exact h.used k hk hk'

theorem Inv.place (h : Inv kernel w) (hle : descriptorTableInf ≤ i) (hlt : i + n ≤ descriptorTableSup) :
    Inv kernel ⟨placeLoop n i w.table, addRun i n w.allocated⟩ := by
  have hplace := @placeLoop_apply n i (Nat.le_trans hlt (by decide)) w.table
  constructor
  · intro k hk
    dsimp only
    rw [hplace, if_neg (by omega)]
    exact h.kernel k hk
  · intro k hk
    simp only [addRun, Bool.or_eq_true, Bool.and_eq_true, decide_eq_true_eq] at hk
    rcases hk with hk | hk
    · omega
    · exact h.range k hk
  · intro k hk hk'
    dsimp only
    rw [hplace]
    simp only [addRun, Bool.or_eq_true, Bool.and_eq_true, decide_eq_true_eq]
    by_cases hin : i ≤ k ∧ k < i + n
    · rw [if_pos hin]
      simp [hin, freshDescriptor]
    · rw [if_neg hin]
      simp [hin, h.used k hk hk']

theorem addRun_one (i : ℕ) (allocated : ℕ → Bool) : addRun i 1 allocated = Function.update allocated i true := by
  funext k
  by_cases hk : k = i
  · subst hk
    simp [addRun]
  · have hne : ¬(i ≤ k ∧ k < i + 1) := by omega
    rw [Function.update_of_ne hk, addRun, ← Bool.decide_and, decide_eq_false hne, Bool.false_or]

theorem toNat_selector_div (h : i < descriptorTableSup) : (indexToSelector i).toNat / 8 = i := by
  rw [toNat_indexToSelector (Nat.lt_trans h (by decide)), Nat.mul_div_cancel _ (by decide)]

theorem Inv.takesOne (h : Inv kernel w) {r : Except LdtError Selector × DescriptorTable} (ht : TakesOne w.table r) :
    ∃ selector, r.1 = .ok selector ∧ Inv kernel ⟨r.2, addRun (selector.toNat / 8) 1 w.allocated⟩ := by
  obtain ⟨j, d, hle, hlt, -, hd, rfl⟩ := ht
  refine ⟨_, rfl, ?_⟩
  rw [toNat_selector_div hlt, addRun_one]
  exact h.update hle hlt d true (iff_of_true rfl hd)

theorem Inv.step_on (h : Inv kernel w) {request : SelectorRequest} (hs : w.Spares (.on selector request)) :
    Inv kernel ⟨(request.exec selector w.table).2,
      record w.allocated (.on selector request) (request.exec selector w.table).1⟩ := by
  by_cases halloc : w.Allocated selector
  · obtain ⟨i, hle, hden⟩ := (h.allocated_iff selector).mp halloc
    obtain ⟨-, hidx, hlt, -⟩ := id hden
    by_cases hreq : request = .createAlias
    · subst hreq
      show Inv kernel ⟨(fd32CreateAliasDescriptor selector w.table).2, _⟩
      obtain htake | herror := createAlias_cases hden
      · obtain ⟨new, hres, hinv⟩ := h.takesOne htake
        simp only [SelectorRequest.exec, hres, record]
        exact hinv
      · simp only [SelectorRequest.exec, herror, record]
        exact h
    · obtain ⟨d, hexec, hfree⟩ := exec_ok hden hreq
      rw [hexec]
      by_cases hf : request = .free
      · subst hf
        simp only [record, hidx]
        exact h.update hle hlt d false (iff_of_false Bool.false_ne_true (not_not_intro (hfree.mpr rfl)))
      · have hrecord : record w.allocated (.on selector request) (.ok 0) = Function.update w.allocated i true := by
          have hself : Function.update w.allocated i true = w.allocated := by
            rw [← hidx, ← halloc.2, Function.update_eq_self]
          rw [hself]
          cases request with
          | free => exact absurd rfl hf
          | createAlias => exact absurd rfl hreq
          | _ => rfl
        rw [hrecord]
        exact h.update hle hlt d true (iff_of_true rfl (mt hfree.mp hf))
  · rw [exec_error (h.not_denotes hs halloc)]
    exact h

theorem Inv.step (h : Inv kernel w) (hs : w.Spares a) (hstep : step a w = some w') : Inv kernel w' := by
  obtain rfl := Option.some.inj hstep
  cases a with
  | allocate numSelectors =>
    obtain ⟨i, hle, hlt, -, hrun⟩ | ⟨-, hrun⟩ := allocate_cases numSelectors w.table
    · simp only [hrun, record]
      rw [toNat_selector_div (by omega)]
      exact h.place hle (Nat.le_of_lt hlt)
    · simp only [hrun, record]
      exact h
  | segment realModeSegment =>
    obtain ⟨j, hle, hlt, hused, hrun⟩ | htake | herror := segment_cases realModeSegment w.table
    · simp only [hrun, record]
      rw [toNat_selector_div hlt, addRun_one, ← (h.used j hle hlt).mpr hused, Function.update_eq_self]
      exact h
    · obtain ⟨new, hres, hinv⟩ := h.takesOne htake
      simp only [hres, record]
      exact hinv
    · simp only [herror, record]
      exact h
  | on selector request => exact h.step_on hs

/-- A request keeps things apart if and only if it spares the kernel. -/
theorem Inv.isolated_iff (h : Inv kernel w) (a : LdtRequest) : w.Isolated a ↔ w.Spares a := by
  constructor
  · intro hiso
    cases a with
    | allocate numSelectors => trivial
    | segment realModeSegment => trivial
    | on selector request =>
      intro i hi hden
      have hnot : ¬w.Allocated selector := by
        rintro ⟨-, halloc⟩
        have hle := (h.range _ halloc).1
        rw [hden.2.1] at hle
        omega
      have hexec := hiso.invalid selector request rfl hnot
      simp only [LdtRequest.exec] at hexec
      by_cases hreq : request = .createAlias
      · subst hreq
        change fd32CreateAliasDescriptor selector w.table = _ at hexec
        obtain ⟨j, d, -, -, -, -, hres⟩ | hres := createAlias_cases hden
        · rw [hres] at hexec
          cases congrArg Prod.fst hexec
        · rw [hres] at hexec
          cases congrArg Prod.fst hexec
      · obtain ⟨d, hres, -⟩ := exec_ok hden hreq
        rw [hres] at hexec
        cases congrArg Prod.fst hexec
  · intro hs
    have hinv : Inv kernel ⟨(a.exec w.table).2, record w.allocated a (a.exec w.table).1⟩ := h.step hs rfl
    constructor
    · intro i hi
      exact (hinv.kernel i hi).trans (h.kernel i hi).symm
    · rintro selector request rfl hnot
      exact exec_error (h.not_denotes hs hnot)
    · rintro selector request rfl i hne
      simp only [LdtRequest.exec] at hne ⊢
      by_cases halloc : w.Allocated selector
      · obtain ⟨k, -, hden⟩ := (h.allocated_iff selector).mp halloc
        by_cases hreq : request = .createAlias
        · subst hreq
          change (fd32CreateAliasDescriptor selector w.table).2 i ≠ _ at hne
          change _ ∨ _ ∧ _ ∧ (fd32CreateAliasDescriptor selector w.table).1 = _
          obtain ⟨j, d, hle, hlt, hfree, -, hres⟩ | hres := createAlias_cases hden
          · rw [hres] at hne ⊢
            by_cases hij : i = j
            · subst hij
              exact .inr ⟨rfl, h.free hle hlt hfree, rfl⟩
            · exact absurd (Function.update_of_ne hij d w.table) hne
          · rw [hres] at hne
            exact absurd rfl hne
        · obtain ⟨d, hres, -⟩ := exec_ok hden hreq
          rw [hres] at hne
          left
          by_contra hik
          rw [hden.2.1] at hik
          exact hne (Function.update_of_ne hik d w.table)
      · rw [exec_error (h.not_denotes hs halloc)] at hne
        exact absurd rfl hne

/-- In every run of the services in which no selector is that of a kernel descriptor in use, the kernel's descriptors stay as
they were; in every state reached a request keeps things apart if and only if it goes on like that. -/
theorem run_isolated (kernel : DescriptorTable) (w : Ldt) (h : Reach Ldt.step Ldt.Spares (start kernel) w) :
    (∀ i < descriptorTableInf, w.table i = kernel i) ∧ ∀ a, w.Isolated a ↔ w.Spares a := by
  have hinv : Inv kernel w := h.invariant (Inv kernel) (start_inv kernel) fun _ _ _ hi hs hstep => hi.step hs hstep
  exact ⟨hinv.kernel, hinv.isolated_iff⟩

/-- A null descriptor and eleven segments. -/
def kernelSample : DescriptorTable := fun i => if i = 0 then ⟨0, 0, 0, 0, 0, 0⟩ else freshDescriptor

def clientRun : List LdtRequest := [.allocate 2, .on 96 (.setBase 0x12345678), .on 104 .createAlias, .on 96 .free]

theorem run_isolated_client : ∃ w, Reach Ldt.step Ldt.Spares (start kernelSample) w ∧ w.table 1 = kernelSample 1 ∧
    w.Isolated (.on 104 .free) := by
  obtain ⟨w, hw⟩ : ∃ w, runSteps Ldt.step Ldt.Spares clientRun (start kernelSample) = some w :=
    Option.isSome_iff_exists.mp (by decide)
  have hreach := runSteps_reach clientRun (start kernelSample) hw
  have hrun := run_isolated kernelSample w hreach
  exact ⟨w, hreach, hrun.1 1 (by decide), (hrun.2 (.on 104 .free)).mpr fun i hi hden => by
    obtain rfl : i = 13 := hden.2.1.symm
    exact absurd hi (by decide)⟩

/-- The code segment of the kernel is freed. -/
theorem run_not_isolated : ¬(start kernelSample).Isolated (.on 8 .free) ∧
    (fd32FreeDescriptor 8 (start kernelSample).table).1 = .ok 0 ∧
    (fd32FreeDescriptor 8 (start kernelSample).table).2 1 ≠ kernelSample 1 := by
  refine ⟨fun h => ?_, by decide, by decide⟩
  exact absurd (h.kernel 1 (by decide)) (by decide)

end Ldt

end FreeDos32.Dpmi
