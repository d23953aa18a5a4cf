import FreeDos32.Library.Runs
import Mathlib.Data.Nat.Bitwise
import Mathlib.Logic.Function.Basic

namespace FreeDos32.Dpmi

structure Descriptor where
  limLo : BitVec 16
  baseLo : BitVec 16
  baseMed : BitVec 8
  access : BitVec 8
  gran : BitVec 8
  baseHi : BitVec 8
  deriving DecidableEq

/-- The GDT, which is used instead of an LDT. -/
abbrev DescriptorTable := ℕ → Descriptor

abbrev Selector := BitVec 16

/-- The negative results `ERROR_DESCRIPTOR_UNAVAILABLE` and `ERROR_INVALID_SELECTOR`. -/
inductive LdtError where
  | descriptorUnavailable
  | invalidSelector
  deriving DecidableEq

def descriptorTableInf : ℕ := 12

def descriptorTableSup : ℕ := 256

def indexToSelector (i : ℕ) : Selector := BitVec.ofNat 16 (i * 8)

def gdtPlace (sel : Selector) (base lim : BitVec 32) (acc gran : BitVec 8) (t : DescriptorTable) : DescriptorTable :=
  Function.update t (sel.toNat / 8)
    { baseLo := base.setWidth 16
      baseMed := (base >>> 16).setWidth 8
      baseHi := (base >>> 24).setWidth 8
      access := acc
      limLo := lim.setWidth 16
      gran := gran ||| ((lim >>> 16).setWidth 8 &&& 0x0F) ||| 0x40 }

/-- The inner loop of the search from `i` on, which has `n` turns left. -/
def freeLoop (t : DescriptorTable) (i : ℕ) : ℕ → ℕ → ℕ
  | 0, j => j
  | n + 1, j => if (t (i + j)).access = 0 then freeLoop t i n (j + 1) else j

/-- The outer loop. -/
def searchLoop (t : DescriptorTable) (numSelectors : ℕ) : ℕ → ℕ → ℕ
  | 0, i => i
  | fuel + 1, i =>
    if i + numSelectors < descriptorTableSup then
      if numSelectors ≤ freeLoop t i numSelectors 0 then i else searchLoop t numSelectors fuel (i + 1)
    else i

def placeLoop : ℕ → ℕ → DescriptorTable → DescriptorTable
  | 0, _, t => t
  | n + 1, i, t => placeLoop n (i + 1) (gdtPlace (indexToSelector i) 0 0 0x92 0x40 t)

def fd32AllocateDescriptors (numSelectors : BitVec 16) (t : DescriptorTable) : Except LdtError Selector × DescriptorTable :=
  let n := numSelectors.toNat
  let i := searchLoop t n descriptorTableSup descriptorTableInf
  if i + n < descriptorTableSup then (.ok (indexToSelector i), placeLoop n i t) else (.error .descriptorUnavailable, t)

def selToLdtIndex (selector : Selector) (t : DescriptorTable) : Except LdtError ℕ :=
  if selector &&& 4 = 0 ∧ selector.toNat / 8 < descriptorTableSup ∧ (t (selector.toNat / 8)).access ≠ 0
  then .ok (selector.toNat / 8) else .error .invalidSelector

/-- The services that change the descriptor of a selector; they return `NO_ERROR`. -/
def modifyDescriptor (f : Descriptor → Descriptor) (selector : Selector) (t : DescriptorTable) :
    Except LdtError Selector × DescriptorTable :=
  match selToLdtIndex selector t with
  | .error e => (.error e, t)
  | .ok i => (.ok 0, Function.update t i (f (t i)))

def fd32FreeDescriptor : Selector → DescriptorTable → Except LdtError Selector × DescriptorTable :=
  modifyDescriptor fun d => { d with access := 0 }

def Descriptor.ofSegment (baseLo baseMed : BitVec 16) (d : Descriptor) : Bool :=
  d.gran = 0 ∧ d.baseHi = 0 ∧ d.limLo = 0xFFFF ∧ d.access ≠ 0 ∧ d.baseLo = baseLo ∧ d.baseMed.setWidth 16 = baseMed

def fd32SegmentToDescriptor (realModeSegment : BitVec 16) (t : DescriptorTable) :
    Except LdtError Selector × DescriptorTable :=
  let baseLo := realModeSegment <<< 4
  let baseMed := realModeSegment >>> 12
  let table := List.range' descriptorTableInf (descriptorTableSup - descriptorTableInf)
  match table.find? fun i => (t i).ofSegment baseLo baseMed with
  | some i => (.ok (indexToSelector i), t)
  | none =>
    match fd32AllocateDescriptors 1 t with
    | (.error e, t) => (.error e, t)
    | (.ok selector, t) =>
      -- the result of the conversion is not looked at
      let i := match selToLdtIndex selector t with
        | .ok i => i
        | .error _ => selector.toNat
      (.ok selector, Function.update t i
        { t i with limLo := 0xFFFF, baseLo := baseLo, baseMed := baseMed.setWidth 8, gran := 0 })

def Descriptor.base (d : Descriptor) : BitVec 32 :=
  d.baseLo.setWidth 32 + d.baseMed.setWidth 32 <<< 16 + d.baseHi.setWidth 32 <<< 24

def fd32GetSegmentBaseAddress (selector : Selector) (t : DescriptorTable) : Except LdtError (BitVec 32) :=
  (selToLdtIndex selector t).map fun i => (t i).base

def Descriptor.setBase (baseAddress : BitVec 32) (d : Descriptor) : Descriptor :=
  { d with
    baseLo := baseAddress.setWidth 16
    baseMed := (baseAddress >>> 16).setWidth 8
    baseHi := (baseAddress >>> 24).setWidth 8 }

def fd32SetSegmentBaseAddress (selector : Selector) (baseAddress : BitVec 32) :
    DescriptorTable → Except LdtError Selector × DescriptorTable :=
  modifyDescriptor (Descriptor.setBase baseAddress) selector

/-- The granularity bit is not looked at. -/
def Descriptor.limit (d : Descriptor) : BitVec 32 := (d.gran.setWidth 32 &&& 0x000F#32) <<< 16 + d.limLo.setWidth 32

def fd32GetSegmentLimit (selector : Selector) (t : DescriptorTable) : Except LdtError (BitVec 32) :=
  (selToLdtIndex selector t).map fun i => (t i).limit

/-- From 1 MiB on the limit is stored in pages. -/
def Descriptor.setLimit (limit : BitVec 32) (d : Descriptor) : Descriptor :=
  let j : BitVec 16 := limit.setWidth 16
  let k : BitVec 16 := (limit >>> 16).setWidth 16
  let (j, k) := if 0xF < k.toNat then (j >>> 12 ||| k <<< 4, 0x80#16 ||| k >>> 12) else (j, k)
  { d with limLo := j, gran := d.gran &&& 0x70#8 ||| k.setWidth 8 }

def fd32SetSegmentLimit (selector : Selector) (limit : BitVec 32) :
    DescriptorTable → Except LdtError Selector × DescriptorTable :=
  modifyDescriptor (Descriptor.setLimit limit) selector

def fd32SetDescriptorAccessRights (selector : Selector) (rights : BitVec 16) :
    DescriptorTable → Except LdtError Selector × DescriptorTable :=
  modifyDescriptor (fun d => { d with
    access := 0x10 ||| rights.setWidth 8
    gran := 0x0F &&& d.gran ||| ((rights >>> 8).setWidth 8 &&& 0xD0) }) selector

def fd32CreateAliasDescriptor (selector : Selector) (t : DescriptorTable) : Except LdtError Selector × DescriptorTable :=
  match selToLdtIndex selector t with
  | .error e => (.error e, t)
  | .ok source =>
    match fd32AllocateDescriptors 1 t with
    | (.error e, t) => (.error e, t)
    | (.ok new, t) =>
      let dest := match selToLdtIndex new t with
        | .ok i => i
        | .error _ => new.toNat
      (.ok (indexToSelector dest), Function.update t dest
        { t source with access := 2 ||| ((t source).access &&& 0xF0) })

section Search

variable {t : DescriptorTable} {i j k n fuel : ℕ}

/-- The descriptors of the run are free. -/
def FreeRun (t : DescriptorTable) (i n : ℕ) : Prop := ∀ k, i ≤ k → k < i + n → (t k).access = 0

instance (t : DescriptorTable) (i n : ℕ) : Decidable (FreeRun t i n) :=
  decidable_of_iff (∀ j < n, (t (i + j)).access = 0) (by
    constructor
    · intro h k hk hk'
      have hj := h (k - i) (by omega)
      rwa [Nat.add_sub_of_le hk] at hj
    · intro h j hj
      exact h (i + j) (by omega) (by omega))

theorem freeLoop_full (t : DescriptorTable) (i n j : ℕ) : j + n ≤ freeLoop t i n j ↔ FreeRun t (i + j) n := by
  induction n generalizing j with
  | zero =>
    constructor
    · intro _ k hk hk'
      omega
    · intro _
      exact Nat.le_refl _
  | succ n ih =>
    rw [freeLoop]
    by_cases hfree : (t (i + j)).access = 0
    · rw [if_pos hfree, Nat.add_comm n 1, ← Nat.add_assoc, ih]
      constructor
      · intro h k hk hk'
        by_cases hki : k = i + j
        · rw [hki]
          exact hfree
        · exact h k (by omega) (by omega)
      · intro h k hk hk'
        exact h k (by omega) (by omega)
    · rw [if_neg hfree]
      constructor
      · intro h
        omega
      · intro h
        exact absurd (h (i + j) (Nat.le_refl _) (by omega)) hfree

theorem searchLoop_spec (t : DescriptorTable) (n fuel i : ℕ) (hfuel : descriptorTableSup ≤ i + fuel) :
    i ≤ searchLoop t n fuel i ∧ (∀ k, i ≤ k → k < searchLoop t n fuel i → ¬FreeRun t k n) ∧
      (searchLoop t n fuel i + n < descriptorTableSup → FreeRun t (searchLoop t n fuel i) n) := by
  induction fuel generalizing i with
  | zero =>
    rw [searchLoop]
    exact ⟨Nat.le_refl _, fun k hk hk' => by omega, fun h => by omega⟩
  | succ fuel ih =>
    have hfull := freeLoop_full t i n 0
    simp only [Nat.zero_add, Nat.add_zero] at hfull
    rw [searchLoop]
    by_cases hlt : i + n < descriptorTableSup
    · rw [if_pos hlt]
      by_cases hfree : FreeRun t i n
      · rw [if_pos (hfull.mpr hfree)]
        exact ⟨Nat.le_refl _, fun k hk hk' => by omega, fun _ => hfree⟩
      · rw [if_neg (mt hfull.mp hfree)]
        obtain ⟨hle, hnot, hfound⟩ := ih (i + 1) (by omega)
        refine ⟨by omega, fun k hk hk' => ?_, hfound⟩
        by_cases hki : k = i
        · rw [hki]
          exact hfree
        · exact hnot k (by omega) hk'
    · rw [if_neg hlt]
      exact ⟨Nat.le_refl _, fun k hk hk' => by omega, fun h => absurd h hlt⟩

end Search

/-- A descriptor as it is allocated: present, data, writable, 32 bits. -/
def freshDescriptor : Descriptor := ⟨0, 0, 0, 0x92, 0x40, 0⟩

theorem toNat_indexToSelector {i : ℕ} (h : i < 8192) : (indexToSelector i).toNat = i * 8 := by
  simp only [indexToSelector, BitVec.toNat_ofNat]
  omega

theorem gdtPlace_fresh {i : ℕ} (h : i < 8192) (t : DescriptorTable) :
    gdtPlace (indexToSelector i) 0 0 0x92 0x40 t = Function.update t i freshDescriptor := by
  rw [gdtPlace, toNat_indexToSelector h, Nat.mul_div_cancel _ (by decide)]
  rfl

theorem placeLoop_apply {n i : ℕ} (h : i + n ≤ 8192) (t : DescriptorTable) (k : ℕ) :
    placeLoop n i t k = if i ≤ k ∧ k < i + n then freshDescriptor else t k := by
  induction n generalizing i t with
  | zero =>
    rw [if_neg (by omega)]
    rfl
  | succ n ih =>
    rw [placeLoop, ih (by omega), gdtPlace_fresh (by omega)]
    by_cases hk : k = i
    · subst hk
      simp
    · rw [Function.update_of_ne hk]
      have hiff : (i + 1 ≤ k ∧ k < i + 1 + n) ↔ (i ≤ k ∧ k < i + (n + 1)) := by omega
      simp only [hiff]

/-- What an allocation does: it takes the first run that does not end at the end of the table. -/
theorem allocate_cases (numSelectors : BitVec 16) (t : DescriptorTable) :
    (∃ i, descriptorTableInf ≤ i ∧ i + numSelectors.toNat < descriptorTableSup ∧ FreeRun t i numSelectors.toNat ∧
      fd32AllocateDescriptors numSelectors t = (.ok (indexToSelector i), placeLoop numSelectors.toNat i t)) ∨
    (∀ i, descriptorTableInf ≤ i → i + numSelectors.toNat < descriptorTableSup → ¬FreeRun t i numSelectors.toNat) ∧
      fd32AllocateDescriptors numSelectors t = (.error .descriptorUnavailable, t) := by
  obtain ⟨hle, hnot, hfound⟩ := searchLoop_spec t numSelectors.toNat descriptorTableSup descriptorTableInf (by decide)
  simp only [fd32AllocateDescriptors]
  by_cases hlt : searchLoop t numSelectors.toNat descriptorTableSup descriptorTableInf + numSelectors.toNat <
      descriptorTableSup
  · rw [if_pos hlt]
    exact .inl ⟨_, hle, hlt, hfound hlt, rfl⟩
  · rw [if_neg hlt]
    exact .inr ⟨fun i hi hi' => hnot i hi (by omega), rfl⟩

/-- The selector denotes the descriptor `i`, which is in use. -/
def Denotes (t : DescriptorTable) (selector : Selector) (i : ℕ) : Prop :=
  selector &&& 4 = 0 ∧ selector.toNat / 8 = i ∧ i < descriptorTableSup ∧ (t i).access ≠ 0

instance (t : DescriptorTable) (selector : Selector) (i : ℕ) : Decidable (Denotes t selector i) :=
  inferInstanceAs (Decidable (_ ∧ _ ∧ _ ∧ _))

theorem selToLdtIndex_ok {t : DescriptorTable} {selector : Selector} {i : ℕ} (h : Denotes t selector i) :
    selToLdtIndex selector t = .ok i := by
  obtain ⟨hti, rfl, hlt, hused⟩ := h
  exact if_pos ⟨hti, hlt, hused⟩

theorem selToLdtIndex_error {t : DescriptorTable} {selector : Selector} (h : ∀ i, ¬Denotes t selector i) :
    selToLdtIndex selector t = .error .invalidSelector := by
  apply if_neg
  rintro ⟨hti, hlt, hused⟩
  exact h _ ⟨hti, rfl, hlt, hused⟩

theorem denotes_indexToSelector {t : DescriptorTable} {i : ℕ} (hlt : i < descriptorTableSup) (hused : (t i).access ≠ 0) :
    Denotes t (indexToSelector i) i := by
  have hbound : i < 8192 := Nat.lt_trans hlt (by decide)
  refine ⟨?_, by rw [toNat_indexToSelector hbound, Nat.mul_div_cancel _ (by decide)], hlt, hused⟩
  apply BitVec.eq_of_toNat_eq
  rw [BitVec.toNat_and, toNat_indexToSelector hbound]
  have hbit : i * 8 &&& 2 ^ 2 = 0 := by
    rw [Nat.and_two_pow, Nat.testBit_eq_decide_div_mod_eq]
    have hmod : i * 8 / 4 % 2 = 0 := by omega
    simp [hmod]
  exact hbit

theorem Denotes.unique {t t' : DescriptorTable} {selector : Selector} {i j : ℕ} (h : Denotes t selector i)
    (h' : Denotes t' selector j) : i = j := h.2.1.symm.trans h'.2.1

theorem modifyDescriptor_ok {t : DescriptorTable} {selector : Selector} {i : ℕ} (h : Denotes t selector i)
    (f : Descriptor → Descriptor) : modifyDescriptor f selector t = (.ok 0, Function.update t i (f (t i))) := by
  rw [modifyDescriptor, selToLdtIndex_ok h]

theorem modifyDescriptor_error {t : DescriptorTable} {selector : Selector} (h : ∀ i, ¬Denotes t selector i)
    (f : Descriptor → Descriptor) : modifyDescriptor f selector t = (.error .invalidSelector, t) := by
  rw [modifyDescriptor, selToLdtIndex_error h]

end FreeDos32.Dpmi
