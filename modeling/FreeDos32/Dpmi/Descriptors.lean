import FreeDos32.Dpmi.Ldtmanag
import Mathlib.Tactic.IntervalCases

namespace FreeDos32.Dpmi

section Allocation

/-- The call takes a run of descriptors that were free and uses no others; it fails only when there is none, and then it
changes nothing. -/
def AllocatesRun (numSelectors : BitVec 16) (t : DescriptorTable) : Prop :=
  match fd32AllocateDescriptors numSelectors t with
  | (.ok selector, t') => ∃ i, selector = indexToSelector i ∧ descriptorTableInf ≤ i ∧
      i + numSelectors.toNat ≤ descriptorTableSup ∧ FreeRun t i numSelectors.toNat ∧
      (∀ k, i ≤ k → k < i + numSelectors.toNat → (t' k).access ≠ 0) ∧
      ∀ k, ¬(i ≤ k ∧ k < i + numSelectors.toNat) → t' k = t k
  | (.error _, t') => t' = t ∧ ∀ i, descriptorTableInf ≤ i → i + numSelectors.toNat ≤ descriptorTableSup →
      ¬FreeRun t i numSelectors.toNat

/-- Some run of free descriptors ends before the end of the table, or none does that ends there. -/
def NotOnlyLast (numSelectors : BitVec 16) (t : DescriptorTable) : Prop :=
  (∃ i, descriptorTableInf ≤ i ∧ i + numSelectors.toNat < descriptorTableSup ∧ FreeRun t i numSelectors.toNat) ∨
    ¬(descriptorTableInf + numSelectors.toNat ≤ descriptorTableSup ∧
      FreeRun t (descriptorTableSup - numSelectors.toNat) numSelectors.toNat)

theorem allocatesRun_of_ok {numSelectors : BitVec 16} {t : DescriptorTable} {i : ℕ} (hi : descriptorTableInf ≤ i)
    (hlt : i + numSelectors.toNat < descriptorTableSup) (hfree : FreeRun t i numSelectors.toNat)
    (hrun : fd32AllocateDescriptors numSelectors t = (.ok (indexToSelector i), placeLoop numSelectors.toNat i t)) :
    AllocatesRun numSelectors t := by
  have hbound : i + numSelectors.toNat ≤ 8192 := Nat.le_trans (Nat.le_of_lt hlt) (by decide)
  rw [AllocatesRun, hrun]
  refine ⟨i, rfl, hi, Nat.le_of_lt hlt, hfree, fun k hk hk' => ?_, fun k hk => ?_⟩
  · rw [placeLoop_apply hbound, if_pos ⟨hk, hk'⟩]
    simp [freshDescriptor]
  · rw [placeLoop_apply hbound, if_neg hk]

/-- An allocation finds a run if there is one, unless the only ones end at the end of the table. -/
theorem allocatesRun_iff (numSelectors : BitVec 16) (hpos : 1 ≤ numSelectors.toNat) (t : DescriptorTable) :
    AllocatesRun numSelectors t ↔ NotOnlyLast numSelectors t := by
  obtain ⟨i, hi, hlt, hfree, hrun⟩ | ⟨hnone, hrun⟩ := allocate_cases numSelectors t
  · apply iff_of_true
    · exact allocatesRun_of_ok hi hlt hfree hrun
    · exact .inl ⟨i, hi, hlt, hfree⟩
  · rw [AllocatesRun, hrun]
    constructor
    · rintro ⟨-, hno⟩
      right
      rintro ⟨hroom, hlast⟩
      exact hno _ (by omega) (by omega) hlast
    · intro h
      refine ⟨rfl, fun i hi hle hfree => ?_⟩
      by_cases hlt : i + numSelectors.toNat < descriptorTableSup
      · exact hnone i hi hlt hfree
      · have hend : i = descriptorTableSup - numSelectors.toNat := by omega
        subst hend
        obtain ⟨j, hj, hjlt, hjfree⟩ | hno := h
        · exact hnone j hj hjlt hjfree
        · exact hno ⟨by omega, hfree⟩

def emptyTable : DescriptorTable := fun _ => ⟨0, 0, 0, 0, 0, 0⟩

theorem freeRun_emptyTable (i n : ℕ) : FreeRun emptyTable i n := fun _ _ _ => rfl

theorem allocatesRun_iff_one : AllocatesRun 1 emptyTable := by
  apply (allocatesRun_iff 1 (by decide) emptyTable).mpr
  exact .inl ⟨12, by decide, by decide, freeRun_emptyTable 12 1⟩

/-- All of the descriptors from 12 on are free, and a request for as many of them fails. -/
theorem allocatesRun_not_all : ¬AllocatesRun 244 emptyTable := by
  intro h
  obtain ⟨i, hi, hlt, -⟩ | ⟨-, hrun⟩ := allocate_cases 244 emptyTable
  · have hnum : (244 : BitVec 16).toNat = 244 := rfl
    rw [hnum] at hlt
    unfold descriptorTableInf at hi
    unfold descriptorTableSup at hlt
    omega
  · rw [AllocatesRun, hrun] at h
    exact h.2 12 (by decide) (by decide) (freeRun_emptyTable 12 _)

end Allocation

section Segments

variable {d : Descriptor} {base limit : BitVec 32} {t : DescriptorTable} {selector : Selector} {i : ℕ}

theorem base_setBase (d : Descriptor) (base : BitVec 32) : (d.setBase base).base = base := by
  have h := base.isLt
  apply BitVec.eq_of_toNat_eq
  simp only [Descriptor.base, Descriptor.setBase, BitVec.toNat_add, BitVec.toNat_shiftLeft, BitVec.toNat_setWidth,
    BitVec.toNat_ushiftRight, Nat.shiftLeft_eq, Nat.shiftRight_eq_div_pow]
  omega

theorem low_nibble (g k : BitVec 8) : (g &&& 0x70#8 ||| k) &&& 0x0F#8 = k &&& 0x0F#8 := by
  ext i hi
  interval_cases i <;> simp

/-- The 16/32-bit and the available bit are left as they are. -/
theorem gran_bits {k : BitVec 8} (g : BitVec 8) (h : k &&& 0x50#8 = 0) : (g &&& 0x70#8 ||| k) &&& 0x50#8 = g &&& 0x50#8 := by
  calc (g &&& 0x70#8 ||| k) &&& 0x50#8 = g &&& 0x50#8 ||| k &&& 0x50#8 := by
        ext i hi
        interval_cases i <;> simp
    _ = g &&& 0x50#8 := by
        rw [h]
        exact BitVec.or_zero

theorem toNat_limit (d : Descriptor) : d.limit.toNat = (d.gran &&& 0x0F#8).toNat * 2 ^ 16 + d.limLo.toNat := by
  have hlo := d.limLo.isLt
  have hmask : (d.gran.setWidth 32 &&& 0x000F#32).toNat = (d.gran &&& 0x0F#8).toNat := by
    rw [BitVec.toNat_and, BitVec.toNat_and, BitVec.toNat_setWidth_of_le (by decide)]
    rfl
  have hlt : (d.gran &&& 0x0F#8).toNat < 16 := by
    rw [BitVec.toNat_and]
    exact Nat.and_lt_two_pow _ (n := 4) (by decide)
  simp only [Descriptor.limit, BitVec.toNat_add, BitVec.toNat_shiftLeft, hmask, BitVec.toNat_setWidth,
    Nat.shiftLeft_eq]
  omega

theorem limit_lt (d : Descriptor) : d.limit.toNat < 2 ^ 20 := by
  have hlo := d.limLo.isLt
  have hlt : (d.gran &&& 0x0F#8).toNat < 16 := by
    rw [BitVec.toNat_and]
    exact Nat.and_lt_two_pow _ (n := 4) (by decide)
  rw [toNat_limit]
  omega

theorem nibble_bits : ∀ k : BitVec 8, k.toNat < 16 → k &&& 0x50#8 = 0 ∧ (0x80#8 ||| k) &&& 0x50#8 = 0 := by decide

theorem setLimit_small (h : limit.toNat < 2 ^ 20) (d : Descriptor) : d.setLimit limit =
    { d with limLo := limit.setWidth 16, gran := d.gran &&& 0x70#8 ||| (limit >>> 16).setWidth 8 } := by
  have hk : ((limit >>> 16).setWidth 16 : BitVec 16).toNat ≤ 0xF := by
    simp only [BitVec.toNat_setWidth, BitVec.toNat_ushiftRight, Nat.shiftRight_eq_div_pow]
    omega
  have hwidth : ((limit >>> 16).setWidth 16 : BitVec 16).setWidth 8 = (limit >>> 16).setWidth 8 := by
    apply BitVec.eq_of_toNat_eq
    simp only [BitVec.toNat_setWidth]
    omega
  simp only [Descriptor.setLimit, if_neg (Nat.not_lt.mpr hk), hwidth]

theorem limit_setLimit (h : limit.toNat < 2 ^ 20) (d : Descriptor) : (d.setLimit limit).limit = limit := by
  have hk : ((limit >>> 16).setWidth 8 : BitVec 8).toNat = limit.toNat / 2 ^ 16 := by
    simp only [BitVec.toNat_setWidth, BitVec.toNat_ushiftRight, Nat.shiftRight_eq_div_pow]
    omega
  have hand : ((limit >>> 16).setWidth 8 &&& 0x0F#8 : BitVec 8).toNat = limit.toNat / 2 ^ 16 % 16 := by
    rw [BitVec.toNat_and, hk]
    exact Nat.and_two_pow_sub_one_eq_mod _ 4
  apply BitVec.eq_of_toNat_eq
  rw [toNat_limit, setLimit_small h]
  dsimp only
  rw [low_nibble, hand, BitVec.toNat_setWidth]
  omega

theorem setLimit_gran (limit : BitVec 32) (d : Descriptor) : (d.setLimit limit).gran &&& 0x50#8 = d.gran &&& 0x50#8 := by
  have hlt := limit.isLt
  unfold Descriptor.setLimit
  dsimp only
  split
  · apply gran_bits
    rw [BitVec.setWidth_or]
    apply (nibble_bits _ _).2
    simp only [BitVec.toNat_setWidth, BitVec.toNat_ushiftRight, Nat.shiftRight_eq_div_pow]
    omega
  · next hk =>
    apply gran_bits
    apply (nibble_bits _ _).1
    dsimp only
    rw [BitVec.toNat_setWidth]
    have hle := Nat.mod_le ((limit >>> 16).setWidth 16 : BitVec 16).toNat (2 ^ 8)
    omega

/-- Both setters, one after the other. -/
def setSegment (limitFirst : Bool) (selector : Selector) (base limit : BitVec 32) (t : DescriptorTable) : DescriptorTable :=
  if limitFirst then (fd32SetSegmentBaseAddress selector base (fd32SetSegmentLimit selector limit t).2).2
  else (fd32SetSegmentLimit selector limit (fd32SetSegmentBaseAddress selector base t).2).2

/-- The getters return what has been set, and the other fields are as they were. -/
structure RoundTrip (selector : Selector) (base limit : BitVec 32) (t t' : DescriptorTable) : Prop where
  base : fd32GetSegmentBaseAddress selector t' = .ok base
  limit : fd32GetSegmentLimit selector t' = .ok limit
  access : ∀ i, Denotes t selector i → (t' i).access = (t i).access
  gran : ∀ i, Denotes t selector i → (t' i).gran &&& 0x50#8 = (t i).gran &&& 0x50#8

theorem Denotes.update {f : Descriptor → Descriptor} (h : Denotes t selector i) (hf : (f (t i)).access = (t i).access) :
    Denotes (Function.update t i (f (t i))) selector i := by
  obtain ⟨hti, hidx, hlt, hused⟩ := h
  refine ⟨hti, hidx, hlt, ?_⟩
  rwa [Function.update_self, hf]

theorem setSegment_eq (h : Denotes t selector i) (base limit : BitVec 32) (limitFirst : Bool) :
    setSegment limitFirst selector base limit t = Function.update t i (((t i).setLimit limit).setBase base) := by
  have hlimit : Denotes (Function.update t i ((t i).setLimit limit)) selector i := h.update rfl
  have hbase : Denotes (Function.update t i ((t i).setBase base)) selector i := h.update rfl
  cases limitFirst with
  | true =>
    simp only [setSegment, if_true, fd32SetSegmentLimit, fd32SetSegmentBaseAddress, modifyDescriptor_ok h,
      modifyDescriptor_ok hlimit, Function.update_self, Function.update_idem]
  | false =>
    simp only [setSegment, Bool.false_eq_true, if_false, fd32SetSegmentLimit, fd32SetSegmentBaseAddress,
      modifyDescriptor_ok h, modifyDescriptor_ok hbase, Function.update_self, Function.update_idem]
    rfl

/-- What is set is what is got, in either order, for the limits below 1 MiB and for no others. -/
theorem segment_roundTrip_iff (t : DescriptorTable) (selector : Selector) (i : ℕ) (h : Denotes t selector i)
    (base limit : BitVec 32) (limitFirst : Bool) :
    RoundTrip selector base limit t (setSegment limitFirst selector base limit t) ↔ limit.toNat < 2 ^ 20 := by
  have hset : Denotes (Function.update t i (((t i).setLimit limit).setBase base)) selector i :=
    h.update (f := fun d => (d.setLimit limit).setBase base) rfl
  rw [setSegment_eq h]
  have hlimit : fd32GetSegmentLimit selector (Function.update t i (((t i).setLimit limit).setBase base)) =
      .ok ((t i).setLimit limit).limit := by
    rw [fd32GetSegmentLimit, selToLdtIndex_ok hset, Except.map, Function.update_self]
    rfl
  constructor
  · intro hround
    have heq := Except.ok.inj (hlimit.symm.trans hround.limit)
    rw [← heq]
    exact limit_lt _
  · intro hsmall
    constructor
    · rw [fd32GetSegmentBaseAddress, selToLdtIndex_ok hset, Except.map, Function.update_self, base_setBase]
    · rw [hlimit, limit_setLimit hsmall]
    · intro j hj
      obtain rfl := h.unique hj
      rw [Function.update_self]
      rfl
    · intro j hj
      obtain rfl := h.unique hj
      rw [Function.update_self]
      exact setLimit_gran limit (t i)

/-- The table with one descriptor that is in use. -/
def oneUsed : DescriptorTable := Function.update emptyTable 12 freshDescriptor

theorem denotes_oneUsed : Denotes oneUsed 96 12 := by decide

theorem segment_roundTrip_iff_bios :
    RoundTrip 96 0x000F0000 0xFFFF oneUsed (setSegment true 96 0x000F0000 0xFFFF oneUsed) :=
  (segment_roundTrip_iff oneUsed 96 12 (by decide) 0x000F0000 0xFFFF true).mpr (by decide)

/-- A limit of 16 MiB less a byte is read back as 4095. -/
theorem segment_roundTrip_pages : Denotes oneUsed 96 12 ∧ (0x00FFFFFF : BitVec 32) &&& 0xFFF = 0xFFF ∧
    ¬RoundTrip 96 0 0x00FFFFFF oneUsed (setSegment false 96 0 0x00FFFFFF oneUsed) ∧
    fd32GetSegmentLimit 96 (setSegment false 96 0 0x00FFFFFF oneUsed) = .ok 0xFFF := by
  have hget : fd32GetSegmentLimit 96 (setSegment false 96 0 0x00FFFFFF oneUsed) = .ok 0xFFF := by decide
  refine ⟨denotes_oneUsed, by decide, fun h => ?_, hget⟩
  have heq := h.limit
  rw [hget] at heq
  exact absurd heq (by decide)

end Segments

end FreeDos32.Dpmi
