import FreeDos32.Library.Memory

namespace FreeDos32.Kernel

open Memory

variable {m : Memory} {dest src : BitVec 32} {i k n size : ℕ}

/-- `dest_p64[i] = src_p64[i]` -/
def copyQword (dest src i : BitVec 32) (m : Memory) : Memory := m.put (dest + 8 * i) (m.bytes (src + 8 * i) 8)

/-- `dest_p8[i] = src_p8[i]` -/
def copyByte (dest src i : BitVec 32) (m : Memory) : Memory := m.put (dest + i) [m (src + i)]

/-- `for (i = from; i < to; i++)` -/
def forLoop (body : BitVec 32 → Memory → Memory) (first last : BitVec 32) (m : Memory) : Memory :=
  (List.range' first.toNat (last.toNat - first.toNat)).foldl (fun m i => body (BitVec.ofNat 32 i) m) m

def copyEight (dest src i : BitVec 32) (m : Memory) : Memory :=
  let j := i <<< 3
  [0#32, 1#32, 2#32, 3#32, 4#32, 5#32, 6#32, 7#32].foldl (fun m c => copyQword dest src (j + c) m) m

def impMemcpy (dest src size : BitVec 32) (memory : Memory) : BitVec 32 × Memory :=
  let n := size >>> 3
  -- copy 8 uint64_t one time
  let m := n >>> 3
  let memory := forLoop (copyEight dest src) 0#32 m memory
  -- remainder 1
  let memory := forLoop (copyQword dest src) (n &&& ~~~7#32) n memory
  -- remainder 2
  let memory := forLoop (copyByte dest src) (size &&& ~~~7#32) size memory
  (dest, memory)

/-- A loop whose body copies the `k` bytes with the index of the round. -/
theorem forLoop_copied {body : BitVec 32 → Memory → Memory} {first last : BitVec 32} (hle : first.toNat ≤ last.toNat)
    (hbody : ∀ i < last.toNat, body (BitVec.ofNat 32 i) (m.copied dest src (k * i)) = m.copied dest src (k * (i + 1))) :
    forLoop body first last (m.copied dest src (k * first.toNat)) = m.copied dest src (k * last.toNat) := by
  have hrun : ∀ n i, i + n ≤ last.toNat →
      (List.range' i n).foldl (fun m i => body (BitVec.ofNat 32 i) m) (m.copied dest src (k * i)) =
        m.copied dest src (k * (i + n)) := by
    intro n
    induction n with
    | zero => exact fun i _ => rfl
    | succ n ih =>
      intro i hi
      rw [List.range'_succ, List.foldl_cons, hbody i (by omega), ih (i + 1) (by omega), Nat.add_assoc, Nat.add_comm 1 n]
  rw [forLoop, hrun _ _ (by omega), Nat.add_sub_of_le hle]

theorem toNat_and_not_seven (x : BitVec 32) : (x &&& ~~~7#32).toNat = 8 * (x.toNat / 8) := by
  have hmask : ∀ i < 32, (~~~7#32).getLsbD i = decide (3 ≤ i) := by decide
  have hshift : x &&& ~~~7#32 = (x >>> 3) <<< 3 := by
    apply BitVec.eq_of_getLsbD_eq
    intro i hi
    rw [BitVec.getLsbD_and, hmask i hi, BitVec.getLsbD_shiftLeft, BitVec.getLsbD_ushiftRight]
    by_cases h3 : 3 ≤ i
    · simp [h3, hi]
    · simp [h3, Nat.lt_of_not_le h3]
  rw [hshift, BitVec.toNat_shiftLeft, BitVec.toNat_ushiftRight, Nat.shiftRight_eq_div_pow, Nat.shiftLeft_eq]
  omega

section Pieces

variable (hno : ∀ p, Within src size p → ¬Within dest size p) (hs : size ≤ 2 ^ 32)
include hno hs

theorem copyQword_copied (hi : 8 * i + 8 ≤ size) :
    copyQword dest src (BitVec.ofNat 32 i) (m.copied dest src (8 * i)) = m.copied dest src (8 * (i + 1)) := by
  have haddr : (8 : BitVec 32) * BitVec.ofNat 32 i = BitVec.ofNat 32 (8 * i) := (BitVec.ofNat_mul 8 i).symm
  rw [copyQword, haddr]
  exact put_bytes_copied hno hi hs

theorem copyByte_copied (hi : i < size) :
    copyByte dest src (BitVec.ofNat 32 i) (m.copied dest src i) = m.copied dest src (i + 1) := by
  have hbyte := put_bytes_copied (m := m) (k := 1) hno hi hs
  rwa [bytes, List.range_one, List.map_singleton, BitVec.add_zero] at hbyte

theorem copyEight_copied (hi : 64 * i + 64 ≤ size) :
    copyEight dest src (BitVec.ofNat 32 i) (m.copied dest src (64 * i)) = m.copied dest src (64 * (i + 1)) := by
  have hj : BitVec.ofNat 32 i <<< 3 = BitVec.ofNat 32 (8 * i) := by
    apply BitVec.eq_of_toNat_eq
    rw [BitVec.toNat_shiftLeft, BitVec.toNat_ofNat, BitVec.toNat_ofNat, Nat.shiftLeft_eq]
    omega
  have hstep : ∀ c < 8, copyQword dest src (BitVec.ofNat 32 (8 * i) + BitVec.ofNat 32 c)
      (m.copied dest src (64 * i + 8 * c)) = m.copied dest src (64 * i + 8 * (c + 1)) := by
    intro c hc
    have hq := copyQword_copied (m := m) (i := 8 * i + c) hno hs (by omega)
    have hfirst : 8 * (8 * i + c) = 64 * i + 8 * c := by omega
    have hnext : 8 * (8 * i + c + 1) = 64 * i + 8 * (c + 1) := by omega
    rwa [hfirst, hnext, BitVec.ofNat_add] at hq
  have h0 := hstep 0 (by decide)
  rw [Nat.mul_zero, Nat.add_zero] at h0
  rw [copyEight, hj]
  simp only [List.foldl_cons, List.foldl_nil]
  rw [h0, hstep 1 (by decide), hstep 2 (by decide), hstep 3 (by decide), hstep 4 (by decide), hstep 5 (by decide),
    hstep 6 (by decide), hstep 7 (by decide)]
  congr 1

end Pieces

/-- Each of the three loops goes on where the one before it has ended. -/
theorem impMemcpy_eq (m : Memory) (dest src size : BitVec 32)
    (hno : ∀ p, Within src size.toNat p → ¬Within dest size.toNat p) :
    impMemcpy dest src size m = (dest, m.copied dest src size.toNat) := by
  have hs : size.toNat ≤ 2 ^ 32 := Nat.le_of_lt size.isLt
  have hn : (size >>> 3).toNat = size.toNat / 8 := by rw [BitVec.toNat_ushiftRight, Nat.shiftRight_eq_div_pow]
  have hm : (size >>> 3 >>> 3).toNat = size.toNat / 64 := by
    rw [BitVec.toNat_ushiftRight, hn, Nat.shiftRight_eq_div_pow, Nat.div_div_eq_div_mul]
  have hrest := toNat_and_not_seven (size >>> 3)
  have hrest' := toNat_and_not_seven size
  rw [hn, Nat.div_div_eq_div_mul] at hrest
  have hblocks : forLoop (copyEight dest src) 0#32 (size >>> 3 >>> 3) (m.copied dest src (64 * (0#32).toNat)) =
      m.copied dest src (64 * (size >>> 3 >>> 3).toNat) :=
    forLoop_copied (Nat.zero_le _) fun i hi => copyEight_copied hno hs (by omega)
  have hqwords : forLoop (copyQword dest src) (size >>> 3 &&& ~~~7#32) (size >>> 3)
      (m.copied dest src (8 * (size >>> 3 &&& ~~~7#32).toNat)) = m.copied dest src (8 * (size >>> 3).toNat) :=
    forLoop_copied (by omega) fun i hi => copyQword_copied hno hs (by omega)
  have hbytes : forLoop (copyByte dest src) (size &&& ~~~7#32) size (m.copied dest src (1 * (size &&& ~~~7#32).toNat)) =
      m.copied dest src (1 * size.toNat) := by
    apply forLoop_copied (by omega)
    intro i hi
    rw [Nat.one_mul, Nat.one_mul]
    exact copyByte_copied hno hs hi
  have hone : 64 * (size >>> 3 >>> 3).toNat = 8 * (size >>> 3 &&& ~~~7#32).toNat := by omega
  have htwo : 8 * (size >>> 3).toNat = 1 * (size &&& ~~~7#32).toNat := by omega
  rw [hone, BitVec.toNat_zero, Nat.mul_zero, copied_zero] at hblocks
  rw [htwo] at hqwords
  rw [Nat.one_mul size.toNat] at hbytes
  rw [impMemcpy, hblocks, hqwords, hbytes]

/-- `imp_memcpy` copies the bytes and changes nothing else. -/
theorem impMemcpy_copies (m : Memory) (dest src size : BitVec 32)
    (hno : ∀ p, Within src size.toNat p → ¬Within dest size.toNat p) :
    (impMemcpy dest src size m).1 = dest ∧
      (∀ i < size.toNat, (impMemcpy dest src size m).2 (dest + BitVec.ofNat 32 i) = m (src + BitVec.ofNat 32 i)) ∧
      ∀ p, ¬Within dest size.toNat p → (impMemcpy dest src size m).2 p = m p := by
  rw [impMemcpy_eq m dest src size hno]
  exact ⟨rfl, fun i hi => copied_add hi, fun p hp => copied_of_not_within hp⟩

/-- One round of the first loop, three of the second one and five of the third one. -/
theorem impMemcpy_copies_sample : (impMemcpy 0x2000 0x1000 93 fun p => p.setWidth 8).2 0x205C = 0x5C ∧
    (impMemcpy 0x2000 0x1000 93 fun p => p.setWidth 8).2 0x205D = 0x5D := by
  obtain ⟨-, hcopied, hother⟩ := impMemcpy_copies (fun p => p.setWidth 8) 0x2000 0x1000 93 fun p hp => by
    unfold Within at hp ⊢
    bv_omega
  exact ⟨hcopied 92 (by decide), hother 0x205D (by decide)⟩

end FreeDos32.Kernel
