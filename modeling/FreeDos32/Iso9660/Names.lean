import FreeDos32.Iso9660.Find

namespace FreeDos32.Iso9660

open Kernel (dword)

variable {src src' : ℕ → Byte} {c : Byte} {n size i j : ℕ} {wildcards : Bool} {e : Errno} {template : List Byte}
  {attr : ℕ} {dr dr' : DirRecord}

theorem memrchr_congr (h : ∀ i < n, src i = src' i) : memrchr src c n = memrchr src' c n := by
  induction n with
  | zero => rfl
  | succ n ih =>
    rw [memrchr, memrchr, h n (Nat.lt_succ_self n), ih fun i hi => h i (Nat.lt_succ_of_lt hi)]

theorem memrchr_some (h : memrchr src c n = some i) : i < n ∧ src i = c := by
  induction n with
  | zero => cases h
  | succ n ih =>
    rw [memrchr] at h
    split at h
    · next hc =>
      cases h
      exact ⟨Nat.lt_succ_self _, hc⟩
    · exact ⟨Nat.lt_succ_of_lt (ih h).1, (ih h).2⟩

theorem buildFcbNamePart_congr (h : ∀ i < n, src i = src' i) :
    buildFcbNamePart wildcards size src n = buildFcbNamePart wildcards size src' n := by
  induction size generalizing src src' n with
  | zero =>
    by_cases hn : n = 0
    · rw [buildFcbNamePart, buildFcbNamePart, if_pos (.inr hn), if_pos (.inr hn)]
    · rw [buildFcbNamePart, buildFcbNamePart, h 0 (by omega)]
  | succ size ih =>
    by_cases hn : n = 0
    · rw [buildFcbNamePart, buildFcbNamePart, if_pos (.inr hn), if_pos (.inr hn)]
    · rw [buildFcbNamePart, buildFcbNamePart, h 0 (by omega),
        ih (n := n - 1) fun i hi => h (i + 1) (by omega)]

theorem buildFcbNamePart_error (h : buildFcbNamePart wildcards size src n = .error e) : e = .einval := by
  induction size generalizing src n with
  | zero =>
    rw [buildFcbNamePart] at h
    split at h
    · cases h
    · split at h
      · cases h
      · split at h <;> cases h
        rfl
  | succ size ih =>
    rw [buildFcbNamePart] at h
    split at h
    · cases h
    · split at h
      · cases h
      · split at h
        · cases h
          rfl
        · cases hrest : buildFcbNamePart wildcards size (fun i => src (i + 1)) (n - 1) with
          | error e' =>
            rw [hrest] at h
            cases h
            exact ih hrest
          | ok s =>
            rw [hrest] at h
            cases h

theorem buildFcbName_congr (hsep : ∀ i j, i < n → j < i → src i = 0x2E → src j ≠ 0x3B) (hn : n < 2 ^ 32)
    (h : ∀ i < n, src i = src' i) : buildFcbName src n wildcards = buildFcbName src' n wildcards := by
  have hone : n = 1 ∧ (src 0 = 0x2E ∨ src 0 = 0) ↔ n = 1 ∧ (src' 0 = 0x2E ∨ src' 0 = 0) := by
    apply and_congr_right
    intro hn
    rw [h 0 (by omega)]
  have htwo : n = 2 ∧ src 0 = 0x2E ∧ src 1 = 0x2E ∨ n = 1 ∧ src 0 = 1 ↔
      n = 2 ∧ src' 0 = 0x2E ∧ src' 1 = 0x2E ∨ n = 1 ∧ src' 0 = 1 := by
    apply or_congr
    · apply and_congr_right
      intro hn
      rw [h 0 (by omega), h 1 (by omega)]
    · apply and_congr_right
      intro hn
      rw [h 0 (by omega)]
  have hdot : memrchr src 0x2E n = memrchr src' 0x2E n := memrchr_congr h
  have hsemi : memrchr src 0x3B n = memrchr src' 0x3B n := memrchr_congr h
  have hle : (memrchr src' 0x3B n).getD n ≤ n := by
    cases hj : memrchr src' 0x3B n with
    | none => exact Nat.le_refl n
    | some j => exact Nat.le_of_lt (memrchr_some hj).1
  rw [buildFcbName, buildFcbName]
  apply if_congr hone rfl
  apply if_congr htwo rfl
  rw [hdot, hsemi]
  cases hi : memrchr src' 0x2E n with
  | none =>
    dsimp only
    rw [buildFcbNamePart_congr fun i hi => h i (Nat.lt_of_lt_of_le hi hle)]
  | some i =>
    obtain ⟨hlt, hc⟩ := memrchr_some hi
    have hge : i + 1 ≤ (memrchr src' 0x3B n).getD n := by
      cases hj : memrchr src' 0x3B n with
      | none => exact hlt
      | some j =>
        obtain ⟨hjlt, hjc⟩ := memrchr_some hj
        by_contra hlt'
        have hne : j ≠ i := by
          rintro rfl
          rw [hc] at hjc
          exact absurd hjc (by decide)
        exact hsep i j hlt (by change ¬i + 1 ≤ j at hlt'; omega) ((h i hlt).trans hc) ((h j hjlt).trans hjc)
    have hsize : dword ((memrchr src' 0x3B n).getD n + 2 ^ 32 - (i + 1)) = (memrchr src' 0x3B n).getD n - (i + 1) := by
      unfold dword
      omega
    dsimp only
    rw [hsize, buildFcbNamePart_congr fun k hk => h k (Nat.lt_trans hk hlt),
      buildFcbNamePart_congr fun k hk => h (i + 1 + k) (by omega)]

theorem buildFcbName_error (h : buildFcbName src n wildcards = .error e) : e = .einval := by
  rw [buildFcbName] at h
  split at h
  · cases h
  · split at h
    · cases h
    · simp only [bind, Except.bind, pure, Except.pure] at h
      cases hdot : memrchr src 0x2E n with
      | none =>
        simp only [hdot] at h
        cases hname : buildFcbNamePart wildcards 8 src ((memrchr src 0x3B n).getD n) with
        | error e' =>
          simp only [hname, Except.error.injEq] at h
          rw [← h, buildFcbNamePart_error hname]
        | ok name =>
          simp only [hname] at h
          split at h <;> cases h
          rfl
      | some dot =>
        simp only [hdot] at h
        cases hname : buildFcbNamePart wildcards 8 src dot with
        | error e' =>
          simp only [hname, Except.error.injEq] at h
          rw [← h, buildFcbNamePart_error hname]
        | ok name =>
          simp only [hname] at h
          cases hext : buildFcbNamePart wildcards 3 (fun i => src (dot + 1 + i))
              (dword ((memrchr src 0x3B n).getD n + 2 ^ 32 - (dot + 1))) with
          | error e' =>
            simp only [hext, Except.error.injEq] at h
            rw [← h, buildFcbNamePart_error hext]
          | ok extension =>
            simp only [hext] at h
            split at h <;> cases h
            rfl

structure Alike (dr dr' : DirRecord) : Prop where
  flags : dr.flags = dr'.flags
  lenFi : dr.lenFi = dr'.lenFi
  fileId : ∀ i < dr'.lenFi, dr.fileId i = dr'.fileId i

theorem selects_congr (h : Alike dr dr') (hn : dr'.lenFi < 2 ^ 32)
    (hsep : ∀ i j, i < dr'.lenFi → j < i → dr'.fileId i = 0x2E → dr'.fileId j ≠ 0x3B) :
    selects template attr dr = selects template attr dr' := by
  rw [selects, selects, h.flags, h.lenFi]
  rw [← buildFcbName_congr hsep hn fun i hi => (h.fileId i hi).symm]

theorem selects_error (h : selects template attr dr = .error e) : e = .einval := by
  rw [selects] at h
  split at h
  · cases h
  · cases hname : buildFcbName dr.fileId dr.lenFi false with
    | error e' =>
      rw [hname] at h
      cases h
      exact buildFcbName_error hname
    | ok fcbname =>
      rw [hname] at h
      cases h

end FreeDos32.Iso9660
