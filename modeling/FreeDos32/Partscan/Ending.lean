import FreeDos32.Library.Leaving
import FreeDos32.Partscan.Result

namespace FreeDos32.Partscan

open Relation

instance : Finite Dword := Finite.of_injective BitVec.toFin fun _ _ => BitVec.eq_of_toFin_eq

variable {d : Device} {read : Dword → Except Errno Block} {name : List Char} {env : Env} {start r : Dword} {b : Block}
  {n fuel : ℕ}

/-- The link of the logical table at `start + r`; there is none where the sector cannot be read. -/
def link (read : Dword → Except Errno Block) (start r : Dword) : Option Dword :=
  match read (start + r) with
  | .error _ => none
  | .ok b => ((tableOf b).find? PartTabl.isExtended).map PartTabl.lbaStart

def Ends (d : Device) (read : Dword → Except Errno Block) (name : List Char) (env : Env) : Prop :=
  ∃ fuel, (psScanpart fuel d read name env).isSome

theorem link_of_ok (hb : read (start + r) = .ok b) :
    link read start r = ((tableOf b).find? PartTabl.isExtended).map PartTabl.lbaStart := by
  simp only [link, hb]

theorem link_of_error {e : Errno} (hb : read (start + r) = .error e) : link read start r = none := by
  simp only [link, hb]

theorem leaves_of_extLoop (hb : read (start + r) = .ok b)
    (h : (extLoop d read name start fuel r n (tableOf b) env).isSome) : Leaves (link read start) r := by
  induction fuel generalizing r b n env with
  | zero => cases h
  | succ fuel ih =>
    rw [extLoop_succ] at h
    cases hfind : (tableOf b).find? PartTabl.isExtended with
    | none =>
      apply Leaves.stop
      rw [link_of_ok hb, hfind]
      rfl
    | some p =>
      have hlink : link read start r = some p.lbaStart := by
        rw [link_of_ok hb, hfind]
        rfl
      apply Leaves.step hlink
      cases hnext : read (start + p.lbaStart) with
      | error e => exact .stop (link_of_error hnext)
      | ok b' =>
        simp only [hfind, hnext] at h
        exact ih hnext h

theorem extLoop_of_leaves (h : Leaves (link read start) r) (hb : read (start + r) = .ok b) :
    ∃ fuel, (extLoop d read name start fuel r n (tableOf b) env).isSome := by
  induction h generalizing b n env with
  | @stop r hr =>
    refine ⟨1, ?_⟩
    rw [link_of_ok hb, Option.map_eq_none_iff] at hr
    rw [extLoop_succ, hr]
    rfl
  | @step r s hs _ ih =>
    rw [link_of_ok hb, Option.map_eq_some_iff] at hs
    obtain ⟨p, hp, rfl⟩ := hs
    cases hnext : read (start + p.lbaStart) with
    | error e =>
      refine ⟨1, ?_⟩
      rw [extLoop_succ, hp]
      simp only [hnext]
      rfl
    | ok b' =>
      obtain ⟨fuel, hfuel⟩ := ih hnext
      refine ⟨fuel + 1, ?_⟩
      rw [extLoop_succ, hp]
      simp only [hnext]
      exact hfuel

theorem psScanpart_isSome_iff (hgeo : d.heads * d.sects ≠ 0) :
    (psScanpart fuel d read name env).isSome ↔
      ∀ b p b', read 0 = .ok b → (tableOf b).find? PartTabl.isExtended = some p → (checkLba p d).lbaStart ≠ 0 →
        read (checkLba p d).lbaStart = .ok b' →
        (extLoop d read name (checkLba p d).lbaStart fuel 0 4 (tableOf b')
          (addPrimaries d name 0 (markActive (tableOf b)) env).2).isSome := by
  have hfind (b : Block) : (addPrimaries d name 0 (markActive (tableOf b)) env).1.find? PartTabl.isExtended =
      (tableOf b).find? PartTabl.isExtended := by
    rw [addPrimaries_eq, find_settle, find_markActive]
  rw [psScanpart, if_neg hgeo]
  cases hb : read 0 with
  | error e =>
    apply iff_of_true rfl
    intro b p b' h
    cases h
  | ok b =>
    simp only [hfind]
    cases hp : (tableOf b).find? PartTabl.isExtended with
    | none =>
      apply iff_of_true rfl
      rintro c p c' hc hp'
      cases hc
      rw [hp] at hp'
      cases hp'
    | some p =>
      cases hext : read (checkLba p d).lbaStart with
      | error e =>
        simp only [hext]
        apply iff_of_true rfl
        rintro c q c' hc hq _ hext'
        cases hc
        rw [hp] at hq
        cases hq
        rw [hext] at hext'
        cases hext'
      | ok b' =>
        simp only [hext]
        constructor
        · rintro h c q c' hc hq hne hext'
          cases hc
          rw [hp] at hq
          cases hq
          rw [hext] at hext'
          cases hext'
          rwa [if_neg hne] at h
        · intro h
          split
          · rfl
          · rename_i hne
            exact h b p b' rfl hp hne hext

theorem acyclic_of_ends (h : Ends d read name env) : d.heads * d.sects ≠ 0 ∧ ∀ b p, read 0 = .ok b →
    (tableOf b).find? PartTabl.isExtended = some p → (checkLba p d).lbaStart ≠ 0 →
      ∀ r, ReflTransGen (Next (link read (checkLba p d).lbaStart)) 0 r →
        ¬TransGen (Next (link read (checkLba p d).lbaStart)) r r := by
  obtain ⟨fuel, h⟩ := h
  have hzero (s : Dword) : read (s + 0) = read s := congrArg read (BitVec.add_zero s)
  have hgeo : d.heads * d.sects ≠ 0 := by
    intro hgeo
    rw [psScanpart, if_pos hgeo] at h
    cases h
  have hloop := (psScanpart_isSome_iff hgeo).mp h
  refine ⟨hgeo, fun b p hb hp hne => leaves_iff_acyclic.mp ?_⟩
  cases hext : read (checkLba p d).lbaStart with
  | error e => exact .stop (link_of_error ((hzero _).trans hext))
  | ok b' => exact leaves_of_extLoop ((hzero _).trans hext) (hloop b p b' hb hp hne hext)

/-- The scan ends if and only if its division does not fail and no table that is come to from the start of the extended
partition leads back to itself. -/
theorem psScanpart_ends_iff :
    Ends d read name env ↔ d.heads * d.sects ≠ 0 ∧ ∀ b p, read 0 = .ok b → (tableOf b).find? PartTabl.isExtended = some p →
      (checkLba p d).lbaStart ≠ 0 → ∀ r, ReflTransGen (Next (link read (checkLba p d).lbaStart)) 0 r →
        ¬TransGen (Next (link read (checkLba p d).lbaStart)) r r := by
  have hzero (s : Dword) : read (s + 0) = read s := congrArg read (BitVec.add_zero s)
  constructor
  · exact acyclic_of_ends
  · rintro ⟨hgeo, h⟩
    by_cases hall : ∃ b p b', read 0 = .ok b ∧ (tableOf b).find? PartTabl.isExtended = some p ∧
        (checkLba p d).lbaStart ≠ 0 ∧ read (checkLba p d).lbaStart = .ok b'
    · obtain ⟨b, p, b', hb, hp, hne, hext⟩ := hall
      have hleaves := leaves_iff_acyclic.mpr (h b p hb hp hne)
      obtain ⟨fuel, hfuel⟩ := extLoop_of_leaves (d := d) (n := 4) hleaves ((hzero _).trans hext)
      refine ⟨fuel, (psScanpart_isSome_iff hgeo).mpr fun c q c' hc hq _ hc' => ?_⟩
      obtain rfl : b = c := Except.ok.inj (hb.symm.trans hc)
      obtain rfl : p = q := Option.some.inj (hp.symm.trans hq)
      obtain rfl : b' = c' := Except.ok.inj (hext.symm.trans hc')
      exact hfuel
    · refine ⟨0, (psScanpart_isSome_iff hgeo).mpr fun b p b' hb hp hne hext => ?_⟩
      exact absurd ⟨b, p, b', hb, hp, hne, hext⟩ hall

/-- The second logical table leads back to the first one. -/
def loopRead (s : Dword) : Except Errno Block :=
  if s = 0 then .ok sampleMbr else if s = 2000 then .ok firstEbr
  else .ok (tableBlock [(0x06, 63, 800), (0x05, 0, 2000)])

theorem loopRead_not_ends :
    (∀ s, ∃ b, loopRead s = .ok b) ∧ sampleDisk.heads * sampleDisk.sects ≠ 0 ∧
      ¬Ends sampleDisk loopRead ['h', 'd', 'a'] ⟨fun _ => true, []⟩ := by
  refine ⟨?_, by decide, ?_⟩
  · intro s
    unfold loopRead
    split
    · exact ⟨_, rfl⟩
    · split <;> exact ⟨_, rfl⟩
  · intro h
    have hcycle := (acyclic_of_ends h).2 sampleMbr (entryAt sampleMbr 462) rfl (by decide) (by decide) 0 .refl
    apply hcycle
    apply TransGen.head (b := 1000) (by decide)
    exact .single (by decide)

end FreeDos32.Partscan
