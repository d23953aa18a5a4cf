import FreeDos32.Kernel.PmmRuns

namespace FreeDos32.Kernel

open Span

variable {given l l' : List Chunk} {mp mp' : Mempool}

theorem giveAll_separated (hl : Listed mp.chunks) (hs : Separated mp.chunks) (hok : ∀ r ∈ given, RegionOk r)
    (h : giveAll mp given = some mp') : Separated mp'.chunks := by
  induction given generalizing mp with
  | nil =>
    obtain rfl := Option.some.inj h
    exact hs
  | cons r rest ih =>
    obtain ⟨mp₁, h₁, h⟩ := Option.bind_eq_some_iff.mp h
    have hr := hok r List.mem_cons_self
    obtain ⟨n, hfreed, -⟩ := pmmFree_freed hl hr.stop_lt h₁
    exact ih (pmmFree_listed hl hr h₁) (hfreed.separated hl hs hr.header hr.stop_lt)
      (fun q hq => hok q (List.mem_cons_of_mem _ hq)) h

theorem giveAll_joined {x : ℕ} (hl : Listed mp.chunks) (hok : ∀ r ∈ given, RegionOk r ∧ r.start ≠ 0)
    (h : giveAll mp given = some mp') : Covers mp'.chunks x ↔ Covers mp.chunks x ∨ Covers given x := by
  induction given generalizing mp with
  | nil =>
    obtain rfl := Option.some.inj h
    simp [not_covers_nil]
  | cons r rest ih =>
    obtain ⟨mp₁, h₁, h⟩ := Option.bind_eq_some_iff.mp h
    obtain ⟨hr, hne⟩ := hok r List.mem_cons_self
    obtain ⟨n, hfreed, -⟩ := pmmFree_freed hl hr.stop_lt h₁
    rw [ih (pmmFree_listed hl hr h₁) (fun q hq => hok q (List.mem_cons_of_mem _ hq)) h, hfreed.joined hne x,
      covers_cons, or_assoc]

/-- The chunks are the maximal intervals of what the regions cover. -/
structure MaximalIntervals (l given : List Chunk) : Prop where
  separated : Separated l
  nonempty : ∀ p ∈ l, 0 < p.size
  covers : ∀ x, Covers l x ↔ Covers given x

theorem giveAll_maximal (hg : Given given) (hne : ∀ r ∈ given, r.start ≠ 0) :
    ∃ mp, giveAll pmmInit given = some mp ∧ MaximalIntervals mp.chunks given := by
  have hfree : ∀ r ∈ given, ∀ x, Covers pmmInit.chunks x → ¬r.Has x := fun r _ x hx => absurd hx (not_covers_nil x)
  have hnil : Separated pmmInit.chunks := List.Pairwise.nil
  obtain ⟨mp, h⟩ := giveAll_isSome .nil hg hfree
  refine ⟨mp, h, giveAll_separated .nil hnil hg.ok h, (giveAll_listed .nil hg.ok h).pos, fun x => ?_⟩
  rw [giveAll_joined .nil (fun r hr => ⟨hg.ok r hr, hne r hr⟩) h]
  exact or_iff_right (not_covers_nil x)

theorem Given.perm (hg : Given given) (hperm : given.Perm l) : Given l where
  ok r hr := hg.ok r (hperm.mem_iff.mpr hr)
  apart := hperm.pairwise hg.apart fun h => h.symm

/-- The order in which regions that do not start at the null pointer are freed does not show in the list. -/
theorem pmmFree_order (hg : Given given) (hne : ∀ r ∈ given, r.start ≠ 0) (hperm : given.Perm l) :
    ∃ mp mp', giveAll pmmInit given = some mp ∧ giveAll pmmInit l = some mp' ∧ mp.chunks = mp'.chunks ∧
      MaximalIntervals mp.chunks given := by
  obtain ⟨mp, h, hmax⟩ := giveAll_maximal hg hne
  obtain ⟨mp', h', hmax'⟩ := giveAll_maximal (hg.perm hperm) fun r hr => hne r (hperm.mem_iff.mpr hr)
  refine ⟨mp, mp', h, h', ?_, hmax⟩
  refine hmax.separated.eq_of_covers hmax'.separated hmax.nonempty hmax'.nonempty fun x => ?_
  have hsame : Covers given x ↔ Covers l x := by
    unfold Covers
    simp only [hperm.mem_iff]
  rw [hmax.covers x, hmax'.covers x, hsame]

theorem pmmFree_order_pages : ∃ mp mp', giveAll pmmInit [⟨0x3000, 0x1000⟩, ⟨0x1000, 0x1000⟩] = some mp ∧
    giveAll pmmInit [⟨0x1000, 0x1000⟩, ⟨0x3000, 0x1000⟩] = some mp' ∧ mp.chunks = mp'.chunks ∧
    MaximalIntervals mp.chunks [⟨0x3000, 0x1000⟩, ⟨0x1000, 0x1000⟩] :=
  pmmFree_order given_pages (by decide) (List.Perm.swap ..)

/-- A region at the null pointer ends the list where it is inserted. -/
theorem pmmFree_order_null :
    Given [⟨0, 8⟩, ⟨16, 8⟩] ∧ [(⟨0, 8⟩ : Chunk), ⟨16, 8⟩].Perm [⟨16, 8⟩, ⟨0, 8⟩] ∧
      (giveAll pmmInit [⟨0, 8⟩, ⟨16, 8⟩]).map Mempool.chunks = some [⟨16, 8⟩] ∧
      (giveAll pmmInit [⟨16, 8⟩, ⟨0, 8⟩]).map Mempool.chunks = some [] :=
  ⟨given_two ⟨by decide, by decide⟩ ⟨by decide, by decide⟩ (apart_of_stop_le (by decide)), List.Perm.swap .., rfl, rfl⟩

end FreeDos32.Kernel
