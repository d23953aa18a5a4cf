import FreeDos32.Oslib.Event
import FreeDos32.Library.Runs
import Mathlib.Data.List.TakeWhile

namespace FreeDos32.Oslib

variable {a b c time : Timespec} {next : ℕ → Option ℕ} {on : ℕ → Bool} {l U F A B : List ℕ} {h t : Option ℕ} {p handler par : ℕ}
  {q q' : EventList}

theorem Timespec.Gt.irrefl (a : Timespec) : ¬a.Gt a := by simp [Timespec.Gt]

theorem Timespec.not_gt_trans (hab : ¬a.Gt b) (hbc : ¬b.Gt c) : ¬a.Gt c := by
  unfold Timespec.Gt at *
  omega

theorem Timespec.Gt.asymm (h : a.Gt b) : ¬b.Gt a := by
  unfold Timespec.Gt at *
  omega

theorem Timespec.Gt.of_not (h : a.Gt b) (hac : ¬a.Gt c) : c.Gt b := by
  unfold Timespec.Gt at *
  omega

theorem Timespec.addNano_not_lt (n : ℕ) (t : Timespec) (ht : 0 ≤ t.tvNsec ∧ t.tvNsec < 1000000000) :
    ¬t.Gt (t.addNano n) ∧ 0 ≤ (t.addNano n).tvNsec ∧ (t.addNano n).tvNsec < 1000000000 := by
  unfold Timespec.Gt Timespec.addNano
  dsimp only
  omega

theorem findSpot_eq (on : ℕ → Bool) (hp : Path next h l none) {fuel : ℕ} (hf : l.length < fuel) :
    findSpot on next fuel t h = some ((l.takeWhile on).getLast?.or t, (l.dropWhile on).head?) := by
  induction l generalizing h t fuel with
  | nil =>
    obtain ⟨fuel, rfl⟩ := Nat.exists_eq_succ_of_ne_zero (Nat.ne_of_gt hf)
    obtain rfl : h = none := hp
    rfl
  | cons x l ih =>
    obtain ⟨fuel, rfl⟩ := Nat.exists_eq_succ_of_ne_zero (Nat.ne_of_gt (Nat.zero_lt_of_lt hf))
    obtain ⟨rfl, hl⟩ := hp
    rw [findSpot]
    by_cases hx : on x
    · rw [if_pos hx, ih hl (Nat.lt_of_succ_lt_succ hf), List.takeWhile_cons_of_pos hx, List.dropWhile_cons_of_pos hx,
        List.getLast?_cons]
      cases (l.takeWhile on).getLast? <;> rfl
    · rw [if_neg hx, List.takeWhile_cons_of_neg hx, List.dropWhile_cons_of_neg hx]
      rfl

/-- The two lists share out the events, the pending ones in the order of their times. -/
structure Shared (q : EventList) (U F : List ℕ) : Prop where
  pending : Path q.next q.firstevent U none
  free : Path q.next q.freeevents F none
  perm : (U ++ F).Perm (List.range maxEvent)
  sorted : U.Pairwise fun x y => ¬(q.eventlist x).time.Gt (q.eventlist y).time

namespace Shared

theorem nodup (h : Shared q U F) : (U ++ F).Nodup := h.perm.nodup_iff.mpr List.nodup_range

theorem pending_nodup (h : Shared q U F) : U.Nodup := (List.nodup_append.mp h.nodup).1

theorem apart (h : Shared q U F) (hu : p ∈ U) : p ∉ F := fun hf => (List.nodup_append.mp h.nodup).2.2 p hu p hf rfl

theorem length_lt (h : Shared q U F) : U.length < maxEvent + 1 := by
  have hl := h.perm.length_eq
  rw [List.length_append, List.length_range] at hl
  omega

theorem take (h : Shared q (p :: U) F) : Shared (q.take p) U (p :: F) where
  pending := by
    have hp : p ∉ U := (List.nodup_cons.mp h.pending_nodup).1
    exact h.pending.2.congr fun x hx => Function.update_of_ne (ne_of_mem_of_not_mem hx hp) ..
  free := by
    have hp : p ∉ F := h.apart List.mem_cons_self
    have hself : (q.take p).next p = q.freeevents := Function.update_self ..
    refine ⟨rfl, ?_⟩
    rw [hself]
    exact h.free.congr fun x hx => Function.update_of_ne (ne_of_mem_of_not_mem hx hp) ..
  perm := List.perm_middle.trans h.perm
  sorted := (List.pairwise_cons.mp h.sorted).2

theorem sorted_insert {f : ℕ → Event} (on : ℕ → Bool) (hon : ∀ x, on x = true ↔ (f p).time.Gt (f x).time)
    (h : U.Pairwise fun x y => ¬(f x).time.Gt (f y).time) :
    (U.takeWhile on ++ p :: U.dropWhile on).Pairwise fun x y => ¬(f x).time.Gt (f y).time := by
  induction U with
  | nil => simp
  | cons x U ih =>
    obtain ⟨hx, hU⟩ := List.pairwise_cons.mp h
    by_cases hgt : on x = true
    · rw [List.takeWhile_cons_of_pos hgt, List.dropWhile_cons_of_pos hgt]
      refine List.pairwise_cons.mpr ⟨fun y hy => ?_, ih hU⟩
      rcases List.mem_append.mp hy with hy | hy
      · exact hx y ((List.takeWhile_sublist _).mem hy)
      · rcases List.mem_cons.mp hy with rfl | hy
        · exact ((hon x).mp hgt).asymm
        · exact hx y ((List.dropWhile_sublist _).mem hy)
    · rw [List.takeWhile_cons_of_neg hgt, List.dropWhile_cons_of_neg hgt]
      have hle : ¬(f p).time.Gt (f x).time := fun hc => hgt ((hon x).mpr hc)
      refine List.pairwise_cons.mpr ⟨fun y hy => ?_, h⟩
      rcases List.mem_cons.mp hy with rfl | hy
      · exact hle
      · exact Timespec.not_gt_trans hle (hx y hy)

theorem post (h : Shared q U (p :: F)) (time : Timespec) (handler par : ℕ) :
    ∃ A B q', U = A ++ B ∧ q.periodicEventPost time handler par = some ((p : ℤ), q') ∧ Shared q' (A ++ p :: B) F ∧
      q'.eventlist = Function.update q.eventlist p ⟨handler, par, time⟩ ∧ q'.actTime = q.actTime ∧ q'.nts = q.nts := by
  have hpU : p ∉ U := fun hm => h.apart hm List.mem_cons_self
  have hpF : p ∉ F := (List.nodup_cons.mp (List.nodup_append.mp h.nodup).2.1).1
  obtain ⟨hf, hfree⟩ := h.free
  generalize hl : Function.update q.eventlist p ⟨handler, par, time⟩ = f
  have hfp : (f p).time = time := by rw [← hl, Function.update_self]
  have hsorted : U.Pairwise fun x y => ¬(f x).time.Gt (f y).time := by
    refine h.sorted.imp_of_mem fun hx hy hxy => ?_
    rwa [← hl, Function.update_of_ne (ne_of_mem_of_not_mem hx hpU), Function.update_of_ne (ne_of_mem_of_not_mem hy hpU)]
  have hins := sorted_insert (p := p) (fun p1 => time.Gt (f p1).time)
    (fun x => by rw [hfp, decide_eq_true_iff]) hsorted
  have hspot := findSpot_eq (fun p1 => time.Gt (f p1).time) (t := none) h.pending h.length_lt
  rw [Option.or_none] at hspot
  have hsplit : U.takeWhile (fun p1 => decide (time.Gt (f p1).time)) ++
      U.dropWhile (fun p1 => decide (time.Gt (f p1).time)) = U := List.takeWhile_append_dropWhile
  generalize U.takeWhile (fun p1 => decide (time.Gt (f p1).time)) = A at *
  generalize U.dropWhile (fun p1 => decide (time.Gt (f p1).time)) = B at *
  subst hsplit
  let q₁ : EventList := { q with freeevents := q.next p, eventlist := f }
  let q₂ := q₁.relink A.getLast? (some p)
  have hpost : q.periodicEventPost time handler par = some ((p : ℤ), q₂.setNext p B.head?) := by
    rw [EventList.periodicEventPost, hf]
    dsimp only
    rw [hl, hspot]
    rfl
  have hfirst : (q₂.setNext p B.head?).firstevent = if A = [] then some p else q.firstevent := by
    rcases List.eq_nil_or_concat' A with rfl | ⟨A, z, rfl⟩ <;> simp [q₂, q₁, EventList.relink, EventList.setNext]
  have hself : (q₂.setNext p B.head?).next p = B.head? := Function.update_self ..
  have hlast : ∀ y, A.getLast? = some y → (q₂.setNext p B.head?).next y = some p := by
    intro y hy
    have hyp : y ≠ p := ne_of_mem_of_not_mem (List.mem_append_left B (List.mem_of_getLast? hy)) hpU
    simp [q₂, hy, EventList.relink, EventList.setNext, hyp]
  have hother : ∀ y, y ≠ p → A.getLast? ≠ some y → (q₂.setNext p B.head?).next y = q.next y := by
    intro y hyp hy
    cases hA : A.getLast? with
    | none => simp [q₂, q₁, hA, EventList.relink, EventList.setNext, hyp]
    | some t =>
      have hyt : y ≠ t := fun hyt => hy (hyt ▸ hA)
      simp [q₂, q₁, hA, EventList.relink, EventList.setNext, hyp, hyt]
  have hrest : (q₂.setNext p B.head?).freeevents = q.next p ∧ (q₂.setNext p B.head?).eventlist = f ∧
      (q₂.setNext p B.head?).actTime = q.actTime ∧ (q₂.setNext p B.head?).nts = q.nts := by
    cases hA : A.getLast? <;> simp [q₂, q₁, hA, EventList.relink, EventList.setNext]
  obtain ⟨hfr, hev, hact, hnts⟩ := hrest
  refine ⟨A, B, _, rfl, hpost, ⟨?_, ?_, ?_, ?_⟩, hev, hact, hnts⟩
  · rw [hfirst]
    refine h.pending.insert _ hpU (fun y hy hne => hother y (ne_of_mem_of_not_mem hy hpU) hne) hlast h.pending_nodup ?_
    rw [hself]
    obtain ⟨m, -, hB⟩ := Path.append_iff.mp h.pending
    exact hB.head_eq ▸ hB
  · rw [hfr]
    refine hfree.congr fun y hy => hother y (ne_of_mem_of_not_mem hy hpF) fun hA => ?_
    exact h.apart (List.mem_append_left B (List.mem_of_getLast? hA)) (List.mem_cons_of_mem p hy)
  · refine List.Perm.trans ?_ h.perm
    rw [List.append_assoc, List.append_assoc]
    exact List.Perm.append_left A (by simpa using List.perm_middle.symm)
  · rw [hev]
    exact hins

theorem post_none (h : Shared q U []) : q.periodicEventPost time handler par = some (-1, q) := by
  have hf : q.freeevents = none := h.free
  rw [EventList.periodicEventPost, hf]

theorem delete (h : Shared q (A ++ p :: B) F) : ∃ q', q.periodicEventDelete p = some (1, q') ∧
    Shared q' (A ++ B) (p :: F) ∧ q'.eventlist = q.eventlist ∧ q'.actTime = q.actTime ∧ q'.nts = q.nts := by
  have hnd := List.nodup_cons.mp (List.perm_middle.nodup_iff.mp h.pending_nodup)
  have hpA : p ∉ A := fun hm => hnd.1 (List.mem_append_left B hm)
  have hon : ∀ x ∈ A, decide ((p : ℤ) ≠ x) = true := fun x hx =>
    decide_eq_true fun he => hpA (Int.ofNat.inj he ▸ hx)
  have hspot := findSpot_eq (fun p1 => (p : ℤ) ≠ p1) (t := none) h.pending h.length_lt
  rw [List.takeWhile_append_of_pos hon, List.dropWhile_append_of_pos hon] at hspot
  simp only [ne_eq, not_true_eq_false, decide_false, List.takeWhile_cons, List.dropWhile_cons, Bool.false_eq_true,
    if_false, List.append_nil, Option.or_none, List.head?_cons] at hspot
  let q₁ := q.relink A.getLast? (q.next p)
  have hdelete : q.periodicEventDelete p =
      some (1, { q₁.setNext p q₁.freeevents with freeevents := some p }) := by
    rw [EventList.periodicEventDelete]
    simp only [ne_eq, hspot]
    rfl
  have hfirst : q₁.firstevent = if A = [] then q.next p else q.firstevent := by
    rcases List.eq_nil_or_concat' A with rfl | ⟨A, z, rfl⟩ <;> simp [q₁, EventList.relink, EventList.setNext]
  have hself : (q₁.setNext p q₁.freeevents).next p = q₁.freeevents := Function.update_self ..
  have hlast : ∀ y, A.getLast? = some y → (q₁.setNext p q₁.freeevents).next y = q.next p := by
    intro y hy
    have hyp : y ≠ p := ne_of_mem_of_not_mem (List.mem_of_getLast? hy) hpA
    simp [q₁, hy, EventList.relink, EventList.setNext, hyp]
  have hother : ∀ y, y ≠ p → A.getLast? ≠ some y → (q₁.setNext p q₁.freeevents).next y = q.next y := by
    intro y hyp hy
    cases hA : A.getLast? with
    | none => simp [q₁, hA, EventList.relink, EventList.setNext, hyp]
    | some t =>
      have hyt : y ≠ t := fun hyt => hy (hyt ▸ hA)
      simp [q₁, hA, EventList.relink, EventList.setNext, hyp, hyt]
  have hrest : q₁.freeevents = q.freeevents ∧ q₁.eventlist = q.eventlist ∧ q₁.actTime = q.actTime ∧ q₁.nts = q.nts := by
    cases hA : A.getLast? <;> simp [q₁, hA, EventList.relink, EventList.setNext]
  obtain ⟨hfr, hev, hact, hnts⟩ := hrest
  refine ⟨_, hdelete, ⟨?_, ⟨rfl, ?_⟩, ?_, ?_⟩, hev, hact, hnts⟩
  · have hrem := h.pending.remove (q₁.setNext p q₁.freeevents).next
      (fun y hy hne => hother y (ne_of_mem_of_not_mem hy hnd.1) hne) hlast h.pending_nodup
    rw [← hfirst] at hrem
    exact hrem
  · have hpF : p ∉ F := h.apart (by simp)
    refine (congrArg (fun x => Path _ x F none) (hself.trans hfr)).mpr ?_
    refine h.free.congr fun y hy => hother y (ne_of_mem_of_not_mem hy hpF) fun hA => ?_
    exact h.apart (List.mem_append_left _ (List.mem_of_getLast? hA)) hy
  · refine List.Perm.trans ?_ h.perm
    rw [List.append_assoc, List.append_assoc, List.cons_append]
    exact List.perm_middle.append_left A
  · have hsub : (A ++ B).Sublist (A ++ p :: B) := (List.sublist_cons_self p B).append_left A
    exact (h.sorted.sublist hsub).imp fun hxy => by
      rw [← hev] at hxy
      exact hxy

theorem delete_none (h : Shared q U F) {index : ℤ} (hi : ∀ x ∈ U, index ≠ x) :
    q.periodicEventDelete index = some (-1, q) := by
  have hdrop : U.dropWhile (fun p1 : ℕ => decide (index ≠ (p1 : ℤ))) = [] :=
    List.dropWhile_eq_nil_iff.mpr fun x hx => decide_eq_true (hi x hx)
  rw [EventList.periodicEventDelete, findSpot_eq _ h.pending h.length_lt, hdrop]
  rfl

end Shared

theorem eventInit_free (tick n i : ℕ) (h : i + n = maxEvent) (hn : n ≠ 0) :
    Path (eventInit tick).next (some i) (List.range' i n) none := by
  induction n generalizing i with
  | zero => exact absurd rfl hn
  | succ n ih =>
    refine ⟨rfl, ?_⟩
    by_cases hlast : n = 0
    · have hi : ¬i < maxEvent - 1 := by omega
      subst hlast
      simp [eventInit, hi, Path]
    · have hi : i < maxEvent - 1 := by omega
      have hnext : (eventInit tick).next i = some (i + 1) := if_pos hi
      rw [hnext]
      exact ih (i + 1) (by omega) hlast

theorem eventInit_shared (tick : ℕ) : Shared (eventInit tick) [] (List.range maxEvent) where
  pending := rfl
  free := by
    rw [List.range_eq_range']
    exact eventInit_free tick maxEvent 0 (Nat.zero_add _) (by decide)
  perm := by rw [List.nil_append]
  sorted := List.Pairwise.nil

end FreeDos32.Oslib
