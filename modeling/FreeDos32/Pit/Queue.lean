import FreeDos32.Library.Runs
import FreeDos32.Pit.Process

namespace FreeDos32.Pit

open Kernel

/-- The two lists share out the events. -/
structure Shared (q : EventQueue) (U F : List ℕ) : Prop where
  used : Linked q.eventsUsed q.items U
  free : Linked q.eventsFree q.items F
  perm : (U ++ F).Perm (List.range numEvents)

variable {q q' : EventQueue} {U F A B : List ℕ} {e handle tsc usec callback param : ℕ}

namespace Shared

theorem nodup (h : Shared q U F) : (U ++ F).Nodup := h.perm.nodup_iff.mpr List.nodup_range

theorem apart (h : Shared q U F) (hu : e ∈ U) : e ∉ F := fun hf => (List.nodup_append.mp h.nodup).2.2 e hu e hf rfl

theorem length_le (h : Shared q U F) : U.length ≤ numEvents := by
  have hl := h.perm.length_eq
  rw [List.length_append, List.length_range] at hl
  omega

theorem used_eq (h : Shared q U F) : q.used = U := h.used.next.cells_eq h.length_le

theorem freeEvent (h : Shared q (A ++ e :: B) F) : Shared (q.freeEvent e) (A ++ B) (e :: F) := by
  obtain ⟨hused, hoff⟩ := h.used.erase
  have heF : e ∉ F := h.apart (by simp)
  have hAB : ∀ y ∈ F, y ∉ A ++ B := fun y hy hm =>
    h.apart (e := y) (List.mem_append.mpr ((List.mem_append.mp hm).imp_right (List.mem_cons_of_mem e))) hy
  have hfree : Linked q.eventsFree (listErase e q.eventsUsed q.items).2 F := h.free.congr fun y hy => hoff y (hAB y hy)
  obtain ⟨hpush, hkeep⟩ := hfree.pushFront heF
  have hperm : (A ++ B ++ e :: F).Perm (List.range numEvents) := by
    refine List.Perm.trans ?_ h.perm
    rw [List.append_assoc, List.append_assoc, List.cons_append]
    exact (List.perm_middle.trans (List.Perm.refl _)).append_left A
  refine ⟨hused.congr fun y hy => hkeep y fun hm => ?_, hpush, hperm⟩
  rcases List.mem_cons.mp hm with rfl | hyF
  · exact (List.nodup_cons.mp (List.perm_middle.nodup_iff.mp h.used.nodup)).1 hy
  · exact hAB y hyF hy

theorem register (h : Shared q U (e :: F)) : ∃ q', q.pitEventRegister tsc usec callback param = (some e, q') ∧
    Shared q' (U ++ [e]) F ∧ q'.ticks = q.ticks ∧ q'.tscTime = q.tscTime ∧
    q'.event = Function.update q.event e ⟨(q.usecToTicks usec + q.now tsc) % 2 ^ 64, callback, param⟩ := by
  obtain ⟨hfree, hoff⟩ := h.free.erase (l := [])
  have hb : q.eventsFree.begin_ = some e := h.free.begin_eq
  have heU : e ∉ U := fun he => h.apart he List.mem_cons_self
  have hUF : ∀ y ∈ U, y ∉ F := fun y hy hm => h.apart hy (List.mem_cons_of_mem e hm)
  have hused : Linked q.eventsUsed (listErase e q.eventsFree q.items).2 U := h.used.congr fun y hy => hoff y (hUF y hy)
  obtain ⟨hpush, hkeep⟩ := hused.pushBack heU
  have hreg : q.pitEventRegister tsc usec callback param = (some e, { q with
      items := (listPushBack e q.eventsUsed (listErase e q.eventsFree q.items).2).2
      eventsUsed := (listPushBack e q.eventsUsed (listErase e q.eventsFree q.items).2).1
      eventsFree := (listErase e q.eventsFree q.items).1
      event := Function.update q.event e ⟨(q.usecToTicks usec + q.now tsc) % 2 ^ 64, callback, param⟩ }) := by
    rw [EventQueue.pitEventRegister, hb]
  refine ⟨_, hreg, ⟨hpush, hfree.congr fun y hy => hkeep y fun hm => ?_, ?_⟩, rfl, rfl, rfl⟩
  · rcases List.mem_append.mp hm with hyU | hye
    · exact hUF y hyU hy
    · obtain rfl := List.mem_singleton.mp hye
      exact (List.nodup_cons.mp h.free.nodup).1 hy
  · simpa using h.perm

theorem register_none (h : Shared q U []) : q.pitEventRegister tsc usec callback param = (none, q) := by
  have hb : q.eventsFree.begin_ = none := h.free.begin_eq
  rw [EventQueue.pitEventRegister, hb]

theorem cancelLoop (h : Shared q (A ++ B) F) (hA : handle ∉ A) {fuel : ℕ} (hf : B.length < fuel) :
    EventQueue.cancelLoop handle fuel B.head? q =
      some (if handle ∈ A ++ B then (0, q.freeEvent handle) else (-1, q)) := by
  induction B generalizing A fuel with
  | nil =>
    obtain ⟨fuel, rfl⟩ := Nat.exists_eq_succ_of_ne_zero (Nat.ne_of_gt hf)
    rw [List.append_nil, if_neg hA]
    rfl
  | cons e B ih =>
    obtain ⟨fuel, rfl⟩ := Nat.exists_eq_succ_of_ne_zero (Nat.ne_of_gt (Nat.zero_lt_of_lt hf))
    rw [List.head?_cons, EventQueue.cancelLoop]
    by_cases he : e = handle
    · rw [if_pos he, if_pos (by simp [he]), he]
    · rw [if_neg he, h.used.next_eq]
      have hsplit : A ++ e :: B = A ++ [e] ++ B := by simp
      rw [hsplit] at h ⊢
      exact ih h (by simp [hA, Ne.symm he]) (Nat.lt_of_succ_lt_succ hf)

theorem cancel (h : Shared q U F) : q.pitEventCancel handle =
    some (if handle ∈ U then (0, q.freeEvent handle) else (-1, q)) := by
  rw [EventQueue.pitEventCancel, h.used.begin_eq]
  exact cancelLoop (A := []) h List.not_mem_nil (Nat.lt_succ_of_le h.length_le)

end Shared

theorem pushBack_all {l pre : List ℕ} {s : ListHead × Items} (h : Linked s.1 s.2 pre) (hnd : (pre ++ l).Nodup) :
    Linked (l.foldl (fun s k => listPushBack k s.1 s.2) s).1 (l.foldl (fun s k => listPushBack k s.1 s.2) s).2
      (pre ++ l) := by
  induction l generalizing pre s with
  | nil =>
    rw [List.append_nil]
    exact h
  | cons k l ih =>
    have hk : k ∉ pre := fun hm => (List.nodup_append.mp hnd).2.2 k hm k List.mem_cons_self rfl
    have hsplit : pre ++ k :: l = pre ++ [k] ++ l := by simp
    rw [hsplit] at hnd ⊢
    exact ih (h.pushBack hk).1 hnd

theorem fillFree_linked : Linked fillFree.1 fillFree.2 (List.range numEvents) :=
  @pushBack_all (List.range numEvents) [] (listInit, fun _ => ⟨none, none⟩) (Linked.init _) List.nodup_range

theorem pitInit_shared (pitTicks tickPerSec : ℕ) (tscTime : Bool) :
    Shared (pitInit pitTicks tickPerSec tscTime) [] (List.range numEvents) := by
  constructor
  · dsimp only [pitInit]
    exact Linked.init fillFree.2
  · dsimp only [pitInit]
    exact fillFree_linked
  · rw [List.nil_append]

end FreeDos32.Pit
