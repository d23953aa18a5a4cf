import FreeDos32.Pit.Queue

namespace FreeDos32.Pit

open Kernel

def ahead : Option ℕ → List ℕ → List ℕ
  | none, _ => []
  | some e, U => U.dropWhile fun x => x ≠ e

variable {q : EventQueue} {A B U F : List ℕ} {c : Option ℕ} {e limit : ℕ}

theorem ahead_length_le (c : Option ℕ) (U : List ℕ) : (ahead c U).length ≤ U.length := by
  cases c with
  | none => exact Nat.zero_le _
  | some e => exact (List.dropWhile_sublist _).length_le

theorem ahead_split (h : e ∉ A) : ahead (some e) (A ++ e :: B) = e :: B := by
  induction A with
  | nil => simp [ahead]
  | cons a A ih =>
    rw [List.mem_cons, not_or] at h
    simpa [ahead, Ne.symm h.1] using ih h.2

theorem ahead_head (h : (A ++ B).Nodup) : ahead B.head? (A ++ B) = B := by
  cases B with
  | nil => rfl
  | cons e B =>
    exact ahead_split fun he => (List.nodup_append.mp h).2.2 e he e List.mem_cons_self rfl

theorem ahead_erase (c : Option ℕ) (A B : List ℕ) (e : ℕ) : (ahead c (A ++ B)).Sublist (ahead c (A ++ e :: B)) := by
  cases c with
  | none => exact List.nil_sublist _
  | some x =>
    induction A with
    | nil =>
      by_cases he : e = x
      · simpa [ahead, he] using ((List.dropWhile_sublist _).trans (List.sublist_cons_self x B))
      · simp [ahead, he]
    | cons a A ih =>
      by_cases ha : a = x
      · simp [ahead, ha]
      · simpa [ahead, ha] using ih

theorem ahead_push (c : Option ℕ) (U : List ℕ) (e : ℕ) :
    ahead c (U ++ [e]) = ahead c U ++ [e] ∨ ahead c (U ++ [e]) = ahead c U := by
  cases c with
  | none => exact .inr rfl
  | some x =>
    induction U with
    | nil => by_cases he : e = x <;> simp [ahead, he]
    | cons a U ih =>
      by_cases ha : a = x
      · simp [ahead, ha]
      · simpa [ahead, ha] using ih

/-- The turns that one loop takes when it calls at most `late` events that were registered after it began. -/
def turnBound (late : ℕ) : ℕ := 65 * (numEvents + late) + numEvents

def early (serial : ℕ → ℕ) (passStart : ℕ) (l : List ℕ) : ℕ := l.countP fun e => serial e ≤ passStart

theorem early_le_length (serial : ℕ → ℕ) (passStart : ℕ) (l : List ℕ) : early serial passStart l ≤ l.length :=
  List.countP_le_length

theorem early_erase (serial : ℕ → ℕ) (passStart : ℕ) (c : Option ℕ) (A B : List ℕ) (e : ℕ) :
    early serial passStart (ahead c (A ++ B)) ≤ early serial passStart (ahead c (A ++ e :: B)) :=
  (ahead_erase c A B e).countP_le

theorem early_push (serial : ℕ → ℕ) {passStart n : ℕ} (c : Option ℕ) (he : e ∉ U) (hn : passStart < n) :
    early (Function.update serial e n) passStart (ahead c (U ++ [e])) = early serial passStart (ahead c U) := by
  have hU : early (Function.update serial e n) passStart (ahead c U) = early serial passStart (ahead c U) := by
    refine List.countP_congr fun x hx => ?_
    have hxU : x ∈ U := by
      cases c with
      | none => cases hx
      | some y => exact (List.dropWhile_sublist _).mem hx
    have hxe : x ≠ e := fun hxe => he (hxe ▸ hxU)
    rw [Function.update_of_ne hxe]
  rcases ahead_push c U e with hc | hc <;> rw [hc]
  · rw [early, List.countP_append, ← early, hU]
    simpa using hn
  · exact hU

namespace World

variable {w w' : World}

/-- An upper bound of the turns that the running loop takes yet, but for events registered since it began. -/
def toGo (w : World) (U : List ℕ) : ℕ :=
  match w.mode with
  | .idle => 0
  | .loop c => 65 * early w.serial w.passStart (ahead c U) + (ahead c U).length
  | .callback c => 65 * early w.serial w.passStart (ahead c U) + numEvents

/-- The lists share out the events, no registration is called twice or after its cancellation, and no call hangs. -/
structure Kept (limit : ℕ) (w : World) : Prop where
  partition : ∃ U F, Shared w.queue U F
  once : w.called.Nodup
  silent : ∀ n ∈ w.cancelled, n ∉ w.called
  returns : ∀ handle, (w.queue.pitEventCancel handle).isSome
  ends : w.rounds ≤ turnBound limit

/-- A callback does not take the event that comes next off the list `events_used`, and the loop comes to at most
`limit` due events that were registered since it began. -/
def Careful (limit : ℕ) (w : World) : Action → Prop
  | .callbackReturns =>
    match w.mode with
    | .callback (some enext) => enext ∈ w.queue.used
    | _ => True
  | .turn tsc =>
    match w.mode with
    | .loop (some e) => w.serial e ≤ w.passStart ∨ w.queue.now tsc < (w.queue.event e).when_ ∨ w.late < limit
    | _ => True
  | _ => True

instance (limit : ℕ) (w : World) (a : Action) : Decidable (w.Careful limit a) := by
  unfold Careful
  split <;> (try split) <;> infer_instance

theorem register_eq (h : Shared w.queue U (e :: F)) (tsc usec callback param : ℕ) :
    ∃ q', w.register tsc usec callback param =
        { w with queue := q', count := w.count + 1, serial := Function.update w.serial e (w.count + 1) } ∧
      Shared q' (U ++ [e]) F ∧ q'.ticks = w.queue.ticks ∧ q'.tscTime = w.queue.tscTime ∧
      q'.event = Function.update w.queue.event e
        ⟨(w.queue.usecToTicks usec + w.queue.now tsc) % 2 ^ 64, callback, param⟩ := by
  obtain ⟨q', hq, hshared⟩ := h.register
  refine ⟨q', ?_, hshared⟩
  unfold register
  rw [hq]

structure Inv (limit : ℕ) (U F : List ℕ) (w : World) : Prop where
  shared : Shared w.queue U F
  serials : (U.map w.serial).Nodup
  serial_le : ∀ x ∈ U, w.serial x ≤ w.count
  fresh : ∀ x ∈ U, w.serial x ∉ w.called ∧ w.serial x ∉ w.cancelled
  past : ∀ n, n ∈ w.called ∨ n ∈ w.cancelled → n ≤ w.count
  once : w.called.Nodup
  silent : ∀ n ∈ w.cancelled, n ∉ w.called
  cursor : ∀ e, w.mode = .loop (some e) → e ∈ U
  start_le : w.passStart ≤ w.count
  late_le : w.late ≤ limit
  ends : w.rounds + w.toGo U ≤ turnBound w.late

namespace Inv

theorem kept (h : w.Inv limit U F) : w.Kept limit where
  partition := ⟨U, F, h.shared⟩
  once := h.once
  silent := h.silent
  returns handle := by rw [h.shared.cancel]; rfl
  ends := by
    have := h.ends
    have := h.late_le
    unfold turnBound at *
    omega

theorem start (pitTicks tickPerSec : ℕ) (tscTime : Bool) (limit : ℕ) :
    (World.start (pitInit pitTicks tickPerSec tscTime)).Inv limit [] (List.range numEvents) where
  shared := pitInit_shared ..
  serials := List.nodup_nil
  serial_le := by simp
  fresh := by simp
  past := by simp [World.start]
  once := List.nodup_nil
  silent := by simp [World.start]
  cursor := by simp [World.start]
  start_le := Nat.le_refl 0
  late_le := Nat.zero_le _
  ends := Nat.zero_le _

theorem length_le (h : w.Inv limit U F) : U.length ≤ numEvents := h.shared.length_le

theorem register_none (h : w.Inv limit U []) (tsc usec callback param : ℕ) :
    (w.register tsc usec callback param).Inv limit U [] := by
  unfold register
  rw [h.shared.register_none]
  exact h

theorem register_some (h : w.Inv limit U (e :: F)) (hr : w.requests) (tsc usec callback param : ℕ) :
    (w.register tsc usec callback param).Inv limit (U ++ [e]) F := by
  obtain ⟨q', hw, hshared, -⟩ := register_eq h.shared tsc usec callback param
  have heU : e ∉ U := fun he => h.shared.apart he List.mem_cons_self
  rw [hw]
  have hself : Function.update w.serial e (w.count + 1) e = w.count + 1 := Function.update_self ..
  have hold : ∀ x ∈ U, Function.update w.serial e (w.count + 1) x = w.serial x := by
    intro x hx
    have hxe : x ≠ e := fun hxe => heU (hxe ▸ hx)
    exact Function.update_of_ne hxe ..
  have hmem : ∀ x ∈ U ++ [e], x ∈ U ∨ x = e := by simp
  constructor
  case shared => exact hshared
  case serials =>
    rw [List.map_append, List.map_congr_left hold]
    refine List.nodup_append.mpr ⟨h.serials, by simp, fun a ha b hb => ?_⟩
    obtain ⟨x, hx, rfl⟩ := List.mem_map.mp ha
    obtain rfl : b = w.count + 1 := by simpa using hb
    exact Nat.ne_of_lt (Nat.lt_succ_of_le (h.serial_le x hx))
  case serial_le =>
    intro x hx
    rcases hmem x hx with hx | rfl
    · exact Nat.le_trans (Nat.le_of_eq (hold x hx)) (Nat.le_succ_of_le (h.serial_le x hx))
    · exact Nat.le_of_eq hself
  case fresh =>
    intro x hx
    rcases hmem x hx with hx | rfl
    · dsimp only
      rw [hold x hx]
      exact h.fresh x hx
    · dsimp only
      rw [hself]
      have hbig := h.past (w.count + 1)
      exact ⟨fun hc => absurd (hbig (.inl hc)) (Nat.not_succ_le_self _),
        fun hc => absurd (hbig (.inr hc)) (Nat.not_succ_le_self _)⟩
  case past => exact fun n hn => Nat.le_succ_of_le (h.past n hn)
  case once => exact h.once
  case silent => exact h.silent
  case cursor =>
    intro x hx
    have hx' : w.mode = .loop (some x) := hx
    simp [requests, hx'] at hr
  case start_le => exact Nat.le_succ_of_le h.start_le
  case late_le => exact h.late_le
  case ends =>
    refine Nat.le_trans (Nat.add_le_add_left ?_ _) h.ends
    unfold toGo
    dsimp only
    cases hm : w.mode with
    | idle => exact Nat.le_refl _
    | loop c => simp [requests, hm] at hr
    | callback c =>
      dsimp only
      rw [early_push w.serial c heU (Nat.lt_succ_of_le h.start_le)]

theorem erased (h : w.Inv limit (A ++ e :: B) F) :
    ((A ++ B).map w.serial).Nodup ∧ (∀ x ∈ A ++ B, x ∈ A ++ e :: B) ∧ ∀ x ∈ A ++ B, w.serial x ≠ w.serial e := by
  have hmap : ((A ++ e :: B).map w.serial).Perm (w.serial e :: (A ++ B).map w.serial) := by
    rw [← List.map_cons]
    exact List.perm_middle.map _
  have hnd := List.nodup_cons.mp (hmap.nodup_iff.mp h.serials)
  refine ⟨hnd.2, fun x hx => ?_, fun x hx he => hnd.1 (he ▸ List.mem_map_of_mem hx)⟩
  exact List.mem_append.mpr ((List.mem_append.mp hx).imp_right (List.mem_cons_of_mem e))

theorem cancel (h : w.Inv limit U F) (hr : w.requests) (handle : ℕ) :
    ∃ U' F' w', w.cancel handle = some w' ∧ w'.Inv limit U' F' := by
  by_cases hm : handle ∈ U
  · obtain ⟨A, B, rfl⟩ := List.append_of_mem hm
    have hw : w.cancel handle = some { w with
        queue := w.queue.freeEvent handle, cancelled := w.serial handle :: w.cancelled } := by
      rw [World.cancel, h.shared.cancel, if_pos hm]
      rfl
    obtain ⟨hserials, hsub, hne⟩ := h.erased
    refine ⟨A ++ B, handle :: F, _, hw, ?_⟩
    constructor
    case shared => exact h.shared.freeEvent
    case serials => exact hserials
    case serial_le => exact fun x hx => h.serial_le x (hsub x hx)
    case fresh =>
      intro x hx
      obtain ⟨hcalled, hcancelled⟩ := h.fresh x (hsub x hx)
      exact ⟨hcalled, by simp [hne x hx, hcancelled]⟩
    case past =>
      intro n hn
      rcases hn with hn | hn
      · exact h.past n (.inl hn)
      · rcases List.mem_cons.mp hn with rfl | hn
        · exact h.serial_le handle hm
        · exact h.past n (.inr hn)
    case once => exact h.once
    case silent =>
      intro n hn
      rcases List.mem_cons.mp hn with rfl | hn
      · exact (h.fresh handle hm).1
      · exact h.silent n hn
    case cursor =>
      intro x hx
      have hx' : w.mode = .loop (some x) := hx
      simp [requests, hx'] at hr
    case start_le => exact h.start_le
    case late_le => exact h.late_le
    case ends =>
      refine Nat.le_trans (Nat.add_le_add_left ?_ _) h.ends
      unfold toGo
      dsimp only
      cases hm : w.mode with
      | idle => exact Nat.le_refl _
      | loop c => simp [requests, hm] at hr
      | callback c =>
        have hle := early_erase w.serial w.passStart c A B handle
        dsimp only
        omega
  · refine ⟨U, F, w, ?_, h⟩
    rw [World.cancel, h.shared.cancel, if_neg hm]
    rfl

theorem externalProcess (h : w.Inv limit U F) :
    { w with
      queue := w.queue.tick, mode := .loop w.queue.tick.eventsUsed.begin_, passStart := w.count, rounds := 0,
      late := 0 : World }.Inv limit U F := by
  have hb : w.queue.tick.eventsUsed.begin_ = U.head? := h.shared.used.begin_eq
  constructor
  case shared => exact ⟨h.shared.used, h.shared.free, h.shared.perm⟩
  case serials => exact h.serials
  case serial_le => exact h.serial_le
  case fresh => exact h.fresh
  case past => exact h.past
  case once => exact h.once
  case silent => exact h.silent
  case cursor =>
    intro e he
    rw [hb] at he
    exact List.mem_of_head? (Mode.loop.inj he)
  case start_le => exact Nat.le_refl _
  case late_le => exact Nat.zero_le _
  case ends =>
    have hlen := ahead_length_le w.queue.tick.eventsUsed.begin_ U
    have hearly := early_le_length w.serial w.count (ahead w.queue.tick.eventsUsed.begin_ U)
    have := h.length_le
    unfold toGo turnBound
    dsimp only
    omega

theorem callbackReturns (h : w.Inv limit U F) {c : Option ℕ} (hm : w.mode = .callback c) (hc : ∀ e, c = some e → e ∈ U) :
    { w with mode := .loop c : World }.Inv limit U F :=
  { h with
    shared := h.shared
    cursor := fun e he => hc e (Mode.loop.inj he)
    ends := by
      have hends := h.ends
      have hlen := Nat.le_trans (ahead_length_le c U) h.length_le
      unfold toGo at *
      rw [hm] at hends
      dsimp only at *
      omega }

theorem early_cons (serial : ℕ → ℕ) (passStart e : ℕ) (l : List ℕ) :
    early serial passStart (e :: l) = early serial passStart l + if passStart < serial e then 0 else 1 := by
  unfold early
  rw [List.countP_cons]
  by_cases h : passStart < serial e <;> simp [h, Nat.not_le.mpr, Nat.le_of_not_lt]

theorem passOver (h : w.Inv limit (A ++ e :: B) F) (hm : w.mode = .loop (some e)) :
    { w with rounds := w.rounds + 1, mode := .loop B.head? : World }.Inv limit (A ++ e :: B) F :=
  { h with
    shared := h.shared
    cursor := fun x hx => List.mem_append_right A (List.mem_cons_of_mem e (List.mem_of_head? (Mode.loop.inj hx)))
    ends := by
      have hends := h.ends
      have hnd := h.shared.used.nodup
      have heA : e ∉ A := fun he => (List.nodup_append.mp hnd).2.2 e he e List.mem_cons_self rfl
      have hnext : ahead B.head? (A ++ e :: B) = B := by
        have hsplit : A ++ e :: B = A ++ [e] ++ B := by simp
        rw [hsplit] at hnd ⊢
        exact ahead_head hnd
      unfold toGo at *
      rw [hm] at hends
      dsimp only at *
      rw [ahead_split heA, early_cons, List.length_cons] at hends
      rw [hnext]
      omega }

theorem call (h : w.Inv limit (A ++ e :: B) F) (hm : w.mode = .loop (some e))
    (hlate : w.serial e ≤ w.passStart ∨ w.late < limit) :
    { w with
      rounds := w.rounds + 1, queue := w.queue.freeEvent e, mode := .callback B.head?
      called := w.serial e :: w.called
      late := if w.passStart < w.serial e then w.late + 1 else w.late : World }.Inv limit (A ++ B) (e :: F) := by
  obtain ⟨hserials, hsub, hne⟩ := h.erased
  have hmem : e ∈ A ++ e :: B := by simp
  have hnd := h.shared.used.nodup
  have heA : e ∉ A := fun he => (List.nodup_append.mp hnd).2.2 e he e List.mem_cons_self rfl
  constructor
  case shared => exact h.shared.freeEvent
  case serials => exact hserials
  case serial_le => exact fun x hx => h.serial_le x (hsub x hx)
  case fresh =>
    intro x hx
    obtain ⟨hcalled, hcancelled⟩ := h.fresh x (hsub x hx)
    exact ⟨by simp [hne x hx, hcalled], hcancelled⟩
  case past =>
    intro n hn
    rcases hn with hn | hn
    · rcases List.mem_cons.mp hn with rfl | hn
      · exact h.serial_le e hmem
      · exact h.past n (.inl hn)
    · exact h.past n (.inr hn)
  case once => exact List.nodup_cons.mpr ⟨(h.fresh e hmem).1, h.once⟩
  case silent =>
    intro n hn hc
    rcases List.mem_cons.mp hc with rfl | hc
    · exact (h.fresh e hmem).2 hn
    · exact h.silent n hn hc
  case cursor => exact fun x hx => by cases hx
  case start_le => exact h.start_le
  case late_le =>
    have := h.late_le
    dsimp only
    split <;> omega
  case ends =>
    have hends := h.ends
    have hnext : ahead B.head? (A ++ B) = B := ahead_head (List.nodup_cons.mp (List.perm_middle.nodup_iff.mp hnd)).2
    unfold toGo turnBound at *
    rw [hm] at hends
    dsimp only at *
    rw [ahead_split heA, early_cons, List.length_cons] at hends
    rw [hnext]
    unfold numEvents at *
    split at hends <;> rename_i hl <;> simp only [hl, if_true, if_false] <;> omega

theorem turn (h : w.Inv limit U F) (hm : w.mode = .loop (some e)) {tsc : ℕ}
    (hc : w.serial e ≤ w.passStart ∨ w.queue.now tsc < (w.queue.event e).when_ ∨ w.late < limit) :
    ∃ U' F', (w.turn tsc e).Inv limit U' F' := by
  obtain ⟨A, B, rfl⟩ := List.append_of_mem (h.cursor e hm)
  have hnext : (w.queue.items e).next = B.head? := h.shared.used.next_eq
  unfold World.turn
  rw [hnext]
  dsimp only
  split
  · rename_i hdue
    exact ⟨A ++ B, e :: F, h.call hm (hc.imp_right fun hc => hc.resolve_left (Nat.not_lt.mpr hdue))⟩
  · exact ⟨A ++ e :: B, F, h.passOver hm⟩

theorem step (h : w.Inv limit U F) {a : Action} (hc : w.Careful limit a) (hs : World.step a w = some w') :
    ∃ U' F', w'.Inv limit U' F' := by
  cases a with
  | register tsc usec callback param =>
    simp only [World.step, Option.ite_none_right_eq_some] at hs
    obtain ⟨hr, hs⟩ := hs
    cases hs
    cases F with
    | nil => exact ⟨U, [], h.register_none ..⟩
    | cons e F => exact ⟨U ++ [e], F, h.register_some hr ..⟩
  | cancel handle =>
    simp only [World.step, Option.ite_none_right_eq_some] at hs
    obtain ⟨hr, hs⟩ := hs
    obtain ⟨U', F', w'', hw, hi⟩ := h.cancel hr handle
    obtain rfl : w'' = w' := Option.some.inj (hw.symm.trans hs)
    exact ⟨U', F', hi⟩
  | externalProcess =>
    cases hm : w.mode with
    | idle =>
      simp only [World.step, hm, Option.some.injEq] at hs
      exact ⟨U, F, hs ▸ h.externalProcess⟩
    | _ => simp [World.step, hm] at hs
  | turn tsc =>
    cases hm : w.mode with
    | loop c =>
      cases c with
      | none =>
        simp only [World.step, hm, Option.some.injEq] at hs
        exact ⟨U, F, hs ▸ { h with
          shared := h.shared, cursor := fun e he => by cases he
          ends := Nat.le_trans (Nat.add_le_add_left (Nat.zero_le _) _) h.ends }⟩
      | some e =>
        simp only [World.step, hm, Option.some.injEq] at hs
        simp only [Careful, hm] at hc
        exact hs ▸ h.turn hm hc
    | _ => simp [World.step, hm] at hs
  | callbackReturns =>
    cases hm : w.mode with
    | callback c =>
      simp only [World.step, hm, Option.some.injEq] at hs
      refine ⟨U, F, hs ▸ h.callbackReturns hm fun e he => ?_⟩
      subst he
      simp only [Careful, hm, h.shared.used_eq] at hc
      exact hc
    | _ => simp [World.step, hm] at hs

end Inv

abbrev Run (pitTicks tickPerSec : ℕ) (tscTime : Bool) (ok : World → Action → Prop) : World → Prop :=
  Reach step ok (start (pitInit pitTicks tickPerSec tscTime))

theorem run_kept {limit pitTicks tickPerSec : ℕ} {tscTime : Bool}
    (h : Run pitTicks tickPerSec tscTime (Careful limit) w) : w.Kept limit := by
  have hinv := Reach.invariant (fun w => ∃ U F, w.Inv limit U F) ⟨_, _, Inv.start pitTicks tickPerSec tscTime limit⟩
    (fun _ _ _ hi hc hs => by
      obtain ⟨U, F, hi⟩ := hi
      exact hi.step hc hs) h
  obtain ⟨U, F, hi⟩ := hinv
  exact hi.kept

def renewing : List Action :=
  [.register 0 0 1 0, .register 0 1000000 2 0, .externalProcess, .turn 0, .register 0 0 1 0, .callbackReturns, .turn 0,
    .turn 0]

theorem run_kept_renewing : ∃ w, runSteps step (Careful 1) renewing (start (pitInit 0x10000 0 false)) = some w ∧
    w.called = [3, 1] ∧ w.Kept 1 := by
  have hrun : ∃ w, runSteps step (Careful 1) renewing (start (pitInit 0x10000 0 false)) = some w ∧ w.called = [3, 1] := by
    have hmap : (runSteps step (Careful 1) renewing (start (pitInit 0x10000 0 false))).map World.called = some [3, 1] := by
      decide +kernel
    exact Option.map_eq_some_iff.mp hmap
  obtain ⟨w, hw, hcalled⟩ := hrun
  exact ⟨w, hw, hcalled, run_kept (runSteps_reach _ _ hw)⟩

def cancelling : List Action :=
  [.register 0 0 1 0, .register 0 0 2 0, .externalProcess, .turn 0, .cancel 1, .callbackReturns, .turn 0]

/-- Two due events before a loop which, for as long as their callbacks register them again, comes back to the first. -/
structure Turning (e x : ℕ) (w : World) : Prop where
  mode : w.mode = .loop (some e)
  tscTime : w.queue.tscTime = false
  shared : ∃ F, Shared w.queue [e, x] F
  first : (w.queue.event e).when_ ≤ w.queue.ticks
  second : (w.queue.event x).when_ ≤ w.queue.ticks

theorem now_ge (h : q.tscTime = false) : (q.usecToTicks 0 + q.now 0) % 2 ^ 64 ≤ q.ticks := by
  simp only [EventQueue.usecToTicks, EventQueue.now, h]
  refine Nat.le_trans (Nat.mod_le _ _) ?_
  simp

theorem Turning.next {x : ℕ} (h : w.Turning e x) :
    ∃ w', Reach step (fun _ _ => True) w w' ∧ w'.Turning x e ∧ w'.rounds = w.rounds + 1 := by
  obtain ⟨hm, htsc, ⟨F, hsh⟩, hfirst, hsecond⟩ := h
  have hnow : w.queue.now 0 = w.queue.ticks := by simp [EventQueue.now, htsc]
  have hnext : (w.queue.items e).next = some x := hsh.used.next_eq (l := [])
  let w₁ : World := { w with
    rounds := w.rounds + 1, queue := w.queue.freeEvent e, mode := .callback (some x), called := w.serial e :: w.called
    late := if w.passStart < w.serial e then w.late + 1 else w.late }
  have h₁ : step (.turn 0) w = some w₁ := by
    simp only [step, hm, turn, hnext, hnow, hfirst, if_true]
    rfl
  have hsh₁ : Shared w₁.queue [x] (e :: F) := hsh.freeEvent (A := [])
  obtain ⟨q', hq, hsh', hticks, htsc', hevent⟩ := register_eq hsh₁ 0 0 1 0
  have h₂ : step (.register 0 0 1 0) w₁ = some (w₁.register 0 0 1 0) := rfl
  have h₃ : step .callbackReturns (w₁.register 0 0 1 0) = some { w₁.register 0 0 1 0 with mode := .loop (some x) } := by
    rw [hq]
    rfl
  have hxe : x ≠ e := fun he => hsh₁.apart (List.mem_singleton_self x) (he ▸ List.mem_cons_self)
  refine ⟨_, .next (.next (.next .start _ trivial h₁) _ trivial h₂) _ trivial h₃, ?_, ?_⟩ <;> rw [hq]
  · refine ⟨rfl, htsc'.trans htsc, ⟨F, hsh'⟩, ?_, ?_⟩
    · dsimp only
      rw [hevent, Function.update_of_ne hxe, hticks]
      exact hsecond
    · dsimp only
      rw [hevent, Function.update_self, hticks]
      exact now_ge (q := w₁.queue) htsc

theorem turning_start : ∃ w, Run 0x10000 0 false (fun _ _ => True) w ∧ w.Turning 0 1 ∧ w.rounds = 0 := by
  have hsh := pitInit_shared 0x10000 0 false
  have hfree : List.range numEvents = 0 :: 1 :: (List.range numEvents).drop 2 := rfl
  rw [hfree] at hsh
  have htsc : (pitInit 0x10000 0 false).tscTime = false := rfl
  have hticks : (pitInit 0x10000 0 false).ticks = 0 := rfl
  unfold Run
  generalize pitInit 0x10000 0 false = q at hsh htsc hticks ⊢
  let w₀ := start q
  change Shared w₀.queue [] _ at hsh
  obtain ⟨q₁, hq₁, hsh₁, hticks₁, htsc₁, hevent₁⟩ := register_eq hsh 0 0 1 0
  have hw₁ : (w₀.register 0 0 1 0).queue = q₁ := by rw [hq₁]
  have hsh₁' : Shared (w₀.register 0 0 1 0).queue [0] (1 :: (List.range numEvents).drop 2) := hw₁.symm ▸ hsh₁
  obtain ⟨q₂, hq₂, hsh₂, hticks₂, htsc₂, hevent₂⟩ := register_eq hsh₁' 0 0 2 0
  rw [hw₁] at hticks₂ htsc₂ hevent₂
  let w₂ := (w₀.register 0 0 1 0).register 0 0 2 0
  have hw₂ : w₂.queue = q₂ := congrArg queue hq₂
  have hm₂ : w₂.mode = .idle := (congrArg mode hq₂).trans (congrArg mode hq₁)
  have h₁ : step (.register 0 0 1 0) w₀ = some (w₀.register 0 0 1 0) := rfl
  have h₂ : step (.register 0 0 2 0) (w₀.register 0 0 1 0) = some w₂ := by
    have hm₁ : (w₀.register 0 0 1 0).mode = .idle := congrArg mode hq₁
    simp only [step, requests, hm₁, if_true]
    rfl
  have h₃ : step .externalProcess w₂ = some { w₂ with
      queue := w₂.queue.tick, mode := .loop w₂.queue.tick.eventsUsed.begin_, passStart := w₂.count, rounds := 0,
      late := 0 } := by
    simp only [step, hm₂]
  have hbegin : w₂.queue.tick.eventsUsed.begin_ = some 0 := by
    rw [hw₂]
    exact hsh₂.used.begin_eq
  have h₀ : ∀ n, (w₀.queue.usecToTicks 0 + w₀.queue.now 0) % 2 ^ 64 ≤ n := fun n =>
    Nat.le_trans (now_ge (q := w₀.queue) htsc) (hticks.symm ▸ Nat.zero_le n)
  have h₁' : ∀ n, (q₁.usecToTicks 0 + q₁.now 0) % 2 ^ 64 ≤ n := fun n =>
    Nat.le_trans (now_ge (htsc₁.trans htsc)) ((hticks₁.trans hticks).symm ▸ Nat.zero_le n)
  refine ⟨_, .next (.next (.next .start _ trivial h₁) _ trivial h₂) _ trivial h₃,
    ⟨?_, ?_, ⟨(List.range numEvents).drop 2, ?_⟩, ?_, ?_⟩, rfl⟩
  · exact congrArg Mode.loop hbegin
  · exact (congrArg EventQueue.tscTime hw₂).trans (htsc₂.trans (htsc₁.trans htsc))
  · have hsh' : Shared w₂.queue [0, 1] ((List.range numEvents).drop 2) := hw₂.symm ▸ hsh₂
    exact ⟨hsh'.used, hsh'.free, hsh'.perm⟩
  · have hev : w₂.queue.event 0 = ⟨(w₀.queue.usecToTicks 0 + w₀.queue.now 0) % 2 ^ 64, 1, 0⟩ := by
      rw [hw₂, hevent₂, Function.update_of_ne (by decide), hevent₁, Function.update_self]
    exact Nat.le_trans (Nat.le_of_eq (congrArg Event.when_ hev)) (h₀ _)
  · have hev : w₂.queue.event 1 = ⟨(q₁.usecToTicks 0 + q₁.now 0) % 2 ^ 64, 2, 0⟩ := by
      rw [hw₂, hevent₂, Function.update_self]
    exact Nat.le_trans (Nat.le_of_eq (congrArg Event.when_ hev)) (h₁' _)

theorem turning_endless (n : ℕ) : ∃ w, Run 0x10000 0 false (fun _ _ => True) w ∧ w.rounds = n := by
  have hturn : ∃ w e x, Run 0x10000 0 false (fun _ _ => True) w ∧ w.Turning e x ∧ w.rounds = n := by
    induction n with
    | zero =>
      obtain ⟨w, hrun, hw⟩ := turning_start
      exact ⟨w, 0, 1, hrun, hw⟩
    | succ n ih =>
      obtain ⟨w, e, x, hrun, hw, hn⟩ := ih
      obtain ⟨w', hreach, hw', hn'⟩ := hw.next
      exact ⟨w', x, e, hrun.trans hreach, hw', by rw [hn', hn]⟩
  obtain ⟨w, -, -, hrun, -, hn⟩ := hturn
  exact ⟨w, hrun, hn⟩

theorem cancelling_called : (∃ w, Run 0x10000 0 false (fun _ _ => True) w ∧
    runSteps step (fun _ _ => True) cancelling (start (pitInit 0x10000 0 false)) = some w ∧
    2 ∈ w.cancelled ∧ 2 ∈ w.called) ∧ ∀ n, ∃ w, Run 0x10000 0 false (fun _ _ => True) w ∧ w.rounds = n := by
  refine ⟨?_, turning_endless⟩
  have hrun : ∃ w, runSteps step (fun _ _ => True) cancelling (start (pitInit 0x10000 0 false)) = some w ∧
      (w.called, w.cancelled) = ([2, 1], [2]) := by
    have hmap : (runSteps step (fun _ _ => True) cancelling (start (pitInit 0x10000 0 false))).map
        (fun w => (w.called, w.cancelled)) = some ([2, 1], [2]) := by decide +kernel
    exact Option.map_eq_some_iff.mp hmap
  obtain ⟨w, hw, hlists⟩ := hrun
  obtain ⟨hcalled, hcancelled⟩ := Prod.mk.inj hlists
  exact ⟨w, runSteps_reach _ _ hw, hw, by simp [hcancelled], by simp [hcalled]⟩

end World

end FreeDos32.Pit
