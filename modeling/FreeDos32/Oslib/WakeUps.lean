import FreeDos32.Oslib.Pending

namespace FreeDos32.Oslib

namespace World

variable {w w' : World} {U F : List ℕ} {p : ℕ}

/-- The promise: the pending list is sorted and shares the events out with the free list; a posting is pending until it
is deleted or runs, it runs once at most and not before its time, and one that was there when `periodic_wake_up` was
called last is not left pending when it is due. -/
structure Kept (w : World) : Prop where
  lists : ∃ U F, Shared w.events U F ∧ ∀ n, 0 < n → n ≤ w.count → n ∈ w.ran ∨ n ∈ w.deleted ∨ n ∈ U.map w.serial
  once : w.ran.Nodup
  silent : ∀ n ∈ w.deleted, n ∉ w.ran
  inTime : ∀ n ∈ w.ran, ¬(w.posted n).Gt w.events.actTime
  run : w.mode = .idle → ∀ n, 0 < n → n ≤ w.wokenAt → n ∉ w.deleted → ¬(w.posted n).Gt w.events.actTime → n ∈ w.ran
  returns : (∀ time handler par, (w.events.periodicEventPost time handler par).isSome) ∧
    ∀ index, (w.events.periodicEventDelete index).isSome

/-- When a handler returns, the event that comes next is the first of the pending list, or it is not due and was not
posted anew, or there was none. -/
def Careful (w : World) : Action → Prop
  | .handlerReturns =>
    match w.mode with
    | .handler (some pp) saved => w.events.firstevent = some pp ∨ ¬w.events.Due pp ∧ w.serial pp = saved
    | _ => True
  | _ => True

instance (w : World) (a : Action) : Decidable (w.Careful a) := by
  unfold Careful
  split <;> (try split) <;> infer_instance

/-- No event that was pending when `periodic_wake_up` was called is due. -/
def Settled (w : World) (U : List ℕ) : Prop := ∀ x ∈ U, w.serial x ≤ w.wokenAt → ¬w.events.Due x

/-- What is known where `periodic_wake_up` is. -/
def Place (w : World) (U : List ℕ) : Prop :=
  match w.mode with
  | .idle => w.Settled U
  | .loop p => p = U.head? ∨ (∀ x, p = some x → ¬w.events.Due x) ∧ w.Settled U
  | .handler none _ => ∀ x ∈ U, w.wokenAt < w.serial x
  | .handler (some _) saved => (0 < saved ∧ saved ≤ w.count) ∧
    ∀ x ∈ U, w.serial x ≤ w.wokenAt → ¬(w.posted saved).Gt (w.posted (w.serial x))

structure Inv (U F : List ℕ) (w : World) : Prop where
  shared : Shared w.events U F
  serials : (U.map w.serial).Nodup
  serial_pos : ∀ x ∈ U, 0 < w.serial x
  serial_le : ∀ x, w.serial x ≤ w.count
  times : ∀ x, 0 < w.serial x → (w.events.eventlist x).time = w.posted (w.serial x)
  fresh : ∀ x ∈ U, w.serial x ∉ w.ran ∧ w.serial x ∉ w.deleted
  past : ∀ n, n ∈ w.ran ∨ n ∈ w.deleted → n ≤ w.count
  all : ∀ n, 0 < n → n ≤ w.count → n ∈ w.ran ∨ n ∈ w.deleted ∨ n ∈ U.map w.serial
  once : w.ran.Nodup
  silent : ∀ n ∈ w.deleted, n ∉ w.ran
  inTime : ∀ n ∈ w.ran, ¬(w.posted n).Gt w.events.actTime
  woken_le : w.wokenAt ≤ w.count
  clock : 0 ≤ w.events.actTime.tvNsec ∧ w.events.actTime.tvNsec < 1000000000
  place : w.Place U

namespace Inv

theorem due_iff (h : w.Inv U F) {x : ℕ} (hx : 0 < w.serial x) :
    w.events.Due x ↔ ¬(w.posted (w.serial x)).Gt w.events.actTime := by rw [EventList.Due, h.times x hx]

theorem kept (h : w.Inv U F) : w.Kept where
  lists := ⟨U, F, h.shared, h.all⟩
  once := h.once
  silent := h.silent
  inTime := h.inTime
  run hm n hpos hle hdel hdue := by
    rcases h.all n hpos (Nat.le_trans hle h.woken_le) with hran | hd | hU
    · exact hran
    · exact absurd hd hdel
    · obtain ⟨x, hx, rfl⟩ := List.mem_map.mp hU
      have hplace := h.place
      simp only [Place, hm] at hplace
      exact absurd ((h.due_iff hpos).mpr hdue) (hplace x hx hle)
  returns := by
    constructor
    · intro time handler par
      cases F with
      | nil => rw [h.shared.post_none]; rfl
      | cons p F =>
        obtain ⟨A, B, q', -, hq, -⟩ := h.shared.post time handler par
        rw [hq]; rfl
    · intro index
      by_cases hi : ∃ x ∈ U, index = (x : ℤ)
      · obtain ⟨x, hx, rfl⟩ := hi
        obtain ⟨A, B, rfl⟩ := List.append_of_mem hx
        obtain ⟨q', hq, -⟩ := h.shared.delete
        rw [hq]; rfl
      · rw [h.shared.delete_none fun x hx he => hi ⟨x, hx, he⟩]; rfl

theorem start (tick : ℕ) : (World.start (eventInit tick)).Inv [] (List.range maxEvent) where
  shared := eventInit_shared tick
  serials := List.nodup_nil
  serial_pos := by simp
  serial_le x := Nat.le_refl 0
  times x hx := absurd hx (Nat.lt_irrefl 0)
  fresh := by simp
  past := by simp [World.start]
  all n hpos hle := absurd (Nat.lt_of_lt_of_le hpos hle) (Nat.lt_irrefl 0)
  once := List.nodup_nil
  silent := by simp [World.start]
  inTime := by simp [World.start]
  woken_le := Nat.le_refl 0
  clock := by simp [World.start, eventInit]
  place := by simp [Place, World.start, Settled]

theorem post_none (h : w.Inv U []) (time : Timespec) (handler par : ℕ) : w.post time handler par = some w := by
  rw [World.post, h.shared.post_none]
  rfl

theorem post (h : w.Inv U (p :: F)) (hr : w.requests) (time : Timespec) (handler par : ℕ) :
    ∃ U' w', w.post time handler par = some w' ∧ w'.Inv U' F := by
  obtain ⟨A, B, q', rfl, hq, hsh, hev, hact, hnts⟩ := h.shared.post time handler par
  have hpU : p ∉ A ++ B := fun hm => h.shared.apart hm List.mem_cons_self
  have hw : w.post time handler par = some { w with
      events := q', count := w.count + 1, serial := Function.update w.serial p (w.count + 1)
      posted := Function.update w.posted (w.count + 1) time } := by
    have hp : (p : ℤ) ≠ -1 := by omega
    rw [World.post, hq, Option.map_some]
    dsimp only
    rw [if_neg hp, Int.toNat_natCast]
  have hself : Function.update w.serial p (w.count + 1) p = w.count + 1 := Function.update_self ..
  have hold : ∀ x, x ≠ p → Function.update w.serial p (w.count + 1) x = w.serial x := fun x hx =>
    Function.update_of_ne hx ..
  have hposted : ∀ n ≤ w.count, Function.update w.posted (w.count + 1) time n = w.posted n := fun n hn =>
    Function.update_of_ne (Nat.ne_of_lt (Nat.lt_succ_of_le hn)) ..
  have hmem : ∀ x ∈ A ++ p :: B, x = p ∨ x ∈ A ++ B ∧ x ≠ p := by
    intro x hx
    by_cases hxp : x = p
    · exact .inl hxp
    · exact .inr ⟨by simpa [hxp] using hx, hxp⟩
  have hnew : ¬w.count + 1 ≤ w.count := Nat.not_succ_le_self _
  refine ⟨A ++ p :: B, _, hw, ?_⟩
  constructor
  case shared => exact hsh
  case serials =>
    have hmap : ((A ++ p :: B).map (Function.update w.serial p (w.count + 1))).Perm
        ((w.count + 1) :: (A ++ B).map w.serial) := by
      refine (List.perm_middle.map _).trans ?_
      rw [List.map_cons, hself, List.map_congr_left fun x hx => hold x (ne_of_mem_of_not_mem hx hpU)]
    refine hmap.nodup_iff.mpr (List.nodup_cons.mpr ⟨fun hm => ?_, h.serials⟩)
    obtain ⟨x, -, hx⟩ := List.mem_map.mp hm
    exact hnew (hx ▸ h.serial_le x)
  case serial_pos =>
    intro x hx
    dsimp only
    rcases hmem x hx with rfl | ⟨hxU, hxp⟩
    · rw [hself]
      exact Nat.succ_pos _
    · rw [hold x hxp]
      exact h.serial_pos x hxU
  case serial_le =>
    intro x
    dsimp only
    by_cases hxp : x = p
    · rw [hxp, hself]
    · rw [hold x hxp]
      exact Nat.le_succ_of_le (h.serial_le x)
  case times =>
    intro x hx
    dsimp only at *
    rw [hev]
    by_cases hxp : x = p
    · rw [hxp, hself, Function.update_self, Function.update_self]
    · rw [hold x hxp] at hx ⊢
      rw [Function.update_of_ne hxp, hposted _ (h.serial_le x)]
      exact h.times x hx
  case fresh =>
    intro x hx
    dsimp only
    rcases hmem x hx with rfl | ⟨hxU, hxp⟩
    · rw [hself]
      exact ⟨fun hc => hnew (h.past _ (.inl hc)), fun hc => hnew (h.past _ (.inr hc))⟩
    · rw [hold x hxp]
      exact h.fresh x hxU
  case past => exact fun n hn => Nat.le_succ_of_le (h.past n hn)
  case all =>
    intro n hpos hle
    dsimp only at *
    by_cases hn : n = w.count + 1
    · exact .inr (.inr (List.mem_map.mpr ⟨p, by simp, hself.trans hn.symm⟩))
    · refine (h.all n hpos (by omega)).imp_right (Or.imp_right fun hm => ?_)
      obtain ⟨x, hx, rfl⟩ := List.mem_map.mp hm
      have hx' : x ∈ A ++ p :: B := List.mem_append.mpr ((List.mem_append.mp hx).imp_right (List.mem_cons_of_mem p))
      exact List.mem_map.mpr ⟨x, hx', hold x (ne_of_mem_of_not_mem hx hpU)⟩
  case once => exact h.once
  case silent => exact h.silent
  case inTime =>
    intro n hn
    dsimp only
    rw [hact, hposted n (h.past n (.inl hn))]
    exact h.inTime n hn
  case woken_le => exact Nat.le_succ_of_le h.woken_le
  case clock => exact hact ▸ h.clock
  case place =>
    have hplace := h.place
    have hlate : ¬w.count + 1 ≤ w.wokenAt := fun hc => hnew (Nat.le_trans hc h.woken_le)
    unfold Place Settled EventList.Due at *
    dsimp only
    cases hm : w.mode with
    | idle =>
      simp only [hm] at hplace ⊢
      intro x hx hle
      rcases hmem x hx with rfl | ⟨hxU, hxp⟩
      · exact absurd (hself ▸ hle) hlate
      · rw [hold x hxp] at hle
        rw [hev, Function.update_of_ne hxp, hact]
        exact hplace x hxU hle
    | loop c => simp [requests, hm] at hr
    | handler pp saved =>
      cases pp with
      | none =>
        simp only [hm] at hplace ⊢
        intro x hx
        rcases hmem x hx with rfl | ⟨hxU, hxp⟩
        · rw [hself]
          exact Nat.lt_succ_of_le h.woken_le
        · rw [hold x hxp]
          exact hplace x hxU
      | some pp =>
        simp only [hm] at hplace ⊢
        refine ⟨⟨hplace.1.1, Nat.le_succ_of_le hplace.1.2⟩, fun x hx hle => ?_⟩
        rcases hmem x hx with rfl | ⟨hxU, hxp⟩
        · exact absurd (hself ▸ hle) hlate
        · rw [hold x hxp] at hle ⊢
          rw [hposted saved hplace.1.2, hposted _ (h.serial_le x)]
          exact hplace.2 x hxU hle

theorem place_sub (h : w.Place U) {U' : List ℕ} (hr : w.requests) (hsub : ∀ x ∈ U', x ∈ U) : w.Place U' := by
  unfold Place Settled at *
  cases hm : w.mode with
  | idle =>
    simp only [hm] at h ⊢
    exact fun x hx => h x (hsub x hx)
  | loop c => simp [requests, hm] at hr
  | handler pp saved =>
    cases pp with
    | none =>
      simp only [hm] at h ⊢
      exact fun x hx => h x (hsub x hx)
    | some pp =>
      simp only [hm] at h ⊢
      exact ⟨h.1, fun x hx => h.2 x (hsub x hx)⟩

theorem without {A B : List ℕ} (h : w.Inv (A ++ p :: B) F) : ((A ++ B).map w.serial).Nodup ∧
    (∀ x ∈ A ++ B, x ∈ A ++ p :: B) ∧ (∀ x ∈ A ++ B, w.serial x ≠ w.serial p) ∧
    ∀ n ∈ (A ++ p :: B).map w.serial, n = w.serial p ∨ n ∈ (A ++ B).map w.serial := by
  have hmap : ((A ++ p :: B).map w.serial).Perm (w.serial p :: (A ++ B).map w.serial) := by
    rw [← List.map_cons]
    exact List.perm_middle.map _
  have hnd := List.nodup_cons.mp (hmap.nodup_iff.mp h.serials)
  refine ⟨hnd.2, fun x hx => ?_, fun x hx he => hnd.1 (he ▸ List.mem_map_of_mem hx), fun n hn => ?_⟩
  · exact List.mem_append.mpr ((List.mem_append.mp hx).imp_right (List.mem_cons_of_mem p))
  · exact List.mem_cons.mp (hmap.mem_iff.mp hn)

theorem delete (h : w.Inv U F) (hr : w.requests) (index : ℤ) :
    ∃ U' F' w', w.delete index = some w' ∧ w'.Inv U' F' := by
  by_cases hi : ∃ x ∈ U, index = (x : ℤ)
  · obtain ⟨p, hp, rfl⟩ := hi
    obtain ⟨A, B, rfl⟩ := List.append_of_mem hp
    obtain ⟨q', hq, hsh, hev, hact, -⟩ := h.shared.delete
    have hw : w.delete p = some { w with events := q', deleted := w.serial p :: w.deleted } := by
      rw [World.delete, hq, Option.map_some]
      dsimp only
      rw [if_pos rfl, Int.toNat_natCast]
    obtain ⟨hserials, hsub, hne, hrest⟩ := h.without
    refine ⟨A ++ B, p :: F, _, hw, ?_⟩
    constructor
    case shared => exact hsh
    case serials => exact hserials
    case serial_pos => exact fun x hx => h.serial_pos x (hsub x hx)
    case serial_le => exact h.serial_le
    case times =>
      intro x hx
      dsimp only
      rw [hev]
      exact h.times x hx
    case fresh =>
      intro x hx
      obtain ⟨hran, hdel⟩ := h.fresh x (hsub x hx)
      exact ⟨hran, by simp [hne x hx, hdel]⟩
    case past =>
      intro n hn
      rcases hn with hn | hn
      · exact h.past n (.inl hn)
      · rcases List.mem_cons.mp hn with rfl | hn
        · exact h.serial_le p
        · exact h.past n (.inr hn)
    case all =>
      intro n hpos hle
      rcases h.all n hpos hle with hn | hn | hn
      · exact .inl hn
      · exact .inr (.inl (List.mem_cons_of_mem _ hn))
      · rcases hrest n hn with rfl | hn
        · exact .inr (.inl List.mem_cons_self)
        · exact .inr (.inr hn)
    case once => exact h.once
    case silent =>
      intro n hn
      rcases List.mem_cons.mp hn with rfl | hn
      · exact (h.fresh p hp).1
      · exact h.silent n hn
    case inTime => exact hact ▸ h.inTime
    case woken_le => exact h.woken_le
    case clock => exact hact ▸ h.clock
    case place =>
      have hplace := place_sub h.place hr hsub
      unfold Place Settled EventList.Due at *
      dsimp only
      rwa [hev, hact]
  · refine ⟨U, F, w, ?_, h⟩
    rw [World.delete, h.shared.delete_none fun x hx he => hi ⟨x, hx, he⟩]
    rfl

theorem wakeUp (h : w.Inv U F) :
    { w with events := w.events.tick, mode := .loop w.events.tick.firstevent, wokenAt := w.count : World }.Inv U F := by
  obtain ⟨hadv, hclock⟩ := Timespec.addNano_not_lt w.events.nts w.events.actTime h.clock
  exact { h with
    shared := ⟨h.shared.pending, h.shared.free, h.shared.perm, h.shared.sorted⟩
    inTime := fun n hn => Timespec.not_gt_trans (h.inTime n hn) hadv
    woken_le := Nat.le_refl _
    clock := hclock
    place := .inl h.shared.pending.head_eq }

theorem run (h : w.Inv (p :: U) F) (hdue : w.events.Due p) :
    { w with
      events := w.events.take p, mode := .handler (w.events.next p) (((w.events.next p).map w.serial).getD 0)
      ran := w.serial p :: w.ran : World }.Inv U (p :: F) := by
  obtain ⟨hserials, hsub, hne, hrest⟩ := h.without (A := [])
  have hmem : p ∈ p :: U := List.mem_cons_self
  have hnext : w.events.next p = U.head? := h.shared.pending.2.head_eq
  constructor
  case shared => exact h.shared.take
  case serials => exact hserials
  case serial_pos => exact fun x hx => h.serial_pos x (hsub x hx)
  case serial_le => exact h.serial_le
  case times => exact h.times
  case fresh =>
    intro x hx
    obtain ⟨hran, hdel⟩ := h.fresh x (hsub x hx)
    exact ⟨by simp [hne x hx, hran], hdel⟩
  case past =>
    intro n hn
    rcases hn with hn | hn
    · rcases List.mem_cons.mp hn with rfl | hn
      · exact h.serial_le p
      · exact h.past n (.inl hn)
    · exact h.past n (.inr hn)
  case all =>
    intro n hpos hle
    rcases h.all n hpos hle with hn | hn | hn
    · exact .inl (List.mem_cons_of_mem _ hn)
    · exact .inr (.inl hn)
    · rcases hrest n hn with rfl | hn
      · exact .inl List.mem_cons_self
      · exact .inr (.inr hn)
  case once => exact List.nodup_cons.mpr ⟨(h.fresh p hmem).1, h.once⟩
  case silent =>
    intro n hn hc
    rcases List.mem_cons.mp hc with rfl | hc
    · exact (h.fresh p hmem).2 hn
    · exact h.silent n hn hc
  case inTime =>
    intro n hn
    rcases List.mem_cons.mp hn with rfl | hn
    · exact (h.due_iff (h.serial_pos p hmem)).mp hdue
    · exact h.inTime n hn
  case woken_le => exact h.woken_le
  case clock => exact h.clock
  case place =>
    unfold Place
    rw [hnext]
    cases U with
    | nil => exact fun x hx => by cases hx
    | cons x U =>
      have hx := h.serial_pos x (by simp)
      refine ⟨⟨hx, h.serial_le x⟩, fun y hy _ => ?_⟩
      have hxy : ¬(w.events.eventlist x).time.Gt (w.events.eventlist y).time := by
        rcases List.mem_cons.mp hy with rfl | hyU
        · exact Timespec.Gt.irrefl _
        · exact (List.pairwise_cons.mp (List.pairwise_cons.mp h.shared.sorted).2).1 y hyU
      rwa [h.times x hx, h.times y (h.serial_pos y (List.mem_cons_of_mem p hy))] at hxy

theorem turn (h : w.Inv U F) (hm : w.mode = .loop (some p)) :
    ∃ U' F' w', World.step .turn w = some w' ∧ w'.Inv U' F' := by
  have hplace := h.place
  simp only [Place, hm] at hplace
  by_cases hdue : w.events.Due p
  · have hhead : some p = U.head? := hplace.resolve_right fun hc => hc.1 p rfl hdue
    cases U with
    | nil => cases hhead
    | cons x U =>
      obtain rfl : p = x := Option.some.inj hhead
      refine ⟨U, p :: F, _, ?_, h.run hdue⟩
      simp only [World.step, hm, hdue, if_true]
  · have hsettled : w.Settled U := by
      rcases hplace with hhead | hc
      · cases U with
        | nil => cases hhead
        | cons x U =>
          obtain rfl : p = x := Option.some.inj hhead
          intro y hy _ hyd
          rcases List.mem_cons.mp hy with rfl | hyU
          · exact hdue hyd
          · have hpy := (List.pairwise_cons.mp h.shared.sorted).1 y hyU
            exact hyd ((not_not.mp hdue).of_not hpy)
      · exact hc.2
    refine ⟨U, F, { w with mode := .idle }, ?_, { h with shared := h.shared, place := hsettled }⟩
    simp only [World.step, hm, hdue, if_false]

theorem handlerReturns (h : w.Inv U F) {pp : Option ℕ} {saved : ℕ} (hm : w.mode = .handler pp saved)
    (hc : w.Careful .handlerReturns) : { w with mode := .loop pp : World }.Inv U F := by
  have hplace := h.place
  simp only [Place, hm] at hplace
  simp only [Careful, hm] at hc
  refine { h with shared := h.shared, place := ?_ }
  cases pp with
  | none => exact .inr ⟨fun _ hx => (nomatch hx), fun x hx hle => absurd hle (Nat.not_le.mpr (hplace x hx))⟩
  | some pp =>
    rcases hc with hfirst | ⟨hdue, rfl⟩
    · exact .inl (hfirst.symm.trans h.shared.pending.head_eq)
    · refine .inr ⟨fun x hx => Option.some.inj hx ▸ hdue, fun x hx hle hxd => ?_⟩
      have hpp := (h.due_iff hplace.1.1).not.mp hdue
      have hx' := (h.due_iff (h.serial_pos x hx)).mp hxd
      exact hx' ((not_not.mp hpp).of_not (hplace.2 x hx hle))

theorem step (h : w.Inv U F) {a : Action} (hc : w.Careful a) (hs : World.step a w = some w') :
    ∃ U' F', w'.Inv U' F' := by
  cases a with
  | post time handler par =>
    simp only [World.step, Option.ite_none_right_eq_some] at hs
    obtain ⟨hr, hs⟩ := hs
    cases F with
    | nil =>
      obtain rfl : w = w' := Option.some.inj ((h.post_none time handler par).symm.trans hs)
      exact ⟨U, [], h⟩
    | cons p F =>
      obtain ⟨U', w'', hw, hi⟩ := h.post hr time handler par
      obtain rfl : w'' = w' := Option.some.inj (hw.symm.trans hs)
      exact ⟨U', F, hi⟩
  | delete index =>
    simp only [World.step, Option.ite_none_right_eq_some] at hs
    obtain ⟨hr, hs⟩ := hs
    obtain ⟨U', F', w'', hw, hi⟩ := h.delete hr index
    obtain rfl : w'' = w' := Option.some.inj (hw.symm.trans hs)
    exact ⟨U', F', hi⟩
  | wakeUp =>
    cases hm : w.mode with
    | idle =>
      simp only [World.step, hm, Option.some.injEq] at hs
      exact ⟨U, F, hs ▸ h.wakeUp⟩
    | _ => simp [World.step, hm] at hs
  | turn =>
    cases hm : w.mode with
    | loop p =>
      cases p with
      | none =>
        simp only [World.step, hm, Option.some.injEq] at hs
        have hplace := h.place
        simp only [Place, hm] at hplace
        have hsettled : w.Settled U := by
          rcases hplace with hhead | hc
          · rw [List.head?_eq_none_iff.mp hhead.symm]
            exact fun x hx => by cases hx
          · exact hc.2
        exact ⟨U, F, hs ▸ { h with shared := h.shared, place := hsettled }⟩
      | some p =>
        obtain ⟨U', F', w'', hw, hi⟩ := h.turn hm
        obtain rfl : w'' = w' := Option.some.inj (hw.symm.trans hs)
        exact ⟨U', F', hi⟩
    | _ => simp [World.step, hm] at hs
  | handlerReturns =>
    cases hm : w.mode with
    | handler pp saved =>
      simp only [World.step, hm, Option.some.injEq] at hs
      exact ⟨U, F, hs ▸ h.handlerReturns hm hc⟩
    | _ => simp [World.step, hm] at hs

end Inv

abbrev Run (tick : ℕ) (ok : World → Action → Prop) : World → Prop := Reach step ok (start (eventInit tick))

theorem run_carried {tick : ℕ} (h : Run tick Careful w) : w.Kept := by
  have hinv := Reach.invariant (fun w => ∃ U F, w.Inv U F) ⟨_, _, Inv.start tick⟩
    (fun _ _ _ hi hc hs => by
      obtain ⟨U, F, hi⟩ := hi
      exact hi.step hc hs) h
  obtain ⟨U, F, hi⟩ := hinv
  exact hi.kept

def posting : List Action :=
  [.post ⟨0, 0⟩ 1 0, .post ⟨0, 500000⟩ 2 0, .post ⟨0, 700000⟩ 3 0, .wakeUp, .turn, .post ⟨0, 1500000⟩ 4 0, .delete 2,
    .handlerReturns, .turn, .handlerReturns, .turn, .wakeUp, .turn]

theorem run_carried_posting : ∃ w, runSteps step Careful posting (start (eventInit 1000)) = some w ∧
    w.ran = [4, 2, 1] ∧ w.deleted = [3] ∧ w.Kept := by
  have hmap : (runSteps step Careful posting (start (eventInit 1000))).map (fun w => (w.ran, w.deleted)) =
      some ([4, 2, 1], [3]) := by decide +kernel
  obtain ⟨w, hw, hlists⟩ := Option.map_eq_some_iff.mp hmap
  obtain ⟨hran, hdeleted⟩ := Prod.mk.inj hlists
  exact ⟨w, hw, hran, hdeleted, run_carried (runSteps_reach _ _ hw)⟩

def losing : List Action :=
  [.post ⟨0, 0⟩ 1 0, .post ⟨0, 0⟩ 2 0, .wakeUp, .turn, .post ⟨0, 0⟩ 3 0, .handlerReturns, .turn, .handlerReturns, .turn]

def deleting : List Action :=
  [.post ⟨0, 0⟩ 1 0, .post ⟨0, 0⟩ 2 0, .wakeUp, .turn, .delete 0, .handlerReturns, .turn]

/-- The third posting is in neither list and never runs; the deleted event runs. -/
theorem posting_lost :
    (∃ w, Run 1000 (fun _ _ => True) w ∧ runSteps step (fun _ _ => True) losing (start (eventInit 1000)) = some w ∧
      w.count = 3 ∧ w.events.firstevent = none ∧ 3 ∉ w.ran ∧ 3 ∉ w.deleted) ∧
    ∃ w, Run 1000 (fun _ _ => True) w ∧ runSteps step (fun _ _ => True) deleting (start (eventInit 1000)) = some w ∧
      1 ∈ w.deleted ∧ 1 ∈ w.ran := by
  have hlost : (runSteps step (fun _ _ => True) losing (start (eventInit 1000))).map
      (fun w => (w.count, w.events.firstevent, w.ran, w.deleted)) = some (3, none, [1, 2], []) := by decide +kernel
  have hdeleted : (runSteps step (fun _ _ => True) deleting (start (eventInit 1000))).map
      (fun w => (w.ran, w.deleted)) = some ([1, 2], [1]) := by decide +kernel
  constructor
  · obtain ⟨w, hw, hres⟩ := Option.map_eq_some_iff.mp hlost
    simp only [Prod.mk.injEq] at hres
    obtain ⟨hcount, hfirst, hran, hdel⟩ := hres
    exact ⟨w, runSteps_reach _ _ hw, hw, hcount, hfirst, by simp [hran], by simp [hdel]⟩
  · obtain ⟨w, hw, hres⟩ := Option.map_eq_some_iff.mp hdeleted
    simp only [Prod.mk.injEq] at hres
    exact ⟨w, runSteps_reach _ _ hw, hw, by simp [hres.2], by simp [hres.1]⟩

end World

end FreeDos32.Oslib
