import FreeDos32.Library.Runs
import FreeDos32.Pit.Process

namespace FreeDos32.Pit

open Kernel

inductive Isr where
  | pitIsr
  | pitIsr2
  deriving DecidableEq

/-- A call of `pit_process` that has not returned, and if a handler has made it. -/
inductive Pass where
  | loop (irq : Bool) (e : Option ℕ)
  | callback (irq : Bool) (enext : Option ℕ)

/-- An event that waits: what it has been registered for, and what the clocks said then. -/
structure Registration where
  usec : ℕ
  counted : ℕ
  elapsed : ℕ
  phase : ℕ
  period : ℕ

/-- A callback that has been run: the ticks that had been counted since the registration, and those that had elapsed. -/
structure Call where
  registration : Registration
  counted : ℕ
  elapsed : ℕ

/-- The module with its clocks. `elapsed` counts the ticks of the PIT's counter and `phase` those since it was loaded with
`period`; `counted` are those of the periods whose interrupts have been served. `clock` is the time stamp counter. -/
structure Timer where
  queue : EventQueue
  isr : Isr
  inIrq : ℕ
  passes : List Pass
  period : ℕ
  phase : ℕ
  elapsed : ℕ
  counted : ℕ
  clock : ℕ
  waiting : List (ℕ × Registration)
  calls : List Call

inductive TimerAction where
  | elapse (pit tsc : ℕ)
  | register (usec callback param : ℕ)
  | cancel (eventHandle : ℕ)
  | interrupt
  | externalProcess
  | setMode (mode : ℤ) (maxcount : BitVec 16)
  | turn
  | callbackReturns

/-- What the counter starts from when it is loaded with `max`. -/
def loaded (max : ℕ) : ℕ := if max = 0 then 0x10000 else max

def pitCompatibleMode : ℤ := 0

def pitNativeMode : ℤ := 1

namespace Timer

def start (pitTicks tickPerSec : ℕ) (tscTime : Bool) : Timer where
  queue := pitInit pitTicks tickPerSec tscTime
  isr := if pitTicks = 0x10000 then .pitIsr else .pitIsr2
  inIrq := 0
  passes := []
  period := pitTicks
  phase := 0
  elapsed := 0
  counted := 0
  clock := 0
  waiting := []
  calls := []

def frequency (t : Timer) : ℕ := if t.queue.tscTime then t.queue.tickPerSec else pitClock

def rdtsc (t : Timer) : ℕ := t.clock % 2 ^ 64

def countedTicks (t : Timer) : ℕ := if t.queue.tscTime then t.clock else t.counted

def elapsedTicks (t : Timer) : ℕ := if t.queue.tscTime then t.clock else t.elapsed

def due (t : Timer) (r : Registration) : ℕ := r.usec * t.frequency / 1000000

def forget (e : ℕ) (t : Timer) : Timer := { t with waiting := t.waiting.filter fun w => w.1 ≠ e }

/-- Not while `pit_process` is between two callbacks. -/
def requests (t : Timer) : Bool :=
  match t.passes with
  | .loop _ _ :: _ => false
  | _ => true

def register (usec callback param : ℕ) (t : Timer) : Timer :=
  let (e, queue) := t.queue.pitEventRegister t.rdtsc usec callback param
  match e with
  | none => { t with queue }
  | some e =>
    { t.forget e with
      queue
      waiting := (e, ⟨usec, t.countedTicks, t.elapsedTicks, t.phase, t.period⟩) :: (t.forget e).waiting }

def cancel (eventHandle : ℕ) (t : Timer) : Option Timer :=
  (t.queue.pitEventCancel eventHandle).map fun (res, queue) =>
    if res = 0 then { t.forget eventHandle with queue } else { t with queue }

/-- An interrupt comes when the counter has run down. `in_irq` keeps one handler from interrupting another's `pit_process`. -/
def interrupt (t : Timer) : Option Timer :=
  if t.period ≤ t.phase then
    let n := match t.isr with
      | .pitIsr => 0x10000
      | .pitIsr2 => t.queue.pitTicks
    let t := { t with
      queue := { t.queue with ticks := (t.queue.ticks + n) % 2 ^ 64 }
      phase := t.phase - t.period
      counted := t.counted + t.period }
    if t.inIrq = 0 then some { t with inIrq := 1, passes := .loop true t.queue.eventsUsed.begin_ :: t.passes } else some t
  else none

/-- Another module that has taken the PIT calls this once in a period. -/
def externalProcess (t : Timer) : Option Timer :=
  if t.period ≤ t.phase then
    let queue := t.queue.tick
    some { t with
      queue
      phase := t.phase - t.period
      counted := t.counted + t.period
      passes := .loop false queue.eventsUsed.begin_ :: t.passes }
  else none

/-- `maxcount - pit_ticks` is an `unsigned`. -/
def pitSetMode (mode : ℤ) (maxcount : BitVec 16) (t : Timer) : ℤ × Timer :=
  if mode = pitCompatibleMode ∨ mode = pitNativeMode then
    let adjustment := (maxcount.toNat + 2 ^ 32 - t.queue.pitTicks) % 2 ^ 32
    (0, { t with
      queue := { t.queue with ticks := (t.queue.ticks + adjustment) % 2 ^ 64, pitTicks := maxcount.toNat }
      isr := if mode = pitNativeMode then .pitIsr2 else .pitIsr
      period := loaded maxcount.toNat
      phase := 0 })
  else (-1, t)

/-- The event is run: it is not waiting any more. -/
def call (e : ℕ) (t : Timer) : Timer :=
  let calls := (t.waiting.filter fun w => w.1 = e).map fun w =>
    ⟨w.2, t.countedTicks - w.2.counted, t.elapsedTicks - w.2.elapsed⟩
  { t.forget e with queue := t.queue.freeEvent e, calls := calls ++ t.calls }

def turn (t : Timer) : Option Timer :=
  match t.passes with
  | .loop irq (some e) :: passes =>
    let enext := (t.queue.items e).next
    if (t.queue.event e).when_ ≤ t.queue.now t.rdtsc then some { t.call e with passes := .callback irq enext :: passes }
    else some { t with passes := .loop irq enext :: passes }
  | .loop irq none :: passes => some { t with passes, inIrq := if irq then t.inIrq - 1 else t.inIrq }
  | _ => none

def callbackReturns (t : Timer) : Option Timer :=
  match t.passes with
  | .callback irq enext :: passes => some { t with passes := .loop irq enext :: passes }
  | _ => none

def step : TimerAction → Timer → Option Timer
  | .elapse pit tsc, t => some { t with elapsed := t.elapsed + pit, phase := t.phase + pit, clock := t.clock + tsc }
  | .register usec callback param, t => if t.requests then some (t.register usec callback param) else none
  | .cancel eventHandle, t => if t.requests then t.cancel eventHandle else none
  | .interrupt, t => t.interrupt
  | .externalProcess, t => t.externalProcess
  | .setMode mode maxcount, t => if t.requests then some (t.pitSetMode mode maxcount).2 else none
  | .turn, t => t.turn
  | .callbackReturns, t => t.callbackReturns

/-- A registration has a deadline that is not cut off and does not wrap; the mode is not changed to another count while an event
waits; and then `pit_isr` serves no interrupts of a shorter period than it counts. -/
def Careful (t : Timer) : TimerAction → Prop
  | .register usec _ _ => usec * t.frequency / 1000000 < 2 ^ 32 ∧ usec * t.frequency / 1000000 + t.queue.now t.rdtsc < 2 ^ 64
  | .setMode mode maxcount =>
    t.queue.tscTime ∨ ¬(mode = pitCompatibleMode ∨ mode = pitNativeMode) ∨ maxcount.toNat = t.queue.pitTicks ∨ t.waiting = []
  | .interrupt => t.queue.tscTime ∨ t.isr = .pitIsr2 ∨ t.period = 0x10000 ∨ t.waiting = []
  | _ => True

instance (t : Timer) : DecidablePred t.Careful
  | .register _ _ _ => inferInstanceAs (Decidable (_ ∧ _))
  | .setMode _ _ => inferInstanceAs (Decidable (_ ∨ _ ∨ _ ∨ _))
  | .interrupt => inferInstanceAs (Decidable (_ ∨ _ ∨ _ ∨ _))
  | .elapse _ _ => inferInstanceAs (Decidable True)
  | .cancel _ => inferInstanceAs (Decidable True)
  | .externalProcess => inferInstanceAs (Decidable True)
  | .turn => inferInstanceAs (Decidable True)
  | .callbackReturns => inferInstanceAs (Decidable True)

/-- `n` rounded up to whole periods. -/
def wholePeriods (n period : ℕ) : ℕ := (n + period - 1) / period * period

/-- The ticks that had to elapse had been counted; and they had elapsed, too, if the event was registered no later in its period
than the rounding makes up for. -/
def OnTime (t : Timer) (c : Call) : Prop :=
  t.due c.registration ≤ c.counted ∧
    (t.due c.registration + c.registration.phase ≤ wholePeriods (t.due c.registration) c.registration.period →
      t.due c.registration ≤ c.elapsed)

/-- An event that waits has its deadline `due` ticks after `registered`, which `total` had been then. -/
structure Waits (t : Timer) (total e : ℕ) (r : Registration) : Prop where
  deadline : ∃ registered ≤ total, (t.queue.event e).when_ = t.due r + registered % 2 ^ 64 ∧
    total - registered ≤ t.countedTicks - r.counted
  counted : r.counted ≤ t.countedTicks
  tsc : t.queue.tscTime = true → r.elapsed = r.counted
  pit : t.queue.tscTime = false →
    r.period = t.period ∧ t.period ∣ t.counted - r.counted ∧ r.elapsed + (t.counted - r.counted) + t.phase ≤ t.elapsed + r.phase

structure Inv (t : Timer) : Prop where
  period : t.period = loaded t.queue.pitTicks
  total : ∃ total, t.queue.now t.rdtsc = total % 2 ^ 64 ∧ (t.queue.tscTime = true → total = t.clock) ∧
    ∀ w ∈ t.waiting, t.Waits total w.1 w.2
  calls : ∀ c ∈ t.calls, t.OnTime c

section Steps

variable {t t' : Timer} {e total : ℕ} {r : Registration}

theorem wholePeriods_le {n d period : ℕ} (hp : 0 < period) (hdvd : period ∣ d) (hle : n ≤ d) : wholePeriods n period ≤ d := by
  obtain ⟨k, rfl⟩ := hdvd
  unfold wholePeriods
  rw [Nat.mul_comm period k]
  apply Nat.mul_le_mul_right
  have hlt : (n + period - 1) / period < k + 1 := by
    rw [Nat.div_lt_iff_lt_mul hp, Nat.add_mul, Nat.one_mul, Nat.mul_comm k]
    omega
  omega

/-- Counters that wrap do not hide the time between. -/
theorem le_of_wrapped {n a b m : ℕ} (hab : a ≤ b) (hle : n + a % m ≤ b % m) : n ≤ b - a := by
  have ha := Nat.div_add_mod a m
  have hb := Nat.div_add_mod b m
  have hdiv := Nat.mul_le_mul_left m (Nat.div_le_div_right (c := m) hab)
  omega

theorem loaded_pos (n : ℕ) : 0 < loaded n := by
  unfold loaded
  split <;> omega

theorem le_loaded (n : ℕ) : n ≤ loaded n := by
  unfold loaded
  split <;> omega

theorem Waits.onTime (h : t.Waits total e r) (hp : 0 < t.period) (hnow : t.queue.now t.rdtsc = total % 2 ^ 64)
    (hdue : (t.queue.event e).when_ ≤ t.queue.now t.rdtsc) :
    t.OnTime ⟨r, t.countedTicks - r.counted, t.elapsedTicks - r.elapsed⟩ := by
  obtain ⟨registered, hle, hwhen, hgap⟩ := h.deadline
  have hcounted : t.due r ≤ t.countedTicks - r.counted := by
    rw [hwhen, hnow] at hdue
    exact Nat.le_trans (le_of_wrapped hle hdue) hgap
  refine ⟨hcounted, ?_⟩
  intro hphase
  cases htsc : t.queue.tscTime with
  | true =>
    simp only [countedTicks, elapsedTicks, htsc, if_true] at hcounted ⊢
    rwa [h.tsc htsc]
  | false =>
    simp only [countedTicks, elapsedTicks, htsc] at hcounted ⊢
    obtain ⟨hperiod, hdvd, helapsed⟩ := h.pit htsc
    have hwhole : wholePeriods (t.due r) t.period ≤ t.counted - r.counted := wholePeriods_le hp hdvd hcounted
    simp only [hperiod] at hphase
    simp only [Bool.false_eq_true, if_false]
    omega

/-- The same time base. -/
structure SameBase (t t' : Timer) : Prop where
  tscTime : t'.queue.tscTime = t.queue.tscTime
  tickPerSec : t'.queue.tickPerSec = t.queue.tickPerSec

theorem SameBase.due (h : SameBase t t') (r : Registration) : t'.due r = t.due r := by
  simp only [Timer.due, frequency, h.tscTime, h.tickPerSec]

theorem SameBase.onTime (h : SameBase t t') {c : Call} (hc : t.OnTime c) : t'.OnTime c := by
  unfold OnTime
  rw [h.due]
  exact hc

/-- The clocks go on and an event waits as before: what is counted is no less than what `total` gains. -/
theorem Waits.next {total' : ℕ} (h : t.Waits total e r) (hbase : SameBase t t') (hevent : t'.queue.event e = t.queue.event e)
    (htotal : total ≤ total') (hcounted : t.countedTicks + (total' - total) ≤ t'.countedTicks)
    (hpit : t.queue.tscTime = false → t'.period = t.period ∧ t.counted ≤ t'.counted ∧ t.period ∣ t'.counted - t.counted ∧
      t'.counted - t.counted + t'.phase + t.elapsed ≤ t'.elapsed + t.phase) : t'.Waits total' e r := by
  obtain ⟨registered, hle, hwhen, hgap⟩ := h.deadline
  have hreg := h.counted
  constructor
  · refine ⟨registered, by omega, ?_, by omega⟩
    rw [hevent, hbase.due]
    exact hwhen
  · omega
  · rw [hbase.tscTime]
    exact h.tsc
  · intro htsc
    rw [hbase.tscTime] at htsc
    obtain ⟨hperiod, hdvd, helapsed⟩ := h.pit htsc
    obtain ⟨hperiod', hle', hdvd', helapsed'⟩ := hpit htsc
    simp only [countedTicks, htsc, Bool.false_eq_true, if_false] at hreg
    have hsplit : t'.counted - r.counted = t'.counted - t.counted + (t.counted - r.counted) := by omega
    refine ⟨hperiod.trans hperiod'.symm, ?_, by omega⟩
    rw [hperiod', hsplit]
    exact Nat.dvd_add hdvd' hdvd

/-- Nothing that has to do with the time has changed. -/
structure Still (t t' : Timer) : Prop extends SameBase t t' where
  pitTicks : t'.queue.pitTicks = t.queue.pitTicks
  ticks : t'.queue.ticks = t.queue.ticks
  period : t'.period = t.period
  phase : t'.phase = t.phase
  elapsed : t'.elapsed = t.elapsed
  counted : t'.counted = t.counted
  clock : t'.clock = t.clock

theorem Still.countedTicks_eq (h : Still t t') : t'.countedTicks = t.countedTicks := by
  simp only [Timer.countedTicks, h.tscTime, h.counted, h.clock]

theorem Still.now_eq (h : Still t t') : t'.queue.now t'.rdtsc = t.queue.now t.rdtsc := by
  simp only [EventQueue.now, rdtsc, h.tscTime, h.ticks, h.clock]

theorem Still.waits (h : Still t t') (hw : t.Waits total e r) (hevent : t'.queue.event e = t.queue.event e) :
    t'.Waits total e r := by
  apply hw.next h.toSameBase hevent Nat.le.refl
  · rw [h.countedTicks_eq]
    omega
  · intro _
    rw [h.period, h.counted, h.phase, h.elapsed]
    refine ⟨rfl, Nat.le.refl, by simp, by omega⟩

theorem Inv.still (h : t.Inv) (hstill : Still t t') (hwaiting : t'.waiting ⊆ t.waiting)
    (hevent : t'.queue.event = t.queue.event) (hcalls : ∀ c ∈ t'.calls, t.OnTime c) : t'.Inv := by
  obtain ⟨total, hnow, hclock, hwaits⟩ := h.total
  constructor
  · rw [hstill.period, hstill.pitTicks]
    exact h.period
  · refine ⟨total, ?_, ?_, ?_⟩
    · rw [hstill.now_eq]
      exact hnow
    · rw [hstill.tscTime, hstill.clock]
      exact hclock
    · intro w hw
      exact hstill.waits (hwaits w (hwaiting hw)) (by rw [hevent])
  · intro c hc
    exact hstill.toSameBase.onTime (hcalls c hc)

theorem forget_subset (e : ℕ) (t : Timer) : (t.forget e).waiting ⊆ t.waiting := by
  intro w hw
  exact (List.mem_filter.mp hw).1

theorem start_inv {pitTicks : ℕ} (hpit : 2 ≤ pitTicks) (tickPerSec : ℕ) (tscTime : Bool) :
    (start pitTicks tickPerSec tscTime).Inv := by
  constructor
  · show pitTicks = loaded pitTicks
    rw [loaded, if_neg (by omega)]
  · refine ⟨0, ?_, ?_, ?_⟩
    · cases tscTime <;> rfl
    · intro _
      rfl
    · intro w hw
      cases hw
  · intro c hc
    cases hc

theorem cancelLoop_event {handle fuel : ℕ} {o : Option ℕ} {q : EventQueue} {res : ℤ × EventQueue}
    (h : EventQueue.cancelLoop handle fuel o q = some res) : res.2 = q ∨ res.2 = q.freeEvent handle := by
  induction fuel generalizing o with
  | zero => cases h
  | succ fuel ih =>
    cases o with
    | none =>
      obtain rfl := Option.some.inj h
      exact .inl rfl
    | some e =>
      rw [EventQueue.cancelLoop] at h
      by_cases he : e = handle
      · rw [if_pos he] at h
        obtain rfl := Option.some.inj h
        rw [he]
        exact .inr rfl
      · rw [if_neg he] at h
        exact ih h

theorem Inv.cancel {handle : ℕ} (h : t.Inv) (hstep : t.cancel handle = some t') : t'.Inv := by
  obtain ⟨⟨res, queue⟩, hcancel, heq⟩ := Option.map_eq_some_iff.mp hstep
  have hqueue := cancelLoop_event hcancel
  simp only at hqueue heq
  have hsame : queue.event = t.queue.event ∧ queue.tscTime = t.queue.tscTime ∧ queue.tickPerSec = t.queue.tickPerSec ∧
      queue.pitTicks = t.queue.pitTicks ∧ queue.ticks = t.queue.ticks := by
    obtain rfl | rfl := hqueue
    · exact ⟨rfl, rfl, rfl, rfl, rfl⟩
    · exact ⟨rfl, rfl, rfl, rfl, rfl⟩
  obtain ⟨hevent, htsc, htick, hpit, hticks⟩ := hsame
  by_cases hres : res = 0
  · rw [if_pos hres] at heq
    subst heq
    exact h.still ⟨⟨htsc, htick⟩, hpit, hticks, rfl, rfl, rfl, rfl, rfl⟩ (forget_subset _ _) hevent h.calls
  · rw [if_neg hres] at heq
    subst heq
    exact h.still ⟨⟨htsc, htick⟩, hpit, hticks, rfl, rfl, rfl, rfl, rfl⟩ (List.Subset.refl _) hevent h.calls

theorem Inv.call (h : t.Inv) (hdue : (t.queue.event e).when_ ≤ t.queue.now t.rdtsc) : (t.call e).Inv := by
  obtain ⟨total, hnow, hclock, hwaits⟩ := h.total
  have hp : 0 < t.period := by
    rw [h.period]
    exact loaded_pos _
  have hstill : Still t (t.call e) := ⟨⟨rfl, rfl⟩, rfl, rfl, rfl, rfl, rfl, rfl, rfl⟩
  apply h.still hstill (forget_subset _ _) rfl
  intro c hc
  obtain hnew | hold := List.mem_append.mp hc
  · obtain ⟨w, hw, rfl⟩ := List.mem_map.mp hnew
    obtain ⟨hmem, he⟩ := List.mem_filter.mp hw
    have hwe := hwaits w hmem
    simp only [decide_eq_true_eq] at he
    rw [he] at hwe
    exact hwe.onTime hp hnow hdue
  · exact h.calls c hold

theorem Inv.turn (h : t.Inv) (hstep : t.turn = some t') : t'.Inv := by
  unfold Timer.turn at hstep
  split at hstep
  · split at hstep
    · rename_i hdue
      obtain rfl := Option.some.inj hstep
      have hcall := h.call hdue
      exact hcall.still ⟨⟨rfl, rfl⟩, rfl, rfl, rfl, rfl, rfl, rfl, rfl⟩ (List.Subset.refl _) rfl hcall.calls
    · obtain rfl := Option.some.inj hstep
      exact h.still ⟨⟨rfl, rfl⟩, rfl, rfl, rfl, rfl, rfl, rfl, rfl⟩ (List.Subset.refl _) rfl h.calls
  · obtain rfl := Option.some.inj hstep
    exact h.still ⟨⟨rfl, rfl⟩, rfl, rfl, rfl, rfl, rfl, rfl, rfl⟩ (List.Subset.refl _) rfl h.calls
  · cases hstep

theorem Inv.callbackReturns (h : t.Inv) (hstep : t.callbackReturns = some t') : t'.Inv := by
  unfold Timer.callbackReturns at hstep
  split at hstep
  · obtain rfl := Option.some.inj hstep
    exact h.still ⟨⟨rfl, rfl⟩, rfl, rfl, rfl, rfl, rfl, rfl, rfl⟩ (List.Subset.refl _) rfl h.calls
  · cases hstep

theorem Inv.elapse (h : t.Inv) (pit tsc : ℕ) :
    Inv { t with elapsed := t.elapsed + pit, phase := t.phase + pit, clock := t.clock + tsc } := by
  obtain ⟨total, hnow, hclock, hwaits⟩ := h.total
  have hbase : SameBase t { t with elapsed := t.elapsed + pit, phase := t.phase + pit, clock := t.clock + tsc } := ⟨rfl, rfl⟩
  refine ⟨h.period, ?_, fun c hc => hbase.onTime (h.calls c hc)⟩
  obtain htsc | htsc := Bool.eq_false_or_eq_true t.queue.tscTime
  · obtain rfl := hclock htsc
    refine ⟨t.clock + tsc, ?_, fun _ => rfl, ?_⟩
    · simp [EventQueue.now, htsc, rdtsc]
    · intro w hw
      apply (hwaits w hw).next hbase rfl (Nat.le_add_right _ _)
      · simp [countedTicks, htsc]
      · intro hfalse
        rw [htsc] at hfalse
        cases hfalse
  · refine ⟨total, ?_, ?_, ?_⟩
    · simp only [EventQueue.now, htsc] at hnow ⊢
      exact hnow
    · intro htrue
      rw [htsc] at htrue
      cases htrue
    · intro w hw
      apply (hwaits w hw).next hbase rfl Nat.le.refl
      · simp [countedTicks, htsc]
      · intro _
        refine ⟨rfl, Nat.le.refl, by simp, ?_⟩
        simp only
        omega

/-- The counter has run down, and `n` ticks are added for the period, which are no more than it has. -/
theorem Inv.serve (h : t.Inv) (hphase : t.period ≤ t.phase) {n : ℕ}
    (hn : t.queue.tscTime = true ∨ n ≤ t.period ∨ t.waiting = []) :
    Inv { t with
      queue := { t.queue with ticks := (t.queue.ticks + n) % 2 ^ 64 }
      phase := t.phase - t.period
      counted := t.counted + t.period } := by
  obtain ⟨total, hnow, hclock, hwaits⟩ := h.total
  have hbase : SameBase t { t with
      queue := { t.queue with ticks := (t.queue.ticks + n) % 2 ^ 64 }
      phase := t.phase - t.period
      counted := t.counted + t.period } := ⟨rfl, rfl⟩
  refine ⟨h.period, ?_, fun c hc => hbase.onTime (h.calls c hc)⟩
  obtain htsc | htsc := Bool.eq_false_or_eq_true t.queue.tscTime
  · refine ⟨total, ?_, hclock, ?_⟩
    · simp only [EventQueue.now, htsc] at hnow ⊢
      exact hnow
    · intro w hw
      apply (hwaits w hw).next hbase rfl Nat.le.refl
      · simp [countedTicks, htsc]
      · intro hfalse
        rw [htsc] at hfalse
        cases hfalse
  · refine ⟨total + n, ?_, ?_, ?_⟩
    · simp only [EventQueue.now, htsc, Bool.false_eq_true, if_false] at hnow ⊢
      rw [hnow]
      omega
    · intro htrue
      rw [htsc] at htrue
      cases htrue
    · intro w hw
      have hle : n ≤ t.period := by
        obtain htrue | hle | hnil := hn
        · rw [htsc] at htrue
          cases htrue
        · exact hle
        · rw [hnil] at hw
          cases hw
      apply (hwaits w hw).next hbase rfl (Nat.le_add_right _ _)
      · simp only [countedTicks, htsc, Bool.false_eq_true, if_false]
        omega
      · intro _
        refine ⟨rfl, Nat.le_add_right _ _, by simp, ?_⟩
        simp only
        omega

theorem Inv.interrupt (h : t.Inv) (hcareful : t.Careful .interrupt) (hstep : t.interrupt = some t') : t'.Inv := by
  unfold Timer.interrupt at hstep
  split at hstep
  · rename_i hphase
    have hserve := h.serve hphase (n := match t.isr with | .pitIsr => 0x10000 | .pitIsr2 => t.queue.pitTicks) ?_
    · simp only at hstep
      split at hstep
      · obtain rfl := Option.some.inj hstep
        exact hserve.still ⟨⟨rfl, rfl⟩, rfl, rfl, rfl, rfl, rfl, rfl, rfl⟩ (List.Subset.refl _) rfl hserve.calls
      · obtain rfl := Option.some.inj hstep
        exact hserve
    · obtain htsc | hisr | hperiod | hnil := hcareful
      · exact .inl htsc
      · right; left
        rw [hisr, h.period]
        exact le_loaded _
      · right; left
        cases t.isr with
        | pitIsr => exact Nat.le_of_eq hperiod.symm
        | pitIsr2 =>
          rw [h.period]
          exact le_loaded _
      · exact .inr (.inr hnil)
  · cases hstep

theorem Inv.externalProcess (h : t.Inv) (hstep : t.externalProcess = some t') : t'.Inv := by
  unfold Timer.externalProcess at hstep
  split at hstep
  · rename_i hphase
    have hle : t.queue.pitTicks ≤ t.period := by
      rw [h.period]
      exact le_loaded _
    have hserve := h.serve hphase (.inr (.inl hle))
    obtain rfl := Option.some.inj hstep
    exact hserve.still ⟨⟨rfl, rfl⟩, rfl, rfl, rfl, rfl, rfl, rfl, rfl⟩ (List.Subset.refl _) rfl hserve.calls
  · cases hstep

/-- The counter is loaded anew and `n` ticks are added: none, and with the same count, if an event waits for them. -/
theorem Inv.reload (h : t.Inv) {n count : ℕ} (isr : Isr)
    (hn : t.queue.tscTime = true ∨ (n = 0 ∧ count = t.queue.pitTicks) ∨ t.waiting = []) :
    Inv { t with
      queue := { t.queue with ticks := (t.queue.ticks + n) % 2 ^ 64, pitTicks := count }
      isr
      period := loaded count
      phase := 0 } := by
  obtain ⟨total, hnow, hclock, hwaits⟩ := h.total
  have hbase : SameBase t { t with
      queue := { t.queue with ticks := (t.queue.ticks + n) % 2 ^ 64, pitTicks := count }
      isr
      period := loaded count
      phase := 0 } := ⟨rfl, rfl⟩
  refine ⟨rfl, ?_, fun c hc => hbase.onTime (h.calls c hc)⟩
  obtain htsc | htsc := Bool.eq_false_or_eq_true t.queue.tscTime
  · refine ⟨total, ?_, hclock, ?_⟩
    · simp only [EventQueue.now, htsc, if_true] at hnow ⊢
      exact hnow
    · intro w hw
      apply (hwaits w hw).next hbase rfl Nat.le.refl
      · simp [countedTicks, htsc]
      · intro hfalse
        rw [htsc] at hfalse
        cases hfalse
  · refine ⟨total + n, ?_, ?_, ?_⟩
    · simp only [EventQueue.now, htsc, Bool.false_eq_true, if_false] at hnow ⊢
      rw [hnow]
      omega
    · intro htrue
      exact absurd (htsc.symm.trans htrue) (by decide)
    · intro w hw
      have hsame : n = 0 ∧ count = t.queue.pitTicks := by
        obtain htrue | hsame | hnil := hn
        · exact absurd (htsc.symm.trans htrue) (by decide)
        · exact hsame
        · rw [hnil] at hw
          cases hw
      obtain ⟨rfl, rfl⟩ := hsame
      apply (hwaits w hw).next hbase rfl Nat.le.refl
      · simp [countedTicks, htsc]
      · intro _
        refine ⟨h.period.symm, Nat.le.refl, by simp, ?_⟩
        simp only
        omega

theorem Inv.setMode {mode : ℤ} {maxcount : BitVec 16} (h : t.Inv) (hcareful : t.Careful (.setMode mode maxcount)) :
    (t.pitSetMode mode maxcount).2.Inv := by
  unfold pitSetMode
  by_cases hmode : mode = pitCompatibleMode ∨ mode = pitNativeMode
  · rw [if_pos hmode]
    apply h.reload
    obtain htsc | hmode' | hsame | hnil := hcareful
    · exact .inl htsc
    · exact absurd hmode hmode'
    · right; left
      rw [hsame, Nat.add_sub_cancel_left]
      exact ⟨Nat.mod_self _, rfl⟩
    · exact .inr (.inr hnil)
  · rw [if_neg hmode]
    exact h

theorem usecToTicks_eq {usec : ℕ} (h : usec * t.frequency / 1000000 < 2 ^ 32) :
    t.queue.usecToTicks usec = usec * t.frequency / 1000000 := by
  have hproduct : usec * t.frequency < 2 ^ 64 := by omega
  unfold EventQueue.usecToTicks
  unfold frequency at h hproduct ⊢
  split at h <;> simp_all [Nat.mod_eq_of_lt]

theorem register_eq (usec callback param : ℕ) (hfree : t.queue.eventsFree.begin_ = some e) : ∃ queue : EventQueue,
    t.register usec callback param = { t.forget e with
      queue
      waiting := (e, ⟨usec, t.countedTicks, t.elapsedTicks, t.phase, t.period⟩) :: (t.forget e).waiting } ∧
    queue.ticks = t.queue.ticks ∧ queue.pitTicks = t.queue.pitTicks ∧ queue.tscTime = t.queue.tscTime ∧
    queue.tickPerSec = t.queue.tickPerSec ∧ queue.event = Function.update t.queue.event e
      ⟨(t.queue.usecToTicks usec + t.queue.now t.rdtsc) % 2 ^ 64, callback, param⟩ := by
  unfold Timer.register EventQueue.pitEventRegister
  rw [hfree]
  exact ⟨_, rfl, rfl, rfl, rfl, rfl, rfl⟩

/-- The event that has just been registered. -/
theorem Still.waits_registered {usec : ℕ} (h : Still t t')
    (hevent : (t'.queue.event e).when_ = usec * t.frequency / 1000000 + total % 2 ^ 64) :
    t'.Waits total e ⟨usec, t.countedTicks, t.elapsedTicks, t.phase, t.period⟩ := by
  constructor
  · refine ⟨total, Nat.le.refl, ?_, by omega⟩
    rw [hevent, h.due]
    rfl
  · exact Nat.le_of_eq h.countedTicks_eq.symm
  · intro htsc
    rw [h.tscTime] at htsc
    simp only [elapsedTicks, countedTicks, htsc, if_true]
  · intro htsc
    rw [h.tscTime] at htsc
    simp only [elapsedTicks, countedTicks, htsc, Bool.false_eq_true, if_false, h.counted, h.elapsed, h.phase, h.period,
      Nat.sub_self]
    exact ⟨trivial, Nat.dvd_zero _, Nat.le.refl⟩

theorem Inv.register {usec callback param : ℕ} (h : t.Inv) (hcareful : t.Careful (.register usec callback param)) :
    (t.register usec callback param).Inv := by
  obtain ⟨total, hnow, hclock, hwaits⟩ := h.total
  obtain ⟨hshort, hfits⟩ := hcareful
  cases hfree : t.queue.eventsFree.begin_ with
  | none =>
    unfold Timer.register EventQueue.pitEventRegister
    rw [hfree]
    exact h
  | some e =>
    obtain ⟨queue, hregister, hticks, hpit, htsc, htick, hevent⟩ := register_eq usec callback param hfree
    have hstill : Still t (t.register usec callback param) := by
      rw [hregister]
      exact ⟨⟨htsc, htick⟩, hpit, hticks, rfl, rfl, rfl, rfl, rfl⟩
    have hwhen : (t.queue.usecToTicks usec + t.queue.now t.rdtsc) % 2 ^ 64 =
        usec * t.frequency / 1000000 + total % 2 ^ 64 := by
      rw [usecToTicks_eq hshort, Nat.mod_eq_of_lt hfits, hnow]
    constructor
    · rw [hstill.period, hstill.pitTicks]
      exact h.period
    · refine ⟨total, hstill.now_eq.trans hnow, ?_, ?_⟩
      · rw [hstill.tscTime, hstill.clock]
        exact hclock
      · intro w hw
        have hqueue : (t.register usec callback param).queue.event = queue.event := by rw [hregister]
        rw [hregister] at hw
        obtain rfl | hw := List.mem_cons.mp hw
        · apply hstill.waits_registered
          rw [hqueue, hevent, Function.update_self, hwhen]
        · obtain ⟨hmem, hne⟩ := List.mem_filter.mp hw
          simp only [decide_eq_true_eq] at hne
          apply hstill.waits (hwaits w hmem)
          rw [hqueue, hevent, Function.update_of_ne hne]
    · intro c hc
      apply hstill.toSameBase.onTime
      rw [hregister] at hc
      exact h.calls c hc

theorem Inv.step {a : TimerAction} (h : t.Inv) (hcareful : t.Careful a) (hstep : step a t = some t') : t'.Inv := by
  cases a with
  | elapse pit tsc =>
    obtain rfl := Option.some.inj hstep
    exact h.elapse pit tsc
  | register usec callback param =>
    simp only [Timer.step] at hstep
    split at hstep
    · obtain rfl := Option.some.inj hstep
      exact h.register hcareful
    · cases hstep
  | cancel handle =>
    simp only [Timer.step] at hstep
    split at hstep
    · exact h.cancel hstep
    · cases hstep
  | interrupt => exact h.interrupt hcareful hstep
  | externalProcess => exact h.externalProcess hstep
  | setMode mode maxcount =>
    simp only [Timer.step] at hstep
    split at hstep
    · obtain rfl := Option.some.inj hstep
      exact h.setMode hcareful
    · cases hstep
  | turn => exact h.turn hstep
  | callbackReturns => exact h.callbackReturns hstep

/-- A period passes, and its interrupt finds the event not due. -/
def onePeriod : List TimerAction := [.elapse 0x10000 0, .interrupt, .turn, .turn]

end Steps

end Timer

end FreeDos32.Pit
