import FreeDos32.Kernel.List

namespace FreeDos32.Pit

open Kernel

def numEvents : ℕ := 64

def pitClock : ℕ := 1193181

structure Event where
  when_ : ℕ
  callback : ℕ
  param : ℕ

/-- The variables of the module; an event is named by its place in `events_table`. -/
structure EventQueue where
  items : Items
  event : ℕ → Event
  eventsUsed : ListHead
  eventsFree : ListHead
  ticks : ℕ
  pitTicks : ℕ
  tscTime : Bool
  tickPerSec : ℕ

def fillFree : ListHead × Items :=
  (List.range numEvents).foldl (fun s k => listPushBack k s.1 s.2) (listInit, fun _ => ⟨none, none⟩)

/-- The event lists as `pit_init` leaves them, with the options that it has read. -/
def pitInit (pitTicks tickPerSec : ℕ) (tscTime : Bool) : EventQueue where
  items := fillFree.2
  event := fun _ => ⟨0, 0, 0⟩
  eventsUsed := listInit
  eventsFree := fillFree.1
  ticks := 0
  pitTicks := pitTicks
  tscTime := tscTime
  tickPerSec := tickPerSec

namespace EventQueue

def usecToTicks (usec : ℕ) (q : EventQueue) : ℕ :=
  if q.tscTime then usec * q.tickPerSec % 2 ^ 64 / 1000000 % 2 ^ 32 else usec * pitClock % 2 ^ 64 / 1000000 % 2 ^ 32

/-- What an event is compared with; `tsc` is what `rdtsc` reads. -/
def now (tsc : ℕ) (q : EventQueue) : ℕ := if q.tscTime then tsc else q.ticks

def freeEvent (e : ℕ) (q : EventQueue) : EventQueue :=
  let (used, items) := listErase e q.eventsUsed q.items
  let (free, items) := listPushFront e q.eventsFree items
  { q with items, eventsUsed := used, eventsFree := free }

def pitEventRegister (tsc usec callback param : ℕ) (q : EventQueue) : Option ℕ × EventQueue :=
  match q.eventsFree.begin_ with
  | none => (none, q)
  | some e =>
    let (free, items) := listErase e q.eventsFree q.items
    let (used, items) := listPushBack e q.eventsUsed items
    let when_ := (q.usecToTicks usec + q.now tsc) % 2 ^ 64
    (some e, { q with
      items, eventsUsed := used, eventsFree := free, event := Function.update q.event e ⟨when_, callback, param⟩ })

/-- The loop of `pit_event_cancel`; without fuel it does not come to an end. -/
def cancelLoop (eventHandle : ℕ) : ℕ → Option ℕ → EventQueue → Option (ℤ × EventQueue)
  | 0, _, _ => none
  | _ + 1, none, q => some (-1, q)
  | fuel + 1, some e, q =>
    if e = eventHandle then some (0, q.freeEvent e) else cancelLoop eventHandle fuel (q.items e).next q

/-- `none` when the call does not return: a walk that long has come to some event twice. -/
def pitEventCancel (eventHandle : ℕ) (q : EventQueue) : Option (ℤ × EventQueue) :=
  cancelLoop eventHandle (numEvents + 1) q.eventsUsed.begin_ q

/-- What `pit_external_process` does before it calls `pit_process`. -/
def tick (q : EventQueue) : EventQueue := { q with ticks := (q.ticks + q.pitTicks) % 2 ^ 64 }

/-- The events from `events_used.begin` on. -/
def used (q : EventQueue) : List ℕ := cells (fun e => (q.items e).next) numEvents q.eventsUsed.begin_

end EventQueue

/-- Where `pit_process` is: not running, at the head of its loop with `e`, or inside a callback with `enext` saved. -/
inductive Mode where
  | idle
  | loop (e : Option ℕ)
  | callback (enext : Option ℕ)

/-- The module in use: `serial` numbers the registrations, and the others record what became of them.
`rounds` counts the turns of the running loop, `late` those that call an event registered since it began. -/
structure World where
  queue : EventQueue
  mode : Mode
  serial : ℕ → ℕ
  count : ℕ
  passStart : ℕ
  rounds : ℕ
  late : ℕ
  called : List ℕ
  cancelled : List ℕ

inductive Action where
  | register (tsc usec callback param : ℕ)
  | cancel (eventHandle : ℕ)
  | externalProcess
  | turn (tsc : ℕ)
  | callbackReturns
  deriving DecidableEq

namespace World

def start (q : EventQueue) : World :=
  { queue := q, mode := .idle, serial := fun _ => 0, count := 0, passStart := 0, rounds := 0, late := 0, called := [],
    cancelled := [] }

/-- Events are registered and cancelled outside `pit_process` or by a callback. -/
def requests (w : World) : Bool :=
  match w.mode with
  | .loop _ => false
  | _ => true

def register (tsc usec callback param : ℕ) (w : World) : World :=
  let (e, queue) := w.queue.pitEventRegister tsc usec callback param
  match e with
  | none => { w with queue }
  | some e => { w with queue, count := w.count + 1, serial := Function.update w.serial e (w.count + 1) }

def cancel (eventHandle : ℕ) (w : World) : Option World :=
  (w.queue.pitEventCancel eventHandle).map fun (res, queue) =>
    if res = 0 then { w with queue, cancelled := w.serial eventHandle :: w.cancelled } else { w with queue }

/-- One turn of the loop of `pit_process`, up to the callback. -/
def turn (tsc : ℕ) (w : World) (e : ℕ) : World :=
  let enext := (w.queue.items e).next
  let w := { w with rounds := w.rounds + 1 }
  if (w.queue.event e).when_ ≤ w.queue.now tsc then
    { w with
      queue := w.queue.freeEvent e, mode := .callback enext, called := w.serial e :: w.called
      late := if w.passStart < w.serial e then w.late + 1 else w.late }
  else { w with mode := .loop enext }

def step : Action → World → Option World
  | .register tsc usec callback param, w => if w.requests then some (w.register tsc usec callback param) else none
  | .cancel eventHandle, w => if w.requests then w.cancel eventHandle else none
  | .externalProcess, w =>
    match w.mode with
    | .idle =>
      let queue := w.queue.tick
      some { w with queue, mode := .loop queue.eventsUsed.begin_, passStart := w.count, rounds := 0, late := 0 }
    | _ => none
  | .turn tsc, w =>
    match w.mode with
    | .loop (some e) => some (w.turn tsc e)
    | .loop none => some { w with mode := .idle }
    | _ => none
  | .callbackReturns, w =>
    match w.mode with
    | .callback enext => some { w with mode := .loop enext }
    | _ => none

end World

end FreeDos32.Pit
