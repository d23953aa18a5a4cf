import FreeDos32.Library.Path
import Mathlib.Algebra.Ring.Int.Defs
import Mathlib.Algebra.Ring.Nat

namespace FreeDos32.Oslib

def maxEvent : ℕ := 100

structure Timespec where
  tvSec : ℤ
  tvNsec : ℤ

def Timespec.Gt (a b : Timespec) : Prop := a.tvSec > b.tvSec ∨ a.tvSec = b.tvSec ∧ a.tvNsec > b.tvNsec

instance (a b : Timespec) : Decidable (a.Gt b) := inferInstanceAs (Decidable (_ ∨ _))

def Timespec.addNano (n : ℕ) (t : Timespec) : Timespec :=
  ⟨t.tvSec + (t.tvNsec + n) / 1000000000, (t.tvNsec + n) % 1000000000⟩

structure Event where
  handler : ℕ
  par : ℕ
  time : Timespec

/-- An event is named by its index in `eventlist`. -/
structure EventList where
  next : ℕ → Option ℕ
  eventlist : ℕ → Event
  freeevents : Option ℕ
  firstevent : Option ℕ
  nts : ℕ
  actTime : Timespec

/-- `event_init` for a periodic timer with the tick `tick` in microseconds; `nts` is at most 54932000, so that it can be
added to nanoseconds within a `long`. -/
def eventInit (tick : ℕ) : EventList where
  next := fun i => if i < maxEvent - 1 then some (i + 1) else none
  eventlist := fun _ => ⟨0, 0, ⟨0, 0⟩⟩
  freeevents := some 0
  firstevent := none
  nts :=
    let t := tick * 1193 % 2 ^ 32 / 1000
    let pitTimeConst := (if t = 0 then 1 else t) % 2 ^ 16
    pitTimeConst * 1000 / 1193 * 1000
  actTime := ⟨0, 0⟩

/-- The walk through the pending list with the event before `p1` in `t`; without fuel it does not come to an end. -/
def findSpot (on : ℕ → Bool) (next : ℕ → Option ℕ) : ℕ → Option ℕ → Option ℕ → Option (Option ℕ × Option ℕ)
  | 0, _, _ => none
  | _ + 1, t, none => some (t, none)
  | fuel + 1, t, some p1 => if on p1 then findSpot on next fuel (some p1) (next p1) else some (t, some p1)

namespace EventList

def setNext (e : ℕ) (x : Option ℕ) (q : EventList) : EventList := { q with next := Function.update q.next e x }

/-- The pointer behind the element `t`, or the head of the list when there is none. -/
def relink (t x : Option ℕ) (q : EventList) : EventList :=
  match t with
  | some t => q.setNext t x
  | none => { q with firstevent := x }

/-- `none` when the call does not return. -/
def periodicEventPost (time : Timespec) (handler par : ℕ) (q : EventList) : Option (ℤ × EventList) :=
  match q.freeevents with
  | none => some (-1, q)
  | some p =>
    let q := { q with
      freeevents := q.next p, eventlist := Function.update q.eventlist p ⟨handler, par, time⟩ }
    (findSpot (fun p1 => time.Gt (q.eventlist p1).time) q.next (maxEvent + 1) none q.firstevent).map fun (t, p1) =>
      (p, (q.relink t (some p)).setNext p p1)

def periodicEventDelete (index : ℤ) (q : EventList) : Option (ℤ × EventList) :=
  (findSpot (fun p1 => index ≠ p1) q.next (maxEvent + 1) none q.firstevent).map fun (t, p1) =>
    match p1 with
    | none => (-1, q)
    | some p1 =>
      let q := q.relink t (q.next p1)
      (1, { q.setNext p1 q.freeevents with freeevents := some p1 })

/-- What `periodic_wake_up` does with a due event before it calls the handler. -/
def take (p : ℕ) (q : EventList) : EventList :=
  { q.setNext p q.freeevents with freeevents := some p, firstevent := q.next p }

/-- What `periodic_wake_up` does to the clock. -/
def tick (q : EventList) : EventList := { q with actTime := q.actTime.addNano q.nts }

def Due (q : EventList) (e : ℕ) : Prop := ¬(q.eventlist e).time.Gt q.actTime

instance (q : EventList) (e : ℕ) : Decidable (q.Due e) := inferInstanceAs (Decidable (¬_))

end EventList

/-- Where `periodic_wake_up` is: not running, at the head of its loop with `p`, or inside a handler with `pp` saved,
which then was the posting number `saved`. -/
inductive Mode where
  | idle
  | loop (p : Option ℕ)
  | handler (pp : Option ℕ) (saved : ℕ)

/-- The event list in use: the postings are numbered from 1 on, `serial` gives the number of an event's last posting and
`posted` the time of a posting. -/
structure World where
  events : EventList
  mode : Mode
  serial : ℕ → ℕ
  posted : ℕ → Timespec
  count : ℕ
  wokenAt : ℕ
  ran : List ℕ
  deleted : List ℕ

inductive Action where
  | post (time : Timespec) (handler par : ℕ)
  | delete (index : ℤ)
  | wakeUp
  | turn
  | handlerReturns

namespace World

def start (q : EventList) : World :=
  { events := q, mode := .idle, serial := fun _ => 0, posted := fun _ => ⟨0, 0⟩, count := 0, wokenAt := 0, ran := [],
    deleted := [] }

/-- Events are posted and deleted outside `periodic_wake_up` or by a handler. -/
def requests (w : World) : Bool :=
  match w.mode with
  | .loop _ => false
  | _ => true

def post (time : Timespec) (handler par : ℕ) (w : World) : Option World :=
  (w.events.periodicEventPost time handler par).map fun (index, events) =>
    if index = -1 then { w with events } else { w with
      events, count := w.count + 1, serial := Function.update w.serial index.toNat (w.count + 1)
      posted := Function.update w.posted (w.count + 1) time }

def delete (index : ℤ) (w : World) : Option World :=
  (w.events.periodicEventDelete index).map fun (res, events) =>
    if res = 1 then { w with events, deleted := w.serial index.toNat :: w.deleted } else { w with events }

/-- `none` where the action cannot be taken. -/
def step : Action → World → Option World
  | .post time handler par, w => if w.requests then w.post time handler par else none
  | .delete index, w => if w.requests then w.delete index else none
  | .wakeUp, w =>
    match w.mode with
    | .idle =>
      let events := w.events.tick
      some { w with events, mode := .loop events.firstevent, wokenAt := w.count }
    | _ => none
  | .turn, w =>
    match w.mode with
    | .loop (some p) =>
      if w.events.Due p then
        let pp := w.events.next p
        some { w with
          events := w.events.take p, mode := .handler pp ((pp.map w.serial).getD 0), ran := w.serial p :: w.ran }
      else some { w with mode := .idle }
    | .loop none => some { w with mode := .idle }
    | _ => none
  | .handlerReturns, w =>
    match w.mode with
    | .handler pp _ => some { w with mode := .loop pp }
    | _ => none

end World

end FreeDos32.Oslib
