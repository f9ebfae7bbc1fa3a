import Yatwb.Foundation.Check
import Yatwb.Foundation.OrderedSet
import Mathlib.Data.Int.Order.Basic
import Mathlib.Algebra.Group.Int.Defs

/-!
# The timer queue

`Timer` of `timer.h` and `TimerQueue` of `timer_queue.h` and
`timer_queue.cpp`. `timers_` is a `std::set` whose entries are compared by the
expiration of their timers, so it is the list of its timers in that order. A
state holds the queue together with the timers that have been added and the
callbacks that have run, in order.

## Implementation notes

* A timer is known by a number, which stands for its address. Of `interval_`
  the code uses its sign, which is `repeat_`, and the whole microseconds that
  `addTime` adds.
* Times are `int64_t`: a sum or difference that leaves the range ends the run.
* The `timerfd` fires once: it is armed until `readTimerfd` reads it.
  `timerfd_settime` with a zero value disarms it, and with an invalid value
  leaves it as it is.
* `addTimerInLoop` reads the expiration of the timer it has just moved away;
  here it is the expiration of that timer.
* The sentry of `getExpired` compares by `now`, as the entries do by their
  expirations.
* The thread checks belong to the event loop and are left out, as are log lines.
* Clock readings and the timers that a callback adds are arguments.
-/

namespace Yatwb

open Foundation

structure Timer where
  id : Nat
  expiration : Int
  interval : Int
  isRepeat : Bool
  deriving DecidableEq, Repr

/-- The largest `int64_t`. -/
def int64Max : Int := 2 ^ 63 - 1

/-- The value is an `int64_t`. -/
def InInt64 (x : Int) : Prop := -int64Max - 1 ≤ x ∧ x ≤ int64Max

instance (x : Int) : Decidable (InInt64 x) := inferInstanceAs (Decidable (_ ∧ _))

/-- `Timestamp::microSecondsPerSecond`. -/
def microSecondsPerSecond : Int := 1000 * 1000

/-- `struct timespec`. -/
structure Timespec where
  sec : Int
  nsec : Int
  deriving DecidableEq, Repr

/-- What `timerfd_settime` accepts. -/
def Timespec.Valid (value : Timespec) : Prop :=
  0 ≤ value.sec ∧ 0 ≤ value.nsec ∧ value.nsec < 1000000000

instance (value : Timespec) : Decidable value.Valid := inferInstanceAs (Decidable (_ ∧ _))

/-- A call of `timerfd_settime`: the target, the clock it was computed with, and the value. -/
structure SetTime where
  target : Int
  clock : Int
  value : Timespec
  deriving DecidableEq, Repr

structure TimerQueue where
  timers : List Timer
  timerfd : Option Int
  settimes : List SetTime
  deriving DecidableEq, Repr

namespace TimerQueue

/-- The two asserts of the class, and an overflow of `int64_t`. -/
inductive Fault
  | insertResult
  | expiredOrder
  | overflow
  deriving DecidableEq, Repr

def new : TimerQueue := ⟨[], none, []⟩

/-- `howMuchTimeFromNow`, with the clock it reads. -/
def howMuchTimeFromNow (target clock : Int) : Except Fault Timespec := do
  let microseconds := target - clock
  check (InInt64 microseconds) .overflow
  let microseconds := if microseconds < 100 then 100 else microseconds
  return ⟨microseconds.tdiv microSecondsPerSecond,
    microseconds.tmod microSecondsPerSecond * 1000⟩

/-- `timerfd_settime` for a relative time. -/
def settime (q : TimerQueue) (target clock : Int) (value : Timespec) : TimerQueue :=
  { q with
    timerfd := if value.Valid then if value = ⟨0, 0⟩ then none else some target else q.timerfd
    settimes := q.settimes ++ [⟨target, clock, value⟩] }

def resetTimerfd (q : TimerQueue) (expiration clock : Int) : Except Fault TimerQueue := do
  let value ← howMuchTimeFromNow expiration clock
  return q.settime expiration clock value

def readTimerfd (q : TimerQueue) : TimerQueue := { q with timerfd := none }

/-- Whether a timer with the expiration `at` becomes the earliest one. -/
def earliestToAlarm (q : TimerQueue) (expiration : Int) : Bool :=
  match q.timers with
  | [] => true
  | first :: _ => expiration < first.expiration

def insert (q : TimerQueue) (t : Timer) : Except Fault (Bool × TimerQueue) :=
  match insertUnique Timer.expiration t q.timers with
  | none => .error .insertResult
  | some timers => .ok (q.earliestToAlarm t.expiration, { q with timers := timers })

def addTimerInLoop (q : TimerQueue) (t : Timer) (clock : Int) : Except Fault TimerQueue := do
  let (earliest, q) ← q.insert t
  if earliest then q.resetTimerfd t.expiration clock else return q

/-- The expired timers leave the queue. -/
def getExpired (q : TimerQueue) (now : Int) : Except Fault (List Timer × TimerQueue) := do
  let rest := fromLowerBound Timer.expiration now q.timers
  check (∀ first ∈ rest.head?, now < first.expiration) .expiredOrder
  return (below Timer.expiration now q.timers, { q with timers := rest })

/-- `Timer::restart` of a repeating timer. -/
def restart (t : Timer) (now : Int) : Except Fault Timer := do
  check (InInt64 (now + t.interval)) .overflow
  return { t with expiration := now + t.interval }

/-- The loop of `reset` over the expired timers. -/
def resetTimers (q : TimerQueue) (now : Int) : List Timer → Except Fault TimerQueue
  | [] => .ok q
  | t :: rest =>
      if t.isRepeat then do
        let t ← restart t now
        let (_, q) ← q.insert t
        q.resetTimers now rest
      else q.resetTimers now rest

/-- `reset` after its loop. -/
def rearm (q : TimerQueue) (clock : Int) : Except Fault TimerQueue :=
  match q.timers with
  | [] => .ok q
  | first :: _ => if 0 < first.expiration then q.resetTimerfd first.expiration clock else .ok q

def reset (q : TimerQueue) (expired : List Timer) (now clock : Int) :
    Except Fault TimerQueue := do
  let q ← q.resetTimers now expired
  q.rearm clock

end TimerQueue

/-- A timer that is about to be added, with the clock when it is. -/
structure NewTimer where
  expiration : Int
  interval : Int
  isRepeat : Bool
  clock : Int
  deriving DecidableEq, Repr

/-- The queue and its history. -/
structure TimerState where
  queue : TimerQueue
  added : List Timer
  ran : List Nat
  deriving DecidableEq, Repr

namespace TimerState

open TimerQueue (Fault)

def new : TimerState := ⟨.new, [], []⟩

/-- The timer object that is made next. -/
def nextTimer (s : TimerState) (n : NewTimer) : Timer :=
  ⟨s.added.length, n.expiration, n.interval, n.isRepeat⟩

def addTimer (s : TimerState) (n : NewTimer) : Except Fault TimerState := do
  let t := s.nextTimer n
  let queue ← s.queue.addTimerInLoop t n.clock
  return { s with queue := queue, added := s.added ++ [t] }

def addTimers (s : TimerState) : List NewTimer → Except Fault TimerState
  | [] => .ok s
  | n :: rest => do
      let s ← s.addTimer n
      s.addTimers rest

/-- The callbacks of the expired timers, each with the timers it adds. -/
def runTimers (s : TimerState) : List Timer → List (List NewTimer) → Except Fault TimerState
  | [], _ => .ok s
  | t :: rest, calls => do
      let s ← ({ s with ran := s.ran ++ [t.id] } : TimerState).addTimers (calls.headD [])
      s.runTimers rest calls.tail

def handleRead (s : TimerState) (now : Int) (calls : List (List NewTimer)) (clock : Int) :
    Except Fault TimerState := do
  let (expired, queue) ← s.queue.readTimerfd.getExpired now
  let s ← ({ s with queue := queue } : TimerState).runTimers expired calls
  let queue ← s.queue.reset expired now clock
  return { s with queue := queue }

inductive Action
  | addTimerInLoop (n : NewTimer)
  | handleRead (now : Int) (calls : List (List NewTimer)) (clock : Int)
  deriving DecidableEq, Repr

def step (s : TimerState) : Action → Except Fault TimerState
  | .addTimerInLoop n => s.addTimer n
  | .handleRead now calls clock => s.handleRead now calls clock

end TimerState

end Yatwb
