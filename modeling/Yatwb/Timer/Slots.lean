import Yatwb.Timer.Model

/-!
# The owners of the timers

The functions of `TimerQueue` once more, with the `unique_ptr` that owns each
`Timer`. A `unique_ptr` is a slot that is empty or holds an address, and a move
leaves it empty. The slots are the argument of `addTimerInLoop`, the parameter
of `insert` (or the pair made from it), the entries of `timers_` and those of
`expired`. Every dereference is logged with what it finds.

## Implementation notes

* A dereference of anything but a live `Timer` reads an unspecified value:
  `junk n` if it is the access with the number `n`.
* A comparison of a slot with the set may read any entry, so every entry counts
  as read, and the slot with each of them. The position in the set follows from
  the expirations that the comparator reads.
* The copy of the expired entries and the erasure that follows it are a move of
  their slots, which is what the comment there says.
* Times are integers here.
* `make_unique` of `addTimer` is part of adding a timer. The re-arming of the
  descriptor is left out, except for what it dereferences.
* Deleting the address of the sentry, at the end of `getExpired`, frees no `Timer`.
-/

namespace Yatwb

open Foundation

/-- An address in a `unique_ptr<Timer>`: that of a `Timer`, or the one of the sentry. -/
inductive TimerPtr
  | timer (id : Nat)
  | uintptrMax
  deriving DecidableEq, Repr

/-- `std::unique_ptr<Timer>`. -/
abbrev TimerSlot := Option TimerPtr

/-- The places that dereference a slot. -/
inductive Site
  | insert
  | addTimerInLoop
  | timerEntryCmp
  | run
  | isRepeat
  | restart
  | nextExpire
  deriving DecidableEq, Repr

/-- A dereference: the slot, the live timer it finds, and whether each live timer had
exactly one owner at that moment. -/
structure Access where
  site : Site
  slot : TimerSlot
  target : Option Timer
  exclusive : Bool
  deriving DecidableEq, Repr

/-- `TimerEntry`, a pair of a time and a slot. -/
structure TimerEntry where
  first : Int
  second : TimerSlot
  deriving DecidableEq, Repr

structure TimerSlots where
  live : List Timer
  made : Nat
  argument : TimerSlot
  parameter : TimerSlot
  timers : List TimerEntry
  expired : List TimerEntry
  accesses : List Access
  deriving DecidableEq, Repr

namespace TimerSlots

open TimerQueue (Fault)

/-- A failed assert, with what it leaves. -/
structure Halt where
  fault : Fault
  left : TimerSlots
  deriving DecidableEq, Repr

def new : TimerSlots := ⟨[], 0, none, none, [], [], []⟩

/-- The addresses in all slots. -/
def owners (s : TimerSlots) : List TimerPtr :=
  s.argument.toList ++ s.parameter.toList ++ s.timers.filterMap TimerEntry.second ++
    s.expired.filterMap TimerEntry.second

/-- Each live timer is owned by exactly one slot. -/
def Exclusive (s : TimerSlots) : Prop := ∀ t ∈ s.live, s.owners.count (.timer t.id) = 1

instance (s : TimerSlots) : Decidable s.Exclusive :=
  inferInstanceAs (Decidable (∀ t ∈ s.live, s.owners.count (.timer t.id) = 1))

/-- The live timer at the address in a slot. -/
def deref (s : TimerSlots) : TimerSlot → Option Timer
  | some (.timer id) => s.live.find? fun t => t.id = id
  | some .uintptrMax => none
  | none => none

/-- Log a dereference. -/
def access (s : TimerSlots) (site : Site) (slot : TimerSlot) : TimerSlots :=
  { s with accesses := s.accesses ++ [⟨site, slot, s.deref slot, decide s.Exclusive⟩] }

/-- The comparisons of a slot with entries of the set. -/
def compare (s : TimerSlots) (slot : TimerSlot) : List TimerEntry → TimerSlots
  | [] => s
  | e :: rest =>
      ((s.access .timerEntryCmp slot).access .timerEntryCmp e.second).compare slot rest

/-- What `getExpiration()` reads through a slot. -/
def getExpiration (junk : Nat → Int) (s : TimerSlots) (slot : TimerSlot) : Int :=
  (s.deref slot).elim (junk s.accesses.length) Timer.expiration

/-- `reset()` of a slot, or its destruction. -/
def release (s : TimerSlots) : TimerSlot → TimerSlots
  | some (.timer id) => { s with live := s.live.filter fun t => t.id ≠ id }
  | some .uintptrMax => s
  | none => s

/-- `insert`, with its argument in the parameter. -/
def insert (junk : Nat → Int) (s : TimerSlots) : Except Halt (Bool × TimerSlots) :=
  let first := s.getExpiration junk s.parameter
  let s := s.access .insert s.parameter
  let earliestToAlarm := match s.timers with
    | [] => true
    | it :: _ => decide (first < it.first)
  let key := fun e : TimerEntry => s.getExpiration junk e.second
  let result := insertUnique key ⟨first, s.parameter⟩ s.timers
  let s := s.compare s.parameter s.timers
  match result with
  | none => .error ⟨.insertResult, s⟩
  | some timers => .ok (earliestToAlarm, { s with timers := timers, parameter := none })

/-- The argument is moved into the parameter of `insert`, and dereferenced afterwards
if the timer is the earliest. -/
def addTimerInLoop (junk : Nat → Int) (s : TimerSlots) : Except Halt TimerSlots := do
  let s := { s with parameter := s.argument, argument := none }
  let (earliestToAlarm, s) ← s.insert junk
  return if earliestToAlarm then s.access .addTimerInLoop s.argument else s

/-- A new timer in the argument. -/
def make (s : TimerSlots) (n : NewTimer) : TimerSlots :=
  { s with
    live := s.live ++ [⟨s.made, n.expiration, n.interval, n.isRepeat⟩]
    made := s.made + 1
    argument := some (.timer s.made) }

def addTimer (junk : Nat → Int) (s : TimerSlots) (n : NewTimer) : Except Halt TimerSlots :=
  (s.make n).addTimerInLoop junk

def addTimers (junk : Nat → Int) (s : TimerSlots) : List NewTimer → Except Halt TimerSlots
  | [] => .ok s
  | n :: rest => do
      let s ← s.addTimer junk n
      s.addTimers junk rest

def getExpired (junk : Nat → Int) (s : TimerSlots) (now : Int) : Except Halt TimerSlots :=
  let sentry : TimerSlot := some .uintptrMax
  let bound := s.getExpiration junk sentry
  let key := fun e : TimerEntry => s.getExpiration junk e.second
  let expired := below key bound s.timers
  let rest := fromLowerBound key bound s.timers
  let s := s.compare sentry s.timers
  if ∀ it ∈ rest.head?, now < it.first then
    .ok (({ s with expired := expired, timers := rest } : TimerSlots).release sentry)
  else .error ⟨.expiredOrder, s⟩

/-- The callbacks of the expired timers, each with the timers it adds. -/
def runTimers (junk : Nat → Int) (s : TimerSlots) :
    List TimerEntry → List (List NewTimer) → Except Halt TimerSlots
  | [], _ => .ok s
  | it :: rest, calls => do
      let s ← (s.access .run it.second).addTimers junk (calls.headD [])
      s.runTimers junk rest calls.tail

/-- `isRepeat()` through a slot. -/
def isRepeat (junk : Nat → Int) (s : TimerSlots) (slot : TimerSlot) : Bool :=
  (s.deref slot).elim (decide (junk s.accesses.length ≠ 0)) Timer.isRepeat

/-- `restart(now)` of a repeating timer, through a slot. -/
def restart (s : TimerSlots) (now : Int) : TimerSlot → TimerSlots
  | some (.timer id) =>
      { s with
        live := s.live.map fun t =>
          if t.id = id then { t with expiration := now + t.interval } else t }
  | some .uintptrMax => s
  | none => s

/-- The slot of the entry `it` at the position `i` of `expired` is moved away or reset. -/
def vacate (s : TimerSlots) (i : Nat) (it : TimerEntry) : TimerSlots :=
  { s with expired := s.expired.set i ⟨it.first, none⟩ }

/-- The loop of `reset` over the entries of `expired` from the position `i` on. -/
def resetTimers (junk : Nat → Int) (s : TimerSlots) (now : Int) :
    Nat → List TimerEntry → Except Halt TimerSlots
  | _, [] => .ok s
  | i, it :: rest =>
      let s' := s.access .isRepeat it.second
      if s.isRepeat junk it.second then do
        let s := (s'.access .restart it.second).restart now it.second
        let (_, s) ← ({ s.vacate i it with parameter := it.second } : TimerSlots).insert junk
        s.resetTimers junk now (i + 1) rest
      else ((s'.vacate i it).release it.second).resetTimers junk now (i + 1) rest

def reset (junk : Nat → Int) (s : TimerSlots) (now : Int) : Except Halt TimerSlots := do
  let s ← s.resetTimers junk now 0 s.expired
  match s.timers with
  | [] => return s
  | it :: _ => return s.access .nextExpire it.second

/-- The end of the lifetime of `expired`. -/
def destroyExpired (s : TimerSlots) : TimerSlots :=
  { s.expired.foldl (fun s it => s.release it.second) s with expired := [] }

def handleRead (junk : Nat → Int) (s : TimerSlots) (now : Int) (calls : List (List NewTimer)) :
    Except Halt TimerSlots := do
  let s ← s.getExpired junk now
  let s ← s.runTimers junk s.expired calls
  let s ← s.reset junk now
  return s.destroyExpired

def step (junk : Nat → Int) (s : TimerSlots) : TimerState.Action → Except Halt TimerSlots
  | .addTimerInLoop n => s.addTimer junk n
  | .handleRead now calls _ => s.handleRead junk now calls

/-- Make the calls of a list in order. -/
def run (junk : Nat → Int) (s : TimerSlots) : List TimerState.Action → Except Halt TimerSlots
  | [] => .ok s
  | a :: rest => do
      let s ← s.step junk a
      s.run junk rest

/-- Where a run ends, with or without a failed assert. -/
def final : Except Halt TimerSlots → TimerSlots
  | .ok s => s
  | .error h => h.left

end TimerSlots

end Yatwb
