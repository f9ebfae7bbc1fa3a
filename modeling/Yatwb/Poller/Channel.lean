import Mathlib.Logic.Function.Basic

/-!
# Channels

`Channel` of `channel.h` and `channel.cpp`: a file descriptor with the events
it asks for, the events `poll(2)` reported and its slot in the poller. The
callbacks belong to the owner of the channel, so `handleEvents` appears here
as the list of callbacks it runs for a reported word.

## Implementation notes

`events_` and `revents_` are `int`, hence 32-bit words. The constructor does
not initialise `owner_loop_`, and `setOwnerLoop` has no caller: the field is
whatever the memory held, so it is an argument of the constructor here.
-/

namespace Yatwb

/-- An `EventLoop*`, by the number of the loop. -/
abbrev LoopId := Nat

/-- A word of `poll(2)` event bits. -/
abbrev Events := BitVec 32

namespace Events

def pollIn : Events := 0x1

def pollPri : Events := 0x2

def pollOut : Events := 0x4

def pollErr : Events := 0x8

def pollHup : Events := 0x10

def pollNval : Events := 0x20

def pollRdhup : Events := 0x2000

/-- `word & mask` as a condition. -/
def has (word mask : Events) : Bool := word &&& mask != 0

end Events

open Events

structure Channel where
  loop : LoopId
  fd : Int
  events : Events
  revents : Events
  index : Int
  ownerLoop : LoopId
  deriving DecidableEq, Repr

namespace Channel

def noneEvent : Events := 0

def readEvent : Events := pollIn ||| pollPri

def writeEvent : Events := pollOut

/-- The constructor, with the content of the memory of `owner_loop_`. -/
def new (loop : LoopId) (fd : Int) (memory : LoopId) : Channel where
  loop := loop
  fd := fd
  events := 0
  revents := 0
  index := -1
  ownerLoop := memory

def isNoneEvent (c : Channel) : Bool := c.events == noneEvent

def isWriting (c : Channel) : Bool := c.events.has writeEvent

/-- The methods that change `events_` and then call `update()`. -/
inductive Interest
  | enableReading
  | enableWriting
  | disableReading
  | disableWriting
  | disableAllEvents
  deriving DecidableEq, Repr

/-- The new value of `events_`. -/
def Interest.apply (events : Events) : Interest → Events
  | enableReading => events ||| readEvent
  | enableWriting => events ||| writeEvent
  | disableReading => events &&& ~~~readEvent
  | disableWriting => events &&& ~~~writeEvent
  | disableAllEvents => noneEvent

def setEvents (c : Channel) (events : Events) : Channel := { c with events := events }

/-- A method of the group, up to its call of `update()`. -/
def change (c : Channel) (i : Interest) : Channel := c.setEvents (i.apply c.events)

def setIndex (c : Channel) (index : Int) : Channel := { c with index := index }

def setRevents (c : Channel) (revents : Events) : Channel := { c with revents := revents }

/-- The four callbacks of a channel. -/
inductive Callback
  | close
  | error
  | read
  | write
  deriving DecidableEq, Repr

/-- The callbacks `handleEvents` runs for the word `revents`, in its order. -/
def handleEvents (revents : Events) : List Callback :=
  (if revents.has pollHup && !revents.has pollIn then [.close] else []) ++
  (if revents.has (pollErr ||| pollNval) then [.error] else []) ++
  (if revents.has (pollIn ||| pollPri ||| pollRdhup) then [.read] else []) ++
  (if revents.has pollOut then [.write] else [])

@[simp] theorem setEvents_fd (c : Channel) (e : Events) : (c.setEvents e).fd = c.fd := rfl

@[simp] theorem setEvents_index (c : Channel) (e : Events) : (c.setEvents e).index = c.index := rfl

@[simp] theorem setEvents_events (c : Channel) (e : Events) : (c.setEvents e).events = e := rfl

@[simp] theorem change_fd (c : Channel) (i : Interest) : (c.change i).fd = c.fd := rfl

@[simp] theorem change_index (c : Channel) (i : Interest) : (c.change i).index = c.index := rfl

@[simp] theorem change_events (c : Channel) (i : Interest) :
    (c.change i).events = i.apply c.events := rfl

@[simp] theorem setIndex_fd (c : Channel) (i : Int) : (c.setIndex i).fd = c.fd := rfl

@[simp] theorem setIndex_index (c : Channel) (i : Int) : (c.setIndex i).index = i := rfl

@[simp] theorem setIndex_events (c : Channel) (i : Int) : (c.setIndex i).events = c.events := rfl

/-- The words the interest methods can produce. -/
def Requested (events : Events) : Prop :=
  events = noneEvent ∨ events = readEvent ∨ events = writeEvent ∨
    events = readEvent ||| writeEvent

instance (events : Events) : Decidable (Requested events) :=
  inferInstanceAs (Decidable (_ ∨ _ ∨ _ ∨ _))

theorem requested_zero : Requested 0 := Or.inl rfl

theorem Requested.change {events : Events} (h : Requested events) (i : Interest) :
    Requested (i.apply events) := by
  rcases h with rfl | rfl | rfl | rfl <;> cases i <;> decide

/-- A requested word fits in the `short` of a `pollfd`. -/
theorem Requested.signExtend {events : Events} (h : Requested events) :
    (events.setWidth 16).signExtend 32 = events := by
  rcases h with rfl | rfl | rfl | rfl <;> decide

@[simp] theorem isWriting_new (loop : LoopId) (fd : Int) (memory : LoopId) :
    (new loop fd memory).isWriting = false := by
  simp [isWriting, new, has]

@[simp] theorem isWriting_enableWriting (c : Channel) :
    (c.change .enableWriting).isWriting = true := by
  simp only [isWriting, change, setEvents, Interest.apply, has, writeEvent, pollOut, bne_iff_ne,
    ne_eq]
  intro h
  have hbit := congrArg (fun w : Events => w.getLsbD 2) h
  simp at hbit

@[simp] theorem isWriting_disableWriting (c : Channel) :
    (c.change .disableWriting).isWriting = false := by
  simp [isWriting, change, setEvents, Interest.apply, has, BitVec.and_assoc]

@[simp] theorem isWriting_enableReading (c : Channel) :
    (c.change .enableReading).isWriting = c.isWriting := by
  have hword : (c.events ||| readEvent) &&& writeEvent = c.events &&& writeEvent := by
    rw [BitVec.and_or_distrib_right, show readEvent &&& writeEvent = 0 by decide]
    exact BitVec.or_zero
  simp only [isWriting, change, setEvents, Interest.apply, has, hword]

@[simp] theorem isWriting_disableAllEvents (c : Channel) :
    (c.change .disableAllEvents).isWriting = false := by
  simp [isWriting, change, setEvents, Interest.apply, has, noneEvent]

end Channel

end Yatwb
