import Yatwb.Foundation.Machine
import Yatwb.Foundation.Monitor

/-!
# Threads with an event loop and their start

`CountDownLatch` of `count_down_latch.cpp`, `Thread` of `thread.cpp`,
`EventLoopThread` of `event_loop_thread.cpp`, and `start` of
`event_loop_thread_pool.cpp`. The thread that starts the pool and the threads
it creates are each at a program point, and one action executes the next
statement of one of them.

## Implementation notes

* `pthread_create` succeeds. It gives the new thread its number, which is
  positive, and a stack, on which the `EventLoop` of `IOThreadFunc` will be;
  the stacks of two threads are different. `loop_` is the address on that stack.
* `wait` and `countDown` of the latch, the wait of `startLoop`, and the block in
  which `IOThreadFunc` publishes its loop are the two sides of a monitor.
* The names of threads and the log are left out. The thread check at the start
  of `EventLoopThreadPool::start` belongs to the base loop.
* `exiting_`, `quit` and `join` belong to the destructor of `EventLoopThread`.
-/

namespace Yatwb

open Foundation

/-- The address of an `EventLoop`. -/
abbrev Address := Nat

/-- `count_` with its mutex and its condition variable. -/
abbrev CountDownLatch := Monitor Int

namespace CountDownLatch

def new (count : Int) : CountDownLatch := Monitor.new count

/-- The next statement of `wait`. -/
def wait (latch : CountDownLatch) : Option CountDownLatch :=
  Monitor.wait (fun count => !decide (0 < count)) latch

/-- The next statement of `countDown`. -/
def countDown (latch : CountDownLatch) : Option CountDownLatch :=
  Monitor.signal (fun count => count - 1) (fun count => count == 0) latch

end CountDownLatch

/-- Where the thread that calls `startLoop` is, and what it returned. -/
inductive OwnerPc
  | calling
  | creating
  | latching
  | checking
  | waiting
  | returned (loop : Option Address)
  | aborted
  deriving DecidableEq, Repr

/-- Where the new thread is in `runInThread` and `IOThreadFunc`. -/
inductive IoPc
  | unborn
  | storingTid
  | countingDown
  | constructing
  | publishing
  | looping
  deriving DecidableEq, Repr

/-- An `EventLoopThread` with its `Thread`, the program points of its two
threads, and what the kernel gave to the new one; `loop` is `loop_` with
`mutex_` and `cv_`, and `built` the `EventLoop` of `IOThreadFunc`. -/
structure EventLoopThread where
  started : Bool
  tid : Nat
  latch : CountDownLatch
  loop : Monitor (Option Address)
  owner : OwnerPc
  io : IoPc
  kernelTid : Nat
  stack : Address
  built : Option Address
  deriving DecidableEq, Repr

namespace EventLoopThread

/-- The constructor, and the call of `startLoop`. -/
def new : EventLoopThread where
  started := false
  tid := 0
  latch := CountDownLatch.new 1
  loop := Monitor.new none
  owner := .calling
  io := .unborn
  kernelTid := 0
  stack := 0
  built := none

/-- The next statement of `startLoop` and of the `Thread::start` it calls. -/
def startLoop (t : EventLoopThread) : Option EventLoopThread :=
  match t.owner with
  | .calling =>
      if t.started then some { t with owner := .aborted }
      else some { t with started := true, owner := .creating }
  | .latching => t.latch.wait.map fun latch =>
      { t with latch := latch, owner := if latch.waiter = .gone then .checking else .latching }
  | .checking =>
      if 0 < t.tid then some { t with owner := .waiting, loop := t.loop.beginWait }
      else some { t with owner := .aborted }
  | .waiting => (t.loop.wait Option.isSome).map fun loop =>
      { t with
        loop := loop
        owner := if loop.waiter = .gone then .returned t.loop.value else .waiting }
  | _ => none

/-- `pthread_create`, with what the kernel gives to the new thread. -/
def pthreadCreate (t : EventLoopThread) (tid : Nat) (stack : Address) : Option EventLoopThread :=
  match t.owner with
  | .creating => some { t with
      owner := .latching
      latch := t.latch.beginWait
      io := .storingTid
      kernelTid := tid
      stack := stack }
  | _ => none

/-- The wait in which the owner is blocked ends without a notification. -/
def wakeSpuriously (t : EventLoopThread) : Option EventLoopThread :=
  match t.owner with
  | .latching => t.latch.wakeSpuriously.map fun latch => { t with latch := latch }
  | .waiting => t.loop.wakeSpuriously.map fun loop => { t with loop := loop }
  | _ => none

/-- The next statement of `runInThread` and of the `IOThreadFunc` it calls, up to
the call of `EventLoop::loop`. -/
def runInThread (t : EventLoopThread) : Option EventLoopThread :=
  match t.io with
  | .storingTid => some { t with
      tid := t.kernelTid
      latch := t.latch.beginSignal
      io := .countingDown }
  | .countingDown => t.latch.countDown.map fun latch =>
      { t with
        latch := latch
        io := if latch.signaller = .gone then .constructing else .countingDown }
  | .constructing => some { t with
      built := some t.stack
      loop := t.loop.beginSignal
      io := .publishing }
  | .publishing => (t.loop.signal (fun _ => t.built) (fun _ => true)).map fun loop =>
      { t with loop := loop, io := if loop.signaller = .gone then .looping else .publishing }
  | _ => none

end EventLoopThread

/-- Where the thread of the base loop is in `EventLoopThreadPool::start`. -/
inductive BasePc
  | calling
  | iterating
  | starting
  | returned
  | aborted
  deriving DecidableEq, Repr

/-- The pool while it is started: its members, and where the base thread is. -/
structure PoolStart where
  started : Bool
  numThreads : Nat
  threads : List EventLoopThread
  loops : List (Option Address)
  base : BasePc
  deriving DecidableEq, Repr

namespace PoolStart

/-- A pool whose `start` is called. -/
def new (numThreads : Nat) : PoolStart := ⟨false, numThreads, [], [], .calling⟩

/-- The next statement of one thread; `io` counts in the order of `threads_`. -/
inductive Action
  | base
  | pthreadCreate (tid : Nat) (stack : Address)
  | wakeSpuriously
  | io (i : Nat)
  deriving DecidableEq, Repr

/-- Change the thread at a position. -/
def modify (s : PoolStart) (i : Nat) (f : EventLoopThread → Option EventLoopThread) :
    Option PoolStart :=
  match s.threads[i]? with
  | none => none
  | some t => (f t).map fun t' => { s with threads := s.threads.set i t' }

/-- The base thread: the `i`-th thread is started after `i` loops have been stored. -/
def start (s : PoolStart) : Option PoolStart :=
  match s.base with
  | .calling =>
      if s.started then some { s with base := .aborted }
      else some { s with started := true, base := .iterating }
  | .iterating =>
      if s.loops.length < s.numThreads then
        some { s with threads := s.threads ++ [EventLoopThread.new], base := .starting }
      else some { s with base := .returned }
  | .starting =>
      match s.threads[s.loops.length]? with
      | none => none
      | some t =>
          match t.owner with
          | .returned loop => some { s with loops := s.loops ++ [loop], base := .iterating }
          | _ => s.modify s.loops.length EventLoopThread.startLoop
  | _ => none

def next (s : PoolStart) : Action → Option PoolStart
  | .base => s.start
  | .pthreadCreate tid stack =>
      if 0 < tid ∧ ∀ t ∈ s.threads, t.io ≠ .unborn → t.stack ≠ stack then
        s.modify s.loops.length fun t => t.pthreadCreate tid stack
      else none
  | .wakeSpuriously => s.modify s.loops.length EventLoopThread.wakeSpuriously
  | .io i => s.modify i EventLoopThread.runInThread

/-- The start of a pool with the given number of threads. -/
def machine (numThreads : Nat) : Machine PoolStart Action where
  init s := s = new numThreads
  next := next

end PoolStart

end Yatwb
