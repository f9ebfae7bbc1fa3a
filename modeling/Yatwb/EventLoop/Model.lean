import Yatwb.Foundation.Check
import Mathlib.Algebra.Group.Nat.Defs

/-!
# Event loops

The part of `EventLoop` in `event_loop.h` and `event_loop.cpp` that other
threads share: the mutex, the vector of pending functors, the wake-up
descriptor and the flags. Functors are an arbitrary type here. A method of
the class is a composition of the small steps below, so that a run of several
threads can be interleaved between them.

## Implementation notes

`wakeup_fd_` is taken to be an `eventfd`, by its counter. The constructor
leaves `calling_pending_functors_` and the counter to the memory they occupy,
so both are arguments of the constructor. `std::mutex` is not recursive: a
thread that locks it twice never returns, which is a fault of its own. A
thread that finds it held by another thread waits.
-/

namespace Yatwb

open Foundation

/-- The result of `CurrentThread::tid()`. -/
abbrev ThreadId := Nat

/-- The largest value of an `eventfd` counter. -/
def eventfdMax : Nat := 2 ^ 64 - 2

structure EventLoop (φ : Type) where
  threadId : ThreadId
  looping : Bool
  quit : Bool
  callingPendingFunctors : Bool
  wakeupFd : Nat
  mutex : Option ThreadId
  pendingFunctors : List φ
  deriving DecidableEq, Repr

namespace EventLoop

/-- `abortNotInLoopThread`, the assert of `loop`, and the two ways in which a
thread does not get `mutex_`: it holds it already, or another thread holds it. -/
inductive Fault
  | notInLoopThread
  | alreadyLooping
  | relock
  | held
  deriving DecidableEq, Repr

variable {φ : Type}

/-- The constructor, run by the thread `tid`, with what the memory held. -/
def new (tid : ThreadId) (flag : Bool) (counter : Nat) : EventLoop φ where
  threadId := tid
  looping := false
  quit := true
  callingPendingFunctors := flag
  wakeupFd := counter
  mutex := none
  pendingFunctors := []

def isInLoopThread (l : EventLoop φ) (tid : ThreadId) : Bool := l.threadId == tid

def assertInLoopThread (l : EventLoop φ) (tid : ThreadId) : Except Fault PUnit :=
  check (l.isInLoopThread tid) .notInLoopThread

/-- A `write` of one to the `eventfd`. At the largest value it is refused. -/
def wakeup (l : EventLoop φ) : EventLoop φ :=
  { l with wakeupFd := if l.wakeupFd < eventfdMax then l.wakeupFd + 1 else l.wakeupFd }

/-- A `read` of the `eventfd`, which resets it. -/
def handleRead (l : EventLoop φ) : EventLoop φ := { l with wakeupFd := 0 }

/-- The constructor of a `lock_guard` on `mutex_`. -/
def lock (l : EventLoop φ) (tid : ThreadId) : Except Fault (EventLoop φ) :=
  match l.mutex with
  | none => .ok { l with mutex := some tid }
  | some holder => if holder = tid then .error .relock else .error .held

/-- The destructor of the `lock_guard`. -/
def unlock (l : EventLoop φ) : EventLoop φ := { l with mutex := none }

def pushBack (l : EventLoop φ) (cb : φ) : EventLoop φ :=
  { l with pendingFunctors := l.pendingFunctors ++ [cb] }

/-- The last statement of `queueInLoop`. -/
def wakeupIfNeeded (l : EventLoop φ) (tid : ThreadId) : EventLoop φ :=
  if !l.isInLoopThread tid || l.callingPendingFunctors then l.wakeup else l

def queueInLoop (l : EventLoop φ) (tid : ThreadId) (cb : φ) : Except Fault (EventLoop φ) := do
  let l ← l.lock tid
  return ((l.pushBack cb).wakeupIfNeeded tid).unlock

/-- `runInLoop`: whether the caller runs `cb` itself, and the loop otherwise. -/
def runInLoop (l : EventLoop φ) (tid : ThreadId) (cb : φ) :
    Except Fault (Bool × EventLoop φ) := do
  if l.isInLoopThread tid then return (true, l)
  else
    let l ← l.queueInLoop tid cb
    return (false, l)

def setCalling (l : EventLoop φ) (flag : Bool) : EventLoop φ :=
  { l with callingPendingFunctors := flag }

/-- The `swap` of `doPendingFunctors`, with the vector it takes. -/
def swapPending (l : EventLoop φ) : EventLoop φ × List φ :=
  ({ l with pendingFunctors := [] }, l.pendingFunctors)

/-- `doPendingFunctors` up to its loop over the functors. -/
def beginFunctors (l : EventLoop φ) (tid : ThreadId) : Except Fault (EventLoop φ × List φ) := do
  let l := l.setCalling true
  let l ← l.lock tid
  return l.swapPending

/-- `doPendingFunctors` after its loop over the functors. -/
def endFunctors (l : EventLoop φ) : EventLoop φ := (l.setCalling false).unlock

/-- `loop` up to its `while`. -/
def enterLoop (l : EventLoop φ) (tid : ThreadId) : Except Fault (EventLoop φ) := do
  check (l.looping = false) .alreadyLooping
  l.assertInLoopThread tid
  return { l with looping := true, quit := false }

/-- `loop` after its `while`. -/
def leaveLoop (l : EventLoop φ) : EventLoop φ := { l with looping := false }

def setQuit (l : EventLoop φ) : EventLoop φ := { l with quit := true }

theorem lock_eq_ok {l l' : EventLoop φ} {tid : ThreadId} :
    l.lock tid = .ok l' ↔ l.mutex = none ∧ l' = { l with mutex := some tid } := by
  unfold lock
  cases h : l.mutex with
  | none => simp [eq_comm]
  | some holder =>
      simp only [reduceCtorEq, false_and, iff_false]
      split <;> simp

theorem lock_self {l : EventLoop φ} {tid : ThreadId} (h : l.mutex = some tid) :
    l.lock tid = .error .relock := by
  simp [lock, h]

@[simp] theorem wakeupIfNeeded_threadId (l : EventLoop φ) (tid : ThreadId) :
    (l.wakeupIfNeeded tid).threadId = l.threadId := by
  unfold wakeupIfNeeded
  split <;> rfl

@[simp] theorem wakeupIfNeeded_mutex (l : EventLoop φ) (tid : ThreadId) :
    (l.wakeupIfNeeded tid).mutex = l.mutex := by
  unfold wakeupIfNeeded
  split <;> rfl

@[simp] theorem wakeupIfNeeded_pendingFunctors (l : EventLoop φ) (tid : ThreadId) :
    (l.wakeupIfNeeded tid).pendingFunctors = l.pendingFunctors := by
  unfold wakeupIfNeeded
  split <;> rfl

@[simp] theorem wakeupIfNeeded_looping (l : EventLoop φ) (tid : ThreadId) :
    (l.wakeupIfNeeded tid).looping = l.looping := by
  unfold wakeupIfNeeded
  split <;> rfl

/-- What a completed `queueInLoop` leaves, and why one does not complete. -/
theorem queueInLoop_spec (l : EventLoop φ) (tid : ThreadId) (cb : φ) :
    Ends (fun l' => l'.threadId = l.threadId ∧ l'.pendingFunctors = l.pendingFunctors ++ [cb])
      (fun f => f = .relock ∨ f = .held) (l.queueInLoop tid cb) := by
  unfold queueInLoop lock
  split
  · exact ⟨wakeupIfNeeded_threadId _ tid, wakeupIfNeeded_pendingFunctors _ tid⟩
  · split
    · exact Or.inl rfl
    · exact Or.inr rfl

/-- `queueInLoop` when no thread holds `mutex_`. -/
theorem queueInLoop_free {l : EventLoop φ} (h : l.mutex = none) (tid : ThreadId) (cb : φ) :
    ∃ l', l.queueInLoop tid cb = .ok l' ∧ l'.mutex = none ∧ l'.looping = l.looping ∧
      l'.threadId = l.threadId ∧ l'.pendingFunctors = l.pendingFunctors ++ [cb] := by
  have hlock : l.lock tid = .ok { l with mutex := some tid } := lock_eq_ok.mpr ⟨h, rfl⟩
  refine ⟨((({ l with mutex := some tid }).pushBack cb).wakeupIfNeeded tid).unlock, ?_, rfl,
    wakeupIfNeeded_looping _ tid, wakeupIfNeeded_threadId _ tid,
    wakeupIfNeeded_pendingFunctors _ tid⟩
  rw [queueInLoop, hlock]
  rfl

/-- What `doPendingFunctors` takes, and why it does not get that far. -/
theorem beginFunctors_spec (l : EventLoop φ) (tid : ThreadId) :
    Ends (fun r => r.1.threadId = l.threadId ∧ r.1.pendingFunctors = [] ∧
      r.2 = l.pendingFunctors) (fun f => f = .relock ∨ f = .held) (l.beginFunctors tid) := by
  simp only [beginFunctors, lock]
  split
  · exact ⟨rfl, rfl, rfl⟩
  · split
    · exact Or.inl rfl
    · exact Or.inr rfl

/-- The batch keeps `mutex_` and leaves nothing behind. -/
theorem beginFunctors_eq_ok {l : EventLoop φ} {tid : ThreadId} {r : EventLoop φ × List φ}
    (h : l.beginFunctors tid = .ok r) : r.1.mutex = some tid ∧ r.1.pendingFunctors = [] := by
  obtain ⟨locked, hlock, h⟩ := bind_eq_ok.mp h
  obtain ⟨-, rfl⟩ := lock_eq_ok.mp hlock
  obtain rfl := Except.ok.inj h
  exact ⟨rfl, rfl⟩

/-- `doPendingFunctors` when no thread holds `mutex_`. -/
theorem beginFunctors_free {l : EventLoop φ} (h : l.mutex = none) (tid : ThreadId) :
    l.beginFunctors tid = .ok ({ l with
      callingPendingFunctors := true, mutex := some tid, pendingFunctors := [] },
      l.pendingFunctors) := by
  have hlock : (l.setCalling true).lock tid = .ok { l.setCalling true with mutex := some tid } :=
    lock_eq_ok.mpr ⟨h, rfl⟩
  rw [beginFunctors, hlock]
  rfl

/-- A thread other than that of the loop always writes the wake-up event. -/
theorem wakeupIfNeeded_of_ne {l : EventLoop φ} {tid : ThreadId} (h : tid ≠ l.threadId) :
    l.wakeupIfNeeded tid = l.wakeup := by
  simp [wakeupIfNeeded, isInLoopThread, Ne.symm h]

/-- `loop` on the thread of the loop, when it is not running yet. -/
theorem enterLoop_idle {l : EventLoop φ} {tid : ThreadId} (hlooping : l.looping = false)
    (hin : l.isInLoopThread tid = true) :
    l.enterLoop tid = .ok { l with looping := true, quit := false } := by
  rw [enterLoop, assertInLoopThread, check_bind_of _ hlooping, check_bind_of _ hin]
  rfl

theorem enterLoop_eq_ok {l l' : EventLoop φ} {tid : ThreadId} (h : l.enterLoop tid = .ok l') :
    l.threadId = tid ∧ l' = { l with looping := true, quit := false } := by
  obtain ⟨_, -, h⟩ := bind_eq_ok.mp h
  obtain ⟨_, hin, h⟩ := bind_eq_ok.mp h
  exact ⟨beq_iff_eq.mp (check_eq_ok.mp hin), (Except.ok.inj h).symm⟩

theorem wakeup_pos (l : EventLoop φ) : 0 < l.wakeup.wakeupFd := by
  simp only [wakeup]
  split
  · omega
  · rename_i h
    simp only [eventfdMax] at h
    omega

end EventLoop

end Yatwb
