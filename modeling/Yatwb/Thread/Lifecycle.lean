import Yatwb.Thread.Model

/-!
# The life of a thread object

`Thread` of `thread.cpp` from its constructor to its destructor: `start`, with a
`pthread_create` that may fail, `join`, and the detachment of a thread that was
not joined. The owner calls these functions in any order; the new thread runs
`startThread`, which at the end deletes the `ThreadData` that `start` has made.
One action executes the next statement of one of the two.

## Implementation notes

* The owner makes no call on an object that it has destroyed. What the new
  thread does to a destroyed object is a fault, as are a second `delete` of its
  `ThreadData` and a `pthread_join` or `pthread_detach` of a thread that cannot
  be joined.
* `pthread_join` returns when the other thread has ended; the function given to
  the thread ends at some point, or never.
* The names of threads and the log are left out. An action that is not possible
  leaves the object as it is.
-/

namespace Yatwb

open Foundation

/-- Where the owner is: between two calls, in `start`, or in `pthread_join`. -/
inductive CallerPc
  | idle
  | creating
  | latching
  | checking
  | joining
  deriving DecidableEq, Repr

/-- Where the new thread is in `startThread`. -/
inductive RunnerPc
  | unborn
  | storingTid
  | countingDown
  | running
  | deleting
  | exited
  deriving DecidableEq, Repr

namespace RunnerPc

/-- The points at which `tid_` or `latch_` of the object is used next. -/
def touches : RunnerPc → Bool
  | storingTid => true
  | countingDown => true
  | _ => false

/-- The new thread has a `ThreadData`. -/
def holdsData : RunnerPc → Bool
  | unborn => false
  | exited => false
  | _ => true

end RunnerPc

/-- What the kernel knows of `pthread_id_`. -/
inductive Handle
  | none
  | joinable
  | joined
  | detached
  deriving DecidableEq, Repr

/-- A `Thread`, whether it has been destroyed, the program points of its two
threads, the kernel's number for the new one, and how many `ThreadData` were
made and deleted. -/
structure Thread where
  started : Bool
  joined : Bool
  pthreadId : Handle
  tid : Nat
  latch : CountDownLatch
  destroyed : Bool
  caller : CallerPc
  runner : RunnerPc
  kernelTid : Nat
  allocated : Nat
  deleted : Nat
  deriving DecidableEq, Repr

namespace Thread

/-- The asserts of `start` and `join`, and what must never happen. -/
inductive Fault
  | alreadyStarted
  | notStarted
  | alreadyJoined
  | noTid
  | useAfterFree
  | doubleDelete
  | badHandle
  deriving DecidableEq, Repr

/-- The constructor. -/
def new : Thread where
  started := false
  joined := false
  pthreadId := .none
  tid := 0
  latch := CountDownLatch.new 1
  destroyed := false
  caller := .idle
  runner := .unborn
  kernelTid := 0
  allocated := 0
  deleted := 0

/-- The owner can make a call. -/
def mayCall (t : Thread) : Prop := t.destroyed = false ∧ t.caller = .idle

instance (t : Thread) : Decidable t.mayCall := inferInstanceAs (Decidable (_ ∧ _))

/-- `start` up to `pthread_create`. -/
def start (t : Thread) : Except Fault Thread := do
  check (t.started = false) .alreadyStarted
  return { t with started := true, allocated := t.allocated + 1, caller := .creating }

/-- `pthread_create` succeeds, with the number of the new thread. -/
def pthreadCreate (t : Thread) (tid : Nat) : Thread :=
  { t with
    pthreadId := .joinable
    kernelTid := tid
    latch := t.latch.beginWait
    caller := .latching
    runner := .storingTid }

/-- `delete` of the `ThreadData`. -/
def deleteData (t : Thread) : Except Fault Thread := do
  check (t.deleted < t.allocated) .doubleDelete
  return { t with deleted := t.deleted + 1 }

/-- `pthread_create` fails. -/
def pthreadCreateFails (t : Thread) : Except Fault Thread := do
  let t ← { t with started := false, caller := .idle : Thread }.deleteData
  return t

/-- The next statement of `latch_.wait()`. -/
def waitLatch (t : Thread) : Thread :=
  match t.latch.wait with
  | some latch => { t with
      latch := latch
      caller := if latch.waiter = .gone then .checking else .latching }
  | none => t

/-- A wait that ends without a notification. -/
def wakeSpuriously (t : Thread) : Thread :=
  match t.latch.wakeSpuriously with
  | some latch => { t with latch := latch }
  | none => t

/-- The last statement of `start`. -/
def assertTid (t : Thread) : Except Fault Thread := do
  check (0 < t.tid) .noTid
  return { t with caller := .idle }

/-- `join` up to `pthread_join`. -/
def join (t : Thread) : Except Fault Thread := do
  check (t.started = true) .notStarted
  check (t.joined = false) .alreadyJoined
  return { t with joined := true, caller := .joining }

def pthreadJoin (t : Thread) : Except Fault Thread := do
  check (t.pthreadId = .joinable) .badHandle
  return { t with pthreadId := .joined, caller := .idle }

def pthreadDetach (t : Thread) : Except Fault Thread := do
  check (t.pthreadId = .joinable) .badHandle
  return { t with pthreadId := .detached }

/-- The destructor. -/
def destroy (t : Thread) : Except Fault Thread := do
  let t ← if t.started ∧ t.joined = false then t.pthreadDetach else .ok t
  return { t with destroyed := true }

/-- The next statement of `startThread` and of the `runInThread` it calls. -/
def startThread (t : Thread) : Except Fault Thread :=
  match t.runner with
  | .storingTid => do
      check (t.destroyed = false) .useAfterFree
      return { t with tid := t.kernelTid, latch := t.latch.beginSignal, runner := .countingDown }
  | .countingDown => do
      check (t.destroyed = false) .useAfterFree
      match t.latch.countDown with
      | some latch => return { t with
          latch := latch
          runner := if latch.signaller = .gone then .running else .countingDown }
      | none => return t
  | .running => .ok { t with runner := .deleting }
  | .deleting => do
      let t ← t.deleteData
      return { t with runner := .exited }
  | _ => .ok t

inductive Action
  | start
  | pthreadCreate (tid : Nat)
  | pthreadCreateFails
  | waitLatch
  | wakeSpuriously
  | assertTid
  | join
  | pthreadJoin
  | destroy
  | startThread
  deriving DecidableEq, Repr

def step (t : Thread) : Action → Except Fault Thread
  | .start => if t.mayCall then t.start else .ok t
  | .pthreadCreate tid =>
      if t.caller = .creating ∧ 0 < tid then .ok (t.pthreadCreate tid) else .ok t
  | .pthreadCreateFails => if t.caller = .creating then t.pthreadCreateFails else .ok t
  | .waitLatch => if t.caller = .latching then .ok t.waitLatch else .ok t
  | .wakeSpuriously => if t.caller = .latching then .ok t.wakeSpuriously else .ok t
  | .assertTid => if t.caller = .checking then t.assertTid else .ok t
  | .join => if t.mayCall then t.join else .ok t
  | .pthreadJoin => if t.caller = .joining ∧ t.runner = .exited then t.pthreadJoin else .ok t
  | .destroy => if t.mayCall then t.destroy else .ok t
  | .startThread => t.startThread

/-- The runs of a thread object. -/
def machine : Machine (Except Fault Thread) Action := faulting (· = new) step

/-! ### The invariant -/

/-- What the point of the owner says. -/
def CallerOk (t : Thread) : Prop :=
  match t.caller with
  | .idle => (t.started = false → t.runner = .unborn ∧ t.latch.waiter.stage = .before) ∧
      (t.started = true → t.runner ≠ .unborn ∧ t.latch.waiter.stage = .after)
  | .creating => t.started = true ∧ t.destroyed = false ∧ t.joined = false ∧
      t.runner = .unborn ∧ t.latch.waiter.stage = .before
  | .latching => t.started = true ∧ t.destroyed = false ∧ t.joined = false ∧
      t.runner ≠ .unborn ∧ t.latch.waiter.stage = .during
  | .checking => t.started = true ∧ t.destroyed = false ∧ t.joined = false ∧
      t.runner ≠ .unborn ∧ t.latch.waiter.stage = .after
  | .joining => t.started = true ∧ t.destroyed = false ∧ t.joined = true ∧
      t.runner ≠ .unborn ∧ t.latch.waiter.stage = .after

/-- What the point of the new thread says. -/
def RunnerOk (t : Thread) : Prop :=
  match t.runner with
  | .unborn => t.latch.signaller.stage = .before
  | .storingTid => 0 < t.kernelTid ∧ t.latch.signaller.stage = .before
  | .countingDown => 0 < t.kernelTid ∧ t.tid = t.kernelTid ∧ t.latch.signaller.stage = .during
  | .running | .deleting | .exited =>
      0 < t.kernelTid ∧ t.tid = t.kernelTid ∧ t.latch.signaller.stage = .after

/-- The state of the handle: it is joined by `join` and detached by the destructor. -/
def HandleOk (t : Thread) : Prop :=
  match t.pthreadId with
  | .none => t.runner = .unborn ∧ t.joined = false
  | .joinable => t.runner ≠ .unborn ∧ t.destroyed = false ∧ (t.joined = true ↔ t.caller = .joining)
  | .joined => t.runner = .exited ∧ t.joined = true ∧ t.caller = .idle
  | .detached => t.runner ≠ .unborn ∧ t.destroyed = true ∧ t.joined = false

structure Inv (t : Thread) : Prop where
  latch : Monitor.Inv 1 0 t.latch
  parted : t.latch.Parted
  caller : t.CallerOk
  runner : t.RunnerOk
  handle : t.HandleOk
  data : t.allocated =
    t.deleted + if t.caller = .creating ∨ t.runner.holdsData = true then 1 else 0

variable {t t' : Thread}

theorem inv_new : new.Inv where
  latch := Monitor.inv_new 1 0
  parted := fun hpassed => by cases hpassed
  caller := ⟨fun _ => ⟨rfl, rfl⟩, fun hstarted => by cases hstarted⟩
  runner := rfl
  handle := ⟨rfl, rfl⟩
  data := rfl

/-- While the new thread uses the object, its owner is in `start`. -/
theorem Inv.latching_of_touches (h : t.Inv) (htouches : t.runner.touches = true) :
    t.caller = .latching := by
  have hrunner := h.runner
  have hborn : t.runner ≠ .unborn := by
    intro hunborn
    rw [hunborn] at htouches
    cases htouches
  have hsignaller : t.latch.signaller.stage ≠ .after := by
    unfold RunnerOk at hrunner
    cases hpc : t.runner with
    | storingTid =>
        rw [hpc] at hrunner
        rw [hrunner.2]
        decide
    | countingDown =>
        rw [hpc] at hrunner
        rw [hrunner.2.2]
        decide
    | _ =>
        rw [hpc] at htouches
        cases htouches
  have hwaiter : t.latch.waiter.stage ≠ .after := by
    intro hgone
    have hpassed : t.latch.waiter.passed = true := by
      rw [Waiter.stage_eq_after.mp hgone]
      rfl
    rw [h.parted hpassed] at hsignaller
    exact hsignaller rfl
  have hcaller := h.caller
  unfold CallerOk at hcaller
  cases hpc : t.caller with
  | latching => rfl
  | idle =>
      rw [hpc] at hcaller
      cases hstarted : t.started with
      | false => exact absurd (hcaller.1 hstarted).1 hborn
      | true => exact absurd (hcaller.2 hstarted).2 hwaiter
  | creating =>
      rw [hpc] at hcaller
      exact absurd hcaller.2.2.2.1 hborn
  | checking | joining =>
      rw [hpc] at hcaller
      exact absurd hcaller.2.2.2.2 hwaiter

theorem Inv.unused_of_unborn (h : t.Inv) (hunborn : t.runner = .unborn) :
    t.pthreadId = .none ∧ t.joined = false := by
  have hhandle := h.handle
  unfold HandleOk at hhandle
  cases hid : t.pthreadId with
  | none =>
      rw [hid] at hhandle
      exact ⟨rfl, hhandle.2⟩
  | joinable | detached =>
      rw [hid] at hhandle
      exact absurd hunborn hhandle.1
  | joined =>
      rw [hid, hunborn] at hhandle
      cases hhandle.1

/-- A thread that runs and was neither joined nor detached can be. -/
theorem Inv.joinable (h : t.Inv) (hborn : t.runner ≠ .unborn) (halive : t.destroyed = false)
    (hjoined : t.joined = true → t.caller = .joining) : t.pthreadId = .joinable := by
  have hhandle := h.handle
  unfold HandleOk at hhandle
  cases hid : t.pthreadId with
  | joinable => rfl
  | none =>
      rw [hid] at hhandle
      exact absurd hhandle.1 hborn
  | joined =>
      rw [hid] at hhandle
      have hcaller := hjoined hhandle.2.1
      rw [hhandle.2.2] at hcaller
      cases hcaller
  | detached =>
      rw [hid, halive] at hhandle
      cases hhandle.2.1

/-- Once the new thread leaves the object alone, the number has been stored. -/
theorem Inv.numbered (h : t.Inv) (hborn : t.runner ≠ .unborn)
    (huntouched : t.runner.touches ≠ true) : 0 < t.tid ∧ t.tid = t.kernelTid := by
  have hrunner := h.runner
  unfold RunnerOk at hrunner
  cases hpc : t.runner with
  | unborn => exact absurd hpc hborn
  | storingTid | countingDown =>
      rw [hpc] at huntouched
      exact absurd rfl huntouched
  | running | deleting | exited =>
      rw [hpc] at hrunner
      exact ⟨hrunner.2.1 ▸ hrunner.1, hrunner.2.1⟩

/-- The faults that the owner can bring about: a call that its object does not allow. -/
def Fault.OfCaller : Fault → Prop
  | .alreadyStarted => True
  | .notStarted => True
  | .alreadyJoined => True
  | _ => False

abbrev Sound (x : Except Fault Thread) : Prop := Ends Inv Fault.OfCaller x

theorem Inv.start (h : t.Inv) (hmay : t.mayCall) : Sound t.start := by
  refine ends_check (fun _ => trivial) fun hstarted => ?_
  obtain ⟨halive, hidle⟩ := hmay
  have hcaller := h.caller
  simp only [CallerOk, hidle] at hcaller
  obtain ⟨hunborn, hbefore⟩ := hcaller.1 hstarted
  obtain ⟨hnone, hjoined⟩ := h.unused_of_unborn hunborn
  have hdata := h.data
  rw [hidle, hunborn] at hdata
  refine ⟨h.latch, h.parted, ⟨rfl, halive, hjoined, hunborn, hbefore⟩, h.runner, ?_, ?_⟩
  · simp only [HandleOk, hnone]
    exact ⟨hunborn, hjoined⟩
  · simp only [true_or, if_true]
    simpa [RunnerPc.holdsData] using hdata

theorem Inv.pthreadCreate (h : t.Inv) (hpc : t.caller = .creating) {tid : Nat} (htid : 0 < tid) :
    (t.pthreadCreate tid).Inv := by
  have hcaller := h.caller
  simp only [CallerOk, hpc] at hcaller
  obtain ⟨hstarted, halive, hjoined, hunborn, hbefore⟩ := hcaller
  have hrunner := h.runner
  simp only [RunnerOk, hunborn] at hrunner
  have hdata := h.data
  rw [hpc] at hdata
  refine ⟨h.latch.beginWait (Waiter.stage_eq_before.mp hbefore), ?_,
    ⟨hstarted, halive, hjoined, by simp [Thread.pthreadCreate], rfl⟩, ⟨htid, hrunner⟩, ?_, ?_⟩
  · intro hpassed
    cases hpassed
  · simp [HandleOk, Thread.pthreadCreate, halive, hjoined]
  · simpa [Thread.pthreadCreate, RunnerPc.holdsData] using hdata

theorem Inv.pthreadCreateFails (h : t.Inv) (hpc : t.caller = .creating) :
    Sound t.pthreadCreateFails := by
  have hcaller := h.caller
  simp only [CallerOk, hpc] at hcaller
  obtain ⟨hstarted, halive, hjoined, hunborn, hbefore⟩ := hcaller
  have hhandle := (h.unused_of_unborn hunborn).1
  have hdata := h.data
  rw [hpc] at hdata
  simp only [true_or, if_true] at hdata
  have hless : t.deleted < t.allocated := by omega
  unfold Thread.pthreadCreateFails deleteData
  rw [check_bind_of _ hless]
  refine ⟨h.latch, h.parted, ⟨fun _ => ⟨hunborn, hbefore⟩, fun hstarted => by cases hstarted⟩,
    h.runner, ?_, ?_⟩
  · simp only [HandleOk, hhandle]
    exact ⟨hunborn, hjoined⟩
  · simp [hunborn, RunnerPc.holdsData, hdata]

/-- What the statements of the owner in `latch_.wait()` leave alone. -/
theorem Inv.latching (h : t.Inv) (hpc : t.caller = .latching) {latch : CountDownLatch}
    {caller : CallerPc} (hlatch : Monitor.Inv 1 0 latch) (hparted : latch.Parted)
    (hsignaller : latch.signaller = t.latch.signaller)
    (hcaller : caller = .latching ∧ latch.waiter.stage = .during ∨
      caller = .checking ∧ latch.waiter.stage = .after) :
    Inv { t with latch := latch, caller := caller } := by
  have hbefore := h.caller
  simp only [CallerOk, hpc] at hbefore
  obtain ⟨hstarted, halive, hjoined, hborn, -⟩ := hbefore
  have hid := h.joinable hborn halive (fun htrue => by simp [hjoined] at htrue)
  have hdata := h.data
  rw [hpc] at hdata
  have hnot : caller ≠ .joining ∧ caller ≠ .creating := by
    rcases hcaller with ⟨rfl, -⟩ | ⟨rfl, -⟩
    · exact ⟨by decide, by decide⟩
    · exact ⟨by decide, by decide⟩
  refine ⟨hlatch, hparted, ?_, ?_, ?_, ?_⟩
  · rcases hcaller with ⟨rfl, hstage⟩ | ⟨rfl, hstage⟩
    · exact ⟨hstarted, halive, hjoined, hborn, hstage⟩
    · exact ⟨hstarted, halive, hjoined, hborn, hstage⟩
  · have hrunner := h.runner
    unfold RunnerOk at hrunner ⊢
    simp only [hsignaller]
    exact hrunner
  · simp [HandleOk, hid, hborn, halive, hjoined, hnot.1]
  · simpa [hnot.2] using hdata

theorem Inv.waitLatch (h : t.Inv) (hpc : t.caller = .latching) : t.waitLatch.Inv := by
  unfold Thread.waitLatch
  split
  · rename_i latch hwait
    obtain ⟨hsignaller, -, hstage⟩ := Monitor.wait_stage hwait
    refine h.latching hpc (h.latch.wait rfl rfl hwait) (h.parted.wait h.latch rfl hwait)
      hsignaller ?_
    by_cases hgone : latch.waiter = .gone
    · exact Or.inr ⟨if_pos hgone, Waiter.stage_eq_after.mpr hgone⟩
    · exact Or.inl ⟨if_neg hgone, Waiter.stage_eq_during hstage hgone⟩
  · exact h

theorem Inv.wakeSpuriously (h : t.Inv) (hpc : t.caller = .latching) : t.wakeSpuriously.Inv := by
  unfold Thread.wakeSpuriously
  split
  · rename_i latch hwake
    obtain ⟨hsignaller, hstage⟩ := Monitor.wakeSpuriously_stage hwake
    have hcaller := h.caller
    simp only [CallerOk, hpc] at hcaller
    have hsame := h.latching hpc (h.latch.wakeSpuriously hwake)
      (Monitor.Parted.wakeSpuriously hwake) hsignaller
      (Or.inl ⟨hpc, hstage.trans hcaller.2.2.2.2⟩)
    exact hsame
  · exact h

theorem Inv.assertTid (h : t.Inv) (hpc : t.caller = .checking) : Sound t.assertTid := by
  have hcaller := h.caller
  simp only [CallerOk, hpc] at hcaller
  obtain ⟨hstarted, halive, hjoined, hborn, hafter⟩ := hcaller
  have hid := h.joinable hborn halive (fun htrue => by simp [hjoined] at htrue)
  have hdata := h.data
  rw [hpc] at hdata
  have huntouched : t.runner.touches ≠ true := by
    intro htouches
    rw [h.latching_of_touches htouches] at hpc
    cases hpc
  have htid := (h.numbered hborn huntouched).1
  unfold Thread.assertTid
  rw [check_bind_of _ htid]
  refine ⟨h.latch, h.parted, ⟨fun hfalse => ?_, fun _ => ⟨hborn, hafter⟩⟩, h.runner, ?_, ?_⟩
  · rw [hstarted] at hfalse
    cases hfalse
  · simp [HandleOk, hid, hborn, halive, hjoined]
  · simpa using hdata

theorem Inv.join (h : t.Inv) (hmay : t.mayCall) : Sound t.join := by
  obtain ⟨halive, hidle⟩ := hmay
  have hcaller := h.caller
  simp only [CallerOk, hidle] at hcaller
  refine ends_check (fun _ => trivial) fun hstarted => ?_
  refine ends_check (fun _ => trivial) fun hjoined => ?_
  obtain ⟨hborn, hafter⟩ := hcaller.2 hstarted
  have hid := h.joinable hborn halive (fun htrue => by simp [hjoined] at htrue)
  have hdata := h.data
  rw [hidle] at hdata
  refine ⟨h.latch, h.parted, ⟨hstarted, halive, rfl, hborn, hafter⟩, h.runner, ?_, ?_⟩
  · simp [HandleOk, hid, hborn, halive]
  · simpa using hdata

theorem Inv.pthreadJoin (h : t.Inv) (hpc : t.caller = .joining) (hexited : t.runner = .exited) :
    Sound t.pthreadJoin := by
  have hcaller := h.caller
  simp only [CallerOk, hpc] at hcaller
  obtain ⟨hstarted, halive, hjoined, hborn, hafter⟩ := hcaller
  have hid := h.joinable hborn halive fun _ => hpc
  have hdata := h.data
  rw [hpc] at hdata
  unfold Thread.pthreadJoin
  rw [check_bind_of _ hid]
  refine ⟨h.latch, h.parted, ⟨fun hfalse => ?_, fun _ => ⟨hborn, hafter⟩⟩, h.runner,
    ⟨hexited, hjoined, rfl⟩, ?_⟩
  · rw [hstarted] at hfalse
    cases hfalse
  · simpa using hdata

theorem Inv.destroy (h : t.Inv) (hmay : t.mayCall) : Sound t.destroy := by
  obtain ⟨halive, hidle⟩ := hmay
  have hcaller := h.caller
  simp only [CallerOk, hidle] at hcaller
  unfold Thread.destroy
  split
  · rename_i hrunning
    obtain ⟨hstarted, hjoined⟩ := hrunning
    obtain ⟨hborn, hafter⟩ := hcaller.2 hstarted
    have hid := h.joinable hborn halive (fun htrue => by simp [hjoined] at htrue)
    unfold pthreadDetach
    rw [check_bind_of _ hid]
    refine ⟨h.latch, h.parted, ?_, h.runner, ⟨hborn, rfl, hjoined⟩, h.data⟩
    simp only [CallerOk, hidle]
    exact hcaller
  · rename_i hdone
    refine ⟨h.latch, h.parted, ?_, h.runner, ?_, h.data⟩
    · simp only [CallerOk, hidle]
      exact hcaller
    · have hhandle := h.handle
      unfold HandleOk at hhandle ⊢
      cases hid : t.pthreadId with
      | none | joined =>
          rw [hid] at hhandle
          simpa only [hid] using hhandle
      | joinable =>
          rw [hid] at hhandle
          obtain ⟨hborn, -, hjoining⟩ := hhandle
          exfalso
          apply hdone
          constructor
          · cases hstarted : t.started with
            | true => rfl
            | false => exact absurd (hcaller.1 hstarted).1 hborn
          · cases hjoined : t.joined with
            | false => rfl
            | true =>
                rw [hjoining.mp hjoined] at hidle
                cases hidle
      | detached =>
          rw [hid, halive] at hhandle
          cases hhandle.2.1

/-- The new thread moves on. -/
theorem Inv.runner_moves (h : t.Inv) (hborn : t.runner ≠ .unborn) (hexited : t.runner ≠ .exited)
    {tid deleted : Nat} {latch : CountDownLatch} {runner : RunnerPc}
    (hlatch : Monitor.Inv 1 0 latch) (hparted : latch.Parted)
    (hstage : latch.waiter.stage = t.latch.waiter.stage) (hstill : runner ≠ .unborn)
    (hrunner : RunnerOk { t with tid := tid, latch := latch, runner := runner })
    (hdata : deleted + (if runner.holdsData = true then 1 else 0) =
      t.deleted + if t.runner.holdsData = true then 1 else 0) :
    Inv { t with tid := tid, latch := latch, runner := runner, deleted := deleted } := by
  have hcaller := h.caller
  have hhandle := h.handle
  have hbefore := h.data
  have hcreating : t.caller ≠ .creating := by
    intro hpc
    simp only [CallerOk, hpc] at hcaller
    exact hborn hcaller.2.2.2.1
  refine ⟨hlatch, hparted, ?_, hrunner, ?_, ?_⟩
  · unfold CallerOk at hcaller ⊢
    cases hpc : t.caller with
    | creating => exact absurd hpc hcreating
    | idle =>
        rw [hpc] at hcaller
        simp only [hstage]
        exact ⟨fun hfalse => absurd (hcaller.1 hfalse).1 hborn,
          fun hstarted => ⟨hstill, (hcaller.2 hstarted).2⟩⟩
    | latching | checking | joining =>
        rw [hpc] at hcaller
        simp only [hstage]
        exact ⟨hcaller.1, hcaller.2.1, hcaller.2.2.1, hstill, hcaller.2.2.2.2⟩
  · unfold HandleOk at hhandle ⊢
    cases hid : t.pthreadId with
    | none =>
        rw [hid] at hhandle
        exact absurd hhandle.1 hborn
    | joined =>
        rw [hid] at hhandle
        exact absurd hhandle.1 hexited
    | joinable | detached =>
        rw [hid] at hhandle
        exact ⟨hstill, hhandle.2⟩
  · simp only [hcreating, false_or] at hbefore ⊢
    omega

theorem Inv.startThread (h : t.Inv) : Sound t.startThread := by
  have hrunner := h.runner
  have hdata := h.data
  unfold Thread.startThread
  cases hpc : t.runner with
  | unborn => exact h
  | exited => exact h
  | storingTid =>
      simp only [RunnerOk, hpc] at hrunner
      obtain ⟨hpos, hbefore⟩ := hrunner
      have hcaller := h.caller
      simp only [CallerOk, h.latching_of_touches (by rw [hpc]; rfl)] at hcaller
      have haway := Signaller.stage_eq_before.mp hbefore
      have hparted : t.latch.beginSignal.Parted := by
        intro hpassed
        rw [h.parted hpassed] at haway
        cases haway
      refine ends_check (fun hdead => absurd hcaller.2.1 hdead) fun _ => ?_
      exact h.runner_moves (by simp [hpc]) (by simp [hpc]) (h.latch.beginSignal haway) hparted
        rfl (by simp) ⟨hpos, rfl, rfl⟩ (by simp [hpc, RunnerPc.holdsData])
  | countingDown =>
      simp only [RunnerOk, hpc] at hrunner
      obtain ⟨hpos, htid, -⟩ := hrunner
      have hcaller := h.caller
      simp only [CallerOk, h.latching_of_touches (by rw [hpc]; rfl)] at hcaller
      refine ends_check (fun hdead => absurd hcaller.2.1 hdead) fun _ => ?_
      split
      · rename_i latch hsignal
        obtain ⟨hstage, -, hbegun⟩ := Monitor.signal_stage hsignal
        have hlatch : Monitor.Inv 1 0 latch := h.latch.signal rfl rfl hsignal
        by_cases hgone : latch.signaller = .gone
        · simp only [if_pos hgone]
          exact h.runner_moves (by simp [hpc]) (by simp [hpc]) hlatch (h.parted.signal hsignal)
            hstage (by simp) ⟨hpos, htid, Signaller.stage_eq_after.mpr hgone⟩
            (by simp [hpc, RunnerPc.holdsData])
        · simp only [if_neg hgone]
          exact h.runner_moves (by simp [hpc]) (by simp [hpc]) hlatch (h.parted.signal hsignal)
            hstage (by simp) ⟨hpos, htid, Signaller.stage_eq_during hbegun hgone⟩
            (by simp [hpc, RunnerPc.holdsData])
      · exact h
  | running =>
      simp only [RunnerOk, hpc] at hrunner
      exact h.runner_moves (by simp [hpc]) (by simp [hpc]) h.latch h.parted rfl (by simp) hrunner
        (by simp [hpc, RunnerPc.holdsData])
  | deleting =>
      simp only [RunnerOk, hpc] at hrunner
      rw [hpc] at hdata
      have hless : t.deleted < t.allocated := by
        simp only [RunnerPc.holdsData, or_true, if_true] at hdata
        omega
      unfold deleteData
      rw [check_bind_of _ hless]
      exact h.runner_moves (by simp [hpc]) (by simp [hpc]) h.latch h.parted rfl (by simp) hrunner
        (by simp [hpc, RunnerPc.holdsData])

/-- The step lemma. -/
theorem Inv.step (h : t.Inv) (a : Action) : Sound (t.step a) := by
  cases a with
  | start =>
      simp only [Thread.step]
      split
      · exact h.start ‹_›
      · exact h
  | pthreadCreate tid =>
      simp only [Thread.step]
      split
      · rename_i hpc
        exact h.pthreadCreate hpc.1 hpc.2
      · exact h
  | pthreadCreateFails =>
      simp only [Thread.step]
      split
      · exact h.pthreadCreateFails ‹_›
      · exact h
  | waitLatch =>
      simp only [Thread.step]
      split
      · exact h.waitLatch ‹_›
      · exact h
  | wakeSpuriously =>
      simp only [Thread.step]
      split
      · exact h.wakeSpuriously ‹_›
      · exact h
  | assertTid =>
      simp only [Thread.step]
      split
      · exact h.assertTid ‹_›
      · exact h
  | join =>
      simp only [Thread.step]
      split
      · exact h.join ‹_›
      · exact h
  | pthreadJoin =>
      simp only [Thread.step]
      split
      · rename_i hpc
        exact h.pthreadJoin hpc.1 hpc.2
      · exact h
  | destroy =>
      simp only [Thread.step]
      split
      · exact h.destroy ‹_›
      · exact h
  | startThread => exact h.startThread

/-- What can be relied on: after `start` the new thread leaves the object alone, the
number is there, a thread that was joined has ended, a destroyed object leaves no thread
to be joined, and every `ThreadData` is deleted once, by the last who uses it. -/
structure Safe (t : Thread) : Prop where
  untouched : t.caller ≠ .latching → t.runner.touches = false
  numbered : t.started = true → t.caller = .idle → 0 < t.tid ∧ t.tid = t.kernelTid
  joined : t.pthreadId = .joined → t.runner = .exited
  released : t.destroyed = true → t.pthreadId ≠ .joinable
  data : t.allocated =
    t.deleted + if t.caller = .creating ∨ t.runner.holdsData = true then 1 else 0

theorem Inv.safe (h : t.Inv) : t.Safe where
  untouched hcaller := by
    rw [Bool.eq_false_iff]
    exact fun htouches => hcaller (h.latching_of_touches htouches)
  numbered hstarted hidle := by
    have hcaller := h.caller
    simp only [CallerOk, hidle] at hcaller
    have hborn := (hcaller.2 hstarted).1
    have huntouched : t.runner.touches ≠ true := by
      intro htouches
      rw [h.latching_of_touches htouches] at hidle
      cases hidle
    exact h.numbered hborn huntouched
  joined hid := by
    have hhandle := h.handle
    simp only [HandleOk, hid] at hhandle
    exact hhandle.1
  released hdestroyed hid := by
    have hhandle := h.handle
    simp only [HandleOk, hid] at hhandle
    rw [hhandle.2.1] at hdestroyed
    cases hdestroyed
  data := h.data

/-- However the owner calls `start`, `join` and the destructor, and however the two threads
are interleaved, the only asserts that fail are those on the order of the calls: the object
is not used after its destruction, no `ThreadData` is lost or deleted twice, and the thread
is joined or detached at most once. -/
theorem life_is_safe {s : Except Fault Thread} (hs : machine.Reachable s) :
    Ends Safe Fault.OfCaller s := by
  have hrunning : machine.Reach (whileRunning fun _ _ => True) s :=
    hs.mono fun _ _ _ _ _ => trivial
  have hinv : Ends Inv Fault.OfCaller s := by
    refine ends_of_reach ?_ (fun t a h _ => h.step a) hrunning
    rintro t rfl
    exact inv_new
  exact hinv.mono fun _ h => h.safe

section Example

/-- The first `pthread_create` fails. The second thread is detached before it has called
its function. -/
def exampleLife : List Action :=
  [.start, .pthreadCreateFails, .start, .pthreadCreate 7, .waitLatch, .startThread, .waitLatch] ++
    List.replicate 4 .startThread ++ List.replicate 3 .waitLatch ++
    [.assertTid, .destroy, .startThread, .startThread]

theorem example_life_is_safe : ∃ t : Thread, t.destroyed = true ∧ t.pthreadId = .detached ∧
    t.tid = 7 ∧ t.deleted = 2 ∧ t.Safe := by
  obtain ⟨s, hs, hp⟩ := Machine.exists_reach (M := machine) (fun _ _ => True) ⟨new, rfl, rfl⟩
    exampleLife
    (fun s => match s with
      | .ok t => decide (t.destroyed = true ∧ t.pthreadId = .detached ∧ t.tid = 7 ∧ t.deleted = 2)
      | .error _ => false) (by decide +kernel)
  cases s with
  | error f => cases hp
  | ok t =>
      obtain ⟨hdestroyed, hid, htid, hdeleted⟩ := of_decide_eq_true hp
      exact ⟨t, hdestroyed, hid, htid, hdeleted, life_is_safe hs⟩

end Example

end Thread

end Yatwb
