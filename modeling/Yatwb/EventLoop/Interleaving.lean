import Yatwb.EventLoop.Model
import Yatwb.Foundation.Machine
import Yatwb.Foundation.Mailbox

/-!
# Threads that share an event loop

One thread runs `EventLoop::loop`; any number of threads call `runInLoop`,
`queueInLoop` and `quit`. Each thread is at a program point, and one action
executes the next statement of one thread, so a run is an arbitrary
interleaving of statements. What functors and channel callbacks do to the rest
of the program is a parameter: they act on a state of their own and may at any
point call back into the loop.

The history of a run records the calls in the order they were made, the order
in which `mutex_` was taken for them, the order of the `push_back`s, and what
was executed by which thread.

## Implementation notes

The lock and the `swap` of `doPendingFunctors` are one action, as no other
statement can come between them that touches what they touch. A thread that
locks `mutex_` while it holds it has no further action.
-/

namespace Yatwb

open Foundation

/-- A functor together with the call that handed it over. It is ordered when
it came through `runInLoop`. -/
abbrev Posted (φ : Type) := Letter ThreadId φ

/-- The rest of the program: what a caller does before it hands a functor
over (with `none` if it then does not), a functor, and a channel callback,
the last two with the answers of the kernel. -/
structure App (σ φ ε ι : Type) where
  Initial : σ → Prop
  call : σ → φ → Option σ
  exec : σ → φ → ι → Option σ
  handle : σ → ε → ι → Option σ

/-- An entry of `active_channels_`: the wake-up channel or another one. -/
inductive Active (ε : Type)
  | wakeup
  | channel (e : ε)
  deriving DecidableEq, Repr

/-- Where a thread is in its call of `queueInLoop` or `quit`. -/
inductive CallPc (φ : Type)
  | idle
  | entering (p : Posted φ)
  | locked (p : Posted φ)
  | pushed
  | leaving
  | quitting
  deriving DecidableEq, Repr

namespace CallPc

variable {φ : Type}

/-- The functor that is on its way to `pending_functors_`. -/
def carried : CallPc φ → List (Posted φ)
  | entering p => [p]
  | locked p => [p]
  | _ => []

/-- The functor for which `mutex_` is held but which is not pushed yet. -/
def holding : CallPc φ → List (Posted φ)
  | locked p => [p]
  | _ => []

/-- Between the lock and the unlock. -/
def critical : CallPc φ → Bool
  | locked _ => true
  | pushed => true
  | leaving => true
  | _ => false

def isIdle : CallPc φ → Bool
  | idle => true
  | _ => false

theorem isIdle_iff {pc : CallPc φ} : pc.isIdle = true ↔ pc = idle := by
  cases pc <;> simp [isIdle]

end CallPc

/-- Where the thread of the loop is in `loop`. -/
inductive LoopPc (φ ε : Type)
  | outside
  | testing
  | polling
  | dispatching (active : List (Active ε))
  | inCallback (active : List (Active ε))
  | locking
  | batch (rest : List (Posted φ))
  | inFunctor (rest : List (Posted φ))
  | unlocking
  deriving DecidableEq, Repr

namespace LoopPc

variable {φ ε : Type}

/-- The functors of the current batch that have not been executed. -/
def rest : LoopPc φ ε → List (Posted φ)
  | batch rest => rest
  | inFunctor rest => rest
  | _ => []

/-- The points at which code outside `EventLoop` runs on the thread. -/
def runsUserCode : LoopPc φ ε → Bool
  | outside => true
  | inCallback _ => true
  | inFunctor _ => true
  | _ => false

/-- The points between the lock and the unlock of `doPendingFunctors`. -/
def holdsMutex : LoopPc φ ε → Bool
  | batch _ => true
  | inFunctor _ => true
  | unlocking => true
  | _ => false

end LoopPc

/-- The loop, the program points of all threads, the rest of the program, and
the history. -/
structure System (σ φ ε : Type) where
  loop : EventLoop (Posted φ)
  pc : LoopPc φ ε
  runner : ThreadId
  calls : ThreadId → CallPc φ
  app : σ
  issued : List (Posted φ)
  acquired : List (Posted φ)
  queued : List (Posted φ)
  executed : List (ThreadId × Posted φ)
  immediate : List (ThreadId × Posted φ)
  log : List (Posted φ)

namespace System

variable {σ φ ε ι : Type}

/-- The statements of `loop` and `doPendingFunctors`. -/
inductive LoopAction (ε ι : Type)
  | test
  | pollReturn (active : List (Active ε))
  | nextCallback (answers : ι)
  | endCallback
  | doPendingFunctors
  | swap
  | nextFunctor (answers : ι)
  | endFunctor
  | finish
  | release
  deriving DecidableEq, Repr

/-- A statement of some thread. -/
inductive Action (φ ε ι : Type)
  | runInLoop (tid : ThreadId) (cb : φ) (answers : ι)
  | queueInLoop (tid : ThreadId) (cb : φ)
  | quit (tid : ThreadId)
  | advance (tid : ThreadId)
  | enterLoop (tid : ThreadId)
  | loop (a : LoopAction ε ι)
  deriving DecidableEq, Repr

/-- Whether a thread can start a call: it is in none, and if it runs the loop
it runs code outside `EventLoop`. -/
def mayCall (s : System σ φ ε) (tid : ThreadId) : Bool :=
  (s.calls tid).isIdle && (!s.loop.isInLoopThread tid || s.pc.runsUserCode)

def setCall (s : System σ φ ε) (tid : ThreadId) (pc : CallPc φ) : System σ φ ε :=
  { s with calls := Function.update s.calls tid pc }

/-- A functor on its way to `queueInLoop`. -/
def issue (s : System σ φ ε) (p : Posted φ) (app : σ) : System σ φ ε :=
  { s with
    app := app
    issued := s.issued ++ [p]
    calls := Function.update s.calls p.caller (.entering p) }

/-- A functor that `runInLoop` executes at once. -/
def executeNow (s : System σ φ ε) (p : Posted φ) (app : σ) : System σ φ ε :=
  { s with
    app := app
    issued := s.issued ++ [p]
    immediate := s.immediate ++ [(p.caller, p)]
    log := s.log ++ [p] }

/-- The next statement of the call that a thread is in. -/
def advance (s : System σ φ ε) (tid : ThreadId) : Option (System σ φ ε) :=
  match s.calls tid with
  | .idle => none
  | .entering p =>
      match s.loop.lock tid with
      | .ok loop => some { s.setCall tid (.locked p) with
          loop := loop
          acquired := s.acquired ++ [p] }
      | .error _ => none
  | .locked p => some { s.setCall tid .pushed with
      loop := s.loop.pushBack p
      queued := s.queued ++ [p] }
  | .pushed => some { s.setCall tid .leaving with loop := s.loop.wakeupIfNeeded tid }
  | .leaving => some { s.setCall tid .idle with loop := s.loop.unlock }
  | .quitting => some { s.setCall tid .idle with loop := s.loop.wakeup }

/-- The next statement of the thread of the loop. -/
def loopStep (A : App σ φ ε ι) (s : System σ φ ε) : LoopAction ε ι → Option (System σ φ ε)
  | .test =>
      match s.pc with
      | .testing =>
          if s.loop.quit then some { s with loop := s.loop.leaveLoop, pc := .outside }
          else some { s with pc := .polling }
      | _ => none
  | .pollReturn active =>
      match s.pc with
      | .polling => some { s with pc := .dispatching active }
      | _ => none
  | .nextCallback answers =>
      match s.pc with
      | .dispatching (.wakeup :: rest) =>
          some { s with loop := s.loop.handleRead, pc := .inCallback rest }
      | .dispatching (.channel e :: rest) =>
          (A.handle s.app e answers).map fun app => { s with app := app, pc := .inCallback rest }
      | _ => none
  | .endCallback =>
      match s.pc with
      | .inCallback rest => some { s with pc := .dispatching rest }
      | _ => none
  | .doPendingFunctors =>
      match s.pc with
      | .dispatching [] => some { s with loop := s.loop.setCalling true, pc := .locking }
      | _ => none
  | .swap =>
      match s.pc, s.loop.lock s.runner with
      | .locking, .ok loop =>
          some { s with loop := loop.swapPending.1, pc := .batch loop.swapPending.2 }
      | _, _ => none
  | .nextFunctor answers =>
      match s.pc with
      | .batch (p :: rest) =>
          (A.exec s.app p.content answers).map fun app =>
            { s with
              app := app
              pc := .inFunctor rest
              executed := s.executed ++ [(s.runner, p)]
              log := s.log ++ [p] }
      | _ => none
  | .endFunctor =>
      match s.pc with
      | .inFunctor rest => some { s with pc := .batch rest }
      | _ => none
  | .finish =>
      match s.pc with
      | .batch [] => some { s with loop := s.loop.setCalling false, pc := .unlocking }
      | _ => none
  | .release =>
      match s.pc with
      | .unlocking => some { s with loop := s.loop.unlock, pc := .testing }
      | _ => none

def next (A : App σ φ ε ι) (s : System σ φ ε) : Action φ ε ι → Option (System σ φ ε)
  | .runInLoop tid cb answers =>
      if s.mayCall tid then
        (A.call s.app cb).bind fun app =>
          if s.loop.isInLoopThread tid then
            (A.exec app cb answers).map (s.executeNow ⟨cb, tid, true⟩)
          else some (s.issue ⟨cb, tid, true⟩ app)
      else none
  | .queueInLoop tid cb =>
      if s.mayCall tid then (A.call s.app cb).map (s.issue ⟨cb, tid, false⟩) else none
  | .quit tid =>
      if s.mayCall tid then
        let pc := if s.loop.isInLoopThread tid then .idle else .quitting
        some { s.setCall tid pc with loop := s.loop.setQuit }
      else none
  | .advance tid => s.advance tid
  | .enterLoop tid =>
      if s.mayCall tid then
        match s.pc, s.loop.enterLoop tid with
        | .outside, .ok loop => some { s with loop := loop, pc := .testing, runner := tid }
        | _, _ => none
      else none
  | .loop a => if (s.calls s.runner).isIdle then s.loopStep A a else none

/-- A loop that has been constructed and nothing else. -/
structure Initial (A : App σ φ ε ι) (s : System σ φ ε) : Prop where
  app : A.Initial s.app
  looping : s.loop.looping = false
  mutex : s.loop.mutex = none
  pendingFunctors : s.loop.pendingFunctors = []
  pc : s.pc = .outside
  calls : ∀ tid, s.calls tid = .idle
  history : s.issued = [] ∧ s.acquired = [] ∧ s.queued = [] ∧ s.executed = [] ∧
    s.immediate = [] ∧ s.log = []

def machine (A : App σ φ ε ι) : Machine (System σ φ ε) (Action φ ε ι) where
  init := Initial A
  next := next A

/-- The functor an action hands over. -/
def Action.Hands : Action φ ε ι → Posted φ → Prop
  | .runInLoop tid cb _, p => p = ⟨cb, tid, true⟩
  | .queueInLoop tid cb, p => p = ⟨cb, tid, false⟩
  | _, _ => False

/-- Everything one statement can do. -/
inductive Effect (A : App σ φ ε ι) (s : System σ φ ε) (a : Action φ ε ι) : System σ φ ε → Prop
  | executeNow (tid : ThreadId) (cb : φ) (app app' : σ) (answers : ι)
      (hmay : s.mayCall tid = true) (hcall : A.call s.app cb = some app)
      (hin : s.loop.threadId = tid) (hexec : A.exec app cb answers = some app') :
      Effect A s a (s.executeNow ⟨cb, tid, true⟩ app')
  | issue (p : Posted φ) (app : σ) (hands : a.Hands p) (hmay : s.mayCall p.caller = true)
      (hcall : A.call s.app p.content = some app)
      (hroute : p.ordered = true → p.caller ≠ s.loop.threadId) :
      Effect A s a (s.issue p app)
  | quit (tid : ThreadId) (pc : CallPc φ) (hmay : s.mayCall tid = true)
      (hpc : pc = .idle ∨ pc = .quitting ∧ tid ≠ s.loop.threadId) :
      Effect A s a { s.setCall tid pc with loop := s.loop.setQuit }
  | acquire (tid : ThreadId) (p : Posted φ) (hat : s.calls tid = .entering p)
      (hfree : s.loop.mutex = none) :
      Effect A s a { s.setCall tid (.locked p) with
        loop := { s.loop with mutex := some tid }
        acquired := s.acquired ++ [p] }
  | push (tid : ThreadId) (p : Posted φ) (hat : s.calls tid = .locked p) :
      Effect A s a { s.setCall tid .pushed with
        loop := s.loop.pushBack p
        queued := s.queued ++ [p] }
  | wake (tid : ThreadId) (hat : s.calls tid = .pushed) :
      Effect A s a { s.setCall tid .leaving with loop := s.loop.wakeupIfNeeded tid }
  | unlock (tid : ThreadId) (hat : s.calls tid = .leaving) :
      Effect A s a { s.setCall tid .idle with loop := s.loop.unlock }
  | quitWake (tid : ThreadId) (hat : s.calls tid = .quitting) :
      Effect A s a { s.setCall tid .idle with loop := s.loop.wakeup }
  | enterLoop (tid : ThreadId) (hmay : s.mayCall tid = true) (hpc : s.pc = .outside)
      (hin : s.loop.threadId = tid) :
      Effect A s a { s with
        loop := { s.loop with looping := true, quit := false }
        pc := .testing
        runner := tid }
  | leaveLoop (hready : s.calls s.runner = .idle) (hpc : s.pc = .testing) :
      Effect A s a { s with loop := s.loop.leaveLoop, pc := .outside }
  | poll (hready : s.calls s.runner = .idle) (hpc : s.pc = .testing) :
      Effect A s a { s with pc := .polling }
  | pollReturn (active : List (Active ε)) (hready : s.calls s.runner = .idle)
      (hpc : s.pc = .polling) : Effect A s a { s with pc := .dispatching active }
  | handleRead (rest : List (Active ε)) (hready : s.calls s.runner = .idle)
      (hpc : s.pc = .dispatching (.wakeup :: rest)) :
      Effect A s a { s with loop := s.loop.handleRead, pc := .inCallback rest }
  | callback (e : ε) (rest : List (Active ε)) (app : σ) (answers : ι)
      (hready : s.calls s.runner = .idle) (hpc : s.pc = .dispatching (.channel e :: rest))
      (hhandle : A.handle s.app e answers = some app) :
      Effect A s a { s with app := app, pc := .inCallback rest }
  | endCallback (rest : List (Active ε)) (hready : s.calls s.runner = .idle)
      (hpc : s.pc = .inCallback rest) : Effect A s a { s with pc := .dispatching rest }
  | doPendingFunctors (hready : s.calls s.runner = .idle) (hpc : s.pc = .dispatching []) :
      Effect A s a { s with loop := s.loop.setCalling true, pc := .locking }
  | swap (hready : s.calls s.runner = .idle) (hpc : s.pc = .locking)
      (hfree : s.loop.mutex = none) :
      Effect A s a { s with
        loop := { s.loop with mutex := some s.runner, pendingFunctors := [] }
        pc := .batch s.loop.pendingFunctors }
  | functor (p : Posted φ) (rest : List (Posted φ)) (app : σ) (answers : ι)
      (hready : s.calls s.runner = .idle) (hpc : s.pc = .batch (p :: rest))
      (hexec : A.exec s.app p.content answers = some app) :
      Effect A s a { s with
        app := app
        pc := .inFunctor rest
        executed := s.executed ++ [(s.runner, p)]
        log := s.log ++ [p] }
  | endFunctor (rest : List (Posted φ)) (hready : s.calls s.runner = .idle)
      (hpc : s.pc = .inFunctor rest) : Effect A s a { s with pc := .batch rest }
  | finish (hready : s.calls s.runner = .idle) (hpc : s.pc = .batch []) :
      Effect A s a { s with loop := s.loop.setCalling false, pc := .unlocking }
  | release (hready : s.calls s.runner = .idle) (hpc : s.pc = .unlocking) :
      Effect A s a { s with loop := s.loop.unlock, pc := .testing }

variable {A : App σ φ ε ι} {s s' : System σ φ ε}

theorem advance_effect {a : Action φ ε ι} {tid : ThreadId} (h : s.advance tid = some s') :
    Effect A s a s' := by
  unfold advance at h
  cases hat : s.calls tid with
  | idle => simp [hat] at h
  | entering p =>
      simp only [hat] at h
      cases hlock : s.loop.lock tid with
      | error f => simp [hlock] at h
      | ok loop =>
          obtain ⟨hfree, rfl⟩ := EventLoop.lock_eq_ok.mp hlock
          simp only [hlock, Option.some.injEq] at h
          subst h
          exact .acquire tid p hat hfree
  | locked p =>
      simp only [hat, Option.some.injEq] at h
      subst h
      exact .push tid p hat
  | pushed =>
      simp only [hat, Option.some.injEq] at h
      subst h
      exact .wake tid hat
  | leaving =>
      simp only [hat, Option.some.injEq] at h
      subst h
      exact .unlock tid hat
  | quitting =>
      simp only [hat, Option.some.injEq] at h
      subst h
      exact .quitWake tid hat

theorem loopStep_effect {a : Action φ ε ι} {l : LoopAction ε ι}
    (hready : s.calls s.runner = .idle) (h : s.loopStep A l = some s') : Effect A s a s' := by
  cases l with
  | test =>
      simp only [loopStep] at h
      split at h
      · rename_i hpc
        split at h <;> obtain rfl := Option.some.inj h
        · exact .leaveLoop hready hpc
        · exact .poll hready hpc
      · cases h
  | pollReturn active =>
      simp only [loopStep] at h
      split at h
      · rename_i hpc
        obtain rfl := Option.some.inj h
        exact .pollReturn active hready hpc
      · cases h
  | nextCallback answers =>
      simp only [loopStep] at h
      split at h
      · rename_i rest hpc
        obtain rfl := Option.some.inj h
        exact .handleRead rest hready hpc
      · rename_i e rest hpc
        obtain ⟨app, hhandle, rfl⟩ := Option.map_eq_some_iff.mp h
        exact .callback e rest app answers hready hpc hhandle
      · cases h
  | endCallback =>
      simp only [loopStep] at h
      split at h
      · rename_i rest hpc
        obtain rfl := Option.some.inj h
        exact .endCallback rest hready hpc
      · cases h
  | doPendingFunctors =>
      simp only [loopStep] at h
      split at h
      · rename_i hpc
        obtain rfl := Option.some.inj h
        exact .doPendingFunctors hready hpc
      · cases h
  | swap =>
      simp only [loopStep] at h
      split at h
      · rename_i loop hpc hlock
        obtain ⟨hfree, rfl⟩ := EventLoop.lock_eq_ok.mp hlock
        obtain rfl := Option.some.inj h
        exact .swap hready hpc hfree
      · cases h
  | nextFunctor answers =>
      simp only [loopStep] at h
      split at h
      · rename_i p rest hpc
        obtain ⟨app, hexec, rfl⟩ := Option.map_eq_some_iff.mp h
        exact .functor p rest app answers hready hpc hexec
      · cases h
  | endFunctor =>
      simp only [loopStep] at h
      split at h
      · rename_i rest hpc
        obtain rfl := Option.some.inj h
        exact .endFunctor rest hready hpc
      · cases h
  | finish =>
      simp only [loopStep] at h
      split at h
      · rename_i hpc
        obtain rfl := Option.some.inj h
        exact .finish hready hpc
      · cases h
  | release =>
      simp only [loopStep] at h
      split at h
      · rename_i hpc
        obtain rfl := Option.some.inj h
        exact .release hready hpc
      · cases h

/-- The inversion of `next`. -/
theorem next_effect {a : Action φ ε ι} (h : next A s a = some s') : Effect A s a s' := by
  cases a with
  | runInLoop tid cb answers =>
      simp only [next] at h
      split at h
      · rename_i hmay
        obtain ⟨app, hcall, h⟩ := Option.bind_eq_some_iff.mp h
        split at h
        · rename_i hin
          obtain ⟨app', hexec, rfl⟩ := Option.map_eq_some_iff.mp h
          exact .executeNow tid cb app app' answers hmay hcall (beq_iff_eq.mp hin) hexec
        · rename_i hout
          obtain rfl := Option.some.inj h
          refine .issue ⟨cb, tid, true⟩ app rfl hmay hcall fun _ heq => hout ?_
          exact beq_iff_eq.mpr heq.symm
      · cases h
  | queueInLoop tid cb =>
      simp only [next] at h
      split at h
      · rename_i hmay
        obtain ⟨app, hcall, rfl⟩ := Option.map_eq_some_iff.mp h
        exact .issue ⟨cb, tid, false⟩ app rfl hmay hcall fun hfalse => nomatch hfalse
      · cases h
  | quit tid =>
      simp only [next] at h
      split at h
      · rename_i hmay
        obtain rfl := Option.some.inj h
        refine .quit tid _ hmay ?_
        split
        · exact Or.inl rfl
        · rename_i hout
          exact Or.inr ⟨rfl, fun heq => hout (beq_iff_eq.mpr heq.symm)⟩
      · cases h
  | advance tid => exact advance_effect h
  | enterLoop tid =>
      simp only [next] at h
      split at h
      · rename_i hmay
        split at h
        · rename_i loop hpc henter
          obtain ⟨hin, rfl⟩ := EventLoop.enterLoop_eq_ok henter
          obtain rfl := Option.some.inj h
          exact .enterLoop tid hmay hpc hin
        · cases h
      · cases h
  | loop a =>
      simp only [next] at h
      split at h
      · rename_i hready
        exact loopStep_effect (CallPc.isIdle_iff.mp hready) h
      · cases h

/-- Without interruption, the four statements of a call are `EventLoop::queueInLoop`. -/
theorem advance_queueInLoop {tid : ThreadId} {p : Posted φ} {loop : EventLoop (Posted φ)}
    (hat : s.calls tid = .entering p) (h : s.loop.queueInLoop tid p = .ok loop) :
    ∃ s', s.advance tid >>= (advance · tid) >>= (advance · tid) >>= (advance · tid) = some s' ∧
      s'.loop = loop ∧ s'.calls tid = .idle := by
  obtain ⟨locked, hlock, h⟩ := bind_eq_ok.mp h
  obtain rfl := Except.ok.inj h
  simp [advance, hat, hlock, setCall]

end System

end Yatwb
