import Yatwb.Thread.Model
import Yatwb.EventLoop.Interleaving

/-!
# The lifetime of a thread with an event loop

The owner starts the thread, may use its loop for a while, and destroys the
`EventLoopThread`: it calls `quit` and joins the thread. The new thread builds
its loop, publishes it, and calls `loop`, whose first statements store `false`
in `quit_`. The start follows `startLoop` and `runInThread`, and the threads
that use the loop, which may call `quit` as well, follow the interleaved system.

A `quit` that comes after the store is never lost. One that comes between the
publication and the store is lost, unless another one comes after the store.

## Implementation notes

The system of the loop is there from the beginning, and stands for the memory
in which the loop will be built; no thread uses it before. `exiting_` is set
together with `quit_`, as nothing reads it. When `loop` has returned, its memory
stays as it is: a call on it then is one on an object that is gone.
-/

namespace Yatwb

open Foundation

namespace System

variable {σ φ ε ι : Type} {A : App σ φ ε ι} {s s' : System σ φ ε}

theorem advance_quit {tid : ThreadId} (h : s.advance tid = some s') :
    s'.loop.quit = s.loop.quit := by
  unfold advance at h
  split at h
  · cases h
  · split at h
    · rename_i hlock
      obtain ⟨-, rfl⟩ := EventLoop.lock_eq_ok.mp hlock
      obtain rfl := Option.some.inj h
      rfl
    · cases h
  · obtain rfl := Option.some.inj h
    rfl
  · obtain rfl := Option.some.inj h
    simp only [EventLoop.wakeupIfNeeded]
    split <;> rfl
  · obtain rfl := Option.some.inj h
    rfl
  · obtain rfl := Option.some.inj h
    rfl

/-- The statements of `loop` after its first ones leave `quit_` alone. -/
theorem loopStep_quit {l : LoopAction ε ι} (h : s.loopStep A l = some s') :
    s'.loop.quit = s.loop.quit := by
  cases l with
  | test =>
      simp only [loopStep] at h
      split at h
      · split at h <;> obtain rfl := Option.some.inj h <;> rfl
      · cases h
  | nextCallback answers =>
      simp only [loopStep] at h
      split at h
      · obtain rfl := Option.some.inj h
        rfl
      · obtain ⟨app, -, rfl⟩ := Option.map_eq_some_iff.mp h
        rfl
      · cases h
  | swap =>
      simp only [loopStep] at h
      split at h
      · rename_i hlock
        obtain ⟨-, rfl⟩ := EventLoop.lock_eq_ok.mp hlock
        obtain rfl := Option.some.inj h
        rfl
      · cases h
  | nextFunctor answers =>
      simp only [loopStep] at h
      split at h
      · obtain ⟨app, -, rfl⟩ := Option.map_eq_some_iff.mp h
        rfl
      · cases h
  | _ =>
      simp only [loopStep] at h
      split at h
      · obtain rfl := Option.some.inj h
        rfl
      · cases h

/-- The value of `quit_` after a statement of some thread. -/
def quitAfter (s : System σ φ ε) : Action φ ε ι → Bool
  | .quit _ => true
  | .enterLoop _ => false
  | _ => s.loop.quit

theorem next_quit {a : Action φ ε ι} (h : next A s a = some s') :
    s'.loop.quit = s.quitAfter a := by
  cases a with
  | runInLoop tid cb answers =>
      simp only [next] at h
      split at h
      · obtain ⟨app, -, h⟩ := Option.bind_eq_some_iff.mp h
        split at h
        · obtain ⟨app', -, rfl⟩ := Option.map_eq_some_iff.mp h
          rfl
        · obtain rfl := Option.some.inj h
          rfl
      · cases h
  | queueInLoop tid cb =>
      simp only [next] at h
      split at h
      · obtain ⟨app, -, rfl⟩ := Option.map_eq_some_iff.mp h
        rfl
      · cases h
  | quit tid =>
      simp only [next] at h
      split at h
      · obtain rfl := Option.some.inj h
        rfl
      · cases h
  | advance tid => exact advance_quit h
  | enterLoop tid =>
      simp only [next] at h
      split at h
      · split at h
        · rename_i henter
          obtain ⟨-, rfl⟩ := EventLoop.enterLoop_eq_ok henter
          obtain rfl := Option.some.inj h
          rfl
        · cases h
      · cases h
  | loop l =>
      simp only [next] at h
      split at h
      · exact loopStep_quit h
      · cases h

end System

/-- The calls of the loop that its users make. -/
inductive LoopCall (φ ι : Type)
  | runInLoop (cb : φ) (answers : ι)
  | queueInLoop (cb : φ)
  | quit
  deriving DecidableEq, Repr

def LoopCall.isQuit {φ ι : Type} : LoopCall φ ι → Bool
  | .quit => true
  | _ => false

/-- An `EventLoopThread` with the system of its loop, the thread that owns it,
whether `loop` has been entered and `quit` called, and where the destructor is. -/
structure Lifetime (σ φ ε : Type) where
  thread : EventLoopThread
  system : System σ φ ε
  ownerTid : ThreadId
  entered : Bool
  requested : Bool
  exiting : Bool
  joined : Bool

namespace Lifetime

variable {σ φ ε ι : Type}

/-- A statement of some thread; `call` and `advance` are those of the users of
the loop, `destroy` is `quit` in the destructor and `join` its last statement. -/
inductive Action (φ ε ι : Type)
  | startLoop
  | pthreadCreate (tid : ThreadId) (stack : Address)
  | wakeSpuriously
  | runInThread
  | enterLoop
  | loop (a : System.LoopAction ε ι)
  | call (tid : ThreadId) (c : LoopCall φ ι)
  | advance (tid : ThreadId)
  | destroy
  | join
  deriving DecidableEq, Repr

def LoopCall.action (tid : ThreadId) : LoopCall φ ι → System.Action φ ε ι
  | .runInLoop cb answers => .runInLoop tid cb answers
  | .queueInLoop cb => .queueInLoop tid cb
  | .quit => .quit tid

/-- `startLoop` has returned the loop. -/
def published (s : Lifetime σ φ ε) : Bool :=
  match s.thread.owner with
  | .returned _ => true
  | _ => false

/-- Who may call: the thread of the loop from its callbacks, and any thread once
the loop is known, the owner until it destroys it. -/
def mayUse (s : Lifetime σ φ ε) (tid : ThreadId) : Bool :=
  if tid = s.system.loop.threadId then s.entered
  else s.published && (tid ≠ s.ownerTid || !s.exiting)

/-- `loop` has been entered and left. -/
def finished (s : Lifetime σ φ ε) : Bool :=
  match s.system.pc with
  | .outside => s.entered
  | _ => false

def setThread (s : Lifetime σ φ ε) (thread : EventLoopThread) : Lifetime σ φ ε :=
  { s with thread := thread }

def setSystem (s : Lifetime σ φ ε) (system : System σ φ ε) : Lifetime σ φ ε :=
  { s with system := system }

/-- After the first statement of a call. -/
def called (s : Lifetime σ φ ε) (c : LoopCall φ ι) (system : System σ φ ε) : Lifetime σ φ ε :=
  { s with system := system, requested := s.requested || c.isQuit }

def next (A : App σ φ ε ι) (s : Lifetime σ φ ε) : Action φ ε ι → Option (Lifetime σ φ ε)
  | .startLoop => s.thread.startLoop.map s.setThread
  | .pthreadCreate tid stack =>
      if 0 < tid ∧ tid = s.system.loop.threadId ∧ tid ≠ s.ownerTid then
        (s.thread.pthreadCreate tid stack).map s.setThread
      else none
  | .wakeSpuriously => s.thread.wakeSpuriously.map s.setThread
  | .runInThread => s.thread.runInThread.map s.setThread
  | .enterLoop =>
      if s.thread.io = .looping ∧ s.entered = false then
        (s.system.next A (.enterLoop s.system.loop.threadId)).map fun system =>
          { s with system := system, entered := true }
      else none
  | .loop a => (s.system.next A (.loop a)).map s.setSystem
  | .call tid c =>
      if s.mayUse tid then (s.system.next A (LoopCall.action tid c)).map (s.called c) else none
  | .advance tid => (s.system.next A (.advance tid)).map s.setSystem
  | .destroy =>
      if s.published ∧ s.exiting = false then
        (s.system.next A (.quit s.ownerTid)).map fun system =>
          { s with system := system, requested := true, exiting := true }
      else none
  | .join =>
      if s.exiting ∧ (s.system.calls s.ownerTid).isIdle ∧ s.finished ∧ s.joined = false then
        some { s with joined := true }
      else none

/-- An `EventLoopThread` that has been constructed; the constructor of the loop
stores `true` in `quit_`. -/
structure Initial (A : App σ φ ε ι) (s : Lifetime σ φ ε) : Prop where
  thread : s.thread = EventLoopThread.new
  system : System.Initial A s.system
  quit : s.system.loop.quit = true
  flags : s.entered = false ∧ s.requested = false ∧ s.exiting = false ∧ s.joined = false

def machine (A : App σ φ ε ι) : Machine (Lifetime σ φ ε) (Action φ ε ι) where
  init := Initial A
  next := next A

variable {A : App σ φ ε ι} {s s' : Lifetime σ φ ε}

/-- `quit` has been executed, and the thread of the loop evaluates `!quit_` as
true and enters `poll`. -/
def LosesQuit (A : App σ φ ε ι) (s : Lifetime σ φ ε) : Prop :=
  s.requested = true ∧ ∃ s', s.next A (.loop .test) = some s' ∧ s'.system.pc = .polling

/-- A call of `quit`, in the destructor or elsewhere. -/
def Action.isQuit : Action φ ε ι → Bool
  | .call _ c => c.isQuit
  | .destroy => true
  | _ => false

/-- `quit` is called only after `loop` has stored `false` in `quit_`. -/
def QuitsAfterStore (s : Lifetime σ φ ε) (a : Action φ ε ι) : Prop :=
  a.isQuit = true → s.entered = true

instance (s : Lifetime σ φ ε) (a : Action φ ε ι) : Decidable (s.QuitsAfterStore a) :=
  inferInstanceAs (Decidable (_ → _))

/-- The statements other than the calls of `quit`. -/
def quietly (A : App σ φ ε ι) : Machine (Lifetime σ φ ε) (Action φ ε ι) :=
  (machine A).restrict fun a => a.isQuit = false

/-- A request that was made is still in `quit_`. -/
def Heeded (s : Lifetime σ φ ε) : Prop :=
  s.requested = true → s.entered = true ∧ s.system.loop.quit = true

/-- `quit_` is `false` once `loop` is entered. -/
def Forgotten (s : Lifetime σ φ ε) : Prop := s.entered = true → s.system.loop.quit = false

/-- The part of the state that says what became of the calls of `quit`. -/
def SameRequest (s s' : Lifetime σ φ ε) : Prop :=
  s'.system.loop.quit = s.system.loop.quit ∧ s'.requested = s.requested ∧ s'.entered = s.entered

/-- Everything a statement can do to `quit_`, and to the entry of `loop`. -/
theorem next_cases {a : Action φ ε ι} (h : s.next A a = some s') :
    s.SameRequest s' ∨
    (s.entered = false ∧ s'.entered = true ∧ s'.system.loop.quit = false ∧
      s'.requested = s.requested) ∨
    (a.isQuit = true ∧ s'.requested = true ∧ s'.system.loop.quit = true ∧
      s'.entered = s.entered) := by
  cases a with
  | startLoop =>
      obtain ⟨thread, -, rfl⟩ := Option.map_eq_some_iff.mp h
      exact Or.inl ⟨rfl, rfl, rfl⟩
  | wakeSpuriously =>
      obtain ⟨thread, -, rfl⟩ := Option.map_eq_some_iff.mp h
      exact Or.inl ⟨rfl, rfl, rfl⟩
  | runInThread =>
      obtain ⟨thread, -, rfl⟩ := Option.map_eq_some_iff.mp h
      exact Or.inl ⟨rfl, rfl, rfl⟩
  | pthreadCreate tid stack =>
      simp only [next] at h
      split at h
      · obtain ⟨thread, -, rfl⟩ := Option.map_eq_some_iff.mp h
        exact Or.inl ⟨rfl, rfl, rfl⟩
      · cases h
  | enterLoop =>
      simp only [next] at h
      split at h
      · rename_i hready
        obtain ⟨system, hsystem, rfl⟩ := Option.map_eq_some_iff.mp h
        exact Or.inr (Or.inl ⟨hready.2, rfl, System.next_quit hsystem, rfl⟩)
      · cases h
  | loop a =>
      obtain ⟨system, hsystem, rfl⟩ := Option.map_eq_some_iff.mp h
      exact Or.inl ⟨System.next_quit hsystem, rfl, rfl⟩
  | call tid c =>
      simp only [next] at h
      split at h
      · obtain ⟨system, hsystem, rfl⟩ := Option.map_eq_some_iff.mp h
        have hquit := System.next_quit hsystem
        cases c with
        | runInLoop cb answers => exact Or.inl ⟨hquit, Bool.or_false _, rfl⟩
        | queueInLoop cb => exact Or.inl ⟨hquit, Bool.or_false _, rfl⟩
        | quit => exact Or.inr (Or.inr ⟨rfl, Bool.or_true _, hquit, rfl⟩)
      · cases h
  | advance tid =>
      obtain ⟨system, hsystem, rfl⟩ := Option.map_eq_some_iff.mp h
      exact Or.inl ⟨System.next_quit hsystem, rfl, rfl⟩
  | destroy =>
      simp only [next] at h
      split at h
      · obtain ⟨system, hsystem, rfl⟩ := Option.map_eq_some_iff.mp h
        exact Or.inr (Or.inr ⟨rfl, rfl, System.next_quit hsystem, rfl⟩)
      · cases h
  | join =>
      simp only [next] at h
      split at h
      · obtain rfl := Option.some.inj h
        exact Or.inl ⟨rfl, rfl, rfl⟩
      · cases h

/-- The test of `loop` reads `quit_`. -/
theorem not_losesQuit_of_quit (h : s.system.loop.quit = true) : ¬ LosesQuit A s := by
  rintro ⟨-, s', hnext, hpolling⟩
  obtain ⟨system, hsystem, rfl⟩ := Option.map_eq_some_iff.mp hnext
  simp only [System.next] at hsystem
  split at hsystem
  · simp only [System.loopStep] at hsystem
    split at hsystem
    · rw [if_pos h] at hsystem
      obtain rfl := Option.some.inj hsystem
      cases hpolling
    · cases hsystem
  · cases hsystem

theorem Heeded.next {a : Action φ ε ι} (h : s.Heeded) (hguard : s.QuitsAfterStore a)
    (hnext : s.next A a = some s') : s'.Heeded := by
  intro hrequested
  rcases next_cases hnext with ⟨hquit, hsame, hentered⟩ | ⟨hbefore, -, -, hsame⟩ |
    ⟨hisQuit, -, hquit, hentered⟩
  · rw [hquit, hentered]
    exact h (hsame ▸ hrequested)
  · obtain ⟨hafter, -⟩ := h (hsame ▸ hrequested)
    rw [hbefore] at hafter
    cases hafter
  · exact ⟨hentered.trans (hguard hisQuit), hquit⟩

theorem Forgotten.next {a : Action φ ε ι} (h : s.Forgotten) (hquiet : a.isQuit = false)
    (hnext : s.next A a = some s') : s'.Forgotten := by
  intro hafter
  rcases next_cases hnext with ⟨hquit, -, hentered⟩ | ⟨-, -, hquit, -⟩ | ⟨hisQuit, -⟩
  · exact hquit.trans (h (hentered ▸ hafter))
  · exact hquit
  · rw [hquiet] at hisQuit
    cases hisQuit

/-- No statement takes a request back. -/
theorem requested_of_next {a : Action φ ε ι} (h : s.requested = true)
    (hnext : s.next A a = some s') : s'.requested = true := by
  rcases next_cases hnext with ⟨-, hsame, -⟩ | ⟨-, -, -, hsame⟩ | ⟨-, hrequested, -⟩
  · exact hsame.trans h
  · exact hsame.trans h
  · exact hrequested

/-- In every run in which `quit` is called after `loop` has stored `false` in `quit_`,
no state loses a request. -/
theorem quit_never_lost {s : Lifetime σ φ ε} (hs : (machine A).Reach QuitsAfterStore s) :
    ¬ LosesQuit A s := by
  have hheeded : s.Heeded := by
    refine hs.invariant ?_ ?_
    · intro s hinit hrequested
      rw [hinit.flags.2.1] at hrequested
      cases hrequested
    · intro s a s' hinv hguard hnext
      exact hinv.next hguard hnext
  intro hloses
  exact not_losesQuit_of_quit (hheeded hloses.1).2 hloses

/-- A request made before the store is lost unless `quit` is called again: whenever the
thread of the loop is at its test, it enters `poll`. -/
theorem early_quit_lost {t : Lifetime σ φ ε} (hrequested : s.requested = true)
    (hbefore : s.entered = false) (ht : (quietly A).Leads s t)
    (hentered : t.entered = true) (htest : t.system.pc = .testing)
    (hidle : t.system.calls t.system.runner = .idle) : LosesQuit A t := by
  have hlost : t.requested = true ∧ t.Forgotten := by
    clear hentered htest hidle
    induction ht with
    | refl =>
        refine ⟨hrequested, fun hafter => ?_⟩
        rw [hbefore] at hafter
        cases hafter
    | step _ hnext ih =>
        obtain ⟨hquiet, hnext⟩ := Machine.restrict_next.mp hnext
        exact ⟨requested_of_next ih.1 hnext, ih.2.next hquiet hnext⟩
  refine ⟨hlost.1, t.setSystem { t.system with pc := .polling }, ?_, rfl⟩
  have hstep : t.system.next A (.loop .test) = some { t.system with pc := .polling } := by
    simp [System.next, System.loopStep, hidle, CallPc.isIdle, htest, hlost.2 hentered]
  simp only [Lifetime.next, hstep]
  rfl

/-- A program whose functors and callbacks do nothing. -/
def idleApp : App Unit Unit Unit Unit where
  Initial _ := True
  call _ _ := some ()
  exec _ _ _ := some ()
  handle _ _ _ := some ()

/-- The owner is thread `1`, and the thread of the loop will be thread `7`. -/
def fresh : Lifetime Unit Unit Unit where
  thread := EventLoopThread.new
  system :=
    { loop := EventLoop.new 7 false 0
      pc := .outside
      runner := 7
      calls := fun _ => .idle
      app := ()
      issued := []
      acquired := []
      queued := []
      executed := []
      immediate := []
      log := [] }
  ownerTid := 1
  entered := false
  requested := false
  exiting := false
  joined := false

theorem initial_fresh : Initial idleApp fresh :=
  ⟨rfl, ⟨trivial, rfl, rfl, rfl, rfl, fun _ => rfl, rfl, rfl, rfl, rfl, rfl, rfl⟩, rfl,
    rfl, rfl, rfl, rfl⟩

/-- The statements of `startLoop`, with the new thread always ahead. -/
def startingUp : List (Action Unit Unit Unit) :=
  [.startLoop, .pthreadCreate 7 100] ++ List.replicate 10 .runInThread ++
    List.replicate 7 .startLoop

/-- A user calls `quit` and the owner destroys the thread while the loop is in `poll`,
and the next test ends the loop. -/
theorem quit_in_poll_heeded :
    ∃ s, (machine idleApp).Reach QuitsAfterStore s ∧ s.requested = true ∧ s.exiting = true ∧
      s.system.pc = .testing ∧ ¬ LosesQuit idleApp s := by
  obtain ⟨s, hs, hp⟩ := Machine.exists_reach (M := machine idleApp) QuitsAfterStore initial_fresh
    (startingUp ++ [.enterLoop, .loop .test, .call 2 .quit, .destroy, .advance 2, .advance 1,
      .loop (.pollReturn []), .loop .doPendingFunctors, .loop .swap, .loop .finish,
      .loop .release])
    (fun s => decide (s.requested = true ∧ s.exiting = true ∧ s.system.pc = .testing))
    (by decide +kernel)
  obtain ⟨hrequested, hexiting, hpc⟩ := of_decide_eq_true hp
  exact ⟨s, hs, hrequested, hexiting, hpc, quit_never_lost hs⟩

/-- The owner destroys the thread after `startLoop` has returned and before
`loop` is entered. -/
theorem quit_before_loop_lost :
    ¬ ∀ s, (machine idleApp).Reachable s → ¬ LosesQuit idleApp s := by
  intro h
  obtain ⟨s, hs, hp⟩ := Machine.exists_reach (M := machine idleApp) (fun _ _ => True)
    initial_fresh (startingUp ++ [.destroy, .advance 1, .enterLoop])
    (fun s => s.requested && (s.next idleApp (.loop .test)).any fun s' : Lifetime Unit Unit Unit =>
      decide (s'.system.pc = .polling)) (by decide +kernel)
  obtain ⟨hrequested, hnext⟩ := Bool.and_eq_true_iff.mp hp
  obtain ⟨s', hs', hpc⟩ := (Option.any_eq_true _ _).mp hnext
  exact h s hs ⟨hrequested, s', hs', of_decide_eq_true hpc⟩

end Lifetime

end Yatwb
