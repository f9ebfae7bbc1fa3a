import Yatwb.EventLoop.FunctorQueue
import Yatwb.Timer.Firing

/-!
# Timers from many threads

`runAt`, `runAfter` and `runEvery` may be called by any thread: `addTimer` makes
the timer and gives `addTimerInLoop` to `runInLoop`. The timer queue is the
application of the interleaved system. Whatever the interleaving, it goes
through a run of its own on the loop's thread, and every timer that a thread has
asked for has been added or waits, once and in the order of that thread.

## Implementation notes

A callback of a timer runs inside `handleRead`, and the timers it adds are added
at once, as it runs on the loop's thread. Of the other functors and channels
nothing is said.
-/

namespace Yatwb.TimerPosting

open Foundation

/-- What a thread asks `addTimer` for. -/
structure Request where
  expiration : Int
  interval : Int
  isRepeat : Bool
  deriving DecidableEq, Repr

inductive Functor
  | addTimerInLoop (r : Request)
  | other
  deriving DecidableEq, Repr

/-- `runAt`, whose timer has the interval `0.0`. -/
def runAt (time : Int) : Functor := .addTimerInLoop ⟨time, 0, false⟩

/-- `runAfter`, with the clock and the whole microseconds of the delay. -/
def runAfter (now delay : Int) : Functor := runAt (now + delay)

/-- `runEvery`, with the clock, the whole microseconds of the interval and its sign. -/
def runEvery (now interval : Int) (positive : Bool) : Functor :=
  .addTimerInLoop ⟨now + interval, interval, positive⟩

inductive Event
  | timerfd
  | other
  deriving DecidableEq, Repr

/-- The clock readings, and the timers that the callbacks add. -/
structure Answers where
  now : Int
  calls : List (List NewTimer)
  clock : Int
  deriving DecidableEq, Repr

/-- What a functor does to the timer queue. -/
def Functor.timerAction (x : Answers) : Functor → Option TimerState.Action
  | .addTimerInLoop r =>
      some (.addTimerInLoop ⟨r.expiration, r.interval, r.isRepeat, x.clock⟩)
  | .other => none

/-- What a channel callback does to the timer queue. -/
def Event.timerAction (x : Answers) : Event → Option TimerState.Action
  | .timerfd => some (.handleRead x.now x.calls x.clock)
  | .other => none

/-- An operation of the timer queue, if there is one and no assert fails. -/
def perform (s : TimerHistory) : Option TimerState.Action → Option TimerHistory
  | none => some s
  | some a => (s.step a).toOption

def app : App TimerHistory Functor Event Answers where
  Initial s := s = TimerHistory.new
  call s _ := some s
  exec s f x := perform s (f.timerAction x)
  handle s e x := perform s (e.timerAction x)

abbrev State := System TimerHistory Functor Event

abbrev Action := System.Action Functor Event Answers

/-- The operation of the timer queue that a statement runs. -/
def timerAction (s : State) : Action → Option TimerState.Action
  | .runInLoop tid cb x => if s.loop.isInLoopThread tid then cb.timerAction x else none
  | .loop (.nextFunctor x) =>
      match s.pc with
      | .batch (p :: _) => p.content.timerAction x
      | _ => none
  | .loop (.nextCallback x) =>
      match s.pc with
      | .dispatching (.channel e :: _) => e.timerAction x
      | _ => none
  | _ => none

/-- The operations of the timer queue meet a condition. -/
def Meets (guard : TimerHistory → TimerState.Action → Prop) (s : State) (a : Action) : Prop :=
  ∀ t ∈ timerAction s a, guard s.app t

instance (guard : TimerHistory → TimerState.Action → Prop) [∀ s a, Decidable (guard s a)]
    (s : State) (a : Action) : Decidable (Meets guard s a) :=
  inferInstanceAs (Decidable (∀ t ∈ timerAction s a, guard s.app t))

/-- The request of a functor. -/
def request (p : Posted Functor) : Option Request :=
  match p.content with
  | .addTimerInLoop r => some r
  | .other => none

/-- The request of a timer that has been added. -/
def requested (t : Timer) : Request := ⟨t.expiration, t.interval, t.isRepeat⟩

/-- The requests of functors. -/
def requests (posted : List (Posted Functor)) : List Request := posted.filterMap request

variable {guard : TimerHistory → TimerState.Action → Prop} {s s' : TimerHistory}

theorem perform_eq_some {a : TimerState.Action} (h : perform s (some a) = some s') :
    s.step a = .ok s' := by
  simp only [perform] at h
  cases hs : s.step a with
  | error f => simp [hs, Except.toOption] at h
  | ok t =>
      rw [hs] at h
      rw [Option.some.inj h]

theorem reach_perform (hr : TimerHistory.machine.Reach (whileRunning guard) (.ok s))
    {a : Option TimerState.Action} (ha : ∀ t ∈ a, guard s t) (h : perform s a = some s') :
    TimerHistory.machine.Reach (whileRunning guard) (.ok s') := by
  cases a with
  | none =>
      obtain rfl := Option.some.inj h
      exact hr
  | some a =>
      refine .step hr (a := a) ?_ ?_
      · rintro t ht
        obtain rfl := Except.ok.inj ht
        exact ha a rfl
      · exact congrArg some (perform_eq_some h)

/-! ### The timer queue goes through a run of its own -/

/-- A statement of a call leaves the timer queue alone. -/
theorem advance_app {s s' : State} {tid : ThreadId} (h : s.advance tid = some s') :
    s'.app = s.app := by
  unfold System.advance at h
  split at h
  · cases h
  · split at h
    · obtain rfl := Option.some.inj h
      rfl
    · cases h
  all_goals
    obtain rfl := Option.some.inj h
    rfl

/-- Every statement runs its operation of the timer queue, if it has one. -/
theorem next_perform {s s' : State} {a : Action} (h : System.next app s a = some s') :
    perform s.app (timerAction s a) = some s'.app := by
  cases a with
  | runInLoop tid cb x =>
      simp only [System.next] at h
      split at h
      · obtain ⟨t, ht, h⟩ := Option.bind_eq_some_iff.mp h
        obtain rfl := Option.some.inj ht
        simp only [timerAction]
        split at h
        · rename_i hin
          obtain ⟨t', ht', rfl⟩ := Option.map_eq_some_iff.mp h
          rw [if_pos hin]
          exact ht'
        · rename_i hout
          obtain rfl := Option.some.inj h
          rw [if_neg hout]
          rfl
      · cases h
  | queueInLoop tid cb =>
      simp only [System.next] at h
      split at h
      · obtain ⟨t, ht, rfl⟩ := Option.map_eq_some_iff.mp h
        exact ht
      · cases h
  | quit tid =>
      simp only [System.next] at h
      split at h
      · obtain rfl := Option.some.inj h
        rfl
      · cases h
  | advance tid => exact congrArg some (advance_app h).symm
  | enterLoop tid =>
      simp only [System.next] at h
      split at h
      · split at h
        · obtain rfl := Option.some.inj h
          rfl
        · cases h
      · cases h
  | loop l =>
      simp only [System.next] at h
      split at h
      · cases l with
        | nextCallback x =>
            simp only [System.loopStep] at h
            simp only [timerAction]
            split at h
            · obtain rfl := Option.some.inj h
              rename_i hpc
              rw [hpc]
              rfl
            · rename_i e rest hpc
              obtain ⟨t, ht, rfl⟩ := Option.map_eq_some_iff.mp h
              rw [hpc]
              exact ht
            · cases h
        | nextFunctor x =>
            simp only [System.loopStep] at h
            simp only [timerAction]
            split at h
            · rename_i p rest hpc
              obtain ⟨t, ht, rfl⟩ := Option.map_eq_some_iff.mp h
              rw [hpc]
              exact ht
            · cases h
        | test =>
            simp only [System.loopStep] at h
            split at h
            · split at h
              all_goals
                obtain rfl := Option.some.inj h
                rfl
            · cases h
        | _ =>
            simp only [System.loopStep] at h
            split at h
            · obtain rfl := Option.some.inj h
              rfl
            · cases h
      · cases h

/-- Whatever the interleaving, the timer queue goes through a run of its own. -/
theorem follows {s : State} (hs : (System.machine app).Reach (Meets guard) s) :
    TimerHistory.machine.Reach (whileRunning guard) (.ok s.app) := by
  induction hs with
  | init h => exact .init ⟨_, rfl, h.app⟩
  | step _ ok hnext ih => exact reach_perform ih ok (next_perform hnext)

/-! ### The requests that have run -/

/-- Timers are only added. -/
theorem addTimers_added (s : TimerState) (new : List NewTimer) :
    Ends (fun s' => s.added <+: s'.added) (fun _ => True) (s.addTimers new) := by
  induction new generalizing s with
  | nil => exact List.prefix_rfl
  | cons n rest ih =>
      have hadd : Ends (fun s' : TimerState => s.added <+: s'.added) (fun _ => True)
          (s.addTimer n) := by
        apply (s.queue.addTimerInLoop_timers (s.nextTimer n) n.clock).bind
        intro queue _
        exact List.prefix_append s.added [s.nextTimer n]
      apply hadd.bind
      intro t ht
      exact (ih t).mono fun _ hs' => ht.trans hs'

theorem runTimers_added (s : TimerState) (due : List Timer) (calls : List (List NewTimer)) :
    Ends (fun s' => s.added <+: s'.added) (fun _ => True) (s.runTimers due calls) := by
  induction due generalizing s calls with
  | nil => exact List.prefix_rfl
  | cons t rest ih =>
      apply (addTimers_added { s with ran := s.ran ++ [t.id] } (calls.headD [])).bind
      intro u hu
      exact (ih u calls.tail).mono fun _ hs' => hu.trans hs'

theorem handleRead_added (s : TimerState) (now clock : Int) (calls : List (List NewTimer)) :
    Ends (fun s' => s.added <+: s'.added) (fun _ => True) (s.handleRead now calls clock) := by
  apply (TimerQueue.getExpired_spec trivial s.queue.readTimerfd now).bind
  rintro ⟨expired, queue⟩ -
  apply (runTimers_added { s with queue := queue } expired calls).bind
  intro t ht
  cases hreset : t.queue.reset expired now clock with
  | error f => trivial
  | ok q => exact ht


/-- What an operation adds to the timers: first of all the request it carries. -/
theorem step_added {a : TimerState.Action} (h : s.step a = .ok s') :
    s.state.added <+: s'.state.added ∧ ∀ n, a = .addTimerInLoop n →
      s'.state.added.map requested =
        s.state.added.map requested ++ [⟨n.expiration, n.interval, n.isRepeat⟩] := by
  have hstate : s.state.step a = .ok s'.state := by
    rw [← TimerHistory.state_step, h]
    rfl
  cases a with
  | addTimerInLoop n =>
      obtain ⟨queue, -, hadded⟩ := bind_eq_ok.mp hstate
      rw [← Except.ok.inj hadded]
      refine ⟨List.prefix_append _ _, fun m hm => ?_⟩
      obtain rfl := TimerState.Action.addTimerInLoop.inj hm
      rw [List.map_append]
      rfl
  | handleRead now calls clock =>
      have hgrown := handleRead_added s.state now clock calls
      rw [show s.state.handleRead now calls clock = .ok s'.state from hstate] at hgrown
      exact ⟨hgrown, fun n hn => by cases hn⟩

/-- A functor adds the timer that it asks for. -/
theorem exec_added {p : Posted Functor} {x : Answers}
    (h : perform s (p.content.timerAction x) = some s') :
    s'.state.added.map requested = s.state.added.map requested ++ requests [p] := by
  cases hcontent : p.content with
  | addTimerInLoop r =>
      rw [hcontent] at h
      have hadded := (step_added (perform_eq_some h)).2 _ rfl
      rw [hadded]
      simp [requests, request, hcontent]
  | other =>
      rw [hcontent] at h
      obtain rfl := Option.some.inj h
      simp [requests, request, hcontent]

theorem handle_added {e : Event} {x : Answers} (h : perform s (e.timerAction x) = some s') :
    s.state.added <+: s'.state.added := by
  cases e with
  | timerfd => exact (step_added (perform_eq_some h)).1
  | other =>
      obtain rfl := Option.some.inj h
      exact List.prefix_rfl

/-- The requests that have run are among the timers that were added, in order. -/
theorem ran_added {s : State} (hs : (System.machine app).Reachable s) :
    (requests s.log).Sublist (s.app.state.added.map requested) := by
  induction hs with
  | init h =>
      rw [h.history.2.2.2.2.2]
      exact List.nil_sublist _
  | @step s a s' _ _ hnext ih =>
      have hran {t t' : TimerHistory} {p : Posted Functor} {x : Answers}
          (ht : (requests s.log).Sublist (t.state.added.map requested))
          (h : perform t (p.content.timerAction x) = some t') :
          (requests (s.log ++ [p])).Sublist (t'.state.added.map requested) := by
        rw [exec_added h, requests, List.filterMap_append]
        exact ht.append (List.Sublist.refl _)
      cases System.next_effect hnext with
      | executeNow tid cb t t' x hmay hcall hin hexec =>
          obtain rfl := Option.some.inj hcall
          exact hran ih hexec
      | issue p t hands hmay hcall hroute =>
          obtain rfl := Option.some.inj hcall
          exact ih
      | functor p rest t x hready hpc hexec => exact hran ih hexec
      | callback e rest t x hready hpc hhandle =>
          exact ih.trans ((handle_added hhandle).map requested).sublist
      | _ => exact ih

/-! ### Every request is accounted for -/

/-- The functors of a thread that are in `pending_functors_`, in the vector that
`doPendingFunctors` has taken, or on their way. -/
def waiting (tid : ThreadId) (s : State) : List (Posted Functor) :=
  Mailbox.orderedOf tid s.pc.rest ++ Mailbox.orderedOf tid s.loop.pendingFunctors ++
    Mailbox.orderedOf tid (s.calls tid).carried

theorem timerRuns_of_reach {s : Except TimerQueue.Fault TimerHistory}
    (hs : TimerHistory.machine.Reach (whileRunning fun s => s.state.Distinct) s) :
    TimerState.timerRuns.Reach (whileRunning TimerState.Distinct)
      (s.map TimerHistory.state) := by
  induction hs with
  | init h =>
      obtain ⟨t, rfl, rfl⟩ := h
      exact .init ⟨_, rfl, rfl⟩
  | @step s a s' _ ok hnext ih =>
      cases s with
      | error f => cases hnext
      | ok t =>
          obtain rfl := Option.some.inj hnext
          refine .step ih (a := a) ?_ ?_
          · rintro u hu
            obtain rfl := Except.ok.inj hu
            exact ok t rfl
          · rw [TimerHistory.state_step]
            rfl

/-- For every interleaving of threads that ask for timers, the requests of a
thread that have run, followed by those that wait, are all its requests in the
order in which it made them, and the ones that have run are among the timers that
were added. In a run in which the expirations that meet in the set are different,
each of these is in the set once or, if it does not repeat, its callback has run
once. -/
theorem requests_accounted {s : State} (hs : (System.machine app).Reachable s) :
    (∀ tid, requests (Mailbox.orderedOf tid s.log) ++ requests (waiting tid s) =
        requests (Mailbox.orderedOf tid s.issued)) ∧
      (requests s.log).Sublist (s.app.state.added.map requested) ∧
      ((System.machine app).Reach (Meets fun t => t.state.Distinct) s →
        s.app.state.Accounted) := by
  refine ⟨fun tid => ?_, ran_added hs, fun hdistinct => ?_⟩
  · have horder : Mailbox.orderedOf tid s.log ++ waiting tid s =
        Mailbox.orderedOf tid s.issued := by
      simp only [waiting, ← List.append_assoc]
      exact (System.mailbox_inv hs).order tid
    rw [← horder, requests, requests, requests, List.filterMap_append]
  · have hbalanced := TimerState.balanced_of_reach (timerRuns_of_reach (follows hdistinct))
    exact TimerState.Balanced.accounted hbalanced

section Example

/-- A loop of thread `0` with no timers. -/
def exampleStart : State where
  loop := EventLoop.new 0 false 0
  pc := .outside
  runner := 0
  calls _ := .idle
  app := TimerHistory.new
  issued := []
  acquired := []
  queued := []
  executed := []
  immediate := []
  log := []

/-- Thread `1` asks for two timers, and a channel callback on thread `0` for one
that is added before them. The second request of thread `1` still waits. -/
def exampleActions : List Action :=
  [.enterLoop 0, .loop .test, .runInLoop 1 (runAfter 10 90) ⟨0, [], 0⟩,
    .loop (.pollReturn [.channel .other]), .advance 1, .loop (.nextCallback ⟨0, [], 0⟩),
    .runInLoop 0 (runEvery 100 50 true) ⟨0, [], 20⟩, .advance 1, .advance 1,
    .advance 1, .loop .endCallback, .runInLoop 1 (runAt 120) ⟨0, [], 0⟩,
    .loop .doPendingFunctors, .loop .swap, .loop (.nextFunctor ⟨0, [], 30⟩), .loop .endFunctor,
    .loop .finish, .loop .release, .loop .test, .loop (.pollReturn [.channel .timerfd]),
    .loop (.nextCallback ⟨110, [], 111⟩)]

theorem example_requests_accounted : ∃ s : State,
    requests (Mailbox.orderedOf 1 s.log) = [⟨100, 0, false⟩] ∧
      requests (waiting 1 s) = [⟨120, 0, false⟩] ∧
      requests (Mailbox.orderedOf 1 s.issued) = [⟨100, 0, false⟩, ⟨120, 0, false⟩] ∧
      s.app.state.ran = [1] ∧ s.app.state.Accounted := by
  have hinit : System.Initial app exampleStart :=
    ⟨rfl, rfl, rfl, rfl, rfl, fun _ => rfl, rfl, rfl, rfl, rfl, rfl, rfl⟩
  obtain ⟨s, hs, hp⟩ := Machine.exists_reach (M := System.machine app)
    (Meets fun t => t.state.Distinct) hinit exampleActions
    (fun s => requests (Mailbox.orderedOf 1 s.log) == [⟨100, 0, false⟩] &&
      requests (waiting 1 s) == [⟨120, 0, false⟩] && s.app.state.ran == [1]) (by decide +kernel)
  simp only [Bool.and_eq_true, beq_iff_eq] at hp
  obtain ⟨⟨hlog, hwaiting⟩, hran⟩ := hp
  obtain ⟨horder, -, haccounted⟩ := requests_accounted hs.reachable
  refine ⟨s, hlog, hwaiting, ?_, hran, haccounted hs⟩
  rw [← horder 1, hlog, hwaiting]
  rfl

end Example

end Yatwb.TimerPosting
