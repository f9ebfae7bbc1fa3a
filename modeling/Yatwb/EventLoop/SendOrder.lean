import Yatwb.Connection.Session
import Yatwb.EventLoop.FunctorQueue

/-!
# Sends from many threads

Any number of threads call `send` and `shutdown` on one connection while its
loop runs. On the loop's thread `sendInLoop` runs at once; from another thread
it is handed to `runInLoop`, hence queued. The connection is the application of
the interleaved system, so its history is that of a session, and the order in
which the messages of one thread are given to `sendInLoop` is the order of the
functor queue.
-/

namespace Yatwb.SendOrder

open Foundation

/-- The functors that concern the connection, and all others. -/
inductive Functor
  | sendInLoop (message : List Byte)
  | shutdownInLoop
  | destroyConnection
  | other
  deriving DecidableEq, Repr

/-- The callbacks that concern the connection, and all others. -/
inductive Event
  | establishConnection
  | handleRead (r : Buffer.ReadResult)
  | handleWrite
  | handleClose
  | other
  deriving DecidableEq, Repr

/-- A step of the session, if the kernel can answer so and no assert fails. -/
def perform (s : Session) (a : Session.Action) : Option Session :=
  if Session.Kernel s a then (s.step a).toOption else none

/-- What the caller does first: `send` and `shutdown` look at `state_`. -/
def call (s : Session) : Functor → Option Session
  | .sendInLoop _ => if s.endpoint.sends then some s else none
  | .shutdownInLoop => if s.endpoint.shutdown.2 then perform s .shutdown else none
  | _ => some s

def exec (s : Session) : Functor → WriteResult → Option Session
  | .sendInLoop message, r => perform s (.sendInLoop message r)
  | .shutdownInLoop, _ => perform s .shutdownInLoop
  | .destroyConnection, _ => perform s .destroyConnection
  | .other, _ => some s

def handle (s : Session) : Event → WriteResult → Option Session
  | .establishConnection, _ => perform s .establishConnection
  | .handleRead r, _ => perform s (.handleRead r)
  | .handleWrite, r => perform s (.handleWrite r)
  | .handleClose, _ => perform s .handleClose
  | .other, _ => some s

def app : App Session Functor Event WriteResult where
  Initial := Session.Fresh
  call := call
  exec := exec
  handle := handle

/-- The message of a functor. -/
def message (p : Posted Functor) : Option (List Byte) :=
  match p.content with
  | .sendInLoop message => some message
  | _ => none

/-- The messages that the thread passed to `send` while the connection was
`Connected`, in its order. -/
def sentBy (tid : ThreadId) (s : System Session Functor Event) : List (List Byte) :=
  (Mailbox.orderedOf tid s.issued).filterMap message

/-- Those of them whose `sendInLoop` has run, in the order in which it ran. -/
def ranBy (tid : ThreadId) (s : System Session Functor Event) : List (List Byte) :=
  (Mailbox.orderedOf tid s.log).filterMap message

theorem perform_eq_some {s s' : Session} {a : Session.Action} (h : perform s a = some s') :
    Session.Kernel s a ∧ s.step a = .ok s' := by
  unfold perform at h
  split at h
  · rename_i hk
    refine ⟨hk, ?_⟩
    cases hs : s.step a with
    | error f => simp [hs, Except.toOption] at h
    | ok t =>
        rw [hs] at h
        rw [Option.some.inj h]
  · cases h

theorem reach_perform {s s' : Session} (hr : Session.Reach (.ok s)) {a : Session.Action}
    (h : perform s a = some s') : Session.Reach (.ok s') := by
  obtain ⟨hk, hs⟩ := perform_eq_some h
  refine .step hr (a := a) ?_ (by rw [← hs]; rfl)
  rintro t ht
  obtain rfl := Except.ok.inj ht
  exact hk

/-- A step adds to the given messages what it hands to `sendInLoop`. -/
theorem given_perform {s s' : Session} {a : Session.Action} (h : perform s a = some s') :
    s'.given = s.given ++ a.messages := by
  obtain ⟨-, hs⟩ := perform_eq_some h
  obtain ⟨outcome, -, hs⟩ := bind_eq_ok.mp hs
  rw [← Except.ok.inj hs]
  rfl

/-- The connection of a reachable system has a session of its own, and the
messages it was given are those of the functors executed so far, in order. -/
structure Tracks (s : System Session Functor Event) : Prop where
  reach : Session.Reach (.ok s.app)
  given : s.app.given = s.log.filterMap message

theorem call_tracks {s s' : Session} (hr : Session.Reach (.ok s)) {f : Functor}
    (h : call s f = some s') : Session.Reach (.ok s') ∧ s'.given = s.given := by
  cases f with
  | sendInLoop m =>
      simp only [call] at h
      split at h
      · obtain rfl := Option.some.inj h
        exact ⟨hr, rfl⟩
      · cases h
  | shutdownInLoop =>
      simp only [call] at h
      split at h
      · refine ⟨reach_perform hr h, ?_⟩
        rw [given_perform h]
        exact List.append_nil _
      · cases h
  | destroyConnection =>
      obtain rfl := Option.some.inj h
      exact ⟨hr, rfl⟩
  | other =>
      obtain rfl := Option.some.inj h
      exact ⟨hr, rfl⟩

theorem exec_tracks {s s' : Session} (hr : Session.Reach (.ok s)) {p : Posted Functor}
    {r : WriteResult} (h : exec s p.content r = some s') :
    Session.Reach (.ok s') ∧ s'.given = s.given ++ [p].filterMap message := by
  cases hp : p.content with
  | sendInLoop m =>
      rw [hp] at h
      refine ⟨reach_perform hr h, ?_⟩
      rw [given_perform h]
      simp [message, hp, Session.Action.messages]
  | shutdownInLoop =>
      rw [hp] at h
      refine ⟨reach_perform hr h, ?_⟩
      rw [given_perform h]
      simp [message, hp, Session.Action.messages]
  | destroyConnection =>
      rw [hp] at h
      refine ⟨reach_perform hr h, ?_⟩
      rw [given_perform h]
      simp [message, hp, Session.Action.messages]
  | other =>
      rw [hp] at h
      obtain rfl := Option.some.inj h
      refine ⟨hr, ?_⟩
      simp [message, hp]

theorem handle_tracks {s s' : Session} (hr : Session.Reach (.ok s)) {e : Event}
    {r : WriteResult} (h : handle s e r = some s') :
    Session.Reach (.ok s') ∧ s'.given = s.given := by
  cases e with
  | other =>
      obtain rfl := Option.some.inj h
      exact ⟨hr, rfl⟩
  | establishConnection | handleRead _ | handleWrite | handleClose =>
      refine ⟨reach_perform hr h, ?_⟩
      rw [given_perform h]
      exact List.append_nil _

/-- The system simulates the session: every statement is a step of the session
or leaves it alone. -/
theorem tracks {s : System Session Functor Event} (h : (System.machine app).Reachable s) :
    Tracks s := by
  refine h.invariant ?_ ?_
  · intro s hs
    obtain ⟨hissued, -, -, -, -, hlog⟩ := hs.history
    refine ⟨.init ⟨s.app, rfl, hs.app⟩, ?_⟩
    obtain ⟨loop, name, sockfd, writeCmplCb, memory, heq⟩ := hs.app
    rw [heq, hlog]
    rfl
  · intro s a s' hs _ hnext
    have hlogged : ∀ p : Posted Functor,
        (s.log ++ [p]).filterMap message = s.app.given ++ [p].filterMap message := by
      intro p
      rw [List.filterMap_append, hs.given]
    cases System.next_effect hnext with
    | executeNow tid cb a₁ a₂ answers hmay hcall hin hexec =>
        obtain ⟨hr₁, hg₁⟩ := call_tracks hs.reach hcall
        obtain ⟨hr₂, hg₂⟩ := exec_tracks (p := ⟨cb, tid, true⟩) hr₁ hexec
        refine ⟨hr₂, ?_⟩
        simp only [System.executeNow, hlogged, hg₂, hg₁]
    | issue p a₁ hands hmay hcall hroute =>
        obtain ⟨hr₁, hg₁⟩ := call_tracks hs.reach hcall
        exact ⟨hr₁, hg₁.trans hs.given⟩
    | callback e rest a₁ answers hready hpc hhandle =>
        obtain ⟨hr₁, hg₁⟩ := handle_tracks hs.reach hhandle
        exact ⟨hr₁, hg₁.trans hs.given⟩
    | functor p rest a₁ answers hready hpc hexec =>
        obtain ⟨hr₁, hg₁⟩ := exec_tracks hs.reach hexec
        exact ⟨hr₁, hg₁.trans (hlogged p).symm⟩
    | _ => exact ⟨hs.reach, hs.given⟩

/-- For every order of the steps of a connection and every answer of the
kernel, what is transmitted followed by the output buffer is the concatenation
of the messages given to `sendInLoop`. For every interleaving of threads, the
messages given are those of the executed functors in the order of execution,
and those that a thread sent are among them in the order in which it sent
them: the ones that have run are the first ones it sent. -/
theorem output_stream_integrity :
    (∀ r : Session, Session.Reach (.ok r) →
      r.transmitted ++ r.endpoint.pending = r.given.flatten) ∧
    (∀ s : System Session Functor Event, (System.machine app).Reachable s →
      s.app.transmitted ++ s.app.endpoint.pending = s.app.given.flatten ∧
      s.app.given = s.log.filterMap message ∧
      ∀ tid, (ranBy tid s).Sublist s.app.given ∧ ranBy tid s <+: sentBy tid s) := by
  have hstream : ∀ r : Session, Session.Reach (.ok r) →
      r.transmitted ++ r.endpoint.pending = r.given.flatten := by
    intro r hr
    have hends := Session.stream_of_reach hr
    exact hends.bytes
  refine ⟨hstream, fun s hs => ?_⟩
  have htracks := tracks hs
  refine ⟨hstream s.app htracks.reach, htracks.given, fun tid => ⟨?_, ?_⟩⟩
  · rw [htracks.given]
    exact List.filter_sublist.filterMap message
  · exact (((System.mailbox_inv hs).handled_first tid).filterMap message)

section Example

/-- A loop of thread `0` with a connection fresh from its constructor. -/
def exampleStart : System Session Functor Event where
  loop := EventLoop.new 0 false 0
  pc := .outside
  runner := 0
  calls _ := .idle
  app := Session.start (Endpoint.new 0 "s#1" 7 false 0)
  issued := []
  acquired := []
  queued := []
  executed := []
  immediate := []
  log := []

/-- Thread `1` sends twice, the callback on thread `0` sends once, and the
kernel takes one byte of the first queued message. -/
def exampleActions : List (System.Action Functor Event WriteResult) :=
  [.enterLoop 0, .loop .test, .loop (.pollReturn [.channel .establishConnection]),
    .loop (.nextCallback .error), .runInLoop 1 (.sendInLoop [1, 2]) .error,
    .runInLoop 0 (.sendInLoop [9]) (.wrote 1), .loop .endCallback,
    .advance 1, .advance 1, .advance 1, .advance 1,
    .runInLoop 1 (.sendInLoop [3]) .error, .advance 1, .advance 1, .advance 1, .advance 1,
    .loop .doPendingFunctors, .loop .swap, .loop (.nextFunctor (.wrote 1)), .loop .endFunctor,
    .loop (.nextFunctor .error)]

theorem output_stream_two_threads :
    ∃ s, (System.machine app).Reachable s ∧ ranBy 1 s = [[1, 2], [3]] ∧
      s.app.transmitted ++ s.app.endpoint.pending = [9, 1, 2, 3] ∧
      ranBy 1 s <+: sentBy 1 s := by
  have hinit : System.Initial app exampleStart :=
    ⟨⟨_, _, _, _, _, rfl⟩, rfl, rfl, rfl, rfl, fun _ => rfl, rfl, rfl, rfl, rfl, rfl, rfl⟩
  obtain ⟨s, hs, hp⟩ := Machine.exists_reach (M := System.machine app) (fun _ _ => True)
    hinit exampleActions
    (fun s => s.app.given == [[9], [1, 2], [3]] && ranBy 1 s == [[1, 2], [3]]) (by decide +kernel)
  simp only [Bool.and_eq_true, beq_iff_eq] at hp
  obtain ⟨hbytes, -, hthreads⟩ := output_stream_integrity.2 s hs
  refine ⟨s, hs, hp.2, ?_, (hthreads 1).2⟩
  rw [hbytes, hp.1]
  rfl

end Example

end Yatwb.SendOrder
