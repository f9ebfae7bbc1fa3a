import Yatwb.Connection.Model
import Yatwb.EventLoop.Model
import Yatwb.Poller.Runs

/-!
# A connection that several threads use

Any number of threads call `send` and `shutdown` on one connection, while the
thread of its loop runs channel callbacks and functors and closes the
connection. The check of `state_` and what follows it, the enqueueing or the
direct execution, are separate actions, so anything can happen between them.
The poller is the real one, with the channels of other owners in it.

The history holds the messages that `send` accepted, those whose `sendInLoop`
has run, and whether the socket was written to after its write side was shut
down, or the connection was touched by `sendInLoop` after its destruction.

## Implementation notes

* The connection lives in the base loop, so `handleClose` leads to
  `removeConnection` on the same thread, and that queues `destroyConnection`.
* `queueInLoop` is one action, as `mutex_` lets no other thread in between. A
  thread that finds `mutex_` held waits, which leaves the state as it is.
* `handleRead` and the user callbacks do nothing to what is modelled here other
  than to call `send` and `shutdown` on the thread of the loop.
* A poller reports events only for registered channels.
* The functors of `send` and `shutdown` hold a plain `this`, those of a destruction
  and of a write-complete callback a pointer that keeps the connection alive until
  their batch ends. A caller holds such a pointer while it is in its call. Whoever
  else does is left open: once nobody named here holds one, the connection may be
  released at any time.
* The thread and owner checks of `EventLoop` are those of the server.
-/

namespace Yatwb

open Foundation

namespace Contended

/-- The functors of the connection; a `sendInLoop` is kept with its caller, and a
`shutdownInLoop` with whether it overtook a `send` that was about to be queued. -/
inductive ConnTask
  | sendInLoop (caller : ThreadId) (message : List Byte)
  | shutdownInLoop (overtaking : Bool)
  | destroyConnection
  | writeComplete
  deriving DecidableEq, Repr

def ConnTask.isSend : ConnTask → Bool
  | sendInLoop _ _ => true
  | _ => false

/-- The functor keeps the connection alive. -/
def ConnTask.owns : ConnTask → Bool
  | destroyConnection => true
  | writeComplete => true
  | _ => false

/-- A call that has passed its check of `state_`. -/
inductive Passed
  | send (message : List Byte)
  | shutdown
  deriving DecidableEq, Repr

def Passed.isSend : Passed → Bool
  | send _ => true
  | shutdown => false

end Contended

open Contended (ConnTask Passed)

/-- The connection, its loop and its poller, the calls between their check and
what follows it, and the history. `batch` is what `doPendingFunctors` still has
to run, `batchOwns` whether a functor of that batch, executed or not, keeps the
connection alive, and `inServer` whether `connections_` holds the connection. -/
structure Contended (κ : Type) where
  loop : EventLoop ConnTask
  batch : Option (List ConnTask)
  batchOwns : Bool
  conn : TcpConnection
  alive : Bool
  poll : PollerRuns.State κ
  self : κ
  inServer : Bool
  calls : List (ThreadId × Passed)
  shut : Bool
  accepted : List (ThreadId × List Byte)
  ran : List (ThreadId × List Byte)
  wroteLate : Bool
  touched : Bool

namespace Contended

inductive Fault
  | loop (f : EventLoop.Fault)
  | connection (f : TcpConnection.Fault)
  | poller (f : Poller.Fault)
  | removeConnectionCount
  | dangling
  deriving DecidableEq, Repr

variable {κ : Type} [DecidableEq κ]

def endpoint (s : Contended κ) : Endpoint := ⟨s.conn, s.poll.channels s.self⟩

/-- `destroyConnection` has run. -/
def destroyed (s : Contended κ) : Bool := s.conn.state == .disconnected

/-- The functors in the order in which they will run. -/
def fifo (s : Contended κ) : List ConnTask := s.batch.getD [] ++ s.loop.pendingFunctors

/-- `EventLoop::updateChannel` for the channel of the connection, after its
interest has been changed. -/
def updateChannel (s : Contended κ) (channel : Channel) : Except Fault (Contended κ) := do
  let (poller, channels) ← (s.poll.poller.updateChannel
    (Function.update s.poll.channels s.self channel) s.self).mapError .poller
  return { s with
    poll := ⟨poller, channels, Function.update s.poll.status s.self .registered⟩ }

/-- `EventLoop::removeChannel` for the channel of the connection. -/
def removeChannel (s : Contended κ) : Except Fault (Contended κ) := do
  let poll ← (PollerRuns.step s.poll (.remove s.self)).mapError .poller
  return { s with poll := poll }

/-- `queueInLoop` by the thread of the loop. -/
def queueInLoop (s : Contended κ) (task : ConnTask) : Except Fault (Contended κ) := do
  let loop ← (s.loop.queueInLoop s.loop.threadId task).mapError .loop
  return { s with loop := loop }

/-- Carry out the requests of a method that leaves the channel as given. -/
def requests (channel : Channel) (s : Contended κ) :
    List Request → Except Fault (Contended κ)
  | [] => .ok s
  | .write _ :: rest => s.requests channel rest
  | .update :: rest => do
      let s ← s.updateChannel channel
      s.requests channel rest
  | .queueWriteComplete :: rest => do
      let s ← s.queueInLoop .writeComplete
      s.requests channel rest
  | .shutdownWrite :: rest => ({ s with shut := true } : Contended κ).requests channel rest

/-- Store the outcome of a method of the connection and carry out its requests. -/
def commit (s : Contended κ) (outcome : Endpoint × List Request) :
    Except Fault (Contended κ) :=
  ({ s with conn := outcome.1.conn } : Contended κ).requests outcome.1.channel outcome.2

def sendInLoop (s : Contended κ) (caller : ThreadId) (message : List Byte) (r : WriteResult) :
    Except Fault (Contended κ) := do
  let outcome ← (s.endpoint.sendInLoop message r).mapError .connection
  let attempted := s.endpoint.writesDirectly
  let s := { s with
    ran := s.ran ++ [(caller, message)]
    wroteLate := s.wroteLate || attempted && s.shut
    touched := s.touched || s.destroyed && (attempted || outcome.2.contains .update) }
  s.commit outcome

def shutdownInLoop (s : Contended κ) : Except Fault (Contended κ) :=
  s.commit (s.endpoint, s.endpoint.shutdownInLoop)

def handleWrite (s : Contended κ) (r : WriteResult) : Except Fault (Contended κ) := do
  let outcome ← (s.endpoint.handleWrite r).mapError .connection
  let s := { s with wroteLate := s.wroteLate || s.endpoint.isWriting && s.shut }
  s.commit outcome

/-- `TcpServer::removeConnection`. -/
def removeConnection (s : Contended κ) : Except Fault (Contended κ) := do
  check s.inServer .removeConnectionCount
  ({ s with inServer := false } : Contended κ).queueInLoop .destroyConnection

def handleClose (s : Contended κ) : Except Fault (Contended κ) := do
  let outcome ← s.endpoint.handleClose.mapError .connection
  let s ← s.commit outcome
  s.removeConnection

def destroyConnection (s : Contended κ) : Except Fault (Contended κ) := do
  let outcome ← s.endpoint.destroyConnection.mapError .connection
  let s ← s.commit outcome
  s.removeChannel

def runTask (s : Contended κ) (r : WriteResult) : ConnTask → Except Fault (Contended κ)
  | .sendInLoop caller message => do
      check s.alive .dangling
      s.sendInLoop caller message r
  | .shutdownInLoop _ => do
      check s.alive .dangling
      s.shutdownInLoop
  | .destroyConnection => s.destroyConnection
  | .writeComplete => .ok s

/-- Somebody holds a pointer to the connection. -/
def owned (s : Contended κ) : Bool :=
  s.inServer || s.batchOwns || s.loop.pendingFunctors.any ConnTask.owns || !s.calls.isEmpty

/-- The thread is in no call. -/
def idle (s : Contended κ) (tid : ThreadId) : Bool := s.calls.all fun c => c.1 != tid

/-- The thread of the loop can begin with the next callback or functor. -/
def loopIdle (s : Contended κ) : Bool := s.idle s.loop.threadId

/-- The thread of the loop dispatches an event of the connection. -/
def dispatches (s : Contended κ) : Bool :=
  s.loopIdle && s.batch.isNone && s.poll.status s.self == .registered

/-- Another thread is between the check and the enqueueing of a `send`. -/
def entering (s : Contended κ) : Bool :=
  s.calls.any fun c => c.1 != s.loop.threadId && c.2.isSend

/-- The call of a thread leaves for the queue. A thread that finds `mutex_` held waits. -/
def enqueue (s : Contended κ) (tid : ThreadId) (p : Passed) (task : ConnTask) :
    Except Fault (Contended κ) :=
  match s.loop.queueInLoop tid task with
  | .ok loop => .ok { s with loop := loop, calls := s.calls.erase (tid, p) }
  | .error .held => .ok s
  | .error f => .error (.loop f)

/-- What follows the check of `state_`. -/
def proceed (s : Contended κ) (tid : ThreadId) (p : Passed) (r : WriteResult) :
    Except Fault (Contended κ) :=
  let left : Contended κ := { s with calls := s.calls.erase (tid, p) }
  match p with
  | .send message =>
      if s.loop.isInLoopThread tid then left.sendInLoop tid message r
      else s.enqueue tid p (.sendInLoop tid message)
  | .shutdown =>
      if s.loop.isInLoopThread tid then left.shutdownInLoop
      else s.enqueue tid p (.shutdownInLoop s.entering)

inductive Action (κ : Type)
  | send (tid : ThreadId) (message : List Byte)
  | shutdown (tid : ThreadId)
  | proceed (tid : ThreadId) (p : Passed) (r : WriteResult)
  | handleWrite (r : WriteResult)
  | handleClose
  | others (c : PollerRuns.Call κ)
  | doPendingFunctors
  | functor (r : WriteResult)
  | endFunctors
  | release
  deriving DecidableEq, Repr

/-- An action that is not possible in a state leaves it as it is. -/
def step (s : Contended κ) : Action κ → Except Fault (Contended κ)
  | .send tid message =>
      if s.idle tid && s.endpoint.sends then
        .ok { s with
          calls := (tid, .send message) :: s.calls
          accepted := s.accepted ++ [(tid, message)] }
      else .ok s
  | .shutdown tid =>
      if s.idle tid && s.endpoint.shutdown.2 then
        .ok { s with
          conn := s.endpoint.shutdown.1.conn
          calls := (tid, .shutdown) :: s.calls }
      else .ok s
  | .proceed tid p r => if (tid, p) ∈ s.calls then s.proceed tid p r else .ok s
  | .handleWrite r => if s.dispatches then s.handleWrite r else .ok s
  | .handleClose => if s.dispatches then s.handleClose else .ok s
  | .others c => do
      let poll ← (PollerRuns.step s.poll c).mapError .poller
      return { s with poll := poll }
  | .doPendingFunctors =>
      if s.loopIdle && s.batch.isNone then do
        let (loop, tasks) ← (s.loop.beginFunctors s.loop.threadId).mapError .loop
        return { s with loop := loop, batch := some tasks, batchOwns := tasks.any ConnTask.owns }
      else .ok s
  | .functor r =>
      match s.batch with
      | some (task :: rest) =>
          if s.loopIdle then ({ s with batch := some rest } : Contended κ).runTask r task
          else .ok s
      | _ => .ok s
  | .endFunctors =>
      match s.batch with
      | some [] =>
          if s.loopIdle then
            .ok { s with loop := s.loop.endFunctors, batch := none, batchOwns := false }
          else .ok s
      | _ => .ok s
  | .release => .ok { s with alive := s.alive && s.owned }

/-- An open connection, registered with a poller that others use too. -/
structure Initial (s : Contended κ) : Prop where
  poll : PollerRuns.Reach (.ok s.poll)
  registered : s.poll.status s.self = .registered
  connected : s.conn.state = .connected
  silent : s.endpoint.isWriting = false
  loop : s.loop.mutex = none ∧ s.loop.pendingFunctors = [] ∧ s.batch = none
  inServer : s.inServer = true ∧ s.alive = true ∧ s.batchOwns = false
  history : s.calls = [] ∧ s.shut = false ∧ s.accepted = [] ∧ s.ran = [] ∧
    s.wroteLate = false ∧ s.touched = false

def machine (κ : Type) [DecidableEq κ] : Machine (Except Fault (Contended κ)) (Action κ) :=
  faulting Initial step

/-- The channel of a call of the poller. -/
def target : PollerRuns.Call κ → κ
  | .change k _ => k
  | .remove k => k

section Example

instance (s : PollerRuns.State Bool) : ∀ c, Decidable (PollerRuns.Permitted s c)
  | .change k _ => inferInstanceAs (Decidable (s.status k ≠ .removed ∧ _ ∧ _))
  | .remove k => inferInstanceAs (Decidable (s.status k = .registered ∧ _))

/-- Two channels with the descriptors `3` and `4`. -/
def exampleChannels : PollerRuns.State Bool where
  poller := Poller.new
  channels k := Channel.new 0 (if k then 3 else 4) 0
  status _ := .unused

/-- The poller after the registration of both channels. -/
def exampleRegistered : PollerRuns.State Bool :=
  match (PollerRuns.machine Bool).runs (whileRunning PollerRuns.Permitted)
    (.ok exampleChannels) [.change true .enableReading, .change false .enableReading] with
  | some (.ok s) => s
  | _ => exampleChannels

theorem exampleRegistered_reached : PollerRuns.Reach (.ok exampleRegistered) := by
  have hstart : PollerRuns.Reach (.ok exampleChannels) :=
    .init ⟨_, rfl, rfl, fun _ => ⟨rfl, rfl, rfl⟩⟩
  unfold exampleRegistered
  split
  · rename_i s hs
    exact hstart.runs _ hs
  · exact hstart

/-- An open connection in a loop of the thread `1`. -/
def exampleOpen : Contended Bool where
  loop := EventLoop.new 1 false 0
  batch := none
  batchOwns := false
  conn :=
    { loop := 0
      name := "example"
      state := .connected
      writeCmplCb := false
      inputBuffer := Buffer.new
      outputBuffer := Buffer.new }
  alive := true
  poll := exampleRegistered
  self := true
  inServer := true
  calls := []
  shut := false
  accepted := []
  ran := []
  wroteLate := false
  touched := false

theorem exampleOpen_initial : exampleOpen.Initial where
  poll := exampleRegistered_reached
  registered := by decide +kernel
  connected := rfl
  silent := by decide +kernel
  loop := ⟨rfl, rfl, rfl⟩
  inServer := ⟨rfl, rfl, rfl⟩
  history := ⟨rfl, rfl, rfl, rfl, rfl, rfl⟩

end Example

end Contended

end Yatwb
