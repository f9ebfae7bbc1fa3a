import Yatwb.Connection.Model
import Yatwb.EventLoop.Model
import Yatwb.Poller.Model
import Mathlib.Data.Finset.Basic

/-!
# The server

`TcpServer`, `Acceptor`, `EventLoopThreadPool` and `TcpConnection` on top of
event loops with their pollers. A world holds all objects of one process. Each
function below is the code of the source function of that name, executed by
the thread `tid`; it ends with a new world or with the first assert that
fails. What the code does not decide is an argument: the answers of the kernel,
the calls a user callback makes, and the indeterminate `owner_loop_` of a new
channel.

## Implementation notes

* The base loop is loop `0` and the loops of the pool are `1` to `N`; the loop
  `l` is created by the thread `l`, which is also its number as a thread.
* The timer and the wake-up channel of a loop are taken to be registered with
  their read callbacks, which the constructor of `EventLoop` leaves out.
* The timers of a `TimerQueue` are not part of the world: which callbacks an
  expiry runs is an argument.
* A callback of the user calls only through pointers it holds, so a call on a
  connection that is gone does not occur.
* `next_conn_id_` is an `int`: its overflow is undefined and ends the run.
* `Poller` repeats the thread check of `EventLoop`, on the same loop.
* All callbacks but `write_cmpl_cb_` are set. Log lines and addresses are left out.
-/

namespace Yatwb

open Foundation

/-- A `Channel*`, by its owner. -/
inductive ChannelRef
  | acceptor
  | timer (l : LoopId)
  | wakeup (l : LoopId)
  | conn (c : Nat)
  deriving DecidableEq, Repr

/-- The functors that are queued. Those of a destruction and of a
write-complete callback hold a `TcpConnectionPtr`, the others a plain `this`;
`addTimerInLoop` is queued in the loop of its own `TimerQueue`. -/
inductive Functor
  | listen
  | addTimerInLoop
  | sendInLoop (c : Nat) (message : List Byte)
  | shutdownInLoop (c : Nat)
  | destroyConnection (c : Nat)
  | writeComplete (c : Nat)
  deriving DecidableEq, Repr

/-- Where the thread of a loop is between two callbacks or functors. -/
inductive Phase
  | outside
  | polling
  | dispatching (active : List ChannelRef)
  | handling (ref : ChannelRef) (callbacks : List Channel.Callback) (active : List ChannelRef)
  | functors (rest : List Functor)
  deriving DecidableEq, Repr

namespace Phase

/-- Whether `loop` is iterating over `active_channels_`. -/
def iterating : Phase → Bool
  | dispatching _ => true
  | handling _ _ _ => true
  | _ => false

/-- The channels that `loop` still refers to. -/
def refs : Phase → List ChannelRef
  | dispatching active => active
  | handling ref _ active => ref :: active
  | _ => []

/-- `loop` is in the iteration over the functors that it has taken. -/
def batching : Phase → Bool
  | functors _ => true
  | _ => false

/-- The functors not yet executed in a batch. -/
def rest : Phase → List Functor
  | functors rest => rest
  | _ => []

end Phase

/-- A functor holds a pointer to the connection. -/
def Functor.owns (c : Nat) : Functor → Bool
  | destroyConnection c' => c' == c
  | writeComplete c' => c' == c
  | _ => false

/-- An event loop with its poller and its position in `loop`. -/
structure Reactor where
  event : EventLoop Functor
  poller : Poller ChannelRef
  phase : Phase

structure EventLoopThreadPool where
  started : Bool
  numThreads : Nat
  next : Nat
  loops : List LoopId
  deriving DecidableEq, Repr

structure TcpServer where
  name : String
  started : Bool
  listenning : Bool
  writeCmplCb : Bool
  nextConnId : Nat
  connections : Std.ExtTreeMap String Nat
  pool : EventLoopThreadPool

/-- What the run of a server shows to its user and to the poller. -/
inductive Event
  | connectionCb (c : Nat) (state : States)
  | messageCb (c : Nat)
  | handleClose (c : Nat)
  | removeConnection (c : Nat)
  | destroyConnection (c : Nat)
  | removeChannel (ref : ChannelRef) (iterating : Bool)
  deriving DecidableEq, Repr

/-- The objects of the process, the open descriptors and the history. -/
structure World where
  reactors : LoopId → Reactor
  channels : ChannelRef → Channel
  conns : Nat → Option TcpConnection
  nextObj : Nat
  openFds : Finset Int
  server : TcpServer
  trace : List Event

/-- A call that a user callback makes. -/
inductive UserAct
  | send (c : Nat) (message : List Byte) (r : WriteResult)
  | shutdown (c : Nat)
  | retrieveAsString (c : Nat)
  | addTimer (l : LoopId)
  deriving DecidableEq, Repr

namespace World

inductive Fault
  | loop (f : EventLoop.Fault)
  | poller (f : Poller.Fault)
  | connection (f : TcpConnection.Fault)
  | updateChannelOwner
  | removeChannelOwner
  | removeConnectionCount
  | nextConnIdOverflow
  | poolStarted
  | dangling
  deriving DecidableEq, Repr

/-- The largest `int`. -/
def intMax : Nat := 2 ^ 31 - 1

def setReactor (w : World) (l : LoopId) (r : Reactor) : World :=
  { w with reactors := Function.update w.reactors l r }

def setEvent (w : World) (l : LoopId) (event : EventLoop Functor) : World :=
  w.setReactor l { w.reactors l with event := event }

def setPoller (w : World) (l : LoopId) (poller : Poller ChannelRef) : World :=
  w.setReactor l { w.reactors l with poller := poller }

def setPhase (w : World) (l : LoopId) (phase : Phase) : World :=
  w.setReactor l { w.reactors l with phase := phase }

def setChannel (w : World) (ref : ChannelRef) (channel : Channel) : World :=
  { w with channels := Function.update w.channels ref channel }

def setConn (w : World) (c : Nat) (conn : Option TcpConnection) : World :=
  { w with conns := Function.update w.conns c conn }

def setEndpoint (w : World) (c : Nat) (e : Endpoint) : World :=
  (w.setConn c (some e.conn)).setChannel (.conn c) e.channel

def log (w : World) (event : Event) : World := { w with trace := w.trace ++ [event] }

@[simp] theorem setReactor_self (w : World) (l : LoopId) (r : Reactor) :
    (w.setReactor l r).reactors l = r := Function.update_self ..

theorem setReactor_of_ne (w : World) {l l' : LoopId} (h : l' ≠ l) (r : Reactor) :
    (w.setReactor l r).reactors l' = w.reactors l' := Function.update_of_ne h ..

@[simp] theorem setConn_self (w : World) (c : Nat) (conn : Option TcpConnection) :
    (w.setConn c conn).conns c = conn := Function.update_self ..

theorem setConn_of_ne (w : World) {c c' : Nat} (h : c' ≠ c) (conn : Option TcpConnection) :
    (w.setConn c conn).conns c' = w.conns c' := Function.update_of_ne h ..

@[simp] theorem setChannel_self (w : World) (ref : ChannelRef) (channel : Channel) :
    (w.setChannel ref channel).channels ref = channel := Function.update_self ..

theorem setChannel_of_ne (w : World) {ref ref' : ChannelRef} (h : ref' ≠ ref)
    (channel : Channel) :
    (w.setChannel ref channel).channels ref' = w.channels ref' := Function.update_of_ne h ..

@[simp] theorem event_setEvent_self (w : World) (l : LoopId) (event : EventLoop Functor) :
    ((w.setEvent l event).reactors l).event = event := by
  simp [setEvent]

@[simp] theorem phase_setPhase_self (w : World) (l : LoopId) (phase : Phase) :
    ((w.setPhase l phase).reactors l).phase = phase := by
  simp [setPhase]

@[simp] theorem poller_setPoller_self (w : World) (l : LoopId) (poller : Poller ChannelRef) :
    ((w.setPoller l poller).reactors l).poller = poller := by
  simp [setPoller]

@[simp] theorem phase_setEvent (w : World) (l l' : LoopId) (event : EventLoop Functor) :
    ((w.setEvent l event).reactors l').phase = (w.reactors l').phase := by
  by_cases h : l' = l
  · subst h
    simp [setEvent]
  · rw [setEvent, setReactor_of_ne w h]

@[simp] theorem poller_setEvent (w : World) (l l' : LoopId) (event : EventLoop Functor) :
    ((w.setEvent l event).reactors l').poller = (w.reactors l').poller := by
  by_cases h : l' = l
  · subst h
    simp [setEvent]
  · rw [setEvent, setReactor_of_ne w h]

@[simp] theorem event_setPhase (w : World) (l l' : LoopId) (phase : Phase) :
    ((w.setPhase l phase).reactors l').event = (w.reactors l').event := by
  by_cases h : l' = l
  · subst h
    simp [setPhase]
  · rw [setPhase, setReactor_of_ne w h]

@[simp] theorem poller_setPhase (w : World) (l l' : LoopId) (phase : Phase) :
    ((w.setPhase l phase).reactors l').poller = (w.reactors l').poller := by
  by_cases h : l' = l
  · subst h
    simp [setPhase]
  · rw [setPhase, setReactor_of_ne w h]

@[simp] theorem event_setPoller (w : World) (l l' : LoopId) (poller : Poller ChannelRef) :
    ((w.setPoller l poller).reactors l').event = (w.reactors l').event := by
  by_cases h : l' = l
  · subst h
    simp [setPoller]
  · rw [setPoller, setReactor_of_ne w h]

@[simp] theorem phase_setPoller (w : World) (l l' : LoopId) (poller : Poller ChannelRef) :
    ((w.setPoller l poller).reactors l').phase = (w.reactors l').phase := by
  by_cases h : l' = l
  · subst h
    simp [setPoller]
  · rw [setPoller, setReactor_of_ne w h]

/-- The connection behind a plain pointer. -/
def endpoint (w : World) (c : Nat) : Except Fault Endpoint :=
  match w.conns c with
  | none => .error .dangling
  | some conn => .ok ⟨conn, w.channels (.conn c)⟩

def assertInLoopThread (w : World) (l : LoopId) (tid : ThreadId) : Except Fault PUnit :=
  ((w.reactors l).event.assertInLoopThread tid).mapError .loop

/-- `Channel::update`, that is `EventLoop::updateChannel` of the channel's loop. -/
def updateChannel (w : World) (tid : ThreadId) (ref : ChannelRef) : Except Fault World := do
  let channel := w.channels ref
  let l := channel.loop
  check (channel.ownerLoop = l) .updateChannelOwner
  w.assertInLoopThread l tid
  let (poller, channels) ←
    ((w.reactors l).poller.updateChannel w.channels ref).mapError .poller
  return { w.setPoller l poller with channels := channels }

/-- An interest method of a channel. -/
def changeInterest (w : World) (tid : ThreadId) (ref : ChannelRef) (i : Channel.Interest) :
    Except Fault World :=
  (w.setChannel ref ((w.channels ref).change i)).updateChannel tid ref

/-- `EventLoop::removeChannel` of the loop `l`. -/
def removeChannel (w : World) (tid : ThreadId) (l : LoopId) (ref : ChannelRef) :
    Except Fault World := do
  let channel := w.channels ref
  check (channel.ownerLoop = l) .removeChannelOwner
  w.assertInLoopThread l tid
  let (poller, channels) ←
    ((w.reactors l).poller.removeChannel w.channels ref).mapError .poller
  let w := w.log (.removeChannel ref (w.reactors l).phase.iterating)
  return { w.setPoller l poller with channels := channels }

def queueInLoop (w : World) (tid : ThreadId) (l : LoopId) (cb : Functor) :
    Except Fault World := do
  let event ← ((w.reactors l).event.queueInLoop tid cb).mapError .loop
  return w.setEvent l event

/-- Carry out a request of a connection. -/
def request (w : World) (tid : ThreadId) (c : Nat) (l : LoopId) :
    Request → Except Fault World
  | .write _ => .ok w
  | .update => w.updateChannel tid (.conn c)
  | .queueWriteComplete => w.queueInLoop tid l (.writeComplete c)
  | .shutdownWrite => .ok w

def requests (w : World) (tid : ThreadId) (c : Nat) (l : LoopId) :
    List Request → Except Fault World
  | [] => .ok w
  | q :: rest => do
      let w ← w.request tid c l q
      w.requests tid c l rest

/-- Store the outcome of a method of a connection and carry out its requests. -/
def commit (w : World) (tid : ThreadId) (c : Nat) (outcome : Endpoint × List Request) :
    Except Fault World :=
  (w.setEndpoint c outcome.1).requests tid c outcome.1.conn.loop outcome.2

def sendInLoop (w : World) (tid : ThreadId) (c : Nat) (message : List Byte) (r : WriteResult) :
    Except Fault World := do
  let e ← w.endpoint c
  w.assertInLoopThread e.conn.loop tid
  let outcome ← (e.sendInLoop message r).mapError .connection
  w.commit tid c outcome

def send (w : World) (tid : ThreadId) (c : Nat) (message : List Byte) (r : WriteResult) :
    Except Fault World :=
  match w.conns c with
  | none => .ok w
  | some conn =>
      if conn.state = .connected then
        if (w.reactors conn.loop).event.isInLoopThread tid then w.sendInLoop tid c message r
        else w.queueInLoop tid conn.loop (.sendInLoop c message)
      else .ok w

def shutdownInLoop (w : World) (tid : ThreadId) (c : Nat) : Except Fault World := do
  let e ← w.endpoint c
  w.assertInLoopThread e.conn.loop tid
  w.commit tid c (e, e.shutdownInLoop)

def shutdown (w : World) (tid : ThreadId) (c : Nat) : Except Fault World :=
  match w.conns c with
  | none => .ok w
  | some conn =>
      if conn.state = .connected then
        let w := w.setConn c (some { conn with state := .disconnecting })
        if (w.reactors conn.loop).event.isInLoopThread tid then w.shutdownInLoop tid c
        else w.queueInLoop tid conn.loop (.shutdownInLoop c)
      else .ok w

def addTimerInLoop (w : World) (tid : ThreadId) (l : LoopId) : Except Fault World := do
  w.assertInLoopThread l tid
  return w

def addTimer (w : World) (tid : ThreadId) (l : LoopId) : Except Fault World :=
  if (w.reactors l).event.isInLoopThread tid then w.addTimerInLoop tid l
  else w.queueInLoop tid l .addTimerInLoop

/-- A callback empties the input buffer it was handed. -/
def retrieveAsString (w : World) (c : Nat) : Except Fault World :=
  match w.conns c with
  | none => .ok w
  | some conn => do
      let (input, _) ← (conn.inputBuffer.retrieveAsString).mapError (.connection ∘ .buffer)
      return w.setConn c (some { conn with inputBuffer := input })

def userAct (w : World) (tid : ThreadId) : UserAct → Except Fault World
  | .send c message r => w.send tid c message r
  | .shutdown c => w.shutdown tid c
  | .retrieveAsString c => w.retrieveAsString c
  | .addTimer l => w.addTimer tid l

/-- A callback of the user. -/
def userCallback (w : World) (tid : ThreadId) : List UserAct → Except Fault World
  | [] => .ok w
  | act :: rest => do
      let w ← w.userAct tid act
      w.userCallback tid rest

def establishConnection (w : World) (tid : ThreadId) (c : Nat) (acts : List UserAct) :
    Except Fault World := do
  let e ← w.endpoint c
  w.assertInLoopThread e.conn.loop tid
  let outcome ← e.establishConnection.mapError .connection
  let w ← w.commit tid c outcome
  (w.log (.connectionCb c outcome.1.conn.state)).userCallback tid acts

/-- `EventLoopThreadPool::getNextLoop`. -/
def getNextLoop (w : World) (tid : ThreadId) : Except Fault (LoopId × World) := do
  w.assertInLoopThread 0 tid
  let pool := w.server.pool
  match pool.loops with
  | [] => return (0, w)
  | _ :: _ =>
      let next := if pool.loops.length ≤ pool.next + 1 then 0 else pool.next + 1
      return (pool.loops.getD pool.next 0,
        { w with server := { w.server with pool := { pool with next := next } } })

/-- The name `newConnection` gives to its connection. -/
def connName (s : TcpServer) : String := s.name ++ "#" ++ toString s.nextConnId

/-- `++next_conn_id_`. -/
def countConnection (w : World) : World :=
  { w with server := { w.server with nextConnId := w.server.nextConnId + 1 } }

/-- A new object, and `connections_[connName] = conn`. -/
def addConnection (w : World) (e : Endpoint) : World :=
  { w.setEndpoint w.nextObj e with
    nextObj := w.nextObj + 1
    server := { w.server with
      connections := w.server.connections.insert e.conn.name w.nextObj } }

def newConnection (w : World) (tid : ThreadId) (sockfd : Int) (memory : LoopId)
    (acts : List UserAct) : Except Fault World := do
  w.assertInLoopThread 0 tid
  let name := connName w.server
  check (w.server.nextConnId < intMax) .nextConnIdOverflow
  let (ioLoop, w) ← w.countConnection.getNextLoop tid
  let e := Endpoint.new ioLoop name sockfd w.server.writeCmplCb memory
  (w.addConnection e).establishConnection tid w.nextObj acts

/-- A descriptor returned by `accept(2)`. -/
def openFd (w : World) (fd : Int) : World := { w with openFds := insert fd w.openFds }

/-- `Acceptor::handleRead`, with what `accept(2)` returned. -/
def acceptorHandleRead (w : World) (tid : ThreadId) (connfd : Int) (memory : LoopId)
    (acts : List UserAct) : Except Fault World := do
  w.assertInLoopThread 0 tid
  if 0 ≤ connfd then (w.openFd connfd).newConnection tid connfd memory acts
  else return w

/-- `connections_.erase(name)`. -/
def eraseConnection (w : World) (name : String) : World :=
  { w with server := { w.server with connections := w.server.connections.erase name } }

def removeConnection (w : World) (tid : ThreadId) (c : Nat) : Except Fault World := do
  w.assertInLoopThread 0 tid
  let e ← w.endpoint c
  check (w.server.connections.contains e.conn.name) .removeConnectionCount
  ((w.eraseConnection e.conn.name).log (.removeConnection c)).queueInLoop tid 0
    (.destroyConnection c)

def handleClose (w : World) (tid : ThreadId) (c : Nat) : Except Fault World := do
  let e ← w.endpoint c
  w.assertInLoopThread e.conn.loop tid
  let outcome ← e.handleClose.mapError .connection
  let w ← w.commit tid c outcome
  (w.log (.handleClose c)).removeConnection tid c

def handleRead (w : World) (tid : ThreadId) (c : Nat) (r : Buffer.ReadResult)
    (acts : List UserAct) : Except Fault World := do
  let e ← w.endpoint c
  let (e, outcome) ← (e.handleRead r).mapError .connection
  let w := w.setEndpoint c e
  match outcome with
  | .message => (w.log (.messageCb c)).userCallback tid acts
  | .close => w.handleClose tid c
  | .error => return w

def handleWrite (w : World) (tid : ThreadId) (c : Nat) (r : WriteResult) :
    Except Fault World := do
  let e ← w.endpoint c
  w.assertInLoopThread e.conn.loop tid
  let outcome ← (e.handleWrite r).mapError .connection
  w.commit tid c outcome

def destroyConnection (w : World) (tid : ThreadId) (c : Nat) (acts : List UserAct) :
    Except Fault World := do
  let e ← w.endpoint c
  w.assertInLoopThread e.conn.loop tid
  let outcome ← e.destroyConnection.mapError .connection
  let w ← w.commit tid c outcome
  let w := (w.log (.destroyConnection c)).log (.connectionCb c outcome.1.conn.state)
  let w ← w.userCallback tid acts
  w.removeChannel tid e.conn.loop (.conn c)

/-- `listenning_ = true`. -/
def setListenning (w : World) : World :=
  { w with server := { w.server with listenning := true } }

/-- `Acceptor::listen`. -/
def listen (w : World) (tid : ThreadId) : Except Fault World := do
  w.assertInLoopThread 0 tid
  w.setListenning.changeInterest tid .acceptor .enableReading

/-- The threads of the pool run, each with its loop. -/
def startThreads (w : World) : World :=
  let pool := w.server.pool
  { w with server := { w.server with pool :=
    { pool with started := true, loops := pool.loops ++ List.range' 1 pool.numThreads } } }

/-- `EventLoopThreadPool::start`. -/
def poolStart (w : World) (tid : ThreadId) : Except Fault World := do
  check (w.server.pool.started = false) .poolStarted
  w.assertInLoopThread 0 tid
  return w.startThreads

/-- `started_ = true`. -/
def setStarted (w : World) : World := { w with server := { w.server with started := true } }

/-- The first statement of `TcpServer::start`. -/
def startPool (w : World) (tid : ThreadId) : Except Fault World :=
  if w.server.started then .ok w else w.setStarted.poolStart tid

/-- `TcpServer::start`. -/
def start (w : World) (tid : ThreadId) : Except Fault World := do
  let w ← w.startPool tid
  if w.server.listenning then return w
  else if (w.reactors 0).event.isInLoopThread tid then w.listen tid
  else w.queueInLoop tid 0 .listen

end World

end Yatwb
