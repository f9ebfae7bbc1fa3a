import Yatwb.Server.Lifecycle

/-!
# The echo server

`EchoServer` of `example/echo.h` and `example/echo.cpp`, run by the loop of
`example/main.cpp`: one event loop, no pool threads, no timers and no other
thread. A run is a run of the server whose callbacks make the calls of
`EchoServer`, together with what `readv(2)` has returned and `write(2)` has
taken on each connection.

## Implementation notes

The history is kept beside the world, and no step reads it. What a step writes
is the answer of the method of the connection that the step runs. The lines
that the callbacks print are left out.
-/

namespace Yatwb

open Foundation

/-- The bytes that `readv(2)` returned. -/
def Buffer.ReadResult.data : Buffer.ReadResult → List Byte
  | .received data => data
  | .error _ => []

/-- The callback of a connection that the loop `l` runs next. -/
def World.current (w : World) (l : LoopId) : Option (Nat × Channel.Callback) :=
  match (w.reactors l).phase with
  | .handling (.conn c) (cb :: _) _ => some (c, cb)
  | _ => none

structure EchoServer where
  world : World
  received : Nat → List Byte
  transmitted : Nat → List Byte

namespace EchoServer

open World (Action Fault Initial Undisturbed)

/-- `EchoServer::onConnection` makes no call. -/
def onConnection : List UserAct := []

/-- `EchoServer::onMessage` sends what `retrieveAsString` returns. -/
def onMessage (c : Nat) (text : List Byte) (r : WriteResult) : List UserAct :=
  [.retrieveAsString c, .send c text r]

/-- What `retrieveAsString` returns after `readFd`. -/
def text (conn : TcpConnection) (r : Buffer.ReadResult) : List Byte :=
  let message : Except Buffer.Fault (List Byte) := do
    let (input, _, _) ← conn.inputBuffer.readFd r
    let (_, text) ← input.retrieveAsString
    return text
  message.toOption.getD []

/-- `handleRead` of a connection, with `onMessage` as its message callback. -/
def handleRead (e : Endpoint) (x : Answers) :
    Except TcpConnection.Fault (Endpoint × List Request) := do
  let (e, outcome) ← e.handleRead x.read
  if outcome = .message then
    let (input, text) ← Endpoint.ofBuffer e.conn.inputBuffer.retrieveAsString
    let e := { e with conn := { e.conn with inputBuffer := input } }
    if e.sends then e.sendInLoop text x.write else return (e, [])
  else return (e, [])

/-- The calls that the callbacks of the server make. -/
def acts (w : World) (l : LoopId) (x : Answers) : List UserAct :=
  match w.current l with
  | some (c, .read) => (w.conns c).elim [] fun conn => onMessage c (text conn x.read) x.write
  | _ => onConnection

/-- The action with the calls of the server. -/
def answer (w : World) : Action → Action
  | .callback l x => .callback l { x with acts := acts w l x }
  | .functor l x => .functor l { x with acts := onConnection }
  | a => a

/-- The bytes that `write(2)` took. -/
def taken (outcome : Except TcpConnection.Fault (Endpoint × List Request)) : List Byte :=
  outcome.toOption.elim [] fun o => sentBytes o.2

/-- What the method of the connection does that the loop runs next. -/
def method (w : World) (x : Answers) (c : Nat) (conn : TcpConnection) :
    Channel.Callback → Except TcpConnection.Fault (Endpoint × List Request)
  | .read => handleRead ⟨conn, w.channels (.conn c)⟩ x
  | .write => Endpoint.handleWrite ⟨conn, w.channels (.conn c)⟩ x.write
  | _ => .ok (⟨conn, w.channels (.conn c)⟩, [])

/-- The bytes that arrive on the connection `c`. -/
def arriving (w : World) : Action → Nat → List Byte
  | .callback l x, c => if w.current l = some (c, .read) then x.read.data else []
  | _, _ => []

/-- The bytes that leave on the connection `c`. -/
def leaving (w : World) : Action → Nat → List Byte
  | .callback l x, c =>
      match w.current l, w.conns c with
      | some (c', cb), some conn => if c' = c then taken (method w x c conn cb) else []
      | _, _ => []
  | _, _ => []

/-- The history after an action that leaves the world `w`. -/
def after (s : EchoServer) (a : Action) (w : World) : EchoServer where
  world := w
  received c := s.received c ++ arriving s.world a c
  transmitted c := s.transmitted c ++ leaving s.world a c

def step (s : EchoServer) (a : Action) : Except Fault EchoServer := do
  let w ← s.world.step (answer s.world a)
  return s.after a w

/-- The bytes that the next callback of the loop `l` may hand to `write(2)`. -/
def offered (w : World) (l : LoopId) (x : Answers) : Option (List Byte) :=
  match w.current l with
  | some (c, .read) => (w.conns c).map fun conn => text conn x.read
  | some (c, .write) => (w.conns c).map fun conn => conn.outputBuffer.content
  | _ => none

/-- `write(2)` takes no more than it was offered. -/
def TakesOffered (w : World) : Action → Prop
  | .callback l x => ∀ bytes ∈ offered w l x, x.write.Within bytes.length
  | _ => True

/-- A new channel finds its loop in `owner_loop_`, and the connections can be counted. -/
def Accepts (w : World) : Action → Prop
  | .callback _ x => 0 ≤ x.connfd → x.memory = 0 ∧ w.server.nextConnId < World.intMax
  | _ => True

instance (w : World) : ∀ a, Decidable (TakesOffered w a)
  | .callback l x =>
      inferInstanceAs (Decidable (∀ bytes ∈ offered w l x, x.write.Within bytes.length))
  | .start | .wire _ | .enterLoop _ | .pollReturn _ _ _ | .nextChannel _ | .endChannel _
  | .doPendingFunctors _ | .functor _ _ | .endFunctors _ | .send _ _ _ | .shutdown _ _
  | .destroy _ => isTrue trivial

instance (w : World) : ∀ a, Decidable (Accepts w a)
  | .callback _ x => inferInstanceAs
      (Decidable (0 ≤ x.connfd → x.memory = 0 ∧ w.server.nextConnId < World.intMax))
  | .start | .wire _ | .enterLoop _ | .pollReturn _ _ _ | .nextChannel _ | .endChannel _
  | .doPendingFunctors _ | .functor _ _ | .endFunctors _ | .send _ _ _ | .shutdown _ _
  | .destroy _ => isTrue trivial

/-- No other thread, a kernel as it should be, and no read after its own hang-up. -/
structure Fair (s : EchoServer) (a : Action) : Prop where
  undisturbed : Undisturbed s.world a
  early : s.world.lateRead a = false
  offered : TakesOffered s.world a
  accepts : Accepts s.world a

instance (s : EchoServer) (a : Action) : Decidable (Fair s a) :=
  decidable_of_iff (Undisturbed s.world a ∧ s.world.lateRead a = false ∧
      TakesOffered s.world a ∧ Accepts s.world a)
    ⟨fun h => ⟨h.1, h.2.1, h.2.2.1, h.2.2.2⟩,
      fun h => ⟨h.undisturbed, h.early, h.offered, h.accepts⟩⟩

/-- A server that has been constructed, whose channels find their loop in `owner_loop_`. -/
structure Constructed (s : EchoServer) : Prop where
  initial : Initial 0 s.world
  owner : ∀ ref, World.Standing 0 ref → (s.world.channels ref).ownerLoop = 0
  writeCmplCb : s.world.server.writeCmplCb = false
  received : ∀ c, s.received c = []
  transmitted : ∀ c, s.transmitted c = []

/-- A server just constructed, before its first connection. -/
def fresh : EchoServer := ⟨World.fresh 0, fun _ => [], fun _ => []⟩

theorem constructed_fresh : Constructed fresh where
  initial := World.initial_fresh 0
  owner ref href := by
    cases ref with
    | acceptor => rfl
    | timer l => exact Nat.le_zero.mp href
    | wakeup l => exact Nat.le_zero.mp href
    | conn c => exact href.elim
  writeCmplCb := rfl
  received _ := rfl
  transmitted _ := rfl

def machine : Machine (Except Fault EchoServer) Action := faulting Constructed step

abbrev Reach (s : Except Fault EchoServer) : Prop := machine.Reach (whileRunning Fair) s

end EchoServer

end Yatwb
