import Yatwb.Buffer.Model
import Yatwb.Poller.Channel

/-!
# TCP connections

`TcpConnection` of `tcp_connection.h` and `tcp_connection.cpp`. A connection
owns its socket, its channel and its two buffers. The functions below are
the bodies of its methods up to what they ask of others: each returns the new
connection together with the requests it made, in order. A request to the
event loop, to the socket or to a callback gives nothing back, so a body is
determined by the connection and by the answers of `write(2)` and `readv(2)`.

## Implementation notes

`assertInLoopThread()` belongs to the event loop and is checked where the
methods are run. Log lines are left out. The errno of a failed write is read
for a log line only, so a failed write carries no errno.
-/

namespace Yatwb

open Foundation

/-- `TcpConnection::States`. -/
inductive States
  | connecting
  | connected
  | disconnecting
  | disconnected
  deriving DecidableEq, Repr

/-- The fields the methods read; `writeCmplCb` tells whether `write_cmpl_cb_` is set. -/
structure TcpConnection where
  loop : LoopId
  name : String
  state : States
  writeCmplCb : Bool
  inputBuffer : Buffer
  outputBuffer : Buffer
  deriving DecidableEq, Repr

/-- The asserts of the class, and the faults of its buffers. -/
inductive TcpConnection.Fault
  | buffer (f : Buffer.Fault)
  | sendInLoopNwrote
  | establishConnectionState
  | handleCloseState
  | destroyConnectionState
  deriving DecidableEq, Repr

/-- The answer of `write(2)`: an error, or the number of bytes taken. -/
inductive WriteResult
  | error
  | wrote (n : Nat)
  deriving DecidableEq, Repr

/-- The returned `ssize_t`. -/
def WriteResult.value : WriteResult → Int
  | .error => -1
  | .wrote n => n

/-- `write(2)` takes at most what it was offered. -/
def WriteResult.Within (len : Nat) : WriteResult → Prop
  | .error => True
  | .wrote n => n ≤ len

instance (len : Nat) : ∀ r : WriteResult, Decidable (r.Within len)
  | .error => isTrue trivial
  | .wrote n => inferInstanceAs (Decidable (n ≤ len))

/-- What a method asks of others, in the order of its statements. -/
inductive Request
  | write (taken : List Byte)
  | update
  | queueWriteComplete
  | shutdownWrite
  deriving DecidableEq, Repr

/-- A connection with the channel it owns. -/
structure Endpoint where
  conn : TcpConnection
  channel : Channel
  deriving DecidableEq, Repr

namespace Endpoint

open TcpConnection (Fault)

/-- The constructor, with the content of the memory of the channel's `owner_loop_`. -/
def new (loop : LoopId) (name : String) (sockfd : Int) (writeCmplCb : Bool)
    (memory : LoopId) : Endpoint where
  conn :=
    { loop := loop
      name := name
      state := .connecting
      writeCmplCb := writeCmplCb
      inputBuffer := Buffer.new
      outputBuffer := Buffer.new }
  channel := Channel.new loop sockfd memory

def isWriting (e : Endpoint) : Bool := e.channel.isWriting

/-- `output_buffer_.readableBytes()`. -/
def outstanding (e : Endpoint) : Nat := e.conn.outputBuffer.readableBytes

def setState (e : Endpoint) (s : States) : Endpoint := { e with conn := { e.conn with state := s } }

def setOutput (e : Endpoint) (b : Buffer) : Endpoint :=
  { e with conn := { e.conn with outputBuffer := b } }

/-- An interest method of the channel, which ends with `update()`. -/
def change (e : Endpoint) (i : Channel.Interest) : Endpoint × List Request :=
  ({ e with channel := e.channel.change i }, [.update])

/-- Lift a fault of a buffer. -/
def ofBuffer {α : Type} (x : Except Buffer.Fault α) : Except Fault α :=
  x.mapError .buffer

/-- Whether `sendInLoop` writes at once. -/
def writesDirectly (e : Endpoint) : Bool := !e.isWriting && e.outstanding == 0

/-- The first part of `sendInLoop`: the immediate write and its count. -/
def directWrite (e : Endpoint) (message : List Byte) (r : WriteResult) : Int × List Request :=
  if e.writesDirectly then
    let nwrote := r.value
    if 0 ≤ nwrote then
      let taken : Request := .write (message.take nwrote.toNat)
      if nwrote.toNat < message.length then (nwrote, [taken])
      else if e.conn.writeCmplCb then (nwrote, [taken, .queueWriteComplete])
      else (nwrote, [taken])
    else (0, [])
  else (0, [])

def sendInLoop (e : Endpoint) (message : List Byte) (r : WriteResult) :
    Except Fault (Endpoint × List Request) := do
  let (nwrote, asked) := e.directWrite message r
  check (0 ≤ nwrote) .sendInLoopNwrote
  if nwrote.toNat < message.length then
    let output ← ofBuffer (e.conn.outputBuffer.append (message.drop nwrote.toNat))
    let e := e.setOutput output
    if e.isWriting then return (e, asked)
    else
      let (e, update) := e.change .enableWriting
      return (e, asked ++ update)
  else return (e, asked)

/-- `send` after its check of `state_`: whether it goes on to `sendInLoop`. -/
def sends (e : Endpoint) : Bool := e.conn.state == .connected

/-- `shutdown`: whether it asks the loop to run `shutdownInLoop`. -/
def shutdown (e : Endpoint) : Endpoint × Bool :=
  if e.conn.state = .connected then (e.setState .disconnecting, true) else (e, false)

def shutdownInLoop (e : Endpoint) : List Request :=
  if e.isWriting then [] else [.shutdownWrite]

/-- `establishConnection` before its call of `connection_cb_`. -/
def establishConnection (e : Endpoint) : Except Fault (Endpoint × List Request) := do
  check (e.conn.state = .connecting) .establishConnectionState
  return (e.setState .connected).change .enableReading

/-- What `handleRead` does with the count it read. -/
inductive ReadOutcome
  | message
  | close
  | error
  deriving DecidableEq, Repr

/-- `handleRead` before its call of `message_cb_`, `handleClose` or `handleError`. -/
def handleRead (e : Endpoint) (r : Buffer.ReadResult) :
    Except Fault (Endpoint × ReadOutcome) := do
  let (input, n, _) ← ofBuffer (e.conn.inputBuffer.readFd r)
  let e := { e with conn := { e.conn with inputBuffer := input } }
  if 0 < n then return (e, .message)
  else if n = 0 then return (e, .close)
  else return (e, .error)

def handleWrite (e : Endpoint) (r : WriteResult) : Except Fault (Endpoint × List Request) :=
  if e.isWriting then
    if 0 < r.value then do
      let taken : Request := .write (e.conn.outputBuffer.content.take r.value.toNat)
      let output ← ofBuffer (e.conn.outputBuffer.retrieve r.value.toNat)
      let e := e.setOutput output
      if e.outstanding = 0 then
        let (e, update) := e.change .disableWriting
        let complete := if e.conn.writeCmplCb then [.queueWriteComplete] else []
        let last := if e.conn.state = .disconnecting then e.shutdownInLoop else []
        return (e, [taken] ++ update ++ complete ++ last)
      else return (e, [taken])
    else return (e, [])
  else return (e, [])

/-- `handleClose` before its call of `close_cb_`. -/
def handleClose (e : Endpoint) : Except Fault (Endpoint × List Request) := do
  check (e.conn.state = .connected ∨ e.conn.state = .disconnecting) .handleCloseState
  return e.change .disableAllEvents

/-- `destroyConnection` before its call of `connection_cb_`. -/
def destroyConnection (e : Endpoint) : Except Fault (Endpoint × List Request) := do
  check (e.conn.state = .connected ∨ e.conn.state = .disconnecting) .destroyConnectionState
  return (e.setState .disconnected).change .disableAllEvents

end Endpoint

end Yatwb
