import Yatwb.Connection.WritePaths
import Yatwb.Foundation.Machine

/-!
# Sessions of a connection

A session is a connection together with what has happened to it: the bytes
the kernel took, the messages given to `sendInLoop` and the requests of the
last step. A run takes any of the methods in any order, with any answer of
`write(2)` and `readv(2)` that the calls allow.

Every byte given to `sendInLoop` is either transmitted or in the output
buffer, in the order of the messages. Nothing else is needed of the order of
the steps, so this holds for every run until an assert on `state_` ends it.
-/

namespace Yatwb

open Foundation

namespace Endpoint

/-- All fields but the output buffer and the channel are the same. -/
def SameButOutput (e e' : Endpoint) : Prop :=
  e'.conn = { e.conn with outputBuffer := e'.conn.outputBuffer }

theorem SameButOutput.state_eq {e e' : Endpoint} (h : e.SameButOutput e') :
    e'.conn.state = e.conn.state := by
  rw [h]

theorem SameButOutput.inputBuffer_eq {e e' : Endpoint} (h : e.SameButOutput e') :
    e'.conn.inputBuffer = e.conn.inputBuffer := by
  rw [h]

/-- What both write paths keep: with `message` the bytes that came in, nothing
is lost, nothing is repeated, and what is taken is taken from the front. -/
structure Conserves (e : Endpoint) (message : List Byte) (e' : Endpoint)
    (asked : List Request) : Prop where
  same : e.SameButOutput e'
  output : e'.conn.outputBuffer.Inv
  bytes : sentBytes asked ++ e'.pending = e.pending ++ message

theorem sentBytes_complete (e : Endpoint) : sentBytes e.complete = [] := by
  unfold complete
  split <;> rfl

theorem sendInLoop_conserves {e : Endpoint} (h : e.conn.outputBuffer.Inv) {message : List Byte}
    {r : WriteResult} (hr : r.Within message.length) :
    ∃ e' asked, e.sendInLoop message r = .ok (e', asked) ∧ e.Conserves message e' asked := by
  rcases sendInLoop_cases h message hr with
    ⟨hall, hs⟩ | ⟨-, ⟨rfl, hs⟩ | ⟨hd, b, asked, hb, -, hbytes, -, -, hs⟩ |
      ⟨-, b, hb, hcontent, -, hs⟩⟩
  · refine ⟨_, _, hs, rfl, h, ?_⟩
    have hd := writesDirectly_of_writesAll hall
    have hnil := (pending_eq_nil_iff h).mpr (writesDirectly_iff.mp hd).2
    simp [sentBytes_complete, hnil]
  · exact ⟨_, _, hs, rfl, h, by simp⟩
  · refine ⟨_, _, hs, rfl, hb, ?_⟩
    have hnil := (pending_eq_nil_iff h).mpr (writesDirectly_iff.mp hd).2
    rw [hnil, List.nil_append, ← hbytes]
    rfl
  · rcases hs with ⟨-, hs⟩ | ⟨-, hs⟩
    · exact ⟨_, _, hs, rfl, hb, hcontent⟩
    · exact ⟨_, _, hs, rfl, hb, hcontent⟩

theorem handleWrite_conserves {e : Endpoint} (h : e.conn.outputBuffer.Inv) {r : WriteResult}
    (hr : r.Within e.outstanding) :
    ∃ e' asked, e.handleWrite r = .ok (e', asked) ∧ e.Conserves [] e' asked := by
  rcases handleWrite_cases h hr with
    hs | ⟨-, b, n, hb, hcontent, -, hs⟩ | ⟨-, b, hb, hcontent, hs⟩
  · exact ⟨_, _, hs, rfl, h, by simp⟩
  · refine ⟨_, _, hs, rfl, hb, ?_⟩
    simp [hcontent]
  · refine ⟨_, _, hs, rfl, hb, ?_⟩
    have hpending : (((e.setOutput b).change .disableWriting).1).pending = [] := hcontent
    rw [hpending]
    cases hcb : e.conn.writeCmplCb <;> by_cases hst : e.conn.state = .disconnecting <;>
      simp [complete, hcb, hst]

/-- `handleRead` changes the input buffer only. -/
theorem handleRead_spec {e : Endpoint} (h : e.conn.inputBuffer.Inv) (r : Buffer.ReadResult) :
    ∃ b outcome, b.Inv ∧
      e.handleRead r = .ok ({ e with conn := { e.conn with inputBuffer := b } }, outcome) ∧
      (outcome = .close ↔ r = .received []) := by
  cases r with
  | error errno =>
      exact ⟨e.conn.inputBuffer, .error, h, rfl, by simp⟩
  | received data =>
      obtain ⟨b, hb, hinv, -⟩ := Buffer.readFd_received h data
      have hread : e.handleRead (.received data) =
          if 0 < (data.length : Int) then
            .ok ({ e with conn := { e.conn with inputBuffer := b } }, .message)
          else if (data.length : Int) = 0 then
            .ok ({ e with conn := { e.conn with inputBuffer := b } }, .close)
          else .ok ({ e with conn := { e.conn with inputBuffer := b } }, .error) := by
        simp only [handleRead, ofBuffer_ok hb]
        rfl
      cases data with
      | nil => exact ⟨b, .close, hinv, hread, by simp⟩
      | cons x xs =>
          refine ⟨b, .message, hinv, ?_, by simp⟩
          rw [hread, if_pos (by simp)]

/-- The states in which `handleClose` and `destroyConnection` may run. -/
def Open (e : Endpoint) : Prop := e.conn.state = .connected ∨ e.conn.state = .disconnecting

instance (e : Endpoint) : Decidable e.Open := inferInstanceAs (Decidable (_ ∨ _))

theorem establishConnection_eq (e : Endpoint) : e.establishConnection =
    if e.conn.state = .connecting then .ok ((e.setState .connected).change .enableReading)
    else .error .establishConnectionState := by
  by_cases h : e.conn.state = .connecting <;>
    simp [establishConnection, check, h, bind, Except.bind, pure, Except.pure]

theorem handleClose_eq (e : Endpoint) : e.handleClose =
    if e.Open then .ok (e.change .disableAllEvents) else .error .handleCloseState := by
  by_cases h : e.conn.state = .connected ∨ e.conn.state = .disconnecting <;>
    simp [handleClose, Open, check, h, bind, Except.bind, pure, Except.pure]

theorem destroyConnection_eq (e : Endpoint) : e.destroyConnection =
    if e.Open then .ok ((e.setState .disconnected).change .disableAllEvents)
    else .error .destroyConnectionState := by
  by_cases h : e.conn.state = .connected ∨ e.conn.state = .disconnecting <;>
    simp [destroyConnection, Open, check, h, bind, Except.bind, pure, Except.pure]

end Endpoint

/-- A connection and its history. `owed` counts the `shutdownInLoop` functors
that `shutdown` asked for and that have not run. -/
structure Session where
  endpoint : Endpoint
  transmitted : List Byte
  given : List (List Byte)
  asked : List Request
  owed : Nat
  shutdownRan : Bool
  halfClosed : Bool
  deriving DecidableEq, Repr

namespace Session

open TcpConnection (Fault)

/-- The methods of a connection, with the answers of the kernel. -/
inductive Action
  | establishConnection
  | sendInLoop (message : List Byte) (r : WriteResult)
  | handleWrite (r : WriteResult)
  | handleRead (r : Buffer.ReadResult)
  | shutdown
  | shutdownInLoop
  | handleClose
  | destroyConnection
  deriving DecidableEq, Repr

/-- A connection at the beginning of its history. -/
def start (e : Endpoint) : Session where
  endpoint := e
  transmitted := []
  given := []
  asked := []
  owed := 0
  shutdownRan := false
  halfClosed := false

/-- The body of a method. A read that returns nothing goes on to `handleClose`. -/
def Action.perform (e : Endpoint) : Action → Except Fault (Endpoint × List Request)
  | .establishConnection => e.establishConnection
  | .sendInLoop message r => e.sendInLoop message r
  | .handleWrite r => e.handleWrite r
  | .handleRead r => do
      let (e, outcome) ← e.handleRead r
      if outcome = .close then e.handleClose else return (e, [])
  | .shutdown => .ok (e.shutdown.1, [])
  | .shutdownInLoop => .ok (e, e.shutdownInLoop)
  | .handleClose => e.handleClose
  | .destroyConnection => e.destroyConnection

/-- The message a step hands to `sendInLoop`, if any. -/
def Action.messages : Action → List (List Byte)
  | .sendInLoop message _ => [message]
  | _ => []

/-- The functors owed after a step. -/
def Action.owes (e : Endpoint) (owed : Nat) : Action → Nat
  | .shutdown => if e.shutdown.2 then owed + 1 else owed
  | .shutdownInLoop => owed - 1
  | _ => owed

/-- Record the outcome of a step. -/
def record (s : Session) (a : Action) (outcome : Endpoint × List Request) : Session where
  endpoint := outcome.1
  transmitted := s.transmitted ++ sentBytes outcome.2
  given := s.given ++ a.messages
  asked := outcome.2
  owed := a.owes s.endpoint s.owed
  shutdownRan := s.shutdownRan || a == .shutdownInLoop || outcome.2.contains .shutdownWrite
  halfClosed := s.halfClosed || outcome.2.contains .shutdownWrite

def step (s : Session) (a : Action) : Except Fault Session := do
  let outcome ← a.perform s.endpoint
  return s.record a outcome

/-- `write(2)` takes at most what it is offered. -/
def Kernel (s : Session) : Action → Prop
  | .sendInLoop message r => r.Within message.length
  | .handleWrite r => r.Within s.endpoint.outstanding
  | _ => True

instance (s : Session) : ∀ a, Decidable (Kernel s a)
  | .sendInLoop message r => inferInstanceAs (Decidable (r.Within message.length))
  | .handleWrite r => inferInstanceAs (Decidable (r.Within s.endpoint.outstanding))
  | .establishConnection | .handleRead _ | .shutdown | .shutdownInLoop | .handleClose
  | .destroyConnection => isTrue trivial

/-- A connection fresh from its constructor, with nothing done to it yet. -/
def Fresh (s : Session) : Prop :=
  ∃ loop name sockfd writeCmplCb memory,
    s = start (Endpoint.new loop name sockfd writeCmplCb memory)

def machine : Machine (Except Fault Session) Action := faulting Fresh step

/-- The states of runs in any order of the steps. -/
abbrev Reach (s : Except Fault Session) : Prop := machine.Reach (whileRunning Kernel) s

/-- Transmitted bytes and pending bytes are the given messages. -/
structure Stream (s : Session) : Prop where
  input : s.endpoint.conn.inputBuffer.Inv
  output : s.endpoint.conn.outputBuffer.Inv
  bytes : s.transmitted ++ s.endpoint.pending = s.given.flatten

/-- The asserts on `state_`. -/
def StateAssert (f : Fault) : Prop :=
  f = .establishConnectionState ∨ f = .handleCloseState ∨ f = .destroyConnectionState

theorem Fresh.stream {s : Session} (h : Fresh s) : Stream s := by
  obtain ⟨loop, name, sockfd, writeCmplCb, memory, rfl⟩ := h
  exact ⟨Buffer.new_inv, Buffer.new_inv, Buffer.new_content⟩

theorem sentBytes_shutdownInLoop (e : Endpoint) : sentBytes e.shutdownInLoop = [] := by
  unfold Endpoint.shutdownInLoop
  split <;> rfl

/-- An endpoint with sound buffers that has lost or repeated no byte. -/
structure Kept (e : Endpoint) (message : List Byte) (e' : Endpoint) (asked : List Request) :
    Prop where
  input : e'.conn.inputBuffer.Inv
  output : e'.conn.outputBuffer.Inv
  bytes : sentBytes asked ++ e'.pending = e.pending ++ message

/-- A method that leaves both buffers and the socket alone. -/
theorem Kept.untouched {e e' : Endpoint} {asked : List Request}
    (hinput : e.conn.inputBuffer.Inv) (houtput : e.conn.outputBuffer.Inv)
    (hin : e'.conn.inputBuffer = e.conn.inputBuffer)
    (hout : e'.conn.outputBuffer = e.conn.outputBuffer) (hasked : sentBytes asked = []) :
    Kept e [] e' asked := by
  refine ⟨hin ▸ hinput, hout ▸ houtput, ?_⟩
  have hpending : e'.pending = e.pending := congrArg Buffer.content hout
  rw [hasked, hpending, List.nil_append, List.append_nil]

theorem handleClose_cases {s : Session} (h : Stream s) {e : Endpoint}
    (hin : e.conn.inputBuffer.Inv)
    (hout : e.conn.outputBuffer = s.endpoint.conn.outputBuffer) :
    (∃ f, e.handleClose = .error f ∧ StateAssert f) ∨
      ∃ e' asked, e.handleClose = .ok (e', asked) ∧ Kept s.endpoint [] e' asked := by
  rw [Endpoint.handleClose_eq]
  split
  · refine Or.inr ⟨_, _, rfl, hin, hout ▸ h.output, ?_⟩
    have hpending : e.pending = s.endpoint.pending := congrArg Buffer.content hout
    rw [List.append_nil, ← hpending]
    rfl
  · exact Or.inl ⟨_, rfl, Or.inr (Or.inl rfl)⟩

/-- Every method either fails an assert on `state_` or keeps the bytes. -/
theorem perform_cases {s : Session} (h : Stream s) {a : Action} (hk : Kernel s a) :
    (∃ f, a.perform s.endpoint = .error f ∧ StateAssert f) ∨
      ∃ e asked, a.perform s.endpoint = .ok (e, asked) ∧
        Kept s.endpoint a.messages.flatten e asked := by
  cases a with
  | establishConnection =>
      rw [Action.perform, Endpoint.establishConnection_eq]
      split
      · exact Or.inr ⟨_, _, rfl, Kept.untouched h.input h.output rfl rfl rfl⟩
      · exact Or.inl ⟨_, rfl, Or.inl rfl⟩
  | sendInLoop message r =>
      right
      obtain ⟨e, asked, hs, hc⟩ := Endpoint.sendInLoop_conserves h.output hk
      refine ⟨e, asked, hs, hc.same.inputBuffer_eq ▸ h.input, hc.output, ?_⟩
      simpa [Action.messages] using hc.bytes
  | handleWrite r =>
      right
      obtain ⟨e, asked, hs, hc⟩ := Endpoint.handleWrite_conserves h.output hk
      exact ⟨e, asked, hs, hc.same.inputBuffer_eq ▸ h.input, hc.output, hc.bytes⟩
  | handleRead r =>
      obtain ⟨b, outcome, hb, hs, -⟩ := Endpoint.handleRead_spec h.input r
      simp only [Action.perform, hs, bind, Except.bind]
      split
      · exact handleClose_cases h hb rfl
      · exact Or.inr ⟨_, _, rfl, hb, h.output, by simp [Action.messages, Endpoint.pending]⟩
  | shutdown =>
      right
      refine ⟨_, _, rfl, ?_⟩
      unfold Endpoint.shutdown
      split <;> exact Kept.untouched h.input h.output rfl rfl rfl
  | shutdownInLoop =>
      right
      exact ⟨_, _, rfl,
        Kept.untouched h.input h.output rfl rfl (sentBytes_shutdownInLoop s.endpoint)⟩
  | handleClose => exact handleClose_cases h h.input rfl
  | destroyConnection =>
      rw [Action.perform, Endpoint.destroyConnection_eq]
      split
      · exact Or.inr ⟨_, _, rfl, Kept.untouched h.input h.output rfl rfl rfl⟩
      · exact Or.inl ⟨_, rfl, Or.inr (Or.inr rfl)⟩

theorem Stream.record {s : Session} (h : Stream s) {a : Action} {e : Endpoint}
    {asked : List Request} (hkept : Kept s.endpoint a.messages.flatten e asked) :
    Stream (s.record a (e, asked)) := by
  refine ⟨hkept.input, hkept.output, ?_⟩
  calc s.transmitted ++ sentBytes asked ++ e.pending
      = s.transmitted ++ s.endpoint.pending ++ a.messages.flatten := by
        rw [List.append_assoc, hkept.bytes, List.append_assoc]
    _ = (s.given ++ a.messages).flatten := by rw [h.bytes, List.flatten_append]

/-- The step lemma: a step keeps the stream or fails an assert on `state_`. -/
theorem Stream.step {s : Session} (h : Stream s) {a : Action} (hk : Kernel s a) :
    Ends Stream StateAssert (s.step a) := by
  rcases perform_cases h hk with ⟨f, hf, hassert⟩ | ⟨e, asked, hs, hkept⟩
  · rw [Session.step, hf]
    exact hassert
  · rw [Session.step, hs]
    exact h.record hkept

/-- The run lemma: until an assert on `state_` ends the run, no byte is lost,
repeated or reordered. -/
theorem stream_of_reach {s : Except Fault Session} (h : Reach s) : Ends Stream StateAssert s :=
  ends_of_reach (fun _ => Fresh.stream) (fun _ _ h hk => h.step hk) h

end Session

end Yatwb
