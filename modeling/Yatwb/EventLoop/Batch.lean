import Yatwb.Connection.Frames
import Yatwb.Connection.Session
import Yatwb.EventLoop.Model
import Mathlib.Logic.Function.Iterate

/-!
# Functors that queue functors

`doPendingFunctors` runs a batch of functors, each of which may call back into
the loop. The `lock_guard` in it stands before the loop over the functors and
is released only at the end of the function, so the mutex is held while they
run. A functor that reaches `queueInLoop` of the same loop therefore locks
`mutex_` a second time. The theorem gives the batches for which this happens.

## Implementation notes

A functor is described by the calls it makes, in order. The connections it
calls are those of the loop; the answers of `write(2)` are part of the
description. What other threads queue are calls of `sendInLoop` and
`shutdownInLoop` with a plain `this`, so the object may be gone when they run.
Of the poller a connection shows whether its channel has been removed: an
update of a removed channel fails the asserts of `Poller::updateChannel`.
-/

namespace Yatwb

open Foundation

/-- A call of a method of a connection, by the thread of its loop. -/
inductive ConnCall
  | send (message : List Byte) (r : { r : WriteResult // r.Within message.length })
  | sendInLoop (message : List Byte) (r : { r : WriteResult // r.Within message.length })
  | shutdown
  | shutdownInLoop
  | setWriteCallback (isSet : Bool)

/-- What a functor does: nothing more, or one call and then the rest. A call on
a connection carries the functor that its write-complete callback would be bound
to, a `removeConnection` the destruction it queues, and a `destroyConnection`
the calls of the connection callback. A functor may also let go of the last pointer
to a connection that no functor of a destruction holds. -/
inductive Task
  | done
  | queueInLoop (cb next : Task)
  | runInLoop (cb next : Task)
  | method (c : Nat) (call : ConnCall) (writeCmplCb next : Task)
  | removeConnection (destroyConnection next : Task)
  | destroyConnection (c : Nat) (connectionCb next : Task)
  | release (c : Nat) (next : Task)

/-- A connection of the loop: whether the object still exists, and whether
`removeChannel` has removed its channel. -/
structure LoopConn where
  endpoint : Endpoint
  alive : Bool
  removed : Bool

/-- A loop with the connections it serves. -/
structure Served where
  loop : EventLoop Task
  conns : Nat → LoopConn

/-- The body of a call. On its own thread the loop runs `shutdownInLoop` at once. -/
def ConnCall.perform (e : Endpoint) :
    ConnCall → Except TcpConnection.Fault (Endpoint × List Request)
  | .send message r => if e.sends then e.sendInLoop message r.val else .ok (e, [])
  | .sendInLoop message r => e.sendInLoop message r.val
  | .shutdown => .ok (e.shutdown.1, if e.shutdown.2 then e.shutdown.1.shutdownInLoop else [])
  | .shutdownInLoop => .ok (e, e.shutdownInLoop)
  | .setWriteCallback isSet => .ok ({ e with conn := { e.conn with writeCmplCb := isSet } }, [])

namespace Served

inductive Fault
  | loop (f : EventLoop.Fault)
  | connection (f : TcpConnection.Fault)
  | dangling
  | updateRemoved
  | removeRemoved
  | removeNoneEvent
  deriving DecidableEq, Repr

/-- The connection has changed. -/
def setEndpoint (conns : Nat → LoopConn) (c : Nat) (e : Endpoint) : Nat → LoopConn :=
  Function.update conns c { conns c with endpoint := e }

/-- The channel of the connection has been removed. -/
def setRemoved (conns : Nat → LoopConn) (c : Nat) : Nat → LoopConn :=
  Function.update conns c { conns c with removed := true }

/-- The connection is gone. -/
def released (conns : Nat → LoopConn) (c : Nat) : Nat → LoopConn :=
  Function.update conns c { conns c with alive := false }

def queueInLoop (s : Served) (tid : ThreadId) (cb : Task) : Except Fault Served := do
  let loop ← (s.loop.queueInLoop tid cb).mapError .loop
  return { s with loop := loop }

/-- Carry out the requests of a connection. Those to the socket concern nobody else. -/
def request (tid : ThreadId) (c : Nat) (writeCmplCb : Task) :
    List Request → Served → Except Fault Served
  | [], s => .ok s
  | .queueWriteComplete :: rest, s => do
      let s ← s.queueInLoop tid writeCmplCb
      request tid c writeCmplCb rest s
  | .update :: rest, s => do
      check ((s.conns c).removed = false) .updateRemoved
      request tid c writeCmplCb rest s
  | _ :: rest, s => request tid c writeCmplCb rest s

def call (s : Served) (tid : ThreadId) (c : Nat) (call : ConnCall) (writeCmplCb : Task) :
    Except Fault Served := do
  check (s.conns c).alive .dangling
  let (e, asked) ← (call.perform (s.conns c).endpoint).mapError .connection
  request tid c writeCmplCb asked { s with conns := setEndpoint s.conns c e }

/-- `TcpConnection::destroyConnection` before its call of `connection_cb_`. -/
def disconnect (s : Served) (tid : ThreadId) (c : Nat) : Except Fault Served := do
  let (e, asked) ← ((s.conns c).endpoint.destroyConnection).mapError .connection
  request tid c .done asked { s with conns := setEndpoint s.conns c e }

def removeChannel (s : Served) (c : Nat) : Except Fault Served := do
  check ((s.conns c).removed = false) .removeRemoved
  check ((s.conns c).endpoint.channel.isNoneEvent) .removeNoneEvent
  return { s with conns := setRemoved s.conns c }

/-- Run a functor on the thread `tid`. -/
def run (tid : ThreadId) : Task → Served → Except Fault Served
  | .done, s => .ok s
  | .queueInLoop cb next, s => do
      let s ← s.queueInLoop tid cb
      run tid next s
  | .runInLoop cb next, s => do
      let (inLoop, loop) ← (s.loop.runInLoop tid cb).mapError .loop
      let s := { s with loop := loop }
      let s ← if inLoop then run tid cb s else pure s
      run tid next s
  | .method c call writeCmplCb next, s => do
      let s ← s.call tid c call writeCmplCb
      run tid next s
  | .removeConnection destroyConnection next, s => do
      let s ← s.queueInLoop tid destroyConnection
      run tid next s
  | .destroyConnection c connectionCb next, s => do
      let s ← s.disconnect tid c
      let s ← run tid connectionCb s
      let s ← s.removeChannel c
      run tid next s
  | .release c next, s => run tid next { s with conns := released s.conns c }

/-- The loop over the functors of the batch. -/
def runAll (tid : ThreadId) : List Task → Served → Except Fault Served
  | [], s => .ok s
  | f :: rest, s => do
      let s ← run tid f s
      runAll tid rest s

def doPendingFunctors (s : Served) (tid : ThreadId) : Except Fault Served := do
  let (loop, functors) ← (s.loop.beginFunctors tid).mapError .loop
  let s ← runAll tid functors { s with loop := loop }
  return { s with loop := s.loop.endFunctors }

end Served

namespace Endpoint

/-- `sendInLoop` writes the whole message at once and has a callback to queue. -/
def completesAtOnce (e : Endpoint) (message : List Byte) (r : WriteResult) : Bool :=
  e.writesAll message r && e.conn.writeCmplCb

/-- `sendInLoop` keeps a part of the message and asks for `WriteEvent`. -/
def startsWriting (e : Endpoint) (message : List Byte) (r : WriteResult) : Bool :=
  !e.isWriting && !message.isEmpty && !e.writesAll message r

end Endpoint

namespace ConnCall

/-- The outcome of a call that cannot fault. -/
def after (e : Endpoint) (call : ConnCall) : Endpoint × List Request :=
  match call.perform e with
  | .ok outcome => outcome
  | .error _ => (e, [])

def completesAtOnce (e : Endpoint) : ConnCall → Bool
  | .send message r => e.sends && e.completesAtOnce message r.val
  | .sendInLoop message r => e.completesAtOnce message r.val
  | .shutdown | .shutdownInLoop | .setWriteCallback _ => false

def startsWriting (e : Endpoint) : ConnCall → Bool
  | .send message r => e.sends && e.startsWriting message r.val
  | .sendInLoop message r => e.startsWriting message r.val
  | .shutdown | .shutdownInLoop | .setWriteCallback _ => false

end ConnCall

namespace LoopConn

/-- A call that fails: on an object that is gone, or with an update of a removed channel. -/
def failsOn (k : LoopConn) (call : ConnCall) : Bool :=
  !k.alive || call.startsWriting k.endpoint && k.removed

/-- `destroyConnection` fails its assert on `state_`, or the one of its update. -/
def failsDisconnect (k : LoopConn) : Bool := !decide k.endpoint.Open || k.removed

/-- `removeChannel` fails an assert. -/
def failsRemove (k : LoopConn) : Bool := k.removed || !k.endpoint.channel.isNoneEvent

end LoopConn

namespace Served

/-- The connections after a call. -/
def called (conns : Nat → LoopConn) (c : Nat) (call : ConnCall) : Nat → LoopConn :=
  setEndpoint conns c (call.after (conns c).endpoint).1

/-- The connections when `destroyConnection` calls `connection_cb_`. -/
def disconnected (conns : Nat → LoopConn) (c : Nat) : Nat → LoopConn :=
  setEndpoint conns c (((conns c).endpoint.setState .disconnected).change .disableAllEvents).1

end Served

namespace Task

open Served (called disconnected setRemoved released)

/-- The connections a functor leaves. -/
def leaves : Task → (Nat → LoopConn) → Nat → LoopConn
  | .done, conns => conns
  | .queueInLoop _ next, conns => next.leaves conns
  | .runInLoop cb next, conns => next.leaves (cb.leaves conns)
  | .method c call _ next, conns => next.leaves (called conns c call)
  | .removeConnection _ next, conns => next.leaves conns
  | .destroyConnection c connectionCb next, conns =>
      next.leaves (setRemoved (connectionCb.leaves (disconnected conns c)) c)
  | .release c next, conns => next.leaves (released conns c)

/-- Whether a functor reaches a call of `queueInLoop`. -/
def reachesQueue : Task → (Nat → LoopConn) → Bool
  | .done, _ => false
  | .queueInLoop _ _, _ => true
  | .runInLoop cb next, conns => cb.reachesQueue conns || next.reachesQueue (cb.leaves conns)
  | .method c call _ next, conns =>
      call.completesAtOnce (conns c).endpoint || next.reachesQueue (called conns c call)
  | .removeConnection _ _, _ => true
  | .destroyConnection c connectionCb next, conns =>
      connectionCb.reachesQueue (disconnected conns c) ||
        next.reachesQueue (setRemoved (connectionCb.leaves (disconnected conns c)) c)
  | .release c next, conns => next.reachesQueue (released conns c)

/-- Whether a functor calls through a pointer to an object that is gone, or fails
an assert of a connection or of the poller. -/
def fails : Task → (Nat → LoopConn) → Bool
  | .done, _ => false
  | .queueInLoop _ next, conns => next.fails conns
  | .runInLoop cb next, conns => cb.fails conns || next.fails (cb.leaves conns)
  | .method c call _ next, conns => (conns c).failsOn call || next.fails (called conns c call)
  | .removeConnection _ next, conns => next.fails conns
  | .destroyConnection c connectionCb next, conns =>
      (conns c).failsDisconnect || connectionCb.fails (disconnected conns c) ||
        (connectionCb.leaves (disconnected conns c) c).failsRemove ||
        next.fails (setRemoved (connectionCb.leaves (disconnected conns c)) c)
  | .release c next, conns => next.fails (released conns c)

/-- The functors a functor hands to `queueInLoop`, in order. -/
def queues : Task → (Nat → LoopConn) → List Task
  | .done, _ => []
  | .queueInLoop cb next, conns => cb :: next.queues conns
  | .runInLoop cb next, conns => cb.queues conns ++ next.queues (cb.leaves conns)
  | .method c call writeCmplCb next, conns =>
      (if call.completesAtOnce (conns c).endpoint then [writeCmplCb] else []) ++
        next.queues (called conns c call)
  | .removeConnection cb next, conns => cb :: next.queues conns
  | .destroyConnection c connectionCb next, conns =>
      connectionCb.queues (disconnected conns c) ++
        next.queues (setRemoved (connectionCb.leaves (disconnected conns c)) c)
  | .release c next, conns => next.queues (released conns c)

/-- The connections a batch leaves. -/
def leavesAll : List Task → (Nat → LoopConn) → Nat → LoopConn
  | [], conns => conns
  | f :: rest, conns => leavesAll rest (f.leaves conns)

/-- Whether some functor of a batch reaches a call of `queueInLoop`. -/
def anyReachesQueue : List Task → (Nat → LoopConn) → Bool
  | [], _ => false
  | f :: rest, conns => f.reachesQueue conns || anyReachesQueue rest (f.leaves conns)

/-- Whether some functor of a batch fails. -/
def anyFails : List Task → (Nat → LoopConn) → Bool
  | [], _ => false
  | f :: rest, conns => f.fails conns || anyFails rest (f.leaves conns)

/-- The functors a batch hands to `queueInLoop`, in order. -/
def queuesAll : List Task → (Nat → LoopConn) → List Task
  | [], _ => []
  | f :: rest, conns => f.queues conns ++ queuesAll rest (f.leaves conns)

end Task

/-- The connections of a loop have sound output buffers. -/
def Sound (conns : Nat → LoopConn) : Prop := ∀ c, (conns c).endpoint.conn.outputBuffer.Inv

theorem Sound.update {conns : Nat → LoopConn} (h : Sound conns) (c : Nat) {k : LoopConn}
    (hk : k.endpoint.conn.outputBuffer.Inv) : Sound (Function.update conns c k) := by
  intro c'
  by_cases hc : c' = c
  · subst hc
    simpa using hk
  · simpa [hc] using h c'

namespace Endpoint

theorem mem_complete {e : Endpoint} : .queueWriteComplete ∈ e.complete ↔ e.conn.writeCmplCb := by
  cases hcb : e.conn.writeCmplCb <;> simp [complete, hcb]

theorem update_not_mem_complete (e : Endpoint) : .update ∉ e.complete := by
  unfold complete
  split <;> simp

/-- A `sendInLoop` cannot fault. It queues the callback exactly when it completes
at once, and asks for an update exactly when it starts writing. -/
theorem sendInLoop_asks {e : Endpoint} (h : e.conn.outputBuffer.Inv) {message : List Byte}
    {r : WriteResult} (hr : r.Within message.length) :
    ∃ outcome, e.sendInLoop message r = .ok outcome ∧ outcome.1.conn.outputBuffer.Inv ∧
      (.queueWriteComplete ∈ outcome.2 ↔ e.completesAtOnce message r = true) ∧
      (.update ∈ outcome.2 ↔ e.startsWriting message r = true) := by
  have hwrites := sendInLoop_writes e message r
  rcases sendInLoop_cases h message hr with
    ⟨hall, hs⟩ | ⟨hall, ⟨hnil, hs⟩ | ⟨hd, b, asked, hb, hne, hbytes, hcmpl, -, hs⟩ |
      ⟨hd, b, hb, -, -, hs⟩⟩
  · refine ⟨_, hs, h, ?_, ?_⟩
    · simp [completesAtOnce, hall, mem_complete]
    · simp [startsWriting, hall, update_not_mem_complete]
  · refine ⟨_, hs, h, ?_, ?_⟩
    · simp [completesAtOnce, hall]
    · simp [startsWriting, hnil]
  · have hidle := (writesDirectly_iff.mp hd).1
    have hmessage : message ≠ [] := by
      rintro rfl
      exact hne (List.append_eq_nil_iff.mp hbytes).2
    have hupdate : .update ∈ asked := by
      rcases (hwrites.of_eq_ok hs).channel with ⟨hchannel, -⟩ | ⟨i, post, -, ⟨pre, hpre, -⟩, -⟩
      · have hwriting : e.isWriting = true := by
          rw [isWriting, ← hchannel]
          exact Channel.isWriting_enableWriting _
        rw [hidle] at hwriting
        cases hwriting
      · have hasked : asked = pre ++ .update :: post := hpre
        simp [hasked]
    refine ⟨_, hs, hb, ?_, ?_⟩
    · simp [completesAtOnce, hall, hcmpl]
    · simp [startsWriting, hall, hidle, hmessage, hupdate]
  · rcases hs with ⟨hw, hs⟩ | ⟨hw, hs⟩
    · refine ⟨_, hs, hb, ?_, ?_⟩
      · simp [completesAtOnce, hall]
      · simp [startsWriting, hw]
    · have hmessage : message ≠ [] := by
        rintro rfl
        rw [sendInLoop_of_direct (directWrite_of_not hd [] r), if_neg (by simp)] at hs
        cases congrArg Prod.snd (Except.ok.inj hs)
      refine ⟨_, hs, hb, ?_, ?_⟩
      · simp [completesAtOnce, hall]
      · simp [startsWriting, hw, hmessage, hall]

end Endpoint

/-- The outcome of a call on a sound connection. -/
theorem ConnCall.after_spec {e : Endpoint} (h : e.conn.outputBuffer.Inv) (call : ConnCall) :
    call.perform e = .ok (call.after e) ∧ (call.after e).1.conn.outputBuffer.Inv ∧
      (.queueWriteComplete ∈ (call.after e).2 ↔ call.completesAtOnce e = true) ∧
      (.update ∈ (call.after e).2 ↔ call.startsWriting e = true) := by
  have hafter : ∀ outcome, call.perform e = .ok outcome → call.after e = outcome := by
    intro outcome ho
    rw [after, ho]
  have hquiet (e : Endpoint) : .queueWriteComplete ∉ e.shutdownInLoop ∧
      .update ∉ e.shutdownInLoop := by
    unfold Endpoint.shutdownInLoop
    split <;> simp
  cases call with
  | send message r =>
      cases hsends : e.sends with
      | true =>
          obtain ⟨outcome, ho, hinv, hcmpl, hupdate⟩ := Endpoint.sendInLoop_asks h r.property
          have hp : (ConnCall.send message r).perform e = .ok outcome := by
            rw [perform, if_pos hsends, ho]
          rw [hafter _ hp]
          exact ⟨hp, hinv, by simpa [completesAtOnce, hsends] using hcmpl,
            by simpa [startsWriting, hsends] using hupdate⟩
      | false =>
          have hp : (ConnCall.send message r).perform e = .ok (e, []) := by
            rw [perform, if_neg (by simp [hsends])]
          rw [hafter _ hp]
          exact ⟨hp, h, by simp [completesAtOnce, hsends], by simp [startsWriting, hsends]⟩
  | sendInLoop message r =>
      obtain ⟨outcome, ho, hinv, hcmpl, hupdate⟩ := Endpoint.sendInLoop_asks h r.property
      rw [hafter _ ho]
      exact ⟨ho, hinv, hcmpl, hupdate⟩
  | shutdown =>
      refine ⟨rfl, ?_, ?_, ?_⟩
      · simp only [after, perform, Endpoint.shutdown]
        split <;> exact h
      · simp only [after, perform, completesAtOnce]
        split <;> simp [hquiet]
      · simp only [after, perform, startsWriting]
        split <;> simp [hquiet]
  | shutdownInLoop =>
      exact ⟨rfl, h, by simp [after, perform, completesAtOnce, hquiet],
        by simp [after, perform, startsWriting, hquiet]⟩
  | setWriteCallback isSet =>
      exact ⟨rfl, h, by simp [after, perform, completesAtOnce],
        by simp [after, perform, startsWriting]⟩

namespace Served

theorem sound_called {conns : Nat → LoopConn} (h : Sound conns) (c : Nat) (call : ConnCall) :
    Sound (called conns c call) := h.update c (call.after_spec (h c)).2.1

theorem sound_disconnected {conns : Nat → LoopConn} (h : Sound conns) (c : Nat) :
    Sound (disconnected conns c) := h.update c (h c)

theorem sound_setRemoved {conns : Nat → LoopConn} (h : Sound conns) (c : Nat) :
    Sound (setRemoved conns c) := h.update c (h c)

theorem sound_released {conns : Nat → LoopConn} (h : Sound conns) (c : Nat) :
    Sound (released conns c) := h.update c (h c)

end Served

namespace Task

open Served

theorem sound_leaves (f : Task) {conns : Nat → LoopConn} (h : Sound conns) :
    Sound (f.leaves conns) := by
  induction f generalizing conns with
  | done => exact h
  | queueInLoop cb next _ ih => exact ih h
  | runInLoop cb next ihcb ih => exact ih (ihcb h)
  | method c call writeCmplCb next _ ih => exact ih (sound_called h c call)
  | removeConnection cb next _ ih => exact ih h
  | destroyConnection c connectionCb next ihcb ih =>
      exact ih (sound_setRemoved (ihcb (sound_disconnected h c)) c)
  | release c next ih => exact ih (sound_released h c)

/-- A functor queues nothing exactly when it does not reach `queueInLoop`. -/
theorem queues_eq_nil_iff (f : Task) (conns : Nat → LoopConn) :
    f.queues conns = [] ↔ f.reachesQueue conns = false := by
  induction f generalizing conns with
  | done => simp [queues, reachesQueue]
  | queueInLoop cb next _ _ => simp [queues, reachesQueue]
  | runInLoop cb next ihcb ih => simp [queues, reachesQueue, ihcb, ih]
  | method c call writeCmplCb next _ ih => simp [queues, reachesQueue, ih]
  | removeConnection cb next _ _ => simp [queues, reachesQueue]
  | destroyConnection c connectionCb next ihcb ih => simp [queues, reachesQueue, ihcb, ih]
  | release c next ih => simp [queues, reachesQueue, ih]

theorem queuesAll_eq_nil_iff (fs : List Task) (conns : Nat → LoopConn) :
    queuesAll fs conns = [] ↔ anyReachesQueue fs conns = false := by
  induction fs generalizing conns with
  | nil => simp [queuesAll, anyReachesQueue]
  | cons f rest ih => simp [queuesAll, anyReachesQueue, queues_eq_nil_iff, ih]

end Task

namespace Served

variable {tid : ThreadId}

/-- How a piece of a functor ends while the thread holds `mutex_`: it leaves the
loop alone and changes the connections, unless it reaches `queueInLoop`, which
locks again, or fails. -/
abbrev Ending (s : Served) (reaches fails : Bool) (conns : Nat → LoopConn)
    (x : Except Fault Served) : Prop :=
  Ends (fun s' => reaches = false ∧ fails = false ∧ s' = { s with conns := conns })
    (fun f => reaches = true ∧ f = .loop .relock ∨ fails = true) x

/-- Two pieces, one after the other. -/
theorem Ending.bind {s : Served} {reaches fails reaches' fails' : Bool}
    {conns conns' : Nat → LoopConn} {x : Except Fault Served} {g : Served → Except Fault Served}
    (h : Ending s reaches fails conns x)
    (hg : Ending { s with conns := conns } reaches' fails' conns' (g { s with conns := conns })) :
    Ending s (reaches || reaches') (fails || fails') conns' (x >>= g) := by
  cases x with
  | error f =>
      rcases h with ⟨hreaches, hf⟩ | hfails
      · exact .inl ⟨by rw [hreaches, Bool.true_or], hf⟩
      · exact .inr (by rw [hfails, Bool.true_or])
  | ok s' =>
      obtain ⟨hreaches, hfails, rfl⟩ := h
      rw [hreaches, hfails]
      exact hg

/-- While the thread holds `mutex_`, `queueInLoop` locks it again. -/
theorem queueInLoop_held {s : Served} (h : s.loop.mutex = some tid) (cb : Task) :
    s.queueInLoop tid cb = .error (.loop .relock) := by
  simp only [queueInLoop, EventLoop.queueInLoop, EventLoop.lock_self h]
  rfl

theorem request_held {s : Served} (h : s.loop.mutex = some tid) (c : Nat) (writeCmplCb : Task)
    (asked : List Request) :
    Ending s (asked.contains .queueWriteComplete)
      (asked.contains .update && (s.conns c).removed) s.conns
      (request tid c writeCmplCb asked s) := by
  induction asked with
  | nil => exact ⟨rfl, rfl, rfl⟩
  | cons q rest ih =>
      cases q with
      | queueWriteComplete =>
          rw [request, queueInLoop_held h]
          exact .inl ⟨by simp, rfl⟩
      | update =>
          rw [request]
          have hsame : (Request.update :: rest).contains .queueWriteComplete =
              rest.contains .queueWriteComplete := by simp
          refine ends_check (fun hremoved => .inr ?_) fun hremoved => ?_
          · simpa using hremoved
          · rw [hremoved, Bool.and_false] at ih
            rw [hsame, hremoved, Bool.and_false]
            exact ih
      | write taken => simpa [request] using ih
      | shutdownWrite => simpa [request] using ih

theorem call_held {s : Served} (h : s.loop.mutex = some tid) (hs : Sound s.conns) (c : Nat)
    (call : ConnCall) (writeCmplCb : Task) :
    Ending s (call.completesAtOnce (s.conns c).endpoint) ((s.conns c).failsOn call)
      (called s.conns c call) (s.call tid c call writeCmplCb) := by
  obtain ⟨hok, -, hcmpl, hupdate⟩ := call.after_spec (hs c)
  have hasked := request_held (s := { s with conns := called s.conns c call }) h c writeCmplCb
    (call.after (s.conns c).endpoint).2
  have hkept : (called s.conns c call c).removed = (s.conns c).removed := by
    simp [called, setEndpoint]
  have hcontains : (call.after (s.conns c).endpoint).2.contains .queueWriteComplete =
      call.completesAtOnce (s.conns c).endpoint := by
    rw [Bool.eq_iff_iff, ← hcmpl, List.contains_iff_mem]
  have hcontains' : (call.after (s.conns c).endpoint).2.contains .update =
      call.startsWriting (s.conns c).endpoint := by
    rw [Bool.eq_iff_iff, ← hupdate, List.contains_iff_mem]
  rw [hcontains, hcontains'] at hasked
  unfold Served.call
  refine ends_check (fun hdead => .inr ?_) fun halive => ?_
  · simp [LoopConn.failsOn, hdead]
  · rw [hok]
    have hfails : (s.conns c).failsOn call =
        (call.startsWriting (s.conns c).endpoint && (called s.conns c call c).removed) := by
      rw [hkept, LoopConn.failsOn, halive]
      rfl
    rw [hfails]
    exact hasked

theorem disconnect_held {s : Served} (h : s.loop.mutex = some tid) (c : Nat) :
    Ending s false (s.conns c).failsDisconnect (disconnected s.conns c) (s.disconnect tid c) := by
  have hasked := request_held (s := { s with conns := disconnected s.conns c }) h c .done [.update]
  have hkept : (disconnected s.conns c c).removed = (s.conns c).removed := by
    simp [disconnected, setEndpoint]
  rw [disconnect, Endpoint.destroyConnection_eq]
  by_cases hopen : (s.conns c).endpoint.Open
  · rw [if_pos hopen]
    have hfails : (s.conns c).failsDisconnect = (disconnected s.conns c c).removed := by
      rw [hkept, LoopConn.failsDisconnect, decide_eq_true hopen]
      rfl
    rw [hfails]
    exact hasked
  · rw [if_neg hopen]
    exact .inr (by simp [LoopConn.failsDisconnect, hopen])

theorem removeChannel_held (s : Served) (c : Nat) :
    Ending s false (s.conns c).failsRemove (setRemoved s.conns c) (s.removeChannel c) := by
  unfold removeChannel
  refine ends_check (fun hremoved => .inr ?_) fun hremoved => ?_
  · simp [LoopConn.failsRemove, hremoved]
  · refine ends_check (fun hnone => .inr ?_) fun hnone => ?_
    · simp [LoopConn.failsRemove, hnone]
    · exact ⟨rfl, by simp [LoopConn.failsRemove, hremoved, hnone], rfl⟩

/-- The step lemma: how a functor that runs with `mutex_` held ends. -/
theorem run_held (f : Task) {s : Served} (h : s.loop.mutex = some tid)
    (ht : s.loop.threadId = tid) (hs : Sound s.conns) :
    Ending s (f.reachesQueue s.conns) (f.fails s.conns) (f.leaves s.conns) (run tid f s) := by
  induction f generalizing s with
  | done => exact ⟨rfl, rfl, rfl⟩
  | queueInLoop cb next _ _ =>
      rw [run, queueInLoop_held h]
      exact .inl ⟨rfl, rfl⟩
  | runInLoop cb next ihcb ih =>
      have hin : s.loop.runInLoop tid cb = .ok (true, s.loop) := by
        simp [EventLoop.runInLoop, EventLoop.isInLoopThread, ht, pure, Except.pure]
      rw [run, hin]
      exact (ihcb h ht hs).bind (ih (s := { s with conns := _ }) h ht (cb.sound_leaves hs))
  | method c call writeCmplCb next _ ih =>
      exact (call_held h hs c call writeCmplCb).bind
        (ih (s := { s with conns := _ }) h ht (sound_called hs c call))
  | removeConnection cb next _ _ =>
      rw [run, queueInLoop_held h]
      exact .inl ⟨rfl, rfl⟩
  | destroyConnection c connectionCb next ihcb ih =>
      have hsound := sound_disconnected hs c
      have hsound' := connectionCb.sound_leaves hsound
      have hcb := ihcb (s := { s with conns := disconnected s.conns c }) h ht hsound
      have hremove := removeChannel_held
        { s with conns := connectionCb.leaves (disconnected s.conns c) } c
      have hnext := ih
        (s := { s with conns := setRemoved (connectionCb.leaves (disconnected s.conns c)) c })
        h ht (sound_setRemoved hsound' c)
      have hrest := hcb.bind (g := fun s => s.removeChannel c >>= run tid next)
        (hremove.bind hnext)
      have hmain := (disconnect_held h c).bind
        (g := fun s => run tid connectionCb s >>= fun s => s.removeChannel c >>= run tid next) hrest
      simp only [Bool.false_or] at hmain
      rw [Task.reachesQueue, Task.fails, Bool.or_assoc, Bool.or_assoc]
      exact hmain
  | release c next ih =>
      exact ih (s := { s with conns := released s.conns c }) h ht (sound_released hs c)

/-- The run lemma: the loop over the batch. -/
theorem runAll_held (fs : List Task) {s : Served} (h : s.loop.mutex = some tid)
    (ht : s.loop.threadId = tid) (hs : Sound s.conns) :
    Ending s (Task.anyReachesQueue fs s.conns) (Task.anyFails fs s.conns)
      (Task.leavesAll fs s.conns) (runAll tid fs s) := by
  induction fs generalizing s with
  | nil => exact ⟨rfl, rfl, rfl⟩
  | cons f rest ih =>
      exact (run_held f h ht hs).bind (ih (s := { s with conns := _ }) h ht (f.sound_leaves hs))

/-- What `doPendingFunctors` should do with a batch: run all of it, leave the
functors it queued for the next iteration, and write the wake-up event for
each of them. -/
def RunsBatch (s : Served) (tid : ThreadId) : Prop :=
  ∃ s', s.doPendingFunctors tid = .ok s' ∧
    s'.conns = Task.leavesAll s.loop.pendingFunctors s.conns ∧
    s'.loop.pendingFunctors = Task.queuesAll s.loop.pendingFunctors s.conns ∧
    s'.loop.wakeupFd =
      (EventLoop.wakeup^[(Task.queuesAll s.loop.pendingFunctors s.conns).length]
        s.loop).wakeupFd

/-- The batch ends, or its thread locks `mutex_` a second time, or a functor fails. -/
theorem doPendingFunctors_ends {s : Served} (h : s.loop.mutex = none)
    (ht : s.loop.threadId = tid) (hs : Sound s.conns) :
    Ends (fun s' => Task.anyReachesQueue s.loop.pendingFunctors s.conns = false ∧
        Task.anyFails s.loop.pendingFunctors s.conns = false ∧
        s' = ⟨{ s.loop with callingPendingFunctors := false, pendingFunctors := [] },
          Task.leavesAll s.loop.pendingFunctors s.conns⟩)
      (fun f => Task.anyReachesQueue s.loop.pendingFunctors s.conns = true ∧
          f = .loop .relock ∨ Task.anyFails s.loop.pendingFunctors s.conns = true)
      (s.doPendingFunctors tid) := by
  let begun : Served :=
    { s with loop :=
      { s.loop with callingPendingFunctors := true, mutex := some tid, pendingFunctors := [] } }
  have hrun := runAll_held s.loop.pendingFunctors (s := begun) rfl ht hs
  rw [doPendingFunctors, EventLoop.beginFunctors_free h]
  change Ends _ _ (runAll tid s.loop.pendingFunctors begun >>= fun s =>
    .ok { s with loop := s.loop.endFunctors })
  refine Ends.bind hrun ?_
  rintro s' ⟨hreaches, hfails, rfl⟩
  refine ⟨hreaches, hfails, ?_⟩
  simp [begun, EventLoop.endFunctors, EventLoop.setCalling, EventLoop.unlock, h]

/-- On its own thread, with `mutex_` free, `doPendingFunctors` does this for
exactly those batches in which no functor reaches `queueInLoop` and none fails. -/
theorem runsBatch_iff {s : Served} (h : s.loop.mutex = none) (ht : s.loop.threadId = tid)
    (hs : Sound s.conns) :
    s.RunsBatch tid ↔ Task.anyReachesQueue s.loop.pendingFunctors s.conns = false ∧
      Task.anyFails s.loop.pendingFunctors s.conns = false := by
  have hends := doPendingFunctors_ends h ht hs
  constructor
  · rintro ⟨s', hs', -⟩
    obtain ⟨hreaches, hfails, -⟩ := hends.of_eq_ok hs'
    exact ⟨hreaches, hfails⟩
  · rintro ⟨hreaches, hfails⟩
    cases hbatch : s.doPendingFunctors tid with
    | error f =>
        rcases hends.of_eq_error hbatch with ⟨htrue, -⟩ | htrue
        · rw [hreaches] at htrue
          cases htrue
        · rw [hfails] at htrue
          cases htrue
    | ok s' =>
        obtain ⟨-, -, rfl⟩ := hends.of_eq_ok hbatch
        have hnil := (Task.queuesAll_eq_nil_iff _ _).mpr hreaches
        exact ⟨_, hbatch, rfl, by rw [hnil], by rw [hnil]; rfl⟩

/-- A functor that queues another one, alone in its batch. -/
def selfQueueing : Served where
  loop := (EventLoop.new 0 false 0).pushBack (.queueInLoop .done .done)
  conns _ := ⟨Endpoint.new 0 "" 0 false 0, true, false⟩

/-- The loop then locks `mutex_` while it holds it and never ends the batch. -/
theorem selfQueueing_deadlocks :
    selfQueueing.loop.mutex = none ∧ Sound selfQueueing.conns ∧
      selfQueueing.doPendingFunctors 0 = .error (.loop .relock) ∧
      ¬ selfQueueing.RunsBatch 0 := by
  have hrun : selfQueueing.doPendingFunctors 0 = .error (.loop .relock) := rfl
  refine ⟨rfl, fun _ => Buffer.new_inv, hrun, ?_⟩
  rintro ⟨s', hs', -⟩
  rw [hrun] at hs'
  cases hs'

/-- The message of a thread that had not seen the `shutdown` of the connection, which
the socket takes in part; its `shutdown`, which finds the channel writing; a message
that is sent at once when nobody wants to hear of it any more, from a functor that lets
go of a third connection; and the destruction of the second one, whose callback sends
on the first one in vain. -/
def mixedBatch : List Task :=
  [.method 0 (.sendInLoop [1, 2, 3, 4] ⟨.wrote 2, by decide⟩) .done .done,
    .method 0 .shutdownInLoop .done .done,
    .method 1 (.setWriteCallback false) .done
      (.method 1 (.send [7] ⟨.wrote 1, by decide⟩) .done (.release 2 .done)),
    .destroyConnection 1 (.method 0 (.send [5] ⟨.wrote 1, by decide⟩) .done .done) .done]

/-- Connections with a write-complete callback; `shutdown` has been called on the first. -/
def mixed : Served where
  loop := { (EventLoop.new 0 false 0 : EventLoop Task) with pendingFunctors := mixedBatch }
  conns c := ⟨(Endpoint.new 0 "" 7 true 0).setState (if c = 0 then .disconnecting else .connected),
    true, false⟩

/-- A message that the socket takes at once locks `mutex_` again, `shutdown` or not. -/
example : Task.anyReachesQueue [.method 0 (.sendInLoop [1] ⟨.wrote 1, by decide⟩) .done .done]
    mixed.conns = true := by decide +kernel

theorem mixed_runsBatch :
    Task.anyReachesQueue mixed.loop.pendingFunctors mixed.conns = false ∧
      Task.anyFails mixed.loop.pendingFunctors mixed.conns = false ∧ mixed.RunsBatch 0 ∧
      (Task.leavesAll mixed.loop.pendingFunctors mixed.conns 0).endpoint.pending = [3, 4] ∧
      (Task.leavesAll mixed.loop.pendingFunctors mixed.conns 1).removed = true := by
  have hq : Task.anyReachesQueue mixed.loop.pendingFunctors mixed.conns = false := by
    decide +kernel
  have hf : Task.anyFails mixed.loop.pendingFunctors mixed.conns = false := by
    decide +kernel
  exact ⟨hq, hf, (runsBatch_iff rfl rfl fun _ => Buffer.new_inv).mpr ⟨hq, hf⟩, by decide +kernel,
    by decide +kernel⟩

end Served

end Yatwb
