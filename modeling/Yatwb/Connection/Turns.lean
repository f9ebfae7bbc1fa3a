import Yatwb.Connection.HalfClose

/-!
# The turns of a connection in a server

In a server a connection takes its turns: one of its methods runs, bytes come
into its input buffer or go out of it, or the poller writes the slot number or
the reported word of its channel. The last two do not matter to the methods, so
a connection that takes its turns is in a state of a session. `handleRead` is
taken apart here: the buffer changes, and `handleClose` runs when nothing came.
-/

namespace Yatwb

open Foundation

/-- The step closes the connection or destroys it. -/
def Session.Action.Closes : Session.Action → Prop
  | .handleClose => True
  | .destroyConnection => True
  | _ => False

/-- Interest in output does not touch the interest in input. -/
theorem Channel.Requested.has_readEvent {events : Events} (h : Requested events) {i : Interest}
    (hi : i = .enableWriting ∨ i = .disableWriting) :
    (i.apply events).has readEvent = events.has readEvent := by
  rcases h with rfl | rfl | rfl | rfl <;> rcases hi with rfl | rfl <;> decide

namespace Endpoint

open TcpConnection (Fault)

/-- Another input buffer, slot number and reported word. -/
def refit (e : Endpoint) (b : Buffer) (index : Int) (revents : Events) : Endpoint :=
  ⟨{ e.conn with inputBuffer := b }, (e.channel.setIndex index).setRevents revents⟩

/-- One turn of a connection, which closes it only if `closing`. -/
inductive Turn (closing : Prop) : Endpoint → Endpoint → Prop
  | method {e e' asked} (a : Session.Action) (hread : ∀ r, a ≠ .handleRead r)
      (hkernel : (Session.start e).Kernel a) (hcloses : a.Closes → closing)
      (h : a.perform e = .ok (e', asked)) : Turn closing e e'
  | input {e : Endpoint} {b : Buffer} (hb : b.Inv) :
      Turn closing e { e with conn := { e.conn with inputBuffer := b } }
  | note (e : Endpoint) (index : Int) (revents : Events) :
      Turn closing e { e with channel := (e.channel.setIndex index).setRevents revents }

/-- The buffers keep their invariant. -/
structure Sound (e : Endpoint) : Prop where
  input : e.conn.inputBuffer.Inv
  output : e.conn.outputBuffer.Inv

theorem Sound.new (loop : LoopId) (name : String) (fd : Int) (writeCmplCb : Bool)
    (memory : LoopId) : (new loop name fd writeCmplCb memory).Sound :=
  ⟨Buffer.new_inv, Buffer.new_inv⟩

/-- A method of a connection with sound buffers fails no assert but those on `state_`. -/
theorem Sound.perform {e : Endpoint} (h : e.Sound) {a : Session.Action}
    (hkernel : (Session.start e).Kernel a) :
    Ends (fun outcome => outcome.1.Sound) Session.StateAssert (a.perform e) := by
  -- a session that has been given what waits in the output buffer
  let s : Session := { Session.start e with given := [e.pending] }
  have hstream : Session.Stream s := by
    refine ⟨h.input, h.output, ?_⟩
    change [] ++ e.pending = [e.pending].flatten
    simp
  have hk : Session.Kernel s a := by
    cases a <;> exact hkernel
  rcases Session.perform_cases hstream hk with ⟨f, hf, hassert⟩ | ⟨e', asked, hs, hkept⟩
  · change Ends _ _ (a.perform s.endpoint)
    rw [hf]
    exact hassert
  · change Ends _ _ (a.perform s.endpoint)
    rw [hs]
    exact ⟨hkept.input, hkept.output⟩

variable {e e' : Endpoint} {asked : List Request} {closing : Prop}

theorem Turn.mono {closing' : Prop} (h : Turn closing e e') (himp : closing → closing') :
    Turn closing' e e' := by
  cases h with
  | method a hread hkernel hcloses ha => exact .method a hread hkernel (himp ∘ hcloses) ha
  | input hb => exact .input hb
  | note index revents => exact .note e index revents

theorem Turn.sound (h : Turn closing e e') (hsound : e.Sound) : e'.Sound := by
  cases h with
  | method a _ hkernel _ ha => exact (hsound.perform hkernel).of_eq_ok ha
  | input hb => exact ⟨hb, hsound.output⟩
  | note => exact ⟨hsound.input, hsound.output⟩

/-- `e'` is `e`, but for its input and what the poller has noted. -/
structure Like (e e' : Endpoint) : Prop where
  sound : e'.Sound
  same : ∃ b index revents, e' = e.refit b index revents

section Refit

variable (e : Endpoint) (b : Buffer) (index : Int) (revents : Events)

/-- The outcome of a method, refitted. -/
def refitted (outcome : Endpoint × List Request) : Endpoint × List Request :=
  (outcome.1.refit b index revents, outcome.2)

theorem sendInLoop_refit (message : List Byte) (r : WriteResult) :
    (e.refit b index revents).sendInLoop message r =
      (e.sendInLoop message r).map (refitted b index revents) := by
  have hdirect : (e.refit b index revents).directWrite message r = e.directWrite message r := rfl
  simp only [sendInLoop, hdirect]
  generalize e.directWrite message r = direct
  obtain ⟨nwrote, asked⟩ := direct
  by_cases hnwrote : 0 ≤ nwrote
  · simp only [check_bind_of _ hnwrote]
    split
    · have houtput : (e.refit b index revents).conn.outputBuffer = e.conn.outputBuffer := rfl
      rw [houtput]
      cases e.conn.outputBuffer.append (message.drop nwrote.toNat) with
      | error f => rfl
      | ok output =>
          change (if (e.setOutput output).isWriting then _ else _) =
            Except.map _ (if (e.setOutput output).isWriting then _ else _)
          split <;> rfl
    · rfl
  · simp only [check_bind_of_not _ hnwrote]
    rfl

theorem handleWrite_refit (r : WriteResult) :
    (e.refit b index revents).handleWrite r =
      (e.handleWrite r).map (refitted b index revents) := by
  have hwriting : (e.refit b index revents).isWriting = e.isWriting := rfl
  have houtput : (e.refit b index revents).conn.outputBuffer = e.conn.outputBuffer := rfl
  simp only [handleWrite, hwriting, houtput]
  split
  · split
    · cases e.conn.outputBuffer.retrieve r.value.toNat with
      | error f => rfl
      | ok output =>
          change (if (e.setOutput output).outstanding = 0 then _ else _) =
            Except.map _ (if (e.setOutput output).outstanding = 0 then _ else _)
          split <;> rfl
    · rfl
  · rfl

theorem handleClose_refit :
    (e.refit b index revents).handleClose = e.handleClose.map (refitted b index revents) := by
  rw [handleClose_eq, handleClose_eq]
  change (if e.Open then _ else _) = Except.map _ (if e.Open then _ else _)
  split <;> rfl

/-- Only `handleRead` looks at the input buffer, and no method at the rest. -/
theorem perform_refit {a : Session.Action} (ha : ∀ r, a ≠ .handleRead r) :
    a.perform (e.refit b index revents) = (a.perform e).map (refitted b index revents) := by
  cases a with
  | handleRead r => exact absurd rfl (ha r)
  | sendInLoop message r => exact sendInLoop_refit e b index revents message r
  | handleWrite r => exact handleWrite_refit e b index revents r
  | handleClose => exact handleClose_refit e b index revents
  | shutdownInLoop => rfl
  | shutdown =>
      simp only [Session.Action.perform, shutdown]
      change Except.ok ((if e.conn.state = .connected then _ else _ : Endpoint × Bool).1, _) =
        Except.map _ (.ok ((if e.conn.state = .connected then _ else _ : Endpoint × Bool).1, _))
      split <;> rfl
  | establishConnection =>
      simp only [Session.Action.perform, establishConnection_eq]
      change (if e.conn.state = .connecting then _ else _) =
        Except.map _ (if e.conn.state = .connecting then _ else _)
      split <;> rfl
  | destroyConnection =>
      simp only [Session.Action.perform, destroyConnection_eq]
      change (if e.Open then _ else _) = Except.map _ (if e.Open then _ else _)
      split <;> rfl

end Refit

theorem like_of_refitted {x : Except Fault (Endpoint × List Request)} {b : Buffer} {index : Int}
    {revents : Events} (h : x.map (refitted b index revents) = .ok (e', asked))
    (hsound : e'.Sound) : ∃ e, x = .ok (e, asked) ∧ Like e e' := by
  cases x with
  | error f => cases h
  | ok outcome =>
      obtain ⟨rfl, rfl⟩ := Prod.mk.inj (Except.ok.inj h)
      exact ⟨outcome.1, rfl, hsound, b, index, revents, rfl⟩

/-- A method that runs in the server runs in the session. -/
theorem Like.perform (h : Like e e') {a : Session.Action} (hread : ∀ r, a ≠ .handleRead r)
    {e₁' : Endpoint} (hsound' : e₁'.Sound) (ha : a.perform e' = .ok (e₁', asked)) :
    ∃ e₁, a.perform e = .ok (e₁, asked) ∧ Like e₁ e₁' := by
  obtain ⟨b, index, revents, rfl⟩ := h.same
  rw [perform_refit e b index revents hread] at ha
  exact like_of_refitted ha hsound'

/-- What a write path does to the channel. -/
def Rewritten (e e' : Endpoint) : Prop :=
  e'.channel = e.channel ∨ ∃ i : Channel.Interest, (i = .enableWriting ∨ i = .disableWriting) ∧
    e'.channel = e.channel.change i

theorem sendInLoop_rewritten (h : e.conn.outputBuffer.Inv) {message : List Byte}
    {r : WriteResult} (hr : r.Within message.length)
    (hs : e.sendInLoop message r = .ok (e', asked)) : e.Rewritten e' := by
  rcases sendInLoop_cases h message hr with
    ⟨-, hs'⟩ | ⟨-, ⟨-, hs'⟩ | ⟨-, b, asked', -, -, -, -, -, hs'⟩ |
      ⟨-, b, -, -, -, ⟨-, hs'⟩ | ⟨-, hs'⟩⟩⟩ <;>
    obtain ⟨rfl, -⟩ := Prod.mk.inj (Except.ok.inj (hs.symm.trans hs'))
  · exact Or.inl rfl
  · exact Or.inl rfl
  · exact Or.inr ⟨_, Or.inl rfl, rfl⟩
  · exact Or.inl rfl
  · exact Or.inr ⟨_, Or.inl rfl, rfl⟩

theorem handleWrite_rewritten (h : e.conn.outputBuffer.Inv) {r : WriteResult}
    (hr : r.Within e.outstanding) (hs : e.handleWrite r = .ok (e', asked)) : e.Rewritten e' := by
  rcases handleWrite_cases h hr with hs' | ⟨-, b, n, -, -, -, hs'⟩ | ⟨-, b, -, -, hs'⟩ <;>
    obtain ⟨rfl, -⟩ := Prod.mk.inj (Except.ok.inj (hs.symm.trans hs'))
  · exact Or.inl rfl
  · exact Or.inl rfl
  · exact Or.inr ⟨_, Or.inr rfl, rfl⟩

/-- The connection is being constructed, or asks for input; and it asks for output exactly
while bytes wait. -/
structure Attends (e : Endpoint) : Prop where
  inStep : e.InStep
  requested : Channel.Requested e.channel.events
  reading : e.conn.state = .connecting ∨ e.channel.events.has Channel.readEvent = true

theorem Attends.new (loop : LoopId) (name : String) (fd : Int) (writeCmplCb : Bool)
    (memory : LoopId) : (new loop name fd writeCmplCb memory).Attends :=
  ⟨inStep_idle (Channel.isWriting_new ..) Buffer.new_sizes.1, Channel.requested_zero, Or.inl rfl⟩

/-- A write path leaves the interest in input alone. -/
theorem Attends.rewritten (h : e.Attends) (hsame : e.SameButOutput e') (hinStep : e'.InStep)
    (hrewritten : e.Rewritten e') : e'.Attends := by
  have hstate (h : e.conn.state = .connecting) : e'.conn.state = .connecting :=
    hsame.state_eq.trans h
  rcases hrewritten with heq | ⟨i, hi, heq⟩
  · refine ⟨hinStep, ?_, h.reading.imp hstate ?_⟩ <;> rw [heq]
    · exact h.requested
    · exact id
  · refine ⟨hinStep, ?_, h.reading.imp hstate ?_⟩ <;> rw [heq, Channel.change_events]
    · exact h.requested.change i
    · rw [h.requested.has_readEvent hi]
      exact id

theorem Turn.attends (h : Turn False e e') (hsound : e.Sound) (ha : e.Attends) : e'.Attends := by
  cases h with
  | input => exact ⟨ha.inStep, ha.requested, ha.reading⟩
  | note => exact ⟨ha.inStep, ha.requested, ha.reading⟩
  | method a hread hkernel hcloses hs =>
      cases a with
      | handleClose => exact (hcloses trivial).elim
      | destroyConnection => exact (hcloses trivial).elim
      | sendInLoop message r =>
          obtain ⟨e₁, asked₁, hs₁, hreports⟩ := sendInLoop_reports hsound.output ha.inStep hkernel
          obtain ⟨e₂, asked₂, hs₂, hconserves⟩ := sendInLoop_conserves hsound.output hkernel
          obtain ⟨rfl, rfl⟩ := Prod.mk.inj (Except.ok.inj (hs.symm.trans hs₁))
          obtain ⟨rfl, rfl⟩ := Prod.mk.inj (Except.ok.inj (hs.symm.trans hs₂))
          exact ha.rewritten hconserves.same hreports.inStep
            (sendInLoop_rewritten hsound.output hkernel hs)
      | handleWrite r =>
          obtain ⟨e₁, asked₁, hs₁, hreports⟩ := handleWrite_reports hsound.output ha.inStep hkernel
          obtain ⟨e₂, asked₂, hs₂, hconserves⟩ := handleWrite_conserves hsound.output hkernel
          obtain ⟨rfl, rfl⟩ := Prod.mk.inj (Except.ok.inj (hs.symm.trans hs₁))
          obtain ⟨rfl, rfl⟩ := Prod.mk.inj (Except.ok.inj (hs.symm.trans hs₂))
          exact ha.rewritten hconserves.same hreports.inStep
            (handleWrite_rewritten hsound.output hkernel hs)
      | handleRead r => exact (hread r rfl).elim
      | shutdown =>
          obtain ⟨rfl, -⟩ := Prod.mk.inj (Except.ok.inj hs)
          unfold shutdown
          split
          · rename_i hconnected
            refine ⟨ha.inStep, ha.requested, Or.inr (ha.reading.resolve_left ?_)⟩
            rw [hconnected]
            decide
          · exact ha
      | shutdownInLoop =>
          obtain ⟨rfl, -⟩ := Prod.mk.inj (Except.ok.inj hs)
          exact ha
      | establishConnection =>
          simp only [Session.Action.perform, establishConnection_eq] at hs
          split at hs
          · obtain ⟨rfl, -⟩ := Prod.mk.inj (Except.ok.inj hs)
            refine ⟨?_, ha.requested.change .enableReading, Or.inr ?_⟩
            · rw [InStep, isWriting]
              change (e.channel.change .enableReading).isWriting = true ↔ _
              rw [Channel.isWriting_enableReading]
              exact ha.inStep
            · change ((e.channel.change .enableReading).events).has Channel.readEvent = true
              rw [Channel.change_events]
              rcases ha.requested with hevents | hevents | hevents | hevents <;> rw [hevents] <;>
                decide
          · cases hs

/-- The channel asks for input, and perhaps for output. -/
def Reading (e : Endpoint) : Prop :=
  e.channel.events = Channel.readEvent ∨
    e.channel.events = Channel.readEvent ||| Channel.writeEvent

/-- What a connection in use asks of `poll(2)`. -/
theorem Reading.events {e : Endpoint} (h : e.Reading) (hi : e.InStep) :
    e.channel.events =
      if e.outstanding = 0 then Channel.readEvent else Channel.readEvent ||| Channel.writeEvent := by
  have hread : Channel.readEvent.has Channel.writeEvent = false := by decide
  have hboth : (Channel.readEvent ||| Channel.writeEvent).has Channel.writeEvent = true := by decide
  have hwriting : e.channel.events.has Channel.writeEvent = true ↔ 0 < e.outstanding := hi
  rcases h with h | h
  · rw [h, hread] at hwriting
    rw [h, if_pos (by simpa using hwriting)]
  · rw [h, hboth] at hwriting
    have hpos : 0 < e.outstanding := hwriting.mp rfl
    rw [h, if_neg (by omega)]

theorem Attends.reads (h : e.Attends) (hstate : e.conn.state ≠ .connecting) : e.Reading := by
  have hread := h.reading.resolve_left hstate
  rcases h.requested with hevents | hevents | hevents | hevents <;> rw [hevents] at hread
  · exact absurd hread (by decide)
  · exact Or.inl hevents
  · exact absurd hread (by decide)
  · exact Or.inr hevents

end Endpoint

namespace Session

/-- The connection is in a state that a session reaches, but for the bytes in its input
buffer and what the poller has noted in the channel. -/
def Shows (e : Endpoint) : Prop := ∃ s, Reach (.ok s) ∧ Endpoint.Like s.endpoint e

variable {e e' : Endpoint} {closing : Prop}

theorem shows_new (loop : LoopId) (name : String) (fd : Int) (writeCmplCb : Bool)
    (memory : LoopId) : Shows (Endpoint.new loop name fd writeCmplCb memory) :=
  ⟨_, .init ⟨_, rfl, _, _, _, _, _, rfl⟩, Endpoint.Sound.new .., _, _, _, rfl⟩

theorem Shows.sound (h : Shows e) : e.Sound := by
  obtain ⟨s, -, hlike⟩ := h
  exact hlike.sound

theorem Shows.turn (h : Shows e) (ht : e.Turn closing e') : Shows e' := by
  obtain ⟨s, hs, hlike⟩ := h
  have hsound' : e'.Sound := ht.sound hlike.sound
  cases ht with
  | @method _ asked a hread hkernel _ ha =>
      obtain ⟨e₁, ha₁, hlike₁⟩ := hlike.perform hread hsound' ha
      have hk : Kernel s a := by
        obtain ⟨b, index, revents, rfl⟩ := hlike.same
        cases a <;> exact hkernel
      refine ⟨s.record a (e₁, asked), hs.step (a := a) ?_ ?_, hlike₁⟩
      · rintro _ ⟨⟩
        exact hk
      · change some (s.step a) = _
        rw [Session.step, ha₁]
        rfl
  | input =>
      obtain ⟨b, index, revents, rfl⟩ := hlike.same
      exact ⟨s, hs, hsound', _, _, _, rfl⟩
  | note index revents =>
      obtain ⟨b, index', revents', rfl⟩ := hlike.same
      exact ⟨s, hs, hsound', b, index, revents, rfl⟩

end Session

end Yatwb
