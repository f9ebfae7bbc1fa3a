import Yatwb.Connection.Turns
import Yatwb.Echo.Calls

/-!
# What a line of an echo server carries

An open connection of an echo server holds no input between two callbacks,
asks `poll(2)` for input, and asks for output exactly while bytes are unsent.
Its two callbacks that move bytes keep this, and every byte that arrives is
written or waits in the output buffer.
-/

namespace Yatwb

open Foundation

namespace Endpoint

/-- What a write path of an endpoint without `write_cmpl_cb_` does with the
bytes `arrived`. -/
structure Carries (e : Endpoint) (arrived : List Byte) (e' : Endpoint) (asked : List Request) :
    Prop where
  output : ∃ b, b.Inv ∧ e'.conn = { e.conn with outputBuffer := b }
  bytes : sentBytes asked ++ e'.pending = e.pending ++ arrived
  channel : e'.channel = e.channel ∨ e'.channel = e.channel.change .enableWriting ∨
    e'.channel = e.channel.change .disableWriting
  inStep : e'.InStep
  silent : .queueWriteComplete ∉ asked

theorem Rewritten.channel {e e' : Endpoint} (h : e.Rewritten e') :
    e'.channel = e.channel ∨ e'.channel = e.channel.change .enableWriting ∨
      e'.channel = e.channel.change .disableWriting := by
  rcases h with hsame | ⟨i, rfl | rfl, hchange⟩
  · exact Or.inl hsame
  · exact Or.inr (Or.inl hchange)
  · exact Or.inr (Or.inr hchange)

theorem complete_of_unset {e : Endpoint} (hcb : e.conn.writeCmplCb = false) : e.complete = [] := by
  simp [complete, hcb]

theorem sendInLoop_carries {e : Endpoint} (h : e.conn.outputBuffer.Inv) (hi : e.InStep)
    (hcb : e.conn.writeCmplCb = false) {message : List Byte} {r : WriteResult}
    (hr : r.Within message.length) :
    ∃ e' asked, e.sendInLoop message r = .ok (e', asked) ∧ e.Carries message e' asked := by
  obtain ⟨e', asked, hs, hsame, hb, hbytes⟩ := sendInLoop_conserves h hr
  obtain ⟨e'', asked', hs', hreports⟩ := sendInLoop_reports h hi hr
  obtain ⟨rfl, rfl⟩ := Prod.mk.inj (Except.ok.inj (hs.symm.trans hs'))
  refine ⟨e', asked, hs, ⟨_, hb, hsame⟩, hbytes, ?_, hreports.inStep, ?_⟩
  · exact (sendInLoop_rewritten h hr hs).channel
  · rcases sendInLoop_cases h message hr with
      ⟨-, hs'⟩ | ⟨-, ⟨-, hs'⟩ | ⟨-, b, asked', -, -, -, hsilent, -, hs'⟩ |
        ⟨-, b, -, -, -, ⟨-, hs'⟩ | ⟨-, hs'⟩⟩⟩ <;>
      obtain ⟨-, rfl⟩ := Prod.mk.inj (Except.ok.inj (hs.symm.trans hs'))
    · simp [complete_of_unset hcb]
    · simp
    · exact hsilent
    · simp
    · simp

theorem handleWrite_carries {e : Endpoint} (h : e.conn.outputBuffer.Inv) (hi : e.InStep)
    (hcb : e.conn.writeCmplCb = false) {r : WriteResult} (hr : r.Within e.outstanding) :
    ∃ e' asked, e.handleWrite r = .ok (e', asked) ∧ e.Carries [] e' asked := by
  obtain ⟨e', asked, hs, hsame, hb, hbytes⟩ := handleWrite_conserves h hr
  obtain ⟨e'', asked', hs', hreports⟩ := handleWrite_reports h hi hr
  obtain ⟨rfl, rfl⟩ := Prod.mk.inj (Except.ok.inj (hs.symm.trans hs'))
  refine ⟨e', asked, hs, ⟨_, hb, hsame⟩, hbytes, ?_, hreports.inStep, ?_⟩
  · exact (handleWrite_rewritten h hr hs).channel
  · rcases handleWrite_cases h hr with hs' | ⟨-, b, n, -, -, -, hs'⟩ | ⟨-, b, -, -, hs'⟩ <;>
      obtain ⟨-, rfl⟩ := Prod.mk.inj (Except.ok.inj (hs.symm.trans hs'))
    · simp
    · simp
    · rw [complete_of_unset hcb]
      split <;> simp

theorem Reading.carried {e e' : Endpoint} {arrived : List Byte} {asked : List Request}
    (h : e.Reading) (hcarries : e.Carries arrived e' asked) : e'.Reading := by
  rcases hcarries.channel with heq | heq | heq <;> rw [Reading, heq]
  · exact h
  · rcases h with h | h <;> rw [Channel.change_events, h] <;> decide
  · rcases h with h | h <;> rw [Channel.change_events, h] <;> decide

theorem Reading.ne_none {e : Endpoint} (h : e.Reading) : e.channel.events ≠ Channel.noneEvent := by
  rcases h with h | h <;> rw [h] <;> decide

end Endpoint

namespace EchoServer

/-- A connection that has emptied its input buffer and queues no callback. -/
structure Tidy (conn : TcpConnection) : Prop where
  writeCmplCb : conn.writeCmplCb = false
  input : conn.inputBuffer.Inv
  emptied : conn.inputBuffer.content = []
  output : conn.outputBuffer.Inv

theorem Tidy.carried {e e' : Endpoint} (h : Tidy e.conn) {arrived : List Byte}
    {asked : List Request} (hcarries : e.Carries arrived e' asked) : Tidy e'.conn := by
  obtain ⟨b, hb, heq⟩ := hcarries.output
  rw [heq]
  exact ⟨h.writeCmplCb, h.input, h.emptied, hb⟩

/-- An endpoint that serves its line. -/
structure Serving (e : Endpoint) : Prop where
  connected : e.conn.state = .connected
  reading : e.Reading
  inStep : e.InStep

theorem Serving.carried {e e' : Endpoint} (h : Serving e) {arrived : List Byte}
    {asked : List Request} (hcarries : e.Carries arrived e' asked) : Serving e' := by
  obtain ⟨b, -, heq⟩ := hcarries.output
  refine ⟨?_, h.reading.carried hcarries, hcarries.inStep⟩
  rw [heq]
  exact h.connected

/-- What an echo server reads. -/
theorem text_received {conn : TcpConnection} (h : Tidy conn) (data : List Byte) :
    text conn (.received data) = data := by
  obtain ⟨b, hb, hinv, hcontent⟩ := Buffer.readFd_received h.input data
  obtain ⟨b', hb', -, -⟩ := Buffer.retrieveAsString_spec hinv
  rw [h.emptied, List.nil_append] at hcontent
  rw [hcontent] at hb'
  simp only [text, hb]
  change ((b.retrieveAsString >>= fun r => pure r.2).toOption.getD []) = data
  rw [hb']
  rfl

/-- The read callback of a line on which bytes arrive: what `readFd` and
`retrieveAsString` leave, and what the send carries. -/
theorem message_carries {conn : TcpConnection} {channel : Channel} (h : Tidy conn)
    (hserving : Serving ⟨conn, channel⟩) {x : Answers} {data : List Byte} (hdata : data ≠ [])
    (hread : x.read = .received data) (hr : x.write.Within data.length) :
    ∃ b input e asked,
      Endpoint.handleRead ⟨conn, channel⟩ x.read =
        .ok (⟨{ conn with inputBuffer := b }, channel⟩, .message) ∧
      b.retrieveAsString = .ok (input, data) ∧
      Endpoint.sendInLoop ⟨{ conn with inputBuffer := input }, channel⟩ data x.write =
        .ok (e, asked) ∧
      Endpoint.Carries ⟨{ conn with inputBuffer := input }, channel⟩ data e asked ∧
      Tidy { conn with inputBuffer := input } ∧
      handleRead ⟨conn, channel⟩ x = .ok (e, asked) := by
  obtain ⟨b, hb, hinv, hcontent⟩ := Buffer.readFd_received h.input data
  rw [h.emptied, List.nil_append] at hcontent
  obtain ⟨input, htext, hinput, hempty⟩ := Buffer.retrieveAsString_spec hinv
  rw [hcontent] at htext
  have hinStep : Endpoint.InStep ⟨{ conn with inputBuffer := input }, channel⟩ := hserving.inStep
  obtain ⟨e, asked, hsend, hcarries⟩ := Endpoint.sendInLoop_carries
    (e := ⟨{ conn with inputBuffer := input }, channel⟩) h.output hinStep h.writeCmplCb hr
  have hpos : 0 < (data.length : Int) := by
    have := List.length_pos_iff.mpr hdata
    omega
  have hmessage : Endpoint.handleRead ⟨conn, channel⟩ x.read =
      .ok (⟨{ conn with inputBuffer := b }, channel⟩, .message) := by
    rw [hread]
    simp only [Endpoint.handleRead, Endpoint.ofBuffer_ok hb]
    exact if_pos hpos
  refine ⟨b, input, e, asked, hmessage, htext, hsend, hcarries,
    ⟨h.writeCmplCb, hinput, hempty, h.output⟩, ?_⟩
  have hsends : Endpoint.sends ⟨{ conn with inputBuffer := input }, channel⟩ = true :=
    beq_iff_eq.mpr hserving.connected
  rw [handleRead, hmessage]
  change (Endpoint.ofBuffer b.retrieveAsString >>= _) = _
  rw [Endpoint.ofBuffer_ok htext]
  change (if _ then _ else _) = _
  rw [if_pos hsends]
  exact hsend

end EchoServer

end Yatwb
