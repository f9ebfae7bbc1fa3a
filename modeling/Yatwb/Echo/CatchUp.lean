import Yatwb.Echo.Runs
import Yatwb.Poller.Report

/-!
# An echo server catches up

Whenever the loop of an echo server polls, the kernel can let it write back all
that has arrived: one connection after the other is reported as writable and
takes what waits in its output buffer. No byte is stuck, as every connection with
unsent bytes asks `poll(2)` for output.
-/

namespace Yatwb

open Foundation

namespace Endpoint

/-- A write that takes everything. -/
theorem handleWrite_all {e : Endpoint} (h : e.conn.outputBuffer.Inv) (hw : e.isWriting = true)
    (hwaits : 0 < e.outstanding) :
    ∃ e' asked, e.handleWrite (.wrote e.outstanding) = .ok (e', asked) ∧ e'.pending = [] := by
  obtain ⟨b, hb, hinv, hcontent⟩ := Buffer.retrieve_spec h (Nat.le_refl e.outstanding)
  have hnil : b.content = [] := by
    rw [hcontent, List.drop_eq_nil_iff, Buffer.length_content h]
    rfl
  have hread : (e.setOutput b).outstanding = 0 := (Buffer.content_eq_nil_iff hinv).mp hnil
  let last := ((e.setOutput b).change .disableWriting).1
  refine ⟨last, [.write (e.conn.outputBuffer.content.take e.outstanding), .update] ++
    (if e.conn.writeCmplCb then [.queueWriteComplete] else []) ++
    (if e.conn.state = .disconnecting then last.shutdownInLoop else []), ?_, hnil⟩
  simp only [handleWrite, hw, WriteResult.value, Int.natCast_pos, hwaits, if_true,
    Int.toNat_natCast, ofBuffer_ok hb]
  change (if (e.setOutput b).outstanding = 0 then _ else _) = _
  rw [if_pos hread]
  rfl

end Endpoint

namespace EchoServer

open World

variable {s s' s'' : EchoServer} {w : World} {owners : List ChannelRef} {c : Nat}
  {conn : TcpConnection} {a : Action}

/-- A fair run leads from one state to the other. -/
def Continues (s s' : EchoServer) : Prop :=
  (machine.startingAt (.ok s)).Reach (whileRunning Fair) (.ok s')

theorem Continues.refl (s : EchoServer) : Continues s s := .init rfl

theorem Continues.trans (h : Continues s s') (h' : Continues s' s'') : Continues s s'' :=
  Machine.Reach.resume h h'

/-- A continuation that closes and accepts no connection and reads nothing. -/
structure Keeps (s s' : EchoServer) : Prop where
  continues : Continues s s'
  serves : ∃ owners, Serves s' owners
  server : s'.world.server = s.world.server
  received : s'.received = s.received

theorem Keeps.trans (h : Keeps s s') (h' : Keeps s' s'') : Keeps s s'' where
  continues := h.continues.trans h'.continues
  serves := h'.serves
  server := h'.server.trans h.server
  received := h'.received.trans h.received

theorem Keeps.listed (h : Keeps s s') (c : Nat) : s'.world.Listed c ↔ s.world.Listed c := by
  rw [Listed, Listed, h.server]

/-- A fair action whose outcome is known. -/
theorem Serves.take (h : Serves s owners) (hfair : Fair s a)
    (hattempt : s.world.attempt (answer s.world a) = .ok w) (hserver : w.server = s.world.server)
    (hreceived : ∀ c, arriving s.world a c = []) : Keeps s (s.after a w) := by
  have hstep : s.step a = .ok (s.after a w) := by
    simp only [EchoServer.step, World.step, hattempt]
    rfl
  obtain ⟨s', hs', hserves⟩ := h.step hfair
  obtain rfl := Except.ok.inj (hstep.symm.trans hs')
  refine ⟨?_, hserves, hserver, ?_⟩
  · refine (Continues.refl s).step ?_ (congrArg some hstep)
    rintro _ ⟨⟩
    exact hfair
  · funext c
    exact (congrArg (s.received c ++ ·) (hreceived c)).trans (List.append_nil _)

theorem after_transmitted (hleaving : leaving s.world a c = []) :
    (s.after a w).transmitted c = s.transmitted c :=
  (congrArg (s.transmitted c ++ ·) hleaving).trans (List.append_nil _)

/-- When the loop polls, no functor waits. -/
theorem Serves.pending_eq_nil (h : Serves s owners)
    (hphase : (s.world.reactors 0).phase = .polling) :
    (s.world.reactors 0).event.pendingFunctors = [] := by
  have hdying := h.life.dying_eq_nil (by rw [hphase]; rfl) (by rw [hphase]; rfl)
  rw [List.eq_nil_iff_forall_not_mem]
  intro f hf
  have hwaiting : f ∈ s.world.waiting 0 := List.mem_append_left _ hf
  obtain ⟨c, rfl⟩ := h.engine.functors f hwaiting
  have hmem : c ∈ s.world.dying := List.mem_filterMap.mpr ⟨_, hwaiting, rfl⟩
  rw [hdying] at hmem
  cases hmem

/-- The slot of a connection with unsent bytes asks for output. -/
theorem Serves.asks_output (h : Serves s owners) (hlisted : s.world.Listed c)
    (hc : s.world.conns c = some conn) (hwaits : 0 < conn.outputBuffer.readableBytes) :
    ∃ (i : Nat) (pfd : PollFd), owners[i]? = some (.conn c) ∧
      (s.world.reactors 0).poller.pollFds[i]? = some pfd ∧ 0 ≤ pfd.fd ∧
      (4 : BitVec 16) &&& ~~~(pfd.events ||| 0x38) = 0 := by
  have hrep := h.inv.wired.rep
  have hmem := mem_of_listed h.inv c hlisted
  obtain ⟨hserving, pfd, hpfd, hfd⟩ := ((h.accounts c).line conn hc).listed hlisted
  obtain ⟨i, pfd', hi, hpfd', hindex, -⟩ := hrep.position hmem
  rw [hindex, Int.toNat_natCast, hpfd'] at hpfd
  obtain rfl := Option.some.inj hpfd
  refine ⟨i, pfd', hi, hpfd', ?_, ?_⟩
  · rw [hfd]
    exact hrep.fd_nonneg _ hmem
  · have hevents := (hrep.slot i _ pfd' hi hpfd').2
    have hunsent : Endpoint.outstanding ⟨conn, s.world.channels (.conn c)⟩ ≠ 0 :=
      Nat.ne_of_gt hwaits
    rw [hserving.reading.events hserving.inStep, if_neg hunsent] at hevents
    have hword : pfd'.events = 7 := by
      rw [← Poller.setWidth_signExtend pfd'.events, hevents]
      decide
    rw [hword]
    decide

/-- `poll(2)` reports the connection as writable, and the loop takes it up. -/
theorem Serves.report (h : Serves s owners) (hphase : (s.world.reactors 0).phase = .polling)
    (hlisted : s.world.Listed c) (hc : s.world.conns c = some conn)
    (hwaits : 0 < conn.outputBuffer.readableBytes) :
    ∃ s', Keeps s s' ∧ (s'.world.reactors 0).phase = .handling (.conn c) [.write] [] ∧
      (s'.world.reactors 0).event = (s.world.reactors 0).event ∧
      s'.world.conns = s.world.conns ∧ s'.transmitted = s.transmitted := by
  have hrep := h.inv.wired.rep
  obtain ⟨i, pfd, hi, hpfd, hfd, hasked⟩ := h.asks_output hlisted hc hwaits
  have hfits := hrep.reportFits hi hpfd hfd hasked
  obtain ⟨poller, channels, hpoll, -, hrevents⟩ := hrep.poll_reportOf hfits
    (List.mem_of_getElem? hi) (by decide)
  let reported := Poller.reportOf owners (.conn c) 4
  have hreturn : s.world.attempt (.pollReturn 0 reported 1) =
      .ok { (s.world.setPoller 0 poller).setPhase 0 (.dispatching [.conn c]) with
        channels := channels } := by
    simp only [World.attempt, hphase, if_true, World.pollReturn]
    rw [hpoll]
    rfl
  have hkeeps := h.take (a := .pollReturn 0 reported 1)
    ⟨⟨hfits, trivial⟩, rfl, trivial, trivial⟩ hreturn rfl fun _ => rfl
  generalize hs₁ : s.after (.pollReturn 0 reported 1) _ = s₁ at hkeeps
  have hphase₁ : (s₁.world.reactors 0).phase = .dispatching [.conn c] := by
    rw [← hs₁]
    exact phase_setPhase_self _ 0 _
  obtain ⟨owners₁, hserves₁⟩ := hkeeps.serves
  have hnext : s₁.world.attempt (.nextChannel 0) =
      .ok (s₁.world.setPhase 0 (.handling (.conn c) [.write] [])) := by
    have hword : Channel.handleEvents ((4 : BitVec 16).signExtend 32) = [.write] := by decide
    have hreported : (s₁.world.channels (.conn c)).revents = (4 : BitVec 16).signExtend 32 := by
      rw [← hs₁]
      exact hrevents
    simp only [World.attempt, hphase₁]
    rw [nextChannel_eq hserves₁.inv hphase₁, hreported, hword]
  have hkeeps' := hserves₁.take (a := .nextChannel 0)
    ⟨⟨trivial, trivial⟩, rfl, trivial, trivial⟩ hnext rfl fun _ => rfl
  refine ⟨_, hkeeps.trans hkeeps', phase_setPhase_self _ 0 _, ?_, ?_, ?_⟩
  · change ((s₁.world.setPhase 0 _).reactors 0).event = _
    rw [event_setPhase, ← hs₁]
    change (((s.world.setPoller 0 poller).setPhase 0 _).reactors 0).event = _
    rw [event_setPhase, event_setPoller]
  · change s₁.world.conns = _
    rw [← hs₁]
    rfl
  · funext c'
    rw [after_transmitted rfl, ← hs₁, after_transmitted rfl]

/-- `write(2)` takes all that waits, and the answers to the other calls are not needed. -/
def takingAll (conn : TcpConnection) : Answers :=
  { noAnswers with write := .wrote conn.outputBuffer.readableBytes }

/-- The write callback of a line with unsent bytes sends all of them. -/
theorem Serves.drain (h : Serves s owners)
    (hphase : (s.world.reactors 0).phase = .handling (.conn c) [.write] [])
    (hlisted : s.world.Listed c) (hc : s.world.conns c = some conn)
    (hwaits : 0 < conn.outputBuffer.readableBytes) :
    ∃ s', Keeps s s' ∧ (s'.world.reactors 0).phase = .handling (.conn c) [] [] ∧
      (s'.world.reactors 0).event = (s.world.reactors 0).event ∧
      s'.transmitted c = s.received c ∧ ∀ c', c' ≠ c → s'.transmitted c' = s.transmitted c' := by
  let x := takingAll conn
  have hpop := h.pop hphase
  have hcurrent := current_of_phase hphase
  have hline := (h.accounts c).line conn hc
  have hserving := h.serving hc hlisted
  have hopen : conn.Open := Or.inl hserving.connected
  have hlength := Buffer.length_content hline.tidy.output
  obtain ⟨e, asked, hwrite, hempty⟩ := Endpoint.handleWrite_all
    (e := ⟨conn, s.world.channels (.conn c)⟩) hline.tidy.output (hserving.inStep.mpr hwaits) hwaits
  have hwithin : x.write.Within conn.outputBuffer.readableBytes := Nat.le_refl _
  obtain ⟨e', asked', hwrite', hcarries⟩ := Endpoint.handleWrite_carries
    (e := ⟨conn, s.world.channels (.conn c)⟩) hline.tidy.output hserving.inStep
    hline.tidy.writeCmplCb hwithin
  obtain ⟨rfl, rfl⟩ := Prod.mk.inj (Except.ok.inj (hwrite'.symm.trans hwrite))
  obtain ⟨w, hw, hcommitted⟩ := hpop.write_eq hc hopen hline.owner hwrite' hcarries.silent
  have hattempt : s.world.attempt (answer s.world (.callback 0 x)) = .ok w := by
    simp only [answer, World.attempt, hphase]
    exact hw
  have hserver : w.server = s.world.server := hcommitted.server
  have harriving (c' : Nat) : arriving s.world (.callback 0 x) c' = [] := by
    by_cases heq : c' = c
    · subst heq
      exact arriving_of_ne hcurrent (by simp)
    · exact arriving_other hcurrent heq
  have hnone : ¬ 0 ≤ x.connfd := Int.not_le.mpr (by decide : (-1 : Int) < 0)
  have hfair : Fair s (.callback 0 x) := by
    refine ⟨⟨fun hneg => absurd hneg hnone, trivial⟩, ?_, ?_, fun hneg => absurd hneg hnone⟩
    · simp only [World.lateRead, hphase]
    · intro bytes hbytes
      simp only [offered, hcurrent, hc, Option.map_some, Option.mem_some_iff] at hbytes
      rw [← hbytes, hlength]
      exact hwithin
  have hkeeps := h.take hfair hattempt hserver harriving
  refine ⟨_, hkeeps, ?_, ?_, ?_, fun c' hne => ?_⟩
  · change (w.reactors 0).phase = _
    rw [hcommitted.phase, phase_setPhase_self]
  · change (w.reactors 0).event = _
    rw [hcommitted.event, event_setPhase]
  · obtain ⟨owners', hserves'⟩ := hkeeps.serves
    have hbytes := ((hserves'.accounts c).line e'.conn hcommitted.conn).bytes
    rw [show e'.conn.outputBuffer.content = [] from hempty, List.append_nil, hkeeps.received]
      at hbytes
    exact hbytes
  · exact after_transmitted (leaving_other hcurrent hne)

/-- After its only channel, the loop finds no functor and polls again. -/
theorem Serves.pollAgain (h : Serves s owners) {ref : ChannelRef}
    (hphase : (s.world.reactors 0).phase = .handling ref [] [])
    (hpending : (s.world.reactors 0).event.pendingFunctors = []) :
    ∃ s', Keeps s s' ∧ (s'.world.reactors 0).phase = .polling ∧ s'.transmitted = s.transmitted := by
  have hend : s.world.attempt (.endChannel 0) = .ok (s.world.setPhase 0 (.dispatching [])) := by
    simp only [World.attempt, hphase]
  have hkeeps := h.take (a := .endChannel 0)
    ⟨⟨trivial, trivial⟩, rfl, trivial, trivial⟩ hend rfl fun _ => rfl
  generalize hs₁ : s.after (.endChannel 0) _ = s₁ at hkeeps
  have hphase₁ : (s₁.world.reactors 0).phase = .dispatching [] := by
    rw [← hs₁]
    exact phase_setPhase_self _ 0 _
  have hpending₁ : (s₁.world.reactors 0).event.pendingFunctors = [] := by
    rw [← hs₁]
    change ((s.world.setPhase 0 _).reactors 0).event.pendingFunctors = []
    rw [event_setPhase, hpending]
  obtain ⟨owners₁, hserves₁⟩ := hkeeps.serves
  have htake : s₁.world.attempt (.doPendingFunctors 0) = .ok ((s₁.world.setEvent 0
      (taking (s₁.world.reactors 0).event)).setPhase 0 (.functors [])) := by
    simp only [World.attempt, hphase₁]
    rw [hserves₁.engine.doPendingFunctors_eq hphase₁, hpending₁]
  have hkeeps₁ := hserves₁.take (a := .doPendingFunctors 0)
    ⟨⟨trivial, trivial⟩, rfl, trivial, trivial⟩ htake rfl fun _ => rfl
  generalize hs₂ : s₁.after (.doPendingFunctors 0) _ = s₂ at hkeeps₁
  have hphase₂ : (s₂.world.reactors 0).phase = .functors [] := by
    rw [← hs₂]
    exact phase_setPhase_self _ 0 _
  obtain ⟨owners₂, hserves₂⟩ := hkeeps₁.serves
  have hfinish : s₂.world.attempt (.endFunctors 0) = .ok ((s₂.world.setEvent 0
      (s₂.world.reactors 0).event.endFunctors).setPhase 0 .polling) := by
    simp only [World.attempt, hphase₂]
  have hkeeps₂ := hserves₂.take (a := .endFunctors 0)
    ⟨⟨trivial, trivial⟩, rfl, trivial, trivial⟩ hfinish rfl fun _ => rfl
  refine ⟨_, (hkeeps.trans hkeeps₁).trans hkeeps₂, phase_setPhase_self _ 0 _, ?_⟩
  funext c
  rw [after_transmitted rfl, ← hs₂, after_transmitted rfl, ← hs₁, after_transmitted rfl]

/-- One iteration of the loop writes back what waits on one connection. -/
theorem Serves.flush (h : Serves s owners) (hphase : (s.world.reactors 0).phase = .polling)
    (hlisted : s.world.Listed c) :
    ∃ s', Keeps s s' ∧ (s'.world.reactors 0).phase = .polling ∧
      s'.transmitted c = s.received c ∧ ∀ c', c' ≠ c → s'.transmitted c' = s.transmitted c' := by
  obtain ⟨conn, hc, -⟩ := h.inv.owned.conn_of_mem (mem_of_listed h.inv c hlisted)
  have hline := (h.accounts c).line conn hc
  rcases Nat.eq_zero_or_pos conn.outputBuffer.readableBytes with hzero | hwaits
  · have hsent := hline.bytes
    rw [(Buffer.content_eq_nil_iff hline.tidy.output).mpr hzero, List.append_nil] at hsent
    exact ⟨s, ⟨.refl s, ⟨owners, h⟩, rfl, rfl⟩, hphase, hsent, fun _ _ => rfl⟩
  · obtain ⟨s₁, hkeeps₁, hphase₁, hevent₁, hconns₁, hsent₁⟩ := h.report hphase hlisted hc hwaits
    obtain ⟨owners₁, hserves₁⟩ := hkeeps₁.serves
    obtain ⟨s₂, hkeeps₂, hphase₂, hevent₂, hsent₂, hothers₂⟩ := hserves₁.drain hphase₁
      ((hkeeps₁.listed c).mpr hlisted) (hconns₁ ▸ hc) hwaits
    obtain ⟨owners₂, hserves₂⟩ := hkeeps₂.serves
    have hpending : (s₂.world.reactors 0).event.pendingFunctors = [] := by
      rw [hevent₂, hevent₁, h.pending_eq_nil hphase]
    obtain ⟨s₃, hkeeps₃, hphase₃, hsent₃⟩ := hserves₂.pollAgain hphase₂ hpending
    refine ⟨s₃, (hkeeps₁.trans hkeeps₂).trans hkeeps₃, hphase₃, ?_, fun c' hne => ?_⟩
    · rw [hsent₃, hsent₂, hkeeps₁.received]
    · rw [hsent₃, hothers₂ c' hne, hsent₁]

/-- One iteration for each connection of a list. -/
theorem Serves.flush_all (h : Serves s owners) (hphase : (s.world.reactors 0).phase = .polling)
    (cs : List Nat) (hlisted : ∀ c ∈ cs, s.world.Listed c) :
    ∃ s', Keeps s s' ∧ (s'.world.reactors 0).phase = .polling ∧
      ∀ c ∈ cs, s'.transmitted c = s.received c := by
  induction cs with
  | nil => exact ⟨s, ⟨.refl s, ⟨owners, h⟩, rfl, rfl⟩, hphase, fun c hc => by cases hc⟩
  | cons c cs ih =>
      obtain ⟨s₁, hkeeps₁, hphase₁, hsent₁⟩ :=
        ih fun c' hc' => hlisted c' (List.mem_cons_of_mem _ hc')
      obtain ⟨owners₁, hserves₁⟩ := hkeeps₁.serves
      obtain ⟨s₂, hkeeps₂, hphase₂, hsent₂, hothers₂⟩ := hserves₁.flush hphase₁
        ((hkeeps₁.listed c).mpr (hlisted c (List.mem_cons_self ..)))
      refine ⟨s₂, hkeeps₁.trans hkeeps₂, hphase₂, fun c' hc' => ?_⟩
      by_cases heq : c' = c
      · rw [heq, hsent₂, hkeeps₁.received]
      · rw [hothers₂ c' heq]
        exact hsent₁ c' ((List.mem_cons.mp hc').resolve_left heq)

/-- Whenever the loop polls, a fair continuation in which nothing is read, accepted or
closed brings the server to a poll at which every listed connection has got back all
that has arrived on it. -/
theorem catches_up (h : Reach (.ok s)) (hphase : (s.world.reactors 0).phase = .polling) :
    ∃ s', Continues s s' ∧ (s'.world.reactors 0).phase = .polling ∧
      s'.received = s.received ∧ s'.world.server = s.world.server ∧
      ∀ c, s.world.Listed c → s'.transmitted c = s.received c := by
  obtain ⟨_, ⟨⟩, owners, hserves⟩ := serves_of_reach h
  let cs := s.world.server.connections.toList.map Prod.snd
  have hmem (c : Nat) : c ∈ cs ↔ s.world.Listed c := by
    simp only [cs, List.mem_map, Prod.exists, exists_eq_right, Listed,
      Std.ExtTreeMap.mem_toList_iff_getElem?_eq_some]
  obtain ⟨s', hkeeps, hphase', hsent⟩ :=
    hserves.flush_all hphase cs fun c hc => (hmem c).mp hc
  exact ⟨s', hkeeps.continues, hphase', hkeeps.received, hkeeps.server,
    fun c hlisted => hsent c ((hmem c).mpr hlisted)⟩

section Example

/-- Two of the three bytes wait when the loop polls, and are written back in the end. -/
theorem example_catches_up : ∃ s s', Reach (.ok s) ∧ s.transmitted 0 = [7] ∧
    Continues s s' ∧ s'.transmitted 0 = [7, 8, 9] := by
  obtain ⟨x, hx, hp⟩ := Machine.exists_reach (whileRunning Fair) (M := machine)
    ⟨fresh, rfl, constructed_fresh⟩ (exampleRun.take 15)
    (fun x => match x with
      | .ok s => (s.world.reactors 0).phase = .polling ∧ s.received 0 = [7, 8, 9] ∧
          s.transmitted 0 = [7] ∧ s.world.server.connections["echo#1"]? = some 0
      | .error _ => false) (by decide +kernel)
  cases x with
  | error f => cases hp
  | ok s =>
      obtain ⟨hphase, hreceived, hsent, hname⟩ := of_decide_eq_true hp
      obtain ⟨s', hcontinues, -, -, -, hall⟩ := catches_up hx hphase
      exact ⟨s, s', hx, hsent, hcontinues, (hall 0 ⟨"echo#1", hname⟩).trans hreceived⟩

end Example

end EchoServer

end Yatwb
