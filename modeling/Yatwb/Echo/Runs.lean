import Yatwb.Echo.Callbacks

/-!
# Runs of an echo server

As long as the memory of a new channel holds its loop, no read comes after its
own hang-up and the connections can be counted, no run of the echo server ends
with a fault: no assert fails, no pointer dangles and the loop never waits for
a lock that it holds. Every byte that arrives on a connection is written back
on it, once and in order, and every listed connection is watched by `poll(2)`
for input and, exactly while bytes are unsent, for output.
-/

namespace Yatwb

open Foundation

namespace EchoServer

open World

variable {s : EchoServer} {w : World} {owners : List ChannelRef} {a : Action}

/-! ### The step -/

theorem undisturbed_answer (h : Undisturbed w a) : Undisturbed w (answer w a) := by
  obtain ⟨hkernel, hlocal⟩ := h
  cases a with
  | callback l x => exact ⟨hkernel, trivial⟩
  | functor l x => exact ⟨trivial, trivial⟩
  | start | wire _ | enterLoop _ | pollReturn _ _ _ | nextChannel _ | endChannel _
  | doPendingFunctors _ | endFunctors _ | send _ _ _ | shutdown _ _ | destroy _ =>
      exact ⟨hkernel, hlocal⟩

theorem lateRead_answer (w : World) (a : Action) : w.lateRead (answer w a) = w.lateRead a := by
  cases a <;> rfl

/-- The calls of the server in the read callback of a connection. -/
theorem acts_read {c : Nat} {conn : TcpConnection} {x : Answers}
    (hcurrent : w.current 0 = some (c, .read)) (hc : w.conns c = some conn) :
    acts w 0 x = onMessage c (text conn x.read) x.write := by
  simp [acts, hcurrent, hc]

/-- The read callback of the wake-up channel. -/
theorem Engine.handleRead (h : Engine w) :
    Engine (w.setEvent 0 (w.reactors 0).event.handleRead) where
  mutex := by
    rw [event_setEvent_self, phase_setEvent]
    exact h.mutex
  looping := by
    rw [event_setEvent_self, phase_setEvent]
    exact h.looping
  pool := h.pool
  functors := by
    rw [waiting, event_setEvent_self, phase_setEvent]
    exact h.functors
  writeCmplCb := h.writeCmplCb
  owner := h.owner

theorem Serves.callback (h : Serves s owners) {x : Answers} (hfair : Fair s (.callback 0 x))
    {ref : ChannelRef} {cb : Channel.Callback} {callbacks : List Channel.Callback}
    {active : List ChannelRef}
    (hphase : (s.world.reactors 0).phase = .handling ref (cb :: callbacks) active) :
    Runs s (.callback 0 x) ((s.world.setPhase 0 (.handling ref callbacks active)).runCallback 0
      { x with acts := acts s.world 0 x } ref cb) := by
  have hpop := h.pop hphase
  have hoffered : ∀ bytes ∈ offered s.world 0 x, x.write.Within bytes.length := hfair.offered
  cases ref with
  | acceptor =>
      have hcurrent : s.world.current 0 = none := by simp [current, hphase]
      have hacts : acts s.world 0 x = onConnection := by simp [acts, hcurrent]
      cases cb with
      | read =>
          rw [hacts]
          exact h.accept hphase hfair.undisturbed.1 hfair.accepts
      | close | error | write => exact h.silent (silent_of_current hcurrent) hpop.engine hpop.same
  | timer l =>
      have hcurrent : s.world.current 0 = none := by simp [current, hphase]
      have hacts : acts s.world 0 x = onConnection := by simp [acts, hcurrent]
      have hrefs := h.inv.owned.refs
      rw [hphase] at hrefs
      have hl : l = 0 := h.inv.wired.homeLoop_eq (hrefs _ (List.mem_cons_self ..))
      cases cb with
      | read =>
          rw [hacts, runCallback, hpop.inv.wired.home.assert_bind hl]
          exact h.silent (silent_of_current hcurrent) hpop.engine hpop.same
      | close | error | write => exact h.silent (silent_of_current hcurrent) hpop.engine hpop.same
  | wakeup l =>
      have hcurrent : s.world.current 0 = none := by simp [current, hphase]
      have hrefs := h.inv.owned.refs
      rw [hphase] at hrefs
      have hl : l = 0 := h.inv.wired.homeLoop_eq (hrefs _ (List.mem_cons_self ..))
      cases cb with
      | read =>
          subst hl
          exact h.silent (silent_of_current hcurrent) hpop.engine.handleRead
            (hpop.same.trans (Alike.setEvent _ _))
      | close | error | write => exact h.silent (silent_of_current hcurrent) hpop.engine hpop.same
  | conn c =>
      have hcurrent := current_of_phase hphase
      obtain ⟨-, conn, hc, -⟩ := h.conn_of_phase hphase
      cases cb with
      | close => exact h.close hphase hfair.early
      | error =>
          rw [runCallback, endpoint_eq (hpop.conns ▸ hc)]
          apply h.idle hcurrent (arriving_of_ne hcurrent (by simp)) _ hpop.engine hpop.same
          rw [leaving_self hcurrent hc]
          rfl
      | read =>
          rw [acts_read hcurrent hc]
          have hwithin : x.write.Within (text conn x.read).length :=
            hoffered _ (by simp [offered, hcurrent, hc])
          cases hread : x.read with
          | error errno =>
              have hruns := h.readError hphase hread (onMessage c (text conn x.read) x.write)
              rw [hread] at hruns
              exact hruns
          | received data =>
              have hruns : Runs s (.callback 0 x) ((s.world.setPhase 0 (.handling (.conn c)
                  callbacks active)).handleRead 0 c x.read
                  (onMessage c (text conn x.read) x.write)) := by
                by_cases hdata : data = []
                · exact h.readEnd hphase hfair.early (hdata ▸ hread) _
                · exact h.readMessage hphase hfair.early hdata hread hc hwithin
              rw [hread] at hruns
              exact hruns
      | write =>
          have hwithin : x.write.Within conn.outputBuffer.content.length :=
            hoffered _ (by simp [offered, hcurrent, hc])
          have houtput := ((h.accounts c).line conn hc).tidy.output
          exact h.write hphase hc (Buffer.length_content houtput ▸ hwithin)

/-- A thread that is not between two callbacks of a channel runs none. -/
theorem attempt_callback_idle {l : LoopId} {x : Answers}
    (hidle : ∀ ref cb callbacks active,
      (w.reactors l).phase ≠ .handling ref (cb :: callbacks) active) :
    w.attempt (.callback l x) = .ok w := by
  simp only [World.attempt]

/-- Every fair action runs. -/
theorem Serves.attempt (h : Serves s owners) (hfair : Fair s a) :
    Runs s a (s.world.attempt (answer s.world a)) := by
  have hhome := h.inv.wired.home
  have hlocal := hfair.undisturbed.2
  by_cases hcallback : ∃ l x, a = .callback l x
  · obtain ⟨l, x, rfl⟩ := hcallback
    by_cases hphase : ∃ ref cb callbacks active,
        (s.world.reactors l).phase = .handling ref (cb :: callbacks) active
    · obtain ⟨ref, cb, callbacks, active, hphase⟩ := hphase
      obtain rfl := hhome.eq_zero_of_phase hphase (by simp)
      simp only [answer, World.attempt, hphase]
      exact h.callback hfair hphase
    · rw [answer, attempt_callback_idle fun ref cb callbacks active heq =>
        hphase ⟨ref, cb, callbacks, active, heq⟩]
      have hcurrent : s.world.current l = none := by
        unfold current
        split
        · rename_i heq
          exact absurd ⟨_, _, _, _, heq⟩ hphase
        · rfl
      apply h.silent _ h.engine (.refl _ _)
      intro c
      simp [arriving, leaving, hcurrent]
  · have hsilent (c : Nat) : arriving s.world a c = [] ∧ leaving s.world a c = [] := by
      cases a with
      | callback l x => exact absurd ⟨l, x, rfl⟩ hcallback
      | start | wire _ | enterLoop _ | pollReturn _ _ _ | nextChannel _ | endChannel _
      | doPendingFunctors _ | functor _ _ | endFunctors _ | send _ _ _ | shutdown _ _
      | destroy _ => exact ⟨rfl, rfl⟩
    have hstay : Runs s a (.ok s.world) := h.silent hsilent h.engine (.refl _ _)
    have hattempted := s.world.attempted (answer s.world a)
    generalize s.world.attempt (answer s.world a) = y at hattempted ⊢
    cases a with
    | callback l x => exact absurd ⟨l, x, rfl⟩ hcallback
    | start =>
        cases hattempted with
        | stay => exact hstay
        | start => exact h.tends hsilent (h.engine.start h.inv)
    | wire l =>
        cases hattempted with
        | stay => exact hstay
        | wire _ hl =>
            rw [hhome.eq_zero_of_hasLoop hl]
            exact h.tends hsilent (h.engine.wire h.inv)
    | enterLoop l =>
        cases hattempted with
        | stay => exact hstay
        | enterLoop _ hl hphase =>
            obtain rfl := hhome.eq_zero_of_hasLoop hl
            exact h.tends hsilent (h.engine.enterLoop h.inv hphase)
    | pollReturn l reported numEvents =>
        cases hattempted with
        | stay => exact hstay
        | pollReturn _ _ _ hphase =>
            obtain rfl := hhome.eq_zero_of_phase hphase (by simp)
            exact h.tends hsilent (h.engine.pollReturn h.inv hphase numEvents hfair.undisturbed.1)
    | nextChannel l =>
        cases hattempted with
        | stay => exact hstay
        | nextChannel _ ref active hphase =>
            obtain rfl := hhome.eq_zero_of_phase hphase (by simp)
            exact h.tends hsilent (h.engine.nextChannel h.inv hphase)
    | endChannel l =>
        cases hattempted with
        | stay => exact hstay
        | endChannel _ ref active hphase =>
            obtain rfl := hhome.eq_zero_of_phase hphase (by simp)
            exact h.tends hsilent (h.engine.endChannel h.inv hphase)
    | doPendingFunctors l =>
        cases hattempted with
        | stay => exact hstay
        | doPendingFunctors _ hphase =>
            obtain rfl := hhome.eq_zero_of_phase hphase (by simp)
            exact h.tends hsilent (h.engine.doPendingFunctors h.inv hphase)
    | functor l x =>
        cases hattempted with
        | stay => exact hstay
        | functor _ _ f rest hphase =>
            obtain rfl := hhome.eq_zero_of_phase hphase (by simp)
            exact h.functor hphase
    | endFunctors l =>
        cases hattempted with
        | stay => exact hstay
        | endFunctors _ hphase =>
            obtain rfl := hhome.eq_zero_of_phase hphase (by simp)
            exact h.tends hsilent (h.engine.endFunctors h.inv hphase)
    | send tid c message => exact hlocal.elim
    | shutdown tid c => exact hlocal.elim
    | destroy c =>
        cases hattempted with
        | stay => exact hstay
        | destroy => exact h.destroy c

/-- Every fair action ends without a fault and keeps the invariant. -/
theorem Serves.step (h : Serves s owners) (hfair : Fair s a) :
    ∃ s', s.step a = .ok s' ∧ ∃ owners', Serves s' owners' := by
  obtain ⟨w', hw', hengine, haccounts⟩ := h.attempt hfair
  obtain ⟨hkernel, hlocal⟩ := undisturbed_answer hfair.undisturbed
  have hstep : s.world.step (answer s.world a) = .ok w' := by
    simp only [World.step, hw']
  obtain ⟨⟨owners', hinv⟩, heffect⟩ := (h.inv.step hkernel hlocal).of_eq_ok hstep
  have hearly : s.world.lateRead (answer s.world a) = false :=
    (lateRead_answer s.world a).trans hfair.early
  refine ⟨s.after a w', ?_, owners', hinv, h.life.effect h.inv.owned hearly heffect, hengine,
    haccounts⟩
  rw [EchoServer.step, hstep]
  rfl

theorem Constructed.serves (h : Constructed s) : Serves s [] := by
  obtain ⟨flag, counter, hbase⟩ := h.initial.reactors 0
  obtain ⟨name, writeCmplCb, hserver⟩ := h.initial.server
  refine ⟨Inv.init h.initial, life_init h.initial, ?_, fun c => ⟨?_, fun _ => ?_, fun _ =>
    ⟨h.received c, h.transmitted c⟩⟩⟩
  · constructor
    · rw [hbase]
      rfl
    · rw [hbase]
      exact fun _ => rfl
    · rw [hserver]
      exact fun _ => rfl
    · rw [waiting, hbase]
      exact fun f hf => absurd hf List.not_mem_nil
    · exact h.writeCmplCb
    · exact h.owner
  · intro conn hc
    rw [h.initial.conns] at hc
    cases hc
  · rw [h.transmitted]
    exact List.nil_prefix

theorem serves_of_reach {x : Except Fault EchoServer} (h : Reach x) :
    ∃ s, x = .ok s ∧ ∃ owners, Serves s owners :=
  faultless (fun _ hs => ⟨[], Constructed.serves hs⟩)
    (fun _ _ ⟨_, hs⟩ hfair => hs.step hfair) h

/-! ### The results -/

/-- No fair run of an echo server ends with a fault. -/
theorem never_faults {x : Except Fault EchoServer} (h : Reach x) : ∃ s, x = .ok s := by
  obtain ⟨s, rfl, -⟩ := serves_of_reach h
  exact ⟨s, rfl⟩

/-- In every fair run, what has been written on a connection followed by what
waits to be written is what has arrived on it; a connection that is gone got
back a beginning of it. -/
theorem echoes_every_byte {s : EchoServer} (h : Reach (.ok s)) (c : Nat) :
    (∀ conn, s.world.conns c = some conn →
      s.transmitted c ++ conn.outputBuffer.content = s.received c ∧
        conn.inputBuffer.content = []) ∧
      s.transmitted c <+: s.received c := by
  obtain ⟨s', ⟨⟩, owners, hserves⟩ := serves_of_reach h
  have haccount := hserves.accounts c
  refine ⟨fun conn hc => ⟨(haccount.line conn hc).bytes, (haccount.line conn hc).tidy.emptied⟩, ?_⟩
  cases hc : s.world.conns c with
  | none => exact haccount.past hc
  | some conn =>
      rw [← (haccount.line conn hc).bytes]
      exact List.prefix_append _ _

/-- What `poll(2)` is asked about a connection. -/
def Polls (w : World) (c : Nat) (asked : Events) : Prop :=
  ∃ pfd, (w.reactors 0).poller.pollFds[(w.channels (.conn c)).index.toNat]? = some pfd ∧
    pfd.fd = (w.channels (.conn c)).fd ∧ 0 ≤ pfd.fd ∧ pfd.events.signExtend 32 = asked

/-- In every fair run `poll(2)` is asked for the input of every listed connection,
and for its output exactly while bytes are unsent. A connection that has been
closed and is still registered is asked for nothing. -/
theorem listed_lines_polled {s : EchoServer} (h : Reach (.ok s)) :
    (∀ (name : String) c, s.world.server.connections[name]? = some c → ∃ conn,
      s.world.conns c = some conn ∧ conn.state = .connected ∧
        Polls s.world c (if s.transmitted c = s.received c then Channel.readEvent
          else Channel.readEvent ||| Channel.writeEvent)) ∧
      ∀ (c : Nat) (fd : Int), (s.world.reactors 0).poller.channelMap[fd]? =
        some (ChannelRef.conn c) →
        (∀ name : String, s.world.server.connections[name]? ≠ some c) →
        ∃ pfd, (s.world.reactors 0).poller.pollFds[(s.world.channels (.conn c)).index.toNat]? =
          some pfd ∧ pfd.events.signExtend 32 = Channel.noneEvent := by
  obtain ⟨s', ⟨⟩, owners, hserves⟩ := serves_of_reach h
  have hrep := hserves.inv.wired.rep
  have hslot {ref : ChannelRef} (hmem : ref ∈ owners) {pfd : PollFd}
      (hpfd : (s.world.reactors 0).poller.pollFds[(s.world.channels ref).index.toNat]? =
        some pfd) : pfd.events.signExtend 32 = (s.world.channels ref).events := by
    obtain ⟨i, pfd', hi, hpfd', hindex, -⟩ := hrep.position hmem
    rw [hindex, Int.toNat_natCast, hpfd'] at hpfd
    exact Option.some.inj hpfd ▸ (hrep.slot i ref pfd' hi hpfd').2
  constructor
  · intro name c hname
    have hlisted : s.world.Listed c := ⟨name, hname⟩
    obtain ⟨hmem, conn, hc, -⟩ := hserves.inv.owned.named name c hname
    have hline := (hserves.accounts c).line conn hc
    obtain ⟨hserving, pfd, hpfd, hfd⟩ := hline.listed hlisted
    refine ⟨conn, hc, hserving.connected, ⟨pfd, hpfd, hfd, ?_, ?_⟩⟩
    · rw [hfd]
      exact hrep.fd_nonneg _ hmem
    · have hsent : s.transmitted c = s.received c ↔ conn.outputBuffer.readableBytes = 0 := by
        rw [← hline.bytes, ← Buffer.content_eq_nil_iff hline.tidy.output]
        simp
      simp only [hslot hmem hpfd, hsent]
      exact hserving.reading.events hserving.inStep
  · intro c fd hmap hout
    obtain ⟨hmem, -⟩ := (hrep.map_iff fd _).mp hmap
    obtain ⟨conn, hc, -⟩ := hserves.inv.owned.conn_of_mem hmem
    have hline := (hserves.accounts c).line conn hc
    obtain ⟨i, pfd, -, hpfd, hindex, -⟩ := hrep.position hmem
    have hpfd' : (s.world.reactors 0).poller.pollFds[(s.world.channels (.conn c)).index.toNat]? =
        some pfd := by rw [hindex, Int.toNat_natCast, hpfd]
    exact ⟨pfd, hpfd', (hslot hmem hpfd').trans
      (hline.unlisted fun ⟨name, hname⟩ => hout name hname)⟩

section Example

/-- A client connects and sends three bytes, of which one is written at once and
one a little later. -/
def exampleRun : List Action :=
  [.start, .wire 0, .enterLoop 0, .pollReturn 0 [1, 0, 0] 1, .nextChannel 0,
    .callback 0 { noAnswers with connfd := 100 }, .endChannel 0, .doPendingFunctors 0,
    .endFunctors 0, .pollReturn 0 [0, 0, 0, 1] 1, .nextChannel 0,
    .callback 0 { noAnswers with read := .received [7, 8, 9], write := .wrote 1 },
    .endChannel 0, .doPendingFunctors 0, .endFunctors 0, .pollReturn 0 [0, 0, 0, 4] 1,
    .nextChannel 0, .callback 0 { noAnswers with write := .wrote 1 }]

theorem reach_example : ∃ s, Reach (.ok s) ∧ s.received 0 = [7, 8, 9] ∧
    s.transmitted 0 = [7, 8] ∧ (∃ conn, s.world.conns 0 = some conn) ∧
    s.world.server.connections["echo#1"]? = some 0 := by
  obtain ⟨x, hx, hp⟩ := Machine.exists_reach (whileRunning Fair) (M := machine)
    ⟨fresh, rfl, constructed_fresh⟩ exampleRun
    (fun x => match x with
      | .ok s => s.received 0 = [7, 8, 9] ∧ s.transmitted 0 = [7, 8] ∧
          (s.world.conns 0).isSome ∧ s.world.server.connections["echo#1"]? = some 0
      | .error _ => false) (by decide +kernel)
  cases x with
  | error f => cases hp
  | ok s =>
      obtain ⟨hreceived, htransmitted, hconn, hname⟩ := of_decide_eq_true hp
      exact ⟨s, hx, hreceived, htransmitted, Option.isSome_iff_exists.mp hconn, hname⟩

theorem example_never_faults : ∃ x, Reach x ∧ ∃ s, x = .ok s := by
  obtain ⟨s, hs, -⟩ := reach_example
  exact ⟨.ok s, hs, never_faults hs⟩

/-- One of the three bytes waits to be written. -/
theorem example_echoes_every_byte : ∃ s conn, Reach (.ok s) ∧ s.world.conns 0 = some conn ∧
    conn.outputBuffer.content = [9] := by
  obtain ⟨s, hs, hreceived, htransmitted, ⟨conn, hconn⟩, -⟩ := reach_example
  obtain ⟨hbytes, -⟩ := (echoes_every_byte hs 0).1 conn hconn
  rw [hreceived, htransmitted] at hbytes
  exact ⟨s, conn, hs, hconn, List.append_cancel_left hbytes⟩

/-- `poll(2)` is asked for input and output while that byte waits. -/
theorem example_listed_lines_polled : ∃ s, Reach (.ok s) ∧
    Polls s.world 0 (Channel.readEvent ||| Channel.writeEvent) := by
  obtain ⟨s, hs, hreceived, htransmitted, -, hname⟩ := reach_example
  obtain ⟨conn, -, -, hpolls⟩ := (listed_lines_polled hs).1 "echo#1" 0 hname
  rw [hreceived, htransmitted] at hpolls
  exact ⟨s, hs, hpolls⟩

end Example

end EchoServer

end Yatwb
