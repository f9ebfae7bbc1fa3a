import Yatwb.Server.Sessions
import Yatwb.Server.Sweep

/-!
# What the listed connections ask for

Every connection that the server lists asks for input, and for output exactly
while bytes wait in its output buffer, whatever the callbacks of the user call.
Only the turns that close a connection end this, and such a turn takes the
connection off the list in the same action or comes after it.
-/

namespace Yatwb

open Foundation

namespace World

section Advances

variable {w w' w'' : World} {owners : List ChannelRef} {a : Action} {c : Nat}

/-- The numbers of connections are not used again, and no connection is listed again. -/
structure Advances (w w' : World) : Prop where
  nextObj : w.nextObj ≤ w'.nextObj
  listed : ∀ c < w.nextObj, w'.Listed c → w.Listed c

theorem Advances.trans (h : Advances w w') (h' : Advances w' w'') : Advances w w'' :=
  ⟨h.nextObj.trans h'.nextObj, fun c hc hlisted =>
    h.listed c hc (h'.listed c (Nat.lt_of_lt_of_le hc h.nextObj) hlisted)⟩

theorem Advances.of_connections (hnext : w'.nextObj = w.nextObj)
    (hconnections : w'.server.connections = w.server.connections) : Advances w w' := by
  refine ⟨le_of_eq hnext.symm, fun c _ hlisted => ?_⟩
  rw [Listed, hconnections] at hlisted
  exact hlisted

theorem Advances.log (w : World) (event : Event) : Advances w (w.log event) :=
  .of_connections rfl rfl

theorem Advances.setPhase (w : World) (phase : Phase) : Advances w (w.setPhase 0 phase) :=
  .of_connections rfl rfl

theorem Advances.quiet (h : Quiet w w') : Advances w w' :=
  .of_connections h.nextObj (congrArg TcpServer.connections h.server)

theorem Advances.established {fd : Int} (h : Established w fd w') : Advances w w' := by
  refine ⟨?_, ?_⟩
  · rw [h.nextObj]
    exact Nat.le_succ _
  · rintro c hc ⟨name, hname⟩
    rcases (h.connections_iff name c).mp hname with ⟨-, rfl⟩ | ⟨-, hname⟩
    · exact absurd hc (Nat.lt_irrefl _)
    · exact ⟨name, hname⟩

theorem Advances.closed {name : String} (h : Closed w c name w') : Advances w w' := by
  refine ⟨le_of_eq h.nextObj.symm, ?_⟩
  rintro c' - ⟨name', hname'⟩
  exact ⟨name', ((h.connections_iff name' c').mp hname').2⟩

theorem Advances.calledBack {r : Buffer.ReadResult} {ref : ChannelRef} {cb : Channel.Callback}
    (h : CalledBack w r ref cb w') : Advances w w' := by
  cases h with
  | quiet hquiet => exact .quiet hquiet
  | accept _ _ hestablished hquiet =>
      exact (Advances.established hestablished).trans (.quiet hquiet)
  | conn _ hhandled =>
      cases hhandled with
      | quiet hquiet => exact .quiet hquiet
      | message _ hquiet =>
          exact (Advances.log w _).trans (.quiet hquiet)
      | close _ hquiet hclosed => exact (Advances.quiet hquiet).trans (.closed hclosed)

theorem Advances.destroy (w : World) (c : Nat) : Advances w (w.destroy c) := by
  unfold World.destroy
  split
  · exact .of_connections rfl rfl
  · split <;> exact .of_connections rfl rfl

theorem Effect.advances (h : Effect w owners a w') : Advances w w' := by
  cases h with
  | stay hs => exact .of_connections hs.nextObj hs.connections
  | move hs => exact .of_connections hs.nextObj hs.connections
  | callback _ hcalled =>
      exact (Advances.setPhase w _).trans (.calledBack hcalled)
  | functor _ hran =>
      cases hran with
      | quiet hquiet =>
          exact (Advances.setPhase w _).trans (.quiet hquiet)
      | destroyed hd =>
          exact .of_connections hd.nextObj (congrArg TcpServer.connections hd.server)
  | freed c => exact .destroy w c

end Advances

variable {w w' : World} {owners : List ChannelRef} {a : Action} {c : Nat}
  {conn : TcpConnection}

/-- The buffers of every connection are sound, and every listed connection asks for what
it needs. -/
def Attended (w : World) : Prop := Each (fun c e => e.Sound ∧ (Listed w c → e.Attends)) w

theorem lasting_attends (off : Nat → Prop) :
    Lasting off fun c e => e.Sound ∧ (¬ off c → e.Attends) where
  new _ _ _ _ _ _ := ⟨.new .., fun _ => .new ..⟩
  sound _ _ h := h.1
  turn _ _ _ h hturn := ⟨hturn.sound h.1, fun hoff => (hturn.mono hoff).attends h.1 (h.2 hoff)⟩

/-- `handleClose` takes its connection off the list. -/
theorem Wired.handleClose_unlists (h : Wired w owners) (hc : w.conns c = some conn)
    (hopen : conn.Open)
    (hname : ∀ name : String, w.server.connections[name]? = some c → name = conn.name) :
    Ends (fun w' => ¬ Listed w' c) (fun _ => True) (w.handleClose 0 c) := by
  apply ((h.handleClose hc hopen).weaken fun _ _ => trivial).mono
  rintro w' ⟨-, w₁, hquiet, hclosed⟩ ⟨name, hlisted⟩
  obtain ⟨hne, hold⟩ := (hclosed.connections_iff name c).mp hlisted
  rw [hquiet.server] at hold
  exact hne (hname name hold)

/-- So do the callbacks that call it. -/
theorem Wired.runCallback_unlists (h : Wired w owners) (hc : w.conns c = some conn)
    (hopen : conn.Open)
    (hname : ∀ name : String, w.server.connections[name]? = some c → name = conn.name)
    (hinput : conn.inputBuffer.Inv) (x : Answers) {cb : Channel.Callback}
    (hcb : cb = .close ∨ cb = .read ∧ x.read = .received []) :
    Ends (fun w' => ¬ Listed w' c) (fun _ => True) (w.runCallback 0 x (.conn c) cb) := by
  rcases hcb with rfl | ⟨rfl, hr⟩
  · exact h.handleClose_unlists hc hopen hname
  · obtain ⟨b, outcome, -, hs, houtcome⟩ :=
      Endpoint.handleRead_spec (e := ⟨conn, w.channels (.conn c)⟩) hinput x.read
    obtain rfl := houtcome.mpr hr
    change Ends _ _ (w.handleRead 0 c x.read x.acts)
    rw [World.handleRead, endpoint_eq hc]
    change Ends _ _ (Except.mapError Fault.connection
      (Endpoint.handleRead ⟨conn, w.channels (.conn c)⟩ x.read) >>= _)
    rw [hs]
    change Ends _ _ ((w.setEndpoint c
      ⟨{ conn with inputBuffer := b }, w.channels (.conn c)⟩).handleClose 0 c)
    rw [setEndpoint_same]
    have hages : conn.Ages { conn with inputBuffer := b } := ⟨rfl, Or.inl rfl⟩
    exact (h.setConn hc hages rfl).handleClose_unlists (setConn_self ..)
      (hages.open_iff.mpr hopen) hname

/-- A connection that an action may close is not listed after it. -/
theorem Inv.unlists (h : Inv w owners) (hattended : Attended w) (hclosing : w.Closing a c)
    (hadvances : Ends (Advances w) (fun _ => True) (w.attempt a)) :
    Ends (fun w' => ¬ Listed w' c) (fun _ => True) (w.attempt a) := by
  cases a with
  | callback l x =>
      obtain ⟨ref, cb, callbacks, active, hphase, rfl, hcb⟩ := hclosing
      obtain rfl := h.wired.home.eq_zero_of_phase hphase (by simp)
      have hrefs : ∀ ref ∈ (Phase.handling (.conn c) callbacks active).refs, ref ∈ owners := by
        have hold := h.owned.refs
        rw [hphase] at hold
        exact hold
      have hmem : .conn c ∈ owners := hrefs _ (by simp [Phase.refs])
      obtain ⟨conn, hc, hopen⟩ := h.owned.conn_of_mem hmem
      have hname (name : String) (hentry : w.server.connections[name]? = some c) :
          name = conn.name := by
        obtain ⟨-, conn', hc', rfl⟩ := h.owned.named name c hentry
        rw [Option.some.inj (hc.symm.trans hc')]
      simp only [World.attempt, hphase]
      exact (h.wired.setPhase hrefs).runCallback_unlists hc hopen hname
        (hattended c conn hc).1.input x hcb
  | functor l x =>
      obtain ⟨rest, hphase⟩ := hclosing
      obtain rfl := h.wired.home.eq_zero_of_phase hphase (by simp)
      -- its connection has been taken off the list before
      have hdying : c ∈ w.dying := by
        refine List.mem_filterMap.mpr ⟨.destroyConnection c, ?_, rfl⟩
        rw [waiting, hphase]
        simp [Phase.rest]
      obtain ⟨hmem, hunlisted⟩ := h.owned.doomed c hdying
      obtain ⟨conn, hc, -⟩ := h.owned.conn_of_mem hmem
      apply hadvances.mono
      intro w' hadv hlisted
      obtain ⟨name, hname⟩ := hadv.listed c (h.owned.lt_of_conn hc) hlisted
      exact hunlisted name hname
  | start | wire _ | enterLoop _ | pollReturn _ _ _ | nextChannel _ | endChannel _
  | doPendingFunctors _ | endFunctors _ | send _ _ _ | shutdown _ _ | destroy _ =>
      exact hclosing.elim

/-- What the kernel guarantees, in a server that no thread without a loop uses. -/
def Serviced (w : World) (a : Action) : Prop := Undisturbed w a ∧ w.Fits a

instance (w : World) (a : Action) : Decidable (Serviced w a) :=
  inferInstanceAs (Decidable (Undisturbed w a ∧ w.Fits a))

theorem Attended.attempt (h : Attended w) (hinv : Inv w owners) (hserviced : Serviced w a) :
    Ends Attended Fault.NoIo (w.attempt a) := by
  obtain ⟨⟨hkernel, hlocal⟩, hfits⟩ := hserviced
  let off (c : Nat) : Prop := w.Closing a c ∨ ¬ Listed w c ∧ c < w.nextObj
  have heach : Each (fun c e => e.Sound ∧ (¬ off c → e.Attends)) w := by
    intro c conn hc
    obtain ⟨hsound, hattends⟩ := h c conn hc
    refine ⟨hsound, fun hoff => hattends ?_⟩
    by_contra hunlisted
    exact hoff (Or.inr ⟨hunlisted, hinv.owned.lt_of_conn hc⟩)
  have hturns := heach.attempt (lasting_attends off) hfits fun _ => Or.inl
  have hadvances : Ends (Advances w) (fun _ => True) (w.attempt a) :=
    ((hinv.attempt hkernel hlocal).mono fun _ hw' => hw'.2.advances).weaken fun _ _ => trivial
  refine ends_of ?_ fun f hf => hturns.of_eq_error hf
  intro w' hw' c conn hc
  obtain ⟨hsound, hattends⟩ := hturns.of_eq_ok hw' c conn hc
  refine ⟨hsound, fun hlisted => hattends ?_⟩
  rintro (hclosing | ⟨hunlisted, hlt⟩)
  · exact (hinv.unlists h hclosing hadvances).of_eq_ok hw' hlisted
  · exact hunlisted ((hadvances.of_eq_ok hw').listed c hlt hlisted)

/-- The run lemma. -/
theorem attended_of_reach (h : (machine 0).Reach (whileRunning Serviced) (.ok w)) :
    (∃ owners, Inv w owners) ∧ Attended w := by
  have hends : Ends (fun w => (∃ owners, Inv w owners) ∧ Attended w) (fun _ => True)
      (.ok w : Except Fault World) := by
    refine ends_of_reach (fun w hw => ⟨⟨[], Inv.init hw⟩, each_of_initial hw⟩) ?_ h
    rintro w a ⟨⟨owners, hinv⟩, hattended⟩ hserviced
    refine ends_step ⟨⟨owners, hinv⟩, hattended⟩ ?_
    have hinv' := (hinv.attempt hserviced.1.1 hserviced.1.2).weaken fun _ _ => trivial
    exact ((hinv'.and (hattended.attempt hinv hserviced)).mono fun _ hw' =>
      ⟨hw'.1.1, hw'.2⟩).weaken fun _ _ => trivial
  exact hends

/-- In every run of a server without pool threads whose callbacks call only on the loop
thread, every listed connection is open and registered, and `poll(2)` is asked for its
input, and for its output exactly while bytes wait in its output buffer. -/
theorem listed_ask_for_io (h : (machine 0).Reach (whileRunning Serviced) (.ok w)) {c : Nat}
    {name : String} (hlisted : w.server.connections[name]? = some c) :
    ∃ conn pfd, w.conns c = some conn ∧ conn.Open ∧
      (w.reactors 0).poller.pollFds[(w.channels (.conn c)).index.toNat]? = some pfd ∧
      pfd.events.signExtend 32 = (w.channels (.conn c)).events ∧
      (w.channels (.conn c)).events = if conn.outputBuffer.content = [] then Channel.readEvent
        else Channel.readEvent ||| Channel.writeEvent := by
  obtain ⟨⟨owners, hinv⟩, hattended⟩ := attended_of_reach h
  obtain ⟨hmem, conn, hc, -⟩ := hinv.owned.named name c hlisted
  have hopen : conn.Open := (hinv.owned.inUse c conn hmem hc).1
  obtain ⟨hsound, hattends⟩ := hattended c conn hc
  have hattends := hattends ⟨name, hlisted⟩
  have hstate : conn.state ≠ .connecting := by
    rcases hopen with hstate | hstate <;> rw [hstate] <;> decide
  obtain ⟨i, pfd, hi, hpfd, hindex, -⟩ := hinv.wired.rep.position hmem
  refine ⟨conn, pfd, hc, hopen, ?_, (hinv.wired.rep.slot i _ pfd hi hpfd).2, ?_⟩
  · rw [hindex, Int.toNat_natCast, hpfd]
  · simp only [Buffer.content_eq_nil_iff hsound.output]
    exact (hattends.reads hstate).events hattends.inStep

section Example

/-- `poll(2)` is asked for input and output while two bytes wait. -/
theorem sending_connection_asks : ∃ (w : World) (pfd : PollFd),
    (w.reactors 0).poller.pollFds[(w.channels (.conn 0)).index.toNat]? = some pfd ∧
      pfd.events.signExtend 32 = Channel.readEvent ||| Channel.writeEvent := by
  obtain ⟨s, hs, hp⟩ := Machine.exists_reach (M := machine 0) (whileRunning Serviced)
    ⟨fresh 0, rfl, initial_fresh 0⟩ sendingRun
    (fun s => match s with
      | .ok w => decide (w.server.connections["echo#1"]? = some 0 ∧
          (w.conns 0).map (·.outputBuffer.content) = some [8, 9])
      | .error _ => false) (by decide +kernel)
  cases s with
  | error f => cases hp
  | ok w =>
      obtain ⟨hlisted, hwaits⟩ := of_decide_eq_true hp
      obtain ⟨conn, hc, hcontent⟩ := Option.map_eq_some_iff.mp hwaits
      obtain ⟨conn', pfd, hc', -, hpfd, hevents, hasked⟩ := listed_ask_for_io hs hlisted
      obtain rfl := Option.some.inj (hc.symm.trans hc')
      rw [if_neg (by rw [hcontent]; simp)] at hasked
      exact ⟨w, pfd, hpfd, hevents.trans hasked⟩

end Example

end World

end Yatwb
