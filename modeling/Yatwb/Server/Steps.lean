import Yatwb.Server.Ownership

/-!
# What one action of a server does

For a server without pool threads, one relation lists everything an action can
do to the base loop and to the ownership of connections: a step of `loop`
itself, a callback, a functor, or the end of an object. Every action that is
possible keeps the invariant and has such an effect, or ends the run with a
benign fault or a close of a connection that is no longer listed.
-/

namespace Yatwb

open Foundation

/-- The steps of `loop` itself, with the registered channels, their reported
words and the pending functors. -/
inductive Phase.Move (owners : List ChannelRef) (words : ChannelRef → Events)
    (pending : List Functor) : Phase → Phase → Prop
  | enter : Move owners words pending .outside .polling
  | poll {active} (hnodup : active.Nodup) (howners : ∀ ref ∈ active, ref ∈ owners) :
      Move owners words pending .polling (.dispatching active)
  | next {ref active} : Move owners words pending (.dispatching (ref :: active))
      (.handling ref (Channel.handleEvents (words ref)) active)
  | done {ref active} : Move owners words pending (.handling ref [] active) (.dispatching active)
  | swap : Move owners words pending (.dispatching []) (.functors pending)
  | finish : Move owners words pending (.functors []) .polling

namespace World

/-- What a callback of a channel does, with the answer of `readv(2)`. -/
inductive CalledBack (w : World) (r : Buffer.ReadResult) :
    ChannelRef → Channel.Callback → World → Prop
  | quiet {ref cb w'} (h : Quiet w w') : CalledBack w r ref cb w'
  | accept {fd w₁ w'} (hfd : 0 ≤ fd) (hfree : fd ∉ w.openFds) (h : Established w fd w₁)
      (hquiet : Quiet w₁ w') : CalledBack w r .acceptor .read w'
  | conn {c conn cb w'} (hc : w.conns c = some conn) (h : Handled w c conn.name r cb w') :
      CalledBack w r (.conn c) cb w'

/-- What a functor does. -/
inductive Ran (w : World) (owners : List ChannelRef) : Functor → World → Prop
  | quiet {c w'} (h : Quiet w w') : Ran w owners (.writeComplete c) w'
  | destroyed {c w'} (h : Destroyed w owners c w') : Ran w owners (.destroyConnection c) w'

/-- What one action does. -/
inductive Effect (w : World) (owners : List ChannelRef) : Action → World → Prop
  | stay {a w'} (hs : Steady w w') (hphase : (w'.reactors 0).phase = (w.reactors 0).phase)
      (hwords : ∀ ref, (w'.channels ref).revents = (w.channels ref).revents) :
      Effect w owners a w'
  | move {a w'} (hs : Steady w w')
      (hmove : Phase.Move owners (fun ref => (w'.channels ref).revents)
        (w.reactors 0).event.pendingFunctors (w.reactors 0).phase (w'.reactors 0).phase) :
      Effect w owners a w'
  | callback {x ref cb callbacks active w'}
      (hphase : (w.reactors 0).phase = .handling ref (cb :: callbacks) active)
      (h : CalledBack (w.setPhase 0 (.handling ref callbacks active)) x.read ref cb w') :
      Effect w owners (.callback 0 x) w'
  | functor {a f rest w'} (hphase : (w.reactors 0).phase = .functors (f :: rest))
      (h : Ran (w.setPhase 0 (.functors rest)) owners f w') : Effect w owners a w'
  | freed {a} (c : Nat) : Effect w owners a (w.destroy c)

/-- The action is not a call by a thread without a loop. -/
def Action.Local : Action → Prop
  | .send _ _ _ => False
  | .shutdown _ _ => False
  | _ => True

instance : ∀ a : Action, Decidable a.Local
  | .send _ _ _ | .shutdown _ _ => isFalse id
  | .start | .wire _ | .enterLoop _ | .pollReturn _ _ _ | .nextChannel _ | .callback _ _
  | .endChannel _ | .doPendingFunctors _ | .functor _ _ | .endFunctors _ | .destroy _ =>
      isTrue trivial

/-- The faults of an action. -/
def StepFault (w : World) (a : Action) (f : Fault) : Prop :=
  Benign f ∨ f = .removeConnectionCount ∧ ∃ x c conn cb callbacks active, a = .callback 0 x ∧
    (w.reactors 0).phase = .handling (.conn c) (cb :: callbacks) active ∧
    MayClose x.read cb ∧ w.conns c = some conn ∧ conn.name ∉ w.server.connections

theorem stepFault_loop (w : World) (a : Action) (f : EventLoop.Fault) :
    StepFault w a (.loop f) := Or.inl trivial

/-- The invariant of a server without pool threads. -/
structure Inv (w : World) (owners : List ChannelRef) : Prop where
  wired : Wired w owners
  owned : Owned w owners

/-- An outcome that keeps the invariant. -/
abbrev Sound (w : World) (owners : List ChannelRef) (a : Action) (x : Except Fault World) :
    Prop :=
  Ends (fun w' => (∃ owners', Inv w' owners') ∧ Effect w owners a w') (StepFault w a) x

variable {w w' : World} {owners : List ChannelRef} {a : Action}

theorem Steady.refl (w : World) : Steady w w :=
  ⟨rfl, fun _ => rfl, rfl, rfl, rfl, rfl, rfl, fun _ => id, rfl, rfl⟩

theorem Steady.trans {w'' : World} (h : Steady w w') (h' : Steady w' w'') : Steady w w'' :=
  ⟨h'.conns.trans h.conns, fun ref => (h'.fd ref).trans (h.fd ref), h'.openFds.trans h.openFds,
    h'.nextObj.trans h.nextObj, h'.name.trans h.name, h'.nextConnId.trans h.nextConnId,
    h'.connections.trans h.connections, fun f hf => h.waiting f (h'.waiting f hf),
    h'.dying.trans h.dying, h'.trace.trans h.trace⟩

/-- Only the functors of the base loop may have moved. -/
theorem Steady.of_waiting (hwaiting : w'.waiting 0 = w.waiting 0)
    (h : w' = { w with reactors := w'.reactors }) : Steady w w' := by
  have hdying : w'.dying = w.dying := by rw [World.dying, World.dying, hwaiting]
  rw [h] at hwaiting hdying ⊢
  exact ⟨rfl, fun _ => rfl, rfl, rfl, rfl, rfl, rfl, fun _ hf => hwaiting ▸ hf, hdying, rfl⟩

/-- A new position in `loop` that waits for the same functors. -/
theorem Steady.setPhase {phase : Phase} (hrest : phase.rest = (w.reactors 0).phase.rest) :
    Steady w (w.setPhase 0 phase) := by
  apply Steady.of_waiting _ rfl
  rw [World.waiting, World.waiting, event_setPhase, phase_setPhase_self, hrest]

/-- A channel and the poller have been changed, but not the descriptor. -/
theorem Steady.rewire (ref : ChannelRef) (channel : Channel)
    (hfd : channel.fd = (w.channels ref).fd) (poller : Poller ChannelRef) :
    Steady w ((w.setChannel ref channel).setPoller 0 poller) := by
  have hwaiting : ((w.setChannel ref channel).setPoller 0 poller).waiting 0 = w.waiting 0 := by
    rw [World.waiting, World.waiting, event_setPoller, phase_setPoller]
    rfl
  refine ⟨rfl, ?_, rfl, rfl, rfl, rfl, rfl, fun _ hf => hwaiting ▸ hf, ?_, rfl⟩
  · intro ref'
    change ((w.setChannel ref channel).channels ref').fd = _
    by_cases href : ref' = ref
    · subst href
      rw [setChannel_self, hfd]
    · rw [setChannel_of_ne w href]
  · rw [World.dying, World.dying, hwaiting]

theorem revents_rewire (ref : ChannelRef) (channel : Channel)
    (h : channel.revents = (w.channels ref).revents) (poller : Poller ChannelRef)
    (ref' : ChannelRef) :
    (((w.setChannel ref channel).setPoller 0 poller).channels ref').revents =
      (w.channels ref').revents := by
  change ((w.setChannel ref channel).channels ref').revents = _
  by_cases href : ref' = ref
  · subst href
    rw [setChannel_self, h]
  · rw [setChannel_of_ne w href]

theorem Wired.setPhase (h : Wired w owners) {phase : Phase}
    (hrefs : ∀ ref ∈ phase.refs, ref ∈ owners) : Wired (w.setPhase 0 phase) owners where
  home := h.home.setPhase fun ref href => h.homeLoop_eq (hrefs ref href)
  rep := by
    rw [poller_setPhase]
    exact h.rep
  requested := h.requested
  live := h.live

theorem Wired.destroy (h : Wired w owners) (c : Nat) : Wired (w.destroy c) owners := by
  have hhome := h.home.destroy c
  revert hhome
  unfold World.destroy
  split
  · exact fun _ => h
  · split
    · exact fun _ => h
    · intro hhome
      refine ⟨hhome, h.rep, h.requested, ?_⟩
      intro c' conn' hc' hopen
      have hne : c' ≠ c := by
        rintro rfl
        cases (setConn_self w c' none).symm.trans hc'
      exact h.live c' conn' ((setConn_of_ne w hne none).symm.trans hc') hopen

/-- A callback has been taken off the list of the channel it belongs to. -/
theorem Owned.popCallback (h : Owned w owners) {ref : ChannelRef} {cb : Channel.Callback}
    {callbacks : List Channel.Callback} {active : List ChannelRef}
    (hphase : (w.reactors 0).phase = .handling ref (cb :: callbacks) active) :
    Owned (w.setPhase 0 (.handling ref callbacks active)) owners := by
  have hrefs := h.refs
  rw [hphase] at hrefs
  apply h.steady (Steady.setPhase _) fun _ _ => rfl
  · rw [phase_setPhase_self]
    exact hrefs
  · rw [hphase]
    rfl

namespace Inv

theorem stay (h : Inv w owners) : Sound w owners a (.ok w) :=
  ⟨⟨owners, h⟩, .stay (.refl w) rfl fun _ => rfl⟩

/-- A new position in `loop`. -/
theorem setPhase (h : Inv w owners) {phase : Phase} (hrest : phase.rest = (w.reactors 0).phase.rest)
    (hrefs : ∀ ref ∈ phase.refs, ref ∈ owners) : Inv (w.setPhase 0 phase) owners where
  wired := h.wired.setPhase hrefs
  owned := h.owned.steady (Steady.setPhase hrest) (fun _ _ => rfl) (by
    rw [phase_setPhase_self]
    exact hrefs)

theorem homeLoop_of_standing {ref : ChannelRef} (hstanding : Standing 0 ref) :
    homeLoop ref = 0 := by
  cases ref with
  | acceptor => rfl
  | timer l => exact Nat.le_zero.mp hstanding
  | wakeup l => exact Nat.le_zero.mp hstanding
  | conn c => rfl

/-- An outcome that leaves `loop` where it is. -/
abbrev Stays (w : World) (x : Except Fault World) : Prop :=
  Ends (fun w' => (∃ owners', Inv w' owners') ∧ Steady w w' ∧
    (w'.reactors 0).phase = (w.reactors 0).phase ∧
    ∀ ref, (w'.channels ref).revents = (w.channels ref).revents) Benign x

/-- The server changes the interest of one of its own channels, and registers
it if it has to. -/
theorem changeInterest (h : Inv w owners) (ref : ChannelRef) (hstanding : Standing 0 ref)
    (i : Channel.Interest) : Stays w (w.changeInterest 0 ref i) := by
  have hhome := homeLoop_of_standing hstanding
  by_cases href : ref ∈ owners
  · apply (h.wired.changeInterest_registered href i).mono
    rintro w' ⟨hw', poller, rfl⟩
    have hs := Steady.rewire (w := w) ref _ (Channel.change_fd (w.channels ref) i) poller
    refine ⟨⟨owners, hw', h.owned.steady hs ?_ ?_⟩, hs, phase_setPoller ..,
      fun ref' => revents_rewire ref _ (by rfl) poller ref'⟩
    · intro ref' hout
      have hne : ref' ≠ ref := fun heq => hout (heq ▸ href)
      exact congrArg Channel.index (setChannel_of_ne w hne _)
    · rw [phase_setPoller]
      exact h.owned.refs
  · have hfresh : ∀ ref' ∈ owners, (w.channels ref').fd ≠ (w.channels ref).fd := by
      intro ref' hmem heq
      rw [h.owned.distinct ref' ref (h.owned.present ref' hmem) (Or.inl hstanding) heq] at hmem
      exact href hmem
    apply (changeInterest_new h.wired.home h.wired.rep hhome
      (h.owned.unregistered ref hstanding href) (h.owned.opened ref (Or.inl hstanding)).1 hfresh
      (h.wired.requested ref) i).mono
    rintro w' ⟨hhome', hrep', poller, rfl⟩
    have hs := Steady.rewire (w := w) ref
      (((w.channels ref).change i).setIndex owners.length) rfl poller
    refine ⟨⟨owners ++ [ref], ⟨hhome', hrep', ?_, ?_⟩,
      (h.owned.grow hstanding).steady hs ?_ ?_⟩, hs, phase_setPoller ..,
      fun ref' => revents_rewire ref _ (by rfl) poller ref'⟩
    · exact h.wired.requested_setChannel ref ((h.wired.requested ref).change i)
    · intro c conn hc hopen
      exact List.mem_append_left _ (h.wired.live c conn hc hopen)
    · intro ref' hout
      have hne : ref' ≠ ref := by
        rintro rfl
        exact hout (List.mem_append_right _ (List.mem_singleton.mpr rfl))
      exact congrArg Channel.index (setChannel_of_ne w hne _)
    · rw [phase_setPoller]
      exact (h.owned.grow hstanding).refs

theorem Stays.bind {x : Except Fault World} {f : World → Except Fault World} (h : Stays w x)
    (hf : ∀ w' owners', Inv w' owners' → Stays w' (f w')) : Stays w (x >>= f) := by
  apply Ends.bind h
  rintro w' ⟨⟨owners', hinv⟩, hs, hphase, hwords⟩
  apply (hf w' owners' hinv).mono
  rintro w'' ⟨hinv', hs', hphase', hwords'⟩
  exact ⟨hinv', hs.trans hs', hphase'.trans hphase,
    fun ref => (hwords' ref).trans (hwords ref)⟩

theorem Stays.sound {x : Except Fault World} (h : Stays w x) : Sound w owners a x := by
  apply (h.mono _).weaken fun _ => Or.inl
  rintro w' ⟨hinv, hs, hphase, hwords⟩
  exact ⟨hinv, .stay hs hphase hwords⟩

theorem wire (h : Inv w owners) : Sound w owners a (w.wire 0) := by
  apply Stays.sound
  apply (h.changeInterest (.timer 0) (Nat.le_refl 0) .enableReading).bind
  intro w' owners' h'
  exact h'.changeInterest (.wakeup 0) (Nat.le_refl 0) .enableReading

/-- Flags of the server that no other part of the invariant knows. -/
theorem setServer (h : Inv w owners) {server : TcpServer} (hname : server.name = w.server.name)
    (hcount : server.nextConnId = w.server.nextConnId)
    (hconnections : server.connections = w.server.connections)
    (hhome : Home { w with server := server }) :
    Stays w (.ok { w with server := server }) := by
  have hs : Steady w { w with server := server } :=
    ⟨rfl, fun _ => rfl, rfl, rfl, hname, hcount, hconnections, fun _ => id, rfl, rfl⟩
  exact ⟨⟨owners, ⟨hhome, h.wired.rep, h.wired.requested, h.wired.live⟩,
    h.owned.steady hs (fun _ _ => rfl) h.owned.refs⟩, hs, rfl, fun _ => rfl⟩

theorem stays (h : Inv w owners) : Stays w (.ok w) :=
  ⟨⟨owners, h⟩, .refl w, rfl, fun _ => rfl⟩

theorem listen (h : Inv w owners) : Stays w (w.listen 0) := by
  rw [World.listen, h.wired.home.assert_bind rfl]
  have hset : Stays w (.ok w.setListenning) := h.setServer rfl rfl rfl (h.wired.home.setServer rfl)
  exact hset.bind fun w' owners' h' => h'.changeInterest .acceptor trivial .enableReading

theorem startPool (h : Inv w owners) : Stays w (w.startPool 0) := by
  unfold World.startPool
  split
  · exact h.stays
  · have hset : Home w.setStarted := h.wired.home.setServer rfl
    apply ends_check fun _ => trivial
    intro _
    rw [hset.assert_bind rfl]
    have hthreads : Stays w (.ok w.setStarted.startThreads) :=
      h.setServer rfl rfl rfl hset.startThreads
    exact hthreads

theorem start (h : Inv w owners) : Sound w owners a (w.start 0) := by
  apply Stays.sound
  apply h.startPool.bind
  intro w' owners' h'
  rw [h'.wired.home.isInLoopThread]
  split
  · exact h'.stays
  · exact h'.listen

/-- A step of `loop` that touches nothing but the flags, the functors and the
position of the base loop. -/
theorem setEventPhase (h : Inv w owners) (event : EventLoop Functor) (phase : Phase)
    (hthread : event.threadId = 0)
    (hwaiting : event.pendingFunctors ++ phase.rest = w.waiting 0) (hrefs : phase.refs = []) :
    Inv ((w.setEvent 0 event).setPhase 0 phase) owners ∧
      Steady w ((w.setEvent 0 event).setPhase 0 phase) := by
  have hs : Steady w ((w.setEvent 0 event).setPhase 0 phase) := by
    apply Steady.of_waiting _ rfl
    rw [← hwaiting, World.waiting, event_setPhase, event_setEvent_self, phase_setPhase_self]
  refine ⟨⟨(h.wired.setEvent hthread).setPhase (by simp [hrefs]), ?_⟩, hs⟩
  apply h.owned.steady hs fun _ _ => rfl
  rw [phase_setPhase_self, hrefs]
  simp

theorem enterLoop (h : Inv w owners) (hphase : (w.reactors 0).phase = .outside) :
    Sound w owners a (w.enterLoop 0) := by
  have henter : Ends (fun event => event =
      { (w.reactors 0).event with looping := true, quit := false }) (fun _ => True)
      ((w.reactors 0).event.enterLoop 0) :=
    ends_of (fun event hevent => (EventLoop.enterLoop_eq_ok hevent).2) fun _ _ => trivial
  apply (henter.mapError fun f _ => stepFault_loop w a f).bind
  rintro event rfl
  obtain ⟨hinv, hs⟩ := h.setEventPhase
    { (w.reactors 0).event with looping := true, quit := false } .polling
    (h.wired.home.threads 0) (by rw [World.waiting, hphase]; rfl) rfl
  refine ⟨⟨owners, hinv⟩, .move hs ?_⟩
  rw [hphase, phase_setPhase_self]
  exact .enter

/-- `poll` hands out registered channels, each at most once. -/
theorem pollReturn (h : Inv w owners) (hphase : (w.reactors 0).phase = .polling)
    {reported : List (BitVec 16)} (numEvents : Int)
    (hfit : List.Forall₂ Poller.ReportFits (w.reactors 0).poller.pollFds reported) :
    Sound w owners a (w.pollReturn 0 reported numEvents) := by
  obtain ⟨poller, channels, active, hpoll, hrep, hsame, hsub⟩ := h.wired.rep.poll hfit numEvents
  have hmain : w.pollReturn 0 reported numEvents =
      .ok { (w.setPoller 0 poller).setPhase 0 (.dispatching active) with
        channels := channels } := by
    rw [World.pollReturn, hpoll]
    rfl
  have hhome' := (h.wired.home.pollReturn reported numEvents).of_eq_ok hmain
  rw [hmain]
  let w' : World :=
    { (w.setPoller 0 poller).setPhase 0 (.dispatching active) with channels := channels }
  have hphase' : (w'.reactors 0).phase = .dispatching active :=
    phase_setPhase_self (w.setPoller 0 poller) 0 _
  have hwaiting : w'.waiting 0 = w.waiting 0 := by
    have hevent : (w'.reactors 0).event = (w.reactors 0).event :=
      (event_setPhase (w.setPoller 0 poller) 0 0 _).trans (event_setPoller ..)
    rw [World.waiting, World.waiting, hevent, hphase', hphase]
    rfl
  have hs : Steady w w' := by
    refine ⟨rfl, ?_, rfl, rfl, rfl, rfl, rfl, fun _ hf => hwaiting ▸ hf, ?_, rfl⟩
    · intro ref
      obtain ⟨r, hr⟩ := hsame ref
      change (channels ref).fd = _
      rw [hr]
      rfl
    · rw [World.dying, World.dying, hwaiting]
  have hactive : ∀ ref ∈ active, ref ∈ owners := fun ref href => hsub.subset href
  have hwired : Wired w' owners := by
    refine ⟨hhome', ?_, ?_, h.wired.live⟩
    · change (((w.setPoller 0 poller).setPhase 0 _).reactors 0).poller.Rep channels owners
      rw [poller_setPhase, poller_setPoller_self]
      exact hrep
    · intro ref
      obtain ⟨r, hr⟩ := hsame ref
      change Channel.Requested (channels ref).events
      rw [hr]
      exact h.wired.requested ref
  have howned : Owned w' owners := by
    apply h.owned.steady hs
    · intro ref _
      obtain ⟨r, hr⟩ := hsame ref
      change (channels ref).index = _
      rw [hr]
      rfl
    · rw [hphase']
      exact hactive
  refine ⟨⟨owners, hwired, howned⟩, .move hs ?_⟩
  rw [hphase, hphase']
  exact .poll (hsub.nodup h.wired.rep.nodup) hactive

/-- An entry of `active_channels_` leads to a channel. -/
theorem derefChannel (h : Inv w owners) {ref : ChannelRef} (href : ref ∈ owners) :
    w.derefChannel ref = .ok (w.channels ref) := by
  cases ref with
  | conn c =>
      obtain ⟨conn, hc, -⟩ := h.owned.conn_of_mem href
      rw [World.derefChannel, endpoint_eq hc]
      rfl
  | acceptor => rfl
  | timer l => rfl
  | wakeup l => rfl

theorem nextChannel (h : Inv w owners) {ref : ChannelRef} {active : List ChannelRef}
    (hphase : (w.reactors 0).phase = .dispatching (ref :: active)) :
    Sound w owners a (w.nextChannel 0 ref active) := by
  have hrefs := h.owned.refs
  rw [hphase] at hrefs
  rw [World.nextChannel, h.derefChannel (hrefs ref (List.mem_cons_self ..))]
  have hrest : Phase.rest (.handling ref (Channel.handleEvents (w.channels ref).revents) active) =
      (w.reactors 0).phase.rest := by
    rw [hphase]
    rfl
  refine ⟨⟨owners, h.setPhase hrest hrefs⟩, .move (Steady.setPhase hrest) ?_⟩
  rw [hphase, phase_setPhase_self]
  exact .next

theorem endChannel (h : Inv w owners) {ref : ChannelRef} {active : List ChannelRef}
    (hphase : (w.reactors 0).phase = .handling ref [] active) :
    Sound w owners a (.ok (w.setPhase 0 (.dispatching active))) := by
  have hrefs := h.owned.refs
  rw [hphase] at hrefs
  have hrest : Phase.rest (.dispatching active) = (w.reactors 0).phase.rest := by
    rw [hphase]
    rfl
  refine ⟨⟨owners, h.setPhase hrest fun ref' href' => hrefs ref' (List.mem_cons_of_mem _ href')⟩,
    .move (Steady.setPhase hrest) ?_⟩
  rw [hphase, phase_setPhase_self]
  exact .done

theorem doPendingFunctors (h : Inv w owners) (hphase : (w.reactors 0).phase = .dispatching []) :
    Sound w owners a (w.doPendingFunctors 0) := by
  apply ((EventLoop.beginFunctors_spec _ 0).mapError fun f _ => stepFault_loop w a f).bind
  rintro ⟨event, functors⟩ ⟨hthread, hpending, rfl⟩
  obtain ⟨hinv, hs⟩ := h.setEventPhase event (.functors (w.reactors 0).event.pendingFunctors)
    (hthread.trans (h.wired.home.threads 0))
    (by rw [World.waiting, hphase, hpending]; simp [Phase.rest]) rfl
  refine ⟨⟨owners, hinv⟩, .move hs ?_⟩
  rw [hphase, phase_setPhase_self]
  exact .swap

theorem endFunctors (h : Inv w owners) (hphase : (w.reactors 0).phase = .functors []) :
    Sound w owners a
      (.ok ((w.setEvent 0 (w.reactors 0).event.endFunctors).setPhase 0 .polling)) := by
  obtain ⟨hinv, hs⟩ := h.setEventPhase (w.reactors 0).event.endFunctors .polling
    (h.wired.home.threads 0) (by rw [World.waiting, hphase]; rfl) rfl
  refine ⟨⟨owners, hinv⟩, .move hs ?_⟩
  rw [hphase, phase_setPhase_self]
  exact .finish

/-- A connection on a descriptor that was not open. -/
theorem accept (h : Inv w owners) {fd : Int} (hfd : 0 ≤ fd) (hfree : fd ∉ w.openFds)
    (memory : LoopId) (acts : List UserAct) :
    Ends (fun w' => (∃ owners', Inv w' owners') ∧ ∀ r, CalledBack w r .acceptor .read w') Benign
      ((w.openFd fd).newConnection 0 fd memory acts) := by
  have hfresh : ∀ ref ∈ owners, (w.channels ref).fd ≠ fd := by
    intro ref href heq
    exact hfree (heq ▸ (h.owned.opened ref (h.owned.present ref href)).2)
  apply (h.wired.newConnection hfd hfresh h.owned.nextObj_not_mem memory acts).mono
  rintro w' ⟨hw', w₁, he, hquiet⟩
  exact ⟨⟨_, hw', (h.owned.established hfd hfree he).quiet hquiet⟩,
    fun _ => .accept hfd hfree he hquiet⟩

/-- A callback of a connection keeps the invariant. -/
theorem handled (h : Inv w owners) {c : Nat} (hmem : .conn c ∈ owners) {conn : TcpConnection}
    (hc : w.conns c = some conn) {r : Buffer.ReadResult} {cb : Channel.Callback}
    (hw' : Wired w' owners) (hh : Handled w c conn.name r cb w') : Inv w' owners := by
  refine ⟨hw', ?_⟩
  cases hh with
  | quiet hquiet => exact h.owned.quiet hquiet
  | message hr hquiet => exact (h.owned.log (by simp)).quiet hquiet
  | close hcb hquiet hclosed =>
      obtain ⟨conn₁, hc₁, hages⟩ := hquiet.conn_some c conn hc
      rw [← hages.1] at hclosed
      exact (h.owned.quiet hquiet).closed hmem hc₁ hclosed

/-- The faults of a callback. -/
def CallbackFault (w : World) (r : Buffer.ReadResult) (ref : ChannelRef) (cb : Channel.Callback)
    (f : Fault) : Prop :=
  Benign f ∨ f = .removeConnectionCount ∧ ∃ c conn, ref = .conn c ∧ MayClose r cb ∧
    w.conns c = some conn ∧ conn.name ∉ w.server.connections

theorem runCallback (h : Inv w owners) {ref : ChannelRef} (href : ref ∈ owners) (x : Answers)
    (hkernel : 0 ≤ x.connfd → x.connfd ∉ w.openFds) (cb : Channel.Callback) :
    Ends (fun w' => (∃ owners', Inv w' owners') ∧ CalledBack w x.read ref cb w')
      (CallbackFault w x.read ref cb) (w.runCallback 0 x ref cb) := by
  have hquietly {y : Except Fault World} (hy : Quietly w owners y) :
      Ends (fun w' => (∃ owners', Inv w' owners') ∧ CalledBack w x.read ref cb w')
        (CallbackFault w x.read ref cb) y := by
    apply (hy.mono _).weaken fun _ => Or.inl
    rintro w' ⟨hw', hquiet⟩
    exact ⟨⟨owners, hw', h.owned.quiet hquiet⟩, .quiet hquiet⟩
  cases ref with
  | acceptor =>
      cases cb with
      | read =>
          simp only [World.runCallback, acceptorHandleRead, h.wired.home.assert_bind rfl]
          split
          · rename_i hfd
            apply ((h.accept hfd (hkernel hfd) x.memory x.acts).mono _).weaken fun _ => Or.inl
            rintro w' ⟨hinv, hcalled⟩
            exact ⟨hinv, hcalled x.read⟩
          · exact hquietly h.wired.quietly
      | close => exact hquietly h.wired.quietly
      | error => exact hquietly h.wired.quietly
      | write => exact hquietly h.wired.quietly
  | timer l =>
      have hl : l = 0 := h.wired.homeLoop_eq href
      exact hquietly (h.wired.runCallback_standing (Or.inl (hl ▸ rfl)) x cb)
  | wakeup l =>
      have hl : l = 0 := h.wired.homeLoop_eq href
      exact hquietly (h.wired.runCallback_standing (Or.inr (hl ▸ rfl)) x cb)
  | conn c =>
      obtain ⟨conn, hc, hopen⟩ := h.owned.conn_of_mem href
      apply ((h.wired.runCallback_conn hc hopen x cb).mono _).weaken
      · rintro f (hf | ⟨rfl, hcb, hunlisted⟩)
        · exact Or.inl hf
        · exact Or.inr ⟨rfl, c, conn, rfl, hcb, hc, hunlisted⟩
      · rintro w' ⟨hw', hh⟩
        exact ⟨⟨owners, h.handled href hc hw' hh⟩, .conn hc hh⟩

theorem callback (h : Inv w owners) {ref : ChannelRef} {cb : Channel.Callback}
    {callbacks : List Channel.Callback} {active : List ChannelRef} (x : Answers)
    (hkernel : 0 ≤ x.connfd → x.connfd ∉ w.openFds)
    (hphase : (w.reactors 0).phase = .handling ref (cb :: callbacks) active) :
    Sound w owners (.callback 0 x)
      ((w.setPhase 0 (.handling ref callbacks active)).runCallback 0 x ref cb) := by
  have hrefs : ∀ ref' ∈ (Phase.handling ref callbacks active).refs, ref' ∈ owners := by
    have hrefs := h.owned.refs
    rw [hphase] at hrefs
    exact hrefs
  have hset : Inv (w.setPhase 0 (.handling ref callbacks active)) owners :=
    ⟨h.wired.setPhase hrefs, h.owned.popCallback hphase⟩
  apply ((hset.runCallback (hrefs ref (List.mem_cons_self ..)) x hkernel cb).mono _).weaken
  · rintro f (hf | ⟨rfl, c, conn, rfl, hcb, hc, hunlisted⟩)
    · exact Or.inl hf
    · exact Or.inr ⟨rfl, x, c, conn, cb, callbacks, active, rfl, hphase, hcb, hc, hunlisted⟩
  · rintro w' ⟨hinv, hcalled⟩
    exact ⟨hinv, .callback hphase hcalled⟩

theorem functor (h : Inv w owners) {f : Functor} {rest : List Functor} (x : Answers)
    (hphase : (w.reactors 0).phase = .functors (f :: rest)) :
    Sound w owners a ((w.setPhase 0 (.functors rest)).runFunctor 0 x f) := by
  have hwired : Wired (w.setPhase 0 (.functors rest)) owners :=
    h.wired.setPhase (by simp [Phase.refs])
  have hmem : f ∈ w.waiting 0 := by
    rw [World.waiting, hphase]
    exact List.mem_append_right _ (List.mem_cons_self ..)
  rcases h.owned.functors f hmem with ⟨c, rfl⟩ | ⟨c, rfl⟩
  · have hs : Steady w (w.setPhase 0 (.functors rest)) := by
      refine ⟨rfl, fun _ => rfl, rfl, rfl, rfl, rfl, rfl, ?_, ?_, rfl⟩
      · intro f hf
        rw [World.waiting, event_setPhase, phase_setPhase_self] at hf
        rw [World.waiting, hphase]
        rcases List.mem_append.mp hf with hf | hf
        · exact List.mem_append_left _ hf
        · exact List.mem_append_right _ (List.mem_cons_of_mem _ hf)
      · rw [World.dying, World.dying, World.waiting, World.waiting, event_setPhase,
          phase_setPhase_self, hphase]
        simp only [Phase.rest, List.filterMap_append]
        rfl
    have howned : Owned (w.setPhase 0 (.functors rest)) owners := by
      apply h.owned.steady hs fun _ _ => rfl
      rw [phase_setPhase_self]
      simp [Phase.refs]
    apply ((hwired.userCallback x.acts).mono _).weaken fun _ => Or.inl
    rintro w' ⟨hw', hquiet⟩
    exact ⟨⟨owners, hw', howned.quiet hquiet⟩, .functor hphase (.quiet hquiet)⟩
  · have hdying : c ∈ w.dying :=
      List.mem_filterMap.mpr ⟨.destroyConnection c, hmem, rfl⟩
    obtain ⟨conn, hc, hopen⟩ := h.owned.conn_of_mem (h.owned.doomed c hdying).1
    apply ((hwired.destroyConnection hc hopen x.acts).mono _).weaken fun _ => Or.inl
    rintro w' ⟨i, hi, hw', hdestroyed⟩
    exact ⟨⟨_, hw', h.owned.destroyed h.wired.rep.nodup hi hphase hdestroyed⟩,
      .functor hphase (.destroyed hdestroyed)⟩

theorem destroy (h : Inv w owners) (c : Nat) : Sound w owners a (.ok (w.destroy c)) := by
  exact ⟨⟨owners, h.wired.destroy c, h.owned.destroy c⟩, .freed c⟩

theorem attempt (h : Inv w owners) (hkernel : Kernel w a) (hlocal : a.Local) :
    Sound w owners a (w.attempt a) := by
  have hhome := h.wired.home
  have hattempted := w.attempted a
  generalize w.attempt a = x at hattempted ⊢
  cases hattempted with
  | stay => exact h.stay
  | start => exact h.start
  | wire l hl =>
      rw [hhome.eq_zero_of_hasLoop hl]
      exact h.wire
  | enterLoop l hl hphase =>
      obtain rfl := hhome.eq_zero_of_hasLoop hl
      exact h.enterLoop hphase
  | pollReturn l reported numEvents hphase =>
      obtain rfl := hhome.eq_zero_of_phase hphase (by simp)
      exact h.pollReturn hphase numEvents hkernel
  | nextChannel l ref active hphase =>
      obtain rfl := hhome.eq_zero_of_phase hphase (by simp)
      exact h.nextChannel hphase
  | callback l x ref cb callbacks active hphase =>
      obtain rfl := hhome.eq_zero_of_phase hphase (by simp)
      exact h.callback x hkernel hphase
  | endChannel l ref active hphase =>
      obtain rfl := hhome.eq_zero_of_phase hphase (by simp)
      exact h.endChannel hphase
  | doPendingFunctors l hphase =>
      obtain rfl := hhome.eq_zero_of_phase hphase (by simp)
      exact h.doPendingFunctors hphase
  | functor l x f rest hphase =>
      obtain rfl := hhome.eq_zero_of_phase hphase (by simp)
      exact h.functor x hphase
  | endFunctors l hphase =>
      obtain rfl := hhome.eq_zero_of_phase hphase (by simp)
      exact h.endFunctors hphase
  | send tid c message => exact hlocal.elim
  | shutdown tid c => exact hlocal.elim
  | destroy c => exact h.destroy c

/-- A thread that waits for `mutex_` changes nothing. -/
theorem step (h : Inv w owners) (hkernel : Kernel w a) (hlocal : a.Local) :
    Sound w owners a (w.step a) := by
  unfold World.step
  split
  · exact h.stay
  · exact h.attempt hkernel hlocal

/-- Nothing is registered in a server that has just been constructed. -/
theorem init (h : Initial 0 w) : Inv w [] := by
  obtain ⟨flag, counter, hbase⟩ := h.reactors 0
  obtain ⟨name, writeCmplCb, hserver⟩ := h.server
  have hwaiting : w.waiting 0 = [] := by
    rw [World.waiting, hbase]
    rfl
  have hdying : w.dying = [] := by
    rw [World.dying, hwaiting]
    rfl
  have hnone {c : Nat} {conn : TcpConnection} (hc : w.conns c = some conn) : False := by
    rw [h.conns] at hc
    cases hc
  have hstanding {ref : ChannelRef} (href : Present w ref) : Standing 0 ref := by
    rcases href with hstanding | ⟨c, conn, -, hc⟩
    · exact hstanding
    · exact (hnone hc).elim
  have hempty (name : String) (c : Nat) : w.server.connections[name]? ≠ some c := by
    rw [hserver]
    simp
  refine ⟨⟨home_init h, ?_, ?_, fun _ _ hc _ => (hnone hc).elim⟩, ?_⟩
  · rw [hbase]
    exact Poller.rep_new w.channels
  · intro ref
    obtain ⟨fd, memory, hnew⟩ := h.channels ref
    rw [hnew]
    exact Channel.requested_zero
  · exact
      { present := by simp
        opened := fun ref href => h.descriptors ref (hstanding href)
        distinct := fun ref ref' href href' =>
          h.distinct ref ref' (hstanding href) (hstanding href')
        unregistered := by
          intro ref _ _
          obtain ⟨fd, memory, hnew⟩ := h.channels ref
          rw [hnew]
          exact Int.negSucc_lt_zero 0
        fresh := fun c _ => h.conns c
        inUse := fun _ _ _ hc => (hnone hc).elim
        named := fun name c hname => (hempty name c hname).elim
        numbered := fun _ _ hc => (hnone hc).elim
        unique := fun _ _ _ _ hc => (hnone hc).elim
        functors := by simp [hwaiting]
        doomed := by simp [hdying]
        once := by simp [hdying]
        refs := by simp [hbase, Phase.refs]
        swept := by simp [h.trace] }

end Inv

/-- What the kernel guarantees, in a server that no thread without a loop uses. -/
def Undisturbed (w : World) (a : Action) : Prop := Kernel w a ∧ a.Local

instance (w : World) (a : Action) : Decidable (Undisturbed w a) :=
  inferInstanceAs (Decidable (Kernel w a ∧ a.Local))

/-- Every run without calls from other threads keeps the invariant, or ends
with a fault of a single action. -/
theorem inv_of_reach {s : Except Fault World}
    (h : (machine 0).Reach (whileRunning Undisturbed) s) :
    Ends (fun w => ∃ owners, Inv w owners)
      (fun f => ∃ w owners a, Inv w owners ∧ StepFault w a f) s := by
  apply ends_of_reach (fun w hw => ⟨[], Inv.init hw⟩) _ h
  rintro w a ⟨owners, hinv⟩ ⟨hkernel, hlocal⟩
  apply ((hinv.step hkernel hlocal).mono fun w' hw' => hw'.1).weaken
  intro f hf
  exact ⟨w, owners, a, hinv, hf⟩

/-- Every pointer that the poller, `connections_` and `active_channels_` hold
leads to an object, and every registered connection has an owner. -/
structure Accounted (w : World) : Prop where
  registered : ∀ fd c, (w.reactors 0).poller.channelMap[fd]? = some (.conn c) →
    ∃ conn, w.conns c = some conn ∧ (w.channels (.conn c)).fd = fd ∧ fd ∈ w.openFds ∧
      (w.server.connections[conn.name]? = some c ∨ .destroyConnection c ∈ w.waiting 0)
  listed : ∀ (name : String) c, w.server.connections[name]? = some c →
    ∃ conn, w.conns c = some conn ∧ conn.name = name
  names : ∀ c c' conn conn', w.conns c = some conn → w.conns c' = some conn' →
    conn.name = conn'.name → c = c'
  nextName : connName w.server ∉ w.server.connections
  dispatched : ∀ ref ∈ (w.reactors 0).phase.refs,
    (w.reactors 0).poller.channelMap[(w.channels ref).fd]? = some ref
  removals : ∀ ref iterating, .removeChannel ref iterating ∈ w.trace → iterating = false

/-- No dangling pointer was followed and no assert of the poller failed. -/
def Fault.Accountable : Fault → Prop
  | .dangling => False
  | .poller _ => False
  | _ => True

theorem Inv.accounted (h : Inv w owners) : Accounted w where
  registered fd c hfd := by
    obtain ⟨hmem, heq⟩ := (h.wired.rep.map_iff fd _).mp hfd
    obtain ⟨conn, hc, -⟩ := h.owned.conn_of_mem hmem
    have hopen := (h.owned.opened _ (h.owned.present _ hmem)).2
    refine ⟨conn, hc, heq, heq ▸ hopen, ?_⟩
    refine (h.owned.inUse c conn hmem hc).2.imp_right fun hdying => ?_
    obtain ⟨f, hf, hdestroys⟩ := List.mem_filterMap.mp hdying
    rw [Functor.destroys_eq_some] at hdestroys
    exact hdestroys ▸ hf
  listed name c hname := (h.owned.named name c hname).2
  names := h.owned.unique
  nextName := by
    rw [Std.ExtTreeMap.mem_iff_isSome_getElem?, h.owned.connName_free]
    simp
  dispatched ref href := h.wired.rep.map_of_mem (h.owned.refs ref href)
  removals := h.owned.swept

/-- In every run of a server without pool threads, whose callbacks call only on
the loop thread, every registration and every dispatched channel is accounted
for, and neither a dangling pointer nor an assert of the poller ends the run. -/
theorem no_dangling_registration {s : Except Fault World}
    (h : (machine 0).Reach (whileRunning Undisturbed) s) : Ends Accounted Fault.Accountable s := by
  apply ((inv_of_reach h).mono fun w hw => hw.elim fun _ hinv => hinv.accounted).weaken
  rintro f ⟨w, owners, a, -, hf | ⟨rfl, -⟩⟩
  · cases f with
    | poller f => exact hf
    | dangling => exact hf
    | loop f => trivial
    | connection f => trivial
    | updateChannelOwner => trivial
    | removeChannelOwner => trivial
    | removeConnectionCount => trivial
    | nextConnIdOverflow => trivial
    | poolStarted => trivial
  · trivial

/-- Answers without a descriptor, without data and without a call of the user. -/
def noAnswers : Answers := ⟨-1, 0, .received [], .error, []⟩

/-- A connection is accepted on the descriptor 100 and then closed by its peer. -/
def closingRun : List Action :=
  [.start, .wire 0, .enterLoop 0, .pollReturn 0 [1, 0, 0] 1, .nextChannel 0,
    .callback 0 { noAnswers with connfd := 100 }, .endChannel 0, .doPendingFunctors 0,
    .endFunctors 0, .pollReturn 0 [0, 0, 0, 1] 1, .nextChannel 0, .callback 0 noAnswers]

/-- A connection that only a functor owns is accounted for. -/
theorem closing_connection_accounted : ∃ w, Accounted w ∧
    (w.reactors 0).poller.channelMap[(100 : Int)]? = some (.conn 0) ∧
    w.waiting 0 = [.destroyConnection 0] := by
  obtain ⟨s, hs, hp⟩ := Machine.exists_reach (whileRunning Undisturbed)
    (M := machine 0) ⟨fresh 0, rfl, initial_fresh 0⟩ closingRun
    (fun s => match s with
      | .ok w => (w.reactors 0).poller.channelMap[(100 : Int)]? = some (.conn 0) ∧
          w.waiting 0 = [.destroyConnection 0]
      | .error _ => false) (by decide +kernel)
  cases s with
  | error f => cases hp
  | ok w => exact ⟨w, no_dangling_registration hs, of_decide_eq_true hp⟩

end World

end Yatwb
