import Yatwb.Echo.Line
import Yatwb.Server.Endurance

/-!
# The echo server at work

Between two callbacks or functors of an echo server, every connection that is
listed serves its line, and one that has been closed asks `poll(2)` for
nothing; `mutex_` is held by the loop itself while it runs functors and by
nobody otherwise, and every functor destroys a connection. Each action keeps
this and ends without a fault.
-/

namespace Yatwb

open Foundation

namespace EchoServer

open World

/-- What the server keeps for a connection that is there. -/
structure Line (w : World) (c : Nat) (conn : TcpConnection) (received transmitted : List Byte) :
    Prop where
  tidy : Tidy conn
  owner : (w.channels (.conn c)).ownerLoop = 0
  bytes : transmitted ++ conn.outputBuffer.content = received
  listed : w.Listed c → Serving ⟨conn, w.channels (.conn c)⟩ ∧ w.Watched (.conn c)
  unlisted : ¬ w.Listed c → (w.channels (.conn c)).events = Channel.noneEvent

/-- What has become of the bytes of a connection. -/
structure Account (s : EchoServer) (c : Nat) : Prop where
  line : ∀ conn, s.world.conns c = some conn →
    Line s.world c conn (s.received c) (s.transmitted c)
  past : s.world.conns c = none → s.transmitted c <+: s.received c
  future : s.world.nextObj ≤ c → s.received c = [] ∧ s.transmitted c = []

/-- The state of the loop and of the server's own objects. -/
structure Engine (w : World) : Prop where
  mutex : (w.reactors 0).event.mutex = if (w.reactors 0).phase.batching then some 0 else none
  looping : (w.reactors 0).phase = .outside → (w.reactors 0).event.looping = false
  pool : w.server.started = false → w.server.pool.started = false
  functors : ∀ f ∈ w.waiting 0, ∃ c, f = .destroyConnection c
  writeCmplCb : w.server.writeCmplCb = false
  owner : ∀ ref, Standing 0 ref → (w.channels ref).ownerLoop = 0

/-- The connections but those in `off` are as they were. -/
structure Alike (off : Nat → Prop) (w w' : World) : Prop where
  nextObj : w.nextObj ≤ w'.nextObj
  conns : ∀ c, ¬ off c → w'.conns c = w.conns c
  listed : ∀ c, ¬ off c → (w'.Listed c ↔ w.Listed c)
  owner : ∀ c, ¬ off c → (w'.channels (.conn c)).ownerLoop = (w.channels (.conn c)).ownerLoop
  events : ∀ c, ¬ off c → (w'.channels (.conn c)).events = (w.channels (.conn c)).events
  watched : ∀ c, ¬ off c → w.Listed c → w.Watched (.conn c) → w'.Watched (.conn c)

/-- All connections are as they were. -/
abbrev Same (w w' : World) : Prop := Alike (fun _ => False) w w'

/-- The invariant of an echo server. -/
structure Serves (s : EchoServer) (owners : List ChannelRef) : Prop where
  inv : Inv s.world owners
  life : Life s.world
  engine : Engine s.world
  accounts : ∀ c, Account s c

variable {s : EchoServer} {w w' w'' : World} {owners : List ChannelRef} {off : Nat → Prop}

theorem Serving.congr {conn : TcpConnection} {channel channel' : Channel}
    (h : Serving ⟨conn, channel⟩) (hevents : channel'.events = channel.events) :
    Serving ⟨conn, channel'⟩ := by
  have hwriting : channel'.isWriting = channel.isWriting := by
    rw [Channel.isWriting, Channel.isWriting, hevents]
  refine ⟨h.connected, ?_, ?_⟩
  · rw [Endpoint.Reading, hevents]
    exact h.reading
  · rw [Endpoint.InStep, Endpoint.isWriting, hwriting]
    exact h.inStep

namespace Alike

theorem refl (off : Nat → Prop) (w : World) : Alike off w w :=
  ⟨le_rfl, fun _ _ => rfl, fun _ _ => Iff.rfl, fun _ _ => rfl, fun _ _ => rfl,
    fun _ _ _ hw => hw⟩

theorem trans (h : Alike off w w') (h' : Alike off w' w'') : Alike off w w'' where
  nextObj := h.nextObj.trans h'.nextObj
  conns c hc := (h'.conns c hc).trans (h.conns c hc)
  listed c hc := (h'.listed c hc).trans (h.listed c hc)
  owner c hc := (h'.owner c hc).trans (h.owner c hc)
  events c hc := (h'.events c hc).trans (h.events c hc)
  watched c hc hlisted hw :=
    h'.watched c hc ((h.listed c hc).mpr hlisted) (h.watched c hc hlisted hw)

theorem weaken (h : Same w w') (off : Nat → Prop) : Alike off w w' :=
  ⟨h.nextObj, fun c _ => h.conns c id, fun c _ => h.listed c id, fun c _ => h.owner c id,
    fun c _ => h.events c id, fun c _ => h.watched c id⟩

theorem setPhase (w : World) (phase : Phase) : Same w (w.setPhase 0 phase) := by
  refine { refl _ w with watched := ?_ }
  intro c _ _ hw
  rw [Watched, poller_setPhase]
  exact hw

theorem setEvent (w : World) (event : EventLoop Functor) : Same w (w.setEvent 0 event) := by
  refine { refl _ w with watched := ?_ }
  intro c _ _ hw
  rw [Watched, poller_setEvent]
  exact hw

theorem log (w : World) (event : Event) : Same w (w.log event) := { refl _ w with }

/-- A line that the step leaves alone. -/
theorem line (h : Alike off w w') {c : Nat} (hc : ¬ off c) {conn : TcpConnection}
    {received transmitted : List Byte} (hline : Line w c conn received transmitted) :
    Line w' c conn received transmitted where
  tidy := hline.tidy
  owner := (h.owner c hc).trans hline.owner
  bytes := hline.bytes
  listed hlisted := by
    have hold := (h.listed c hc).mp hlisted
    obtain ⟨hserving, hwatched⟩ := hline.listed hold
    exact ⟨hserving.congr (h.events c hc), h.watched c hc hold hwatched⟩
  unlisted hout := (h.events c hc).trans (hline.unlisted fun hold => hout ((h.listed c hc).mpr hold))

/-- The accounts that a step leaves alone. -/
theorem account {s' : EchoServer} (h : Alike off s.world s'.world) {c : Nat}
    (hc : ¬ off c) (hreceived : s'.received c = s.received c)
    (htransmitted : s'.transmitted c = s.transmitted c) (haccount : Account s c) :
    Account s' c := by
  refine ⟨?_, ?_, ?_⟩
  · intro conn hconn
    rw [hreceived, htransmitted]
    exact h.line hc (haccount.line conn ((h.conns c hc).symm.trans hconn))
  · intro hnone
    rw [hreceived, htransmitted]
    exact haccount.past ((h.conns c hc).symm.trans hnone)
  · intro hnext
    rw [hreceived, htransmitted]
    exact haccount.future (h.nextObj.trans hnext)

end Alike

namespace Engine

/-- Only the loop, the flags of the server and its own channels matter. -/
theorem congr (h : Engine w) (hevent : (w'.reactors 0).event = (w.reactors 0).event)
    (hphase : (w'.reactors 0).phase = (w.reactors 0).phase)
    (hpool : w'.server.started = false → w'.server.pool.started = false)
    (hcb : w'.server.writeCmplCb = w.server.writeCmplCb)
    (howner : ∀ ref, Standing 0 ref →
      (w'.channels ref).ownerLoop = (w.channels ref).ownerLoop) : Engine w' where
  mutex := by
    rw [hevent, hphase]
    exact h.mutex
  looping := by
    rw [hevent, hphase]
    exact h.looping
  pool := hpool
  functors := by
    rw [waiting, hevent, hphase]
    exact h.functors
  writeCmplCb := hcb.trans h.writeCmplCb
  owner ref href := (howner ref href).trans (h.owner ref href)

/-- A new position in `loop` that holds `mutex_` as before. -/
theorem setPhase (h : Engine w) {phase : Phase}
    (hbatching : phase.batching = (w.reactors 0).phase.batching) (hinside : phase ≠ .outside)
    (hrest : ∀ f ∈ phase.rest, f ∈ (w.reactors 0).phase.rest) :
    Engine (w.setPhase 0 phase) where
  mutex := by
    rw [event_setPhase, phase_setPhase_self, hbatching]
    exact h.mutex
  looping := by
    rw [phase_setPhase_self]
    exact fun hout => absurd hout hinside
  pool := h.pool
  functors f hf := by
    rw [waiting, event_setPhase, phase_setPhase_self] at hf
    apply h.functors f
    rcases List.mem_append.mp hf with hf | hf
    · exact List.mem_append_left _ hf
    · exact List.mem_append_right _ (hrest f hf)
  writeCmplCb := h.writeCmplCb
  owner := h.owner

/-- A step of `loop` to another event state and another position. -/
theorem setEventPhase (h : Engine w) {event : EventLoop Functor} {phase : Phase}
    (hmutex : event.mutex = if phase.batching then some 0 else none) (hinside : phase ≠ .outside)
    (hwaiting : event.pendingFunctors ++ phase.rest = w.waiting 0) :
    Engine ((w.setEvent 0 event).setPhase 0 phase) where
  mutex := by
    rw [event_setPhase, event_setEvent_self, phase_setPhase_self]
    exact hmutex
  looping := by
    rw [phase_setPhase_self]
    exact fun hout => absurd hout hinside
  pool := h.pool
  functors f hf := by
    rw [waiting, event_setPhase, event_setEvent_self, phase_setPhase_self, hwaiting] at hf
    exact h.functors f hf
  writeCmplCb := h.writeCmplCb
  owner := h.owner

end Engine

/-- An action that ends without a fault and keeps the loop and the accounts. -/
def Runs (s : EchoServer) (a : Action) (x : Except Fault World) : Prop :=
  ∃ w', x = .ok w' ∧ Engine w' ∧ ∀ c, Account (s.after a w') c

/-- An action that moves no bytes and leaves the connections alone. -/
theorem Serves.silent (h : Serves s owners) {a : Action}
    (hsilent : ∀ c, arriving s.world a c = [] ∧ leaving s.world a c = [])
    (hengine : Engine w') (hsame : Same s.world w') : Runs s a (.ok w') := by
  refine ⟨w', rfl, hengine, fun c => ?_⟩
  refine Alike.account hsame id ?_ ?_ (h.accounts c)
  · exact (congrArg (s.received c ++ ·) (hsilent c).1).trans (List.append_nil _)
  · exact (congrArg (s.transmitted c ++ ·) (hsilent c).2).trans (List.append_nil _)

/-! ### What the loop does with the server's own channels -/

/-- A part of an action that ends without a fault and leaves the connections alone. -/
def Tends (w : World) (x : Except Fault World) : Prop :=
  ∃ w', x = .ok w' ∧ (∃ owners, Inv w' owners) ∧ Engine w' ∧ Same w w'

theorem Tends.bind {x : Except Fault World} {f : World → Except Fault World} (h : Tends w x)
    (hf : ∀ w' owners, Inv w' owners → Engine w' → Tends w' (f w')) : Tends w (x >>= f) := by
  obtain ⟨w', rfl, ⟨owners, hinv⟩, hengine, hsame⟩ := h
  obtain ⟨w'', hw'', hinv', hengine', hsame'⟩ := hf w' owners hinv hengine
  exact ⟨w'', hw'', hinv', hengine', hsame.trans hsame'⟩

theorem tends_refl (hinv : Inv w owners) (hengine : Engine w) : Tends w (.ok w) :=
  ⟨w, rfl, ⟨owners, hinv⟩, hengine, .refl _ w⟩

/-- The server changes the interest of one of its own channels. -/
theorem Engine.changeInterest (h : Engine w) (hinv : Inv w owners) {ref : ChannelRef}
    (href : Standing 0 ref) (i : Channel.Interest) : Tends w (w.changeInterest 0 ref i) := by
  have hne (c : Nat) : .conn c ≠ ref := by
    rintro rfl
    exact href
  have hmem {c : Nat} (hc : w.Listed c) : .conn c ∈ owners := by
    obtain ⟨name, hname⟩ := hc
    exact (hinv.owned.named name c hname).1
  have hkeeps (channel : Channel) (poller : Poller ChannelRef)
      (hw : w.changeInterest 0 ref i = .ok ((w.setChannel ref channel).setPoller 0 poller))
      (hwatched : ∀ c, w.Listed c → w.Watched (.conn c) →
        ((w.setChannel ref channel).setPoller 0 poller).Watched (.conn c))
      (hloop : channel.ownerLoop = (w.channels ref).ownerLoop) :
      Tends w (w.changeInterest 0 ref i) := by
    refine ⟨_, hw, ((hinv.changeInterest ref href i).of_eq_ok hw).1, ?_, ?_⟩
    · apply h.congr (event_setPoller (w.setChannel ref channel) 0 0 poller)
        (phase_setPoller (w.setChannel ref channel) 0 0 poller) h.pool rfl
      intro ref' _
      change ((w.setChannel ref channel).channels ref').ownerLoop = _
      by_cases heq : ref' = ref
      · subst heq
        rw [setChannel_self, hloop]
      · rw [setChannel_of_ne w heq]
    · have hchannel (c : Nat) : ((w.setChannel ref channel).setPoller 0 poller).channels (.conn c) =
          w.channels (.conn c) := setChannel_of_ne w (hne c) channel
      exact ⟨le_rfl, fun _ _ => rfl, fun _ _ => Iff.rfl, fun c _ => by rw [hchannel],
        fun c _ => by rw [hchannel], fun c _ => hwatched c⟩
  by_cases howns : ref ∈ owners
  · obtain ⟨w', hw', hrewired⟩ := hinv.wired.changeInterest_eq howns (h.owner ref href) i
    obtain ⟨poller, rfl⟩ := hrewired.eq
    exact hkeeps _ poller hw' (fun c hc => hrewired.others _ (hmem hc) (hne c)) rfl
  · have hfresh : ∀ ref' ∈ owners, (w.channels ref').fd ≠ (w.channels ref).fd := by
      intro ref' href' heq
      have hsame := hinv.owned.distinct ref' ref (hinv.owned.present ref' href') (Or.inl href) heq
      exact howns (hsame ▸ href')
    obtain ⟨poller, w', hw', rfl, hwatched, -⟩ := changeInterest_new_eq hinv.wired.home
      hinv.wired.rep (Inv.homeLoop_of_standing href) (h.owner ref href)
      (hinv.owned.unregistered ref href howns) (hinv.owned.opened ref (Or.inl href)).1 hfresh
      (hinv.wired.requested ref) i
    exact hkeeps _ poller hw' (fun c hc => hwatched _ (hmem hc)) rfl

/-- Flags of the server that neither the poller nor a connection knows. -/
theorem Engine.setServer (h : Engine w) {server : TcpServer}
    (hstays : Inv.Stays w (.ok { w with server := server }))
    (hpool : server.started = false → server.pool.started = false)
    (hcb : server.writeCmplCb = w.server.writeCmplCb)
    (hconnections : server.connections = w.server.connections) :
    Tends w (.ok { w with server := server }) := by
  refine ⟨_, rfl, hstays.1, h.congr rfl rfl hpool hcb fun _ _ => rfl, ?_⟩
  refine { Alike.refl _ w with listed := ?_ }
  intro c _
  rw [Listed, hconnections]
  rfl

theorem Engine.listen (h : Engine w) (hinv : Inv w owners) : Tends w (w.listen 0) := by
  rw [World.listen, hinv.wired.home.assert_bind rfl]
  have hset : Tends w (.ok w.setListenning) :=
    h.setServer (hinv.setServer rfl rfl rfl (hinv.wired.home.setServer rfl)) h.pool rfl rfl
  have hacceptor : Standing 0 .acceptor := trivial
  exact hset.bind fun w' owners' hinv' h' => h'.changeInterest hinv' hacceptor .enableReading

theorem Engine.startPool (h : Engine w) (hinv : Inv w owners) : Tends w (w.startPool 0) := by
  unfold World.startPool
  split
  · exact tends_refl hinv h
  · rename_i hstarted
    have hpool : w.setStarted.server.pool.started = false := h.pool (by simpa using hstarted)
    have hset : Home w.setStarted := hinv.wired.home.setServer rfl
    rw [World.poolStart, check_bind_of _ hpool, hset.assert_bind rfl]
    exact h.setServer (hinv.setServer rfl rfl rfl hset.startThreads) (by simp [setStarted]) rfl rfl

theorem Engine.start (h : Engine w) (hinv : Inv w owners) : Tends w (w.start 0) := by
  apply (h.startPool hinv).bind
  intro w' owners' hinv' h'
  rw [hinv'.wired.home.isInLoopThread]
  split
  · exact tends_refl hinv' h'
  · exact h'.listen hinv'

theorem Engine.wire (h : Engine w) (hinv : Inv w owners) : Tends w (w.wire 0) := by
  have htimer : Standing 0 (.timer 0) := Nat.le_refl 0
  have hwakeup : Standing 0 (.wakeup 0) := Nat.le_refl 0
  apply (h.changeInterest hinv htimer .enableReading).bind
  intro w' owners' hinv' h'
  exact h'.changeInterest hinv' hwakeup .enableReading

/-! ### The steps of the loop itself -/

/-- A step of the loop that ends as `x` with an invariant known from elsewhere. -/
theorem tends_of_sound {a : Action} {x : Except Fault World} (hx : x = .ok w')
    (hsound : World.Sound w owners a x) (hengine : Engine w') (hsame : Same w w') :
    Tends w x := by
  subst hx
  exact ⟨w', rfl, hsound.1, hengine, hsame⟩

theorem Engine.enterLoop (h : Engine w) (hinv : Inv w owners)
    (hphase : (w.reactors 0).phase = .outside) : Tends w (w.enterLoop 0) := by
  let event := { (w.reactors 0).event with looping := true, quit := false }
  have hmutex : (w.reactors 0).event.mutex = none := by
    rw [h.mutex, hphase]
    rfl
  have hin : (w.reactors 0).event.isInLoopThread 0 = true := by
    rw [hinv.wired.home.isInLoopThread]
    rfl
  have henter : w.enterLoop 0 = .ok ((w.setEvent 0 event).setPhase 0 .polling) := by
    rw [World.enterLoop, EventLoop.enterLoop_idle (h.looping hphase) hin]
    rfl
  apply tends_of_sound henter (hinv.enterLoop (a := .enterLoop 0) hphase)
  · exact h.setEventPhase hmutex (by simp) (by rw [waiting, hphase]; rfl)
  · exact (Alike.setEvent w event).trans (Alike.setPhase _ .polling)

theorem Engine.pollReturn (h : Engine w) (hinv : Inv w owners)
    (hphase : (w.reactors 0).phase = .polling) {reported : List (BitVec 16)} (numEvents : Int)
    (hfit : List.Forall₂ Poller.ReportFits (w.reactors 0).poller.pollFds reported) :
    Tends w (w.pollReturn 0 reported numEvents) := by
  obtain ⟨poller, channels, active, hpoll, -, hsame, -⟩ := hinv.wired.rep.poll hfit numEvents
  have hrun : w.pollReturn 0 reported numEvents =
      .ok { (w.setPoller 0 poller).setPhase 0 (.dispatching active) with
        channels := channels } := by
    rw [World.pollReturn, hpoll]
    rfl
  have hslots : poller.pollFds =
      ((w.reactors 0).poller.setRevents reported).pollFds := by
    have hends : Ends (fun r => r.1.pollFds =
        ((w.reactors 0).poller.setRevents reported).pollFds) (fun _ => True)
        ((w.reactors 0).poller.poll w.channels reported numEvents) := by
      unfold Poller.poll
      split
      · exact (ends_any _).bind fun _ _ => rfl
      · rfl
    exact hends.of_eq_ok hpoll
  have howner (ref : ChannelRef) : (channels ref).ownerLoop = (w.channels ref).ownerLoop := by
    obtain ⟨r, hr⟩ := hsame ref
    rw [hr]
    rfl
  apply tends_of_sound hrun (hinv.pollReturn (a := .pollReturn 0 reported numEvents) hphase
    numEvents hfit)
  · have hset : Engine ((w.setPoller 0 poller).setPhase 0 (.dispatching active)) := by
      have hpoller : Engine (w.setPoller 0 poller) :=
        h.congr (event_setPoller ..) (phase_setPoller ..) h.pool rfl fun _ _ => rfl
      refine Engine.setPhase hpoller ?_ (by simp) fun f hf => absurd hf List.not_mem_nil
      rw [phase_setPoller, hphase]
      rfl
    exact hset.congr rfl rfl hset.pool rfl fun ref _ => howner ref
  · refine ⟨le_rfl, fun _ _ => rfl, fun _ _ => Iff.rfl, fun c _ => howner _, ?_, ?_⟩
    · intro c _
      obtain ⟨r, hr⟩ := hsame (.conn c)
      change (channels (.conn c)).events = _
      rw [hr]
      rfl
    · intro c _ _ hwatched
      have hafter := hwatched.setRevents (hfit.length_eq) hsame
      change (((World.setPhase (w.setPoller 0 poller) 0 _).reactors 0).poller).Watched channels _
      rw [poller_setPhase, poller_setPoller_self]
      apply hafter.congr rfl rfl
      intro i _
      rw [hslots]

/-- The loop takes up the next channel, or is done with one. -/
theorem Engine.setPhase_tends (h : Engine w) {a : Action} {phase : Phase}
    (hiterating : phase.iterating = true) (hold : (w.reactors 0).phase.iterating = true)
    (hsound : World.Sound w owners a (.ok (w.setPhase 0 phase))) :
    Tends w (.ok (w.setPhase 0 phase)) := by
  have hbatching {p : Phase} (hp : p.iterating = true) : p.batching = false := by
    cases p <;> first | rfl | cases hp
  have hrest {p : Phase} (hp : p.iterating = true) : p.rest = [] := by
    cases p <;> first | rfl | cases hp
  apply tends_of_sound rfl hsound _ (Alike.setPhase w phase)
  apply h.setPhase
  · rw [hbatching hiterating, hbatching hold]
  · rintro rfl
    cases hiterating
  · simp [hrest hiterating]

/-- The next channel is there, and its callbacks are those of the reported word. -/
theorem nextChannel_eq (hinv : Inv w owners) {ref : ChannelRef} {active : List ChannelRef}
    (hphase : (w.reactors 0).phase = .dispatching (ref :: active)) :
    w.nextChannel 0 ref active = .ok (w.setPhase 0 (.handling ref
      (Channel.handleEvents (w.channels ref).revents) active)) := by
  have hrefs := hinv.owned.refs
  rw [hphase] at hrefs
  rw [World.nextChannel, hinv.derefChannel (hrefs ref (List.mem_cons_self ..))]
  rfl

theorem Engine.nextChannel (h : Engine w) (hinv : Inv w owners) {ref : ChannelRef}
    {active : List ChannelRef} (hphase : (w.reactors 0).phase = .dispatching (ref :: active)) :
    Tends w (w.nextChannel 0 ref active) := by
  have hsound := hinv.nextChannel (a := .nextChannel 0) hphase
  rw [nextChannel_eq hinv hphase] at hsound ⊢
  exact h.setPhase_tends rfl (by rw [hphase]; rfl) hsound

theorem Engine.endChannel (h : Engine w) (hinv : Inv w owners) {ref : ChannelRef}
    {active : List ChannelRef} (hphase : (w.reactors 0).phase = .handling ref [] active) :
    Tends w (.ok (w.setPhase 0 (.dispatching active))) :=
  h.setPhase_tends rfl (by rw [hphase]; rfl) (hinv.endChannel (a := .endChannel 0) hphase)

/-- The loop after it has taken the pending functors. -/
def taking (event : EventLoop Functor) : EventLoop Functor :=
  { event with callingPendingFunctors := true, mutex := some 0, pendingFunctors := [] }

theorem Engine.doPendingFunctors_eq (h : Engine w)
    (hphase : (w.reactors 0).phase = .dispatching []) : w.doPendingFunctors 0 =
      .ok ((w.setEvent 0 (taking (w.reactors 0).event)).setPhase 0
        (.functors (w.reactors 0).event.pendingFunctors)) := by
  have hmutex : (w.reactors 0).event.mutex = none := by
    rw [h.mutex, hphase]
    rfl
  rw [World.doPendingFunctors, EventLoop.beginFunctors_free hmutex]
  rfl

theorem Engine.doPendingFunctors (h : Engine w) (hinv : Inv w owners)
    (hphase : (w.reactors 0).phase = .dispatching []) : Tends w (w.doPendingFunctors 0) := by
  apply tends_of_sound (h.doPendingFunctors_eq hphase)
    (hinv.doPendingFunctors (a := .doPendingFunctors 0) hphase)
  · exact h.setEventPhase rfl (by simp) (by rw [waiting, hphase]; simp [taking, Phase.rest])
  · exact (Alike.setEvent w _).trans (Alike.setPhase _ _)

theorem Engine.endFunctors (h : Engine w) (hinv : Inv w owners)
    (hphase : (w.reactors 0).phase = .functors []) :
    Tends w (.ok ((w.setEvent 0 (w.reactors 0).event.endFunctors).setPhase 0 .polling)) := by
  apply tends_of_sound rfl (hinv.endFunctors (a := .endFunctors 0) hphase)
  · exact h.setEventPhase rfl (by simp) (by rw [waiting, hphase]; rfl)
  · exact (Alike.setEvent w _).trans (Alike.setPhase _ _)

/-- An action that only does what the loop does on its own. -/
theorem Serves.tends (h : Serves s owners) {a : Action}
    (hsilent : ∀ c, arriving s.world a c = [] ∧ leaving s.world a c = [])
    {x : Except Fault World} (hx : Tends s.world x) : Runs s a x := by
  obtain ⟨w', rfl, -, hengine, hsame⟩ := hx
  exact h.silent hsilent hengine hsame

end EchoServer

end Yatwb
