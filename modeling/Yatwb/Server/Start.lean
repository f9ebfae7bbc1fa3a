import Yatwb.Server.Affinity

/-!
# Starting a server again and again

`TcpServer::start` may be called any number of times, by the thread of the
base loop and by others, at any point of the iterations of the base loop. As
long as the first call comes from the thread of the loop, every further call is
harmless: the first one starts the pool and registers the acceptor, and no later
one changes anything. A first call by another thread fails the thread check of
`EventLoopThreadPool::start`.

## Implementation notes

An iteration consists of the statements of `loop`, with `poll(2)`, the dispatch
and the callbacks of the server's runs; no `accept(2)` returns a descriptor. The
pointer `owner_loop_` of the acceptor's channel, which nothing initialises, is
part of the start state.
-/

namespace Yatwb

open Foundation

/-- Nothing waits for the base loop, which refers to its own channels only. -/
structure Reactor.Vacant (r : Reactor) : Prop where
  thread : r.event.threadId = 0
  mutex : r.event.mutex = if r.phase.batching then some 0 else none
  looping : r.phase = .outside → r.event.looping = false
  pending : r.event.pendingFunctors = []
  rest : r.phase.rest = []
  refs : ∀ ref ∈ r.phase.refs, World.Standing 0 ref

namespace World

/-- A statement of `loop` of the base loop. -/
def Action.iterates : Action → Bool
  | .enterLoop l | .pollReturn l _ _ | .nextChannel l | .callback l _ | .endChannel l
  | .doPendingFunctors l | .functor l _ | .endFunctors l => l == 0
  | .start | .wire _ | .send _ _ _ | .shutdown _ _ | .destroy _ => false

/-- `accept(2)` returns a descriptor, if the callback calls it. -/
def Action.accepts : Action → Bool
  | .callback _ x => 0 ≤ x.connfd
  | _ => false

inductive BootAction
  | start (tid : ThreadId)
  | loop (a : Action)
  deriving DecidableEq, Repr

/-- A thread that finds `mutex_` held by another thread waits. -/
def bootStep (w : World) : BootAction → Except Fault World
  | .start tid =>
      match w.start tid with
      | .error (.loop .held) => .ok w
      | outcome => outcome
  | .loop a => w.step a

def bootMachine (w₀ : World) : Machine (Except Fault World) BootAction :=
  faulting (fun w => w = w₀) bootStep

/-- The first call comes from the thread of the loop, and no connection arrives. -/
def Boots (w : World) : BootAction → Prop
  | .start tid => w.server.started = false → tid = 0
  | .loop a => a.iterates ∧ Kernel w a ∧ ¬ a.accepts

instance (w : World) : ∀ a, Decidable (Boots w a)
  | .start tid => inferInstanceAs (Decidable (w.server.started = false → tid = 0))
  | .loop a => inferInstanceAs (Decidable (a.iterates ∧ Kernel w a ∧ ¬ a.accepts))

/-- The base loop is vacant, and there is no connection. -/
structure Vacant (w : World) : Prop where
  base : (w.reactors 0).Vacant
  others : ∀ l, l ≠ 0 → (w.reactors l).event.mutex = none
  conns : ∀ c, w.conns c = none

/-- The base poller represents channels that are there from the beginning. -/
structure Represents (w : World) (owners : List ChannelRef) : Prop where
  rep : (w.reactors 0).poller.Rep w.channels owners
  standing : ∀ ref ∈ owners, Standing 0 ref

/-- `start` has not been called, and the acceptor is not registered. -/
structure Unstarted (w : World) : Prop where
  started : w.server.started = false
  listenning : w.server.listenning = false
  poolStarted : w.server.pool.started = false
  loops : w.server.pool.loops = []
  loop : (w.channels .acceptor).loop = 0
  index : (w.channels .acceptor).index < 0
  events : (w.channels .acceptor).events = 0
  absent : (w.reactors 0).poller.channelMap.contains (w.channels .acceptor).fd = false

/-- A server that has been constructed, on a base loop that may be running. -/
structure Ready (w : World) : Prop where
  vacant : Vacant w
  unstarted : Unstarted w
  fd : 0 ≤ (w.channels .acceptor).fd
  represents : ∃ owners, Represents w owners

theorem Initial.ready {N : Nat} {w : World} (h : Initial N w) : Ready w := by
  obtain ⟨flag, counter, hbase⟩ := h.reactors 0
  obtain ⟨name, writeCmplCb, hserver⟩ := h.server
  obtain ⟨fd, memory, hacceptor⟩ := h.channels .acceptor
  have hothers (l : LoopId) : (w.reactors l).event.mutex = none := by
    obtain ⟨flag', counter', hl⟩ := h.reactors l
    rw [hl]
    rfl
  have hvacant : (w.reactors 0).Vacant := by
    rw [hbase]
    exact ⟨rfl, rfl, fun _ => rfl, rfl, rfl, by simp [Phase.refs]⟩
  refine ⟨⟨hvacant, fun l _ => hothers l, h.conns⟩, ?_, (h.descriptors .acceptor trivial).1,
    [], ?_, by simp⟩
  · constructor <;> simp [hbase, hserver, hacceptor, Poller.new, Channel.new, homeLoop]
  · rw [hbase]
    exact Poller.rep_new _

/-- The slot of the acceptor. -/
def acceptorSlot (w : World) : PollFd :=
  ⟨(w.channels .acceptor).fd, Channel.readEvent.setWidth 16, 0⟩

/-- The acceptor's channel after `listen`. -/
def listeningChannel (w : World) : Channel :=
  ((w.channels .acceptor).setEvents Channel.readEvent).setIndex
    (w.reactors 0).poller.pollFds.length

/-- The base poller after `listen`. -/
def listeningPoller (w : World) : Poller ChannelRef :=
  ⟨(w.reactors 0).poller.pollFds ++ [w.acceptorSlot],
    (w.reactors 0).poller.channelMap.insertIfNew (w.channels .acceptor).fd .acceptor⟩

/-- The world after a first `start` by the thread of the loop. -/
def listening (w : World) : World :=
  { (w.setStarted.startThreads.setListenning).setPoller 0 w.listeningPoller with
    channels := Function.update w.channels .acceptor w.listeningChannel }

/-- The second world is the first one with other reported words, apart from the loops. -/
structure Alike (u w : World) : Prop where
  server : w.server = u.server
  poller : (u.reactors 0).poller.SameButWords (w.reactors 0).poller
  channels : Poller.SameButRevents u.channels w.channels

namespace Alike

variable {u w w' : World}

theorem refl (w : World) : Alike w w := ⟨rfl, .refl _, .refl _⟩

theorem trans (h : Alike u w) (h' : Alike w w') : Alike u w' :=
  ⟨h'.server.trans h.server, h.poller.trans h'.poller, h.channels.trans h'.channels⟩

theorem represents (h : Alike u w) {owners : List ChannelRef} (hu : Represents u owners) :
    Represents w owners :=
  ⟨(hu.rep.reworded h.poller).reported h.channels, hu.standing⟩

theorem unstarted (h : Alike u w) (hu : Unstarted u) : Unstarted w := by
  obtain ⟨r, hr⟩ := h.channels .acceptor
  constructor
  · rw [h.server, hu.started]
  · rw [h.server, hu.listenning]
  · rw [h.server, hu.poolStarted]
  · rw [h.server, hu.loops]
  · rw [hr]
    exact hu.loop
  · rw [hr]
    exact hu.index
  · rw [hr]
    exact hu.events
  · rw [hr, h.poller.map]
    exact hu.absent

/-- Two alike worlds are alike after a first `start`. -/
theorem listening (h : Alike u w) : Alike u.listening w.listening := by
  obtain ⟨r, hr⟩ := h.channels .acceptor
  have hfd : (w.channels .acceptor).fd = (u.channels .acceptor).fd := by
    rw [hr]
    rfl
  have hlength : (w.reactors 0).poller.pollFds.length = (u.reactors 0).poller.pollFds.length := by
    rw [← List.length_map Poller.asked, h.poller.slots, List.length_map]
  refine ⟨?_, ⟨?_, ?_⟩, ?_⟩
  · simp only [World.listening, startThreads, setStarted, setListenning, setPoller, setReactor,
      h.server]
  · simp only [World.listening, poller_setPoller_self, listeningPoller, List.map_append,
      h.poller.slots, acceptorSlot, hfd]
  · simp only [World.listening, poller_setPoller_self, listeningPoller, h.poller.map, hfd]
  · intro ref
    by_cases href : ref = .acceptor
    · subst href
      refine ⟨r, ?_⟩
      simp only [World.listening, Function.update_self, listeningChannel, hr, hlength]
      rfl
    · obtain ⟨r', hr'⟩ := h.channels ref
      refine ⟨r', ?_⟩
      simp only [World.listening, Function.update_of_ne href, hr']

end Alike

/-! ### The calls of `start` -/

/-- An update of a channel of the base loop, on the thread of the loop. -/
theorem updateChannel_eq {w : World} {ref : ChannelRef} {poller : Poller ChannelRef}
    {channels : ChannelRef → Channel} (hthread : (w.reactors 0).event.threadId = 0)
    (hloop : (w.channels ref).loop = 0) (howner : (w.channels ref).ownerLoop = 0)
    (h : (w.reactors 0).poller.updateChannel w.channels ref = .ok (poller, channels)) :
    w.updateChannel 0 ref = .ok { w.setPoller 0 poller with channels := channels } := by
  simp only [updateChannel, hloop]
  rw [check_bind_of _ howner, assert_bind_of hthread, h]
  rfl

theorem enableReading_fresh {channel : Channel} (h : channel.events = 0) :
    channel.change .enableReading = channel.setEvents Channel.readEvent := by
  rw [Channel.change, h]
  rfl

/-- The first `listen` registers the acceptor. -/
theorem Unstarted.updateChannel {w : World} (h : Unstarted w) :
    (w.reactors 0).poller.updateChannel (Function.update w.channels .acceptor
        ((w.channels .acceptor).change .enableReading)) .acceptor =
      .ok (w.listeningPoller, Function.update w.channels .acceptor w.listeningChannel) := by
  rw [enableReading_fresh h.events, Poller.updateChannel_absent]
  · simp only [Function.update_self, Function.update_idem]
    rfl
  · rw [Function.update_self]
    exact h.index
  · rw [Function.update_self]
    exact h.absent

/-- The first call by the thread of the loop starts the pool and listens at once. -/
theorem Unstarted.start {w : World} (h : Unstarted w)
    (hthread : (w.reactors 0).event.threadId = 0)
    (howner : (w.channels .acceptor).ownerLoop = 0) : w.start 0 = .ok w.listening := by
  have hpool : w.startPool 0 = .ok w.setStarted.startThreads := by
    have hpoolStarted : w.setStarted.server.pool.started = false := h.poolStarted
    rw [startPool, if_neg (by rw [h.started]; simp), poolStart, check_bind_of _ hpoolStarted,
      assert_bind_of (w := w.setStarted) hthread]
    rfl
  have hidle : w.setStarted.startThreads.server.listenning = false := h.listenning
  have hin : (w.setStarted.startThreads.reactors 0).event.isInLoopThread 0 = true :=
    beq_iff_eq.mpr hthread
  let w₁ := w.setStarted.startThreads.setListenning.setChannel .acceptor
    ((w.channels .acceptor).change .enableReading)
  have hself : w₁.channels .acceptor = (w.channels .acceptor).change .enableReading :=
    setChannel_self ..
  have hupdate : w₁.updateChannel 0 .acceptor = .ok w.listening :=
    updateChannel_eq (w := w₁) hthread (hself ▸ h.loop) (hself ▸ howner) h.updateChannel
  have hlisten : w.setStarted.startThreads.listen 0 = .ok w.listening := by
    rw [World.listen, assert_bind_of (w := w.setStarted.startThreads) hthread]
    exact hupdate
  rw [World.start, hpool]
  change (if w.setStarted.startThreads.server.listenning = true then _
    else if (w.setStarted.startThreads.reactors 0).event.isInLoopThread 0 = true then _
    else _) = _
  rw [if_neg (by rw [hidle]; simp), if_pos hin]
  exact hlisten

/-- A call finds nothing to do once the server listens. -/
theorem start_listening {w : World} (hstarted : w.server.started = true)
    (hlisten : w.server.listenning = true) (tid : ThreadId) : w.start tid = .ok w := by
  rw [start, startPool, if_pos hstarted]
  change (if w.server.listenning = true then _ else _) = _
  rw [if_pos hlisten]
  rfl

theorem Vacant.listening {w : World} (h : Vacant w) : Vacant w.listening := by
  refine ⟨?_, fun l hl => ?_, h.conns⟩
  · have hbase : w.listening.reactors 0 = { w.reactors 0 with poller := w.listeningPoller } :=
      setReactor_self w.setStarted.startThreads.setListenning 0 _
    rw [hbase]
    exact ⟨h.base.thread, h.base.mutex, h.base.looping, h.base.pending, h.base.rest, h.base.refs⟩
  · have hother : w.listening.reactors l = w.reactors l := setReactor_of_ne _ hl _
    rw [hother]
    exact h.others l hl

/-- After the first call the base poller represents the acceptor, too. -/
theorem Ready.represents_listening {w : World} (h : Ready w) :
    ∃ owners, Represents w.listening owners := by
  obtain ⟨owners, hrep, hstanding⟩ := h.represents
  have hfresh : ∀ j ∈ owners, (w.channels j).fd ≠ (w.channels .acceptor).fd := by
    intro j hj heq
    have hmem := hrep.contains_of_mem hj
    rw [heq, h.unstarted.absent] at hmem
    cases hmem
  have hrequested : Channel.Requested (w.channels .acceptor).events := by
    rw [h.unstarted.events]
    exact Channel.requested_zero
  obtain ⟨poller, hpoller, hrep', -⟩ := hrep.change_new h.unstarted.index h.fd hfresh hrequested
    .enableReading
  have heq := h.unstarted.updateChannel.symm.trans hpoller
  obtain ⟨hp, hc⟩ := Prod.mk.inj (Except.ok.inj heq)
  refine ⟨owners ++ [.acceptor], ?_, ?_⟩
  · have hbase : (w.listening.reactors 0).poller = w.listeningPoller := poller_setPoller_self ..
    rw [hbase, hp]
    change poller.Rep (Function.update w.channels .acceptor w.listeningChannel) _
    rw [hc]
    exact hrep'
  · intro ref href
    rcases List.mem_append.mp href with href | href
    · exact hstanding ref href
    · rw [List.mem_singleton.mp href]
      trivial

/-! ### The iterations -/

/-- A statement of `loop` that leaves the base loop vacant. -/
abbrev Passes (w : World) (x : Except Fault World) : Prop :=
  Ends (fun w' => Vacant w' ∧ Alike w w') (fun _ => False) x

theorem alike_setReactor (w : World) {r : Reactor} (hr : r.poller = (w.reactors 0).poller) :
    Alike w (w.setReactor 0 r) := by
  refine ⟨rfl, ?_, .refl _⟩
  rw [setReactor_self, hr]
  exact .refl _

theorem setPhase_setEvent (w : World) (event : EventLoop Functor) (phase : Phase) :
    (w.setEvent 0 event).setPhase 0 phase =
      w.setReactor 0 ⟨event, (w.reactors 0).poller, phase⟩ := by
  simp [setPhase, setEvent, setReactor]

namespace Vacant

variable {w : World}

theorem setReactor (h : Vacant w) {r : Reactor} (hr : r.Vacant) : Vacant (w.setReactor 0 r) := by
  refine ⟨?_, fun l hl => ?_, h.conns⟩
  · rw [setReactor_self]
    exact hr
  · rw [setReactor_of_ne w hl]
    exact h.others l hl

/-- Another loop has been given a functor. -/
theorem queueInLoop (h : Vacant w) {l : LoopId} (hl : l ≠ 0) (cb : Functor) :
    Passes w (w.queueInLoop 0 l cb) := by
  obtain ⟨event, hevent, hmutex, -, -, -⟩ := EventLoop.queueInLoop_free (h.others l hl) 0 cb
  have hbase : (w.setEvent l event).reactors 0 = w.reactors 0 := setReactor_of_ne w (Ne.symm hl) _
  rw [World.queueInLoop, hevent]
  refine ⟨⟨hbase ▸ h.base, fun l' hl' => ?_, h.conns⟩, rfl, ?_, .refl _⟩
  · by_cases heq : l' = l
    · subst heq
      rw [event_setEvent_self]
      exact hmutex
    · rw [setEvent, setReactor_of_ne w heq]
      exact h.others l' hl'
  · rw [hbase]
    exact .refl _

theorem addTimer (h : Vacant w) (l : LoopId) : Passes w (w.addTimer 0 l) := by
  unfold World.addTimer
  split
  · rename_i hin
    rw [addTimerInLoop, assert_bind_of (beq_iff_eq.mp hin)]
    exact ⟨h, .refl w⟩
  · rename_i hout
    refine h.queueInLoop ?_ _
    rintro rfl
    exact hout (beq_iff_eq.mpr h.base.thread)

theorem userAct (h : Vacant w) (act : UserAct) : Passes w (w.userAct 0 act) := by
  rcases userAct_alone h.conns 0 act with hact | ⟨l, hact⟩
  · rw [hact]
    exact ⟨h, .refl w⟩
  · rw [hact]
    exact h.addTimer l

theorem userCallback (h : Vacant w) (acts : List UserAct) : Passes w (w.userCallback 0 acts) := by
  induction acts generalizing w with
  | nil => exact ⟨h, .refl w⟩
  | cons act rest ih =>
      apply (h.userAct act).bind
      rintro w' ⟨h', halike⟩
      exact (ih h').mono fun w'' hw => ⟨hw.1, halike.trans hw.2⟩

/-- The callbacks of the channels, as long as no connection arrives. -/
theorem runCallback (h : Vacant w) {x : Answers} (hx : ¬ 0 ≤ x.connfd) {ref : ChannelRef}
    (href : Standing 0 ref) (cb : Channel.Callback) : Passes w (w.runCallback 0 x ref cb) := by
  cases ref with
  | acceptor =>
      cases cb with
      | read =>
          rw [World.runCallback, acceptorHandleRead, assert_bind_of h.base.thread, if_neg hx]
          exact ⟨h, .refl w⟩
      | close | error | write => exact ⟨h, .refl w⟩
  | timer l =>
      obtain rfl : l = 0 := Nat.le_zero.mp href
      cases cb with
      | read =>
          rw [World.runCallback, assert_bind_of h.base.thread]
          exact h.userCallback x.acts
      | close | error | write => exact ⟨h, .refl w⟩
  | wakeup l =>
      obtain rfl : l = 0 := Nat.le_zero.mp href
      cases cb with
      | read =>
          have hread : ({ w.reactors 0 with event := (w.reactors 0).event.handleRead }).Vacant :=
            ⟨h.base.thread, h.base.mutex, h.base.looping, h.base.pending, h.base.rest, h.base.refs⟩
          exact ⟨h.setReactor hread, alike_setReactor w rfl⟩
      | close | error | write => exact ⟨h, .refl w⟩
  | conn c => exact href.elim

/-- The loop has gone on, within a batch or outside of one. -/
theorem setPhase (h : Vacant w) {phase : Phase} (hne : phase ≠ .outside)
    (hbatching : phase.batching = (w.reactors 0).phase.batching) (hrest : phase.rest = [])
    (hrefs : ∀ ref ∈ phase.refs, Standing 0 ref) : Vacant (w.setPhase 0 phase) :=
  h.setReactor ⟨h.base.thread, by rw [hbatching]; exact h.base.mutex, fun heq => absurd heq hne,
    h.base.pending, hrest, hrefs⟩

theorem enterLoop (h : Vacant w) (hphase : (w.reactors 0).phase = .outside) :
    Passes w (w.enterLoop 0) := by
  have hmutex : (w.reactors 0).event.mutex = none := by
    rw [h.base.mutex, hphase]
    rfl
  rw [World.enterLoop, EventLoop.enterLoop_idle (h.base.looping hphase)
    (beq_iff_eq.mpr h.base.thread)]
  change Passes w (.ok ((w.setEvent 0 _).setPhase 0 .polling))
  rw [setPhase_setEvent]
  refine ⟨h.setReactor ⟨h.base.thread, hmutex, fun hout => ?_, h.base.pending, rfl, ?_⟩,
    alike_setReactor w rfl⟩
  · cases hout
  · simp [Phase.refs]

/-- `poll` hands out channels of the base loop. -/
theorem pollReturn (h : Vacant w) {owners : List ChannelRef} (hrep : Represents w owners)
    {reported : List (BitVec 16)} (hphase : (w.reactors 0).phase = .polling)
    (hfit : List.Forall₂ Poller.ReportFits (w.reactors 0).poller.pollFds reported)
    (numEvents : Int) : Passes w (w.pollReturn 0 reported numEvents) := by
  obtain ⟨poller, channels, active, hpoll, -, hsame, hsub⟩ := hrep.rep.poll hfit numEvents
  have hwords := (Poller.poll_words _ _ hfit.length_eq.symm numEvents).of_eq_ok hpoll
  have hmutex : (w.reactors 0).event.mutex = none := by
    rw [h.base.mutex, hphase]
    rfl
  have hbase : ((w.setPoller 0 poller).setPhase 0 (.dispatching active)).reactors 0 =
      ⟨(w.reactors 0).event, poller, .dispatching active⟩ := by
    simp [World.setPhase, setPoller]
  rw [World.pollReturn, hpoll]
  refine ⟨⟨?_, fun l hl => ?_, h.conns⟩, rfl, ?_, hsame⟩
  · change (((w.setPoller 0 poller).setPhase 0 (.dispatching active)).reactors 0).Vacant
    rw [hbase]
    refine ⟨h.base.thread, hmutex, fun hout => ?_, h.base.pending, rfl, fun ref href => ?_⟩
    · cases hout
    · exact hrep.standing ref (hsub.subset href)
  · change (((w.setPoller 0 poller).setPhase 0 (.dispatching active)).reactors l).event.mutex = _
    rw [event_setPhase, event_setPoller]
    exact h.others l hl
  · change (w.reactors 0).poller.SameButWords
      (((w.setPoller 0 poller).setPhase 0 (.dispatching active)).reactors 0).poller
    rw [hbase]
    exact hwords

/-- The batch is empty. -/
theorem doPendingFunctors (h : Vacant w) {active : List ChannelRef}
    (hphase : (w.reactors 0).phase = .dispatching active) : Passes w (w.doPendingFunctors 0) := by
  have hmutex : (w.reactors 0).event.mutex = none := by
    rw [h.base.mutex, hphase]
    rfl
  rw [World.doPendingFunctors, EventLoop.beginFunctors_free hmutex, h.base.pending]
  change Passes w (.ok ((w.setEvent 0 _).setPhase 0 (.functors [])))
  rw [setPhase_setEvent]
  refine ⟨h.setReactor ⟨h.base.thread, rfl, fun hout => ?_, rfl, rfl, ?_⟩, alike_setReactor w rfl⟩
  · cases hout
  · simp [Phase.refs]

/-- The statements of `loop`. -/
theorem attempt (h : Vacant w) {owners : List ChannelRef} (hrep : Represents w owners) {a : Action}
    (hloop : a.iterates = true) (hkernel : Kernel w a) (haccepts : ¬ a.accepts = true) :
    Passes w (w.attempt a) := by
  have hattempted := w.attempted a
  generalize w.attempt a = x at hattempted ⊢
  cases hattempted with
  | stay => exact ⟨h, .refl w⟩
  | start | wire _ | send _ _ _ | shutdown _ _ | destroy _ => cases hloop
  | enterLoop l hl hphase =>
      obtain rfl : l = 0 := beq_iff_eq.mp hloop
      exact h.enterLoop hphase
  | pollReturn l reported numEvents hphase =>
      obtain rfl : l = 0 := beq_iff_eq.mp hloop
      exact h.pollReturn hrep hphase hkernel numEvents
  | nextChannel l ref active hphase =>
      obtain rfl : l = 0 := beq_iff_eq.mp hloop
      have hrefs := h.base.refs
      rw [hphase] at hrefs
      have href := hrefs ref (List.mem_cons_self ..)
      have hderef : w.derefChannel ref = .ok (w.channels ref) := by
        cases ref with
        | conn c => exact href.elim
        | acceptor | timer l | wakeup l => rfl
      rw [World.nextChannel, hderef]
      refine ⟨h.setPhase (by simp) (by rw [hphase]; rfl) rfl hrefs, alike_setReactor w rfl⟩
  | callback l x ref cb callbacks active hphase =>
      obtain rfl : l = 0 := beq_iff_eq.mp hloop
      have hrefs := h.base.refs
      rw [hphase] at hrefs
      have hset : Vacant (w.setPhase 0 (.handling ref callbacks active)) :=
        h.setPhase (by simp) (by rw [hphase]; rfl) rfl hrefs
      have halike : Alike w (w.setPhase 0 (.handling ref callbacks active)) :=
        alike_setReactor w rfl
      apply (hset.runCallback (x := x) (by simpa [Action.accepts] using haccepts)
        (hrefs ref (List.mem_cons_self ..)) cb).mono
      exact fun w' hw => ⟨hw.1, halike.trans hw.2⟩
  | endChannel l ref active hphase =>
      obtain rfl : l = 0 := beq_iff_eq.mp hloop
      have hrefs := h.base.refs
      rw [hphase] at hrefs
      exact ⟨h.setPhase (by simp) (by rw [hphase]; rfl) rfl
        fun ref' href' => hrefs ref' (List.mem_cons_of_mem _ href'), alike_setReactor w rfl⟩
  | doPendingFunctors l hphase =>
      obtain rfl : l = 0 := beq_iff_eq.mp hloop
      exact h.doPendingFunctors hphase
  | functor l x f rest hphase =>
      obtain rfl : l = 0 := beq_iff_eq.mp hloop
      have hrest := h.base.rest
      rw [hphase] at hrest
      cases hrest
  | endFunctors l hphase =>
      obtain rfl : l = 0 := beq_iff_eq.mp hloop
      change Passes w (.ok ((w.setEvent 0 _).setPhase 0 .polling))
      rw [setPhase_setEvent]
      refine ⟨h.setReactor ⟨h.base.thread, rfl, fun hout => ?_, h.base.pending, rfl, ?_⟩,
        alike_setReactor w rfl⟩
      · cases hout
      · simp [Phase.refs]

end Vacant

/-! ### The runs -/

/-- How far the server that began as `w₀` has got: `started_` decides it. -/
structure Booting (w₀ w : World) : Prop where
  vacant : Vacant w
  alike : Alike (if w.server.started then w₀.listening else w₀) w

theorem Booting.represents {w₀ w : World} (h : Booting w₀ w) (hready : Ready w₀) :
    ∃ owners, Represents w owners := by
  have halike := h.alike
  split at halike
  · obtain ⟨owners, howners⟩ := hready.represents_listening
    exact ⟨owners, halike.represents howners⟩
  · obtain ⟨owners, howners⟩ := hready.represents
    exact ⟨owners, halike.represents howners⟩

/-- A call of `start`, the first one by the thread of the loop. -/
theorem Booting.start {w₀ w : World} (h : Booting w₀ w) (hready : Ready w₀)
    (howner : (w₀.channels .acceptor).ownerLoop = 0) {tid : ThreadId}
    (hfirst : w.server.started = false → tid = 0) :
    ∃ w', w.start tid = .ok w' ∧ Booting w₀ w' := by
  have halike := h.alike
  cases hstarted : w.server.started with
  | true =>
      rw [hstarted, if_pos rfl] at halike
      have hlisten : w.server.listenning = true := by
        rw [halike.server]
        rfl
      exact ⟨w, start_listening hstarted hlisten tid, h⟩
  | false =>
      rw [hstarted, if_neg Bool.false_ne_true] at halike
      obtain rfl := hfirst hstarted
      have hown : (w.channels .acceptor).ownerLoop = 0 := by
        obtain ⟨r, hr⟩ := halike.channels .acceptor
        rw [hr]
        exact howner
      have hmain := (halike.unstarted hready.unstarted).start h.vacant.base.thread hown
      exact ⟨w.listening, hmain, h.vacant.listening, halike.listening⟩

theorem Booting.loop {w₀ w : World} (h : Booting w₀ w) (hready : Ready w₀) {a : Action}
    (hloop : a.iterates = true) (hkernel : Kernel w a) (haccepts : ¬ a.accepts = true) :
    ∃ w', w.step a = .ok w' ∧ Booting w₀ w' := by
  obtain ⟨owners, howners⟩ := h.represents hready
  have hpasses := h.vacant.attempt howners hloop hkernel haccepts
  cases hattempt : w.attempt a with
  | error f =>
      rw [hattempt] at hpasses
      exact hpasses.elim
  | ok w' =>
      rw [hattempt] at hpasses
      obtain ⟨hvacant, halike⟩ := hpasses
      refine ⟨w', by rw [step, hattempt], hvacant, ?_⟩
      rw [halike.server]
      exact h.alike.trans halike

/-- The pool runs, and the acceptor is registered once, for reading. -/
structure Serving (w : World) : Prop where
  pool : w.server.pool.started = true ∧
    w.server.pool.loops = List.range' 1 w.server.pool.numThreads
  listenning : w.server.listenning = true
  mapped : (w.reactors 0).poller.channelMap[(w.channels .acceptor).fd]? = some .acceptor
  events : (w.channels .acceptor).events = Channel.readEvent
  polled : ((w.reactors 0).poller.pollFds.filter
      fun pfd => pfd.fd = (w.channels .acceptor).fd).map Poller.asked =
    [((w.channels .acceptor).fd, Channel.readEvent.setWidth 16)]

/-- No slot has the descriptor of the acceptor before it listens. -/
theorem Ready.unpolled {w : World} (h : Ready w) :
    ∀ pfd ∈ (w.reactors 0).poller.pollFds, pfd.fd ≠ (w.channels .acceptor).fd := by
  obtain ⟨owners, hrep, -⟩ := h.represents
  intro pfd hpfd heq
  obtain ⟨i, hi⟩ := List.getElem?_of_mem hpfd
  have hlt : i < owners.length := hrep.length_eq ▸ (List.getElem?_eq_some_iff.mp hi).1
  have howner := List.getElem?_eq_getElem hlt
  have hnonneg := hrep.fd_nonneg _ (List.getElem_mem hlt)
  rcases (hrep.slot i owners[i] pfd howner hi).1 with hfd | hfd
  · have hmem := hrep.contains_of_mem (List.getElem_mem hlt)
    rw [← hfd, heq, h.unstarted.absent] at hmem
    cases hmem
  · have hacceptor := h.fd
    rw [← heq, hfd, Poller.ignoredFd] at hacceptor
    omega

/-- A single `start` makes the server serve. -/
theorem Ready.serving {w : World} (h : Ready w) : Serving w.listening := by
  have hbase : (w.listening.reactors 0).poller = w.listeningPoller := poller_setPoller_self ..
  have hchannel : w.listening.channels .acceptor = w.listeningChannel := by
    simp only [World.listening, Function.update_self]
  have hfd : (w.listening.channels .acceptor).fd = (w.channels .acceptor).fd := by
    rw [hchannel]
    rfl
  have habsent : (w.channels .acceptor).fd ∉ (w.reactors 0).poller.channelMap := by
    rw [← Std.ExtTreeMap.contains_iff_mem, h.unstarted.absent]
    exact Bool.false_ne_true
  refine ⟨⟨rfl, ?_⟩, rfl, ?_, ?_, ?_⟩
  · change w.server.pool.loops ++ List.range' 1 w.server.pool.numThreads = _
    rw [h.unstarted.loops]
    rfl
  · rw [hbase, hfd, listeningPoller, Std.ExtTreeMap.getElem?_insertIfNew,
      if_pos ⟨Std.ReflCmp.compare_self, habsent⟩]
  · rw [hchannel]
    rfl
  · have hothers : (w.reactors 0).poller.pollFds.filter
        (fun pfd => pfd.fd = (w.channels .acceptor).fd) = [] := by
      rw [List.filter_eq_nil_iff]
      intro pfd hpfd
      simpa using h.unpolled pfd hpfd
    rw [hbase, hfd, listeningPoller, List.filter_append, hothers]
    simp [acceptorSlot, Poller.asked]

/-- Whether a server serves does not depend on the reported words. -/
theorem Alike.serving {u w : World} (h : Alike u w) (hu : Serving u) : Serving w := by
  obtain ⟨r, hr⟩ := h.channels .acceptor
  have hfd : (w.channels .acceptor).fd = (u.channels .acceptor).fd := by
    rw [hr]
    rfl
  have hfilter (p : Poller ChannelRef) (fd : Int) :
      (p.pollFds.filter fun pfd => pfd.fd = fd).map Poller.asked =
        (p.pollFds.map Poller.asked).filter fun request => request.1 = fd := by
    rw [List.filter_map]
    rfl
  refine ⟨?_, ?_, ?_, ?_, ?_⟩
  · rw [h.server]
    exact hu.pool
  · rw [h.server]
    exact hu.listenning
  · rw [h.poller.map, hfd]
    exact hu.mapped
  · rw [hr]
    exact hu.events
  · rw [hfilter, h.poller.slots, hfd, ← hfilter]
    exact hu.polled

/-- In every run in which the first `start` comes from the thread of the loop
and no connection arrives, no assert and no thread check fails. Once `start` has
been called the pool has been started, once, and the acceptor is registered,
once: the world is the one that a single `start` leaves, apart from the words
that `poll(2)` has reported. -/
theorem start_is_idempotent {w₀ : World} (hready : Ready w₀)
    (howner : (w₀.channels .acceptor).ownerLoop = 0) {s : Except Fault World}
    (h : (bootMachine w₀).Reach (whileRunning Boots) s) :
    ∃ w, s = .ok w ∧ w.waiting 0 = [] ∧ (w.server.started = true →
      Serving w ∧ w.server.pool.loops = List.range' 1 w₀.server.pool.numThreads ∧
        ∃ w₁, w₀.start 0 = .ok w₁ ∧ Alike w₁ w) := by
  have hmain : ∃ w, s = .ok w ∧ Booting w₀ w := by
    apply faultless _ _ h
    · rintro w rfl
      refine ⟨hready.vacant, ?_⟩
      rw [hready.unstarted.started, if_neg Bool.false_ne_true]
      exact .refl w
    · intro w a hbooting hboots
      cases a with
      | start tid =>
          obtain ⟨w', hw', hbooting'⟩ := hbooting.start hready howner hboots
          exact ⟨w', by rw [bootStep, hw'], hbooting'⟩
      | loop a => exact hbooting.loop hready hboots.1 hboots.2.1 hboots.2.2
  obtain ⟨w, rfl, hvacant, halike⟩ := hmain
  refine ⟨w, rfl, ?_, fun hstarted => ?_⟩
  · rw [waiting, hvacant.base.pending, hvacant.base.rest]
    rfl
  · rw [hstarted, if_pos rfl] at halike
    have hloops : w.server.pool.loops = List.range' 1 w₀.server.pool.numThreads := by
      rw [halike.server]
      exact hready.serving.pool.2
    exact ⟨halike.serving hready.serving, hloops, w₀.listening,
      hready.unstarted.start hready.vacant.base.thread howner, halike⟩

/-- The loop thread and two others start a server with two pool threads, the
last one while the loop runs its functors. The poll reports the acceptor, which
has no connection any more. -/
def startingRun : List BootAction :=
  [.loop (.enterLoop 0), .start 0, .loop (.pollReturn 0 [1] 1), .start 7,
    .loop (.nextChannel 0), .loop (.callback 0 ⟨-1, 0, .received [], .error, [.addTimer 2]⟩),
    .loop (.endChannel 0), .loop (.doPendingFunctors 0), .start 9, .loop (.endFunctors 0)]

/-- Three calls start the pool once. -/
theorem three_starts_serve : ∃ w, Serving w ∧ w.server.pool.loops = [1, 2] ∧
    (w.reactors 0).phase = .polling := by
  obtain ⟨s, hs, hp⟩ := Machine.exists_reach (whileRunning Boots)
    (M := bootMachine (fresh 2)) ⟨fresh 2, rfl, rfl⟩ startingRun
    (fun s => match s with
      | .ok w => w.server.started = true ∧ (w.reactors 0).phase = .polling
      | .error _ => false) (by decide +kernel)
  obtain ⟨w, rfl, -, hserving⟩ := start_is_idempotent (initial_fresh 2).ready rfl hs
  obtain ⟨hstarted, hphase⟩ := of_decide_eq_true hp
  obtain ⟨hserves, hloops, -⟩ := hserving hstarted
  exact ⟨w, hserves, hloops, hphase⟩

/-- A first call by another thread fails the thread check. -/
theorem start_from_another_thread_aborts : ¬ ∀ s, (bootMachine (fresh 0)).Reachable s →
    ∃ w, s = .ok w := by
  intro h
  have hstep : (bootMachine (fresh 0)).next (.ok (fresh 0)) (.start 7) =
      some (.error (.loop .notInLoopThread)) := rfl
  obtain ⟨w, hw⟩ := h _ (Machine.Reach.step (Machine.Reach.init ⟨fresh 0, rfl, rfl⟩) trivial hstep)
  cases hw

end World

end Yatwb
