import Yatwb.Server.Affinity

/-!
# The acceptor and its poller

A server that has not been started is dormant: it has no connection, and its
base poller knows the timer and the wake-up channel at most. `Acceptor::listen`
registers the channel of the acceptor, and nothing takes it out of the poller
again.

## Implementation notes

Both invariants hold for a pool of any size, and with the calls of any thread.
-/

namespace Yatwb.World

open Foundation

/-- The channels of the base loop itself. -/
def Internal (ref : ChannelRef) : Prop := ref = .timer 0 ∨ ref = .wakeup 0

/-- A loop that knows no channel but those of the base loop itself. -/
structure Quiescent (channels : ChannelRef → Channel) (r : Reactor) : Prop where
  waiting : ∀ f ∈ r.event.pendingFunctors ++ r.phase.rest, f = .addTimerInLoop
  refs : ∀ ref ∈ r.phase.refs, Internal ref
  holds : ∀ ref, r.poller.Holds ref → Internal ref
  slots : ∀ pfd ∈ r.poller.pollFds, ∃ ref, Internal ref ∧ Poller.SlotOf (channels ref).fd pfd

/-- The server has not been started. -/
structure Dormant (w : World) : Prop where
  listenning : w.server.listenning = false
  loops : w.server.pool.loops = []
  connections : w.server.connections = ∅
  conns : ∀ c, w.conns c = none
  thread : (w.reactors 0).event.threadId = 0
  acceptor : (w.channels .acceptor).loop = 0
  descriptors : ∀ ref, Standing 0 ref → 0 ≤ (w.channels ref).fd
  distinct : ∀ ref, Internal ref → (w.channels ref).fd ≠ (w.channels .acceptor).fd
  reactors : ∀ l, Quiescent w.channels (w.reactors l)

/-- `Acceptor::listen` has run. -/
structure Listening (w : World) : Prop where
  listenning : w.server.listenning = true
  registered : (w.reactors 0).poller.Holds .acceptor

variable {w : World}

namespace Listening

theorem setReactor (h : Listening w) {l : LoopId} {r : Reactor}
    (hr : (w.reactors l).poller.Holds .acceptor → r.poller.Holds .acceptor) :
    Listening (w.setReactor l r) := by
  refine ⟨h.listenning, ?_⟩
  by_cases hl : 0 = l
  · subst hl
    rw [setReactor_self]
    exact hr h.registered
  · rw [setReactor_of_ne w hl]
    exact h.registered

theorem setEvent (h : Listening w) (l : LoopId) (event : EventLoop Functor) :
    Listening (w.setEvent l event) :=
  h.setReactor id

theorem setPhase (h : Listening w) (l : LoopId) (phase : Phase) :
    Listening (w.setPhase l phase) :=
  h.setReactor id

/-- What follows keeps the acceptor registered, or fails. -/
abbrev Stays (x : Except Fault World) : Prop := Ends Listening (fun _ => True) x

theorem updateChannel (h : Listening w) (tid : ThreadId) (ref : ChannelRef) :
    Stays (w.updateChannel tid ref) := by
  apply ends_check (fun _ => trivial)
  intro _
  apply ends_bind
  intro _
  apply ((Poller.updateChannel_keeps _ _ _).mapError fun _ _ => trivial).bind
  rintro ⟨poller, channels⟩ ⟨-, hholds, -⟩
  have hset : Listening (w.setPoller (w.channels ref).loop poller) :=
    h.setReactor fun hold => hholds _ hold
  exact ⟨hset.listenning, hset.registered⟩

theorem changeInterest (h : Listening w) (tid : ThreadId) (ref : ChannelRef)
    (i : Channel.Interest) : Stays (w.changeInterest tid ref i) :=
  updateChannel (w := w.setChannel ref _) ⟨h.listenning, h.registered⟩ tid ref

/-- Only connections are removed. -/
theorem removeChannel (h : Listening w) (tid : ThreadId) (l : LoopId) (c : Nat) :
    Stays (w.removeChannel tid l (.conn c)) := by
  apply ends_check (fun _ => trivial)
  intro _
  apply ends_bind
  intro _
  by_cases hl : l = 0
  · subst hl
    have hne : ChannelRef.acceptor ≠ .conn c := fun heq => by cases heq
    apply ((Poller.removeChannel_keeps _ _ hne h.registered).mapError fun _ _ => trivial).bind
    rintro ⟨poller, channels⟩ hholds
    exact ⟨h.listenning, by rw [poller_setPoller_self]; exact hholds⟩
  · apply ends_bind
    rintro ⟨poller, channels⟩
    refine ⟨h.listenning, ?_⟩
    rw [setPoller, setReactor_of_ne _ (Ne.symm hl)]
    exact h.registered

theorem queueInLoop (h : Listening w) (tid : ThreadId) (l : LoopId) (cb : Functor) :
    Stays (w.queueInLoop tid l cb) :=
  ends_bind fun event => h.setEvent l event

theorem requests (h : Listening w) (tid : ThreadId) (c : Nat) (l : LoopId)
    (asked : List Request) : Stays (w.requests tid c l asked) := by
  induction asked generalizing w with
  | nil => exact h
  | cons q rest ih =>
      have hq : Stays (w.request tid c l q) := by
        cases q with
        | write taken => exact h
        | update => exact h.updateChannel tid _
        | queueWriteComplete => exact h.queueInLoop tid l _
        | shutdownWrite => exact h
      exact hq.bind fun w' h' => ih h'

theorem setConn (h : Listening w) (c : Nat) (conn : Option TcpConnection) :
    Listening (w.setConn c conn) :=
  ⟨h.listenning, h.registered⟩

theorem setEndpoint (h : Listening w) (c : Nat) (e : Endpoint) : Listening (w.setEndpoint c e) :=
  ⟨h.listenning, h.registered⟩

theorem log (h : Listening w) (event : Event) : Listening (w.log event) :=
  ⟨h.listenning, h.registered⟩

/-- A change of the server that goes on listening. -/
theorem setServer (h : Listening w) {server : TcpServer}
    (hlisten : server.listenning = w.server.listenning) :
    Listening { w with server := server } :=
  ⟨hlisten.trans h.listenning, h.registered⟩

theorem commit (h : Listening w) (tid : ThreadId) (c : Nat)
    (outcome : Endpoint × List Request) : Stays (w.commit tid c outcome) :=
  (h.setEndpoint c outcome.1).requests tid c _ _

theorem sendInLoop (h : Listening w) (tid : ThreadId) (c : Nat) (message : List Byte)
    (r : WriteResult) : Stays (w.sendInLoop tid c message r) :=
  ends_bind fun _ => ends_bind fun _ => ends_bind fun outcome => h.commit tid c outcome

theorem send (h : Listening w) (tid : ThreadId) (c : Nat) (message : List Byte)
    (r : WriteResult) : Stays (w.send tid c message r) := by
  unfold World.send
  split
  · exact h
  · split
    · split
      · exact h.sendInLoop tid c message r
      · exact h.queueInLoop tid _ _
    · exact h

theorem shutdownInLoop (h : Listening w) (tid : ThreadId) (c : Nat) :
    Stays (w.shutdownInLoop tid c) :=
  ends_bind fun _ => ends_bind fun _ => h.commit tid c _

theorem shutdown (h : Listening w) (tid : ThreadId) (c : Nat) : Stays (w.shutdown tid c) := by
  unfold World.shutdown
  split
  · exact h
  · split
    · simp only
      split
      · exact (h.setConn c _).shutdownInLoop tid c
      · exact (h.setConn c _).queueInLoop tid _ _
    · exact h

theorem addTimerInLoop (h : Listening w) (tid : ThreadId) (l : LoopId) :
    Stays (w.addTimerInLoop tid l) :=
  ends_bind fun _ => h

theorem userAct (h : Listening w) (tid : ThreadId) (act : UserAct) : Stays (w.userAct tid act) := by
  cases act with
  | send c message r => exact h.send tid c message r
  | shutdown c => exact h.shutdown tid c
  | retrieveAsString c =>
      simp only [World.userAct, retrieveAsString]
      split
      · exact h
      · exact ends_bind fun _ => h.setConn c _
  | addTimer l =>
      simp only [World.userAct, addTimer]
      split
      · exact h.addTimerInLoop tid l
      · exact h.queueInLoop tid l _

theorem userCallback (h : Listening w) (tid : ThreadId) (acts : List UserAct) :
    Stays (w.userCallback tid acts) := by
  induction acts generalizing w with
  | nil => exact h
  | cons act rest ih => exact (h.userAct tid act).bind fun w' h' => ih h'

theorem establishConnection (h : Listening w) (tid : ThreadId) (c : Nat) (acts : List UserAct) :
    Stays (w.establishConnection tid c acts) := by
  apply ends_bind
  intro _
  apply ends_bind
  intro _
  apply ends_bind
  intro outcome
  apply (h.commit tid c outcome).bind
  intro w' h'
  exact (h'.log _).userCallback tid acts

theorem getNextLoop (h : Listening w) (tid : ThreadId) :
    Ends (fun r => Listening r.2) (fun _ => True) (w.getNextLoop tid) := by
  apply ends_bind
  intro _
  dsimp only
  split
  · exact h
  · exact h.setServer rfl

theorem newConnection (h : Listening w) (tid : ThreadId) (sockfd : Int) (memory : LoopId)
    (acts : List UserAct) : Stays (w.newConnection tid sockfd memory acts) := by
  apply ends_bind
  intro _
  apply ends_check (fun _ => trivial)
  intro _
  have hcount : Listening w.countConnection := h.setServer rfl
  apply (hcount.getNextLoop tid).bind
  rintro ⟨ioLoop, w'⟩ h'
  have hadded : Listening (w'.addConnection
      (Endpoint.new ioLoop (connName w.server) sockfd w'.server.writeCmplCb memory)) :=
    ⟨h'.listenning, h'.registered⟩
  exact hadded.establishConnection tid _ acts

theorem acceptorHandleRead (h : Listening w) (tid : ThreadId) (connfd : Int) (memory : LoopId)
    (acts : List UserAct) : Stays (w.acceptorHandleRead tid connfd memory acts) := by
  apply ends_bind
  intro _
  have hopen : Listening (w.openFd connfd) := ⟨h.listenning, h.registered⟩
  split
  · exact hopen.newConnection tid connfd memory acts
  · exact h

theorem handleClose (h : Listening w) (tid : ThreadId) (c : Nat) : Stays (w.handleClose tid c) := by
  apply ends_bind
  intro _
  apply ends_bind
  intro _
  apply ends_bind
  intro outcome
  apply (h.commit tid c outcome).bind
  intro w' h'
  apply ends_bind
  intro _
  apply ends_bind
  intro e
  apply ends_check (fun _ => trivial)
  intro _
  have herase : Listening ((w'.log (.handleClose c)).eraseConnection e.conn.name) :=
    (h'.log _).setServer rfl
  exact (herase.log _).queueInLoop tid 0 _

theorem handleRead (h : Listening w) (tid : ThreadId) (c : Nat) (r : Buffer.ReadResult)
    (acts : List UserAct) : Stays (w.handleRead tid c r acts) := by
  apply ends_bind
  intro _
  apply ends_bind
  rintro ⟨e, outcome⟩
  have hset := h.setEndpoint c e
  cases outcome with
  | message => exact (hset.log _).userCallback tid acts
  | close => exact hset.handleClose tid c
  | error => exact hset

theorem handleWrite (h : Listening w) (tid : ThreadId) (c : Nat) (r : WriteResult) :
    Stays (w.handleWrite tid c r) :=
  ends_bind fun _ => ends_bind fun _ => ends_bind fun outcome => h.commit tid c outcome

theorem destroyConnection (h : Listening w) (tid : ThreadId) (c : Nat) (acts : List UserAct) :
    Stays (w.destroyConnection tid c acts) := by
  apply ends_bind
  intro _
  apply ends_bind
  intro _
  apply ends_bind
  intro outcome
  apply (h.commit tid c outcome).bind
  intro w' h'
  apply (((h'.log _).log _).userCallback tid acts).bind
  intro w'' h''
  exact h''.removeChannel tid _ c

theorem listen (h : Listening w) (tid : ThreadId) : Stays (w.listen tid) := by
  apply ends_bind
  intro _
  have hset : Listening w.setListenning := ⟨rfl, h.registered⟩
  exact hset.changeInterest tid _ _

theorem start (h : Listening w) (tid : ThreadId) : Stays (w.start tid) := by
  have hpool : Stays (w.startPool tid) := by
    unfold startPool
    split
    · exact h
    · apply ends_check (fun _ => trivial)
      intro _
      apply ends_bind
      intro _
      exact ⟨h.listenning, h.registered⟩
  apply hpool.bind
  intro w' h'
  split
  · exact h'
  · split
    · exact h'.listen tid
    · exact h'.queueInLoop tid 0 _

theorem runCallback (h : Listening w) (tid : ThreadId) (x : Answers) (ref : ChannelRef)
    (cb : Channel.Callback) : Stays (w.runCallback tid x ref cb) := by
  unfold World.runCallback
  split
  · exact h.acceptorHandleRead tid _ _ _
  · exact ends_bind fun _ => h.userCallback tid _
  · exact h.setEvent _ _
  · exact h.handleClose tid _
  · exact ends_bind fun _ => h
  · exact h.handleRead tid _ _ _
  · exact h.handleWrite tid _ _
  · exact h

theorem runFunctor (h : Listening w) (tid : ThreadId) (x : Answers) (f : Functor) :
    Stays (w.runFunctor tid x f) := by
  cases f with
  | listen => exact h.listen tid
  | addTimerInLoop => exact h.addTimerInLoop tid tid
  | sendInLoop c message => exact h.sendInLoop tid c message _
  | shutdownInLoop c => exact h.shutdownInLoop tid c
  | destroyConnection c => exact h.destroyConnection tid c _
  | writeComplete c => exact h.userCallback tid _

theorem pollReturn (h : Listening w) (l : LoopId) (reported : List (BitVec 16)) (numEvents : Int) :
    Stays (w.pollReturn l reported numEvents) := by
  apply ((Poller.poll_frame _ _ _ _).mapError fun _ _ => trivial).bind
  rintro ⟨poller, channels, active⟩ ⟨hmap, -, -⟩
  have hset : Listening (w.setPoller l poller) := by
    apply h.setReactor
    rintro ⟨fd, hfd⟩
    exact ⟨fd, hmap ▸ hfd⟩
  have hphase := hset.setPhase l (.dispatching active)
  exact ⟨hphase.listenning, hphase.registered⟩

theorem destroy (h : Listening w) (c : Nat) : Listening (w.destroy c) := by
  unfold World.destroy
  split
  · exact h
  · split
    · exact h
    · exact ⟨h.listenning, h.registered⟩

theorem attempt (h : Listening w) (a : Action) : Stays (w.attempt a) := by
  have hattempted := w.attempted a
  generalize w.attempt a = x at hattempted ⊢
  cases hattempted with
  | stay => exact h
  | start => exact h.start 0
  | wire l => exact (h.changeInterest l _ _).bind fun w' h' => h'.changeInterest l _ _
  | enterLoop l => exact ends_bind fun event => (h.setEvent l event).setPhase l _
  | pollReturn l reported numEvents => exact h.pollReturn l reported numEvents
  | nextChannel l => exact ends_bind fun _ => h.setPhase l _
  | callback l x => exact (h.setPhase l _).runCallback l x _ _
  | endChannel l => exact h.setPhase l _
  | doPendingFunctors l => exact ends_bind fun _ => (h.setEvent l _).setPhase l _
  | functor l x => exact (h.setPhase l _).runFunctor l x _
  | endFunctors l => exact (h.setEvent l _).setPhase l _
  | send tid c message => exact h.send tid c message .error
  | shutdown tid c => exact h.shutdown tid c
  | destroy c => exact h.destroy c

end Listening

/-- `update` of the acceptor's channel registers it with the base loop. -/
theorem registers_acceptor (hlisten : w.server.listenning = true)
    (hloop : (w.channels .acceptor).loop = 0) (tid : ThreadId) :
    Listening.Stays (w.updateChannel tid .acceptor) := by
  simp only [updateChannel, hloop]
  apply ends_check (fun _ => trivial)
  intro _
  apply ends_bind
  intro _
  apply ((Poller.updateChannel_keeps _ _ _).mapError fun _ _ => trivial).bind
  rintro ⟨poller, channels⟩ ⟨hregistered, -, -⟩
  refine ⟨hlisten, ?_⟩
  change ((w.setPoller 0 poller).reactors 0).poller.Holds .acceptor
  rw [poller_setPoller_self]
  exact hregistered

theorem Quiescent.congr {channels channels' : ChannelRef → Channel} {r : Reactor}
    (h : Quiescent channels r) (hfd : ∀ ref, (channels' ref).fd = (channels ref).fd) :
    Quiescent channels' r := by
  refine { h with slots := ?_ }
  intro pfd hpfd
  obtain ⟨ref, href, hslot⟩ := h.slots pfd hpfd
  exact ⟨ref, href, by rw [hfd]; exact hslot⟩

/-- What follows leaves the server dormant, or fails. -/
abbrev StaysDormant (x : Except Fault World) : Prop := Ends Dormant (fun _ => True) x

namespace Dormant

theorem setReactor (h : Dormant w) {l : LoopId} {r : Reactor}
    (hthread : r.event.threadId = (w.reactors l).event.threadId)
    (hr : Quiescent w.channels r) : Dormant (w.setReactor l r) := by
  refine { h with thread := ?_, reactors := ?_ }
  · by_cases hl : 0 = l
    · subst hl
      rw [setReactor_self, hthread, h.thread]
    · rw [setReactor_of_ne w hl, h.thread]
  · intro l'
    by_cases hl : l' = l
    · subst hl
      rw [setReactor_self]
      exact hr
    · rw [setReactor_of_ne w hl]
      exact h.reactors l'

/-- The functors of the loop are still those of timers. -/
theorem setEvent (h : Dormant w) {l : LoopId} {event : EventLoop Functor}
    (hthread : event.threadId = (w.reactors l).event.threadId)
    (hwaiting : ∀ f ∈ event.pendingFunctors ++ (w.reactors l).phase.rest, f = .addTimerInLoop) :
    Dormant (w.setEvent l event) :=
  h.setReactor hthread { h.reactors l with waiting := hwaiting }

theorem setPhase (h : Dormant w) {l : LoopId} {phase : Phase}
    (hrest : ∀ f ∈ phase.rest, f = .addTimerInLoop) (hrefs : ∀ ref ∈ phase.refs, Internal ref) :
    Dormant (w.setPhase l phase) := by
  refine h.setReactor rfl { h.reactors l with waiting := ?_, refs := hrefs }
  intro f hf
  rcases List.mem_append.mp hf with hf | hf
  · exact (h.reactors l).waiting f (List.mem_append_left _ hf)
  · exact hrest f hf

theorem setChannels (h : Dormant w) {channels : ChannelRef → Channel}
    (hfd : ∀ ref, (channels ref).fd = (w.channels ref).fd)
    (hloop : (channels .acceptor).loop = (w.channels .acceptor).loop) :
    Dormant { w with channels := channels } := by
  refine
    { h with
      acceptor := hloop.trans h.acceptor
      descriptors := ?_
      distinct := ?_
      reactors := fun l => (h.reactors l).congr hfd }
  · intro ref href
    rw [hfd]
    exact h.descriptors ref href
  · intro ref href
    rw [hfd, hfd]
    exact h.distinct ref href

theorem setPoller (h : Dormant w) {l : LoopId} {poller : Poller ChannelRef}
    (hholds : ∀ ref, poller.Holds ref → Internal ref)
    (hslots : ∀ pfd ∈ poller.pollFds, ∃ ref, Internal ref ∧
      Poller.SlotOf (w.channels ref).fd pfd) : Dormant (w.setPoller l poller) :=
  h.setReactor rfl { h.reactors l with holds := hholds, slots := hslots }

theorem slots_of_fd (h : Dormant w) {l : LoopId} {pfd : PollFd}
    (hpfd : ∃ old ∈ (w.reactors l).poller.pollFds, pfd.fd = old.fd) :
    ∃ ref, Internal ref ∧ Poller.SlotOf (w.channels ref).fd pfd := by
  obtain ⟨old, hold, heq⟩ := hpfd
  obtain ⟨ref, href, hslot⟩ := (h.reactors l).slots old hold
  rw [Poller.SlotOf, ← heq] at hslot
  exact ⟨ref, href, hslot⟩

theorem updateChannel (h : Dormant w) (tid : ThreadId) {ref : ChannelRef} (href : Internal ref) :
    StaysDormant (w.updateChannel tid ref) := by
  apply ends_check (fun _ => trivial)
  intro _
  apply ends_bind
  intro _
  have hframe := (Poller.updateChannel_frame (w.reactors (w.channels ref).loop).poller
    w.channels ref).and (Poller.updateChannel_keeps _ _ _)
  apply (hframe.mapError fun _ _ => trivial).bind
  rintro ⟨poller, channels⟩ ⟨⟨hsame, hholds⟩, -, -, hslots⟩
  have hpoller : Dormant (w.setPoller (w.channels ref).loop poller) := by
    apply h.setPoller
    · intro ref' href'
      rcases hholds ref' href' with hold | rfl
      · exact (h.reactors _).holds ref' hold
      · exact href
    · intro pfd hpfd
      rcases hslots pfd hpfd with hslot | hold
      · exact ⟨ref, href, hslot⟩
      · exact h.slots_of_fd hold
  apply hpoller.setChannels
  · intro ref'
    obtain ⟨m, hm : channels ref' = _⟩ := hsame ref'
    rw [hm]
    rfl
  · obtain ⟨m, hm : channels .acceptor = _⟩ := hsame .acceptor
    rw [hm]
    rfl

theorem changeInterest (h : Dormant w) (tid : ThreadId) {ref : ChannelRef} (href : Internal ref)
    (i : Channel.Interest) : StaysDormant (w.changeInterest tid ref i) := by
  have hset : Dormant (w.setChannel ref ((w.channels ref).change i)) := by
    have hne : ChannelRef.acceptor ≠ ref := by
      rintro rfl
      rcases href with heq | heq <;> cases heq
    apply h.setChannels
    · intro ref'
      by_cases heq : ref' = ref
      · subst heq
        rw [Function.update_self]
        rfl
      · rw [Function.update_of_ne heq]
    · rw [Function.update_of_ne hne]
  exact hset.updateChannel tid href

theorem queueTimer (h : Dormant w) (tid : ThreadId) (l : LoopId) :
    StaysDormant (w.queueInLoop tid l .addTimerInLoop) := by
  apply ((EventLoop.queueInLoop_spec _ tid _).mapError fun _ _ => trivial).bind
  rintro event ⟨hthread, hpending⟩
  refine h.setEvent hthread ?_
  intro f hf
  rw [hpending, List.append_assoc] at hf
  rcases List.mem_append.mp hf with hf | hf
  · exact (h.reactors l).waiting f (List.mem_append_left _ hf)
  · rcases List.mem_cons.mp hf with rfl | hf
    · rfl
    · exact (h.reactors l).waiting f (List.mem_append_right _ hf)

theorem send (h : Dormant w) (tid : ThreadId) (c : Nat) (message : List Byte) (r : WriteResult) :
    StaysDormant (w.send tid c message r) := by
  rw [World.send, h.conns]
  exact h

theorem shutdown (h : Dormant w) (tid : ThreadId) (c : Nat) :
    StaysDormant (w.shutdown tid c) := by
  rw [World.shutdown, h.conns]
  exact h

/-- There is no connection to call, and timers do not change the world. -/
theorem userCallback (h : Dormant w) (tid : ThreadId) (acts : List UserAct) :
    StaysDormant (w.userCallback tid acts) := by
  induction acts generalizing w with
  | nil => exact h
  | cons act rest ih =>
      have hact : StaysDormant (w.userAct tid act) := by
        cases act with
        | send c message r => exact h.send tid c message r
        | shutdown c => exact h.shutdown tid c
        | retrieveAsString c =>
            rw [World.userAct, retrieveAsString, h.conns]
            exact h
        | addTimer l =>
            simp only [World.userAct, addTimer]
            split
            · exact ends_bind fun _ => h
            · exact h.queueTimer tid l
      exact hact.bind fun w' h' => ih h'

theorem runCallback (h : Dormant w) (tid : ThreadId) (x : Answers) {ref : ChannelRef}
    (href : Internal ref) (cb : Channel.Callback) : StaysDormant (w.runCallback tid x ref cb) := by
  rcases href with rfl | rfl
  · cases cb with
    | read => exact ends_bind fun _ => h.userCallback tid _
    | close => exact h
    | error => exact h
    | write => exact h
  · cases cb with
    | read => exact h.setEvent rfl (h.reactors 0).waiting
    | close => exact h
    | error => exact h
    | write => exact h

/-- `start` ends with a server that listens, or fails. -/
theorem start (h : Dormant w) : Listening.Stays (w.start 0) := by
  have hpool : Ends (fun w' => w'.server.listenning = false ∧ w'.reactors = w.reactors ∧
      w'.channels = w.channels) (fun _ => True) (w.startPool 0) := by
    unfold startPool
    split
    · exact ⟨h.listenning, rfl, rfl⟩
    · apply ends_check (fun _ => trivial)
      intro _
      apply ends_bind
      intro _
      exact ⟨h.listenning, rfl, rfl⟩
  apply hpool.bind
  rintro w' ⟨hlisten, hreactors, hchannels⟩
  have hthread : (w'.reactors 0).event.threadId = 0 := by rw [hreactors, h.thread]
  have hin : (w'.reactors 0).event.isInLoopThread 0 = true := by
    rw [EventLoop.isInLoopThread, hthread, beq_self_eq_true]
  rw [if_neg (by rw [hlisten]; exact Bool.false_ne_true), if_pos hin]
  apply ends_bind
  intro _
  apply registers_acceptor rfl
  rw [setChannel_self]
  change (w'.channels .acceptor).loop = 0
  rw [hchannels, h.acceptor]

theorem eq_zero_of_hasLoop (h : Dormant w) {l : LoopId} (hl : w.hasLoop l = true) : l = 0 := by
  simpa [hasLoop, h.loops] using hl

theorem wire (h : Dormant w) : StaysDormant (w.wire 0) :=
  (h.changeInterest 0 (.inl rfl) _).bind fun _ h' => h'.changeInterest 0 (.inr rfl) _

theorem enterLoop (h : Dormant w) (l : LoopId) : StaysDormant (w.enterLoop l) := by
  have henter : Ends (fun event => event.threadId = (w.reactors l).event.threadId ∧
      event.pendingFunctors = (w.reactors l).event.pendingFunctors) (fun _ => True)
      ((w.reactors l).event.enterLoop l) := by
    apply ends_check (fun _ => trivial)
    intro _
    apply ends_bind
    intro _
    exact ⟨rfl, rfl⟩
  apply (henter.mapError fun _ _ => trivial).bind
  rintro event ⟨hthread, hpending⟩
  have hset : Dormant (w.setEvent l event) := by
    apply h.setEvent hthread
    rw [hpending]
    exact (h.reactors l).waiting
  exact hset.setPhase (fun f hf => by cases hf) fun ref href => by cases href

theorem pollReturn (h : Dormant w) (l : LoopId) (reported : List (BitVec 16)) (numEvents : Int) :
    StaysDormant (w.pollReturn l reported numEvents) := by
  have hframe := (Poller.poll_frame (w.reactors l).poller w.channels reported numEvents).and
    (Poller.poll_slots _ _ _ _)
  apply (hframe.mapError fun _ _ => trivial).bind
  rintro ⟨poller, channels, active⟩ ⟨⟨hmap, hsame, hactive⟩, hslots⟩
  have hset : Dormant (w.setPoller l poller) := by
    apply h.setPoller
    · rintro ref ⟨fd, hfd⟩
      exact (h.reactors l).holds ref ⟨fd, hmap ▸ hfd⟩
    · exact fun pfd hpfd => h.slots_of_fd (hslots pfd hpfd)
  have hphase : Dormant ((w.setPoller l poller).setPhase l (.dispatching active)) := by
    apply hset.setPhase (fun f hf => by cases hf)
    exact fun ref href => (h.reactors l).holds ref (hactive ref href)
  apply hphase.setChannels
  · intro ref
    obtain ⟨r, hr : channels ref = _⟩ := hsame ref
    rw [hr]
    rfl
  · obtain ⟨r, hr : channels .acceptor = _⟩ := hsame .acceptor
    rw [hr]
    rfl

theorem doPendingFunctors (h : Dormant w) (l : LoopId) : StaysDormant (w.doPendingFunctors l) := by
  apply ((EventLoop.beginFunctors_spec _ l).mapError fun _ _ => trivial).bind
  rintro ⟨event, functors⟩ ⟨hthread, hpending, hfunctors⟩
  have hwaiting := (h.reactors l).waiting
  have hset : Dormant (w.setEvent l event) := by
    apply h.setEvent hthread
    rw [hpending]
    exact fun f hf => hwaiting f (List.mem_append_right _ hf)
  apply hset.setPhase
  · intro f hf
    exact hwaiting f (List.mem_append_left _ (hfunctors ▸ hf))
  · exact fun ref href => by cases href

theorem destroy (h : Dormant w) (c : Nat) : Dormant (w.destroy c) := by
  rw [World.destroy, h.conns]
  exact h

/-- The functors of a batch that are left, and the channels still to be handled. -/
theorem moves (h : Dormant w) {l : LoopId} {phase : Phase}
    (hrest : ∀ f ∈ phase.rest, f ∈ (w.reactors l).phase.rest)
    (hrefs : ∀ ref ∈ phase.refs, ref ∈ (w.reactors l).phase.refs) :
    Dormant (w.setPhase l phase) :=
  h.setPhase (fun f hf => (h.reactors l).waiting f (List.mem_append_right _ (hrest f hf)))
    fun ref href => (h.reactors l).refs ref (hrefs ref href)

end Dormant

/-- Every state of a run: the server has not been started, or its acceptor is registered. -/
def Settled (w : World) : Prop := Dormant w ∨ Listening w

theorem Dormant.settles {x : Except Fault World} (h : StaysDormant x) :
    Ends Settled (fun _ => True) x :=
  h.mono fun _ => .inl

/-- Only `start` ends the sleep. -/
theorem Dormant.attempt (h : Dormant w) (a : Action) :
    Ends Settled (fun _ => True) (w.attempt a) := by
  have hattempted := w.attempted a
  generalize w.attempt a = x at hattempted ⊢
  cases hattempted with
  | stay => exact .inl h
  | start => exact h.start.mono fun _ => .inr
  | wire l hl =>
      rw [h.eq_zero_of_hasLoop hl]
      exact settles h.wire
  | enterLoop l => exact settles (h.enterLoop l)
  | pollReturn l reported numEvents => exact settles (h.pollReturn l reported numEvents)
  | nextChannel l ref active hphase =>
      apply ends_bind
      intro _
      left
      apply h.moves (fun f hf => by cases hf)
      rw [hphase]
      exact fun ref' href' => href'
  | callback l x ref cb callbacks active hphase =>
      have hrefs := (h.reactors l).refs
      rw [hphase] at hrefs
      have hset : Dormant (w.setPhase l (.handling ref callbacks active)) :=
        h.setPhase (fun f hf => by cases hf) hrefs
      exact settles (hset.runCallback l x (hrefs ref (List.mem_cons_self ..)) cb)
  | endChannel l ref active hphase =>
      left
      apply h.moves (fun f hf => by cases hf)
      rw [hphase]
      exact fun ref' href' => List.mem_cons_of_mem _ href'
  | doPendingFunctors l => exact settles (h.doPendingFunctors l)
  | functor l x f rest hphase =>
      have hwaiting := (h.reactors l).waiting
      rw [hphase] at hwaiting
      obtain rfl := hwaiting f (List.mem_append_right _ (List.mem_cons_self ..))
      apply ends_bind
      intro _
      left
      apply h.setPhase
      · exact fun f hf => hwaiting f (List.mem_append_right _ (List.mem_cons_of_mem _ hf))
      · exact fun ref href => by cases href
  | endFunctors l =>
      have hset : Dormant (w.setEvent l (w.reactors l).event.endFunctors) :=
        h.setEvent rfl (h.reactors l).waiting
      exact .inl (hset.setPhase (fun f hf => by cases hf) fun ref href => by cases href)
  | send tid c message => exact settles (h.send tid c message .error)
  | shutdown tid c => exact settles (h.shutdown tid c)
  | destroy c => exact .inl (h.destroy c)

theorem Initial.dormant {N : Nat} (h : Initial N w) : Dormant w := by
  obtain ⟨name, writeCmplCb, hserver⟩ := h.server
  have hstanding : ∀ ref, Internal ref → Standing N ref := by
    rintro ref (rfl | rfl) <;> exact Nat.zero_le N
  constructor
  · rw [hserver]
  · rw [hserver]
  · rw [hserver]
  · exact h.conns
  · obtain ⟨flag, counter, hl⟩ := h.reactors 0
    rw [hl]
    rfl
  · obtain ⟨fd, memory, href⟩ := h.channels .acceptor
    rw [href]
    rfl
  · intro ref href
    apply (h.descriptors ref _).1
    cases ref with
    | acceptor => trivial
    | timer l => exact Nat.le_trans href (Nat.zero_le N)
    | wakeup l => exact Nat.le_trans href (Nat.zero_le N)
    | conn c => exact href.elim
  · intro ref href heq
    have hacceptor := h.distinct ref .acceptor (hstanding ref href) trivial heq
    subst hacceptor
    rcases href with href | href <;> cases href
  · intro l
    obtain ⟨flag, counter, hl⟩ := h.reactors l
    rw [hl]
    constructor
    · exact fun f hf => by cases hf
    · exact fun ref href => by cases href
    · rintro ref ⟨fd, hfd⟩
      simp [Poller.new] at hfd
    · exact fun pfd hpfd => by cases hpfd

/-- The acceptor of a server that has been started stays registered. -/
theorem settled_of_reach {N : Nat} (h : Reach N (.ok w)) : Settled w := by
  have hends : Ends Settled (fun _ => True) (.ok w : Except Fault World) := by
    apply ends_of_reach _ _ h
    · exact fun w h => .inl h.dormant
    · intro w a hw _
      apply ends_step hw
      rcases hw with hw | hw
      · exact hw.attempt a
      · exact (hw.attempt a).mono fun _ => .inr
  exact hends

end Yatwb.World
