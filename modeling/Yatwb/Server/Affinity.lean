import Yatwb.Connection.Frames
import Yatwb.Server.Runs

/-!
# Which thread runs what

Without pool threads every channel and every connection belongs to the base
loop, and every function of the server runs on its thread, so no thread check
fails. With a pool the first accepted connection is given to a loop of the
pool, and `newConnection` calls its `establishConnection` on the base thread.

## Implementation notes

The invariant is stated for every loop, also for those that have no thread: a
callback may add a timer to any of them.
-/

namespace Yatwb.World

open Foundation

/-- All objects belong to the base loop, and only its thread is there. -/
structure Home (w : World) : Prop where
  threads : ∀ l, (w.reactors l).event.threadId = l
  outside : ∀ l, l ≠ 0 → (w.reactors l).phase = .outside
  channels : ∀ ref, (w.channels ref).loop = homeLoop ref
  conns : ∀ c conn, w.conns c = some conn → conn.loop = 0
  numThreads : w.server.pool.numThreads = 0
  loops : w.server.pool.loops = []
  registered : ∀ ref, (w.reactors 0).poller.Holds ref → homeLoop ref = 0
  refs : ∀ ref ∈ (w.reactors 0).phase.refs, homeLoop ref = 0

/-- Not the abort of a thread check. -/
def NoAbort (f : Fault) : Prop := f ≠ .loop .notInLoopThread

abbrev StaysHome (x : Except Fault World) : Prop := Ends Home NoAbort x

/-- Follow a pointer to a connection. -/
theorem ends_endpoint {α : Type} {After : α → Prop} {Allowed : Fault → Prop} {w : World} {c : Nat}
    {f : Endpoint → Except Fault α} (hnone : w.conns c = none → Allowed .dangling)
    (hf : ∀ conn, w.conns c = some conn → Ends After Allowed (f ⟨conn, w.channels (.conn c)⟩)) :
    Ends After Allowed (w.endpoint c >>= f) := by
  unfold endpoint
  cases hc : w.conns c with
  | none => exact hnone hc
  | some conn => exact hf conn hc

/-- A thread check by the thread of the loop is passed over. -/
theorem assert_bind_of {w : World} {l : LoopId} {tid : ThreadId}
    (h : (w.reactors l).event.threadId = tid) {α : Type} (f : PUnit → Except Fault α) :
    w.assertInLoopThread l tid >>= f = f ⟨⟩ := by
  have hin : (w.reactors l).event.isInLoopThread tid = true := by
    rw [EventLoop.isInLoopThread, h, beq_self_eq_true]
  rw [assertInLoopThread, EventLoop.assertInLoopThread, check_of _ hin]
  rfl

namespace Home

variable {w : World}

theorem setEvent (h : Home w) {l : LoopId} {event : EventLoop Functor}
    (hthread : event.threadId = l) : Home (w.setEvent l event) where
  threads l' := by
    by_cases hl : l' = l
    · subst hl
      rw [event_setEvent_self, hthread]
    · rw [World.setEvent, setReactor_of_ne w hl]
      exact h.threads l'
  outside l' hl := by
    rw [phase_setEvent]
    exact h.outside l' hl
  channels := h.channels
  conns := h.conns
  numThreads := h.numThreads
  loops := h.loops
  registered := by
    rw [poller_setEvent]
    exact h.registered
  refs := by
    rw [phase_setEvent]
    exact h.refs

theorem setPoller (h : Home w) {poller : Poller ChannelRef}
    (hholds : ∀ ref, poller.Holds ref → homeLoop ref = 0) : Home (w.setPoller 0 poller) where
  threads l' := by
    rw [event_setPoller]
    exact h.threads l'
  outside l' hl := by
    rw [phase_setPoller]
    exact h.outside l' hl
  channels := h.channels
  conns := h.conns
  numThreads := h.numThreads
  loops := h.loops
  registered := by
    rw [poller_setPoller_self]
    exact hholds
  refs := by
    rw [phase_setPoller]
    exact h.refs

theorem setPhase (h : Home w) {phase : Phase} (hrefs : ∀ ref ∈ phase.refs, homeLoop ref = 0) :
    Home (w.setPhase 0 phase) where
  threads l' := by
    rw [event_setPhase]
    exact h.threads l'
  outside l' hl := by
    rw [World.setPhase, setReactor_of_ne w hl]
    exact h.outside l' hl
  channels := h.channels
  conns := h.conns
  numThreads := h.numThreads
  loops := h.loops
  registered := by
    rw [poller_setPhase]
    exact h.registered
  refs := by
    rw [phase_setPhase_self]
    exact hrefs

theorem setConn (h : Home w) {c : Nat} {conn : Option TcpConnection}
    (hconn : ∀ conn', conn = some conn' → conn'.loop = 0) : Home (w.setConn c conn) := by
  refine { h with conns := ?_ }
  intro c' conn' hc'
  by_cases hc : c' = c
  · subst hc
    rw [setConn_self] at hc'
    exact hconn conn' hc'
  · rw [setConn_of_ne w hc] at hc'
    exact h.conns c' conn' hc'

/-- Only the loops of the channels matter. -/
theorem setChannels (h : Home w) {channels : ChannelRef → Channel}
    (hloop : ∀ ref, (channels ref).loop = (w.channels ref).loop) :
    Home { w with channels := channels } :=
  { h with channels := fun ref => (hloop ref).trans (h.channels ref) }

theorem setChannel (h : Home w) {ref : ChannelRef} {channel : Channel}
    (hloop : channel.loop = (w.channels ref).loop) : Home (w.setChannel ref channel) := by
  have hset : ∀ ref', ((w.setChannel ref channel).channels ref').loop = (w.channels ref').loop := by
    intro ref'
    by_cases href : ref' = ref
    · subst href
      rw [setChannel_self, hloop]
    · rw [setChannel_of_ne w href]
  exact h.setChannels hset

theorem setEndpoint (h : Home w) {c : Nat} {e : Endpoint} (hconn : e.conn.loop = 0)
    (hchannel : e.channel.loop = 0) : Home (w.setEndpoint c e) := by
  have hset : Home (w.setConn c (some e.conn)) := h.setConn (by simp [hconn])
  apply hset.setChannel
  rw [hchannel, hset.channels]
  rfl

theorem setServer (h : Home w) {server : TcpServer} (hpool : server.pool = w.server.pool) :
    Home { w with server := server } :=
  { h with numThreads := hpool ▸ h.numThreads, loops := hpool ▸ h.loops }

theorem log (h : Home w) (event : Event) : Home (w.log event) := { h with }

/-- A thread check on the loop of the calling thread is passed over. -/
theorem assert_bind (h : Home w) {l : LoopId} {tid : ThreadId} (hl : l = tid) {α : Type}
    (f : PUnit → Except Fault α) : w.assertInLoopThread l tid >>= f = f ⟨⟩ :=
  assert_bind_of ((h.threads l).trans hl) f

theorem isInLoopThread (h : Home w) (l : LoopId) (tid : ThreadId) :
    (w.reactors l).event.isInLoopThread tid = (l == tid) := by
  rw [EventLoop.isInLoopThread, h.threads]

theorem updateChannel (h : Home w) {ref : ChannelRef} (href : homeLoop ref = 0) :
    StaysHome (w.updateChannel 0 ref) := by
  have hloop : (w.channels ref).loop = 0 := (h.channels ref).trans href
  simp only [World.updateChannel, hloop]
  apply ends_check (by simp [NoAbort])
  intro _
  rw [h.assert_bind rfl]
  apply ((Poller.updateChannel_frame _ _ _).mapError (by simp [NoAbort])).bind
  rintro ⟨poller, channels⟩ ⟨hsame, hholds⟩
  have hset : Home (w.setPoller 0 poller) := by
    apply h.setPoller
    intro ref' href'
    rcases hholds ref' href' with hold | rfl
    · exact h.registered ref' hold
    · exact href
  apply hset.setChannels
  intro ref'
  obtain ⟨m, hm⟩ := hsame ref'
  rw [hm]
  rfl

theorem changeInterest (h : Home w) {ref : ChannelRef} (href : homeLoop ref = 0)
    (i : Channel.Interest) : StaysHome (w.changeInterest 0 ref i) := by
  have hset : Home (w.setChannel ref ((w.channels ref).change i)) := h.setChannel rfl
  exact hset.updateChannel href

theorem removeChannel (h : Home w) (ref : ChannelRef) :
    StaysHome (w.removeChannel 0 0 ref) := by
  simp only [World.removeChannel]
  apply ends_check (by simp [NoAbort])
  intro _
  rw [h.assert_bind rfl]
  apply ((Poller.removeChannel_frame _ _ _).mapError (by simp [NoAbort])).bind
  rintro ⟨poller, channels⟩ ⟨hsame, hholds⟩
  have hset : Home ((w.log (.removeChannel ref (w.reactors 0).phase.iterating)).setPoller 0
      poller) := by
    apply (h.log _).setPoller
    intro ref' href'
    exact h.registered ref' (hholds ref' href')
  apply hset.setChannels
  intro ref'
  obtain ⟨m, hm⟩ := hsame ref'
  rw [hm]
  rfl

theorem queueInLoop (h : Home w) (tid : ThreadId) (l : LoopId) (cb : Functor) :
    StaysHome (w.queueInLoop tid l cb) := by
  apply ((EventLoop.queueInLoop_spec _ tid cb).mapError (by simp [NoAbort])).bind
  intro event hevent
  exact h.setEvent (hevent.1.trans (h.threads l))

theorem request (h : Home w) (c : Nat) (q : Request) : StaysHome (w.request 0 c 0 q) := by
  cases q with
  | write taken => exact h
  | update => exact h.updateChannel rfl
  | queueWriteComplete => exact h.queueInLoop 0 0 _
  | shutdownWrite => exact h

theorem requests (h : Home w) (c : Nat) (asked : List Request) :
    StaysHome (w.requests 0 c 0 asked) := by
  induction asked generalizing w with
  | nil => exact h
  | cons q rest ih =>
      apply (h.request c q).bind
      intro w' h'
      exact ih h'

theorem commit (h : Home w) (c : Nat) {outcome : Endpoint × List Request}
    (hconn : outcome.1.conn.loop = 0) (hchannel : outcome.1.channel.loop = 0) :
    StaysHome (w.commit 0 c outcome) := by
  rw [World.commit, hconn]
  exact (h.setEndpoint hconn hchannel).requests c _

/-- The methods of a connection keep it on its loop. -/
theorem commit_writes (h : Home w) {c : Nat} {conn : TcpConnection}
    (hc : w.conns c = some conn) {outcome : Endpoint × List Request}
    (hw : Endpoint.Writes ⟨conn, w.channels (.conn c)⟩ outcome) :
    StaysHome (w.commit 0 c outcome) := by
  obtain ⟨⟨b, hb⟩, hchannel⟩ := hw
  apply h.commit
  · rw [hb]
    exact h.conns c conn hc
  · rcases hchannel with ⟨hch, -⟩ | ⟨i, post, hch, -⟩
    · rw [hch]
      exact h.channels (.conn c)
    · rw [hch]
      exact h.channels (.conn c)

theorem sendInLoop (h : Home w) (c : Nat) (message : List Byte) (r : WriteResult) :
    StaysHome (w.sendInLoop 0 c message r) := by
  apply ends_endpoint (by simp [NoAbort])
  intro conn hc
  rw [h.assert_bind (h.conns c conn hc)]
  apply ((Endpoint.sendInLoop_writes _ message r).mapError (by simp [NoAbort])).bind
  intro outcome hw
  exact h.commit_writes hc hw

theorem handleWrite (h : Home w) (c : Nat) (r : WriteResult) :
    StaysHome (w.handleWrite 0 c r) := by
  apply ends_endpoint (by simp [NoAbort])
  intro conn hc
  rw [h.assert_bind (h.conns c conn hc)]
  apply ((Endpoint.handleWrite_writes _ r).mapError (by simp [NoAbort])).bind
  intro outcome hw
  exact h.commit_writes hc hw

/-- A thread that is not the base thread queues its message. -/
theorem send (h : Home w) (tid : ThreadId) (c : Nat) (message : List Byte) (r : WriteResult) :
    StaysHome (w.send tid c message r) := by
  unfold World.send
  split
  · exact h
  · rename_i conn hc
    split
    · split
      · rename_i hin
        rw [h.isInLoopThread, h.conns c conn hc, beq_iff_eq] at hin
        subst hin
        exact h.sendInLoop c message r
      · exact h.queueInLoop _ _ _
    · exact h

theorem shutdownInLoop (h : Home w) (c : Nat) : StaysHome (w.shutdownInLoop 0 c) := by
  apply ends_endpoint (by simp [NoAbort])
  intro conn hc
  rw [h.assert_bind (h.conns c conn hc)]
  exact h.commit c (h.conns c conn hc) (h.channels (.conn c))

theorem shutdown (h : Home w) (tid : ThreadId) (c : Nat) : StaysHome (w.shutdown tid c) := by
  unfold World.shutdown
  split
  · exact h
  · rename_i conn hc
    have hset : Home (w.setConn c (some { conn with state := .disconnecting })) := by
      apply h.setConn
      rintro conn' ⟨⟩
      exact h.conns c conn hc
    split
    · simp only
      split
      · rename_i hin
        rw [hset.isInLoopThread, h.conns c conn hc, beq_iff_eq] at hin
        subst hin
        exact hset.shutdownInLoop c
      · exact hset.queueInLoop _ _ _
    · exact h

theorem addTimerInLoop (h : Home w) {l : LoopId} {tid : ThreadId} (hl : l = tid) :
    StaysHome (w.addTimerInLoop tid l) := by
  rw [World.addTimerInLoop, h.assert_bind hl]
  exact h

theorem addTimer (h : Home w) (tid : ThreadId) (l : LoopId) : StaysHome (w.addTimer tid l) := by
  unfold World.addTimer
  split
  · rename_i hin
    rw [h.isInLoopThread, beq_iff_eq] at hin
    exact h.addTimerInLoop hin
  · exact h.queueInLoop _ _ _

theorem retrieveAsString (h : Home w) (c : Nat) : StaysHome (w.retrieveAsString c) := by
  unfold World.retrieveAsString
  split
  · exact h
  · rename_i conn hc
    apply ((ends_any _).mapError (by simp [NoAbort])).bind
    rintro ⟨input, text⟩ _
    apply h.setConn
    rintro conn' ⟨⟩
    exact h.conns c conn hc

theorem userAct (h : Home w) (act : UserAct) : StaysHome (w.userAct 0 act) := by
  cases act with
  | send c message r => exact h.send 0 c message r
  | shutdown c => exact h.shutdown 0 c
  | retrieveAsString c => exact h.retrieveAsString c
  | addTimer l => exact h.addTimer 0 l

theorem userCallback (h : Home w) (acts : List UserAct) : StaysHome (w.userCallback 0 acts) := by
  induction acts generalizing w with
  | nil => exact h
  | cons act rest ih =>
      apply (h.userAct act).bind
      intro w' h'
      exact ih h'

theorem establishConnection (h : Home w) (c : Nat) (acts : List UserAct) :
    StaysHome (w.establishConnection 0 c acts) := by
  apply ends_endpoint (by simp [NoAbort])
  intro conn hc
  have hloop := h.conns c conn hc
  rw [h.assert_bind hloop]
  have hopen : Ends (fun outcome => outcome.1.conn.loop = 0 ∧ outcome.1.channel.loop = 0)
      (fun _ => True) (Endpoint.establishConnection ⟨conn, w.channels (.conn c)⟩) :=
    ends_check (fun _ => trivial) fun _ => ⟨hloop, h.channels (.conn c)⟩
  apply (hopen.mapError (by simp [NoAbort])).bind
  intro outcome ho
  apply (h.commit c ho.1 ho.2).bind
  intro w' h'
  exact (h'.log _).userCallback acts

theorem addConnection (h : Home w) {e : Endpoint} (hconn : e.conn.loop = 0)
    (hchannel : e.channel.loop = 0) : Home (w.addConnection e) := by
  have hset := h.setEndpoint (c := w.nextObj) hconn hchannel
  exact { hset with }

/-- Without loops in the pool, the base loop is the next loop. -/
theorem getNextLoop (h : Home w) : w.getNextLoop 0 = .ok (0, w) := by
  rw [World.getNextLoop, h.assert_bind rfl]
  simp only [h.loops]
  rfl

theorem newConnection (h : Home w) (sockfd : Int) (memory : LoopId) (acts : List UserAct) :
    StaysHome (w.newConnection 0 sockfd memory acts) := by
  rw [World.newConnection, h.assert_bind rfl]
  apply ends_check (by simp [NoAbort])
  intro _
  have hcount : Home w.countConnection := h.setServer rfl
  rw [hcount.getNextLoop]
  exact Home.establishConnection
    (hcount.addConnection (e := Endpoint.new 0 _ sockfd _ memory) rfl rfl) _ acts

theorem acceptorHandleRead (h : Home w) (connfd : Int) (memory : LoopId) (acts : List UserAct) :
    StaysHome (w.acceptorHandleRead 0 connfd memory acts) := by
  rw [World.acceptorHandleRead, h.assert_bind rfl]
  have hopen : Home (w.openFd connfd) := { h with }
  split
  · exact hopen.newConnection connfd memory acts
  · exact h

theorem removeConnection (h : Home w) (c : Nat) : StaysHome (w.removeConnection 0 c) := by
  rw [World.removeConnection, h.assert_bind rfl]
  apply ends_endpoint (by simp [NoAbort])
  intro conn hc
  apply ends_check (by simp [NoAbort])
  intro _
  have herase : Home (w.eraseConnection conn.name) := h.setServer rfl
  exact (herase.log _).queueInLoop 0 0 _

theorem handleClose (h : Home w) (c : Nat) : StaysHome (w.handleClose 0 c) := by
  apply ends_endpoint (by simp [NoAbort])
  intro conn hc
  have hloop := h.conns c conn hc
  rw [h.assert_bind hloop]
  have hopen : Ends (fun outcome => outcome.1.conn.loop = 0 ∧ outcome.1.channel.loop = 0)
      (fun _ => True) (Endpoint.handleClose ⟨conn, w.channels (.conn c)⟩) :=
    ends_check (fun _ => trivial) fun _ => ⟨hloop, h.channels (.conn c)⟩
  apply (hopen.mapError (by simp [NoAbort])).bind
  intro outcome ho
  apply (h.commit c ho.1 ho.2).bind
  intro w' h'
  exact (h'.log _).removeConnection c

theorem handleRead (h : Home w) (c : Nat) (r : Buffer.ReadResult) (acts : List UserAct) :
    StaysHome (w.handleRead 0 c r acts) := by
  apply ends_endpoint (by simp [NoAbort])
  intro conn hc
  apply ((Endpoint.handleRead_reads _ r).mapError (by simp [NoAbort])).bind
  rintro ⟨e, outcome⟩ ⟨⟨b, rfl⟩, -⟩
  have hset := h.setEndpoint (c := c)
    (e := ⟨{ conn with inputBuffer := b }, w.channels (.conn c)⟩)
    (h.conns c conn hc) (h.channels (.conn c))
  cases outcome with
  | message => exact (hset.log _).userCallback acts
  | close => exact hset.handleClose c
  | error => exact hset

theorem destroyConnection (h : Home w) (c : Nat) (acts : List UserAct) :
    StaysHome (w.destroyConnection 0 c acts) := by
  apply ends_endpoint (by simp [NoAbort])
  intro conn hc
  have hloop : conn.loop = 0 := h.conns c conn hc
  rw [h.assert_bind hloop]
  have hopen : Ends (fun outcome => outcome.1.conn.loop = 0 ∧ outcome.1.channel.loop = 0)
      (fun _ => True) (Endpoint.destroyConnection ⟨conn, w.channels (.conn c)⟩) :=
    ends_check (fun _ => trivial) fun _ => ⟨hloop, h.channels (.conn c)⟩
  apply (hopen.mapError (by simp [NoAbort])).bind
  intro outcome ho
  apply (h.commit c ho.1 ho.2).bind
  intro w' h'
  apply (((h'.log _).log _).userCallback acts).bind
  intro w'' h''
  simp only [hloop]
  exact h''.removeChannel (.conn c)

theorem listen (h : Home w) : StaysHome (w.listen 0) := by
  rw [World.listen, h.assert_bind rfl]
  have hset : Home w.setListenning := h.setServer rfl
  exact hset.changeInterest rfl .enableReading

theorem startThreads (h : Home w) : Home w.startThreads :=
  { h with loops := by simp [World.startThreads, h.loops, h.numThreads] }

theorem poolStart (h : Home w) : StaysHome (w.poolStart 0) := by
  apply ends_check (by simp [NoAbort])
  intro _
  rw [h.assert_bind rfl]
  exact h.startThreads

theorem start (h : Home w) : StaysHome (w.start 0) := by
  have hpool : StaysHome (w.startPool 0) := by
    have hset : Home w.setStarted := h.setServer rfl
    unfold World.startPool
    split
    · exact h
    · exact hset.poolStart
  apply hpool.bind
  intro w' h'
  split
  · exact h'
  · split
    · exact h'.listen
    · exact h'.queueInLoop 0 0 _

theorem runCallback (h : Home w) (x : Answers) {ref : ChannelRef} (cb : Channel.Callback)
    (href : homeLoop ref = 0) : StaysHome (w.runCallback 0 x ref cb) := by
  unfold World.runCallback
  split
  · exact h.acceptorHandleRead _ _ _
  · rename_i l
    have hl : l = 0 := href
    rw [h.assert_bind hl]
    exact h.userCallback _
  · exact h.setEvent (h.threads _)
  · exact h.handleClose _
  · exact ends_endpoint (by simp [NoAbort]) fun _ _ => h
  · exact h.handleRead _ _ _
  · exact h.handleWrite _ _
  · exact h

theorem runFunctor (h : Home w) (x : Answers) (f : Functor) : StaysHome (w.runFunctor 0 x f) := by
  cases f with
  | listen => exact h.listen
  | addTimerInLoop => exact h.addTimerInLoop rfl
  | sendInLoop c message => exact h.sendInLoop c message _
  | shutdownInLoop c => exact h.shutdownInLoop c
  | destroyConnection c => exact h.destroyConnection c _
  | writeComplete c => exact h.userCallback _

/-- Only the base thread is in its loop. -/
theorem eq_zero_of_phase (h : Home w) {l : LoopId} {phase : Phase}
    (hphase : (w.reactors l).phase = phase) (hin : phase ≠ .outside) : l = 0 := by
  by_contra hl
  exact hin (hphase.symm.trans (h.outside l hl))

theorem eq_zero_of_hasLoop (h : Home w) {l : LoopId} (hl : w.hasLoop l = true) : l = 0 := by
  simpa [hasLoop, h.loops] using hl

theorem wire (h : Home w) : StaysHome (w.wire 0) := by
  have htimer : StaysHome (w.changeInterest 0 (.timer 0) .enableReading) :=
    h.changeInterest rfl .enableReading
  apply htimer.bind
  intro w' h'
  exact h'.changeInterest rfl .enableReading

theorem enterLoop (h : Home w) : StaysHome (w.enterLoop 0) := by
  have hin : (w.reactors 0).event.isInLoopThread 0 = true := by
    rw [h.isInLoopThread, beq_self_eq_true]
  have henter : Ends (fun event => event.threadId = 0) (fun f => f ≠ .notInLoopThread)
      ((w.reactors 0).event.enterLoop 0) := by
    apply ends_check (by simp)
    intro _
    rw [EventLoop.assertInLoopThread, check_bind_of _ hin]
    exact h.threads 0
  apply (henter.mapError (by simp [NoAbort])).bind
  intro event hevent
  exact (h.setEvent hevent).setPhase (by simp [Phase.refs])

theorem pollReturn (h : Home w) (reported : List (BitVec 16)) (numEvents : Int) :
    StaysHome (w.pollReturn 0 reported numEvents) := by
  apply ((Poller.poll_frame _ _ _ _).mapError (by simp [NoAbort])).bind
  rintro ⟨poller, channels, active⟩ ⟨hmap, hsame, hactive⟩
  simp only at hmap hsame hactive
  have hset : Home (w.setPoller 0 poller) := by
    apply h.setPoller
    rintro ref ⟨fd, hfd⟩
    exact h.registered ref ⟨fd, hmap ▸ hfd⟩
  have hphase : Home ((w.setPoller 0 poller).setPhase 0 (.dispatching active)) :=
    hset.setPhase fun ref href => h.registered ref (hactive ref href)
  apply hphase.setChannels
  intro ref
  obtain ⟨r, hr⟩ := hsame ref
  rw [hr]
  rfl

theorem nextChannel (h : Home w) {ref : ChannelRef} {active : List ChannelRef}
    (hrefs : ∀ ref' ∈ ref :: active, homeLoop ref' = 0) :
    StaysHome (w.nextChannel 0 ref active) := by
  have hderef : Ends (fun _ => True) NoAbort (w.derefChannel ref) := by
    unfold derefChannel
    split
    · exact ends_endpoint (by simp [NoAbort]) fun _ _ => trivial
    · exact trivial
  apply hderef.bind
  intro channel _
  exact h.setPhase hrefs

theorem doPendingFunctors (h : Home w) : StaysHome (w.doPendingFunctors 0) := by
  apply ((EventLoop.beginFunctors_spec _ 0).mapError (by simp [NoAbort])).bind
  rintro ⟨event, functors⟩ ⟨hthread, -, -⟩
  exact (h.setEvent (hthread.trans (h.threads 0))).setPhase (by simp [Phase.refs])

theorem destroy (h : Home w) (c : Nat) : Home (w.destroy c) := by
  unfold World.destroy
  split
  · exact h
  · split
    · exact h
    · have hset : Home (w.setConn c none) := h.setConn (by simp)
      exact { hset with }

theorem attempt (h : Home w) (a : Action) : StaysHome (w.attempt a) := by
  have hattempted := w.attempted a
  generalize w.attempt a = x at hattempted ⊢
  cases hattempted with
  | stay => exact h
  | start => exact h.start
  | wire l hl =>
      rw [h.eq_zero_of_hasLoop hl]
      exact h.wire
  | enterLoop l hl =>
      rw [h.eq_zero_of_hasLoop hl]
      exact h.enterLoop
  | pollReturn l reported numEvents hphase =>
      rw [h.eq_zero_of_phase hphase (by simp)]
      exact h.pollReturn reported numEvents
  | nextChannel l ref active hphase =>
      obtain rfl := h.eq_zero_of_phase hphase (by simp)
      have hrefs := h.refs
      rw [hphase] at hrefs
      exact h.nextChannel hrefs
  | callback l x ref cb callbacks active hphase =>
      obtain rfl := h.eq_zero_of_phase hphase (by simp)
      have hrefs := h.refs
      rw [hphase] at hrefs
      have hset : Home (w.setPhase 0 (.handling ref callbacks active)) := h.setPhase hrefs
      exact hset.runCallback x cb (hrefs ref (List.mem_cons_self ..))
  | endChannel l ref active hphase =>
      obtain rfl := h.eq_zero_of_phase hphase (by simp)
      have hrefs := h.refs
      rw [hphase] at hrefs
      exact h.setPhase fun ref' href' => hrefs ref' (List.mem_cons_of_mem _ href')
  | doPendingFunctors l hphase =>
      rw [h.eq_zero_of_phase hphase (by simp)]
      exact h.doPendingFunctors
  | functor l x f rest hphase =>
      obtain rfl := h.eq_zero_of_phase hphase (by simp)
      have hset : Home (w.setPhase 0 (.functors rest)) := h.setPhase (by simp [Phase.refs])
      exact hset.runFunctor x f
  | endFunctors l hphase =>
      obtain rfl := h.eq_zero_of_phase hphase (by simp)
      have hset : Home (w.setEvent 0 (w.reactors 0).event.endFunctors) :=
        h.setEvent (h.threads 0)
      exact hset.setPhase (by simp [Phase.refs])
  | send tid c message => exact h.send tid c message .error
  | shutdown tid c => exact h.shutdown tid c
  | destroy c => exact h.destroy c

end Home

/-- A thread that waits for `mutex_` changes nothing. -/
theorem ends_step {Inv : World → Prop} {Allowed : Fault → Prop} {w : World} {a : Action}
    (hw : Inv w) (h : Ends Inv Allowed (w.attempt a)) : Ends Inv Allowed (w.step a) := by
  unfold step
  split
  · exact hw
  · exact h

theorem home_init {w : World} (h : Initial 0 w) : Home w := by
  obtain ⟨name, writeCmplCb, hserver⟩ := h.server
  constructor
  · intro l
    obtain ⟨flag, counter, hl⟩ := h.reactors l
    rw [hl]
    rfl
  · intro l _
    obtain ⟨flag, counter, hl⟩ := h.reactors l
    rw [hl]
  · intro ref
    obtain ⟨fd, memory, href⟩ := h.channels ref
    rw [href]
    rfl
  · intro c conn hc
    rw [h.conns] at hc
    cases hc
  · rw [hserver]
  · rw [hserver]
  · rintro ref ⟨fd, hfd⟩
    obtain ⟨flag, counter, hl⟩ := h.reactors 0
    rw [hl] at hfd
    simp [Poller.new] at hfd
  · obtain ⟨flag, counter, hl⟩ := h.reactors 0
    simp [hl, Phase.refs]

/-- No thread check fails in a server without pool threads. -/
theorem home_of_reach {s : Except Fault World} (h : Reach 0 s) : StaysHome s :=
  ends_of_reach (fun _ => home_init) (fun _ a hw _ => ends_step hw (hw.attempt a)) h

/-- Without connections a callback of the user can only add timers. -/
theorem userAct_alone {w : World} (h : ∀ c, w.conns c = none) (tid : ThreadId) (act : UserAct) :
    w.userAct tid act = .ok w ∨ ∃ l, w.userAct tid act = w.addTimer tid l := by
  cases act with
  | send c message r => exact .inl (by simp only [userAct, send, h c])
  | shutdown c => exact .inl (by simp only [userAct, shutdown, h c])
  | retrieveAsString c => exact .inl (by simp only [userAct, retrieveAsString, h c])
  | addTimer l => exact .inr ⟨l, rfl⟩

/-- With a loop in the pool, `getNextLoop` returns a loop of the pool. -/
theorem getNextLoop_of_pool {w : World} {l : LoopId}
    (hbase : (w.reactors 0).event.threadId = 0)
    (hnext : w.server.pool.loops[w.server.pool.next]? = some l) :
    ∃ w', w.getNextLoop 0 = .ok (l, w') ∧ w'.reactors = w.reactors := by
  rw [getNextLoop, assert_bind_of hbase]
  cases hloops : w.server.pool.loops with
  | nil => simp [hloops] at hnext
  | cons l₀ ls =>
      rw [hloops] at hnext
      simp only [hloops, List.getD, hnext]
      exact ⟨_, rfl, rfl⟩

theorem establishConnection_aborts {w : World} {c : Nat} {conn : TcpConnection} {tid : ThreadId}
    (hc : w.conns c = some conn) (hl : (w.reactors conn.loop).event.threadId ≠ tid)
    (acts : List UserAct) :
    w.establishConnection tid c acts = .error (.loop .notInLoopThread) := by
  have hendpoint : w.endpoint c = .ok ⟨conn, w.channels (.conn c)⟩ := by
    simp only [endpoint, hc]
  have hassert : w.assertInLoopThread conn.loop tid = .error (.loop .notInLoopThread) := by
    simp [assertInLoopThread, EventLoop.assertInLoopThread, EventLoop.isInLoopThread, hl, check,
      Except.mapError]
  rw [establishConnection, hendpoint]
  change w.assertInLoopThread conn.loop tid >>= _ = _
  rw [hassert]
  rfl

/-- With a loop in the pool, `newConnection` aborts in `establishConnection`:
the base thread is not the thread of the next loop. -/
theorem newConnection_aborts {w : World} {l : LoopId} (sockfd : Int) (memory : LoopId)
    (acts : List UserAct) (hbase : (w.reactors 0).event.threadId = 0)
    (hcount : w.server.nextConnId < intMax)
    (hnext : w.server.pool.loops[w.server.pool.next]? = some l)
    (hl : (w.reactors l).event.threadId ≠ 0) :
    w.newConnection 0 sockfd memory acts = .error (.loop .notInLoopThread) := by
  obtain ⟨w', hw', hreactors⟩ := getNextLoop_of_pool (w := w.countConnection) hbase hnext
  rw [newConnection, assert_bind_of hbase, check_bind_of _ hcount, hw']
  let e := Endpoint.new l (connName w.server) sockfd w'.server.writeCmplCb memory
  have hc : (w'.addConnection e).conns w'.nextObj = some e.conn := setConn_self w' _ _
  have hthread : ((w'.addConnection e).reactors l).event.threadId ≠ 0 := by
    change (w'.reactors l).event.threadId ≠ 0
    rw [hreactors]
    exact hl
  exact establishConnection_aborts hc hthread acts

/-- A server at its first accept. -/
theorem reach_accepting (N : Nat) : ∃ w, Reach N (.ok w) ∧
    (w.reactors 0).phase = .handling .acceptor [.read] [] ∧ w.openFds = (fresh N).openFds ∧
    (w.reactors 0).event.threadId = 0 ∧ (w.reactors 1).event.threadId = 1 ∧
    w.server.nextConnId = 1 ∧ w.server.pool.next = 0 ∧
    w.server.pool.loops = List.range' 1 N := by
  have hstart := reach_step (reach_fresh N) .start trivial rfl
  have henter := reach_step hstart (.enterLoop 0) trivial rfl
  have hfits : Poller.ReportFits ⟨3, (0 ||| Channel.readEvent).setWidth 16, 0⟩ 1 := by decide
  have hpoll := reach_step henter (.pollReturn 0 [1] 1)
    (List.Forall₂.cons hfits List.Forall₂.nil) rfl
  have hnext := reach_step hpoll (.nextChannel 0) trivial rfl
  have hword : Channel.handleEvents ((1 : BitVec 16).signExtend 32) = [.read] := by decide
  exact ⟨_, hnext, congrArg (Phase.handling .acceptor · []) hword, rfl, rfl, rfl, rfl, rfl, rfl⟩

theorem reach_abort (n : Nat) : Reach (n + 1) (.error (.loop .notInLoopThread)) := by
  obtain ⟨w, hreach, hphase, hfds, hbase, hone, hcount, hnext, hloops⟩ := reach_accepting (n + 1)
  have hfree : ((2 * (n + 1) + 6 : Nat) : Int) ∉ w.openFds := by
    rw [hfds]
    intro hmem
    obtain ⟨fd, hfd, heq⟩ := Finset.mem_image.mp hmem
    have hlt := Finset.mem_range.mp hfd
    omega
  let x : Answers := ⟨(2 * (n + 1) + 6 : Nat), 0, .received [], .error, []⟩
  have hstep : w.step (.callback 0 x) = .error (.loop .notInLoopThread) := by
    let w₁ := (w.setPhase 0 (.handling .acceptor [] [])).openFd x.connfd
    have hevent (l : LoopId) : (w₁.reactors l).event = (w.reactors l).event :=
      event_setPhase w 0 l _
    have haccept : (w.setPhase 0 (.handling .acceptor [] [])).acceptorHandleRead 0 x.connfd
        x.memory x.acts = .error (.loop .notInLoopThread) := by
      rw [acceptorHandleRead, assert_bind_of (by rw [event_setPhase, hbase]),
        if_pos (Int.natCast_nonneg _)]
      apply newConnection_aborts (w := w₁) (l := 1)
      · rw [hevent, hbase]
      · change w.server.nextConnId < intMax
        rw [hcount]
        decide
      · change w.server.pool.loops[w.server.pool.next]? = some 1
        rw [hloops, hnext]
        rfl
      · rw [hevent, hone]
        decide
    simp only [step, attempt, hphase, runCallback, haccept]
  refine Machine.Reach.step hreach ?_ (congrArg some hstep)
  rintro _ ⟨⟩ _
  exact hfree

/-- No thread check fails in any run exactly when the pool has no threads. -/
theorem abort_unreachable_iff (N : Nat) :
    (∀ s, Reach N s → s ≠ .error (.loop .notInLoopThread)) ↔ N = 0 := by
  constructor
  · intro h
    cases N with
    | zero => rfl
    | succ n => exact absurd rfl (h _ (reach_abort n))
  · rintro rfl s hs rfl
    exact home_of_reach hs rfl

/-- One pool thread is enough for an abort. -/
theorem abort_with_one_pool_thread : Reach 1 (.error (.loop .notInLoopThread)) := reach_abort 0

end Yatwb.World
