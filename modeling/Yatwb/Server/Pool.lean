import Yatwb.Server.Affinity

/-!
# A server with pool threads serves nobody

`newConnection` gives the first connection to a loop of the pool and calls its
`establishConnection` on the base thread, where the thread check fails. As the
pool is started before the acceptor listens, no run gets past its first
accepted descriptor: no connection is ever established, and none of the
callbacks of the user is called.

## Implementation notes

Until then the acceptor, the timers and the wake-up descriptors are all there
is to poll, and the functors that wait are those of `listen` and of timers. The
acceptor and its functor appear only once the pool is started, and every channel
and functor is on its own loop, so no other step fails a thread check.
-/

namespace Yatwb

open Foundation

/-- The channels that the loop `l` of a server without connections registers. -/
def ChannelRef.Idle (started : Bool) (l : LoopId) : ChannelRef → Prop
  | .acceptor => started = true ∧ l = 0
  | .timer l' => l' = l
  | .wakeup l' => l' = l
  | .conn _ => False

/-- The functors that wait for the loop `l` of a server without connections. -/
def Functor.Idle (started : Bool) (l : LoopId) : Functor → Prop
  | .listen => started = true ∧ l = 0
  | .addTimerInLoop => True
  | _ => False

theorem ChannelRef.Idle.homeLoop {started : Bool} {l : LoopId} {ref : ChannelRef}
    (h : ref.Idle started l) : World.homeLoop ref = l := by
  cases ref with
  | acceptor => exact h.2.symm
  | timer l' => exact h
  | wakeup l' => exact h
  | conn c => exact h.elim

/-- A loop of a server without connections. -/
structure Reactor.Idle (started : Bool) (l : LoopId) (r : Reactor) : Prop where
  threadId : r.event.threadId = l
  holds : ∀ ref, r.poller.Holds ref → ref.Idle started l
  refs : ∀ ref ∈ r.phase.refs, ref.Idle started l
  pending : ∀ f ∈ r.event.pendingFunctors, f.Idle started l
  rest : ∀ f ∈ r.phase.rest, f.Idle started l

namespace World

/-- No connection has been made, and the first one would be given to a loop of the pool. -/
structure Unserved (N : Nat) (w : World) : Prop where
  reactors : ∀ l, (w.reactors l).Idle w.server.pool.started l
  channels : ∀ ref, (w.channels ref).loop = homeLoop ref
  conns : ∀ c, w.conns c = none
  trace : w.trace = []
  nextConnId : w.server.nextConnId = 1
  pool : w.server.pool = ⟨false, N, 0, []⟩ ∧ w.server.started = false ∨
    w.server.pool = ⟨true, N, 0, List.range' 1 N⟩

abbrev StaysUnserved (N : Nat) (x : Except Fault World) : Prop :=
  Ends (Unserved N) NoAbort x

/-- The acceptor gets a descriptor. -/
def Accepts (w : World) (a : Action) : Prop :=
  ∃ x callbacks active, a = .callback 0 x ∧
    (w.reactors 0).phase = .handling .acceptor (.read :: callbacks) active ∧ 0 ≤ x.connfd

namespace Unserved

variable {N : Nat} {w : World} {l : LoopId}

theorem setReactor (h : Unserved N w) {r : Reactor} (hr : r.Idle w.server.pool.started l) :
    Unserved N (w.setReactor l r) := by
  refine ⟨fun l' => ?_, h.channels, h.conns, h.trace, h.nextConnId, h.pool⟩
  by_cases hl : l' = l
  · subst hl
    rw [setReactor_self]
    exact hr
  · rw [setReactor_of_ne w hl]
    exact h.reactors l'

theorem setEvent (h : Unserved N w) {event : EventLoop Functor}
    (hthread : event.threadId = (w.reactors l).event.threadId)
    (hpending : ∀ f ∈ event.pendingFunctors, f.Idle w.server.pool.started l) :
    Unserved N (w.setEvent l event) := by
  have hl := h.reactors l
  exact h.setReactor ⟨hthread.trans hl.threadId, hl.holds, hl.refs, hpending, hl.rest⟩

theorem setPoller (h : Unserved N w) {poller : Poller ChannelRef}
    (hholds : ∀ ref, poller.Holds ref → ref.Idle w.server.pool.started l) :
    Unserved N (w.setPoller l poller) := by
  have hl := h.reactors l
  exact h.setReactor ⟨hl.threadId, hholds, hl.refs, hl.pending, hl.rest⟩

theorem setPhase (h : Unserved N w) {phase : Phase}
    (hrefs : ∀ ref ∈ phase.refs, ref.Idle w.server.pool.started l)
    (hrest : ∀ f ∈ phase.rest, f.Idle w.server.pool.started l) :
    Unserved N (w.setPhase l phase) := by
  have hl := h.reactors l
  exact h.setReactor ⟨hl.threadId, hl.holds, hrefs, hl.pending, hrest⟩

/-- Of the channels only their loops matter. -/
theorem setChannels (h : Unserved N w) {channels : ChannelRef → Channel}
    (hloop : ∀ ref, (channels ref).loop = (w.channels ref).loop) :
    Unserved N { w with channels := channels } :=
  ⟨h.reactors, fun ref => (hloop ref).trans (h.channels ref), h.conns, h.trace, h.nextConnId,
    h.pool⟩

theorem setChannel (h : Unserved N w) {ref : ChannelRef} {channel : Channel}
    (hloop : channel.loop = (w.channels ref).loop) : Unserved N (w.setChannel ref channel) := by
  apply h.setChannels
  intro ref'
  by_cases href : ref' = ref
  · subst href
    rw [Function.update_self, hloop]
  · rw [Function.update_of_ne href]

theorem setListenning (h : Unserved N w) : Unserved N w.setListenning :=
  ⟨h.reactors, h.channels, h.conns, h.trace, h.nextConnId, h.pool⟩

/-- A thread check on the loop of the calling thread is passed over. -/
theorem assert_bind (h : Unserved N w) (l : LoopId) {α : Type} (f : PUnit → Except Fault α) :
    w.assertInLoopThread l l >>= f = f ⟨⟩ :=
  assert_bind_of (h.reactors l).threadId f

theorem updateChannel (h : Unserved N w) {ref : ChannelRef}
    (href : ref.Idle w.server.pool.started l) : StaysUnserved N (w.updateChannel l ref) := by
  have hloop : (w.channels ref).loop = l := (h.channels ref).trans href.homeLoop
  simp only [World.updateChannel, hloop]
  refine ends_check (by simp [NoAbort]) fun _ => ?_
  rw [h.assert_bind]
  refine ((Poller.updateChannel_frame _ _ _).mapError (by simp [NoAbort])).bind ?_
  rintro ⟨poller, channels⟩ ⟨hsame, hholds⟩
  have hset : Unserved N (w.setPoller l poller) := by
    refine h.setPoller fun ref' href' => ?_
    rcases hholds ref' href' with hold | rfl
    · exact (h.reactors l).holds ref' hold
    · exact href
  apply hset.setChannels
  intro ref'
  obtain ⟨m, hm⟩ := hsame ref'
  rw [hm]
  rfl

theorem changeInterest (h : Unserved N w) {ref : ChannelRef}
    (href : ref.Idle w.server.pool.started l) (i : Channel.Interest) :
    StaysUnserved N (w.changeInterest l ref i) := by
  have hset : Unserved N (w.setChannel ref ((w.channels ref).change i)) := h.setChannel rfl
  exact hset.updateChannel href

theorem queueInLoop (h : Unserved N w) (tid : ThreadId) (l : LoopId) {cb : Functor}
    (hcb : cb.Idle w.server.pool.started l) : StaysUnserved N (w.queueInLoop tid l cb) := by
  refine ((EventLoop.queueInLoop_spec _ tid cb).mapError (by simp [NoAbort])).bind ?_
  rintro event ⟨hthread, hpending⟩
  refine h.setEvent hthread fun f hf => ?_
  rw [hpending] at hf
  rcases List.mem_append.mp hf with hf | hf
  · exact (h.reactors l).pending f hf
  · rw [List.mem_singleton.mp hf]
    exact hcb

/-! ### The calls of the user -/

theorem addTimer (h : Unserved N w) (tid : ThreadId) (l : LoopId) :
    StaysUnserved N (w.addTimer tid l) := by
  unfold World.addTimer
  split
  · rename_i hin
    rw [EventLoop.isInLoopThread, (h.reactors l).threadId, beq_iff_eq] at hin
    subst hin
    rw [World.addTimerInLoop, h.assert_bind]
    exact h
  · exact h.queueInLoop tid l trivial

theorem userAct (h : Unserved N w) (tid : ThreadId) (act : UserAct) :
    StaysUnserved N (w.userAct tid act) := by
  rcases userAct_alone h.conns tid act with hact | ⟨l, hact⟩
  · rw [hact]
    exact h
  · rw [hact]
    exact h.addTimer tid l

theorem userCallback (h : Unserved N w) (tid : ThreadId) (acts : List UserAct) :
    StaysUnserved N (w.userCallback tid acts) := by
  induction acts generalizing w with
  | nil => exact h
  | cons act rest ih => exact (h.userAct tid act).bind fun w' h' => ih h'

/-! ### The start -/

/-- Before the pool is started, nothing depends on whether it is. -/
theorem startThreads (h : Unserved N w) (hpool : w.server.pool = ⟨false, N, 0, []⟩) :
    Unserved N w.setStarted.startThreads := by
  have hstarted : w.server.pool.started = false := by rw [hpool]
  have hmono {l : LoopId} {ref : ChannelRef} (href : ref.Idle w.server.pool.started l) :
      ref.Idle true l := by
    rw [hstarted] at href
    cases ref with
    | acceptor => exact ⟨rfl, href.2⟩
    | timer _ | wakeup _ | conn _ => exact href
  have hmono' {l : LoopId} {f : Functor} (hf : f.Idle w.server.pool.started l) :
      f.Idle true l := by
    rw [hstarted] at hf
    cases f with
    | listen => exact ⟨rfl, hf.2⟩
    | addTimerInLoop | sendInLoop _ _ | shutdownInLoop _ | destroyConnection _
    | writeComplete _ => exact hf
  refine ⟨fun l => ?_, h.channels, h.conns, h.trace, h.nextConnId, Or.inr ?_⟩
  · have hl := h.reactors l
    exact ⟨hl.threadId, fun ref href => hmono (hl.holds ref href),
      fun ref href => hmono (hl.refs ref href), fun f hf => hmono' (hl.pending f hf),
      fun f hf => hmono' (hl.rest f hf)⟩
  · simp only [World.startThreads, World.setStarted, hpool, List.nil_append]

/-- After its first statement `start` has started the pool. -/
theorem startPool (h : Unserved N w) :
    Ends (fun w' => Unserved N w' ∧ w'.server.pool.started = true) NoAbort (w.startPool 0) := by
  unfold World.startPool
  rcases h.pool with ⟨hpool, hserver⟩ | hpool
  · rw [if_neg (by rw [hserver]; simp)]
    refine ends_check (by simp [NoAbort]) fun _ => ?_
    rw [assert_bind_of (w := w.setStarted) (h.reactors 0).threadId]
    exact ⟨h.startThreads hpool, rfl⟩
  · split
    · exact ⟨h, by rw [hpool]⟩
    · refine ends_check (by simp [NoAbort]) fun hfalse => ?_
      change w.server.pool.started = false at hfalse
      rw [hpool] at hfalse
      cases hfalse

theorem listen (h : Unserved N w) (hstarted : w.server.pool.started = true) :
    StaysUnserved N (w.listen 0) := by
  have hacceptor : ChannelRef.acceptor.Idle w.setListenning.server.pool.started 0 :=
    ⟨hstarted, rfl⟩
  rw [World.listen, h.assert_bind]
  exact h.setListenning.changeInterest hacceptor .enableReading

theorem start (h : Unserved N w) : StaysUnserved N (w.start 0) := by
  refine h.startPool.bind ?_
  rintro w' ⟨h', hstarted⟩
  split
  · exact h'
  · split
    · exact h'.listen hstarted
    · exact h'.queueInLoop 0 0 ⟨hstarted, rfl⟩

/-! ### The first connection -/

/-- The acceptor is polled only when the pool has its loops. -/
theorem acceptorHandleRead_aborts (h : Unserved N w) (hN : 0 < N)
    (hstarted : w.server.pool.started = true) (connfd : Int) (memory : LoopId)
    (acts : List UserAct) (hconnfd : 0 ≤ connfd) :
    w.acceptorHandleRead 0 connfd memory acts = .error (.loop .notInLoopThread) := by
  have hpool : w.server.pool = ⟨true, N, 0, List.range' 1 N⟩ := by
    rcases h.pool with ⟨hpool, -⟩ | hpool
    · rw [hpool] at hstarted
      cases hstarted
    · exact hpool
  rw [World.acceptorHandleRead, assert_bind_of (h.reactors 0).threadId, if_pos hconnfd]
  refine newConnection_aborts (l := 1) connfd memory acts (h.reactors 0).threadId ?_ ?_ ?_
  · change w.server.nextConnId < intMax
    rw [h.nextConnId]
    decide
  · change w.server.pool.loops[w.server.pool.next]? = some 1
    rw [hpool]
    simp [hN]
  · change (w.reactors 1).event.threadId ≠ 0
    rw [(h.reactors 1).threadId]
    exact one_ne_zero

/-- Without a descriptor there is nothing to do. -/
theorem acceptorHandleRead_refused (h : Unserved N w) {connfd : Int} (hconnfd : ¬ 0 ≤ connfd)
    (memory : LoopId) (acts : List UserAct) :
    w.acceptorHandleRead 0 connfd memory acts = .ok w := by
  rw [World.acceptorHandleRead, h.assert_bind, if_neg hconnfd]
  rfl

/-! ### The step -/

theorem runCallback (h : Unserved N w) (x : Answers) {ref : ChannelRef}
    (href : ref.Idle w.server.pool.started l) (cb : Channel.Callback)
    (hrefused : ref = .acceptor → cb = .read → ¬ 0 ≤ x.connfd) :
    StaysUnserved N (w.runCallback l x ref cb) := by
  cases ref with
  | acceptor =>
      obtain ⟨-, rfl⟩ := href
      cases cb with
      | read =>
          simp only [World.runCallback, h.acceptorHandleRead_refused (hrefused rfl rfl)]
          exact h
      | close | error | write => exact h
  | timer l' =>
      obtain rfl : l' = l := href
      cases cb with
      | read =>
          rw [World.runCallback, h.assert_bind]
          exact h.userCallback l' _
      | close | error | write => exact h
  | wakeup l' =>
      cases cb with
      | read => exact h.setEvent rfl (h.reactors l').pending
      | close | error | write => exact h
  | conn c => exact href.elim

theorem runFunctor (h : Unserved N w) (x : Answers) {f : Functor}
    (hf : f.Idle w.server.pool.started l) : StaysUnserved N (w.runFunctor l x f) := by
  cases f with
  | listen =>
      obtain ⟨hstarted, rfl⟩ := hf
      exact h.listen hstarted
  | addTimerInLoop =>
      rw [World.runFunctor, World.addTimerInLoop, h.assert_bind]
      exact h
  | sendInLoop _ _ | shutdownInLoop _ | destroyConnection _ | writeComplete _ => exact hf.elim

theorem wire (h : Unserved N w) (l : LoopId) : StaysUnserved N (w.wire l) := by
  have htimer : (ChannelRef.timer l).Idle w.server.pool.started l := rfl
  refine (h.changeInterest htimer _).bind fun w' h' => ?_
  have hwakeup : (ChannelRef.wakeup l).Idle w'.server.pool.started l := rfl
  exact h'.changeInterest hwakeup _

theorem enterLoop (h : Unserved N w) (l : LoopId) : StaysUnserved N (w.enterLoop l) := by
  have henter : Ends (fun event => event.threadId = (w.reactors l).event.threadId ∧
      event.pendingFunctors = (w.reactors l).event.pendingFunctors) (fun f => f ≠ .notInLoopThread)
      ((w.reactors l).event.enterLoop l) := by
    refine ends_check (by simp) fun _ => ?_
    have hin : (w.reactors l).event.isInLoopThread l = true := by
      rw [EventLoop.isInLoopThread, (h.reactors l).threadId, beq_self_eq_true]
    rw [EventLoop.assertInLoopThread, check_bind_of _ hin]
    exact ⟨rfl, rfl⟩
  refine (henter.mapError (by simp [NoAbort])).bind ?_
  rintro event ⟨hthread, hpending⟩
  refine (h.setEvent hthread ?_).setPhase (by simp [Phase.refs]) (by simp [Phase.rest])
  rw [hpending]
  exact (h.reactors l).pending

theorem pollReturn (h : Unserved N w) (l : LoopId) (reported : List (BitVec 16))
    (numEvents : Int) : StaysUnserved N (w.pollReturn l reported numEvents) := by
  refine ((Poller.poll_frame _ _ _ _).mapError (by simp [NoAbort])).bind ?_
  rintro ⟨poller, channels, active⟩ ⟨hmap, hsame, hactive⟩
  simp only at hmap hsame hactive
  have hpoller : Unserved N (w.setPoller l poller) := by
    refine h.setPoller ?_
    rintro ref ⟨fd, hfd⟩
    exact (h.reactors l).holds ref ⟨fd, hmap ▸ hfd⟩
  have hphase : Unserved N ((w.setPoller l poller).setPhase l (.dispatching active)) :=
    hpoller.setPhase (fun ref href => (h.reactors l).holds ref (hactive ref href))
      (by simp [Phase.rest])
  apply hphase.setChannels
  intro ref
  obtain ⟨r, hr⟩ := hsame ref
  rw [hr]
  rfl

theorem nextChannel (h : Unserved N w) {ref : ChannelRef} {active : List ChannelRef}
    (hrefs : ∀ ref' ∈ ref :: active, ref'.Idle w.server.pool.started l) :
    StaysUnserved N (w.nextChannel l ref active) := by
  cases ref with
  | acceptor | timer _ | wakeup _ => exact h.setPhase hrefs (by simp [Phase.rest])
  | conn c => exact (hrefs (.conn c) (List.mem_cons_self ..)).elim

theorem doPendingFunctors (h : Unserved N w) (l : LoopId) :
    StaysUnserved N (w.doPendingFunctors l) := by
  refine ((EventLoop.beginFunctors_spec _ l).mapError (by simp [NoAbort])).bind ?_
  rintro ⟨event, functors⟩ ⟨hthread, hpending, htaken⟩
  simp only at hthread hpending htaken
  refine (h.setEvent hthread ?_).setPhase (by simp [Phase.refs]) ?_
  · rw [hpending]
    simp
  · rw [htaken]
    exact (h.reactors l).pending

/-- The step lemma. -/
theorem attempt (h : Unserved N w) {a : Action} (haccepts : ¬ Accepts w a) :
    StaysUnserved N (w.attempt a) := by
  have hattempted := w.attempted a
  generalize w.attempt a = x at hattempted ⊢
  cases hattempted with
  | stay => exact h
  | start => exact h.start
  | wire l => exact h.wire l
  | enterLoop l => exact h.enterLoop l
  | pollReturn l reported numEvents => exact h.pollReturn l reported numEvents
  | nextChannel l ref active hphase =>
      have hrefs := (h.reactors l).refs
      rw [hphase] at hrefs
      exact h.nextChannel hrefs
  | callback l x ref cb callbacks active hphase =>
      have hrefs := (h.reactors l).refs
      rw [hphase] at hrefs
      have href := hrefs ref (List.mem_cons_self ..)
      have hset : Unserved N (w.setPhase l (.handling ref callbacks active)) :=
        h.setPhase hrefs (by simp [Phase.rest])
      apply hset.runCallback x href cb
      rintro rfl rfl hconnfd
      obtain ⟨-, rfl⟩ := href
      exact haccepts ⟨x, callbacks, active, rfl, hphase, hconnfd⟩
  | endChannel l ref active hphase =>
      have hrefs := (h.reactors l).refs
      rw [hphase] at hrefs
      exact h.setPhase (fun ref' href' => hrefs ref' (List.mem_cons_of_mem _ href'))
        (by simp [Phase.rest])
  | doPendingFunctors l => exact h.doPendingFunctors l
  | functor l x f rest hphase =>
      have hrest := (h.reactors l).rest
      rw [hphase] at hrest
      have hset : Unserved N (w.setPhase l (.functors rest)) :=
        h.setPhase (by simp [Phase.refs]) fun f' hf' => hrest f' (List.mem_cons_of_mem _ hf')
      exact hset.runFunctor x (hrest f (List.mem_cons_self ..))
  | endFunctors l =>
      have hset : Unserved N (w.setEvent l (w.reactors l).event.endFunctors) :=
        h.setEvent rfl (h.reactors l).pending
      exact hset.setPhase (by simp [Phase.refs]) (by simp [Phase.rest])
  | send tid c message =>
      simp only [World.send, h.conns c]
      exact h
  | shutdown tid c =>
      simp only [World.shutdown, h.conns c]
      exact h
  | destroy c =>
      simp only [World.destroy, h.conns c]
      exact h

/-- The first descriptor ends the process. -/
theorem step_aborts (h : Unserved N w) (hN : 0 < N) {a : Action} (haccepts : Accepts w a) :
    w.step a = .error (.loop .notInLoopThread) := by
  obtain ⟨x, callbacks, active, rfl, hphase, hconnfd⟩ := haccepts
  have hrefs := (h.reactors 0).refs
  rw [hphase] at hrefs
  have hset : Unserved N (w.setPhase 0 (.handling .acceptor callbacks active)) :=
    h.setPhase hrefs (by simp [Phase.rest])
  have haborts := hset.acceptorHandleRead_aborts hN (hrefs .acceptor (List.mem_cons_self ..)).1
    x.connfd x.memory x.acts hconnfd
  simp only [World.step, World.attempt, hphase, World.runCallback, haborts]

/-- A step goes on serving nobody, or it ends the process. -/
theorem step (h : Unserved N w) (hN : 0 < N) (a : Action) :
    Ends (Unserved N) (fun f => Accepts w a ∨ NoAbort f) (w.step a) := by
  by_cases haccepts : Accepts w a
  · rw [h.step_aborts hN haccepts]
    exact Or.inl haccepts
  · exact (ends_step h (h.attempt haccepts)).weaken fun _ => Or.inr

end Unserved

theorem Initial.unserved {N : Nat} {w : World} (h : Initial N w) : Unserved N w := by
  obtain ⟨name, writeCmplCb, hserver⟩ := h.server
  refine ⟨fun l => ?_, fun ref => ?_, h.conns, h.trace, by rw [hserver],
    Or.inl ⟨by rw [hserver], by rw [hserver]⟩⟩
  · obtain ⟨flag, counter, hl⟩ := h.reactors l
    rw [hl]
    refine ⟨rfl, ?_, by simp [Phase.refs], by simp [EventLoop.new], by simp [Phase.rest]⟩
    rintro ref ⟨fd, hfd⟩
    simp [Poller.new] at hfd
  · obtain ⟨fd, memory, href⟩ := h.channels ref
    rw [href]
    rfl

theorem unserved_of_reach {N : Nat} {w : World} (hN : 0 < N) (h : Reach N (.ok w)) :
    Unserved N w := by
  have hends : Ends (Unserved N) (fun _ => True) (.ok w) :=
    ends_of_reach (fun _ hw => hw.unserved)
      (fun _ a hw _ => (hw.step hN a).weaken fun _ _ => trivial) h
  exact hends

/-- Nothing but the first descriptor that the acceptor gets fails a thread check. -/
theorem abort_iff_accepts {N : Nat} {w : World} (hN : 0 < N) (h : Reach N (.ok w)) (a : Action) :
    w.step a = .error (.loop .notInLoopThread) ↔ Accepts w a := by
  have hunserved := unserved_of_reach hN h
  constructor
  · intro haborts
    have hends := hunserved.step hN a
    rw [haborts] at hends
    rcases hends with haccepts | hnot
    · exact haccepts
    · exact absurd rfl hnot
  · exact hunserved.step_aborts hN

/-- What the kernel guarantees, and no descriptor for the acceptor while the pool has
threads. -/
def Refusing (N : Nat) (w : World) (a : Action) : Prop :=
  Kernel w a ∧ (0 < N → ¬ Accepts w a)

/-- No thread check fails in a run in which no connection arrives while the pool has threads. -/
theorem no_abort_of_refusing {N : Nat} {s : Except Fault World}
    (h : (machine N).Reach (whileRunning (Refusing N)) s) :
    s ≠ .error (.loop .notInLoopThread) := by
  rintro rfl
  rcases Nat.eq_zero_or_pos N with rfl | hN
  · have hreach : Reach 0 (.error (.loop .notInLoopThread)) :=
      h.mono fun _ _ hguard w hw => (hguard w hw).1
    exact home_of_reach hreach rfl
  · have hends : Ends (Unserved N) NoAbort (.error (.loop .notInLoopThread)) :=
      ends_of_reach (fun _ hw => hw.unserved)
        (fun w a hw hguard => ends_step hw (hw.attempt (hguard.2 hN))) h
    exact hends rfl

/-- In every run of a server with pool threads no connection is made and no callback of
the user is called with one: the first descriptor that the acceptor gets ends the
process in the thread check of `establishConnection`. -/
theorem pool_serves_nobody {N : Nat} {w : World} (hN : 0 < N) (h : Reach N (.ok w)) :
    (∀ c, w.conns c = none) ∧ w.trace = [] ∧
      ∀ (x : Answers) (callbacks : List Channel.Callback) (active : List ChannelRef),
        (w.reactors 0).phase = .handling .acceptor (.read :: callbacks) active →
        0 ≤ x.connfd → w.step (.callback 0 x) = .error (.loop .notInLoopThread) := by
  have hunserved := unserved_of_reach hN h
  exact ⟨hunserved.conns, hunserved.trace, fun x callbacks active hphase hconnfd =>
    hunserved.step_aborts hN ⟨x, callbacks, active, rfl, hphase, hconnfd⟩⟩

section Example

/-- With two pool threads, the server comes to its first accept with no connection. -/
theorem pool_serves_nobody_example : ∃ w : World, (w.reactors 0).phase = .handling .acceptor
    [.read] [] ∧ (∀ c, w.conns c = none) ∧ w.trace = [] := by
  obtain ⟨w, h, hphase, -⟩ := reach_accepting 2
  exact ⟨w, hphase, (pool_serves_nobody (by decide) h).1, (pool_serves_nobody (by decide) h).2.1⟩

end Example

end World

end Yatwb
