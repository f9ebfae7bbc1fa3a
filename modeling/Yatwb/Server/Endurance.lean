import Yatwb.Echo.Model
import Yatwb.Server.Attention
import Yatwb.Server.Teardown

/-!
# No user stops the server

Whatever the callbacks of a user call, they do not stop a server without pool
threads: no assert fails, no pointer dangles, and the loop does not wait for a
mutex that it holds. What this needs of the user is that no callback sends from
a functor when a write-complete callback is set, since `doPendingFunctors` runs
the functors with `mutex_` held. A user who does send there can bring about that
wait, and nothing else.
-/

namespace Yatwb

open Foundation

/-- `sendInLoop` asks for the write-complete callback only when one is set. -/
theorem Endpoint.sendInLoop_queues (e : Endpoint) (message : List Byte) (r : WriteResult) :
    Ends (fun outcome => .queueWriteComplete ∈ outcome.2 → e.conn.writeCmplCb = true)
      (fun _ => True) (e.sendInLoop message r) := by
  have hdirect : .queueWriteComplete ∈ (e.directWrite message r).2 →
      e.conn.writeCmplCb = true := by
    unfold directWrite
    split
    · simp only
      split
      · split
        · simp
        · split
          · exact fun _ => ‹_›
          · simp
      · simp
    · simp
  simp only [sendInLoop]
  apply ends_check fun _ => trivial
  intro _
  split
  · apply ((ends_any _).weaken fun _ _ => trivial).bind
    intro output _
    split
    · exact hdirect
    · intro hmem
      rcases List.mem_append.mp hmem with hmem | hmem
      · exact hdirect hmem
      · simp [change] at hmem
  · exact hdirect

/-- While the functors run, the call queues nothing in its own loop. -/
def UserAct.Calm (writeCmplCb busy : Bool) : UserAct → Prop
  | .send _ _ _ => busy = true → writeCmplCb = false
  | _ => True

/-- Outside the functors every call is calm. -/
theorem UserAct.calm_idle (writeCmplCb : Bool) (act : UserAct) : act.Calm writeCmplCb false := by
  cases act with
  | send c message r => exact fun hbusy => absurd hbusy (by decide)
  | shutdown c => trivial
  | retrieveAsString c => trivial
  | addTimer l => trivial

instance (writeCmplCb busy : Bool) : ∀ act : UserAct, Decidable (act.Calm writeCmplCb busy)
  | .send _ _ _ => inferInstanceAs (Decidable (busy = true → writeCmplCb = false))
  | .shutdown _ | .retrieveAsString _ | .addTimer _ => isTrue trivial

namespace World

/-- The channel is where its loop looks for it, and the callback is that of the server. -/
def Equipped (writeCmplCb : Bool) (e : Endpoint) : Prop :=
  e.channel.ownerLoop = 0 ∧ e.conn.writeCmplCb = writeCmplCb

/-- The state of the loops and of the server's own objects; `busy` while functors run. -/
structure Firm (writeCmplCb busy : Bool) (w : World) : Prop where
  mutex : (w.reactors 0).event.mutex = if busy then some 0 else none
  others : ∀ l, l ≠ 0 → (w.reactors l).event.mutex = none
  looping : (w.reactors 0).phase = .outside → (w.reactors 0).event.looping = false
  owner : ∀ ref, Standing 0 ref → (w.channels ref).ownerLoop = 0
  conns : Each (fun _ => Equipped writeCmplCb) w
  server : w.server.writeCmplCb = writeCmplCb
  pool : w.server.started = false → w.server.pool.started = false

/-- The loops, and the parts of a server that `Firm` names. -/
structure Sturdy (writeCmplCb busy : Bool) (w : World) : Prop where
  home : Home w
  firm : Firm writeCmplCb busy w

/-- The faults that are excluded elsewhere, and the one of a call that is not `calm`. -/
def Fault.Foreign (calm : Prop) : Fault → Prop
  | .loop .relock => ¬ calm
  | .loop .held => False
  | .loop .alreadyLooping => False
  | .updateChannelOwner => False
  | .removeChannelOwner => False
  | .nextConnIdOverflow => False
  | .poolStarted => False
  | _ => True

abbrev Endures (calm : Prop) (writeCmplCb busy : Bool) (x : Except Fault World) : Prop :=
  Ends (Sturdy writeCmplCb busy) (Fault.Foreign calm) x

variable {w w' : World} {owners : List ChannelRef} {a : Action} {c : Nat}
  {conn : TcpConnection} {writeCmplCb busy : Bool} {calm : Prop}

theorem Firm.congr (h : Firm writeCmplCb busy w)
    (hmutex : ∀ l, (w'.reactors l).event.mutex = (w.reactors l).event.mutex)
    (hlooping : (w'.reactors 0).phase = .outside → (w'.reactors 0).event.looping = false)
    (howner : ∀ ref, (w'.channels ref).ownerLoop = (w.channels ref).ownerLoop)
    (hconns : w'.conns = w.conns) (hserver : w'.server.writeCmplCb = w.server.writeCmplCb)
    (hpool : w'.server.started = false → w'.server.pool.started = false) :
    Firm writeCmplCb busy w' where
  mutex := (hmutex 0).trans h.mutex
  others l hl := (hmutex l).trans (h.others l hl)
  looping := hlooping
  owner ref href := (howner ref).trans (h.owner ref href)
  conns c conn hc := by
    obtain ⟨hown, hcb⟩ := h.conns c conn (hconns ▸ hc)
    exact ⟨(howner (.conn c)).trans hown, hcb⟩
  server := hserver.trans h.server
  pool := hpool

/-- A fault of the connection, of its buffers or of the poller is excluded elsewhere. -/
theorem ends_foreign {α ε : Type} {Post : α → Prop} {Allowed : ε → Prop} {g : ε → Fault}
    {x : Except ε α} (h : Ends Post Allowed x) (hg : ∀ e, (g e).Foreign calm) :
    Ends Post (Fault.Foreign calm) (x.mapError g) :=
  h.mapError fun e _ => hg e

/-- Two parts of one outcome. -/
theorem endures_of {x : Except Fault World} (hhome : StaysHome x)
    (hfirm : Ends (Firm writeCmplCb busy) (Fault.Foreign calm) x) :
    Endures calm writeCmplCb busy x :=
  ((hhome.and hfirm).mono fun _ hw => ⟨hw.1, hw.2⟩).weaken fun _ hf => hf.2

/-- A computation that leaves the connections themselves alone. -/
abbrev EnduresWith (calm : Prop) (writeCmplCb busy : Bool) (w : World)
    (x : Except Fault World) : Prop :=
  Ends (fun w' => Sturdy writeCmplCb busy w' ∧ w'.conns = w.conns) (Fault.Foreign calm) x

namespace Sturdy

/-- The poller has changed, and the slot numbers of channels. -/
theorem rewire (h : Sturdy writeCmplCb busy w) (poller : Poller ChannelRef)
    {channels : ChannelRef → Channel} (hsame : Poller.SameButIndex w.channels channels) :
    Firm writeCmplCb busy { w.setPoller 0 poller with channels := channels } := by
  refine h.firm.congr ?_ ?_ ?_ rfl rfl h.firm.pool
  · intro l
    exact congrArg EventLoop.mutex (event_setPoller w 0 l poller)
  · intro hphase
    have hold := h.firm.looping ((phase_setPoller w 0 0 poller).symm.trans hphase)
    exact (congrArg EventLoop.looping (event_setPoller w 0 0 poller)).trans hold
  · intro ref
    obtain ⟨m, hm⟩ := hsame ref
    change (channels ref).ownerLoop = _
    rw [hm]
    rfl

theorem updateChannel (h : Sturdy writeCmplCb busy w) {ref : ChannelRef}
    (href : homeLoop ref = 0) (howner : (w.channels ref).ownerLoop = 0) :
    EnduresWith calm writeCmplCb busy w (w.updateChannel 0 ref) := by
  have hloop : (w.channels ref).loop = 0 := (h.home.channels ref).trans href
  have hfirm : Ends (fun w' => Firm writeCmplCb busy w' ∧ w'.conns = w.conns) (Fault.Foreign calm)
      (w.updateChannel 0 ref) := by
    simp only [World.updateChannel, hloop]
    rw [check_bind_of _ howner, h.home.assert_bind rfl]
    apply (ends_foreign (g := Fault.poller) (Poller.updateChannel_frame _ _ _)
      fun _ => trivial).bind
    rintro ⟨poller, channels⟩ ⟨hsame, -⟩
    exact ⟨h.rewire poller hsame, rfl⟩
  exact (((h.home.updateChannel href).and hfirm).mono fun _ hw =>
    ⟨⟨hw.1, hw.2.1⟩, hw.2.2⟩).weaken fun _ hf => hf.2

theorem setChannel (h : Sturdy writeCmplCb busy w) (ref : ChannelRef) (i : Channel.Interest) :
    Sturdy writeCmplCb busy (w.setChannel ref ((w.channels ref).change i)) := by
  refine ⟨h.home.setChannel rfl, h.firm.congr (fun _ => rfl) h.firm.looping ?_ rfl rfl
    h.firm.pool⟩
  intro ref'
  by_cases hne : ref' = ref
  · subst hne
    rw [setChannel_self]
    rfl
  · rw [setChannel_of_ne w hne]

theorem changeInterest (h : Sturdy writeCmplCb busy w) {ref : ChannelRef}
    (href : Standing 0 ref) (hloop : homeLoop ref = 0) (i : Channel.Interest) :
    Endures calm writeCmplCb busy (w.changeInterest 0 ref i) := by
  have hset := h.setChannel ref i
  exact (hset.updateChannel hloop (hset.firm.owner ref href)).mono fun _ hw => hw.1

theorem removeChannel (h : Sturdy writeCmplCb busy w) {ref : ChannelRef}
    (howner : (w.channels ref).ownerLoop = 0) :
    Endures calm writeCmplCb busy (w.removeChannel 0 0 ref) := by
  refine endures_of (h.home.removeChannel ref) ?_
  simp only [World.removeChannel]
  rw [check_bind_of _ howner, h.home.assert_bind rfl]
  apply (ends_foreign (g := Fault.poller) (Poller.removeChannel_frame _ _ _)
    fun _ => trivial).bind
  rintro ⟨poller, channels⟩ ⟨hsame, -⟩
  have hlog : Sturdy writeCmplCb busy
      (w.log (.removeChannel ref (w.reactors 0).phase.iterating)) :=
    ⟨h.home.log _, h.firm.congr (fun _ => rfl) h.firm.looping (fun _ => rfl) rfl rfl h.firm.pool⟩
  exact hlog.rewire poller hsame

/-- A loop whose `mutex_` and `looping_` are as they were. -/
theorem setEvent (h : Sturdy writeCmplCb busy w) {l : LoopId} {event : EventLoop Functor}
    (hthread : event.threadId = l) (hmutex : event.mutex = (w.reactors l).event.mutex)
    (hlooping : event.looping = (w.reactors l).event.looping) :
    Sturdy writeCmplCb busy (w.setEvent l event) := by
  refine ⟨h.home.setEvent hthread, h.firm.congr ?_ ?_ (fun _ => rfl) rfl rfl h.firm.pool⟩
  · intro l'
    by_cases hl : l' = l
    · subst hl
      rw [event_setEvent_self, hmutex]
    · rw [World.setEvent, setReactor_of_ne w hl]
  · rw [phase_setEvent]
    intro hphase
    by_cases hl : (0 : LoopId) = l
    · subst hl
      rw [event_setEvent_self, hlooping]
      exact h.firm.looping hphase
    · rw [World.setEvent, setReactor_of_ne w hl]
      exact h.firm.looping hphase

theorem queueInLoop (h : Sturdy writeCmplCb busy w) (l : LoopId) (cb : Functor)
    (hfree : calm → l = 0 → busy = false) :
    EnduresWith calm writeCmplCb busy w (w.queueInLoop 0 l cb) := by
  by_cases hheld : l = 0 ∧ busy = true
  · -- `doPendingFunctors` holds the mutex that the loop asks for again
    obtain ⟨rfl, rfl⟩ := hheld
    have hself : (w.reactors 0).event.mutex = some 0 := h.firm.mutex
    rw [World.queueInLoop, EventLoop.queueInLoop, EventLoop.lock_self hself]
    exact fun hcalm => absurd (hfree hcalm rfl) (by decide)
  have hmutex : (w.reactors l).event.mutex = none := by
    by_cases hl : l = 0
    · subst hl
      have hidle : busy = false := by simpa using hheld
      rw [h.firm.mutex, hidle]
      rfl
    · exact h.firm.others l hl
  obtain ⟨event, hevent, hfree', hlooping, hthread, -⟩ := EventLoop.queueInLoop_free hmutex 0 cb
  rw [World.queueInLoop, hevent]
  exact ⟨h.setEvent (hthread.trans (h.home.threads l)) (hfree'.trans hmutex.symm) hlooping, rfl⟩

theorem requests (h : Sturdy writeCmplCb busy w) (hc : w.conns c = some conn)
    {asked : List Request} (hqueues : calm → .queueWriteComplete ∈ asked → busy = false) :
    Endures calm writeCmplCb busy (w.requests 0 c 0 asked) := by
  induction asked generalizing w with
  | nil => exact h
  | cons q rest ih =>
      have hq : EnduresWith calm writeCmplCb busy w (w.request 0 c 0 q) := by
        cases q with
        | write taken => exact ⟨h, rfl⟩
        | update => exact h.updateChannel rfl (h.firm.conns c conn hc).1
        | queueWriteComplete =>
            exact h.queueInLoop 0 _ fun hcalm _ => hqueues hcalm (List.mem_cons_self ..)
        | shutdownWrite => exact ⟨h, rfl⟩
      apply hq.bind
      rintro w' ⟨h', hconns⟩
      exact ih h' (hconns ▸ hc) fun hcalm hmem => hqueues hcalm (List.mem_cons_of_mem _ hmem)

theorem setEndpoint (h : Sturdy writeCmplCb busy w) {e : Endpoint} (hconn : e.conn.loop = 0)
    (hchannel : e.channel.loop = 0) (he : Equipped writeCmplCb e) :
    Sturdy writeCmplCb busy (w.setEndpoint c e) where
  home := h.home.setEndpoint hconn hchannel
  firm :=
    { h.firm with
      owner := by
        intro ref href
        have hne : ref ≠ .conn c := by
          rintro rfl
          exact href
        exact (congrArg Channel.ownerLoop (setChannel_of_ne _ hne e.channel)).trans
          (h.firm.owner ref href)
      conns := h.firm.conns.setEndpoint he }

theorem commit (h : Sturdy writeCmplCb busy w) {outcome : Endpoint × List Request}
    (hconn : outcome.1.conn.loop = 0) (hchannel : outcome.1.channel.loop = 0)
    (he : Equipped writeCmplCb outcome.1)
    (hqueues : calm → .queueWriteComplete ∈ outcome.2 → busy = false) :
    Endures calm writeCmplCb busy (w.commit 0 c outcome) := by
  rw [World.commit, hconn]
  exact (h.setEndpoint hconn hchannel he).requests (setConn_self w c (some outcome.1.conn)) hqueues

/-- The outcome of a write path. -/
theorem commit_writes (h : Sturdy writeCmplCb busy w) (hc : w.conns c = some conn)
    {outcome : Endpoint × List Request}
    (hw : Endpoint.Writes ⟨conn, w.channels (.conn c)⟩ outcome)
    (hqueues : calm → .queueWriteComplete ∈ outcome.2 → busy = false) :
    Endures calm writeCmplCb busy (w.commit 0 c outcome) := by
  obtain ⟨⟨b, hb⟩, hchannel⟩ := hw
  obtain ⟨hown, hcb⟩ := h.firm.conns c conn hc
  have hkept : outcome.1.channel.loop = 0 ∧ outcome.1.channel.ownerLoop = 0 := by
    rcases hchannel with ⟨hch, -⟩ | ⟨i, post, hch, -⟩ <;> rw [hch] <;>
      exact ⟨h.home.channels (.conn c), hown⟩
  refine h.commit ?_ hkept.1 ⟨hkept.2, ?_⟩ hqueues
  · rw [hb]
    exact h.home.conns c conn hc
  · rw [hb]
    exact hcb

/-- An outcome that changes the state and the interest of a connection. -/
theorem commit_change (h : Sturdy writeCmplCb busy w) (hc : w.conns c = some conn)
    (state : States) (i : Channel.Interest) :
    Endures calm writeCmplCb busy (w.commit 0 c
      ((Endpoint.setState ⟨conn, w.channels (.conn c)⟩ state).change i)) := by
  obtain ⟨hown, hcb⟩ := h.firm.conns c conn hc
  exact h.commit (h.home.conns c conn hc) (h.home.channels (.conn c)) ⟨hown, hcb⟩
    (by simp [Endpoint.change])

theorem log (h : Sturdy writeCmplCb busy w) (event : Event) :
    Sturdy writeCmplCb busy (w.log event) :=
  ⟨h.home.log event, { h.firm with conns := h.firm.conns }⟩

theorem setConn (h : Sturdy writeCmplCb busy w) {conn' : TcpConnection}
    (hc : w.conns c = some conn) (hloop : conn'.loop = conn.loop)
    (hcb : conn'.writeCmplCb = conn.writeCmplCb) :
    Sturdy writeCmplCb busy (w.setConn c (some conn')) := by
  obtain ⟨hown, hcb'⟩ := h.firm.conns c conn hc
  refine ⟨h.home.setConn ?_, { h.firm with conns := h.firm.conns.setConn ?_ }⟩
  · rintro conn'' ⟨⟩
    exact hloop.trans (h.home.conns c conn hc)
  · rintro conn'' ⟨⟩
    exact ⟨hown, hcb.trans hcb'⟩

variable {acts : List UserAct}

theorem sendInLoop (h : Sturdy writeCmplCb busy w) (c : Nat) (message : List Byte)
    (r : WriteResult) (hcalm : calm → busy = true → writeCmplCb = false) :
    Endures calm writeCmplCb busy (w.sendInLoop 0 c message r) := by
  apply ends_endpoint fun _ => trivial
  intro conn hc
  rw [h.home.assert_bind (h.home.conns c conn hc)]
  have hoffers := (Endpoint.sendInLoop_writes ⟨conn, w.channels (.conn c)⟩ message r).and
    (Endpoint.sendInLoop_queues ⟨conn, w.channels (.conn c)⟩ message r)
  apply (ends_foreign (g := Fault.connection) hoffers fun _ => trivial).bind
  rintro outcome ⟨hw, hqueues⟩
  apply h.commit_writes hc hw
  intro hcalm' hmem
  have hset : writeCmplCb = true := (h.firm.conns c conn hc).2.symm.trans (hqueues hmem)
  cases hbusy : busy with
  | false => rfl
  | true => exact absurd (hset.symm.trans (hcalm hcalm' hbusy)) (by decide)

theorem send (h : Sturdy writeCmplCb busy w) (c : Nat) (message : List Byte) (r : WriteResult)
    (hcalm : calm → busy = true → writeCmplCb = false) :
    Endures calm writeCmplCb busy (w.send 0 c message r) := by
  unfold World.send
  split
  · exact h
  · rename_i conn hc
    rw [h.home.isInLoopThread, h.home.conns c conn hc]
    split
    · exact h.sendInLoop c message r hcalm
    · exact h

theorem shutdownInLoop (h : Sturdy writeCmplCb busy w) (c : Nat) :
    Endures calm writeCmplCb busy (w.shutdownInLoop 0 c) := by
  apply ends_endpoint fun _ => trivial
  intro conn hc
  rw [h.home.assert_bind (h.home.conns c conn hc)]
  apply h.commit (h.home.conns c conn hc) (h.home.channels (.conn c)) (h.firm.conns c conn hc)
  unfold Endpoint.shutdownInLoop
  split <;> simp

theorem shutdown (h : Sturdy writeCmplCb busy w) (c : Nat) :
    Endures calm writeCmplCb busy (w.shutdown 0 c) := by
  unfold World.shutdown
  split
  · exact h
  · rename_i conn hc
    have hset : Sturdy writeCmplCb busy
        (w.setConn c (some { conn with state := .disconnecting })) := h.setConn hc rfl rfl
    have hin : (w.reactors conn.loop).event.isInLoopThread 0 = true := by
      rw [h.home.isInLoopThread, h.home.conns c conn hc]
      rfl
    split
    · change Endures calm writeCmplCb busy (if (w.reactors conn.loop).event.isInLoopThread 0 = true
        then _ else _)
      rw [if_pos hin]
      exact hset.shutdownInLoop c
    · exact h

theorem addTimer (h : Sturdy writeCmplCb busy w) (l : LoopId) :
    Endures calm writeCmplCb busy (w.addTimer 0 l) := by
  unfold World.addTimer
  rw [h.home.isInLoopThread]
  split
  · rename_i hl
    rw [beq_iff_eq] at hl
    rw [World.addTimerInLoop, h.home.assert_bind hl]
    exact h
  · rename_i hl
    have hne : calm → l = 0 → busy = false := by
      rintro - rfl
      exact absurd rfl hl
    exact (h.queueInLoop l _ hne).mono fun _ hw => hw.1

theorem retrieveAsString (h : Sturdy writeCmplCb busy w) (c : Nat) :
    Endures calm writeCmplCb busy (w.retrieveAsString c) := by
  unfold World.retrieveAsString
  split
  · exact h
  · rename_i conn hc
    apply (ends_foreign (g := Fault.connection ∘ TcpConnection.Fault.buffer) (ends_any _)
      fun _ => trivial).bind
    rintro ⟨input, text⟩ _
    exact h.setConn hc rfl rfl

theorem userCallback (h : Sturdy writeCmplCb busy w)
    (hcalm : calm → ∀ act ∈ acts, act.Calm writeCmplCb busy) :
    Endures calm writeCmplCb busy (w.userCallback 0 acts) := by
  induction acts generalizing w with
  | nil => exact h
  | cons act rest ih =>
      have hact : Endures calm writeCmplCb busy (w.userAct 0 act) := by
        have hcalm' : calm → act.Calm writeCmplCb busy :=
          fun hall => hcalm hall act (List.mem_cons_self ..)
        cases act with
        | send c message r => exact h.send c message r hcalm'
        | shutdown c => exact h.shutdown c
        | retrieveAsString c => exact h.retrieveAsString c
        | addTimer l => exact h.addTimer l
      apply hact.bind
      intro w' h'
      exact ih h' fun hall act' hact' => hcalm hall act' (List.mem_cons_of_mem _ hact')

theorem establishConnection (h : Sturdy writeCmplCb busy w) (c : Nat)
    (hcalm : calm → ∀ act ∈ acts, act.Calm writeCmplCb busy) :
    Endures calm writeCmplCb busy (w.establishConnection 0 c acts) := by
  apply ends_endpoint fun _ => trivial
  intro conn hc
  rw [h.home.assert_bind (h.home.conns c conn hc), Endpoint.establishConnection_eq]
  split
  · apply (h.commit_change hc .connected .enableReading).bind
    intro w' h'
    exact (h'.log _).userCallback hcalm
  · exact trivial

theorem newConnection (h : Sturdy writeCmplCb busy w) (sockfd : Int)
    (hcount : w.server.nextConnId < intMax)
    (hcalm : calm → ∀ act ∈ acts, act.Calm writeCmplCb busy) :
    Endures calm writeCmplCb busy (w.newConnection 0 sockfd 0 acts) := by
  rw [World.newConnection, h.home.assert_bind rfl, check_bind_of _ hcount]
  have hcounted : Sturdy writeCmplCb busy w.countConnection :=
    ⟨h.home.setServer rfl, { h.firm with conns := h.firm.conns }⟩
  rw [hcounted.home.getNextLoop]
  let e := Endpoint.new 0 (connName w.server) sockfd w.countConnection.server.writeCmplCb 0
  have hset := hcounted.setEndpoint (c := w.countConnection.nextObj) (e := e) rfl rfl
    ⟨rfl, hcounted.firm.server⟩
  have hadd : Sturdy writeCmplCb busy (w.countConnection.addConnection e) :=
    ⟨hcounted.home.addConnection rfl rfl, { hset.firm with conns := hset.firm.conns }⟩
  exact hadd.establishConnection _ hcalm

theorem acceptorHandleRead (h : Sturdy writeCmplCb busy w) (connfd : Int) {memory : LoopId}
    (haccepts : 0 ≤ connfd → memory = 0 ∧ w.server.nextConnId < intMax)
    (hcalm : calm → ∀ act ∈ acts, act.Calm writeCmplCb busy) :
    Endures calm writeCmplCb busy (w.acceptorHandleRead 0 connfd memory acts) := by
  rw [World.acceptorHandleRead, h.home.assert_bind rfl]
  split
  · obtain ⟨rfl, hcount⟩ := haccepts ‹_›
    have hopen : Sturdy writeCmplCb busy (w.openFd connfd) :=
      ⟨{ h.home with }, { h.firm with conns := h.firm.conns }⟩
    exact hopen.newConnection connfd hcount hcalm
  · exact h

theorem handleClose (h : Sturdy writeCmplCb false w) (c : Nat) :
    Endures calm writeCmplCb false (w.handleClose 0 c) := by
  apply ends_endpoint fun _ => trivial
  intro conn hc
  rw [h.home.assert_bind (h.home.conns c conn hc), Endpoint.handleClose_eq]
  split
  · apply (h.commit_change hc conn.state .disableAllEvents).bind
    intro w' h'
    rw [World.removeConnection, (h'.log _).home.assert_bind rfl]
    apply ends_endpoint fun _ => trivial
    intro conn' hc'
    apply ends_check fun _ => trivial
    intro _
    have herase : Sturdy writeCmplCb false ((w'.log (.handleClose c)).eraseConnection conn'.name) :=
      ⟨(h'.log _).home.setServer rfl, { h'.firm with conns := h'.firm.conns }⟩
    exact ((herase.log _).queueInLoop 0 _ fun _ _ => rfl).mono fun _ hw => hw.1
  · exact trivial

theorem handleRead (h : Sturdy writeCmplCb false w) (c : Nat) (r : Buffer.ReadResult)
    (hcalm : calm → ∀ act ∈ acts, act.Calm writeCmplCb false) :
    Endures calm writeCmplCb false (w.handleRead 0 c r acts) := by
  apply ends_endpoint fun _ => trivial
  intro conn hc
  apply (ends_foreign (g := Fault.connection) (Endpoint.handleRead_reads _ r)
    fun _ => trivial).bind
  rintro ⟨e, outcome⟩ ⟨⟨b, rfl⟩, -⟩
  have hset : Sturdy writeCmplCb false (w.setEndpoint c
      ⟨{ conn with inputBuffer := b }, w.channels (.conn c)⟩) :=
    h.setEndpoint (h.home.conns c conn hc) (h.home.channels (.conn c)) (h.firm.conns c conn hc)
  cases outcome with
  | message => exact (hset.log _).userCallback hcalm
  | close => exact hset.handleClose c
  | error => exact hset

theorem handleWrite (h : Sturdy writeCmplCb false w) (c : Nat) (r : WriteResult) :
    Endures calm writeCmplCb false (w.handleWrite 0 c r) := by
  apply ends_endpoint fun _ => trivial
  intro conn hc
  rw [h.home.assert_bind (h.home.conns c conn hc)]
  apply (ends_foreign (g := Fault.connection) (Endpoint.handleWrite_writes _ r)
    fun _ => trivial).bind
  intro outcome hw
  exact h.commit_writes hc hw fun _ _ => rfl

theorem destroyConnection (h : Sturdy writeCmplCb busy w) (hwired : Wired w owners)
    (hc : w.conns c = some conn) (hopen : conn.Open)
    (hcalm : calm → ∀ act ∈ acts, act.Calm writeCmplCb busy) :
    Endures calm writeCmplCb busy (w.destroyConnection 0 c acts) := by
  have hloop : conn.loop = 0 := h.home.conns c conn hc
  have hopen' : Endpoint.Open ⟨conn, w.channels (.conn c)⟩ := hopen
  let outcome := (Endpoint.setState ⟨conn, w.channels (.conn c)⟩ .disconnected).change
    .disableAllEvents
  have hcommit : Ends (fun w₁ => Sturdy writeCmplCb busy w₁ ∧ Wired w₁ owners ∧
      (w₁.channels (.conn c)).ownerLoop = 0) (Fault.Foreign calm) (w.commit 0 c outcome) := by
    have hsilent : Ends (fun w₁ => Wired w₁ owners ∧ ∃ conn₁, w₁.conns c = some conn₁) Benign
        (w.commit 0 c outcome) := by
      change Ends _ _ (w.commit 0 c (⟨{ conn with state := .disconnected },
        (w.channels (.conn c)).change .disableAllEvents⟩, [.update]))
      rw [World.commit_change c { conn with state := .disconnected } hloop]
      apply ((hwired.retire hc hopen).changeInterest_registered (hwired.live c conn hc hopen)
        .disableAllEvents).mono
      rintro w₁ ⟨hw₁, poller, rfl⟩
      exact ⟨hw₁, _, setConn_self w c _⟩
    refine (((h.commit_change hc .disconnected .disableAllEvents).and hsilent).mono ?_).weaken
      fun _ hf => hf.1
    rintro w₁ ⟨h₁, hw₁, conn₁, hc₁⟩
    exact ⟨h₁, hw₁, (h₁.firm.conns c conn₁ hc₁).1⟩
  rw [World.destroyConnection, endpoint_eq hc]
  change Ends _ _ (w.assertInLoopThread conn.loop 0 >>= _)
  rw [h.home.assert_bind hloop, Endpoint.destroyConnection_eq, if_pos hopen']
  apply hcommit.bind
  rintro w₁ ⟨h₁, hw₁, hown⟩
  -- the callback of the user changes no more than the interests of the channels
  have hcalled := ((((h₁.log (.destroyConnection c)).log
    (.connectionCb c .disconnected)).userCallback hcalm).and
      (((hw₁.log _).log _).userCallback acts)).weaken fun _ hf => hf.1
  apply hcalled.bind
  rintro w₂ ⟨h₂, -, hquiet⟩
  obtain ⟨events, hevents⟩ := hquiet.channels (.conn c)
  change Ends _ _ (w₂.removeChannel 0 conn.loop (.conn c))
  rw [hloop]
  apply h₂.removeChannel
  rw [hevents]
  exact hown

theorem setPhase (h : Sturdy writeCmplCb busy w) {phase : Phase}
    (hrefs : ∀ ref ∈ phase.refs, homeLoop ref = 0) (hinside : phase ≠ .outside) :
    Sturdy writeCmplCb busy (w.setPhase 0 phase) := by
  refine ⟨h.home.setPhase hrefs, h.firm.congr ?_ ?_ (fun _ => rfl) rfl rfl h.firm.pool⟩
  · intro l
    rw [event_setPhase]
  · rw [phase_setPhase_self]
    exact fun hphase => absurd hphase hinside

/-- The loop has taken the functors, or is done with them. -/
theorem setEventPhase (h : Sturdy writeCmplCb busy w) (busy' : Bool) (event : EventLoop Functor)
    (phase : Phase) (hthread : event.threadId = 0)
    (hmutex : event.mutex = if busy' then some 0 else none)
    (hrefs : ∀ ref ∈ phase.refs, homeLoop ref = 0) (hinside : phase ≠ .outside) :
    Sturdy writeCmplCb busy' ((w.setEvent 0 event).setPhase 0 phase) where
  home := (h.home.setEvent hthread).setPhase hrefs
  firm :=
    { mutex := by
        rw [event_setPhase, event_setEvent_self]
        exact hmutex
      others := fun l hl => by
        rw [event_setPhase, World.setEvent, setReactor_of_ne w hl]
        exact h.firm.others l hl
      looping := by
        rw [phase_setPhase_self]
        exact fun hphase => absurd hphase hinside
      owner := h.firm.owner
      conns := h.firm.conns
      server := h.firm.server
      pool := h.firm.pool }

theorem start (h : Sturdy writeCmplCb busy w) : Endures calm writeCmplCb busy (w.start 0) := by
  have hpool : Endures calm writeCmplCb busy (w.startPool 0) := by
    unfold World.startPool
    split
    · exact h
    · rename_i hstarted
      have hset : Home w.setStarted := h.home.setServer rfl
      have hnot : w.setStarted.server.pool.started = false :=
        h.firm.pool (Bool.eq_false_iff.mpr hstarted)
      rw [World.poolStart, check_bind_of _ hnot, hset.assert_bind rfl]
      refine ⟨hset.startThreads, { h.firm with
        conns := h.firm.conns
        pool := fun hfresh => ?_ }⟩
      have hset' : w.setStarted.startThreads.server.started = true := rfl
      exact absurd (hset'.symm.trans hfresh) (by decide)
  apply hpool.bind
  intro w' h'
  split
  · exact h'
  · rw [if_pos (by rw [h'.home.isInLoopThread]; rfl), World.listen, h'.home.assert_bind rfl]
    have hset : Sturdy writeCmplCb busy w'.setListenning :=
      ⟨h'.home.setServer rfl, { h'.firm with conns := h'.firm.conns }⟩
    have hacceptor : Standing 0 .acceptor := trivial
    exact hset.changeInterest hacceptor rfl .enableReading

theorem wire (h : Sturdy writeCmplCb busy w) : Endures calm writeCmplCb busy (w.wire 0) := by
  have htimer : Standing 0 (.timer 0) := Nat.le_refl 0
  have hwakeup : Standing 0 (.wakeup 0) := Nat.le_refl 0
  apply (h.changeInterest htimer rfl .enableReading).bind
  intro w' h'
  exact h'.changeInterest hwakeup rfl .enableReading

theorem enterLoop (h : Sturdy writeCmplCb busy w) (hphase : (w.reactors 0).phase = .outside) :
    Endures calm writeCmplCb busy (w.enterLoop 0) := by
  have hin : (w.reactors 0).event.isInLoopThread 0 = true := by
    rw [h.home.isInLoopThread]
    rfl
  rw [World.enterLoop, EventLoop.enterLoop_idle (h.firm.looping hphase) hin]
  let event : EventLoop Functor := { (w.reactors 0).event with looping := true, quit := false }
  exact h.setEventPhase busy event .polling (h.home.threads 0) h.firm.mutex
    (by simp [Phase.refs]) (by simp)

theorem pollReturn (h : Sturdy writeCmplCb busy w) (reported : List (BitVec 16))
    (numEvents : Int) : Endures calm writeCmplCb busy (w.pollReturn 0 reported numEvents) := by
  refine endures_of (h.home.pollReturn reported numEvents) ?_
  apply (ends_foreign (g := Fault.poller) (Poller.poll_frame _ _ _ _) fun _ => trivial).bind
  rintro ⟨poller, channels, active⟩ ⟨-, hsame, -⟩
  refine h.firm.congr ?_ ?_ ?_ rfl rfl h.firm.pool
  · intro l
    change (((w.setPoller 0 poller).setPhase 0 (.dispatching active)).reactors l).event.mutex = _
    rw [event_setPhase, event_setPoller]
  · change (((w.setPoller 0 poller).setPhase 0 (.dispatching active)).reactors 0).phase = _ → _
    rw [phase_setPhase_self]
    exact fun hphase => absurd hphase (by simp)
  · intro ref
    obtain ⟨r, hr⟩ := hsame ref
    have hnew : channels ref = (w.channels ref).setRevents r := hr
    change (channels ref).ownerLoop = _
    rw [hnew]
    rfl

theorem nextChannel (h : Sturdy writeCmplCb busy w) {ref : ChannelRef}
    {active : List ChannelRef} (hrefs : ∀ ref' ∈ ref :: active, homeLoop ref' = 0) :
    Endures calm writeCmplCb busy (w.nextChannel 0 ref active) := by
  have hderef : Ends (fun _ => True) (Fault.Foreign calm) (w.derefChannel ref) := by
    unfold derefChannel
    split
    · exact ends_endpoint (fun _ => trivial) fun _ _ => trivial
    · exact trivial
  apply hderef.bind
  intro channel _
  exact h.setPhase hrefs (by simp)

/-- `doPendingFunctors` gets `mutex_` and keeps it. -/
theorem doPendingFunctors (h : Sturdy writeCmplCb false w) : ∃ event, w.doPendingFunctors 0 =
      .ok ((w.setEvent 0 event).setPhase 0 (.functors (w.reactors 0).event.pendingFunctors)) ∧
    Sturdy writeCmplCb true
      ((w.setEvent 0 event).setPhase 0 (.functors (w.reactors 0).event.pendingFunctors)) := by
  let event : EventLoop Functor := { (w.reactors 0).event with
    callingPendingFunctors := true, mutex := some 0, pendingFunctors := [] }
  refine ⟨event, ?_, ?_⟩
  · rw [World.doPendingFunctors, EventLoop.beginFunctors_free h.firm.mutex]
    rfl
  · exact h.setEventPhase true event (.functors _) (h.home.threads 0) rfl (by simp [Phase.refs])
      (by simp)

theorem destroy (h : Sturdy writeCmplCb busy w) (c : Nat) :
    Sturdy writeCmplCb busy (w.destroy c) := by
  refine ⟨h.home.destroy c, ?_⟩
  have hconns := h.firm.conns.destroy c
  revert hconns
  unfold World.destroy
  split
  · exact fun _ => h.firm
  · split
    · exact fun _ => h.firm
    · exact fun hconns => { h.firm with conns := hconns }

/-- A callback of a channel, with the calls that the guards allow. -/
theorem runCallback (h : Sturdy writeCmplCb false w) (x : Answers) {ref : ChannelRef}
    (cb : Channel.Callback) (href : homeLoop ref = 0)
    (haccepts : 0 ≤ x.connfd → x.memory = 0 ∧ w.server.nextConnId < intMax) :
    Endures calm writeCmplCb false (w.runCallback 0 x ref cb) := by
  have hcalm : calm → ∀ act ∈ x.acts, act.Calm writeCmplCb false := fun _ act _ => act.calm_idle _
  unfold World.runCallback
  split
  · exact h.acceptorHandleRead _ haccepts hcalm
  · rename_i l
    have hl : l = 0 := href
    rw [h.home.assert_bind hl]
    exact h.userCallback hcalm
  · rename_i l
    obtain rfl : l = 0 := href
    exact h.setEvent (h.home.threads 0) rfl rfl
  · exact h.handleClose _
  · exact ends_endpoint (fun _ => trivial) fun _ _ => h
  · exact h.handleRead _ _ hcalm
  · exact h.handleWrite _ _
  · exact h

end Sturdy

/-- An action leaves `loop` in or out of the iteration over its functors, unless it is
the step between the two. -/
theorem Effect.batching (he : Effect w owners a w')
    (hbegin : (w.reactors 0).phase ≠ .dispatching []) (hend : (w.reactors 0).phase ≠ .functors []) :
    (w'.reactors 0).phase.batching = (w.reactors 0).phase.batching := by
  cases he with
  | stay hs hphase => rw [hphase]
  | move hs hmove =>
      generalize (w.reactors 0).phase = phase at *
      generalize (w'.reactors 0).phase = phase' at *
      cases hmove with
      | enter | poll | next | done => rfl
      | swap => exact absurd rfl hbegin
      | finish => exact absurd rfl hend
  | callback hphase hcalled => rw [hcalled.phase, phase_setPhase_self, hphase]; rfl
  | functor hphase hran =>
      rw [hphase]
      cases hran with
      | quiet hquiet => rw [hquiet.phase, phase_setPhase_self]; rfl
      | destroyed hd => rw [hd.phase, phase_setPhase_self]; rfl
  | freed c => rw [(destroy_untouched w c).reactors]

/-- The calls that the user makes from a functor queue nothing. -/
def CallsCalmly (w : World) : Action → Prop
  | .functor _ x => ∀ act ∈ x.acts, act.Calm w.server.writeCmplCb true
  | _ => True

instance (w : World) : ∀ a, Decidable (w.CallsCalmly a)
  | .functor _ x =>
      inferInstanceAs (Decidable (∀ act ∈ x.acts, act.Calm w.server.writeCmplCb true))
  | .start | .wire _ | .enterLoop _ | .pollReturn _ _ _ | .nextChannel _ | .callback _ _
  | .endChannel _ | .doPendingFunctors _ | .endFunctors _ | .send _ _ _ | .shutdown _ _
  | .destroy _ => isTrue trivial

/-- The kernel answers as it should, a new channel finds its loop in `owner_loop_`, the
connections can be counted, and no read comes after the hang-up of its own connection. -/
structure Mild (w : World) (a : Action) : Prop where
  serviced : Serviced w a
  early : w.lateRead a = false
  accepts : EchoServer.Accepts w a

instance (w : World) (a : Action) : Decidable (Mild w a) :=
  decidable_of_iff (Serviced w a ∧ w.lateRead a = false ∧ EchoServer.Accepts w a)
    ⟨fun h => ⟨h.1, h.2.1, h.2.2⟩, fun h => ⟨h.serviced, h.early, h.accepts⟩⟩

/-- What is asked of the user on top of that. -/
def Gentle (w : World) (a : Action) : Prop := Mild w a ∧ w.CallsCalmly a

instance (w : World) (a : Action) : Decidable (Gentle w a) :=
  inferInstanceAs (Decidable (Mild w a ∧ w.CallsCalmly a))

theorem Sturdy.functor (h : Sturdy writeCmplCb true w) (hinv : Inv w owners) {f : Functor}
    {rest : List Functor} (x : Answers) (hphase : (w.reactors 0).phase = .functors (f :: rest))
    (hcalm : calm → ∀ act ∈ x.acts, act.Calm writeCmplCb true) :
    Endures calm writeCmplCb true ((w.setPhase 0 (.functors rest)).runFunctor 0 x f) := by
  have hset : Sturdy writeCmplCb true (w.setPhase 0 (.functors rest)) :=
    h.setPhase (by simp [Phase.refs]) (by simp)
  have hmem : f ∈ w.waiting 0 := by
    rw [waiting, hphase]
    simp [Phase.rest]
  rcases hinv.owned.functors f hmem with ⟨c, rfl⟩ | ⟨c, rfl⟩
  · exact hset.userCallback hcalm
  · have hdying : c ∈ w.dying := List.mem_filterMap.mpr ⟨_, hmem, rfl⟩
    obtain ⟨howner, -⟩ := hinv.owned.doomed c hdying
    obtain ⟨conn, hc, hopen⟩ := hinv.owned.conn_of_mem howner
    have hwired : Wired (w.setPhase 0 (.functors rest)) owners :=
      hinv.wired.setPhase (by simp [Phase.refs])
    exact hset.destroyConnection hwired hc hopen hcalm

/-- The loop and the server's own objects after an action. -/
theorem Sturdy.attempt
    (h : Sturdy w.server.writeCmplCb (w.reactors 0).phase.batching w) (hinv : Inv w owners)
    (hmild : Mild w a) :
    Ends (fun w' => Sturdy w.server.writeCmplCb (w'.reactors 0).phase.batching w')
      (Fault.Foreign (w.CallsCalmly a)) (w.attempt a) := by
  have heffect := hinv.attempt hmild.serviced.1.1 hmild.serviced.1.2
  -- every action but the two that begin and end a batch
  have hsame {x : Except Fault World} (hx : w.attempt a = x)
      (hends : Endures (w.CallsCalmly a) w.server.writeCmplCb (w.reactors 0).phase.batching x)
      (hbegin : (w.reactors 0).phase ≠ .dispatching [])
      (hend : (w.reactors 0).phase ≠ .functors []) :
      Ends (fun w' => Sturdy w.server.writeCmplCb (w'.reactors 0).phase.batching w')
        (Fault.Foreign (w.CallsCalmly a)) x := by
    subst hx
    refine ((hends.and heffect).mono ?_).weaken fun _ hf => hf.1
    rintro w' ⟨hw', -, he⟩
    rw [he.batching hbegin hend]
    exact hw'
  have hattempted := w.attempted a
  have hrefs := h.home.refs
  generalize hx : w.attempt a = x at hattempted heffect hsame ⊢
  cases hattempted with
  | stay => exact h
  | start hphase => exact hsame rfl h.start (by simp [hphase]) (by simp [hphase])
  | wire l hl hphase =>
      obtain rfl := h.home.eq_zero_of_hasLoop hl
      exact hsame rfl h.wire (by simp [hphase]) (by simp [hphase])
  | enterLoop l hl hphase =>
      obtain rfl := h.home.eq_zero_of_hasLoop hl
      exact hsame rfl (h.enterLoop hphase) (by simp [hphase]) (by simp [hphase])
  | pollReturn l reported numEvents hphase =>
      obtain rfl := h.home.eq_zero_of_phase hphase (by simp)
      exact hsame rfl (h.pollReturn reported numEvents) (by simp [hphase]) (by simp [hphase])
  | nextChannel l ref active hphase =>
      obtain rfl := h.home.eq_zero_of_phase hphase (by simp)
      rw [hphase] at hrefs
      exact hsame rfl (h.nextChannel hrefs) (by simp [hphase]) (by simp [hphase])
  | callback l x ref cb callbacks active hphase =>
      obtain rfl := h.home.eq_zero_of_phase hphase (by simp)
      rw [hphase] at hrefs
      refine hsame rfl ?_ (by simp [hphase]) (by simp [hphase])
      rw [hphase] at h ⊢
      have hset : Sturdy _ _ (w.setPhase 0 (.handling ref callbacks active)) :=
        h.setPhase hrefs (by simp)
      exact hset.runCallback x cb (hrefs ref (List.mem_cons_self ..)) hmild.accepts
  | endChannel l ref active hphase =>
      obtain rfl := h.home.eq_zero_of_phase hphase (by simp)
      rw [hphase] at hrefs
      refine hsame rfl ?_ (by simp [hphase]) (by simp [hphase])
      exact h.setPhase (fun ref' href' => hrefs ref' (List.mem_cons_of_mem _ href')) (by simp)
  | doPendingFunctors l hphase =>
      obtain rfl := h.home.eq_zero_of_phase hphase (by simp)
      rw [hphase] at h
      obtain ⟨event, hdone, hsturdy⟩ := h.doPendingFunctors
      rw [hdone]
      change Sturdy _ (((w.setEvent 0 event).setPhase 0 _).reactors 0).phase.batching _
      rw [phase_setPhase_self]
      exact hsturdy
  | functor l x f rest hphase =>
      obtain rfl := h.home.eq_zero_of_phase hphase (by simp)
      refine hsame rfl ?_ (by simp [hphase]) (by simp [hphase])
      rw [hphase] at h ⊢
      exact h.functor hinv x hphase id
  | endFunctors l hphase =>
      obtain rfl := h.home.eq_zero_of_phase hphase (by simp)
      have hdone : Sturdy w.server.writeCmplCb false
          ((w.setEvent 0 (w.reactors 0).event.endFunctors).setPhase 0 .polling) :=
        h.setEventPhase false _ .polling (h.home.threads 0) rfl (by simp [Phase.refs]) (by simp)
      change Sturdy _ (((w.setEvent 0 _).setPhase 0 .polling).reactors 0).phase.batching _
      rw [phase_setPhase_self]
      exact hdone
  | send tid c message => exact hmild.serviced.1.2.elim
  | shutdown tid c => exact hmild.serviced.1.2.elim
  | destroy c =>
      change Sturdy _ ((w.destroy c).reactors 0).phase.batching _
      rw [(destroy_untouched w c).reactors]
      exact h.destroy c

/-- A callback that closes its connection finds it listed. -/
theorem Life.not_uncounted (hlife : Life w) (hinv : Inv w owners) (hearly : w.lateRead a = false)
    {f : Fault} (hf : StepFault w a f) : Benign f := by
  rcases hf with hf | ⟨rfl, x, c, conn, cb, callbacks, active, rfl, hphase, hcb, hc, hunlisted⟩
  · exact hf
  · have hdead := hlife.not_dying hphase hcb hearly
    have hrefs := hinv.owned.refs
    rw [hphase] at hrefs
    obtain ⟨name, hname⟩ := hinv.owned.listed (hrefs _ (List.mem_cons_self ..)) hdead
    obtain ⟨-, conn', hc', rfl⟩ := hinv.owned.named name c hname
    obtain rfl := Option.some.inj (hc.symm.trans hc')
    exact absurd (Std.ExtTreeMap.mem_iff_isSome_getElem?.mpr (by rw [hname]; rfl)) hunlisted

/-- What every gentle action keeps. -/
structure Enduring (w : World) : Prop where
  inv : ∃ owners, Inv w owners
  life : Life w
  attended : Attended w
  sturdy : Sturdy w.server.writeCmplCb (w.reactors 0).phase.batching w

/-- Together the exclusions leave no fault but that of a call that is not `calm`. -/
theorem relock_of_faults {f : Fault} (hbenign : Benign f) (hio : f.NoIo)
    (hforeign : f.Foreign calm) (habort : NoAbort f) : ¬ calm ∧ f = .loop .relock := by
  cases f with
  | loop f =>
      cases f with
      | notInLoopThread => exact absurd rfl habort
      | alreadyLooping => exact hforeign.elim
      | relock => exact ⟨hforeign, rfl⟩
      | held => exact hforeign.elim
  | poller f => exact hbenign.elim
  | connection f => rcases hio with rfl | rfl | rfl <;> exact hbenign.elim
  | updateChannelOwner => exact hforeign.elim
  | removeChannelOwner => exact hforeign.elim
  | removeConnectionCount => exact hbenign.elim
  | nextConnIdOverflow => exact hforeign.elim
  | poolStarted => exact hforeign.elim
  | dangling => exact hbenign.elim

/-- The step lemma. -/
theorem Enduring.attempt (h : Enduring w) (hmild : Mild w a) :
    Ends Enduring (fun f => ¬ w.CallsCalmly a ∧ f = .loop .relock) (w.attempt a) := by
  obtain ⟨owners, hinv⟩ := h.inv
  have heffect := hinv.attempt hmild.serviced.1.1 hmild.serviced.1.2
  have hattended := h.attended.attempt hinv hmild.serviced
  have hsturdy := h.sturdy.attempt hinv hmild
  have hhome := hinv.wired.home.attempt a
  apply ends_of
  · intro w' hx
    obtain ⟨hinv', he⟩ := heffect.of_eq_ok hx
    have hsturdy' := hsturdy.of_eq_ok hx
    refine ⟨hinv', h.life.effect hinv.owned hmild.early he, hattended.of_eq_ok hx, ?_⟩
    rw [hsturdy'.firm.server]
    exact hsturdy'
  · intro f hx
    exact relock_of_faults (h.life.not_uncounted hinv hmild.early (heffect.of_eq_error hx))
      (hattended.of_eq_error hx) (hsturdy.of_eq_error hx) (hhome.of_eq_error hx)

/-- No thread waits, so a step is an attempt. -/
theorem Enduring.step (h : Enduring w) (hmild : Mild w a) :
    Ends Enduring (fun f => ¬ w.CallsCalmly a ∧ f = .loop .relock) (w.step a) := by
  have hends := h.attempt hmild
  unfold World.step
  split
  · rename_i hheld
    cases (hends.of_eq_error hheld).2
  · exact hends

theorem Gentle.ends_ok {x : Except Fault World} (h : Gentle w a)
    (hends : Ends Enduring (fun f => ¬ w.CallsCalmly a ∧ f = .loop .relock) x) :
    ∃ w', x = .ok w' ∧ Enduring w' := by
  cases x with
  | ok w' => exact ⟨w', rfl, hends⟩
  | error f => exact absurd h.2 hends.1

/-- A server that has been constructed, whose channels find their loop in `owner_loop_`. -/
def Provided (w : World) : Prop :=
  Initial 0 w ∧ ∀ ref, Standing 0 ref → (w.channels ref).ownerLoop = 0

theorem Provided.enduring (h : Provided w) : Enduring w := by
  obtain ⟨hinitial, howner⟩ := h
  obtain ⟨name, writeCmplCb, hserver⟩ := hinitial.server
  obtain ⟨flag, counter, hbase⟩ := hinitial.reactors 0
  refine ⟨⟨[], Inv.init hinitial⟩, life_init hinitial, each_of_initial hinitial,
    home_init hinitial, ?_⟩
  constructor
  · rw [hbase]
    rfl
  · intro l _
    obtain ⟨flag', counter', hl⟩ := hinitial.reactors l
    rw [hl]
    rfl
  · rw [hbase]
    exact fun _ => rfl
  · exact howner
  · exact each_of_initial hinitial
  · rfl
  · rw [hserver]
    exact fun _ => rfl

/-- In every gentle run of a server without pool threads, whatever its user calls, no
assert fails, no pointer dangles and the loop never waits for a mutex that it holds. -/
theorem no_user_stops_the_server {s : Except Fault World}
    (h : (faulting Provided step).Reach (whileRunning Gentle) s) :
    ∃ w, s = .ok w ∧ ∀ a, Gentle w a → ∃ w', w.attempt a = .ok w' := by
  obtain ⟨w, rfl, hw⟩ := faultless (fun _ hw => hw.enduring)
    (fun _ _ hw hgentle => hgentle.ends_ok (hw.step hgentle.1)) h
  refine ⟨w, rfl, fun a hgentle => ?_⟩
  obtain ⟨w', hw', -⟩ := hgentle.ends_ok (hw.attempt hgentle.1)
  exact ⟨w', hw'⟩

/-- Whatever the user calls, a run can only end with the loop that waits for a mutex that
it holds, and only a functor whose callback sends brings that about. -/
theorem only_relock_stops_the_server {s : Except Fault World}
    (h : (faulting Provided step).Reach (whileRunning Mild) s) :
    s = .error (.loop .relock) ∨ ∃ w, s = .ok w ∧ ∀ a, Mild w a → (∃ w', w.attempt a = .ok w') ∨
      ¬ w.CallsCalmly a ∧ w.attempt a = .error (.loop .relock) := by
  have hends : Ends Enduring (fun f => f = .loop .relock) s := ends_of_reach
    (fun _ hw => hw.enduring) (fun _ _ hw hmild => (hw.step hmild).weaken fun _ hf => hf.2) h
  cases s with
  | error f =>
      obtain rfl := hends
      exact Or.inl rfl
  | ok w =>
      have hw : Enduring w := hends
      refine Or.inr ⟨w, rfl, fun a hmild => ?_⟩
      have hattempt := hw.attempt hmild
      cases hx : w.attempt a with
      | ok w' => exact Or.inl ⟨w', rfl⟩
      | error f =>
          obtain ⟨hloud, rfl⟩ := hattempt.of_eq_error hx
          exact Or.inr ⟨hloud, rfl⟩

section Example

theorem provided_fresh : Provided (fresh 0) :=
  ⟨initial_fresh 0, EchoServer.constructed_fresh.owner⟩

/-- After the user of the example has sent, the loop can go on to the next channel. -/
theorem sending_user_keeps_the_server : ∃ w w' : World,
    (w.conns 0).map (·.outputBuffer.content) = some [8, 9] ∧
      w.attempt (.endChannel 0) = .ok w' := by
  obtain ⟨s, hs, hp⟩ := Machine.exists_reach (M := faulting Provided step) (whileRunning Gentle)
    ⟨fresh 0, rfl, provided_fresh⟩ sendingRun
    (fun s => match s with
      | .ok w => decide ((w.conns 0).map (·.outputBuffer.content) = some [8, 9])
      | .error _ => false) (by decide +kernel)
  obtain ⟨w, rfl, hendures⟩ := no_user_stops_the_server hs
  have hmild : Mild w (.endChannel 0) := ⟨⟨⟨trivial, trivial⟩, trivial⟩, rfl, trivial⟩
  obtain ⟨w', hw'⟩ := hendures (.endChannel 0) ⟨hmild, trivial⟩
  exact ⟨w, w', of_decide_eq_true hp, hw'⟩

/-- A server whose user has set a write-complete callback. -/
def freshNoting : World :=
  { fresh 0 with server := { (fresh 0).server with writeCmplCb := true } }

theorem provided_freshNoting : Provided freshNoting :=
  ⟨{ initial_fresh 0 with server := ⟨"echo", true, rfl⟩ }, provided_fresh.2⟩

/-- A write that is complete at once, and the functor that says so. -/
def notingRun : List Action :=
  [.start, .wire 0, .enterLoop 0, .pollReturn 0 [1, 0, 0] 1, .nextChannel 0,
    .callback 0 ⟨100, 0, .received [], .error, [.send 0 [7] (.wrote 1)]⟩, .endChannel 0,
    .doPendingFunctors 0]

/-- The callback of the write sends in turn, and that write is complete as well. -/
def notingAnswers : Answers := ⟨-1, 0, .received [], .error, [.send 0 [8] (.wrote 1)]⟩

theorem noting_user_stops_the_server :
    ∃ w : World, w.attempt (.functor 0 notingAnswers) = .error (.loop .relock) := by
  obtain ⟨s, hs, hp⟩ := Machine.exists_reach (M := faulting Provided step) (whileRunning Mild)
    ⟨freshNoting, rfl, provided_freshNoting⟩ notingRun
    (fun s => match s with
      | .ok w => decide (Mild w (.functor 0 notingAnswers)) &&
          (w.attempt (.functor 0 notingAnswers)).toOption.isNone
      | .error _ => false) (by decide +kernel)
  rcases only_relock_stops_the_server hs with rfl | ⟨w, rfl, hall⟩
  · cases hp
  · obtain ⟨hmild, hstops⟩ := Bool.and_eq_true_iff.mp hp
    rcases hall _ (of_decide_eq_true hmild) with ⟨w', hw'⟩ | ⟨-, hrelock⟩
    · rw [hw'] at hstops
      cases hstops
    · exact ⟨w, hrelock⟩

end Example

end World

end Yatwb
