import Yatwb.Echo.Model
import Yatwb.Poller.Watching
import Yatwb.Server.Start

/-!
# What the calls of a server leave, exactly

When every channel finds its loop in `owner_loop_` and `mutex_` is free, the
functions below end without a fault, and the world they leave can be written
down: what a connection asks of its loop goes to its own slot, and the slots
that carry a descriptor keep it.
-/

namespace Yatwb

open Foundation

namespace World

/-- `poll(2)` gets the descriptor of the channel. -/
def Watched (w : World) (ref : ChannelRef) : Prop :=
  (w.reactors 0).poller.Watched w.channels ref

variable {w w' : World} {owners : List ChannelRef}

/-- The interest of a registered channel has changed, in the channel and in its slot. -/
structure Rewired (w : World) (owners : List ChannelRef) (ref : ChannelRef)
    (i : Channel.Interest) (w' : World) : Prop where
  wired : Wired w' owners
  eq : ∃ poller, w' = (w.setChannel ref ((w.channels ref).change i)).setPoller 0 poller
  others : ∀ ref' ∈ owners, ref' ≠ ref → w.Watched ref' → w'.Watched ref'
  own : i.apply (w.channels ref).events ≠ Channel.noneEvent → w.Watched ref → w'.Watched ref

theorem Home.updateChannel_eq (h : Home w) {ref : ChannelRef} (href : homeLoop ref = 0)
    (howner : (w.channels ref).ownerLoop = 0) {poller : Poller ChannelRef}
    {channels : ChannelRef → Channel}
    (hupdate : (w.reactors 0).poller.updateChannel w.channels ref = .ok (poller, channels)) :
    w.updateChannel 0 ref = .ok { w.setPoller 0 poller with channels := channels } :=
  World.updateChannel_eq (h.threads 0) ((h.channels ref).trans href) howner hupdate

theorem Wired.changeInterest_eq (h : Wired w owners) {ref : ChannelRef} (href : ref ∈ owners)
    (howner : (w.channels ref).ownerLoop = 0) (i : Channel.Interest) :
    ∃ w', w.changeInterest 0 ref i = .ok w' ∧ Rewired w owners ref i w' := by
  obtain ⟨poller, hupdate, hothers, hown⟩ := h.rep.change_existing href (h.requested ref) i
  have hset : Home (w.setChannel ref ((w.channels ref).change i)) := h.home.setChannel rfl
  have hchange : w.changeInterest 0 ref i =
      .ok ((w.setChannel ref ((w.channels ref).change i)).setPoller 0 poller) :=
    hset.updateChannel_eq (h.homeLoop_eq href) (by rw [setChannel_self]; exact howner) hupdate
  refine ⟨_, hchange, ((h.changeInterest_registered href i).of_eq_ok hchange).1, ⟨poller, rfl⟩,
    ?_, ?_⟩
  · intro ref' hmem hne hwatched
    rw [Watched, poller_setPoller_self]
    exact hothers ref' hmem hne hwatched
  · intro hsome hwatched
    rw [Watched, poller_setPoller_self]
    exact hown hsome hwatched

/-- The endpoint of the connection `c` is `e`, its slot is up to date, and the
rest of the world is the same. -/
structure Committed (w : World) (owners : List ChannelRef) (c : Nat) (e : Endpoint)
    (w' : World) : Prop where
  wired : Wired w' owners
  eq : ∃ poller, w' = (w.setEndpoint c e).setPoller 0 poller
  others : ∀ ref ∈ owners, ref ≠ .conn c → w.Watched ref → w'.Watched ref
  own : e.channel.events ≠ Channel.noneEvent → w.Watched (.conn c) → w'.Watched (.conn c)

theorem setPoller_same (w : World) : w.setPoller 0 (w.reactors 0).poller = w := by
  have hsame : Function.update w.reactors 0 (w.reactors 0) = w.reactors :=
    Function.update_eq_self ..
  simp only [setPoller, setReactor, hsame]

/-- Requests that reach neither the poller nor the queue of functors. -/
theorem requests_idle {tid : ThreadId} {c : Nat} {l : LoopId} {asked : List Request}
    (hupdate : .update ∉ asked) (hcomplete : .queueWriteComplete ∉ asked) :
    w.requests tid c l asked = .ok w := by
  induction asked with
  | nil => rfl
  | cons q rest ih =>
      simp only [List.mem_cons, not_or] at hupdate hcomplete
      have hq : w.request tid c l q = .ok w := by
        cases q with
        | write taken => rfl
        | update => exact absurd rfl hupdate.1
        | queueWriteComplete => exact absurd rfl hcomplete.1
        | shutdownWrite => rfl
      rw [requests, hq]
      exact ih hupdate.2 hcomplete.2

/-- A method of a connection that queues no callback is carried out without a fault. -/
theorem Wired.commit_eq (h : Wired w owners) {c : Nat} {conn : TcpConnection}
    (hc : w.conns c = some conn) (hopen : conn.Open)
    (howner : (w.channels (.conn c)).ownerLoop = 0) {outcome : Endpoint × List Request}
    (hw : Endpoint.Writes ⟨conn, w.channels (.conn c)⟩ outcome)
    (hcomplete : .queueWriteComplete ∉ outcome.2) :
    ∃ w', w.commit 0 c outcome = .ok w' ∧ Committed w owners c outcome.1 w' := by
  obtain ⟨⟨conn', channel'⟩, asked⟩ := outcome
  obtain ⟨⟨b, hb⟩, hchannel⟩ := hw
  have hb : conn' = { conn with outputBuffer := b } := hb
  have hages : conn.Ages conn' := by
    rw [hb]
    exact ⟨rfl, Or.inl rfl⟩
  have hsame : conn'.loop = conn.loop := by rw [hb]
  have hset := h.setConn hc hages hsame
  rw [commit_of_loop (hsame.trans (h.home.conns c conn hc))]
  rcases hchannel with ⟨rfl, hasked⟩ | ⟨i, post, rfl, ⟨pre, rfl, hpre⟩, hpost⟩
  · rw [setEndpoint_same, requests_idle hasked hcomplete]
    refine ⟨_, rfl, hset, ⟨(w.reactors 0).poller, ?_⟩, fun _ _ _ hwatched => hwatched,
      fun _ hwatched => hwatched⟩
    rw [setEndpoint_same]
    exact (setPoller_same (w.setConn c (some conn'))).symm
  · rw [requests_updates hpre]
    have hmem : .conn c ∈ owners := h.live c conn hc hopen
    obtain ⟨w', hw', hrewired⟩ := hset.changeInterest_eq hmem howner i
    have hpost' : .queueWriteComplete ∉ post := by
      intro hmem'
      exact hcomplete (List.mem_append_right _ (List.mem_cons_of_mem _ hmem'))
    refine ⟨w', ?_, hrewired.wired, hrewired.eq, hrewired.others, hrewired.own⟩
    rw [hw']
    exact requests_idle hpost hpost'

/-- `handleClose` up to `close_cb_`, and `destroyConnection` up to `connection_cb_`. -/
theorem Wired.commit_disable {c : Nat} {conn : TcpConnection}
    (h : Wired (w.setConn c (some conn)) owners) (hmem : .conn c ∈ owners)
    (howner : (w.channels (.conn c)).ownerLoop = 0) (hloop : conn.loop = 0) :
    ∃ w', w.commit 0 c (⟨conn, (w.channels (.conn c)).change .disableAllEvents⟩, [.update]) =
        .ok w' ∧
      Committed w owners c ⟨conn, (w.channels (.conn c)).change .disableAllEvents⟩ w' := by
  obtain ⟨w', hw', hrewired⟩ := h.changeInterest_eq hmem howner .disableAllEvents
  refine ⟨w', ?_, hrewired.wired, hrewired.eq, hrewired.others, hrewired.own⟩
  rw [commit_change c conn hloop]
  exact hw'

theorem setEndpoint_setConn (w : World) (c : Nat) (conn : Option TcpConnection) (e : Endpoint) :
    (w.setConn c conn).setEndpoint c e = w.setEndpoint c e := by
  simp only [setEndpoint, setConn, Function.update_idem]

/-- A method of a connection whose fields were changed before. -/
theorem Committed.of_setConn {c : Nat} {conn : Option TcpConnection} {e : Endpoint}
    (h : Committed (w.setConn c conn) owners c e w') : Committed w owners c e w' := by
  refine ⟨h.wired, ?_, h.others, h.own⟩
  obtain ⟨poller, rfl⟩ := h.eq
  exact ⟨poller, by rw [setEndpoint_setConn]⟩

/-- The message callback of an echo server sends what it retrieves. -/
theorem Wired.echo_eq (h : Wired w owners) {c : Nat} {conn : TcpConnection}
    (hc : w.conns c = some conn) (hconnected : conn.state = .connected)
    (howner : (w.channels (.conn c)).ownerLoop = 0) {input : Buffer} {text : List Byte}
    (htext : conn.inputBuffer.retrieveAsString = .ok (input, text)) {r : WriteResult}
    {outcome : Endpoint × List Request}
    (hsend : Endpoint.sendInLoop ⟨{ conn with inputBuffer := input }, w.channels (.conn c)⟩ text r =
      .ok outcome) (hcomplete : .queueWriteComplete ∉ outcome.2) :
    ∃ w', w.userCallback 0 (EchoServer.onMessage c text r) = .ok w' ∧
      Committed w owners c outcome.1 w' := by
  have hretrieve : w.retrieveAsString c =
      .ok (w.setConn c (some { conn with inputBuffer := input })) := by
    simp only [World.retrieveAsString, hc, htext]
    rfl
  have hages : conn.Ages { conn with inputBuffer := input } := ⟨rfl, Or.inl rfl⟩
  have hset := h.setConn hc hages rfl
  have hc' := setConn_self w c (some { conn with inputBuffer := input })
  have hloop : conn.loop = 0 := h.home.conns c conn hc
  have hopen : TcpConnection.Open { conn with inputBuffer := input } := Or.inl hconnected
  have hwrites := (Endpoint.sendInLoop_writes _ text r).of_eq_ok hsend
  obtain ⟨w', hw', hcommitted⟩ := hset.commit_eq hc' hopen howner hwrites hcomplete
  refine ⟨w', ?_, hcommitted.of_setConn⟩
  have hin : ((w.setConn c (some { conn with inputBuffer := input })).reactors
      conn.loop).event.isInLoopThread 0 = true := by
    rw [hset.home.isInLoopThread, hloop]
    rfl
  have hrun : (w.setConn c (some { conn with inputBuffer := input })).send 0 c text r = .ok w' := by
    rw [World.send, hc']
    change (if conn.state = .connected then if _ = true then _ else _ else _) = _
    rw [if_pos hconnected, if_pos hin]
    rw [World.sendInLoop, endpoint_eq hc']
    change World.assertInLoopThread _ conn.loop 0 >>= _ = _
    rw [hset.home.assert_bind hloop]
    change ((Endpoint.sendInLoop ⟨{ conn with inputBuffer := input }, w.channels (.conn c)⟩ text
      r).mapError _ >>= _) = _
    rw [hsend]
    exact hw'
  simp only [EchoServer.onMessage, World.userCallback, World.userAct, hretrieve]
  change (World.send _ 0 c text r >>= fun w => .ok w) = _
  rw [hrun]
  rfl

/-- A read that hands its bytes to the message callback. -/
theorem Wired.handleRead_message (h : Wired w owners) {c : Nat} {conn : TcpConnection}
    (hc : w.conns c = some conn) (hconnected : conn.state = .connected)
    (howner : (w.channels (.conn c)).ownerLoop = 0) {r : Buffer.ReadResult} {b : Buffer}
    (hread : Endpoint.handleRead ⟨conn, w.channels (.conn c)⟩ r =
      .ok (⟨{ conn with inputBuffer := b }, w.channels (.conn c)⟩, .message))
    {input : Buffer} {text : List Byte} (htext : b.retrieveAsString = .ok (input, text))
    {x : WriteResult} {outcome : Endpoint × List Request}
    (hsend : Endpoint.sendInLoop ⟨{ conn with inputBuffer := input }, w.channels (.conn c)⟩ text x =
      .ok outcome) (hcomplete : .queueWriteComplete ∉ outcome.2) :
    ∃ w', w.handleRead 0 c r (EchoServer.onMessage c text x) = .ok w' ∧
      Committed (w.log (.messageCb c)) owners c outcome.1 w' := by
  have hages : conn.Ages { conn with inputBuffer := b } := ⟨rfl, Or.inl rfl⟩
  have hset := (h.setConn hc hages rfl).log (.messageCb c)
  have hc' := setConn_self w c (some { conn with inputBuffer := b })
  obtain ⟨w', hw', hcommitted⟩ := hset.echo_eq hc' hconnected howner htext hsend hcomplete
  refine ⟨w', ?_, Committed.of_setConn hcommitted⟩
  rw [World.handleRead, endpoint_eq hc]
  change (Except.mapError Fault.connection _ >>= _) = _
  rw [hread]
  change ((w.setEndpoint c ⟨{ conn with inputBuffer := b }, w.channels (.conn c)⟩).log
    (.messageCb c)).userCallback 0 _ = _
  rw [setEndpoint_same]
  exact hw'

/-- The connection `c` has been closed: its channel has no interest, its entry is
erased, and the functor that destroys it is queued. -/
structure HungUp (w : World) (owners : List ChannelRef) (c : Nat) (conn : TcpConnection)
    (w' : World) : Prop where
  committed : ∃ w₁ event,
    Committed w owners c ⟨conn, (w.channels (.conn c)).change .disableAllEvents⟩ w₁ ∧
    w' = ((((w₁.log (.handleClose c)).eraseConnection conn.name).log (.removeConnection c)).setEvent
      0 event) ∧
    event.mutex = none ∧ event.looping = (w.reactors 0).event.looping ∧
    event.pendingFunctors = (w.reactors 0).event.pendingFunctors ++ [.destroyConnection c]
  closed : ∃ w₁, Quiet w w₁ ∧ Closed w₁ c conn.name w'

theorem Committed.event {c : Nat} {e : Endpoint} (h : Committed w owners c e w') :
    (w'.reactors 0).event = (w.reactors 0).event := by
  obtain ⟨poller, rfl⟩ := h.eq
  exact event_setPoller _ 0 0 poller

theorem Committed.phase {c : Nat} {e : Endpoint} (h : Committed w owners c e w') :
    (w'.reactors 0).phase = (w.reactors 0).phase := by
  obtain ⟨poller, rfl⟩ := h.eq
  exact phase_setPoller _ 0 0 poller

theorem Committed.conn {c : Nat} {e : Endpoint} (h : Committed w owners c e w') :
    w'.conns c = some e.conn := by
  obtain ⟨poller, rfl⟩ := h.eq
  exact setConn_self ..

theorem Committed.server {c : Nat} {e : Endpoint} (h : Committed w owners c e w') :
    w'.server = w.server := by
  obtain ⟨poller, rfl⟩ := h.eq
  rfl

theorem Committed.nextObj {c : Nat} {e : Endpoint} (h : Committed w owners c e w') :
    w'.nextObj = w.nextObj := by
  obtain ⟨poller, rfl⟩ := h.eq
  rfl

theorem Committed.channel {c : Nat} {e : Endpoint} (h : Committed w owners c e w') :
    w'.channels (.conn c) = e.channel := by
  obtain ⟨poller, rfl⟩ := h.eq
  exact setChannel_self ..

theorem Committed.listed_iff {c : Nat} {e : Endpoint} (h : Committed w owners c e w') (c' : Nat) :
    w'.Listed c' ↔ w.Listed c' := by
  rw [Listed, Listed, h.server]

/-- Closing a listed connection. -/
theorem Wired.handleClose_eq (h : Wired w owners) {c : Nat} {conn : TcpConnection}
    (hc : w.conns c = some conn) (hopen : conn.Open)
    (howner : (w.channels (.conn c)).ownerLoop = 0) (hlisted : conn.name ∈ w.server.connections)
    (hmutex : (w.reactors 0).event.mutex = none) :
    ∃ w', w.handleClose 0 c = .ok w' ∧ HungUp w owners c conn w' := by
  have hloop : conn.loop = 0 := h.home.conns c conn hc
  have hclose : Endpoint.handleClose ⟨conn, w.channels (.conn c)⟩ = .ok
      (⟨conn, (w.channels (.conn c)).change .disableAllEvents⟩, [.update]) := by
    have hopen' : Endpoint.Open ⟨conn, w.channels (.conn c)⟩ := hopen
    rw [Endpoint.handleClose_eq, if_pos hopen']
    rfl
  have hsame : Wired (w.setConn c (some conn)) owners := by
    rw [setConn_same hc]
    exact h
  obtain ⟨w₁, hw₁, hcommitted⟩ := hsame.commit_disable (h.live c conn hc hopen) howner hloop
  obtain ⟨event, hevent, hfree, hlooping, -, hpending⟩ :=
    EventLoop.queueInLoop_free (hcommitted.event ▸ hmutex) 0 (.destroyConnection c)
  have hrun : w.handleClose 0 c = .ok ((((w₁.log (.handleClose c)).eraseConnection
      conn.name).log (.removeConnection c)).setEvent 0 event) := by
    have hc₁ : (w₁.log (.handleClose c)).conns c = some conn := hcommitted.conn
    have hlisted₁ : w₁.server.connections.contains conn.name = true := by
      rw [hcommitted.server]
      exact hlisted
    rw [World.handleClose, endpoint_eq hc]
    change w.assertInLoopThread conn.loop 0 >>= _ = _
    rw [h.home.assert_bind hloop, hclose]
    change w.commit 0 c _ >>= _ = _
    rw [hw₁]
    change (w₁.log (.handleClose c)).removeConnection 0 c = _
    rw [World.removeConnection, (hcommitted.wired.home.log _).assert_bind rfl, endpoint_eq hc₁]
    change check (w₁.server.connections.contains conn.name = true) _ >>= _ = _
    rw [check_bind_of _ hlisted₁, World.queueInLoop]
    change (((w₁.reactors 0).event.queueInLoop 0 (.destroyConnection c)).mapError _ >>= _) = _
    rw [hevent]
    rfl
  refine ⟨_, hrun, ⟨w₁, event, hcommitted, rfl, hfree, ?_, ?_⟩,
    ((h.handleClose hc hopen).of_eq_ok hrun).2⟩
  · rw [hlooping, hcommitted.event]
  · rw [hpending, hcommitted.event]

/-- The connection `c` has been destroyed: its channel has left the poller. -/
structure Removed (w : World) (owners : List ChannelRef) (c : Nat) (conn : TcpConnection)
    (w' : World) : Prop where
  eq : ∃ w₁ poller channels,
    Committed w owners c ⟨{ conn with state := .disconnected },
      (w.channels (.conn c)).change .disableAllEvents⟩ w₁ ∧
    w' = { (((w₁.log (.destroyConnection c)).log (.connectionCb c .disconnected)).log
      (.removeChannel (.conn c) (w₁.reactors 0).phase.iterating)).setPoller 0 poller with
        channels := channels } ∧
    ∀ ref, ∃ m, channels ref = (w₁.channels ref).setIndex m
  watched : ∀ ref ∈ owners, ref ≠ .conn c → w.Watched ref → w'.Watched ref

/-- Destroying a connection whose user makes no call. -/
theorem Wired.destroyConnection_eq (h : Wired w owners) {c : Nat} {conn : TcpConnection}
    (hc : w.conns c = some conn) (hopen : conn.Open)
    (howner : (w.channels (.conn c)).ownerLoop = 0) :
    ∃ w', w.destroyConnection 0 c EchoServer.onConnection = .ok w' ∧
      Removed w owners c conn w' := by
  have hloop : conn.loop = 0 := h.home.conns c conn hc
  have hmem : .conn c ∈ owners := h.live c conn hc hopen
  have hdestroy : Endpoint.destroyConnection ⟨conn, w.channels (.conn c)⟩ = .ok
      (⟨{ conn with state := .disconnected }, (w.channels (.conn c)).change .disableAllEvents⟩,
        [.update]) := by
    have hopen' : Endpoint.Open ⟨conn, w.channels (.conn c)⟩ := hopen
    rw [Endpoint.destroyConnection_eq, if_pos hopen']
    rfl
  obtain ⟨w₁, hw₁, hcommitted⟩ := (h.retire hc hopen).commit_disable hmem howner hloop
  have hchannel : w₁.channels (.conn c) = (w.channels (.conn c)).change .disableAllEvents := by
    obtain ⟨poller, rfl⟩ := hcommitted.eq
    exact setChannel_self ..
  obtain ⟨poller, channels, i, hremove, hi, hrep, hslots, hsame, -⟩ :=
    hcommitted.wired.rep.removeChannel hmem (by rw [hchannel]; rfl)
  have howner₁ : (w₁.channels (.conn c)).ownerLoop = 0 := by
    rw [hchannel]
    exact howner
  refine ⟨_, ?_, ⟨w₁, poller, channels, hcommitted, rfl, hsame⟩, ?_⟩
  · rw [World.destroyConnection, endpoint_eq hc]
    change w.assertInLoopThread conn.loop 0 >>= _ = _
    rw [h.home.assert_bind hloop, hdestroy]
    change w.commit 0 c _ >>= _ = _
    rw [hw₁]
    change ((w₁.log (.destroyConnection c)).log (.connectionCb c .disconnected)).removeChannel 0
      conn.loop (.conn c) = _
    rw [hloop, World.removeChannel]
    change check ((w₁.channels (.conn c)).ownerLoop = 0) _ >>= _ = _
    rw [check_bind_of _ howner₁, ((hcommitted.wired.home.log _).log _).assert_bind rfl]
    change (((w₁.reactors 0).poller.removeChannel w₁.channels (.conn c)).mapError _ >>= _) = _
    rw [hremove]
    rfl
  · intro ref href hne hwatched
    have hfd (ref' : ChannelRef) : (channels ref').fd = (w₁.channels ref').fd := by
      obtain ⟨m, hm⟩ := hsame ref'
      rw [hm]
      rfl
    change (((setPoller _ 0 poller).reactors 0).poller).Watched channels ref
    rw [poller_setPoller_self]
    exact hcommitted.wired.rep.swapRemove_watches hi hrep hslots hfd href hne
      (hcommitted.others ref href hne hwatched)

/-- A channel of the base loop is registered by its first interest. -/
theorem changeInterest_new_eq (hhome : Home w)
    (hrep : (w.reactors 0).poller.Rep w.channels owners) {ref : ChannelRef}
    (href : homeLoop ref = 0) (howner : (w.channels ref).ownerLoop = 0)
    (hindex : (w.channels ref).index < 0) (hfd : 0 ≤ (w.channels ref).fd)
    (hfresh : ∀ ref' ∈ owners, (w.channels ref').fd ≠ (w.channels ref).fd)
    (hreq : Channel.Requested (w.channels ref).events) (i : Channel.Interest) :
    ∃ poller w', w.changeInterest 0 ref i = .ok w' ∧ w' = (w.setChannel ref
        (((w.channels ref).change i).setIndex owners.length)).setPoller 0 poller ∧
      (∀ ref' ∈ owners, w.Watched ref' → w'.Watched ref') ∧ w'.Watched ref := by
  obtain ⟨poller, hupdate, -, hslots⟩ := hrep.change_new hindex hfd hfresh hreq i
  have hset : Home (w.setChannel ref ((w.channels ref).change i)) := hhome.setChannel rfl
  have hwatches := hrep.change_watches hindex hslots (i.apply (w.channels ref).events)
  refine ⟨poller, _, hset.updateChannel_eq href (by rw [setChannel_self]; exact howner) hupdate,
    rfl, ?_, ?_⟩
  · intro ref' hmem hwatched
    change (((setPoller _ 0 poller).reactors 0).poller).Watched _ ref'
    rw [poller_setPoller_self]
    exact hwatches.1 ref' hmem hwatched
  · change (((setPoller _ 0 poller).reactors 0).poller).Watched _ ref
    rw [poller_setPoller_self]
    exact hwatches.2

/-- A connection on the descriptor `fd` has been accepted. -/
structure Accepted (w : World) (owners : List ChannelRef) (fd : Int) (w' : World) : Prop where
  established : ∃ w₁, Established w fd w₁ ∧ Quiet w₁ w'
  conn : w'.conns w.nextObj = some
    { (Endpoint.new 0 (connName w.server) fd w.server.writeCmplCb 0).conn with
      state := .connected }
  conns : ∀ c, c ≠ w.nextObj → w'.conns c = w.conns c
  channel : ∃ i, w'.channels (.conn w.nextObj) =
    ((Channel.new 0 fd 0).change .enableReading).setIndex i
  channels : ∀ ref, ref ≠ .conn w.nextObj → w'.channels ref = w.channels ref
  event : (w'.reactors 0).event = (w.reactors 0).event
  watched : ∀ ref ∈ owners, w.Watched ref → w'.Watched ref
  own : w'.Watched (.conn w.nextObj)

/-- Accepting a connection whose channel finds its loop in `owner_loop_`. -/
theorem Wired.newConnection_eq (h : Wired w owners) {fd : Int} (hfd : 0 ≤ fd)
    (hfresh : ∀ ref ∈ owners, (w.channels ref).fd ≠ fd) (hnew : .conn w.nextObj ∉ owners)
    (hcount : w.server.nextConnId < intMax) :
    ∃ w', (w.openFd fd).newConnection 0 fd 0 EchoServer.onConnection = .ok w' ∧
      Accepted w owners fd w' := by
  have hhome₀ : Home (w.openFd fd) := { h.home with }
  have hhome₁ : Home (w.openFd fd).countConnection := hhome₀.setServer rfl
  let e := Endpoint.new 0 (connName w.server) fd w.server.writeCmplCb 0
  let w₂ := (w.openFd fd).countConnection.addConnection e
  have hhome₂ : Home w₂ := hhome₁.addConnection rfl rfl
  have hchannel : w₂.channels (.conn w.nextObj) = e.channel := setChannel_self ..
  have hothers : ∀ ref, ref ≠ .conn w.nextObj → w₂.channels ref = w.channels ref :=
    fun ref href => setChannel_of_ne _ href _
  have hne : ∀ ref ∈ owners, ref ≠ .conn w.nextObj := fun ref href heq => hnew (heq ▸ href)
  have hrep : (w₂.reactors 0).poller.Rep w₂.channels owners := by
    apply h.rep.congr <;> intro ref href <;> rw [hothers ref (hne ref href)]
  have hc : w₂.conns w.nextObj = some e.conn := setConn_self (w.openFd fd).countConnection _ _
  have hconns : ∀ c, c ≠ w.nextObj → w₂.conns c = w.conns c :=
    fun c hne => setConn_of_ne (w.openFd fd).countConnection hne _
  let w₃ := w₂.setConn w.nextObj (some { e.conn with state := .connected })
  have hhome₃ : Home w₃ := hhome₂.setConn (by simp [e, Endpoint.new])
  have hnewest : w₃.channels (.conn w.nextObj) = e.channel := hchannel
  have howner : (w₃.channels (.conn w.nextObj)).ownerLoop = 0 := by rw [hnewest]; rfl
  have hindex : (w₃.channels (.conn w.nextObj)).index < 0 := by
    rw [hnewest]
    exact Int.negSucc_lt_zero 0
  have hfresh₃ : ∀ ref ∈ owners,
      (w₃.channels ref).fd ≠ (w₃.channels (.conn w.nextObj)).fd := by
    intro ref href
    rw [hnewest, show w₃.channels ref = w.channels ref from hothers ref (hne ref href)]
    exact hfresh ref href
  have hreq : Channel.Requested (w₃.channels (.conn w.nextObj)).events := by
    rw [hnewest]
    exact Channel.requested_zero
  obtain ⟨poller, w₄, hw₄, heq, hwatched, hown⟩ := changeInterest_new_eq hhome₃ hrep rfl howner
    hindex (by rw [hnewest]; exact hfd) hfresh₃ hreq .enableReading
  have hopen : Endpoint.establishConnection ⟨e.conn, w₂.channels (.conn w.nextObj)⟩ = .ok
      (⟨{ e.conn with state := .connected },
        (w₂.channels (.conn w.nextObj)).change .enableReading⟩, [.update]) := by
    have hstate : e.conn.state = .connecting := rfl
    rw [Endpoint.establishConnection_eq, if_pos hstate]
    rfl
  have hestablish : w₂.establishConnection 0 w.nextObj EchoServer.onConnection =
      .ok (w₄.log (.connectionCb w.nextObj .connected)) := by
    rw [World.establishConnection, endpoint_eq hc]
    change w₂.assertInLoopThread 0 0 >>= _ = _
    rw [hhome₂.assert_bind rfl, hopen]
    change w₂.commit 0 w.nextObj _ >>= _ = _
    rw [commit_change w.nextObj { e.conn with state := .connected } rfl, hw₄]
    rfl
  have hrun : (w.openFd fd).newConnection 0 fd 0 EchoServer.onConnection =
      .ok (w₄.log (.connectionCb w.nextObj .connected)) := by
    rw [World.newConnection, hhome₀.assert_bind rfl]
    change check (w.server.nextConnId < intMax) _ >>= _ = _
    rw [check_bind_of _ hcount, hhome₁.getNextLoop]
    exact hestablish
  refine ⟨_, hrun, ((h.newConnection hfd hfresh hnew 0 _).of_eq_ok hrun).2, ?_, ?_, ?_, ?_, ?_,
    ?_, hown⟩
  · rw [heq]
    exact setConn_self w₂ _ _
  · intro c hne
    rw [heq]
    exact (setConn_of_ne w₂ hne _).trans (hconns c hne)
  · refine ⟨owners.length, ?_⟩
    rw [heq]
    refine (setChannel_self w₃ _ _).trans ?_
    rw [hnewest]
    rfl
  · intro ref href
    rw [heq]
    exact (setChannel_of_ne w₃ href _).trans (hothers ref href)
  · rw [heq]
    exact event_setPoller (setChannel w₃ _ _) 0 0 poller
  · intro ref href hwatch
    apply hwatched ref href
    apply hwatch.congr
    · rw [show w₃.channels ref = w.channels ref from hothers ref (hne ref href)]
    · rw [show w₃.channels ref = w.channels ref from hothers ref (hne ref href)]
    · intro i _
      rfl

end World

end Yatwb
