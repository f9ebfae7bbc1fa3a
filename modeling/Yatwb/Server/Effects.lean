import Yatwb.Connection.Session
import Yatwb.Server.Frames

/-!
# What accepting, closing and destroying a connection do

Each of the three is described by one structure over the world before and the
world after, with a quiet part where a callback of the user runs in between.
The results about the operations say that they have this effect, keep the
world wired, and end with no other faults than benign ones; only a second
close of the same connection fails its assert in `removeConnection`.
-/

namespace Yatwb.World

open Foundation

/-- A connection on the descriptor `fd` has been accepted and established. -/
structure Established (w : World) (fd : Int) (w' : World) : Prop where
  server : w'.server = { w.server with
    nextConnId := w.server.nextConnId + 1
    connections := w.server.connections.insert (connName w.server) w.nextObj }
  nextObj : w'.nextObj = w.nextObj + 1
  openFds : w'.openFds = insert fd w.openFds
  trace : w'.trace = w.trace ++ [.connectionCb w.nextObj .connected]
  phase : (w'.reactors 0).phase = (w.reactors 0).phase
  pending : (w'.reactors 0).event.pendingFunctors = (w.reactors 0).event.pendingFunctors
  conn : ∃ conn, w'.conns w.nextObj = some conn ∧ conn.name = connName w.server ∧
    conn.state = .connected
  conns : ∀ c, c ≠ w.nextObj → w'.conns c = w.conns c
  fd : (w'.channels (.conn w.nextObj)).fd = fd
  channels : ∀ ref, ref ≠ .conn w.nextObj → w'.channels ref = w.channels ref

/-- The connection `c` with the name `name` has been closed: the functor that
destroys it has taken the place of its entry. -/
structure Closed (w : World) (c : Nat) (name : String) (w' : World) : Prop where
  listed : name ∈ w.server.connections
  server : w'.server = { w.server with connections := w.server.connections.erase name }
  nextObj : w'.nextObj = w.nextObj
  openFds : w'.openFds = w.openFds
  trace : w'.trace = w.trace ++ [.handleClose c, .removeConnection c]
  phase : (w'.reactors 0).phase = (w.reactors 0).phase
  pending : (w'.reactors 0).event.pendingFunctors =
    (w.reactors 0).event.pendingFunctors ++ [.destroyConnection c]
  conns : w'.conns = w.conns
  channels : w'.channels = w.channels

/-- The connection `c` has been destroyed and its channel removed. -/
structure Destroyed (w : World) (owners : List ChannelRef) (c : Nat) (w' : World) : Prop where
  server : w'.server = w.server
  nextObj : w'.nextObj = w.nextObj
  openFds : w'.openFds = w.openFds
  trace : w'.trace = w.trace ++ [.destroyConnection c, .connectionCb c .disconnected,
    .removeChannel (.conn c) (w.reactors 0).phase.iterating]
  phase : (w'.reactors 0).phase = (w.reactors 0).phase
  pending : ∃ extra, (w'.reactors 0).event.pendingFunctors =
    (w.reactors 0).event.pendingFunctors ++ extra ∧ ∀ f ∈ extra, ∃ c, f = .writeComplete c
  conn : ∃ conn conn', w.conns c = some conn ∧ w'.conns c = some conn' ∧
    conn'.name = conn.name ∧ conn'.state = .disconnected
  conn_some : ∀ c' conn, c' ≠ c → w.conns c' = some conn →
    ∃ conn', w'.conns c' = some conn' ∧ conn.Ages conn'
  conn_none : ∀ c', w.conns c' = none → w'.conns c' = none
  fd : ∀ ref, (w'.channels ref).fd = (w.channels ref).fd
  index : ∀ ref, ref ∉ owners → (w'.channels ref).index = (w.channels ref).index

/-- The connection `c` says `Disconnected`, and its user has been told. -/
structure Silenced (w : World) (c : Nat) (w' : World) : Prop where
  server : w'.server = w.server
  nextObj : w'.nextObj = w.nextObj
  openFds : w'.openFds = w.openFds
  trace : w'.trace = w.trace ++ [.destroyConnection c, .connectionCb c .disconnected]
  phase : (w'.reactors 0).phase = (w.reactors 0).phase
  pending : ∃ extra, (w'.reactors 0).event.pendingFunctors =
    (w.reactors 0).event.pendingFunctors ++ extra ∧ ∀ f ∈ extra, ∃ c, f = .writeComplete c
  conn : ∃ conn conn', w.conns c = some conn ∧ w'.conns c = some conn' ∧
    conn'.name = conn.name ∧ conn'.state = .disconnected
  conn_some : ∀ c' conn, c' ≠ c → w.conns c' = some conn →
    ∃ conn', w'.conns c' = some conn' ∧ conn.Ages conn'
  conn_none : ∀ c', w.conns c' = none → w'.conns c' = none
  channels : ∀ ref, ∃ events, w'.channels ref = (w.channels ref).setEvents events

/-- The channel `ref` has left the poller and its slot `i`. -/
structure Unregistered (w : World) (owners : List ChannelRef) (ref : ChannelRef) (i : Nat)
    (w' : World) : Prop where
  home : Home w'
  slot : owners[i]? = some ref
  rep : (w'.reactors 0).poller.Rep w'.channels (swapRemove owners i)
  same : ∀ ref', ∃ m, w'.channels ref' = (w.channels ref').setIndex m
  others : ∀ ref', ref' ∉ owners → w'.channels ref' = w.channels ref'
  server : w'.server = w.server
  nextObj : w'.nextObj = w.nextObj
  openFds : w'.openFds = w.openFds
  conns : w'.conns = w.conns
  trace : w'.trace = w.trace ++ [.removeChannel ref (w.reactors 0).phase.iterating]
  phase : (w'.reactors 0).phase = (w.reactors 0).phase
  pending : (w'.reactors 0).event.pendingFunctors = (w.reactors 0).event.pendingFunctors

variable {w : World} {owners : List ChannelRef}

/-- A connection is destroyed in two parts, with the callback of its user between them. -/
theorem Silenced.destroyed {c i : Nat} {w₁ w₂ : World} (hs : Silenced w c w₁)
    (hu : Unregistered w₁ owners (.conn c) i w₂) : Destroyed w owners c w₂ := by
  refine ⟨hu.server.trans hs.server, hu.nextObj.trans hs.nextObj, hu.openFds.trans hs.openFds,
    ?_, hu.phase.trans hs.phase, ?_, ?_, ?_, ?_, ?_, ?_⟩
  · rw [hu.trace, hs.trace, hs.phase, List.append_assoc]
    rfl
  · rw [hu.pending]
    exact hs.pending
  · rw [hu.conns]
    exact hs.conn
  · rw [hu.conns]
    exact hs.conn_some
  · rw [hu.conns]
    exact hs.conn_none
  · intro ref
    obtain ⟨m, hm⟩ := hu.same ref
    obtain ⟨events, hevents⟩ := hs.channels ref
    rw [hm, hevents]
    rfl
  · intro ref hout
    obtain ⟨events, hevents⟩ := hs.channels ref
    rw [hu.others ref hout, hevents]
    rfl

theorem Wired.log (h : Wired w owners) (event : Event) : Wired (w.log event) owners :=
  ⟨h.home.log event, h.rep, h.requested, h.live⟩

/-- The first interest of a channel registers it. -/
theorem changeInterest_new (hhome : Home w) (hrep : (w.reactors 0).poller.Rep w.channels owners)
    {ref : ChannelRef} (href : homeLoop ref = 0) (hindex : (w.channels ref).index < 0)
    (hfd : 0 ≤ (w.channels ref).fd)
    (hfresh : ∀ ref' ∈ owners, (w.channels ref').fd ≠ (w.channels ref).fd)
    (hreq : Channel.Requested (w.channels ref).events) (i : Channel.Interest) :
    Ends (fun w' => Home w' ∧ (w'.reactors 0).poller.Rep w'.channels (owners ++ [ref]) ∧
        ∃ poller, w' = (w.setChannel ref
          (((w.channels ref).change i).setIndex owners.length)).setPoller 0 poller) Benign
      (w.changeInterest 0 ref i) := by
  obtain ⟨poller, hupdate, hrep', -⟩ := hrep.change_new hindex hfd hfresh hreq i
  have hset : Home (w.setChannel ref ((w.channels ref).change i)) := hhome.setChannel rfl
  have hmain : Ends (fun w' => w' = (w.setChannel ref
      (((w.channels ref).change i).setIndex owners.length)).setPoller 0 poller) Benign
      (w.changeInterest 0 ref i) := hset.ends_updateChannel href hupdate trivial rfl
  apply ((hmain.and (hhome.changeInterest href i)).mono _).weaken fun _ hf => hf.1
  rintro w' ⟨rfl, hhome'⟩
  refine ⟨hhome', ?_, poller, rfl⟩
  rw [poller_setPoller_self]
  exact hrep'

/-- A channel without interest leaves the poller. -/
theorem Wired.removeChannel (h : Wired w owners) {ref : ChannelRef} (href : ref ∈ owners)
    (hnone : (w.channels ref).events = Channel.noneEvent) :
    Ends (fun w' => ∃ i, Unregistered w owners ref i w') Benign (w.removeChannel 0 0 ref) := by
  obtain ⟨poller, channels, i, hremove, hi, hrep, -, hsame, hothers⟩ :=
    h.rep.removeChannel href hnone
  have hmain : Ends (fun w' => w' =
      { (w.log (.removeChannel ref (w.reactors 0).phase.iterating)).setPoller 0 poller with
        channels := channels }) Benign (w.removeChannel 0 0 ref) := by
    simp only [World.removeChannel]
    apply ends_check fun _ => trivial
    intro _
    rw [h.home.assert_bind rfl, hremove]
    rfl
  apply ((hmain.and (h.home.removeChannel ref)).mono _).weaken fun _ hf => hf.1
  rintro w' ⟨rfl, hhome'⟩
  refine ⟨i, hhome', hi, ?_, hsame, fun _ hout => hothers _ (Or.inl hout), rfl, rfl, rfl, rfl, rfl,
    phase_setPoller _ 0 0 poller, ?_⟩
  · change ((setPoller _ 0 poller).reactors 0).poller.Rep channels _
    rw [poller_setPoller_self]
    exact hrep
  · change ((setPoller _ 0 poller).reactors 0).event.pendingFunctors = _
    rw [event_setPoller]
    rfl

/-- The channel of a connection that is `Disconnected` may leave the poller. -/
theorem Unregistered.wired {w' : World} {c i : Nat} (hu : Unregistered w owners (.conn c) i w')
    (h : Wired w owners) {conn : TcpConnection} (hc : w.conns c = some conn)
    (hdead : conn.state = .disconnected) : Wired w' (swapRemove owners i) := by
  refine ⟨hu.home, hu.rep, ?_, ?_⟩
  · intro ref
    obtain ⟨m, hm⟩ := hu.same ref
    rw [hm]
    exact h.requested ref
  · intro c' conn' hc' hopen'
    rw [hu.conns] at hc'
    have hne : c' ≠ c := by
      rintro rfl
      obtain rfl : conn = conn' := Option.some.inj (hc.symm.trans hc')
      rw [TcpConnection.Open, hdead] at hopen'
      rcases hopen' with hopen' | hopen' <;> cases hopen'
    exact (mem_swapRemove h.rep.nodup hu.slot _).mpr
      ⟨h.live c' conn' hc' hopen', fun heq => hne (ChannelRef.conn.inj heq)⟩

/-- A method that changes the connection and the interest of its channel. -/
theorem commit_change (c : Nat) (conn : TcpConnection) (hloop : conn.loop = 0)
    (i : Channel.Interest) :
    w.commit 0 c (⟨conn, (w.channels (.conn c)).change i⟩, [.update]) =
      (w.setConn c (some conn)).changeInterest 0 (.conn c) i := by
  rw [commit_of_loop hloop]
  exact (@requests_updates w c conn i [] [] (by simp)).trans (bind_pure _)

theorem endpoint_eq {c : Nat} {conn : TcpConnection} (hc : w.conns c = some conn) :
    w.endpoint c = .ok ⟨conn, w.channels (.conn c)⟩ := by
  simp only [endpoint, hc]

/-- `establishConnection` of a connection that has just been constructed. -/
theorem establishConnection_new (hhome : Home w)
    (hrep : (w.reactors 0).poller.Rep w.channels owners)
    (hreq : ∀ ref, Channel.Requested (w.channels ref).events)
    {c : Nat} {conn : TcpConnection} (hc : w.conns c = some conn)
    (hlive : ∀ c' conn', c' ≠ c → w.conns c' = some conn' → conn'.Open → .conn c' ∈ owners)
    (hstate : conn.state = .connecting) (hindex : (w.channels (.conn c)).index < 0)
    (hfd : 0 ≤ (w.channels (.conn c)).fd)
    (hfresh : ∀ ref ∈ owners, (w.channels ref).fd ≠ (w.channels (.conn c)).fd)
    (acts : List UserAct) :
    Ends (fun w' => Wired w' (owners ++ [.conn c]) ∧ ∃ channel poller,
        channel.fd = (w.channels (.conn c)).fd ∧
        Quiet ((((w.setConn c (some { conn with state := .connected })).setChannel (.conn c)
          channel).setPoller 0 poller).log (.connectionCb c .connected)) w') Benign
      (w.establishConnection 0 c acts) := by
  have hloop : conn.loop = 0 := hhome.conns c conn hc
  have hset : Home (w.setConn c (some { conn with state := .connected })) :=
    hhome.setConn (by simp [hloop])
  have hopen : Endpoint.establishConnection ⟨conn, w.channels (.conn c)⟩ = .ok
      (⟨{ conn with state := .connected }, (w.channels (.conn c)).change .enableReading⟩,
        [.update]) := by
    rw [Endpoint.establishConnection_eq, if_pos hstate]
    rfl
  rw [World.establishConnection, endpoint_eq hc]
  change Ends _ Benign (w.assertInLoopThread conn.loop 0 >>= _)
  rw [hhome.assert_bind hloop, hopen]
  change Ends _ Benign (w.commit 0 c _ >>= _)
  rw [commit_change c { conn with state := .connected } hloop]
  apply (changeInterest_new hset hrep rfl hindex hfd hfresh (hreq _) .enableReading).bind
  rintro w₁ ⟨hhome₁, hrep₁, poller, rfl⟩
  have hwired : Wired (((w.setConn c (some { conn with state := .connected })).setChannel (.conn c)
      (((w.channels (.conn c)).change .enableReading).setIndex owners.length)).setPoller 0 poller)
      (owners ++ [.conn c]) := by
    refine ⟨hhome₁, hrep₁, ?_, ?_⟩
    · intro ref
      by_cases href : ref = .conn c
      · subst href
        change Channel.Requested ((setChannel _ _ _).channels _).events
        rw [setChannel_self]
        exact (hreq _).change .enableReading
      · change Channel.Requested ((setChannel _ _ _).channels _).events
        rw [setChannel_of_ne _ href]
        exact hreq ref
    · intro c' conn' hc' hopen'
      by_cases heq : c' = c
      · simp [heq]
      · have hold : w.conns c' = some conn' := (setConn_of_ne w heq _).symm.trans hc'
        exact List.mem_append_left _ (hlive c' conn' heq hold hopen')
  apply ((hwired.log _).userCallback acts).mono
  rintro w' ⟨hw', hquiet⟩
  exact ⟨hw', ((w.channels (.conn c)).change .enableReading).setIndex owners.length, poller, rfl,
    hquiet⟩

/-- Accepting a connection on a descriptor that no registered channel has. -/
theorem Wired.newConnection (h : Wired w owners) {fd : Int} (hfd : 0 ≤ fd)
    (hfresh : ∀ ref ∈ owners, (w.channels ref).fd ≠ fd) (hnew : .conn w.nextObj ∉ owners)
    (memory : LoopId) (acts : List UserAct) :
    Ends (fun w' => Wired w' (owners ++ [.conn w.nextObj]) ∧
        ∃ w₁, Established w fd w₁ ∧ Quiet w₁ w') Benign
      ((w.openFd fd).newConnection 0 fd memory acts) := by
  have hhome₀ : Home (w.openFd fd) := { h.home with }
  have hhome₁ : Home (w.openFd fd).countConnection := hhome₀.setServer rfl
  let e := Endpoint.new 0 (connName w.server) fd w.server.writeCmplCb memory
  let w₂ := (w.openFd fd).countConnection.addConnection e
  have hhome₂ : Home w₂ := hhome₁.addConnection rfl rfl
  have hchannel : w₂.channels (.conn w.nextObj) = e.channel := setChannel_self ..
  have hothers : ∀ ref, ref ≠ .conn w.nextObj → w₂.channels ref = w.channels ref :=
    fun ref href => setChannel_of_ne _ href _
  have hne : ∀ ref ∈ owners, ref ≠ .conn w.nextObj := fun ref href heq => hnew (heq ▸ href)
  have hrep : (w₂.reactors 0).poller.Rep w₂.channels owners := by
    apply h.rep.congr <;> intro ref href <;> rw [hothers ref (hne ref href)]
  have hreq : ∀ ref, Channel.Requested (w₂.channels ref).events := by
    intro ref
    by_cases href : ref = .conn w.nextObj
    · rw [href, hchannel]
      exact Channel.requested_zero
    · rw [hothers ref href]
      exact h.requested ref
  have hc : w₂.conns w.nextObj = some e.conn := setConn_self (w.openFd fd).countConnection _ _
  have hconns : ∀ c, c ≠ w.nextObj → w₂.conns c = w.conns c :=
    fun c hne => setConn_of_ne (w.openFd fd).countConnection hne _
  have hlive : ∀ c conn, c ≠ w.nextObj → w₂.conns c = some conn → conn.Open →
      .conn c ∈ owners := by
    intro c conn hne hc hopen
    rw [hconns c hne] at hc
    exact h.live c conn hc hopen
  rw [World.newConnection, hhome₀.assert_bind rfl]
  apply ends_check fun _ => trivial
  intro _
  rw [hhome₁.getNextLoop]
  have hestablish := establishConnection_new hhome₂ hrep hreq hc hlive rfl
    (by rw [hchannel]; exact Int.negSucc_lt_zero 0) (by rw [hchannel]; exact hfd)
    (fun ref href => by rw [hchannel, hothers ref (hne ref href)]; exact hfresh ref href) acts
  apply hestablish.mono
  rintro w' ⟨hw', channel, poller, hchannelFd, hquiet⟩
  refine ⟨hw', _, ?_, hquiet⟩
  refine ⟨rfl, rfl, rfl, rfl, ?_, ?_, ⟨_, setConn_self w₂ _ _, rfl, rfl⟩, ?_, ?_, ?_⟩
  · exact phase_setPoller _ 0 0 poller
  · change (((setPoller _ 0 poller).reactors 0).event).pendingFunctors = _
    rw [event_setPoller]
    rfl
  · intro c hne
    exact (setConn_of_ne w₂ hne _).trans (hconns c hne)
  · change ((setChannel _ _ channel).channels _).fd = fd
    rw [setChannel_self, hchannelFd, hchannel]
    rfl
  · intro ref href
    exact (setChannel_of_ne _ href channel).trans (hothers ref href)

/-- Closing a connection in use. A connection that is no longer listed fails
the assert of `removeConnection`. -/
theorem Wired.handleClose (h : Wired w owners) {c : Nat} {conn : TcpConnection}
    (hc : w.conns c = some conn) (hopen : conn.Open) :
    Ends (fun w' => Wired w' owners ∧ ∃ w₁, Quiet w w₁ ∧ Closed w₁ c conn.name w')
      (fun f => Benign f ∨ f = .removeConnectionCount ∧ conn.name ∉ w.server.connections)
      (w.handleClose 0 c) := by
  have hloop : conn.loop = 0 := h.home.conns c conn hc
  have hclose : Endpoint.handleClose ⟨conn, w.channels (.conn c)⟩ = .ok
      (⟨conn, (w.channels (.conn c)).change .disableAllEvents⟩, [.update]) := by
    have hopen' : Endpoint.Open ⟨conn, w.channels (.conn c)⟩ := hopen
    rw [Endpoint.handleClose_eq, if_pos hopen']
    rfl
  rw [World.handleClose, endpoint_eq hc]
  change Ends _ _ (w.assertInLoopThread conn.loop 0 >>= _)
  rw [h.home.assert_bind hloop, hclose]
  change Ends _ _ (w.commit 0 c _ >>= _)
  rw [commit_change c conn hloop, setConn_same hc]
  apply ((h.changeInterest hc hopen .disableAllEvents).weaken fun _ => Or.inl).bind
  rintro w₁ ⟨hw₁, hquiet⟩
  obtain ⟨conn₁, hc₁, hages⟩ := hquiet.conn_some c conn hc
  have hc₁' : (w₁.log (.handleClose c)).conns c = some conn₁ := hc₁
  rw [World.removeConnection, (hw₁.home.log _).assert_bind rfl, endpoint_eq hc₁']
  change Ends _ _ (check _ _ >>= _)
  apply ends_check
  · intro hlisted
    right
    refine ⟨rfl, ?_⟩
    rw [← hages.1, ← hquiet.server, ← Std.ExtTreeMap.contains_iff_mem]
    exact hlisted
  intro hlisted
  have herase : Home ((w₁.log (.handleClose c)).eraseConnection conn₁.name) :=
    (hw₁.home.log _).setServer rfl
  have hwired : Wired (((w₁.log (.handleClose c)).eraseConnection conn₁.name).log
      (.removeConnection c)) owners := ⟨herase.log _, hw₁.rep, hw₁.requested, hw₁.live⟩
  apply ((EventLoop.queueInLoop_spec _ 0 _).mapError _).bind
  · rintro event ⟨hthread, hpending⟩
    refine ⟨hwired.setEvent (hthread.trans (hwired.home.threads 0)), w₁, hquiet, ?_⟩
    rw [← hages.1]
    refine ⟨Std.ExtTreeMap.contains_iff_mem.mp hlisted, rfl, rfl, rfl, ?_, ?_, ?_, rfl, rfl⟩
    · exact List.append_assoc ..
    · exact phase_setEvent _ 0 0 event
    · rw [event_setEvent_self, hpending]
      rfl
  · intro f _
    exact Or.inl trivial

/-- A connection that is retired keeps its channel until it is removed. -/
theorem Wired.retire (h : Wired w owners) {c : Nat} {conn : TcpConnection}
    (hc : w.conns c = some conn) (hopen : conn.Open) :
    Wired (w.setConn c (some { conn with state := .disconnected })) owners := by
  have hloop : conn.loop = 0 := h.home.conns c conn hc
  refine ⟨h.home.setConn (by simp [hloop]), h.rep, h.requested, ?_⟩
  intro c' conn' hc' hopen'
  by_cases heq : c' = c
  · exact heq ▸ h.live c conn hc hopen
  · rw [setConn_of_ne w heq] at hc'
    exact h.live c' conn' hc' hopen'

/-- What the callback of the user finds and leaves when a connection is destroyed. -/
theorem silenced_of_quiet {c : Nat} {conn : TcpConnection} {poller : Poller ChannelRef}
    {w₂ : World} (hc : w.conns c = some conn)
    (hquiet : Quiet (((((w.setConn c (some { conn with state := .disconnected })).setChannel
      (.conn c) ((w.channels (.conn c)).change .disableAllEvents)).setPoller 0 poller).log
      (.destroyConnection c)).log (.connectionCb c .disconnected)) w₂) :
    Silenced w c w₂ ∧
      w₂.channels (.conn c) = (w.channels (.conn c)).change .disableAllEvents := by
  have hself := setConn_self w c (some { conn with state := .disconnected })
  obtain ⟨conn₂, hc₂, hages⟩ := hquiet.conn_some c _ hself
  have hchannel : w₂.channels (.conn c) = (w.channels (.conn c)).change .disableAllEvents :=
    (hquiet.still c _ hself rfl).trans (setChannel_self ..)
  refine ⟨⟨hquiet.server, hquiet.nextObj, hquiet.openFds, ?_, ?_, ?_,
    ⟨conn, conn₂, hc, hc₂, hages.1, hages.disconnected rfl⟩, ?_, ?_, ?_⟩, hchannel⟩
  · exact hquiet.trace.trans (List.append_assoc ..)
  · exact hquiet.phase.trans (phase_setPoller (setChannel _ _ _) 0 0 poller)
  · obtain ⟨extra, hextra, hwrites⟩ := hquiet.pending
    refine ⟨extra, hextra.trans ?_, hwrites⟩
    change ((setPoller _ 0 poller).reactors 0).event.pendingFunctors ++ extra = _
    rw [event_setPoller]
    rfl
  · intro c' conn' hne hc'
    exact hquiet.conn_some c' conn' ((setConn_of_ne w hne _).trans hc')
  · intro c' hc'
    have hne : c' ≠ c := by
      rintro rfl
      rw [hc] at hc'
      cases hc'
    exact hquiet.conn_none c' ((setConn_of_ne w hne _).trans hc')
  · intro ref
    obtain ⟨events, hevents⟩ := hquiet.channels ref
    by_cases href : ref = .conn c
    · exact ⟨_, href ▸ hchannel⟩
    · refine ⟨events, hevents.trans ?_⟩
      exact congrArg (Channel.setEvents · events) (setChannel_of_ne _ href _)

/-- Destroying a connection in use. -/
theorem Wired.destroyConnection (h : Wired w owners) {c : Nat} {conn : TcpConnection}
    (hc : w.conns c = some conn) (hopen : conn.Open) (acts : List UserAct) :
    Ends (fun w' => ∃ i, owners[i]? = some (.conn c) ∧ Wired w' (swapRemove owners i) ∧
        Destroyed w owners c w') Benign
      (w.destroyConnection 0 c acts) := by
  have hloop : conn.loop = 0 := h.home.conns c conn hc
  have hmem : .conn c ∈ owners := h.live c conn hc hopen
  have hdestroy : Endpoint.destroyConnection ⟨conn, w.channels (.conn c)⟩ = .ok
      (⟨{ conn with state := .disconnected }, (w.channels (.conn c)).change .disableAllEvents⟩,
        [.update]) := by
    have hopen' : Endpoint.Open ⟨conn, w.channels (.conn c)⟩ := hopen
    rw [Endpoint.destroyConnection_eq, if_pos hopen']
    rfl
  rw [World.destroyConnection, endpoint_eq hc]
  change Ends _ _ (w.assertInLoopThread conn.loop 0 >>= _)
  rw [h.home.assert_bind hloop, hdestroy]
  change Ends _ _ (w.commit 0 c _ >>= _)
  rw [commit_change c { conn with state := .disconnected } hloop]
  apply ((h.retire hc hopen).changeInterest_registered hmem .disableAllEvents).bind
  rintro w₁ ⟨hw₁, poller, rfl⟩
  refine Ends.bind (((hw₁.log (.destroyConnection c)).log
    (.connectionCb c .disconnected)).userCallback acts) ?_
  rintro w₂ ⟨hw₂, hquiet⟩
  obtain ⟨hsilenced, hchannel⟩ := silenced_of_quiet hc hquiet
  obtain ⟨-, conn₂, -, hc₂, -, hdead⟩ := hsilenced.conn
  change Ends _ _ (w₂.removeChannel 0 conn.loop (.conn c))
  rw [hloop]
  apply (hw₂.removeChannel hmem (by rw [hchannel]; rfl)).mono
  rintro w' ⟨i, hu⟩
  exact ⟨i, hu.slot, hu.wired hw₂ hc₂ hdead, hsilenced.destroyed hu⟩

/-- The callbacks that may call `handleClose`, with the answer of `readv(2)`. -/
def MayClose (r : Buffer.ReadResult) (cb : Channel.Callback) : Prop :=
  cb = .close ∨ cb = .read ∧ Endpoint.Received r

/-- What a callback of the connection `c` with the name `name` does, with the
answer of `readv(2)`. -/
inductive Handled (w : World) (c : Nat) (name : String) (r : Buffer.ReadResult) :
    Channel.Callback → World → Prop
  | quiet {cb w'} (h : Quiet w w') : Handled w c name r cb w'
  | message {w'} (hr : Endpoint.Received r) (h : Quiet (w.log (.messageCb c)) w') :
      Handled w c name r .read w'
  | close {cb w₁ w'} (hcb : MayClose r cb) (hquiet : Quiet w w₁)
      (h : Closed w₁ c name w') : Handled w c name r cb w'

/-- The faults of such a callback. -/
def HandledFault (w : World) (name : String) (r : Buffer.ReadResult) (cb : Channel.Callback)
    (f : Fault) : Prop :=
  Benign f ∨ f = .removeConnectionCount ∧ MayClose r cb ∧ name ∉ w.server.connections

theorem Wired.handleRead (h : Wired w owners) {c : Nat} {conn : TcpConnection}
    (hc : w.conns c = some conn) (hopen : conn.Open) (r : Buffer.ReadResult)
    (acts : List UserAct) :
    Ends (fun w' => Wired w' owners ∧ Handled w c conn.name r .read w')
      (HandledFault w conn.name r .read) (w.handleRead 0 c r acts) := by
  have hread := (Endpoint.handleRead_reads ⟨conn, w.channels (.conn c)⟩ r).mapError
    benign_connection
  rw [World.handleRead, endpoint_eq hc]
  change Ends _ _ (Except.mapError Fault.connection _ >>= _)
  refine Ends.bind (hread.weaken fun _ => Or.inl) ?_
  rintro ⟨e, outcome⟩ ⟨⟨b, rfl⟩, hr⟩
  have hages : conn.Ages { conn with inputBuffer := b } := ⟨rfl, Or.inl rfl⟩
  have hset := h.setConn hc hages rfl
  have hquiet := Quiet.setConn hc hages
  simp only [setEndpoint_same]
  cases outcome with
  | message =>
      apply (((hset.log (.messageCb c)).userCallback acts).mono _).weaken fun _ => Or.inl
      rintro w' ⟨hw', hq⟩
      exact ⟨hw', .message (hr.resolve_left nofun) ((hquiet.log _).trans hq)⟩
  | close =>
      apply ((hset.handleClose (setConn_self ..) (hages.open_iff.mpr hopen)).mono _).weaken
      · rintro f (hf | ⟨rfl, hf⟩)
        · exact Or.inl hf
        · exact Or.inr ⟨rfl, Or.inr ⟨rfl, hr.resolve_left nofun⟩, hf⟩
      · rintro w' ⟨hw', w₁, hq, hclosed⟩
        exact ⟨hw', .close (Or.inr ⟨rfl, hr.resolve_left nofun⟩) (hquiet.trans hq) hclosed⟩
  | error => exact ⟨hset, .quiet hquiet⟩

/-- The callbacks of a connection in use. -/
theorem Wired.runCallback_conn (h : Wired w owners) {c : Nat} {conn : TcpConnection}
    (hc : w.conns c = some conn) (hopen : conn.Open) (x : Answers) (cb : Channel.Callback) :
    Ends (fun w' => Wired w' owners ∧ Handled w c conn.name x.read cb w')
      (HandledFault w conn.name x.read cb) (w.runCallback 0 x (.conn c) cb) := by
  cases cb with
  | close =>
      apply ((h.handleClose hc hopen).mono _).weaken
      · rintro f (hf | ⟨rfl, hf⟩)
        · exact Or.inl hf
        · exact Or.inr ⟨rfl, Or.inl rfl, hf⟩
      · rintro w' ⟨hw', w₁, hq, hclosed⟩
        exact ⟨hw', .close (Or.inl rfl) hq hclosed⟩
  | error =>
      simp only [runCallback, endpoint_eq hc]
      exact ⟨h, .quiet (.refl w)⟩
  | read => exact h.handleRead hc hopen x.read x.acts
  | write =>
      apply ((h.handleWrite hc hopen x.write).mono _).weaken fun _ => Or.inl
      rintro w' ⟨hw', hq⟩
      exact ⟨hw', .quiet hq⟩

/-- The callbacks of the timer and of the wake-up channel. -/
theorem Wired.runCallback_standing (h : Wired w owners) {ref : ChannelRef}
    (href : ref = .timer 0 ∨ ref = .wakeup 0) (x : Answers) (cb : Channel.Callback) :
    Quietly w owners (w.runCallback 0 x ref cb) := by
  rcases href with rfl | rfl
  · cases cb with
    | read =>
        simp only [runCallback, h.home.assert_bind rfl]
        exact h.userCallback x.acts
    | close => exact h.quietly
    | error => exact h.quietly
    | write => exact h.quietly
  · cases cb with
    | read =>
        refine ⟨h.setEvent (h.home.threads 0), Quiet.setEvent fun _ => ⟨[], ?_, by simp⟩⟩
        simp [EventLoop.handleRead]
    | close => exact h.quietly
    | error => exact h.quietly
    | write => exact h.quietly

end Yatwb.World
