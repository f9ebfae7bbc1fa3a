import Yatwb.Server.Affinity

/-!
# What a callback of the user leaves alone

A server without pool threads is wired when the base poller represents its
registered channels. The calls a user may make, and the write callback of a
connection, keep a wired world wired, end with no fault of the poller and no
dangling pointer, and are quiet: they change buffers, interests, the state of
a connection from `connected` to `disconnecting`, and queue write-complete
callbacks, and nothing else of the base loop and the server.
-/

namespace Yatwb

open Foundation

namespace TcpConnection

/-- The states between `establishConnection` and `destroyConnection`. -/
def Open (conn : TcpConnection) : Prop :=
  conn.state = .connected ∨ conn.state = .disconnecting

/-- At most `shutdown` has been called. -/
def Ages (conn conn' : TcpConnection) : Prop :=
  conn'.name = conn.name ∧
    (conn'.state = conn.state ∨ conn.state = .connected ∧ conn'.state = .disconnecting)

variable {conn conn' conn'' : TcpConnection}

theorem Ages.refl (conn : TcpConnection) : conn.Ages conn := ⟨rfl, Or.inl rfl⟩

theorem Ages.trans (h : conn.Ages conn') (h' : conn'.Ages conn'') : conn.Ages conn'' := by
  refine ⟨h'.1.trans h.1, ?_⟩
  rcases h.2 with hs | ⟨hs, hs₁⟩
  · rw [← hs]
    exact h'.2
  · rcases h'.2 with hs' | ⟨hs', -⟩
    · exact Or.inr ⟨hs, hs'.trans hs₁⟩
    · rw [hs₁] at hs'
      cases hs'

theorem Ages.open_iff (h : conn.Ages conn') : conn'.Open ↔ conn.Open := by
  rcases h.2 with hs | ⟨hs, hs'⟩
  · simp only [Open, hs]
  · simp [Open, hs, hs']

theorem Ages.disconnected (h : conn.Ages conn') (hs : conn.state = .disconnected) :
    conn'.state = .disconnected := by
  rcases h.2 with hs' | ⟨hs', -⟩
  · exact hs'.trans hs
  · rw [hs] at hs'
    cases hs'

end TcpConnection

namespace World

/-- The base poller represents the registered channels, and every connection
in use is registered. -/
structure Wired (w : World) (owners : List ChannelRef) : Prop where
  home : Home w
  rep : (w.reactors 0).poller.Rep w.channels owners
  requested : ∀ ref, Channel.Requested (w.channels ref).events
  live : ∀ c conn, w.conns c = some conn → conn.Open → .conn c ∈ owners

/-- The faults that are left: none of the poller, no dangling pointer, and
none of the asserts on the life of a connection. -/
def Benign : Fault → Prop
  | .connection f => Endpoint.IoFault f
  | .poller _ => False
  | .removeConnectionCount => False
  | .dangling => False
  | _ => True

theorem benign_connection (f : TcpConnection.Fault) (h : Endpoint.IoFault f) :
    Benign (.connection f) := h

/-- The base loop and the server differ in what a callback of the user may change. -/
structure Quiet (w w' : World) : Prop where
  server : w'.server = w.server
  nextObj : w'.nextObj = w.nextObj
  openFds : w'.openFds = w.openFds
  trace : w'.trace = w.trace
  phase : (w'.reactors 0).phase = (w.reactors 0).phase
  pending : ∃ extra, (w'.reactors 0).event.pendingFunctors =
    (w.reactors 0).event.pendingFunctors ++ extra ∧ ∀ f ∈ extra, ∃ c, f = .writeComplete c
  conn_some : ∀ c conn, w.conns c = some conn → ∃ conn', w'.conns c = some conn' ∧ conn.Ages conn'
  conn_none : ∀ c, w.conns c = none → w'.conns c = none
  channels : ∀ ref, ∃ events, w'.channels ref = (w.channels ref).setEvents events
  still : ∀ c conn, w.conns c = some conn → conn.state = .disconnected →
    w'.channels (.conn c) = w.channels (.conn c)

namespace Quiet

variable {w w' w'' : World}

theorem refl (w : World) : Quiet w w where
  server := rfl
  nextObj := rfl
  openFds := rfl
  trace := rfl
  phase := rfl
  pending := ⟨[], by simp, by simp⟩
  conn_some _ conn hc := ⟨conn, hc, .refl conn⟩
  conn_none _ hc := hc
  channels ref := ⟨(w.channels ref).events, rfl⟩
  still _ _ _ _ := rfl

theorem trans (h : Quiet w w') (h' : Quiet w' w'') : Quiet w w'' where
  server := h'.server.trans h.server
  nextObj := h'.nextObj.trans h.nextObj
  openFds := h'.openFds.trans h.openFds
  trace := h'.trace.trans h.trace
  phase := h'.phase.trans h.phase
  pending := by
    obtain ⟨extra, he, hextra⟩ := h.pending
    obtain ⟨extra', he', hextra'⟩ := h'.pending
    refine ⟨extra ++ extra', by rw [he', he, List.append_assoc], ?_⟩
    intro f hf
    exact (List.mem_append.mp hf).elim (hextra f) (hextra' f)
  conn_some c conn hc := by
    obtain ⟨conn', hc', hages⟩ := h.conn_some c conn hc
    obtain ⟨conn'', hc'', hages'⟩ := h'.conn_some c conn' hc'
    exact ⟨conn'', hc'', hages.trans hages'⟩
  conn_none c hc := h'.conn_none c (h.conn_none c hc)
  channels ref := by
    obtain ⟨events, hevents⟩ := h.channels ref
    obtain ⟨events', hevents'⟩ := h'.channels ref
    exact ⟨events', by rw [hevents', hevents]; rfl⟩
  still c conn hc hs := by
    obtain ⟨conn', hc', hages⟩ := h.conn_some c conn hc
    exact (h'.still c conn' hc' (hages.disconnected hs)).trans (h.still c conn hc hs)

/-- A connection was there before. -/
theorem conn_of_some (h : Quiet w w') {c : Nat} {conn' : TcpConnection}
    (hc' : w'.conns c = some conn') : ∃ conn, w.conns c = some conn ∧ conn.Ages conn' := by
  cases hc : w.conns c with
  | none =>
      rw [h.conn_none c hc] at hc'
      cases hc'
  | some conn =>
      obtain ⟨conn'', hc'', hages⟩ := h.conn_some c conn hc
      rw [hc'] at hc''
      exact ⟨conn, rfl, Option.some.inj hc'' ▸ hages⟩

theorem log (h : Quiet w w') (event : Event) : Quiet (w.log event) (w'.log event) :=
  { h with trace := congrArg (· ++ [event]) h.trace }

/-- A connection changes its buffers, or `shutdown` has been called. -/
theorem setConn {c : Nat} {conn conn' : TcpConnection} (hc : w.conns c = some conn)
    (hages : conn.Ages conn') : Quiet w (w.setConn c (some conn')) := by
  refine { refl w with conn_some := ?_, conn_none := ?_ }
  · intro c' old hold
    by_cases heq : c' = c
    · subst heq
      rw [hc] at hold
      exact ⟨conn', setConn_self .., Option.some.inj hold ▸ hages⟩
    · exact ⟨old, (setConn_of_ne w heq _).trans hold, .refl old⟩
  · intro c' hnone
    have hne : c' ≠ c := by
      rintro rfl
      rw [hc] at hnone
      cases hnone
    exact (setConn_of_ne w hne _).trans hnone

/-- A loop has a new event state; on the base loop only write-complete
callbacks have been queued. -/
theorem setEvent {l : LoopId} {event : EventLoop Functor}
    (h : l = 0 → ∃ extra, event.pendingFunctors =
      (w.reactors 0).event.pendingFunctors ++ extra ∧ ∀ f ∈ extra, ∃ c, f = .writeComplete c) :
    Quiet w (w.setEvent l event) := by
  refine { refl w with phase := phase_setEvent .., pending := ?_ }
  by_cases hl : l = 0
  · subst hl
    obtain ⟨extra, hextra, hwrites⟩ := h rfl
    exact ⟨extra, by rw [event_setEvent_self, hextra], hwrites⟩
  · refine ⟨[], ?_, by simp⟩
    rw [World.setEvent, setReactor_of_ne w (Ne.symm hl), List.append_nil]

/-- A channel has new interests, and the poller knows them. -/
theorem rewire {ref : ChannelRef} (events : Events) (poller : Poller ChannelRef)
    (h : ∀ c conn, ref = .conn c → w.conns c = some conn → conn.state ≠ .disconnected) :
    Quiet w ((w.setChannel ref ((w.channels ref).setEvents events)).setPoller 0 poller) := by
  refine { refl w with phase := ?_, pending := ?_, channels := ?_, still := ?_ }
  · exact phase_setPoller (w.setChannel ref _) 0 0 poller
  · refine ⟨[], ?_, by simp⟩
    rw [event_setPoller, List.append_nil]
    rfl
  · intro ref'
    by_cases href : ref' = ref
    · subst href
      exact ⟨events, setChannel_self ..⟩
    · exact ⟨(w.channels ref').events, setChannel_of_ne w href _⟩
  · intro c conn hc hs
    apply setChannel_of_ne
    rintro rfl
    exact h c conn rfl hc hs

end Quiet

/-- A computation that keeps the world wired and is quiet. -/
abbrev Quietly (w : World) (owners : List ChannelRef) (x : Except Fault World) : Prop :=
  Ends (fun w' => Wired w' owners ∧ Quiet w w') Benign x

variable {w : World} {owners : List ChannelRef}

theorem Quietly.bind {x : Except Fault World} {f : World → Except Fault World}
    (h : Quietly w owners x)
    (hf : ∀ w', Wired w' owners → Quiet w w' → Quietly w' owners (f w')) :
    Quietly w owners (x >>= f) := by
  apply Ends.bind h
  rintro w' ⟨hw', hq⟩
  apply (hf w' hw' hq).mono
  rintro w'' ⟨hw'', hq'⟩
  exact ⟨hw'', hq.trans hq'⟩

theorem Quietly.after {w₀ : World} (hq : Quiet w₀ w) {x : Except Fault World}
    (h : Quietly w owners x) : Quietly w₀ owners x :=
  h.mono fun _ hw' => ⟨hw'.1, hq.trans hw'.2⟩

/-- An endpoint that keeps its channel. -/
theorem setEndpoint_same (c : Nat) (conn : TcpConnection) :
    w.setEndpoint c ⟨conn, w.channels (.conn c)⟩ = w.setConn c (some conn) := by
  have hsame : Function.update w.channels (.conn c) (w.channels (.conn c)) = w.channels :=
    Function.update_eq_self ..
  simp only [setEndpoint, setChannel, setConn, hsame]

theorem setConn_same {c : Nat} {conn : TcpConnection} (hc : w.conns c = some conn) :
    w.setConn c (some conn) = w := by
  have hsame : Function.update w.conns c (some conn) = w.conns := by
    rw [← hc]
    exact Function.update_eq_self ..
  simp only [setConn, hsame]

theorem commit_of_loop {tid : ThreadId} {c : Nat} {e : Endpoint} {asked : List Request}
    (hloop : e.conn.loop = 0) :
    w.commit tid c (e, asked) = (w.setEndpoint c e).requests tid c 0 asked := by
  rw [commit, hloop]

/-- The first requests are writes, then the new interest goes to the poller. -/
theorem requests_updates {c : Nat} {conn : TcpConnection} {i : Channel.Interest}
    {pre post : List Request} (hpre : ∀ q ∈ pre, ∃ taken, q = .write taken) :
    (w.setEndpoint c ⟨conn, (w.channels (.conn c)).change i⟩).requests 0 c 0
        (pre ++ .update :: post) =
      (w.setConn c (some conn)).changeInterest 0 (.conn c) i >>=
        fun w' => w'.requests 0 c 0 post := by
  induction pre with
  | nil => rfl
  | cons q rest ih =>
      obtain ⟨taken, rfl⟩ := hpre q (List.mem_cons_self ..)
      exact ih fun q' hq' => hpre q' (List.mem_cons_of_mem _ hq')

/-- `updateChannel` on the base loop, once the answer of the poller is known. -/
theorem Home.ends_updateChannel (h : Home w) {ref : ChannelRef} (href : homeLoop ref = 0)
    {poller : Poller ChannelRef} {channels : ChannelRef → Channel}
    (hupdate : (w.reactors 0).poller.updateChannel w.channels ref = .ok (poller, channels))
    {After : World → Prop} {Allowed : Fault → Prop} (howner : Allowed .updateChannelOwner)
    (hafter : After { w.setPoller 0 poller with channels := channels }) :
    Ends After Allowed (w.updateChannel 0 ref) := by
  have hloop : (w.channels ref).loop = 0 := (h.channels ref).trans href
  simp only [World.updateChannel, hloop]
  apply ends_check fun _ => howner
  intro _
  rw [h.assert_bind rfl, hupdate]
  exact hafter

namespace Wired

theorem quietly (h : Wired w owners) : Quietly w owners (.ok w) := ⟨h, .refl w⟩

theorem requested_setChannel (h : Wired w owners) (ref : ChannelRef) {channel : Channel}
    (hreq : Channel.Requested channel.events) (ref' : ChannelRef) :
    Channel.Requested ((w.setChannel ref channel).channels ref').events := by
  by_cases href : ref' = ref
  · subst href
    rw [setChannel_self]
    exact hreq
  · rw [setChannel_of_ne w href]
    exact h.requested ref'

theorem homeLoop_eq (h : Wired w owners) {ref : ChannelRef} (href : ref ∈ owners) :
    homeLoop ref = 0 :=
  h.home.registered ref ⟨_, (h.rep.map_iff _ ref).mpr ⟨href, rfl⟩⟩

/-- The interest of a registered channel changes in the channel and in its slot. -/
theorem changeInterest_registered (h : Wired w owners) {ref : ChannelRef} (href : ref ∈ owners)
    (i : Channel.Interest) :
    Ends (fun w' => Wired w' owners ∧ ∃ poller,
        w' = (w.setChannel ref ((w.channels ref).change i)).setPoller 0 poller) Benign
      (w.changeInterest 0 ref i) := by
  have hhome := h.homeLoop_eq href
  obtain ⟨poller, hupdate, hrep, -⟩ :=
    h.rep.updateChannel_existing href ((h.requested ref).change i)
  have hset : Home (w.setChannel ref ((w.channels ref).change i)) := h.home.setChannel rfl
  have hmain : Ends (fun w' => w' =
      (w.setChannel ref ((w.channels ref).change i)).setPoller 0 poller) Benign
      (w.changeInterest 0 ref i) := hset.ends_updateChannel hhome hupdate trivial rfl
  apply ((hmain.and (h.home.changeInterest hhome i)).mono _).weaken fun _ hf => hf.1
  rintro w' ⟨rfl, hhome'⟩
  refine ⟨⟨hhome', ?_, h.requested_setChannel ref ((h.requested ref).change i), h.live⟩,
    poller, rfl⟩
  rw [poller_setPoller_self]
  exact hrep

/-- A change of a registered channel is quiet, if its connection is in use. -/
theorem changeInterest (h : Wired w owners) {c : Nat} {conn : TcpConnection}
    (hc : w.conns c = some conn) (hopen : conn.Open) (i : Channel.Interest) :
    Quietly w owners (w.changeInterest 0 (.conn c) i) := by
  apply (h.changeInterest_registered (h.live c conn hc hopen) i).mono
  rintro w' ⟨hw', poller, rfl⟩
  refine ⟨hw', Quiet.rewire _ poller ?_⟩
  rintro c' conn' ⟨⟩ hc' hs
  rw [hc] at hc'
  obtain rfl := Option.some.inj hc'
  rw [TcpConnection.Open, hs] at hopen
  rcases hopen with hopen | hopen <;> cases hopen

theorem setConn (h : Wired w owners) {c : Nat} {conn conn' : TcpConnection}
    (hc : w.conns c = some conn) (hages : conn.Ages conn') (hloop : conn'.loop = conn.loop) :
    Wired (w.setConn c (some conn')) owners where
  home := h.home.setConn (by simp [hloop, h.home.conns c conn hc])
  rep := h.rep
  requested := h.requested
  live c' conn'' hc' hopen := by
    by_cases heq : c' = c
    · subst heq
      rw [setConn_self] at hc'
      obtain rfl := Option.some.inj hc'
      exact h.live c' conn hc (hages.open_iff.mp hopen)
    · rw [setConn_of_ne w heq] at hc'
      exact h.live c' conn'' hc' hopen

theorem setEvent (h : Wired w owners) {l : LoopId} {event : EventLoop Functor}
    (hthread : event.threadId = l) : Wired (w.setEvent l event) owners where
  home := h.home.setEvent hthread
  rep := by
    rw [poller_setEvent]
    exact h.rep
  requested := h.requested
  live := h.live

theorem queueInLoop (h : Wired w owners) {l : LoopId} {cb : Functor}
    (hcb : l = 0 → ∃ c, cb = .writeComplete c) : Quietly w owners (w.queueInLoop 0 l cb) := by
  apply ((EventLoop.queueInLoop_spec _ 0 cb).mapError (by simp [Benign])).bind
  rintro event ⟨hthread, hpending⟩
  refine ⟨h.setEvent (hthread.trans (h.home.threads l)), Quiet.setEvent ?_⟩
  rintro rfl
  obtain ⟨c, rfl⟩ := hcb rfl
  exact ⟨[.writeComplete c], hpending, by simp⟩

/-- Requests other than `update` are quiet. -/
theorem requests (h : Wired w owners) (c : Nat) {asked : List Request}
    (hasked : .update ∉ asked) : Quietly w owners (w.requests 0 c 0 asked) := by
  induction asked generalizing w with
  | nil => exact h.quietly
  | cons q rest ih =>
      have hq : Quietly w owners (w.request 0 c 0 q) := by
        cases q with
        | write taken => exact h.quietly
        | update => exact absurd (List.mem_cons_self ..) hasked
        | queueWriteComplete => exact h.queueInLoop fun _ => ⟨c, rfl⟩
        | shutdownWrite => exact h.quietly
      apply hq.bind
      intro w' hw' _
      exact ih hw' fun hmem => hasked (List.mem_cons_of_mem _ hmem)

/-- A write path of a connection in use is quiet. -/
theorem commit_writes (h : Wired w owners) {c : Nat} {conn : TcpConnection}
    (hc : w.conns c = some conn) (hopen : conn.Open) {outcome : Endpoint × List Request}
    (hw : Endpoint.Writes ⟨conn, w.channels (.conn c)⟩ outcome) :
    Quietly w owners (w.commit 0 c outcome) := by
  obtain ⟨⟨conn', channel'⟩, asked⟩ := outcome
  obtain ⟨⟨b, hb⟩, hchannel⟩ := hw
  have hb : conn' = { conn with outputBuffer := b } := hb
  have hages : conn.Ages conn' := by
    rw [hb]
    exact ⟨rfl, Or.inl rfl⟩
  have hsame : conn'.loop = conn.loop := by rw [hb]
  have hset := h.setConn hc hages hsame
  have hquiet := Quiet.setConn hc hages
  rw [commit_of_loop (hsame.trans (h.home.conns c conn hc))]
  rcases hchannel with ⟨rfl, hasked⟩ | ⟨i, post, rfl, ⟨pre, rfl, hpre⟩, hpost⟩
  · rw [setEndpoint_same]
    exact Quietly.after hquiet (hset.requests c hasked)
  · rw [requests_updates hpre]
    apply Quietly.after hquiet
    apply (hset.changeInterest (setConn_self ..) (hages.open_iff.mpr hopen) i).bind
    intro w' hw' _
    exact hw'.requests c hpost

theorem sendInLoop (h : Wired w owners) {c : Nat} {conn : TcpConnection}
    (hc : w.conns c = some conn) (hopen : conn.Open) (message : List Byte) (r : WriteResult) :
    Quietly w owners (w.sendInLoop 0 c message r) := by
  apply ends_endpoint (by simp [hc])
  intro conn' hc'
  obtain rfl : conn = conn' := Option.some.inj (hc.symm.trans hc')
  rw [h.home.assert_bind (h.home.conns c conn hc)]
  apply ((Endpoint.sendInLoop_writes _ message r).mapError benign_connection).bind
  intro outcome hw
  exact h.commit_writes hc hopen hw

theorem handleWrite (h : Wired w owners) {c : Nat} {conn : TcpConnection}
    (hc : w.conns c = some conn) (hopen : conn.Open) (r : WriteResult) :
    Quietly w owners (w.handleWrite 0 c r) := by
  apply ends_endpoint (by simp [hc])
  intro conn' hc'
  obtain rfl : conn = conn' := Option.some.inj (hc.symm.trans hc')
  rw [h.home.assert_bind (h.home.conns c conn hc)]
  apply ((Endpoint.handleWrite_writes _ r).mapError benign_connection).bind
  intro outcome hw
  exact h.commit_writes hc hopen hw

theorem send (h : Wired w owners) (c : Nat) (message : List Byte) (r : WriteResult) :
    Quietly w owners (w.send 0 c message r) := by
  unfold World.send
  split
  · exact h.quietly
  · rename_i conn hc
    rw [h.home.isInLoopThread, h.home.conns c conn hc]
    split
    · rename_i hstate
      exact h.sendInLoop hc (Or.inl hstate) message r
    · exact h.quietly

theorem shutdownInLoop (h : Wired w owners) {c : Nat} {conn : TcpConnection}
    (hc : w.conns c = some conn) : Quietly w owners (w.shutdownInLoop 0 c) := by
  apply ends_endpoint (by simp [hc])
  intro conn' hc'
  have hloop := h.home.conns c conn' hc'
  rw [h.home.assert_bind hloop]
  rw [commit_of_loop hloop, setEndpoint_same, setConn_same hc']
  apply h.requests c
  unfold Endpoint.shutdownInLoop
  split <;> simp

theorem shutdown (h : Wired w owners) (c : Nat) : Quietly w owners (w.shutdown 0 c) := by
  unfold World.shutdown
  split
  · exact h.quietly
  · rename_i conn hc
    split
    · rename_i hstate
      have hages : conn.Ages { conn with state := .disconnecting } :=
        ⟨rfl, Or.inr ⟨hstate, rfl⟩⟩
      have hset := h.setConn hc hages rfl
      have hin : ((w.setConn c (some { conn with state := .disconnecting })).reactors
          conn.loop).event.isInLoopThread 0 = true := by
        rw [hset.home.isInLoopThread, h.home.conns c conn hc]
        rfl
      simp only [if_pos hin]
      exact Quietly.after (Quiet.setConn hc hages) (hset.shutdownInLoop (setConn_self ..))
    · exact h.quietly

theorem addTimer (h : Wired w owners) (l : LoopId) : Quietly w owners (w.addTimer 0 l) := by
  unfold World.addTimer
  split
  · rename_i hin
    rw [h.home.isInLoopThread, beq_iff_eq] at hin
    rw [addTimerInLoop, h.home.assert_bind hin]
    exact h.quietly
  · rename_i hout
    apply h.queueInLoop
    rintro rfl
    simp [h.home.isInLoopThread] at hout

theorem retrieveAsString (h : Wired w owners) (c : Nat) :
    Quietly w owners (w.retrieveAsString c) := by
  unfold World.retrieveAsString
  split
  · exact h.quietly
  · rename_i conn hc
    apply ((ends_any _).mapError fun _ _ => trivial).bind
    rintro ⟨input, text⟩ _
    have hages : conn.Ages { conn with inputBuffer := input } := ⟨rfl, Or.inl rfl⟩
    exact ⟨h.setConn hc hages rfl, Quiet.setConn hc hages⟩

theorem userAct (h : Wired w owners) (act : UserAct) : Quietly w owners (w.userAct 0 act) := by
  cases act with
  | send c message r => exact h.send c message r
  | shutdown c => exact h.shutdown c
  | retrieveAsString c => exact h.retrieveAsString c
  | addTimer l => exact h.addTimer l

/-- Whatever a callback of the user does, it does it quietly. -/
theorem userCallback (h : Wired w owners) (acts : List UserAct) :
    Quietly w owners (w.userCallback 0 acts) := by
  induction acts generalizing w with
  | nil => exact h.quietly
  | cons act rest ih =>
      apply (h.userAct act).bind
      intro w' hw' _
      exact ih hw'

end Wired

end World

end Yatwb
