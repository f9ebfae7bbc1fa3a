import Yatwb.Echo.Service

/-!
# The callbacks and functors of an echo server

A callback of a connection moves bytes on its own line only. A read that finds
bytes echoes them, one that finds the end of the stream closes the connection,
and a write sends what waits. Accepting begins a line, and the functor that
destroys a connection ends it without touching the others.
-/

namespace Yatwb

open Foundation

namespace EchoServer

open World

variable {s : EchoServer} {w w' : World} {owners : List ChannelRef} {c c' : Nat}
  {cb : Channel.Callback} {x : Answers} {conn : TcpConnection}

/-! ### The bytes of a callback -/

theorem arriving_other (hcurrent : w.current 0 = some (c, cb)) (hne : c' ≠ c) :
    arriving w (.callback 0 x) c' = [] := by
  simp [arriving, hcurrent, Ne.symm hne]

theorem leaving_other (hcurrent : w.current 0 = some (c, cb)) (hne : c' ≠ c) :
    leaving w (.callback 0 x) c' = [] := by
  cases hc : w.conns c' with
  | none => simp [leaving, hcurrent, hc]
  | some conn => simp [leaving, hcurrent, hc, Ne.symm hne]

theorem arriving_read (hcurrent : w.current 0 = some (c, .read)) :
    arriving w (.callback 0 x) c = x.read.data := by
  simp [arriving, hcurrent]

theorem arriving_of_ne (hcurrent : w.current 0 = some (c, cb)) (hcb : cb ≠ .read) :
    arriving w (.callback 0 x) c = [] := by
  simp [arriving, hcurrent, hcb]

theorem leaving_self (hcurrent : w.current 0 = some (c, cb)) (hc : w.conns c = some conn) :
    leaving w (.callback 0 x) c = taken (method w x c conn cb) := by
  simp [leaving, hcurrent, hc]

/-- A callback that belongs to no connection moves no bytes. -/
theorem silent_of_current (hcurrent : w.current 0 = none) (c : Nat) :
    arriving w (.callback 0 x) c = [] ∧ leaving w (.callback 0 x) c = [] := by
  simp [arriving, leaving, hcurrent]

/-! ### What a commit leaves alone -/

/-- A listed connection is registered. -/
theorem mem_of_listed (hinv : Inv w owners) (c : Nat) (hlisted : w.Listed c) :
    .conn c ∈ owners := by
  obtain ⟨name, hname⟩ := hlisted
  exact (hinv.owned.named name c hname).1

theorem alike_of_committed (hmem : ∀ c, w.Listed c → .conn c ∈ owners) {e : Endpoint}
    (h : Committed w owners c e w') : Alike (fun c' => c' = c) w w' := by
  have hwatched := h.others
  obtain ⟨poller, rfl⟩ := h.eq
  have hchannel {c' : Nat} (hne : c' ≠ c) :
      ((w.setEndpoint c e).setPoller 0 poller).channels (.conn c') = w.channels (.conn c') :=
    setChannel_of_ne _ (fun heq => hne (ChannelRef.conn.inj heq)) e.channel
  refine ⟨le_rfl, fun c' hne => setConn_of_ne w hne _, fun _ _ => Iff.rfl,
    fun c' hne => by rw [hchannel hne], fun c' hne => by rw [hchannel hne], ?_⟩
  intro c' hne hlisted
  exact hwatched _ (hmem c' hlisted) fun heq => hne (ChannelRef.conn.inj heq)

theorem Engine.committed (h : Engine w) {e : Endpoint} (hcommitted : Committed w owners c e w') :
    Engine w' := by
  apply h.congr hcommitted.event hcommitted.phase
  · rw [hcommitted.server]
    exact h.pool
  · rw [hcommitted.server]
  · intro ref href
    obtain ⟨poller, rfl⟩ := hcommitted.eq
    have hne : ref ≠ .conn c := by
      rintro rfl
      exact href
    exact congrArg Channel.ownerLoop (setChannel_of_ne _ hne e.channel)

theorem Engine.log (h : Engine w) (event : Event) : Engine (w.log event) :=
  h.congr rfl rfl h.pool rfl fun _ _ => rfl

/-- A connection that is there is not one of those to come. -/
theorem account_of_line {s' : EchoServer} (hfresh : c < s'.world.nextObj)
    (hc : s'.world.conns c = some conn)
    (hline : Line s'.world c conn (s'.received c) (s'.transmitted c)) : Account s' c := by
  refine ⟨?_, ?_, ?_⟩
  · intro conn' hc'
    obtain rfl := Option.some.inj (hc.symm.trans hc')
    exact hline
  · intro hnone
    rw [hc] at hnone
    cases hnone
  · intro hnext
    exact absurd hfresh (Nat.not_lt.mpr hnext)

/-- A callback of the connection `c` leaves the accounts of the others alone. -/
theorem Serves.after_callback (h : Serves s owners) (hcurrent : s.world.current 0 = some (c, cb))
    (halike : Alike (fun c' => c' = c) s.world w')
    (haccount : Account (s.after (.callback 0 x) w') c) (c' : Nat) :
    Account (s.after (.callback 0 x) w') c' := by
  by_cases hne : c' = c
  · exact hne ▸ haccount
  · refine Alike.account halike hne ?_ ?_ (h.accounts c')
    · exact (congrArg (s.received c' ++ ·) (arriving_other hcurrent hne)).trans (List.append_nil _)
    · exact (congrArg (s.transmitted c' ++ ·) (leaving_other hcurrent hne)).trans
        (List.append_nil _)

/-! ### The callbacks of a connection -/

/-- The world in which a callback runs: it has been taken off the list. -/
structure Popped (s : EchoServer) (owners : List ChannelRef) (w : World) : Prop where
  inv : Inv w owners
  engine : Engine w
  same : Same s.world w
  conns : w.conns = s.world.conns
  channels : w.channels = s.world.channels
  mutex : (w.reactors 0).event.mutex = none
  batching : (w.reactors 0).phase.batching = false
  inside : (w.reactors 0).phase ≠ .outside

theorem Serves.pop (h : Serves s owners) {ref : ChannelRef} {callbacks : List Channel.Callback}
    {active : List ChannelRef}
    (hphase : (s.world.reactors 0).phase = .handling ref (cb :: callbacks) active) :
    Popped s owners (s.world.setPhase 0 (.handling ref callbacks active)) := by
  have hrefs := h.inv.owned.refs
  rw [hphase] at hrefs
  have hengine : Engine (s.world.setPhase 0 (.handling ref callbacks active)) := by
    apply h.engine.setPhase
    · rw [hphase]
      rfl
    · simp
    · simp [Phase.rest]
  refine ⟨⟨h.inv.wired.setPhase hrefs, h.inv.owned.popCallback hphase⟩, hengine,
    Alike.setPhase s.world _, rfl, rfl, ?_, ?_, ?_⟩
  · rw [hengine.mutex, phase_setPhase_self]
    rfl
  · rw [phase_setPhase_self]
    rfl
  · rw [phase_setPhase_self]
    simp

/-- The line of the connection whose callback runs, while it is listed. -/
theorem Serves.serving (h : Serves s owners) (hc : s.world.conns c = some conn)
    (hlisted : s.world.Listed c) : Serving ⟨conn, s.world.channels (.conn c)⟩ :=
  (((h.accounts c).line conn hc).listed hlisted).1

variable {w₀ : World}

/-- A listed line has been carried on by one of its methods. -/
theorem Serves.carried (h : Serves s owners) (hpop : Popped s owners w₀)
    (hcurrent : s.world.current 0 = some (c, cb)) (hc : s.world.conns c = some conn)
    (hlisted : s.world.Listed c) {w₁ : World} (hsame₁ : Same w₀ w₁) (hengine₁ : Engine w₁)
    (hinv₁ : Inv w₁ owners) {e₁ e : Endpoint} {asked : List Request}
    (hcarries : e₁.Carries (arriving s.world (.callback 0 x) c) e asked)
    (hchannel₁ : e₁.channel = s.world.channels (.conn c)) (htidy₁ : Tidy e₁.conn)
    (hconnected : e₁.conn.state = .connected)
    (hpending : e₁.pending = conn.outputBuffer.content)
    (htaken : leaving s.world (.callback 0 x) c = sentBytes asked)
    (hcommitted : Committed w₁ owners c e w') :
    Engine w' ∧ ∀ c', Account (s.after (.callback 0 x) w') c' := by
  have hline := (h.accounts c).line conn hc
  obtain ⟨hserving, hwatched⟩ := hline.listed hlisted
  have hsame : Same s.world w₁ := hpop.same.trans hsame₁
  have halike : Alike (fun c' => c' = c) s.world w' :=
    (hsame.weaken _).trans (alike_of_committed (mem_of_listed hinv₁) hcommitted)
  have hserving₁ : Serving e₁ := by
    obtain ⟨conn₁, channel₁⟩ := e₁
    subst hchannel₁
    have hwriting : Endpoint.isWriting ⟨conn₁, s.world.channels (.conn c)⟩ =
        Endpoint.isWriting ⟨conn, s.world.channels (.conn c)⟩ := rfl
    refine ⟨hconnected, hserving.reading, ?_⟩
    have hlength : Endpoint.outstanding ⟨conn₁, s.world.channels (.conn c)⟩ =
        Endpoint.outstanding ⟨conn, s.world.channels (.conn c)⟩ := by
      have hlen := congrArg List.length hpending
      rw [Endpoint.pending, Buffer.length_content htidy₁.output,
        Buffer.length_content hline.tidy.output] at hlen
      exact hlen
    rw [Endpoint.InStep, hwriting, hlength]
    exact hserving.inStep
  have hserving' := hserving₁.carried hcarries
  have hlisted' : w'.Listed c :=
    (hcommitted.listed_iff c).mpr ((hsame.listed c id).mpr hlisted)
  refine ⟨hengine₁.committed hcommitted, h.after_callback hcurrent halike ?_⟩
  have hfresh : c < w'.nextObj := Nat.lt_of_lt_of_le (h.inv.owned.lt_of_conn hc) halike.nextObj
  apply account_of_line hfresh hcommitted.conn
  refine ⟨htidy₁.carried hcarries, ?_, ?_, fun _ => ⟨?_, ?_⟩, fun hout => absurd hlisted' hout⟩
  · change (w'.channels (.conn c)).ownerLoop = 0
    rw [hcommitted.channel]
    rcases hcarries.channel with heq | heq | heq <;> rw [heq, hchannel₁] <;> exact hline.owner
  · change (s.transmitted c ++ leaving s.world _ c) ++ e.pending =
      s.received c ++ arriving s.world _ c
    rw [htaken, List.append_assoc, hcarries.bytes, hpending, ← List.append_assoc, hline.bytes]
  · rw [show (s.after (.callback 0 x) w').world = w' from rfl, hcommitted.channel]
    exact hserving'
  · exact hcommitted.own hserving'.reading.ne_none (hsame.watched c id hlisted hwatched)

/-- A listed connection is closed by one of its callbacks. -/
theorem Serves.hungUp (h : Serves s owners) (hcurrent : s.world.current 0 = some (c, cb))
    (hc : s.world.conns c = some conn) {w₁ : World} (hinv₁ : Inv w₁ owners)
    (hengine₁ : Engine w₁) (halike₁ : Alike (fun c' => c' = c) s.world w₁)
    (hlisted₁ : w₁.Listed c) {conn₁ : TcpConnection} (hc₁ : w₁.conns c = some conn₁)
    (htidy₁ : Tidy conn₁) (houtput : conn₁.outputBuffer = conn.outputBuffer)
    (howner₁ : (w₁.channels (.conn c)).ownerLoop = 0)
    (hmutex₁ : (w₁.reactors 0).event.mutex = none)
    (hbatching₁ : (w₁.reactors 0).phase.batching = false)
    (hinside₁ : (w₁.reactors 0).phase ≠ .outside)
    (harriving : arriving s.world (.callback 0 x) c = [])
    (hleaving : leaving s.world (.callback 0 x) c = []) :
    Runs s (.callback 0 x) (w₁.handleClose 0 c) := by
  have hmem := mem_of_listed hinv₁ c hlisted₁
  obtain ⟨hopen, -⟩ := hinv₁.owned.inUse c conn₁ hmem hc₁
  have hname : conn₁.name ∈ w₁.server.connections := by
    obtain ⟨name, hname⟩ := hlisted₁
    obtain ⟨-, conn', hc', rfl⟩ := hinv₁.owned.named name c hname
    obtain rfl := Option.some.inj (hc₁.symm.trans hc')
    rw [Std.ExtTreeMap.mem_iff_isSome_getElem?, hname]
    rfl
  obtain ⟨w', hw', hhung⟩ := hinv₁.wired.handleClose_eq hc₁ hopen howner₁ hname hmutex₁
  have hlisted (c' : Nat) : w'.Listed c' ↔ w₁.Listed c' ∧ c' ≠ c := by
    obtain ⟨w₂, hquiet, hclosed⟩ := hhung.closed
    obtain ⟨conn₂, hc₂, hages⟩ := hquiet.conn_some c conn₁ hc₁
    rw [← hages.1] at hclosed
    rw [hclosed.listed_iff (hinv₁.owned.quiet hquiet) hc₂, Listed, Listed, hquiet.server]
  obtain ⟨w₂, event, hcommitted, rfl, hfree, hlooping, hpending⟩ := hhung.committed
  have hwatched (ref : ChannelRef) : w₂.Watched ref → ((((w₂.log (.handleClose c)).eraseConnection
      conn₁.name).log (.removeConnection c)).setEvent 0 event).Watched ref := by
    intro hw
    rw [Watched, poller_setEvent]
    exact hw
  refine ⟨_, hw', ?_, fun c' => h.after_callback hcurrent ?_ ?_ c'⟩
  · have hengine₂ := hengine₁.committed hcommitted
    have hphase₂ : (((((w₂.log (.handleClose c)).eraseConnection conn₁.name).log
        (.removeConnection c)).setEvent 0 event).reactors 0).phase = (w₁.reactors 0).phase :=
      (phase_setEvent _ 0 0 event).trans hcommitted.phase
    refine ⟨?_, ?_, hengine₂.pool, ?_, hengine₂.writeCmplCb, hengine₂.owner⟩
    · rw [event_setEvent_self, hphase₂, hbatching₁]
      exact hfree
    · rw [hphase₂]
      exact fun hout => absurd hout hinside₁
    · intro f hf
      rw [waiting, event_setEvent_self, hphase₂, hpending, List.append_assoc] at hf
      rcases List.mem_append.mp hf with hf | hf
      · exact hengine₁.functors f (List.mem_append_left _ hf)
      · rcases List.mem_append.mp hf with hf | hf
        · exact ⟨c, List.mem_singleton.mp hf⟩
        · exact hengine₁.functors f (List.mem_append_right _ hf)
  · have halike := halike₁.trans (alike_of_committed (mem_of_listed hinv₁) hcommitted)
    refine ⟨halike.nextObj, halike.conns, ?_, halike.owner, halike.events,
      fun c' hne hl hw => hwatched _ (halike.watched c' hne hl hw)⟩
    intro c' hne
    rw [hlisted, halike₁.listed c' hne, and_iff_left hne]
  · have hfresh : c < w₂.nextObj := hcommitted.nextObj ▸ hinv₁.owned.lt_of_conn hc₁
    have hline := (h.accounts c).line conn hc
    apply account_of_line hfresh hcommitted.conn
    refine ⟨htidy₁, ?_, ?_, fun hl => absurd rfl ((hlisted c).mp hl).2, fun _ => ?_⟩
    · change (w₂.channels (.conn c)).ownerLoop = 0
      rw [hcommitted.channel]
      exact howner₁
    · change (s.transmitted c ++ leaving s.world _ c) ++ conn₁.outputBuffer.content =
        s.received c ++ arriving s.world _ c
      rw [harriving, hleaving, List.append_nil, List.append_nil, houtput]
      exact hline.bytes
    · change (w₂.channels (.conn c)).events = _
      rw [hcommitted.channel]
      rfl

/-- A callback of a connection that moves no bytes and leaves the connections alone. -/
theorem Serves.idle (h : Serves s owners) (hcurrent : s.world.current 0 = some (c, cb))
    (harriving : arriving s.world (.callback 0 x) c = [])
    (hleaving : leaving s.world (.callback 0 x) c = []) (hengine : Engine w')
    (hsame : Same s.world w') : Runs s (.callback 0 x) (.ok w') := by
  apply h.silent _ hengine hsame
  intro c'
  by_cases hne : c' = c
  · subst hne
    exact ⟨harriving, hleaving⟩
  · exact ⟨arriving_other hcurrent hne, leaving_other hcurrent hne⟩

variable {callbacks : List Channel.Callback} {active : List ChannelRef}

theorem current_of_phase
    (hphase : (w.reactors 0).phase = .handling (.conn c) (cb :: callbacks) active) :
    w.current 0 = some (c, cb) := by
  simp [current, hphase]

/-- The connection whose callback runs is there. -/
theorem Serves.conn_of_phase (h : Serves s owners)
    (hphase : (s.world.reactors 0).phase = .handling (.conn c) (cb :: callbacks) active) :
    .conn c ∈ owners ∧ ∃ conn, s.world.conns c = some conn ∧ conn.Open := by
  have hrefs := h.inv.owned.refs
  rw [hphase] at hrefs
  have hmem := hrefs (.conn c) (List.mem_cons_self ..)
  exact ⟨hmem, h.inv.owned.conn_of_mem hmem⟩

/-- The callbacks that may close a connection find it listed. -/
theorem Serves.listed_of_mayClose (h : Serves s owners)
    (hphase : (s.world.reactors 0).phase = .handling (.conn c) (cb :: callbacks) active)
    (hcb : MayClose x.read cb) (hearly : s.world.lateRead (.callback 0 x) = false) :
    s.world.Listed c :=
  h.inv.owned.listed (h.conn_of_phase hphase).1 (h.life.not_dying hphase hcb hearly)

/-- The callback of `POLLHUP`. -/
theorem Serves.close (h : Serves s owners)
    (hphase : (s.world.reactors 0).phase = .handling (.conn c) (.close :: callbacks) active)
    (hearly : s.world.lateRead (.callback 0 x) = false) :
    Runs s (.callback 0 x)
      ((s.world.setPhase 0 (.handling (.conn c) callbacks active)).handleClose 0 c) := by
  have hpop := h.pop hphase
  have hcurrent := current_of_phase hphase
  obtain ⟨-, conn, hc, -⟩ := h.conn_of_phase hphase
  have hline := (h.accounts c).line conn hc
  have hlisted := h.listed_of_mayClose hphase (Or.inl rfl) hearly
  apply h.hungUp hcurrent hc hpop.inv hpop.engine (hpop.same.weaken _) hlisted hc hline.tidy rfl
    hline.owner hpop.mutex hpop.batching hpop.inside
  · exact arriving_of_ne hcurrent (by simp)
  · rw [leaving_self hcurrent hc]
    rfl

/-- A read that fails. -/
theorem Serves.readError (h : Serves s owners)
    (hphase : (s.world.reactors 0).phase = .handling (.conn c) (.read :: callbacks) active)
    {errno : Int} (hread : x.read = .error errno) (acts : List UserAct) :
    Runs s (.callback 0 x)
      ((s.world.setPhase 0 (.handling (.conn c) callbacks active)).handleRead 0 c x.read acts) := by
  have hpop := h.pop hphase
  have hcurrent := current_of_phase hphase
  obtain ⟨-, conn, hc, -⟩ := h.conn_of_phase hphase
  have hc₀ : (s.world.setPhase 0 (.handling (.conn c) callbacks active)).conns c = some conn := hc
  have hrun : (s.world.setPhase 0 (.handling (.conn c) callbacks active)).handleRead 0 c x.read
      acts = .ok (s.world.setPhase 0 (.handling (.conn c) callbacks active)) := by
    rw [World.handleRead, endpoint_eq hc₀, hread]
    change Except.ok (World.setEndpoint _ c ⟨conn, _⟩) = _
    rw [setEndpoint_same, setConn_same hc₀]
  rw [hrun]
  apply h.idle hcurrent _ _ hpop.engine hpop.same
  · rw [arriving_read hcurrent, hread]
    rfl
  · rw [leaving_self hcurrent hc, method, handleRead, hread]
    rfl

/-- A read that finds the end of the stream. -/
theorem Serves.readEnd (h : Serves s owners)
    (hphase : (s.world.reactors 0).phase = .handling (.conn c) (.read :: callbacks) active)
    (hearly : s.world.lateRead (.callback 0 x) = false) (hread : x.read = .received [])
    (acts : List UserAct) :
    Runs s (.callback 0 x)
      ((s.world.setPhase 0 (.handling (.conn c) callbacks active)).handleRead 0 c x.read acts) := by
  have hpop := h.pop hphase
  have hcurrent := current_of_phase hphase
  obtain ⟨-, conn, hc, -⟩ := h.conn_of_phase hphase
  have hline := (h.accounts c).line conn hc
  have hlisted := h.listed_of_mayClose (x := x) hphase
    (Or.inr ⟨rfl, by rw [hread]; trivial⟩) hearly
  obtain ⟨b, hb, hinv, hcontent⟩ := Buffer.readFd_received hline.tidy.input []
  generalize s.world.setPhase 0 (.handling (.conn c) callbacks active) = w₀ at hpop ⊢
  have hc₀ : w₀.conns c = some conn := hpop.conns ▸ hc
  have hend : Endpoint.handleRead ⟨conn, w₀.channels (.conn c)⟩ x.read =
      .ok (⟨{ conn with inputBuffer := b }, w₀.channels (.conn c)⟩, .close) := by
    rw [hread]
    simp only [Endpoint.handleRead, Endpoint.ofBuffer_ok hb]
    rfl
  have hrun : w₀.handleRead 0 c x.read acts =
      (w₀.setConn c (some { conn with inputBuffer := b })).handleClose 0 c := by
    rw [World.handleRead, endpoint_eq hc₀]
    change (Except.mapError Fault.connection _ >>= _) = _
    rw [hend]
    change (World.setEndpoint w₀ c _).handleClose 0 c = _
    rw [setEndpoint_same]
  rw [hrun]
  have hages : conn.Ages { conn with inputBuffer := b } := ⟨rfl, Or.inl rfl⟩
  have hinv₁ : Inv (w₀.setConn c (some { conn with inputBuffer := b })) owners :=
    ⟨hpop.inv.wired.setConn hc₀ hages rfl, hpop.inv.owned.quiet (Quiet.setConn hc₀ hages)⟩
  have hengine₁ : Engine (w₀.setConn c (some { conn with inputBuffer := b })) :=
    hpop.engine.congr rfl rfl hpop.engine.pool rfl fun _ _ => rfl
  have halike₁ : Alike (fun c' => c' = c) s.world
      (w₀.setConn c (some { conn with inputBuffer := b })) :=
    (hpop.same.weaken _).trans
      { Alike.refl _ w₀ with conns := fun c' hne => setConn_of_ne w₀ hne _ }
  have htidy₁ : Tidy { conn with inputBuffer := b } := by
    rw [hline.tidy.emptied] at hcontent
    exact ⟨hline.tidy.writeCmplCb, hinv, hcontent, hline.tidy.output⟩
  have hchannel : (w₀.channels (.conn c)).ownerLoop = 0 := by
    rw [hpop.channels]
    exact hline.owner
  apply h.hungUp hcurrent hc hinv₁ hengine₁ halike₁ ((hpop.same.listed c id).mpr hlisted)
    (setConn_self ..) htidy₁ rfl hchannel hpop.mutex hpop.batching hpop.inside
  · rw [arriving_read hcurrent, hread]
    rfl
  · rw [leaving_self hcurrent hc, method, handleRead, ← hpop.channels, hend]
    rfl

/-- A read that finds bytes. -/
theorem Serves.readMessage (h : Serves s owners)
    (hphase : (s.world.reactors 0).phase = .handling (.conn c) (.read :: callbacks) active)
    (hearly : s.world.lateRead (.callback 0 x) = false) {data : List Byte} (hdata : data ≠ [])
    (hread : x.read = .received data) (hc : s.world.conns c = some conn)
    (hoffered : x.write.Within (text conn x.read).length) :
    Runs s (.callback 0 x)
      ((s.world.setPhase 0 (.handling (.conn c) callbacks active)).handleRead 0 c x.read
        (onMessage c (text conn x.read) x.write)) := by
  have hpop := h.pop hphase
  have hcurrent := current_of_phase hphase
  have hline := (h.accounts c).line conn hc
  have hlisted := h.listed_of_mayClose (x := x) hphase
    (Or.inr ⟨rfl, by rw [hread]; trivial⟩) hearly
  have htext : text conn x.read = data := by
    rw [hread]
    exact text_received hline.tidy data
  rw [htext] at hoffered ⊢
  have hserving := h.serving hc hlisted
  obtain ⟨b, input, e, asked, hmessage, hretrieve, hsend, hcarries, htidy, hecho⟩ :=
    message_carries hline.tidy hserving hdata hread hoffered
  generalize s.world.setPhase 0 (.handling (.conn c) callbacks active) = w₀ at hpop ⊢
  have hc₀ : w₀.conns c = some conn := hpop.conns ▸ hc
  have howner : (w₀.channels (.conn c)).ownerLoop = 0 := by
    rw [hpop.channels]
    exact hline.owner
  have hchannel := congrFun hpop.channels (.conn c)
  rw [← hchannel] at hmessage hsend
  obtain ⟨w', hw', hcommitted⟩ := hpop.inv.wired.handleRead_message hc₀ hserving.connected howner
    hmessage hretrieve hsend hcarries.silent
  have hinv₁ : Inv (w₀.log (.messageCb c)) owners :=
    ⟨hpop.inv.wired.log _, hpop.inv.owned.log (by simp)⟩
  have harriving : arriving s.world (.callback 0 x) c = data := by
    rw [arriving_read hcurrent, hread]
    rfl
  rw [← harriving] at hcarries
  refine ⟨w', hw', h.carried hpop hcurrent hc hlisted (Alike.log w₀ _) (hpop.engine.log _) hinv₁
    hcarries rfl htidy hserving.connected rfl ?_ hcommitted⟩
  rw [leaving_self hcurrent hc, method, hecho]
  rfl

/-- The write callback is `handleWrite` of its endpoint. -/
theorem Popped.handleWrite_eq (hpop : Popped s owners w₀) (hc : s.world.conns c = some conn)
    {r : WriteResult} {e : Endpoint} {asked : List Request}
    (hwrite : Endpoint.handleWrite ⟨conn, s.world.channels (.conn c)⟩ r = .ok (e, asked)) :
    w₀.handleWrite 0 c r = w₀.commit 0 c (e, asked) := by
  have hc₀ : w₀.conns c = some conn := hpop.conns ▸ hc
  rw [World.handleWrite, endpoint_eq hc₀]
  change w₀.assertInLoopThread conn.loop 0 >>= _ = _
  rw [hpop.inv.wired.home.assert_bind (hpop.inv.wired.home.conns c conn hc₀),
    congrFun hpop.channels (.conn c), hwrite]
  rfl

/-- On a line that serves, the outcome of the write is stored and its slot is up to date. -/
theorem Popped.write_eq (hpop : Popped s owners w₀) (hc : s.world.conns c = some conn)
    (hopen : conn.Open) (howner : (s.world.channels (.conn c)).ownerLoop = 0)
    {r : WriteResult} {e : Endpoint} {asked : List Request}
    (hwrite : Endpoint.handleWrite ⟨conn, s.world.channels (.conn c)⟩ r = .ok (e, asked))
    (hsilent : .queueWriteComplete ∉ asked) :
    ∃ w', w₀.handleWrite 0 c r = .ok w' ∧ Committed w₀ owners c e w' := by
  have hchannel := congrFun hpop.channels (.conn c)
  have hwrites := (Endpoint.handleWrite_writes _ r).of_eq_ok hwrite
  rw [← hchannel] at hwrites howner
  obtain ⟨w', hw', hcommitted⟩ := hpop.inv.wired.commit_eq (hpop.conns ▸ hc) hopen howner hwrites
    hsilent
  exact ⟨w', (hpop.handleWrite_eq hc hwrite).trans hw', hcommitted⟩

/-- A write of what waits in the output buffer. -/
theorem Serves.write (h : Serves s owners)
    (hphase : (s.world.reactors 0).phase = .handling (.conn c) (.write :: callbacks) active)
    (hc : s.world.conns c = some conn)
    (hoffered : x.write.Within conn.outputBuffer.readableBytes) :
    Runs s (.callback 0 x)
      ((s.world.setPhase 0 (.handling (.conn c) callbacks active)).handleWrite 0 c x.write) := by
  have hpop := h.pop hphase
  have hcurrent := current_of_phase hphase
  have hline := (h.accounts c).line conn hc
  have hopen : conn.Open := by
    obtain ⟨-, conn', hc', hopen⟩ := h.conn_of_phase hphase
    exact Option.some.inj (hc.symm.trans hc') ▸ hopen
  generalize s.world.setPhase 0 (.handling (.conn c) callbacks active) = w₀ at hpop ⊢
  have hleaving {e : Endpoint} {asked : List Request} (hwrite : Endpoint.handleWrite
      ⟨conn, s.world.channels (.conn c)⟩ x.write = .ok (e, asked)) :
      leaving s.world (.callback 0 x) c = sentBytes asked := by
    rw [leaving_self hcurrent hc, method, hwrite]
    rfl
  have harriving : arriving s.world (.callback 0 x) c = [] := arriving_of_ne hcurrent (by simp)
  by_cases hlisted : s.world.Listed c
  · have hserving := h.serving hc hlisted
    obtain ⟨e, asked, hwrite, hcarries⟩ := Endpoint.handleWrite_carries
      (e := ⟨conn, s.world.channels (.conn c)⟩) hline.tidy.output hserving.inStep
      hline.tidy.writeCmplCb hoffered
    obtain ⟨w', hw', hcommitted⟩ := hpop.write_eq hc hopen hline.owner hwrite hcarries.silent
    rw [← harriving] at hcarries
    exact ⟨w', hw', h.carried hpop hcurrent hc hlisted (.refl _ w₀)
      hpop.engine hpop.inv hcarries rfl hline.tidy hserving.connected rfl (hleaving hwrite)
      hcommitted⟩
  · have hidle : Endpoint.isWriting ⟨conn, s.world.channels (.conn c)⟩ = false := by
      rw [Endpoint.isWriting, Channel.isWriting, hline.unlisted hlisted]
      decide
    have hwrite := Endpoint.handleWrite_idle hidle x.write
    have hcommit : w₀.commit 0 c (⟨conn, s.world.channels (.conn c)⟩, []) = .ok w₀ := by
      have hchannel := congrFun hpop.channels (.conn c)
      have hc₀ : w₀.conns c = some conn := hpop.conns ▸ hc
      rw [← hchannel]
      change Except.ok (w₀.setEndpoint c ⟨conn, w₀.channels (.conn c)⟩) = _
      rw [setEndpoint_same, setConn_same hc₀]
    rw [hpop.handleWrite_eq hc hwrite, hcommit]
    exact h.idle hcurrent harriving (hleaving hwrite) hpop.engine hpop.same

/-! ### The beginning and the end of a line -/

/-- The acceptor's callback. -/
theorem Serves.accept (h : Serves s owners)
    (hphase : (s.world.reactors 0).phase = .handling .acceptor (.read :: callbacks) active)
    (hkernel : 0 ≤ x.connfd → x.connfd ∉ s.world.openFds)
    (haccepts : 0 ≤ x.connfd → x.memory = 0 ∧ s.world.server.nextConnId < intMax) :
    Runs s (.callback 0 x)
      ((s.world.setPhase 0 (.handling .acceptor callbacks active)).acceptorHandleRead 0 x.connfd
        x.memory onConnection) := by
  have hpop := h.pop hphase
  have hcurrent : s.world.current 0 = none := by simp [current, hphase]
  have hserver : (s.world.setPhase 0 (.handling .acceptor callbacks active)).server =
      s.world.server := rfl
  have hopenFds : (s.world.setPhase 0 (.handling .acceptor callbacks active)).openFds =
      s.world.openFds := rfl
  have hnext : (s.world.setPhase 0 (.handling .acceptor callbacks active)).nextObj =
      s.world.nextObj := rfl
  generalize s.world.setPhase 0 (.handling .acceptor callbacks active) = w₀ at *
  rw [acceptorHandleRead, hpop.inv.wired.home.assert_bind rfl]
  by_cases hfd : 0 ≤ x.connfd
  · obtain ⟨hmemory, hcount⟩ := haccepts hfd
    have hfree := hkernel hfd
    rw [← hopenFds] at hfree
    have hfresh : ∀ ref ∈ owners, (w₀.channels ref).fd ≠ x.connfd := by
      intro ref href heq
      exact hfree (heq ▸ (hpop.inv.owned.opened ref (hpop.inv.owned.present ref href)).2)
    obtain ⟨w', hw', haccepted⟩ := hpop.inv.wired.newConnection_eq hfd hfresh
      hpop.inv.owned.nextObj_not_mem (hserver ▸ hcount)
    obtain ⟨w₁, hestablished, hquiet⟩ := haccepted.established
    have hlisted (c : Nat) : w'.Listed c ↔ w₀.Listed c ∨ c = w₀.nextObj := by
      rw [← hestablished.listed_iff c hpop.inv.owned.connName_free, Listed, Listed, hquiet.server]
    have hserver' := hquiet.server.trans hestablished.server
    have hfuture := (h.accounts w₀.nextObj).future (le_of_eq hnext.symm)
    rw [if_pos hfd, hmemory]
    refine ⟨w', hw', ?_, fun c => ?_⟩
    · apply hpop.engine.congr haccepted.event (hquiet.phase.trans hestablished.phase)
      · rw [hserver']
        exact hpop.engine.pool
      · rw [hserver']
      · intro ref href
        rw [haccepted.channels ref]
        rintro rfl
        exact href
    · have hsilent := silent_of_current (x := x) hcurrent c
      by_cases hnew : c = w₀.nextObj
      · subst hnew
        have hfresh : w₀.nextObj < w'.nextObj := by
          rw [hquiet.nextObj, hestablished.nextObj]
          exact Nat.lt_succ_self _
        obtain ⟨i, hchannel⟩ := haccepted.channel
        apply account_of_line hfresh haccepted.conn
        refine ⟨⟨hpop.engine.writeCmplCb, Buffer.new_inv, Buffer.new_content, Buffer.new_inv⟩, ?_,
          ?_, fun _ => ⟨?_, haccepted.own⟩, fun hout => absurd ((hlisted _).mpr (.inr rfl)) hout⟩
        · change (w'.channels _).ownerLoop = 0
          rw [hchannel]
          rfl
        · change (s.transmitted _ ++ leaving s.world _ _) ++ Buffer.new.content =
            s.received _ ++ arriving s.world _ _
          rw [hsilent.1, hsilent.2, hfuture.1, hfuture.2, Buffer.new_content]
          rfl
        · change Serving ⟨_, w'.channels _⟩
          have hevents : (w'.channels (.conn w₀.nextObj)).events = Channel.readEvent := by
            rw [hchannel]
            exact BitVec.zero_or
          refine ⟨rfl, Or.inl hevents, ?_⟩
          have hidle : (w'.channels (.conn w₀.nextObj)).isWriting = false := by
            rw [Channel.isWriting, hevents]
            decide
          exact Endpoint.inStep_idle hidle Buffer.new_sizes.1
      · have halike : Alike (fun c => c = w₀.nextObj) s.world w' := by
          refine (hpop.same.weaken _).trans ⟨?_, haccepted.conns, ?_, ?_, ?_, ?_⟩
          · rw [hquiet.nextObj, hestablished.nextObj]
            exact Nat.le_succ _
          · intro c hne
            rw [hlisted, or_iff_left hne]
          · intro c hne
            rw [haccepted.channels _ fun heq => hne (ChannelRef.conn.inj heq)]
          · intro c hne
            rw [haccepted.channels _ fun heq => hne (ChannelRef.conn.inj heq)]
          · exact fun c _ hl => haccepted.watched _ (mem_of_listed hpop.inv c hl)
        refine Alike.account halike hnew ?_ ?_ (h.accounts c)
        · exact (congrArg (s.received c ++ ·) hsilent.1).trans (List.append_nil _)
        · exact (congrArg (s.transmitted c ++ ·) hsilent.2).trans (List.append_nil _)
  · rw [if_neg hfd]
    exact h.silent (silent_of_current hcurrent) hpop.engine hpop.same

/-- A functor destroys its connection. -/
theorem Serves.functor (h : Serves s owners) {f : Functor} {rest : List Functor}
    (hphase : (s.world.reactors 0).phase = .functors (f :: rest)) :
    Runs s (.functor 0 x) ((s.world.setPhase 0 (.functors rest)).runFunctor 0
      { x with acts := onConnection } f) := by
  have hmem : f ∈ s.world.waiting 0 := by
    rw [waiting, hphase]
    exact List.mem_append_right _ (List.mem_cons_self ..)
  obtain ⟨c, rfl⟩ := h.engine.functors f hmem
  have hdying : c ∈ s.world.dying := List.mem_filterMap.mpr ⟨_, hmem, rfl⟩
  obtain ⟨hregistered, hunlisted⟩ := h.inv.owned.doomed c hdying
  obtain ⟨conn, hc, hopen⟩ := h.inv.owned.conn_of_mem hregistered
  have hline := (h.accounts c).line conn hc
  have hout : ¬ s.world.Listed c := by
    rintro ⟨name, hname⟩
    exact hunlisted name hname
  have hengine : Engine (s.world.setPhase 0 (.functors rest)) := by
    apply h.engine.setPhase
    · rw [hphase]
      rfl
    · simp
    · rw [hphase]
      exact fun f hf => List.mem_cons_of_mem _ hf
  have hwired : Wired (s.world.setPhase 0 (.functors rest)) owners :=
    h.inv.wired.setPhase (by simp [Phase.refs])
  have hsame := Alike.setPhase s.world (.functors rest)
  have hlistedMem (c' : Nat) : (s.world.setPhase 0 (.functors rest)).Listed c' →
      .conn c' ∈ owners := fun hl => mem_of_listed h.inv c' hl
  have hc₀ : (s.world.setPhase 0 (.functors rest)).conns c = some conn := hc
  have howner₀ : ((s.world.setPhase 0 (.functors rest)).channels (.conn c)).ownerLoop = 0 :=
    hline.owner
  obtain ⟨w', hw', hremoved⟩ := hwired.destroyConnection_eq hc₀ hopen howner₀
  have hwatched := hremoved.watched
  obtain ⟨w₁, poller, channels, hcommitted, rfl, hindex⟩ := hremoved.eq
  have hengine₁ := hengine.committed hcommitted
  have halike₁ := alike_of_committed hlistedMem hcommitted
  have howner (ref : ChannelRef) : (channels ref).ownerLoop = (w₁.channels ref).ownerLoop := by
    obtain ⟨m, hm⟩ := hindex ref
    rw [hm]
    rfl
  have hevents (ref : ChannelRef) : (channels ref).events = (w₁.channels ref).events := by
    obtain ⟨m, hm⟩ := hindex ref
    rw [hm]
    rfl
  refine ⟨_, hw', ?_, fun c' => ?_⟩
  · exact hengine₁.congr (event_setPoller _ 0 0 poller) (phase_setPoller _ 0 0 poller)
      hengine₁.pool rfl fun ref _ => howner ref
  · by_cases hne : c' = c
    · subst hne
      have hfresh : c' < w₁.nextObj := by
        rw [hcommitted.nextObj]
        exact h.inv.owned.lt_of_conn hc
      apply account_of_line hfresh hcommitted.conn
      refine ⟨⟨hline.tidy.writeCmplCb, hline.tidy.input, hline.tidy.emptied, hline.tidy.output⟩,
        ?_, ?_, fun hl => absurd ((hcommitted.listed_iff c').mp hl) hout, fun _ => ?_⟩
      · change (channels (.conn c')).ownerLoop = 0
        rw [howner, hcommitted.channel]
        exact hline.owner
      · change (s.transmitted c' ++ []) ++ conn.outputBuffer.content = s.received c' ++ []
        rw [List.append_nil, List.append_nil]
        exact hline.bytes
      · change (channels (.conn c')).events = _
        rw [hevents, hcommitted.channel]
        rfl
    · have halike : Alike (fun c' => c' = c) s.world
          { (((w₁.log (.destroyConnection c)).log (.connectionCb c .disconnected)).log
            (.removeChannel (.conn c) (w₁.reactors 0).phase.iterating)).setPoller 0 poller with
              channels := channels } := by
        refine (hsame.weaken _).trans ⟨halike₁.nextObj, halike₁.conns, halike₁.listed, ?_, ?_, ?_⟩
        · exact fun c' hne => (howner _).trans (halike₁.owner c' hne)
        · exact fun c' hne => (hevents _).trans (halike₁.events c' hne)
        · exact fun c' hne hl => hwatched _ (hlistedMem c' hl) fun heq =>
            hne (ChannelRef.conn.inj heq)
      refine Alike.account halike hne ?_ ?_ (h.accounts c')
      · exact List.append_nil _
      · exact List.append_nil _

/-- The last pointer to a connection goes away. -/
theorem Serves.destroy (h : Serves s owners) (c : Nat) :
    Runs s (.destroy c) (.ok (s.world.destroy c)) := by
  have hsilent (c' : Nat) : arriving s.world (.destroy c) c' = [] ∧
      leaving s.world (.destroy c) c' = [] := ⟨rfl, rfl⟩
  unfold World.destroy
  split
  · exact h.silent hsilent h.engine (.refl _ _)
  · rename_i conn hc
    split
    · exact h.silent hsilent h.engine (.refl _ _)
    · have hline := (h.accounts c).line conn hc
      refine ⟨_, rfl, h.engine.congr rfl rfl h.engine.pool rfl fun _ _ => rfl, fun c' => ?_⟩
      by_cases hne : c' = c
      · subst hne
        refine ⟨?_, fun _ => ?_, fun hnext => ?_⟩
        · intro conn' hc'
          cases (setConn_self s.world c' none).symm.trans hc'
        · change s.transmitted c' ++ [] <+: s.received c' ++ []
          rw [List.append_nil, List.append_nil, ← hline.bytes]
          exact List.prefix_append _ _
        · exact absurd (h.inv.owned.lt_of_conn hc) (Nat.not_lt.mpr hnext)
      · have halike : Alike (fun c' => c' = c) s.world { s.world.setConn c none with
            openFds := s.world.openFds.erase (s.world.channels (.conn c)).fd } :=
          { Alike.refl _ s.world with conns := fun c' hne => setConn_of_ne _ hne none }
        refine Alike.account halike hne ?_ ?_ (h.accounts c')
        · exact List.append_nil _
        · exact List.append_nil _

end EchoServer

end Yatwb
