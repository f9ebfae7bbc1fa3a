import Yatwb.Server.Lifecycle

/-!
# What a poll sees

A close takes a connection out of `connections_` and queues its destruction; its
channel stays registered until that functor has run. Functors are queued by
callbacks of channels only, as a functor that queues one waits for the `mutex_` of
its own batch, and the functors of an iteration run before the next `poll(2)`. So
whenever the loop polls, nothing waits, and the registered connections are the
listed ones.
-/

namespace Yatwb.World

open Foundation

variable {w w' : World} {owners : List ChannelRef} {a : Action}

/-! ### What a functor does to its own loop -/

/-- The base loop itself is as it was. -/
def SameLoop (w w' : World) : Prop :=
  (w'.reactors 0).event = (w.reactors 0).event ∧ (w'.reactors 0).phase = (w.reactors 0).phase

theorem SameLoop.trans {w'' : World} (h : SameLoop w w') (h' : SameLoop w' w'') :
    SameLoop w w'' := ⟨h'.1.trans h.1, h'.2.trans h.2⟩

/-- A computation that leaves the base loop itself as it is. -/
abbrev KeepsLoop (w : World) (x : Except Fault World) : Prop :=
  Ends (SameLoop w) (fun _ => True) x

theorem KeepsLoop.bind {x : Except Fault World} {f : World → Except Fault World}
    (h : KeepsLoop w x) (hf : ∀ w', SameLoop w w' → KeepsLoop w' (f w')) :
    KeepsLoop w (x >>= f) := by
  apply Ends.bind h
  intro w' hw'
  exact (hf w' hw').mono fun _ => hw'.trans

theorem keepsLoop_updateChannel (w : World) (tid : ThreadId) (ref : ChannelRef) :
    KeepsLoop w (w.updateChannel tid ref) := by
  refine ends_bind fun _ => ends_bind fun _ => ends_bind fun r => ?_
  exact ⟨event_setPoller w _ 0 r.1, phase_setPoller w _ 0 r.1⟩

theorem keepsLoop_changeInterest (w : World) (tid : ThreadId) (ref : ChannelRef)
    (i : Channel.Interest) : KeepsLoop w (w.changeInterest tid ref i) :=
  keepsLoop_updateChannel (w.setChannel ref _) tid ref

theorem keepsLoop_removeChannel (w : World) (tid : ThreadId) (l : LoopId) (ref : ChannelRef) :
    KeepsLoop w (w.removeChannel tid l ref) := by
  refine ends_bind fun _ => ends_bind fun _ => ends_bind fun r => ?_
  exact ⟨event_setPoller (w.log _) l 0 r.1, phase_setPoller (w.log _) l 0 r.1⟩

theorem keepsLoop_listen (w : World) (tid : ThreadId) : KeepsLoop w (w.listen tid) :=
  ends_bind fun _ => keepsLoop_changeInterest w.setListenning tid .acceptor .enableReading

/-- A batch of the base loop is running. -/
abbrev Held (w : World) : Prop := (w.reactors 0).event.mutex = some 0

namespace Held

theorem same (h : Held w) (hs : SameLoop w w') : Held w' := (congrArg _ hs.1).trans h

/-- The functors run with `mutex_` held, so they queue nothing in their loop. -/
theorem queueInLoop (h : Held w) (l : LoopId) (cb : Functor) :
    KeepsLoop w (w.queueInLoop 0 l cb) := by
  by_cases hl : l = 0
  · subst hl
    rw [World.queueInLoop, EventLoop.queueInLoop, EventLoop.lock_self h]
    trivial
  · refine ends_bind fun event => ⟨?_, phase_setEvent w l 0 event⟩
    rw [setEvent, setReactor_of_ne w (Ne.symm hl)]

theorem requests (h : Held w) (c : Nat) (l : LoopId) (asked : List Request) :
    KeepsLoop w (w.requests 0 c l asked) := by
  induction asked generalizing w with
  | nil => exact ⟨rfl, rfl⟩
  | cons q rest ih =>
      have hq : KeepsLoop w (w.request 0 c l q) := by
        cases q with
        | write taken => exact ⟨rfl, rfl⟩
        | update => exact keepsLoop_updateChannel w 0 (.conn c)
        | queueWriteComplete => exact h.queueInLoop l _
        | shutdownWrite => exact ⟨rfl, rfl⟩
      exact hq.bind fun w' hs => ih (h.same hs)

theorem commit (h : Held w) (c : Nat) (outcome : Endpoint × List Request) :
    KeepsLoop w (w.commit 0 c outcome) :=
  requests (w := w.setEndpoint c outcome.1) h c _ _

theorem sendInLoop (h : Held w) (c : Nat) (message : List Byte) (r : WriteResult) :
    KeepsLoop w (w.sendInLoop 0 c message r) :=
  ends_bind fun _ => ends_bind fun _ => ends_bind fun outcome => h.commit c outcome

theorem send (h : Held w) (c : Nat) (message : List Byte) (r : WriteResult) :
    KeepsLoop w (w.send 0 c message r) := by
  unfold World.send
  split
  · exact ⟨rfl, rfl⟩
  · split
    · split
      · exact h.sendInLoop c message r
      · exact h.queueInLoop _ _
    · exact ⟨rfl, rfl⟩

theorem shutdownInLoop (h : Held w) (c : Nat) : KeepsLoop w (w.shutdownInLoop 0 c) :=
  ends_bind fun e => ends_bind fun _ => h.commit c (e, e.shutdownInLoop)

theorem shutdown (h : Held w) (c : Nat) : KeepsLoop w (w.shutdown 0 c) := by
  unfold World.shutdown
  split
  · exact ⟨rfl, rfl⟩
  · rename_i conn hc
    have hset : Held (w.setConn c (some { conn with state := .disconnecting })) := h
    split
    · simp only
      split
      · exact hset.shutdownInLoop c
      · exact hset.queueInLoop _ _
    · exact ⟨rfl, rfl⟩

theorem addTimer (h : Held w) (l : LoopId) : KeepsLoop w (w.addTimer 0 l) := by
  unfold World.addTimer
  split
  · exact ends_bind fun _ => ⟨rfl, rfl⟩
  · exact h.queueInLoop l _

theorem userAct (h : Held w) (act : UserAct) : KeepsLoop w (w.userAct 0 act) := by
  cases act with
  | send c message r => exact h.send c message r
  | shutdown c => exact h.shutdown c
  | retrieveAsString c =>
      simp only [World.userAct, World.retrieveAsString]
      split
      · exact ⟨rfl, rfl⟩
      · exact ends_bind fun _ => ⟨rfl, rfl⟩
  | addTimer l => exact h.addTimer l

theorem userCallback (h : Held w) (acts : List UserAct) : KeepsLoop w (w.userCallback 0 acts) := by
  induction acts generalizing w with
  | nil => exact ⟨rfl, rfl⟩
  | cons act rest ih => exact (h.userAct act).bind fun w' hs => ih (h.same hs)

theorem destroyConnection (h : Held w) (c : Nat) (acts : List UserAct) :
    KeepsLoop w (w.destroyConnection 0 c acts) := by
  refine ends_bind fun e => ends_bind fun _ => ends_bind fun outcome => ?_
  apply (h.commit c outcome).bind
  intro w' hs
  have hlog : Held ((w'.log (.destroyConnection c)).log
      (.connectionCb c outcome.1.conn.state)) := h.same hs
  exact KeepsLoop.bind (hlog.userCallback acts) fun w'' _ =>
    keepsLoop_removeChannel w'' 0 e.conn.loop (.conn c)

theorem runFunctor (h : Held w) (x : Answers) (f : Functor) :
    KeepsLoop w (w.runFunctor 0 x f) := by
  cases f with
  | listen => exact keepsLoop_listen w 0
  | addTimerInLoop => exact ends_bind fun _ => ⟨rfl, rfl⟩
  | sendInLoop c message => exact h.sendInLoop c message _
  | shutdownInLoop c => exact h.shutdownInLoop c
  | destroyConnection c => exact h.destroyConnection c _
  | writeComplete c => exact h.userCallback _

end Held

/-! ### The loop between its lists -/

/-- A functor is pending only while `loop` goes through `active_channels_`, and a batch
runs with `mutex_` held. -/
structure Cleared (w : World) : Prop where
  pending : (w.reactors 0).phase.iterating = false → (w.reactors 0).event.pendingFunctors = []
  held : (w.reactors 0).phase.batching = true → Held w

theorem Cleared.same (h : Cleared w) (hs : SameLoop w w') : Cleared w' := by
  obtain ⟨hevent, hphase⟩ := hs
  constructor
  · rw [hevent, hphase]
    exact h.pending
  · intro hbatching
    rw [hphase] at hbatching
    exact (congrArg _ hevent).trans (h.held hbatching)

/-- In the middle of `active_channels_` nothing is promised. -/
theorem cleared_of_iterating (h : (w.reactors 0).phase.iterating = true) : Cleared w := by
  constructor
  · intro hnot
    rw [h] at hnot
    cases hnot
  · intro hbatching
    generalize (w.reactors 0).phase = phase at h hbatching
    cases phase <;> cases h <;> cases hbatching

/-- A callback leaves `loop` where it is. -/
theorem CalledBack.phase {r : Buffer.ReadResult} {ref : ChannelRef} {cb : Channel.Callback}
    (h : CalledBack w r ref cb w') : (w'.reactors 0).phase = (w.reactors 0).phase := by
  cases h with
  | quiet hquiet => exact hquiet.phase
  | accept hfd hfree hestablished hquiet => exact hquiet.phase.trans hestablished.phase
  | conn hc hhandled =>
      cases hhandled with
      | quiet hquiet => exact hquiet.phase
      | message hr hquiet => exact hquiet.phase
      | close hcb hquiet hclosed => exact hclosed.phase.trans hquiet.phase

/-- After a callback `loop` still goes through `active_channels_`. -/
theorem Effect.iterating {x : Answers} (he : Effect w owners (.callback 0 x) w')
    {ref : ChannelRef} {cb : Channel.Callback} {callbacks : List Channel.Callback}
    {active : List ChannelRef}
    (hphase : (w.reactors 0).phase = .handling ref (cb :: callbacks) active) :
    (w'.reactors 0).phase.iterating = true := by
  have hsame {v : World} (h : (v.reactors 0).phase = (w.reactors 0).phase) :
      (v.reactors 0).phase.iterating = true := by
    rw [h, hphase]
    rfl
  cases he with
  | stay hs hstill hwords => exact hsame hstill
  | move hs hmove =>
      rw [hphase] at hmove
      cases hmove
  | callback hphase' hcalled =>
      rw [hcalled.phase, phase_setPhase_self]
      rfl
  | functor hphase' hran =>
      rw [hphase] at hphase'
      cases hphase'
  | freed c =>
      apply hsame
      unfold destroy
      split
      · rfl
      · split <;> rfl

theorem keepsLoop_startPool (w : World) (tid : ThreadId) : KeepsLoop w (w.startPool tid) := by
  unfold startPool
  split
  · exact ⟨rfl, rfl⟩
  · exact ends_bind fun _ => ends_bind fun _ => ⟨rfl, rfl⟩

/-- On its own thread `start` queues nothing. -/
theorem Home.keepsLoop_start (h : Home w) : KeepsLoop w (w.start 0) := by
  apply (keepsLoop_startPool w 0).bind
  intro w' hs
  have hin : (w'.reactors 0).event.isInLoopThread 0 = true := by
    rw [hs.1, h.isInLoopThread, beq_self_eq_true]
  simp only [hin, if_true]
  split
  · exact ⟨rfl, rfl⟩
  · exact keepsLoop_listen w' 0

theorem keepsLoop_wire (w : World) (l : LoopId) : KeepsLoop w (w.wire l) :=
  (keepsLoop_changeInterest w l _ _).bind fun w' _ => keepsLoop_changeInterest w' l _ _

/-- A step of `loop` that stores new flags and a new position. -/
theorem cleared_setEventPhase {event : EventLoop Functor} {phase : Phase}
    (hpending : phase.iterating = false → event.pendingFunctors = [])
    (hheld : phase.batching = true → event.mutex = some 0) :
    Cleared ((w.setEvent 0 event).setPhase 0 phase) := by
  constructor
  · rw [phase_setPhase_self, event_setPhase, event_setEvent_self]
    exact hpending
  · rw [phase_setPhase_self, Held, event_setPhase, event_setEvent_self]
    exact hheld

/-- The step lemma. -/
theorem Cleared.attempt (h : Cleared w) (hinv : Inv w owners) (ha : Undisturbed w a) :
    Ends Cleared (fun _ => True) (w.attempt a) := by
  have hhome := hinv.wired.home
  have heffect := hinv.attempt ha.1 ha.2
  have hattempted := w.attempted a
  have hlocal := ha.2
  generalize w.attempt a = x at hattempted heffect ⊢
  cases hattempted with
  | stay => exact h
  | start => exact hhome.keepsLoop_start.mono fun _ => h.same
  | wire l => exact (keepsLoop_wire w l).mono fun _ => h.same
  | enterLoop l hl hphase =>
      obtain rfl := hhome.eq_zero_of_hasLoop hl
      refine ((ends_of (fun event => EventLoop.enterLoop_eq_ok) fun _ _ => trivial).mapError
        fun _ _ => trivial).bind ?_
      rintro event ⟨-, rfl⟩
      exact cleared_setEventPhase (fun _ => h.pending (by rw [hphase]; rfl))
        fun hbatching => by cases hbatching
  | pollReturn l reported numEvents hphase =>
      obtain rfl := hhome.eq_zero_of_phase hphase (by simp)
      refine ends_bind fun r => cleared_of_iterating ?_
      exact congrArg Phase.iterating (phase_setPhase_self (w.setPoller 0 r.1) 0 _)
  | nextChannel l ref active hphase =>
      obtain rfl := hhome.eq_zero_of_phase hphase (by simp)
      refine ends_bind fun channel => cleared_of_iterating ?_
      rw [phase_setPhase_self]
      rfl
  | callback l x ref cb callbacks active hphase =>
      obtain rfl := hhome.eq_zero_of_phase hphase (by simp)
      exact (heffect.mono fun w' hw' => cleared_of_iterating (hw'.2.iterating hphase)).weaken
        fun _ _ => trivial
  | endChannel l ref active hphase =>
      obtain rfl := hhome.eq_zero_of_phase hphase (by simp)
      apply cleared_of_iterating
      rw [phase_setPhase_self]
      rfl
  | doPendingFunctors l hphase =>
      obtain rfl := hhome.eq_zero_of_phase hphase (by simp)
      refine ((ends_of (fun r => EventLoop.beginFunctors_eq_ok) fun _ _ => trivial).mapError
        fun _ _ => trivial).bind ?_
      rintro r ⟨hmutex, hpending⟩
      exact cleared_setEventPhase (fun _ => hpending) fun _ => hmutex
  | functor l x f rest hphase =>
      obtain rfl := hhome.eq_zero_of_phase hphase (by simp)
      have hheld : Held (w.setPhase 0 (.functors rest)) := by
        rw [Held, event_setPhase]
        exact h.held (by rw [hphase]; rfl)
      have hset : Cleared (w.setPhase 0 (.functors rest)) := by
        refine ⟨fun _ => ?_, fun _ => hheld⟩
        rw [event_setPhase]
        exact h.pending (by rw [hphase]; rfl)
      exact (hheld.runFunctor x f).mono fun _ => hset.same
  | endFunctors l hphase =>
      obtain rfl := hhome.eq_zero_of_phase hphase (by simp)
      exact cleared_setEventPhase (fun _ => h.pending (by rw [hphase]; rfl))
        fun hbatching => by cases hbatching
  | send tid c message => exact hlocal.elim
  | shutdown tid c => exact hlocal.elim
  | destroy c =>
      apply h.same
      unfold destroy
      split
      · exact ⟨rfl, rfl⟩
      · split
        · exact ⟨rfl, rfl⟩
        · exact ⟨rfl, rfl⟩

theorem Initial.cleared (h : Initial 0 w) : Cleared w := by
  obtain ⟨flag, counter, hbase⟩ := h.reactors 0
  constructor
  · rw [hbase]
    exact fun _ => rfl
  · rw [hbase]
    exact fun hbatching => by cases hbatching

theorem cleared_of_reach (h : (machine 0).Reach (whileRunning Undisturbed) (.ok w)) :
    (∃ owners, Inv w owners) ∧ Cleared w := by
  have hends : Ends (fun w => (∃ owners, Inv w owners) ∧ Cleared w) (fun _ => True)
      (.ok w : Except Fault World) := by
    refine ends_of_reach (fun w hw => ⟨⟨[], Inv.init hw⟩, hw.cleared⟩) ?_ h
    rintro w a ⟨⟨owners, hinv⟩, hcleared⟩ ha
    apply ends_step ⟨⟨owners, hinv⟩, hcleared⟩
    apply (((hinv.attempt ha.1 ha.2).and (hcleared.attempt hinv ha)).mono fun w' hw' => ?_).weaken
    · exact fun _ _ => trivial
    · exact ⟨hw'.1.1, hw'.2⟩
  exact hends

/-- When the loop polls, nothing waits. -/
theorem Cleared.waiting_eq_nil (h : Cleared w) (hphase : (w.reactors 0).phase = .polling) :
    w.waiting 0 = [] := by
  rw [waiting, h.pending (by rw [hphase]; rfl), hphase]
  rfl

namespace Inv

/-- A listed connection is registered. -/
theorem mem_of_listed (h : Inv w owners) {c : Nat} (hlisted : Listed w c) : .conn c ∈ owners := by
  obtain ⟨name, hname⟩ := hlisted
  exact (h.owned.named name c hname).1

theorem listed_of_mem (h : Inv w owners) (hdying : w.dying = []) {c : Nat}
    (hmem : .conn c ∈ owners) : Listed w c := by
  obtain ⟨conn, hc, -⟩ := h.owned.conn_of_mem hmem
  rcases (h.owned.inUse c conn hmem hc).2 with hlisted | hdead
  · exact ⟨conn.name, hlisted⟩
  · rw [hdying] at hdead
    cases hdead

theorem open_iff (h : Inv w owners) (hdying : w.dying = []) {c : Nat} {conn : TcpConnection}
    (hc : w.conns c = some conn) : conn.Open ↔ Listed w c := by
  constructor
  · intro hopen
    exact h.listed_of_mem hdying (h.wired.live c conn hc hopen)
  · intro hlisted
    exact (h.owned.inUse c conn (h.mem_of_listed hlisted) hc).1

end Inv

/-- The channels of the listed connections. -/
def listedRefs (w : World) : List ChannelRef :=
  w.server.connections.toList.map fun entry => .conn entry.2

theorem mem_listedRefs (w : World) (ref : ChannelRef) :
    ref ∈ w.listedRefs ↔ ∃ c, ref = .conn c ∧ Listed w c := by
  simp only [listedRefs, List.mem_map, Prod.exists, Listed,
    Std.ExtTreeMap.mem_toList_iff_getElem?_eq_some]
  constructor
  · rintro ⟨name, c, hname, rfl⟩
    exact ⟨c, rfl, name, hname⟩
  · rintro ⟨c, rfl, name, hname⟩
    exact ⟨name, c, hname, rfl⟩

theorem length_listedRefs (w : World) : w.listedRefs.length = w.server.connections.size := by
  rw [listedRefs, List.length_map, Std.ExtTreeMap.length_toList]

namespace Inv

/-- No connection is listed under two names. -/
theorem nodup_listedRefs (h : Inv w owners) : w.listedRefs.Nodup := by
  refine List.pairwise_map.mpr (Std.ExtTreeMap.distinct_keys_toList.imp_of_mem ?_)
  rintro ⟨name, c⟩ ⟨name', c'⟩ hmem hmem' hkeys heq
  obtain rfl := ChannelRef.conn.inj heq
  rw [Std.ExtTreeMap.mem_toList_iff_getElem?_eq_some] at hmem hmem'
  obtain ⟨-, conn, hc, rfl⟩ := h.owned.named name c hmem
  obtain ⟨-, conn', hc', rfl⟩ := h.owned.named name' c hmem'
  obtain rfl := Option.some.inj (hc.symm.trans hc')
  exact hkeys Std.ReflCmp.compare_self

theorem subset_owners (h : Inv w owners) : w.listedRefs ⊆ owners := by
  intro ref href
  obtain ⟨c, rfl, hlisted⟩ := (mem_listedRefs w ref).mp href
  exact h.mem_of_listed hlisted

/-- Besides the listed connections, only the three channels of the base loop are registered. -/
theorem owners_subset (h : Inv w owners) (hdying : w.dying = []) :
    owners ⊆ [.acceptor, .timer 0, .wakeup 0] ++ w.listedRefs := by
  intro ref href
  cases ref with
  | acceptor => simp
  | timer l | wakeup l =>
      rcases h.owned.present _ href with hstanding | ⟨c, conn, heq, -⟩
      · obtain rfl := Nat.le_zero.mp hstanding
        simp
      · cases heq
  | conn c =>
      refine List.mem_append_right _ ((mem_listedRefs w _).mpr ⟨c, rfl, ?_⟩)
      exact h.listed_of_mem hdying href

end Inv

/-- Whenever the loop of a server without pool threads is about to poll, nothing waits:
the registered connections are the listed ones, these are the ones that are open, and
`poll(2)` gets a slot for each of them and for at most three channels of the loop
itself. -/
theorem poll_sees_listed (h : (machine 0).Reach (whileRunning Undisturbed) (.ok w))
    (hphase : (w.reactors 0).phase = .polling) :
    w.waiting 0 = [] ∧
      (∀ fd c, (w.reactors 0).poller.channelMap[fd]? = some (.conn c) ↔
        Listed w c ∧ (w.channels (.conn c)).fd = fd) ∧
      (∀ c conn, w.conns c = some conn → (conn.Open ↔ Listed w c)) ∧
      w.server.connections.size ≤ (w.reactors 0).poller.pollFds.length ∧
      (w.reactors 0).poller.pollFds.length ≤ w.server.connections.size + 3 := by
  obtain ⟨⟨owners, hinv⟩, hcleared⟩ := cleared_of_reach h
  have hwaiting := hcleared.waiting_eq_nil hphase
  have hdying : w.dying = [] := by rw [dying, hwaiting, List.filterMap_nil]
  have hrep := hinv.wired.rep
  refine ⟨hwaiting, ?_, fun c conn hc => hinv.open_iff hdying hc, ?_, ?_⟩
  · intro fd c
    rw [hrep.map_iff]
    exact and_congr_left' ⟨hinv.listed_of_mem hdying, hinv.mem_of_listed⟩
  · rw [hrep.length_eq, ← length_listedRefs]
    exact (List.subperm_of_subset hinv.nodup_listedRefs hinv.subset_owners).length_le
  · rw [hrep.length_eq, ← length_listedRefs]
    have hle := (List.subperm_of_subset hrep.nodup (hinv.owners_subset hdying)).length_le
    rw [List.length_append] at hle
    simpa [Nat.add_comm] using hle

section Example

/-- The connection that is accepted and closed has left no trace at the next poll. -/
theorem poll_after_close : ∃ w : World, (w.reactors 0).phase = .polling ∧ w.nextObj = 1 ∧
    (w.reactors 0).poller.channelMap[(100 : Int)]? ≠ some (.conn 0) := by
  obtain ⟨s, hs, hp⟩ := Machine.exists_reach (M := machine 0) (whileRunning Undisturbed)
    ⟨fresh 0, rfl, initial_fresh 0⟩
    (closingRun ++ [.endChannel 0, .doPendingFunctors 0, .functor 0 noAnswers, .endFunctors 0])
    (fun s => match s with
      | .ok w => decide ((w.reactors 0).phase = .polling ∧ w.nextObj = 1 ∧
          w.server.connections.size = 0)
      | .error _ => false) (by decide +kernel)
  cases s with
  | error f => cases hp
  | ok w =>
      obtain ⟨hphase, hnext, hsize⟩ := of_decide_eq_true hp
      refine ⟨w, hphase, hnext, fun hmap => ?_⟩
      obtain ⟨-, hregistered, -⟩ := poll_sees_listed hs hphase
      obtain ⟨name, hname⟩ := ((hregistered 100 0).mp hmap).1
      have hmem : (name, 0) ∈ w.server.connections.toList :=
        Std.ExtTreeMap.mem_toList_iff_getElem?_eq_some.mpr hname
      rw [← Std.ExtTreeMap.length_toList] at hsize
      rw [List.eq_nil_of_length_eq_zero hsize] at hmem
      cases hmem

end Example

end Yatwb.World
