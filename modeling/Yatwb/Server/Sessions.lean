import Yatwb.Connection.Turns
import Yatwb.Server.Affinity

/-!
# The connections of a server are in sessions

Whatever the user calls and in whatever thread, a server uses its connections
only through the turns of `Connection/Turns.lean`. What the turns keep therefore
holds of every connection in every run: each of them is in a state that a
session reaches.
-/

namespace Yatwb

open Foundation

/-- `write(2)` takes no more than the call of the user offers. -/
def UserAct.Fits : UserAct → Prop
  | .send _ message r => r.Within message.length
  | _ => True

instance : ∀ act : UserAct, Decidable act.Fits
  | .send _ message r => inferInstanceAs (Decidable (r.Within message.length))
  | .shutdown _ | .retrieveAsString _ | .addTimer _ => isTrue trivial

/-- The next callback of the channel at hand. -/
def Phase.next : Phase → Option (ChannelRef × Channel.Callback)
  | .handling ref (cb :: _) _ => some (ref, cb)
  | _ => none

namespace World

/-- The same for the write callback of a connection. -/
def CallbackFits (w : World) (r : WriteResult) : ChannelRef → Channel.Callback → Prop
  | .conn c, .write => ∀ conn ∈ w.conns c, r.Within conn.outputBuffer.readableBytes
  | _, _ => True

/-- The same for a queued `sendInLoop`. -/
def FunctorFits (r : WriteResult) : Functor → Prop
  | .sendInLoop _ message => r.Within message.length
  | _ => True

/-- `write(2)` takes no more than it is offered. -/
def Fits (w : World) : Action → Prop
  | .callback l x => (∀ act ∈ x.acts, act.Fits) ∧
      ∀ next ∈ (w.reactors l).phase.next, w.CallbackFits x.write next.1 next.2
  | .functor l x => (∀ act ∈ x.acts, act.Fits) ∧ ∀ f ∈ (w.reactors l).phase.rest.head?,
      FunctorFits x.write f
  | _ => True

/-- Every connection of the world has the property. -/
def Each (P : Nat → Endpoint → Prop) (w : World) : Prop :=
  ∀ c conn, w.conns c = some conn → P c ⟨conn, w.channels (.conn c)⟩

/-- A property of connections that every turn keeps, where those `off` may be closed. -/
structure Lasting (off : Nat → Prop) (P : Nat → Endpoint → Prop) : Prop where
  new : ∀ c loop name fd writeCmplCb memory, P c (Endpoint.new loop name fd writeCmplCb memory)
  sound : ∀ c e, P c e → e.Sound
  turn : ∀ c e e', P c e → e.Turn (off c) e' → P c e'

/-- No assert of a buffer and none on the count of a write. -/
def Fault.NoIo : Fault → Prop
  | .connection f => Session.StateAssert f
  | _ => True

/-- A computation that keeps the property of every connection. -/
abbrev KeepsEach (P : Nat → Endpoint → Prop) (x : Except Fault World) : Prop :=
  Ends (Each P) Fault.NoIo x

section Each

variable {P : Nat → Endpoint → Prop} {off : Nat → Prop} {w w' : World} {c : Nat}

/-- A thread check says nothing about connections. -/
theorem noIo_assert (w : World) (l : LoopId) (tid : ThreadId) :
    Ends (fun _ => True) Fault.NoIo (w.assertInLoopThread l tid) :=
  (ends_any _).mapError fun _ _ => trivial

/-- Only the connections and their channels matter. -/
theorem Each.congr (h : Each P w) (hconns : w'.conns = w.conns)
    (hchannels : w'.channels = w.channels) : Each P w' := by
  intro c conn hc
  rw [hchannels]
  exact h c conn (hconns ▸ hc)

theorem Each.log (h : Each P w) (event : Event) : Each P (w.log event) := h

theorem Each.setConn (h : Each P w) {conn : Option TcpConnection}
    (hconn : ∀ conn', conn = some conn' → P c ⟨conn', w.channels (.conn c)⟩) :
    Each P (w.setConn c conn) := by
  intro c' conn' hc'
  by_cases hcc : c' = c
  · subst hcc
    rw [setConn_self] at hc'
    exact hconn conn' hc'
  · rw [setConn_of_ne w hcc] at hc'
    exact h c' conn' hc'

theorem Each.setEndpoint (h : Each P w) {e : Endpoint} (he : P c e) :
    Each P (w.setEndpoint c e) := by
  intro c' conn' hc'
  by_cases hcc : c' = c
  · subst hcc
    change (w.setConn c' (some e.conn)).conns c' = _ at hc'
    rw [setConn_self] at hc'
    obtain rfl := Option.some.inj hc'
    change P c' ⟨e.conn, ((w.setConn c' (some e.conn)).setChannel _ _).channels _⟩
    rw [setChannel_self]
    exact he
  · change (w.setConn c (some e.conn)).conns c' = _ at hc'
    rw [setConn_of_ne w hcc] at hc'
    have hne : ChannelRef.conn c' ≠ .conn c := fun heq => hcc (ChannelRef.conn.inj heq)
    change P c' ⟨conn', ((w.setConn c (some e.conn)).setChannel _ _).channels _⟩
    rw [setChannel_of_ne _ hne]
    exact h c' conn' hc'

theorem Each.setChannel_standing (h : Each P w) {ref : ChannelRef} (href : ∀ c, ref ≠ .conn c)
    (channel : Channel) : Each P (w.setChannel ref channel) := by
  intro c conn hc
  rw [setChannel_of_ne w (Ne.symm (href c))]
  exact h c conn hc

section Lasting

variable (hP : Lasting off P)
include hP

/-- What the poller notes in the channels changes nothing. -/
theorem Each.note (h : Each P w) {channels : ChannelRef → Channel}
    (hnote : ∀ ref, ∃ index revents,
      channels ref = ((w.channels ref).setIndex index).setRevents revents) :
    Each P { w with channels := channels } := by
  intro c conn hc
  obtain ⟨index, revents, heq⟩ := hnote (.conn c)
  change P c ⟨conn, channels (.conn c)⟩
  rw [heq]
  exact hP.turn c _ _ (h c conn hc) (.note _ index revents)

theorem Each.sameButIndex (h : Each P w) {channels : ChannelRef → Channel}
    (hsame : Poller.SameButIndex w.channels channels) : Each P { w with channels := channels } := by
  apply h.note hP
  intro ref
  obtain ⟨m, hm⟩ := hsame ref
  exact ⟨m, (w.channels ref).revents, hm⟩

theorem Each.sameButRevents (h : Each P w) {channels : ChannelRef → Channel}
    (hsame : Poller.SameButRevents w.channels channels) :
    Each P { w with channels := channels } := by
  apply h.note hP
  intro ref
  obtain ⟨r, hr⟩ := hsame ref
  exact ⟨(w.channels ref).index, r, hr⟩

theorem Each.updateChannel (h : Each P w) (tid : ThreadId) (ref : ChannelRef) :
    KeepsEach P (w.updateChannel tid ref) := by
  unfold World.updateChannel
  apply ends_check fun _ => trivial
  intro _
  apply (noIo_assert ..).bind
  intro _ _
  apply ((Poller.updateChannel_frame _ _ _).mapError fun _ _ => trivial).bind
  rintro ⟨poller, channels⟩ ⟨hsame, -⟩
  exact (h.congr rfl rfl : Each P (w.setPoller _ poller)).sameButIndex hP hsame

theorem Each.removeChannel (h : Each P w) (tid : ThreadId) (l : LoopId) (ref : ChannelRef) :
    KeepsEach P (w.removeChannel tid l ref) := by
  unfold World.removeChannel
  apply ends_check fun _ => trivial
  intro _
  apply (noIo_assert ..).bind
  intro _ _
  apply ((Poller.removeChannel_frame _ _ _).mapError fun _ _ => trivial).bind
  rintro ⟨poller, channels⟩ ⟨hsame, -⟩
  exact (h.congr rfl rfl : Each P ((w.log _).setPoller l poller)).sameButIndex hP hsame

/-- The interest of a channel that no connection owns. -/
theorem Each.changeInterest (h : Each P w) (tid : ThreadId) {ref : ChannelRef}
    (href : ∀ c, ref ≠ .conn c) (i : Channel.Interest) :
    KeepsEach P (w.changeInterest tid ref i) :=
  (h.setChannel_standing href _).updateChannel hP tid ref

omit hP in
theorem Each.queueInLoop (h : Each P w) (tid : ThreadId) (l : LoopId) (cb : Functor) :
    KeepsEach P (w.queueInLoop tid l cb) := by
  apply ((ends_any _).mapError fun _ _ => trivial).bind
  intro event _
  exact h.congr rfl rfl

theorem Each.requests (h : Each P w) (tid : ThreadId) (c : Nat) (l : LoopId)
    (asked : List Request) : KeepsEach P (w.requests tid c l asked) := by
  induction asked generalizing w with
  | nil => exact h
  | cons q rest ih =>
      have hq : KeepsEach P (w.request tid c l q) := by
        cases q with
        | write taken => exact h
        | update => exact h.updateChannel hP tid _
        | queueWriteComplete => exact h.queueInLoop tid l _
        | shutdownWrite => exact h
      apply hq.bind
      intro w' h'
      exact ih h'

/-- A method of a connection is a turn. -/
theorem Each.method (h : Each P w) (tid : ThreadId) {conn : TcpConnection}
    (hc : w.conns c = some conn) {a : Session.Action} (hread : ∀ r, a ≠ .handleRead r)
    (hkernel : (Session.start ⟨conn, w.channels (.conn c)⟩).Kernel a)
    (hcloses : a.Closes → off c) :
    Ends (fun outcome => KeepsEach P (w.commit tid c outcome)) Session.StateAssert
      (a.perform ⟨conn, w.channels (.conn c)⟩) := by
  have hold := h c conn hc
  have hsound := (hP.sound c _ hold).perform hkernel
  refine ends_of ?_ fun f hf => hsound.of_eq_error hf
  rintro ⟨e', asked⟩ ha
  have hnew := hP.turn c _ e' hold (.method a hread hkernel hcloses ha)
  exact (h.setEndpoint hnew).requests hP tid c _ asked

/-- Follow a pointer, check the thread and run the method of the connection. -/
theorem Each.inLoop (h : Each P w) (tid : ThreadId) (c : Nat) (a : Session.Action)
    (hread : ∀ r, a ≠ .handleRead r)
    (hkernel : ∀ conn, w.conns c = some conn →
      (Session.start ⟨conn, w.channels (.conn c)⟩).Kernel a)
    (hcloses : a.Closes → off c)
    {k : Endpoint → Endpoint × List Request → Except Fault World}
    (hk : ∀ e outcome, KeepsEach P (w.commit tid c outcome) → KeepsEach P (k e outcome)) :
    KeepsEach P (do
      let e ← w.endpoint c
      w.assertInLoopThread e.conn.loop tid
      let outcome ← (a.perform e).mapError .connection
      k e outcome) := by
  apply ends_endpoint fun _ => trivial
  intro conn hc
  apply (noIo_assert ..).bind
  intro _ _
  have hmethod := h.method hP tid hc hread (hkernel conn hc) hcloses
  apply (hmethod.mapError (g := Fault.connection) fun _ hf => hf).bind
  intro outcome hcommit
  exact hk _ outcome hcommit

theorem Each.sendInLoop (h : Each P w) (tid : ThreadId) (c : Nat) {message : List Byte}
    {r : WriteResult} (hr : r.Within message.length) :
    KeepsEach P (w.sendInLoop tid c message r) :=
  h.inLoop hP tid c (.sendInLoop message r) (by simp) (fun _ _ => hr) False.elim fun _ _ => id

theorem Each.handleWrite (h : Each P w) (tid : ThreadId) (c : Nat) {r : WriteResult}
    (hr : ∀ conn ∈ w.conns c, r.Within conn.outputBuffer.readableBytes) :
    KeepsEach P (w.handleWrite tid c r) :=
  h.inLoop hP tid c (.handleWrite r) (by simp) (fun conn hc => hr conn hc) False.elim fun _ _ => id

theorem Each.shutdownInLoop (h : Each P w) (tid : ThreadId) (c : Nat) :
    KeepsEach P (w.shutdownInLoop tid c) :=
  h.inLoop hP tid c .shutdownInLoop (by simp) (fun _ _ => trivial) False.elim fun _ _ => id

theorem Each.send (h : Each P w) (tid : ThreadId) (c : Nat) {message : List Byte}
    {r : WriteResult} (hr : r.Within message.length) : KeepsEach P (w.send tid c message r) := by
  unfold World.send
  split
  · exact h
  · split
    · split
      · exact h.sendInLoop hP tid c hr
      · exact h.queueInLoop _ _ _
    · exact h

theorem Each.shutdown (h : Each P w) (tid : ThreadId) (c : Nat) :
    KeepsEach P (w.shutdown tid c) := by
  unfold World.shutdown
  split
  · exact h
  · rename_i conn hc
    split
    · rename_i hconnected
      have hset : Each P (w.setConn c (some { conn with state := .disconnecting })) := by
        apply h.setConn
        rintro conn' ⟨⟩
        have hshutdown : Session.Action.shutdown.perform ⟨conn, w.channels (.conn c)⟩ =
            .ok (⟨{ conn with state := .disconnecting }, w.channels (.conn c)⟩, []) := by
          simp only [Session.Action.perform, Endpoint.shutdown, if_pos hconnected]
          rfl
        exact hP.turn c _ _ (h c conn hc)
          (.method .shutdown (by simp) trivial False.elim hshutdown)
      simp only
      split
      · exact hset.shutdownInLoop hP tid c
      · exact hset.queueInLoop _ _ _
    · exact h

/-- The user takes bytes out of an input buffer that is sound. -/
theorem Each.retrieveAsString (h : Each P w) (c : Nat) : KeepsEach P (w.retrieveAsString c) := by
  unfold World.retrieveAsString
  split
  · exact h
  · rename_i conn hc
    have hold := h c conn hc
    obtain ⟨b, hb, hinv, -⟩ := Buffer.retrieveAsString_spec (hP.sound c _ hold).input
    have hb' : conn.inputBuffer.retrieveAsString = .ok (b, _) := hb
    rw [hb']
    apply h.setConn
    rintro conn' ⟨⟩
    exact hP.turn c _ _ hold (.input hinv)

omit hP in
theorem Each.addTimerInLoop (h : Each P w) (tid : ThreadId) (l : LoopId) :
    KeepsEach P (w.addTimerInLoop tid l) := by
  apply (noIo_assert ..).bind
  intro _ _
  exact h

theorem Each.userAct (h : Each P w) (tid : ThreadId) {act : UserAct} (hfits : act.Fits) :
    KeepsEach P (w.userAct tid act) := by
  cases act with
  | send c message r => exact h.send hP tid c hfits
  | shutdown c => exact h.shutdown hP tid c
  | retrieveAsString c => exact h.retrieveAsString hP c
  | addTimer l =>
      change KeepsEach P (w.addTimer tid l)
      unfold World.addTimer
      split
      · exact h.addTimerInLoop tid l
      · exact h.queueInLoop _ _ _

theorem Each.userCallback (h : Each P w) (tid : ThreadId) {acts : List UserAct}
    (hfits : ∀ act ∈ acts, act.Fits) : KeepsEach P (w.userCallback tid acts) := by
  induction acts generalizing w with
  | nil => exact h
  | cons act rest ih =>
      apply (h.userAct hP tid (hfits act (List.mem_cons_self ..))).bind
      intro w' h'
      exact ih h' fun act' hact' => hfits act' (List.mem_cons_of_mem _ hact')

theorem Each.establishConnection (h : Each P w) (tid : ThreadId) (c : Nat) {acts : List UserAct}
    (hfits : ∀ act ∈ acts, act.Fits) : KeepsEach P (w.establishConnection tid c acts) := by
  apply h.inLoop hP tid c .establishConnection (by simp) (fun _ _ => trivial) False.elim
  intro _ outcome hcommit
  apply hcommit.bind
  intro w' h'
  exact (h'.log _).userCallback hP tid hfits

theorem Each.newConnection (h : Each P w) (tid : ThreadId) (sockfd : Int) (memory : LoopId)
    {acts : List UserAct} (hfits : ∀ act ∈ acts, act.Fits) :
    KeepsEach P (w.newConnection tid sockfd memory acts) := by
  have hnext : Ends (fun r => Each P r.2) Fault.NoIo (w.countConnection.getNextLoop tid) := by
    apply (noIo_assert ..).bind
    intro _ _
    simp only
    split
    · exact h
    · exact h
  apply (noIo_assert ..).bind
  intro _ _
  apply ends_check fun _ => trivial
  intro _
  apply hnext.bind
  rintro ⟨ioLoop, w'⟩ h'
  let e := Endpoint.new ioLoop (connName w.server) sockfd w'.server.writeCmplCb memory
  have hadd : Each P (w'.addConnection e) := Each.setEndpoint h' (hP.new w'.nextObj ..)
  exact hadd.establishConnection hP tid w'.nextObj hfits

theorem Each.acceptorHandleRead (h : Each P w) (tid : ThreadId) (connfd : Int) (memory : LoopId)
    {acts : List UserAct} (hfits : ∀ act ∈ acts, act.Fits) :
    KeepsEach P (w.acceptorHandleRead tid connfd memory acts) := by
  apply (noIo_assert ..).bind
  intro _ _
  split
  · have hopen : Each P (w.openFd connfd) := h
    exact hopen.newConnection hP tid connfd memory hfits
  · exact h

omit hP in
theorem Each.removeConnection (h : Each P w) (tid : ThreadId) (c : Nat) :
    KeepsEach P (w.removeConnection tid c) := by
  apply (noIo_assert ..).bind
  intro _ _
  apply ends_endpoint fun _ => trivial
  intro conn hc
  apply ends_check fun _ => trivial
  intro _
  have herase : Each P (w.eraseConnection conn.name) := h
  exact (herase.log _).queueInLoop _ _ _

theorem Each.handleClose (h : Each P w) (tid : ThreadId) (hoff : off c) :
    KeepsEach P (w.handleClose tid c) := by
  apply h.inLoop hP tid c .handleClose (by simp) (fun _ _ => trivial) fun _ => hoff
  intro _ outcome hcommit
  apply hcommit.bind
  intro w' h'
  exact (h'.log _).removeConnection tid c

theorem Each.destroyConnection (h : Each P w) (tid : ThreadId) (hoff : off c)
    {acts : List UserAct} (hfits : ∀ act ∈ acts, act.Fits) :
    KeepsEach P (w.destroyConnection tid c acts) := by
  apply h.inLoop hP tid c .destroyConnection (by simp) (fun _ _ => trivial) fun _ => hoff
  intro _ outcome hcommit
  apply hcommit.bind
  intro w' h'
  apply (((h'.log _).log _).userCallback hP tid hfits).bind
  intro w'' h''
  exact h''.removeChannel hP tid _ _

/-- A read that returns nothing closes the connection. -/
theorem Each.handleRead (h : Each P w) (tid : ThreadId) (c : Nat) {r : Buffer.ReadResult}
    (hoff : r = .received [] → off c) {acts : List UserAct} (hfits : ∀ act ∈ acts, act.Fits) :
    KeepsEach P (w.handleRead tid c r acts) := by
  apply ends_endpoint fun _ => trivial
  intro conn hc
  have hold := h c conn hc
  obtain ⟨b, outcome, hb, hs, houtcome⟩ := Endpoint.handleRead_spec (hP.sound c _ hold).input r
  rw [hs]
  have hset := h.setEndpoint (hP.turn c _ _ hold (.input hb))
  cases outcome with
  | message => exact (hset.log _).userCallback hP tid hfits
  | close => exact hset.handleClose hP tid (hoff (houtcome.mp rfl))
  | error => exact hset

theorem Each.listen (h : Each P w) (tid : ThreadId) : KeepsEach P (w.listen tid) := by
  apply (noIo_assert ..).bind
  intro _ _
  have hset : Each P w.setListenning := h
  exact hset.changeInterest hP tid (by simp) .enableReading

theorem Each.start (h : Each P w) (tid : ThreadId) : KeepsEach P (w.start tid) := by
  have hpool : KeepsEach P (w.startPool tid) := by
    unfold World.startPool
    split
    · exact h
    · apply ends_check fun _ => trivial
      intro _
      apply (noIo_assert ..).bind
      intro _ _
      exact h
  apply hpool.bind
  intro w' h'
  split
  · exact h'
  · split
    · exact h'.listen hP tid
    · exact h'.queueInLoop _ _ _

theorem Each.wire (h : Each P w) (l : LoopId) : KeepsEach P (w.wire l) := by
  apply (h.changeInterest hP l (by simp) .enableReading).bind
  intro w' h'
  exact h'.changeInterest hP l (by simp) .enableReading

theorem Each.pollReturn (h : Each P w) (l : LoopId) (reported : List (BitVec 16))
    (numEvents : Int) : KeepsEach P (w.pollReturn l reported numEvents) := by
  apply ((Poller.poll_frame _ _ _ _).mapError fun _ _ => trivial).bind
  rintro ⟨poller, channels, active⟩ ⟨-, hsame, -⟩
  have hset : Each P ((w.setPoller l poller).setPhase l (.dispatching active)) := h
  exact hset.sameButRevents hP hsame

omit hP in
theorem Each.nextChannel (h : Each P w) (l : LoopId) (ref : ChannelRef)
    (active : List ChannelRef) : KeepsEach P (w.nextChannel l ref active) := by
  have hderef : Ends (fun _ => True) Fault.NoIo (w.derefChannel ref) := by
    unfold derefChannel
    split
    · exact ends_endpoint (fun _ => trivial) fun _ _ => trivial
    · exact trivial
  apply hderef.bind
  intro channel _
  exact h

/-- The callbacks that close their connection. -/
def ClosesIn (r : Buffer.ReadResult) (c : Nat) (ref : ChannelRef) (cb : Channel.Callback) : Prop :=
  ref = .conn c ∧ (cb = .close ∨ cb = .read ∧ r = .received [])

theorem Each.runCallback (h : Each P w) (tid : ThreadId) (x : Answers) {ref : ChannelRef}
    {cb : Channel.Callback} (hoff : ∀ c, ClosesIn x.read c ref cb → off c)
    (hacts : ∀ act ∈ x.acts, act.Fits) (hfits : w.CallbackFits x.write ref cb) :
    KeepsEach P (w.runCallback tid x ref cb) := by
  unfold World.runCallback
  split
  · exact h.acceptorHandleRead hP tid _ _ hacts
  · apply (noIo_assert ..).bind
    intro _ _
    exact h.userCallback hP tid hacts
  · exact h
  · exact h.handleClose hP tid (hoff _ ⟨rfl, Or.inl rfl⟩)
  · exact ends_endpoint (fun _ => trivial) fun _ _ => h
  · exact h.handleRead hP tid _ (fun hr => hoff _ ⟨rfl, Or.inr ⟨rfl, hr⟩⟩) hacts
  · exact h.handleWrite hP tid _ hfits
  · exact h

theorem Each.runFunctor (h : Each P w) (tid : ThreadId) (x : Answers) {f : Functor}
    (hoff : ∀ c, f = .destroyConnection c → off c) (hacts : ∀ act ∈ x.acts, act.Fits)
    (hfits : FunctorFits x.write f) : KeepsEach P (w.runFunctor tid x f) := by
  cases f with
  | listen => exact h.listen hP tid
  | addTimerInLoop => exact h.addTimerInLoop tid tid
  | sendInLoop c message => exact h.sendInLoop hP tid c hfits
  | shutdownInLoop c => exact h.shutdownInLoop hP tid c
  | destroyConnection c => exact h.destroyConnection hP tid (hoff c rfl) hacts
  | writeComplete c => exact h.userCallback hP tid hacts

omit hP in
theorem Each.destroy (h : Each P w) (c : Nat) : Each P (w.destroy c) := by
  unfold World.destroy
  split
  · exact h
  · split
    · exact h
    · have hset : Each P (w.setConn c none) := h.setConn (by simp)
      exact hset

/-- The connections that an action may close. -/
def Closing (w : World) : Action → Nat → Prop
  | .callback l x, c => ∃ ref cb callbacks active,
      (w.reactors l).phase = .handling ref (cb :: callbacks) active ∧ ClosesIn x.read c ref cb
  | .functor l _, c => ∃ rest, (w.reactors l).phase = .functors (.destroyConnection c :: rest)
  | _, _ => False

theorem Each.attempt (h : Each P w) {a : Action} (hfits : w.Fits a)
    (hoff : ∀ c, w.Closing a c → off c) : KeepsEach P (w.attempt a) := by
  have hattempted := w.attempted a
  generalize w.attempt a = x at hattempted ⊢
  cases hattempted with
  | stay => exact h
  | start => exact h.start hP 0
  | wire l => exact h.wire hP l
  | enterLoop l =>
      apply ((ends_any _).mapError fun _ _ => trivial).bind
      intro event _
      exact h
  | pollReturn l reported numEvents => exact h.pollReturn hP l reported numEvents
  | nextChannel l ref active => exact h.nextChannel l ref active
  | callback l x ref cb callbacks active hphase =>
      have hset : Each P (w.setPhase l (.handling ref callbacks active)) := h
      obtain ⟨hacts, hcallback⟩ := hfits
      rw [hphase] at hcallback
      exact hset.runCallback hP l x (fun c hc => hoff c ⟨ref, cb, callbacks, active, hphase, hc⟩)
        hacts (hcallback (ref, cb) rfl)
  | endChannel => exact h
  | doPendingFunctors l =>
      apply ((ends_any _).mapError fun _ _ => trivial).bind
      intro outcome _
      exact h
  | functor l x f rest hphase =>
      have hset : Each P (w.setPhase l (.functors rest)) := h
      obtain ⟨hacts, hfunctor⟩ := hfits
      rw [hphase] at hfunctor
      apply hset.runFunctor hP l x _ hacts (hfunctor f rfl)
      rintro c rfl
      exact hoff c ⟨rest, hphase⟩
  | endFunctors => exact h
  | send tid c message => exact h.send hP tid c trivial
  | shutdown tid c => exact h.shutdown hP tid c
  | destroy c => exact h.destroy c

/-- The step lemma. -/
theorem Each.step (h : Each P w) {a : Action} (hfits : w.Fits a)
    (hoff : ∀ c, w.Closing a c → off c) : KeepsEach P (w.step a) :=
  ends_step h (h.attempt hP hfits hoff)

end Lasting

end Each

instance (w : World) (r : WriteResult) : ∀ ref cb, Decidable (w.CallbackFits r ref cb)
  | .conn c, .write =>
      inferInstanceAs (Decidable (∀ conn ∈ w.conns c, r.Within conn.outputBuffer.readableBytes))
  | .conn _, .read | .conn _, .close | .conn _, .error | .acceptor, _ | .timer _, _
  | .wakeup _, _ => isTrue trivial

instance (r : WriteResult) : ∀ f, Decidable (FunctorFits r f)
  | .sendInLoop _ message => inferInstanceAs (Decidable (r.Within message.length))
  | .listen | .addTimerInLoop | .shutdownInLoop _ | .destroyConnection _ | .writeComplete _ =>
      isTrue trivial

instance (w : World) : ∀ a, Decidable (w.Fits a)
  | .callback l x => inferInstanceAs (Decidable ((∀ act ∈ x.acts, act.Fits) ∧
      ∀ next ∈ (w.reactors l).phase.next, w.CallbackFits x.write next.1 next.2))
  | .functor l x => inferInstanceAs (Decidable ((∀ act ∈ x.acts, act.Fits) ∧
      ∀ f ∈ (w.reactors l).phase.rest.head?, FunctorFits x.write f))
  | .start | .wire _ | .enterLoop _ | .pollReturn _ _ _ | .nextChannel _ | .endChannel _
  | .doPendingFunctors _ | .endFunctors _ | .send _ _ _ | .shutdown _ _ | .destroy _ =>
      isTrue trivial

/-- The kernel answers as it should, also to `write(2)`. -/
def Answered (w : World) (a : Action) : Prop := Kernel w a ∧ w.Fits a

instance (w : World) (a : Action) : Decidable (Answered w a) :=
  inferInstanceAs (Decidable (Kernel w a ∧ w.Fits a))

theorem lasting_shows : Lasting (fun _ => True) fun _ => Session.Shows where
  new _ := Session.shows_new
  sound _ _ := Session.Shows.sound
  turn _ _ _ := Session.Shows.turn

theorem each_of_initial {P : Nat → Endpoint → Prop} {N : Nat} {w : World} (h : Initial N w) :
    Each P w := by
  intro c conn hc
  rw [h.conns] at hc
  cases hc

/-- In every run of a server, with any pool and any threads, every connection is in a
state of a session, and no assert of a buffer or on the count of a write ends the run. -/
theorem connections_in_sessions {N : Nat} {s : Except Fault World}
    (h : (machine N).Reach (whileRunning Answered) s) :
    Ends (fun w => ∀ c conn, w.conns c = some conn →
      Session.Shows ⟨conn, w.channels (.conn c)⟩) Fault.NoIo s := by
  have hends : Ends (Each fun _ => Session.Shows) Fault.NoIo s := by
    refine ends_of_reach (fun _ => each_of_initial) ?_ h
    intro w a hw hanswered
    exact hw.step lasting_shows hanswered.2 fun _ _ => trivial
  exact hends

section Example

/-- A connection is accepted, and its user sends three bytes, of which one is written. -/
def sendingRun : List Action :=
  [.start, .wire 0, .enterLoop 0, .pollReturn 0 [1, 0, 0] 1, .nextChannel 0,
    .callback 0 ⟨100, 0, .received [], .error, [.send 0 [7, 8, 9] (.wrote 1)]⟩]

/-- The connection that has two bytes to write is in a session. -/
theorem sending_connection_in_session : ∃ (w : World) (conn : TcpConnection),
    w.conns 0 = some conn ∧ conn.outputBuffer.content = [8, 9] ∧
      Session.Shows ⟨conn, w.channels (.conn 0)⟩ := by
  obtain ⟨s, hs, hp⟩ := Machine.exists_reach (M := machine 0) (whileRunning Answered)
    ⟨fresh 0, rfl, initial_fresh 0⟩ sendingRun
    (fun s => match s with
      | .ok w => decide ((w.conns 0).map (·.outputBuffer.content) = some [8, 9])
      | .error _ => false) (by decide +kernel)
  cases s with
  | error f => cases hp
  | ok w =>
      obtain ⟨conn, hc, hcontent⟩ := Option.map_eq_some_iff.mp (of_decide_eq_true hp)
      exact ⟨w, conn, hc, hcontent, connections_in_sessions hs 0 conn hc⟩

end Example

end World

end Yatwb
