import Yatwb.Contention.Frames
import Yatwb.Connection.Session

/-!
# Messages that are queued behind the destruction

`send` looks at `state_` when it is called, and `sendInLoop` does not look
again. While `destroyConnection` is in the queue the connection still says
`Connected`, so a `send` of another thread is let in and queued behind it.
Its `sendInLoop` then writes to the socket of a destroyed connection, or
hands a channel to the poller that the poller has removed.

Nothing of this happens when every message with bytes is queued before
`destroyConnection` is. An empty message touches nothing as long as the output
buffer holds bytes and somebody keeps the connection alive: once the batch of
`destroyConnection` has ended, nobody else does it for the functor.
-/

namespace Yatwb

open Foundation

namespace PollerRuns

variable {κ : Type}

/-- A registered channel may change its interest. -/
theorem Inv.permitted_change {s : State κ} (h : Inv s) {k : κ}
    (hk : s.status k = .registered) (i : Channel.Interest) : Permitted s (.change k i) := by
  obtain ⟨owners, hrep, howners⟩ := h.rep
  have hmem := (howners k).mpr hk
  refine ⟨?_, hrep.fd_nonneg k hmem, ?_⟩
  · rw [hk]
    nofun
  · intro j hj hne heq
    exact hne (hrep.fd_inj ((howners j).mpr hj) hmem heq)

end PollerRuns

namespace Endpoint

/-- On a channel that is not writing, `sendInLoop` reaches the socket or the poller,
unless the message is empty and the output buffer is not. -/
theorem sendInLoop_reaches {e : Endpoint} (hidle : e.isWriting = false) {message : List Byte}
    (h : message ≠ [] ∨ e.outstanding = 0) (r : WriteResult) :
    Ends (fun outcome => (e.writesDirectly || outcome.2.contains .update) = true)
      (fun _ => True) (e.sendInLoop message r) := by
  by_cases hbytes : e.outstanding = 0
  · have hdirect : e.writesDirectly = true := by
      simp [writesDirectly, hidle, hbytes]
    apply (ends_any _).mono
    intro _ _
    rw [hdirect, Bool.true_or]
  · have hnone : e.directWrite message r = (0, []) := by
      simp [directWrite, writesDirectly, hbytes]
    have hlength : (0 : Int).toNat < message.length :=
      List.length_pos_iff.mpr (h.resolve_right hbytes)
    simp only [sendInLoop, hnone]
    apply ends_check (fun _ => trivial)
    intro _
    rw [if_pos hlength]
    apply (ends_any _).bind
    intro output _
    have hstill : ¬ (e.setOutput output).isWriting = true :=
      Bool.not_eq_true _ ▸ hidle
    rw [if_neg hstill]
    change (e.writesDirectly || [Request.update].contains .update) = true
    simp

end Endpoint

namespace Contended

variable {κ : Type} {s s' : Contended κ}

/-- The functor is a `sendInLoop` with something to send. -/
def ConnTask.hasBytes : ConnTask → Bool
  | .sendInLoop _ message => !message.isEmpty
  | _ => false

/-- The functor finds the connection alive, if it holds a plain `this`, and bytes in the
output buffer, if it sends an empty message after the destruction. -/
def Finds (s : Contended κ) : ConnTask → Prop
  | .sendInLoop _ message => s.alive = true ∧
      (s.destroyed = true → message = [] → s.endpoint.outstanding ≠ 0)
  | .shutdownInLoop _ => s.alive = true
  | _ => True

instance (s : Contended κ) : ∀ task, Decidable (s.Finds task)
  | .sendInLoop _ _ => inferInstanceAs (Decidable (_ ∧ (_ → _ → s.endpoint.outstanding ≠ 0)))
  | .shutdownInLoop _ => inferInstanceAs (Decidable (s.alive = true))
  | .destroyConnection | .writeComplete => isTrue trivial

/-- A message with bytes is queued before `destroyConnection` is, and an empty
one that runs after it finds bytes in the output buffer of a connection that
somebody has kept alive. -/
def InTime (s : Contended κ) : Action κ → Prop
  | .proceed tid (.send message) _ => s.loop.isInLoopThread tid = false → message ≠ [] →
      s.destroyed = false ∧ .destroyConnection ∉ s.fifo
  | .functor _ => ∀ task ∈ (s.batch.getD []).head?, s.Finds task
  | _ => True

instance (s : Contended κ) : ∀ a : Action κ, Decidable (s.InTime a)
  | .proceed _ (.send message) _ => inferInstanceAs (Decidable (_ → message ≠ [] → _))
  | .functor _ => inferInstanceAs (Decidable (∀ task ∈ (s.batch.getD []).head?, s.Finds task))
  | .proceed _ .shutdown _ | .send _ _ | .shutdown _ | .handleWrite _ | .handleClose | .others _
  | .doPendingFunctors | .endFunctors | .release => isTrue trivial

/-- Others use their own channels, as the poller wants it. -/
def Permits (s : Contended κ) : Action κ → Prop
  | .others c => PollerRuns.Permitted s.poll c ∧ target c ≠ s.self
  | _ => True

instance (s : Contended Bool) : ∀ a : Action Bool, Decidable (s.Permits a)
  | .others c => inferInstanceAs (Decidable (PollerRuns.Permitted s.poll c ∧ target c ≠ s.self))
  | .send _ _ => isTrue trivial
  | .shutdown _ => isTrue trivial
  | .proceed _ _ _ => isTrue trivial
  | .handleWrite _ => isTrue trivial
  | .handleClose => isTrue trivial
  | .doPendingFunctors => isTrue trivial
  | .functor _ => isTrue trivial
  | .endFunctors => isTrue trivial
  | .release => isTrue trivial

/-- The fault is neither an assert of the poller nor a dangling pointer. -/
def Harmless : Fault → Prop
  | .poller _ => False
  | .dangling => False
  | _ => True

/-- The invariant: the channel is registered until the destruction and without
interest after it, and no message with bytes is behind the destruction. -/
structure Sheltered (s : Contended κ) : Prop where
  poll : PollerRuns.Inv s.poll
  live : s.destroyed = false → s.poll.status s.self = .registered
  gone : s.destroyed = true →
    s.poll.status s.self = .removed ∧ s.endpoint.isWriting = false
  behind : s.NoneBehind .destroyConnection ConnTask.hasBytes
  queued : s.destroyed = true → ∀ task ∈ s.fifo, task.hasBytes = false
  direct : s.destroyed = true → ∀ c ∈ s.calls, c.1 = s.loop.threadId → c.2.isSend = false
  untouched : s.touched = false

/-- What a step of the connection does to the slots of the poller: nothing to
those of other channels, and nothing at all after the destruction. -/
structure Spares (s s' : Contended κ) : Prop where
  after : s.destroyed = true → s'.poll = s.poll
  slots : ∀ j, j ≠ s.self → s.poll.status j = .registered → s'.poll.slot j = s.poll.slot j

theorem not_destroyed_of_connected (s : Contended κ) (h : s.conn.state = .connected) :
    s.destroyed ≠ true := by
  intro hgone
  rw [destroyed, h] at hgone
  cases hgone

theorem Spares.of_poll_eq (h : s'.poll = s.poll) : s.Spares s' := by
  refine ⟨fun _ => h, ?_⟩
  intro j _ _
  rw [h]

/-- A step that begins with a note in the history or in the calls. -/
theorem ends_spares {t : Contended κ} {x : Except Fault (Contended κ)}
    (h : Ends (fun s' => s'.Sheltered ∧ t.Spares s') Harmless x)
    (hpoll : t.poll = s.poll := by rfl) (hself : t.self = s.self := by rfl)
    (hconn : t.conn = s.conn := by rfl) :
    Ends (fun s' => s'.Sheltered ∧ s.Spares s') Harmless x := by
  apply h.mono
  rintro s' ⟨hsheltered, hspares⟩
  refine ⟨hsheltered, ?_, ?_⟩
  · intro hgone
    rw [← hpoll]
    apply hspares.after
    unfold destroyed
    rw [hconn]
    exact hgone
  · rw [← hpoll, ← hself]
    exact hspares.slots

variable [DecidableEq κ] {channel : Channel} {asked : List Request}

/-- Requests without an `update` do not reach the poller. -/
theorem requests_still (channel : Channel) (hnone : .update ∉ asked) (s : Contended κ) :
    Ends (fun s' => s'.poll = s.poll) Harmless (s.requests channel asked) := by
  induction asked generalizing s with
  | nil => rfl
  | cons q rest ih =>
      have hrest : .update ∉ rest := fun hmem => hnone (List.mem_cons_of_mem q hmem)
      cases q with
      | write taken => exact ih hrest s
      | update => exact absurd List.mem_cons_self hnone
      | queueWriteComplete =>
          unfold requests queueInLoop
          cases s.loop.queueInLoop s.loop.threadId .writeComplete with
          | error f => trivial
          | ok loop => exact ih hrest { s with loop := loop }
      | shutdownWrite => exact ih hrest { s with shut := true }

/-- What a change of the interest of a registered channel does. -/
theorem updateChannel_live (h : PollerRuns.Inv s.poll)
    (hlive : s.poll.status s.self = .registered) (i : Channel.Interest) :
    ∃ poll, s.updateChannel ((s.poll.channels s.self).change i) = .ok { s with poll := poll } ∧
      PollerRuns.Inv poll ∧ PollerRuns.Changed s.poll s.self i poll := by
  obtain ⟨poll, hpoll, hinv, hchanged⟩ := PollerRuns.change_spec h (h.permitted_change hlive i)
  refine ⟨poll, ?_, hinv, hchanged⟩
  simp only [PollerRuns.step] at hpoll
  obtain ⟨⟨poller, channels⟩, hupdate, hresult⟩ := bind_eq_ok.mp hpoll
  obtain rfl := Except.ok.inj hresult
  unfold updateChannel
  rw [hupdate]
  rfl

theorem requests_writes {pre : List Request} (hpre : ∀ q ∈ pre, ∃ taken, q = .write taken)
    (s : Contended κ) (rest : List Request) :
    s.requests channel (pre ++ rest) = s.requests channel rest := by
  induction pre with
  | nil => rfl
  | cons q pre ih =>
      obtain ⟨taken, rfl⟩ := hpre q List.mem_cons_self
      exact ih fun q hq => hpre q (List.mem_cons_of_mem _ hq)

omit [DecidableEq κ] in
/-- A method that keeps `state_` and uses the poller properly keeps the invariant. -/
theorem Sheltered.carried (h : s.Sheltered) {conn : TcpConnection}
    (hstate : conn.state = s.conn.state) (hc : Carried channel asked { s with conn := conn } s')
    (hinv : PollerRuns.Inv s'.poll) (hstatus : s'.poll.status = s.poll.status)
    (hafter : s.destroyed = true → .update ∉ asked) : s'.Sheltered := by
  have hself : s'.self = s.self := hc.self
  have hdestroyed : s'.destroyed = s.destroyed := by
    unfold destroyed
    rw [hc.conn]
    change (conn.state == _) = _
    rw [hstate]
  have hbehind : s'.NoneBehind .destroyConnection ConnTask.hasBytes :=
    NoneBehind.carried (s := { s with conn := conn }) h.behind hc rfl
  refine ⟨hinv, ?_, ?_, hbehind, ?_, ?_, ?_⟩
  · intro hlive
    rw [hstatus, hself]
    exact h.live (hdestroyed ▸ hlive)
  · intro hgone
    rw [hdestroyed] at hgone
    obtain ⟨hremoved, hidle⟩ := h.gone hgone
    refine ⟨by rw [hstatus, hself, hremoved], ?_⟩
    rw [hc.isWriting, if_neg (by simpa using hafter hgone)]
    exact hidle
  · intro hgone task htask
    obtain ⟨extra, hextra, hall⟩ := hc.fifo
    rw [hextra] at htask
    rcases List.mem_append.mp htask with hmem | hmem
    · exact h.queued (hdestroyed ▸ hgone) task hmem
    · rw [hall task hmem]
      rfl
  · intro hgone
    rw [hc.calls, hc.loop]
    exact h.direct (hdestroyed ▸ hgone)
  · rw [hc.touched]
    exact h.untouched

/-- A method that asks for no `update`, before or after the destruction. -/
theorem Sheltered.commit_still (h : s.Sheltered) (outcome : Endpoint × List Request)
    (hstate : outcome.1.conn.state = s.conn.state) (hnone : .update ∉ outcome.2) :
    Ends (fun s' => s'.Sheltered ∧ s.Spares s') Harmless (s.commit outcome) := by
  have hboth := (commit_carried s outcome).and
    (requests_still outcome.1.channel hnone { s with conn := outcome.1.conn })
  apply (hboth.weaken fun _ hf => hf.2).mono
  rintro s' ⟨hc, hpoll⟩
  refine ⟨h.carried hstate hc ?_ ?_ fun _ => hnone, Spares.of_poll_eq hpoll⟩
  · rw [hpoll]
    exact h.poll
  · rw [hpoll]

/-- A method that changes the interest of the channel before the destruction. -/
theorem Sheltered.commit_change (h : s.Sheltered) (hlive : s.destroyed = false)
    (outcome : Endpoint × List Request) {i : Channel.Interest} {post : List Request}
    (hstate : outcome.1.conn.state = s.conn.state)
    (hchannel : outcome.1.channel = s.endpoint.channel.change i)
    (hupdates : Endpoint.Updates outcome.2 post) (hpost : .update ∉ post) :
    Ends (fun s' => s'.Sheltered ∧ s.Spares s' ∧ (s'.poll.channels s.self).events =
        i.apply (s.poll.channels s.self).events) Harmless (s.commit outcome) := by
  obtain ⟨poll, hupdate, hinv, hchanged⟩ :=
    updateChannel_live (s := { s with conn := outcome.1.conn }) h.poll (h.live hlive) i
  have hpoll : Ends (fun s' => s'.poll = poll) Harmless (s.commit outcome) := by
    obtain ⟨pre, hsplit, hpre⟩ := hupdates
    unfold commit
    rw [hsplit, requests_writes hpre, hchannel]
    change Ends _ Harmless (updateChannel { s with conn := outcome.1.conn } _ >>= _)
    rw [show s.endpoint.channel = s.poll.channels s.self from rfl, hupdate]
    exact requests_still _ hpost { s with conn := outcome.1.conn, poll := poll }
  have hboth := (commit_carried s outcome).and hpoll
  apply (hboth.weaken fun _ hf => hf.2).mono
  rintro s' ⟨hc, rfl⟩
  have hstatus : s'.poll.status = s.poll.status := by
    rw [hchanged.status, ← h.live hlive]
    exact Function.update_eq_self ..
  refine ⟨h.carried hstate hc hinv hstatus ?_, ⟨?_, ?_⟩, hchanged.events⟩
  · intro hgone
    rw [hlive] at hgone
    cases hgone
  · intro hgone
    rw [hlive] at hgone
    cases hgone
  · intro j hj hreg
    exact (hchanged.others j hj).2 hreg

/-- A write path before the destruction. -/
theorem Sheltered.commit_writes (h : s.Sheltered) (hlive : s.destroyed = false)
    {outcome : Endpoint × List Request} (hwrites : s.endpoint.Writes outcome) :
    Ends (fun s' => s'.Sheltered ∧ s.Spares s') Harmless (s.commit outcome) := by
  obtain ⟨b, hconn⟩ := hwrites.conn
  have hstate : outcome.1.conn.state = s.conn.state := by
    rw [hconn]
    rfl
  rcases hwrites.channel with ⟨-, hnone⟩ | ⟨i, post, hchannel, hupdates, hpost⟩
  · exact h.commit_still outcome hstate hnone
  · apply (h.commit_change hlive outcome hstate hchannel hupdates hpost).mono
    rintro s' ⟨hsheltered, hspares, -⟩
    exact ⟨hsheltered, hspares⟩

omit [DecidableEq κ] in
/-- The history of writes is no part of the invariant. -/
theorem Sheltered.history (h : s.Sheltered) (ran : List (ThreadId × List Byte)) (late : Bool)
    {touched : Bool} (htouched : touched = false) :
    Sheltered { s with ran := ran, wroteLate := late, touched := touched } :=
  ⟨h.poll, h.live, h.gone, h.behind, h.queued, h.direct, htouched⟩

/-- A message runs before the destruction. -/
theorem Sheltered.sendInLoop_live (h : s.Sheltered) (hlive : s.destroyed = false)
    (caller : ThreadId) (message : List Byte) (r : WriteResult) :
    Ends (fun s' => s'.Sheltered ∧ s.Spares s') Harmless (s.sendInLoop caller message r) := by
  unfold sendInLoop
  apply Ends.bind ((Endpoint.sendInLoop_writes s.endpoint message r).mapError fun _ _ => trivial)
  intro outcome hwrites
  have htouched : (s.touched || s.destroyed && (s.endpoint.writesDirectly ||
      outcome.2.contains .update)) = false := by
    rw [h.untouched, hlive, Bool.false_and, Bool.or_false]
  have hstored := h.history (s.ran ++ [(caller, message)])
    (s.wroteLate || s.endpoint.writesDirectly && s.shut) htouched
  exact ends_spares (hstored.commit_writes hlive hwrites)

/-- An empty message runs after the destruction, with bytes in the output buffer. -/
theorem Sheltered.sendInLoop_empty (h : s.Sheltered) (hgone : s.destroyed = true)
    (hbytes : s.endpoint.outstanding ≠ 0) (caller : ThreadId) (r : WriteResult) :
    Ends (fun s' => s'.Sheltered ∧ s.Spares s') Harmless (s.sendInLoop caller [] r) := by
  have hdirect : s.endpoint.writesDirectly = false := by
    simp [Endpoint.writesDirectly, hbytes]
  have houtcome : s.endpoint.sendInLoop [] r = .ok (s.endpoint, []) := by
    simp only [Endpoint.sendInLoop, Endpoint.directWrite, hdirect]
    rfl
  unfold sendInLoop
  rw [houtcome, hdirect]
  have htouched : (s.touched || s.destroyed && (false || ([] : List Request).contains .update)) =
      false := by
    rw [h.untouched, hgone]
    rfl
  have hstored := h.history (s.ran ++ [(caller, [])])
    (s.wroteLate || false && s.shut) htouched
  exact ends_spares (hstored.commit_still (s.endpoint, []) rfl List.not_mem_nil)

theorem Sheltered.shutdownInLoop (h : s.Sheltered) :
    Ends (fun s' => s'.Sheltered ∧ s.Spares s') Harmless s.shutdownInLoop := by
  have hnone : .update ∉ s.endpoint.shutdownInLoop := by
    unfold Endpoint.shutdownInLoop
    split
    · simp
    · simp
  exact h.commit_still (s.endpoint, _) rfl hnone

omit [DecidableEq κ] in
/-- Events are dispatched before the destruction only. -/
theorem Sheltered.live_of_dispatches (h : s.Sheltered) (hdispatch : s.dispatches = true) :
    s.destroyed = false := by
  have hreg : s.poll.status s.self = .registered :=
    beq_iff_eq.mp (Bool.and_eq_true_iff.mp hdispatch).2
  by_contra hgone
  have hremoved := (h.gone (Bool.eq_true_of_not_eq_false hgone)).1
  rw [hreg] at hremoved
  cases hremoved

theorem Sheltered.handleWrite (h : s.Sheltered) (hlive : s.destroyed = false)
    (r : WriteResult) :
    Ends (fun s' => s'.Sheltered ∧ s.Spares s') Harmless (s.handleWrite r) := by
  unfold Contended.handleWrite
  apply Ends.bind ((Endpoint.handleWrite_writes s.endpoint r).mapError fun _ _ => trivial)
  intro outcome hwrites
  have hstored := h.history s.ran (s.wroteLate || s.endpoint.isWriting && s.shut) h.untouched
  exact ends_spares (hstored.commit_writes hlive hwrites)

omit [DecidableEq κ] in
/-- A functor is put at the end of the queue: one with bytes only while the
destruction is still to be queued. -/
theorem Sheltered.queue (h : s.Sheltered) {loop : EventLoop ConnTask} {task : ConnTask}
    (hthread : loop.threadId = s.loop.threadId)
    (hloop : loop.pendingFunctors = s.loop.pendingFunctors ++ [task])
    (htime : task.hasBytes = true → s.destroyed = false ∧ .destroyConnection ∉ s.fifo) :
    Sheltered { s with loop := loop } := by
  refine ⟨h.poll, h.live, h.gone, ?_, ?_, ?_, h.untouched⟩
  · exact h.behind.queue hloop fun hbytes => (htime hbytes).2
  · intro hgone other hother
    rw [fifo_queued s hloop] at hother
    rcases List.mem_append.mp hother with hmem | hmem
    · exact h.queued hgone other hmem
    · obtain rfl := List.mem_singleton.mp hmem
      cases hbytes : other.hasBytes with
      | false => rfl
      | true =>
          have hlive := (htime hbytes).1
          change s.destroyed = true at hgone
          rw [hgone] at hlive
          cases hlive
  · intro hgone
    change ∀ c ∈ s.calls, c.1 = loop.threadId → _
    rw [hthread]
    exact h.direct hgone

theorem Sheltered.handleClose (h : s.Sheltered) (hlive : s.destroyed = false) :
    Ends (fun s' => s'.Sheltered ∧ s.Spares s') Harmless s.handleClose := by
  unfold Contended.handleClose
  rw [Endpoint.handleClose_eq]
  split
  · have hupdates : Endpoint.Updates [.update] [] := ⟨[], rfl, nofun⟩
    apply (h.commit_change hlive (s.endpoint.change .disableAllEvents) rfl rfl hupdates
      List.not_mem_nil).bind
    rintro s₁ ⟨hsheltered, hspares, -⟩
    apply ends_check (fun _ => trivial)
    intro _
    apply Ends.bind ((EventLoop.queueInLoop_spec _ _ _).mapError fun _ _ => trivial)
    rintro loop ⟨hthread, hpending⟩
    refine ⟨?_, hspares.after, hspares.slots⟩
    have hremoved : Sheltered { s₁ with inServer := false } :=
      ⟨hsheltered.poll, hsheltered.live, hsheltered.gone, hsheltered.behind, hsheltered.queued,
        hsheltered.direct, hsheltered.untouched⟩
    apply hremoved.queue hthread hpending
    nofun
  · trivial

/-- What the destruction of an open connection does to the poller. -/
theorem destroyConnection_open (h : PollerRuns.Inv s.poll)
    (hlive : s.poll.status s.self = .registered) (hopen : s.endpoint.Open) :
    ∃ poll, s.destroyConnection =
        .ok { s with conn := { s.conn with state := .disconnected }, poll := poll } ∧
      PollerRuns.Inv poll ∧ poll.status = Function.update s.poll.status s.self .removed ∧
      (poll.channels s.self).events = Channel.noneEvent ∧
      ∀ j, j ≠ s.self → s.poll.status j = .registered → poll.slot j = s.poll.slot j := by
  obtain ⟨poll, hupdate, hinv, hchanged⟩ := updateChannel_live
    (s := { s with conn := { s.conn with state := .disconnected } }) h hlive .disableAllEvents
  have hreg : poll.status s.self = .registered := by
    rw [hchanged.status]
    exact Function.update_self ..
  obtain ⟨poll', hremove, hinv', hstatus, hsame, hslots⟩ :=
    PollerRuns.remove_spec hinv (k := s.self) ⟨hreg, hchanged.events⟩
  refine ⟨poll', ?_, hinv', ?_, ?_, ?_⟩
  · have hcommit : s.commit ((s.endpoint.setState .disconnected).change .disableAllEvents) =
        .ok { s with conn := { s.conn with state := .disconnected }, poll := poll } :=
      congrArg (fun x => x >>= fun s => Except.ok s) hupdate
    calc s.destroyConnection
        = s.commit ((s.endpoint.setState .disconnected).change .disableAllEvents) >>=
            removeChannel := by
          unfold Contended.destroyConnection
          rw [Endpoint.destroyConnection_eq, if_pos hopen]
          rfl
      _ = removeChannel
            { s with conn := { s.conn with state := .disconnected }, poll := poll } := by
          rw [hcommit]
          rfl
      _ = .ok { s with conn := { s.conn with state := .disconnected }, poll := poll' } := by
          unfold removeChannel
          rw [hremove]
          rfl
  · rw [hstatus, hchanged.status]
    exact Function.update_idem ..
  · obtain ⟨m, hm⟩ := hsame s.self
    rw [hm, Channel.setIndex_events]
    exact hchanged.events
  · intro j hj hjreg
    have hkept : poll.status j = .registered := by
      rw [hchanged.status]
      exact (Function.update_of_ne hj ..).trans hjreg
    rw [hslots j hj hkept]
    exact (hchanged.others j hj).2 hjreg

/-- The destruction, with nothing behind it that has bytes. -/
theorem Sheltered.destroyConnection (h : s.Sheltered)
    (hrest : ∀ task ∈ s.fifo, task.hasBytes = false)
    (hidle : ∀ c ∈ s.calls, c.1 ≠ s.loop.threadId) :
    Ends (fun s' => s'.Sheltered ∧ s.Spares s') Harmless s.destroyConnection := by
  by_cases hopen : s.endpoint.Open
  · have hlive : s.destroyed = false := by
      unfold destroyed
      rcases hopen with hstate | hstate
      · exact hstate ▸ rfl
      · exact hstate ▸ rfl
    obtain ⟨poll, hresult, hinv, hstatus, hevents, hslots⟩ :=
      destroyConnection_open h.poll (h.live hlive) hopen
    rw [hresult]
    refine ⟨⟨hinv, nofun, ?_, h.behind, fun _ => hrest, ?_, h.untouched⟩, ?_, hslots⟩
    · intro _
      constructor
      · rw [hstatus]
        exact Function.update_self ..
      · change (poll.channels s.self).events.has Channel.writeEvent = false
        rw [hevents]
        rfl
    · intro _ c hc hself
      exact absurd hself (hidle c hc)
    · intro hgone
      rw [hlive] at hgone
      cases hgone
  · unfold Contended.destroyConnection
    rw [Endpoint.destroyConnection_eq, if_neg hopen]
    trivial

section Steps

variable {tid : ThreadId} {message : List Byte} {task : ConnTask} {rest : List ConnTask}

omit [DecidableEq κ] in
theorem Sheltered.leave (h : s.Sheltered) (c : ThreadId × Passed) :
    Sheltered { s with calls := s.calls.erase c } :=
  ⟨h.poll, h.live, h.gone, h.behind, h.queued,
    fun hgone _ hc => h.direct hgone _ (List.mem_of_mem_erase hc), h.untouched⟩

omit [DecidableEq κ] in
theorem Sheltered.pop (h : s.Sheltered) (hbatch : s.batch = some (task :: rest)) :
    Sheltered { s with batch := some rest } := by
  refine ⟨h.poll, h.live, h.gone, (h.behind.pop hbatch).2, ?_, h.direct, h.untouched⟩
  intro hgone other hother
  apply h.queued hgone
  rw [fifo_of_batch hbatch]
  exact List.mem_cons_of_mem task hother

omit [DecidableEq κ] in
theorem Sheltered.enqueue (h : s.Sheltered) (tid : ThreadId) (p : Passed)
    (htime : task.hasBytes = true → s.destroyed = false ∧ .destroyConnection ∉ s.fifo) :
    Ends (fun s' => s'.Sheltered ∧ s.Spares s') Harmless (s.enqueue tid p task) := by
  have hspec := enqueue_spec s tid p task
  apply (hspec.weaken ?_).mono
  · rintro s' (rfl | ⟨loop, hthread, hpending, rfl⟩)
    · exact ⟨h, Spares.of_poll_eq rfl⟩
    · exact ⟨(h.leave (tid, p)).queue hthread hpending htime, Spares.of_poll_eq rfl⟩
  · rintro f ⟨g, rfl⟩
    trivial

theorem Sheltered.proceed_send (h : s.Sheltered) (hmem : (tid, .send message) ∈ s.calls)
    {r : WriteResult} (htime : s.InTime (.proceed tid (.send message) r)) :
    Ends (fun s' => s'.Sheltered ∧ s.Spares s') Harmless
      (s.proceed tid (.send message) r) := by
  simp only [proceed]
  split
  · rename_i hself
    have hlive : s.destroyed = false := by
      by_contra hgone
      have hnone := h.direct (Bool.eq_true_of_not_eq_false hgone) _ hmem
        (beq_iff_eq.mp hself).symm
      cases hnone
    exact ends_spares ((h.leave _).sendInLoop_live hlive tid message r)
  · rename_i hother
    apply h.enqueue
    intro hbytes
    apply htime (Bool.eq_false_of_not_eq_true hother)
    rintro rfl
    cases hbytes

theorem Sheltered.proceed_shutdown (h : s.Sheltered) (tid : ThreadId) (r : WriteResult) :
    Ends (fun s' => s'.Sheltered ∧ s.Spares s') Harmless (s.proceed tid .shutdown r) := by
  simp only [proceed]
  split
  · exact ends_spares (h.leave (tid, .shutdown)).shutdownInLoop
  · apply h.enqueue
    nofun

omit [DecidableEq κ] in
/-- What `InTime` says of the next functor. -/
theorem InTime.finds {r : WriteResult} (htime : s.InTime (.functor r))
    (hbatch : s.batch = some (task :: rest)) : s.Finds task := by
  apply htime task
  rw [hbatch]
  rfl

theorem Sheltered.functor_send {caller : ThreadId} (h : s.Sheltered)
    (hbatch : s.batch = some (.sendInLoop caller message :: rest)) (r : WriteResult)
    (hfinds : s.Finds (.sendInLoop caller message)) :
    Ends (fun s' => s'.Sheltered ∧ s.Spares s') Harmless
      (({ s with batch := some rest } : Contended κ).runTask r (.sendInLoop caller message)) := by
  obtain ⟨halive, hbytes⟩ := hfinds
  have hpopped := h.pop hbatch
  rw [runTask, check_bind_of _ halive]
  cases hgone : s.destroyed with
  | false =>
      exact ends_spares (hpopped.sendInLoop_live hgone caller message r)
  | true =>
      have hempty : message = [] := by
        have hnone := h.queued hgone (.sendInLoop caller message) (by
          rw [fifo_of_batch hbatch]
          exact List.mem_cons_self)
        simpa [ConnTask.hasBytes] using hnone
      subst hempty
      exact ends_spares (hpopped.sendInLoop_empty hgone (hbytes hgone rfl) caller r)

theorem Sheltered.functor (h : s.Sheltered) {r : WriteResult} (htime : s.InTime (.functor r)) :
    Ends (fun s' => s'.Sheltered ∧ s.Spares s') Harmless (s.step (.functor r)) := by
  simp only [step]
  split
  · rename_i task rest hbatch
    split
    · rename_i hidle
      have hpopped := h.pop hbatch
      cases task with
      | sendInLoop caller message => exact h.functor_send hbatch r (htime.finds hbatch)
      | shutdownInLoop overtaking =>
          have halive : s.alive = true := htime.finds hbatch
          rw [runTask, check_bind_of _ halive]
          exact ends_spares hpopped.shutdownInLoop
      | destroyConnection =>
          have hcalls : ∀ c ∈ s.calls, c.1 ≠ s.loop.threadId := by
            intro c hc
            simpa using List.all_eq_true.mp hidle c hc
          exact ends_spares (hpopped.destroyConnection ((h.behind.pop hbatch).1 rfl) hcalls)
      | writeComplete => exact ⟨hpopped, Spares.of_poll_eq rfl⟩
    · exact ⟨h, Spares.of_poll_eq rfl⟩
  · exact ⟨h, Spares.of_poll_eq rfl⟩

theorem Sheltered.send (h : s.Sheltered) (tid : ThreadId) (message : List Byte) :
    Ends (fun s' => s'.Sheltered ∧ s.Spares s') Harmless (s.step (.send tid message)) := by
  simp only [step]
  split
  · rename_i hstart
    have hstate : s.conn.state = .connected :=
      beq_iff_eq.mp (Bool.and_eq_true_iff.mp hstart).2
    have hlive : s.destroyed ≠ true := s.not_destroyed_of_connected hstate
    exact ⟨⟨h.poll, h.live, h.gone, h.behind, h.queued, fun hgone => absurd hgone hlive,
      h.untouched⟩, Spares.of_poll_eq rfl⟩
  · exact ⟨h, Spares.of_poll_eq rfl⟩

theorem Sheltered.shutdown (h : s.Sheltered) (tid : ThreadId) :
    Ends (fun s' => s'.Sheltered ∧ s.Spares s') Harmless (s.step (.shutdown tid)) := by
  simp only [step]
  split
  · rename_i hstart
    obtain ⟨hstate, hleft⟩ := Endpoint.shutdown_asks (Bool.and_eq_true_iff.mp hstart).2
    have hlive := Bool.eq_false_of_not_eq_true (s.not_destroyed_of_connected hstate)
    rw [hleft]
    refine ⟨⟨h.poll, fun _ => h.live hlive, ?_, h.behind, ?_, ?_, h.untouched⟩,
      Spares.of_poll_eq rfl⟩
    · intro hgone
      cases hgone
    · intro hgone
      cases hgone
    · intro hgone
      cases hgone
  · exact ⟨h, Spares.of_poll_eq rfl⟩

omit [DecidableEq κ] in
theorem Sheltered.rearranged (h : s.Sheltered) (hs : Rearranged s s') :
    s'.Sheltered ∧ s.Spares s' := by
  have hfifo := hs.fifo
  obtain ⟨loop, batch, owns, hthread, rfl⟩ := hs.same
  refine ⟨⟨h.poll, h.live, h.gone, h.behind.rearranged hs, ?_, ?_, h.untouched⟩,
    Spares.of_poll_eq rfl⟩
  · rw [hfifo]
    exact h.queued
  · change s.destroyed = true → ∀ c ∈ s.calls, c.1 = loop.threadId → _
    rw [hthread]
    exact h.direct

/-- What others do with their channels. -/
theorem Sheltered.others (h : s.Sheltered) {c : PollerRuns.Call κ}
    (hpermits : s.Permits (.others c)) : Ends Sheltered Harmless (s.step (.others c)) := by
  obtain ⟨hpermitted, hother⟩ := hpermits
  have hresult : ∃ poll, PollerRuns.step s.poll c = .ok poll ∧ PollerRuns.Inv poll ∧
      poll.status s.self = s.poll.status s.self ∧
      (poll.channels s.self).events = (s.poll.channels s.self).events := by
    cases c with
    | change k i =>
        have hne : s.self ≠ k := Ne.symm hother
        obtain ⟨poll, hpoll, hinv, hchanged⟩ := PollerRuns.change_spec h.poll hpermitted
        refine ⟨poll, hpoll, hinv, ?_, ?_⟩
        · rw [hchanged.status, Function.update_of_ne hne]
        · rw [(hchanged.others s.self hne).1]
    | remove k =>
        have hne : s.self ≠ k := Ne.symm hother
        obtain ⟨poll, hpoll, hinv, hstatus, hsame, -⟩ := PollerRuns.remove_spec h.poll hpermitted
        obtain ⟨m, hm⟩ := hsame s.self
        refine ⟨poll, hpoll, hinv, ?_, ?_⟩
        · rw [hstatus, Function.update_of_ne hne]
        · rw [hm, Channel.setIndex_events]
  obtain ⟨poll, hpoll, hinv, hstatus, hevents⟩ := hresult
  simp only [step]
  rw [hpoll]
  refine ⟨hinv, ?_, ?_, h.behind, h.queued, h.direct, h.untouched⟩
  · intro hlive
    exact hstatus.trans (h.live hlive)
  · intro hgone
    obtain ⟨hremoved, hidle⟩ := h.gone hgone
    refine ⟨hstatus.trans hremoved, ?_⟩
    change (poll.channels s.self).events.has Channel.writeEvent = false
    rw [hevents]
    exact hidle

/-- Every step of the connection and its loop in time. -/
theorem Sheltered.step {a : Action κ} (h : s.Sheltered) (htime : s.InTime a)
    (hown : ∀ c, a ≠ .others c) :
    Ends (fun s' => s'.Sheltered ∧ s.Spares s') Harmless (s.step a) := by
  have hstay : s.Sheltered ∧ s.Spares s := ⟨h, Spares.of_poll_eq rfl⟩
  have hloop : ∀ f : Fault, (∃ g, f = .loop g) → Harmless f := by
    rintro f ⟨g, rfl⟩
    trivial
  cases a with
  | send tid message => exact h.send tid message
  | shutdown tid => exact h.shutdown tid
  | proceed tid p r =>
      simp only [Contended.step]
      split
      · rename_i hmem
        cases p with
        | send message => exact h.proceed_send hmem htime
        | shutdown => exact h.proceed_shutdown tid r
      · exact hstay
  | handleWrite r =>
      simp only [Contended.step]
      split
      · rename_i hdispatch
        exact h.handleWrite (h.live_of_dispatches hdispatch) r
      · exact hstay
  | handleClose =>
      simp only [Contended.step]
      split
      · rename_i hdispatch
        exact h.handleClose (h.live_of_dispatches hdispatch)
      · exact hstay
  | others c => exact absurd rfl (hown c)
  | doPendingFunctors =>
      exact ((doPendingFunctors_spec s).weaken hloop).mono fun _ => h.rearranged
  | functor r => exact h.functor htime
  | endFunctors => exact ((endFunctors_spec s).weaken hloop).mono fun _ => h.rearranged
  | release =>
      exact ⟨⟨h.poll, h.live, h.gone, h.behind, h.queued, h.direct, h.untouched⟩,
        Spares.of_poll_eq rfl⟩

theorem sheltered_of_initial (h : s.Initial) : s.Sheltered := by
  obtain ⟨-, -, -, -, -, htouched⟩ := h.history
  have hfifo := h.fifo_eq_nil
  have hlive := s.not_destroyed_of_connected h.connected
  obtain ⟨poll, hpoll, hinv⟩ := faultless (fun _ => PollerRuns.inv_of_initial)
    (fun _ _ => PollerRuns.inv_step) h.poll
  obtain rfl := Except.ok.inj hpoll
  refine ⟨hinv, fun _ => h.registered, fun hgone => absurd hgone hlive, ?_,
    fun hgone => absurd hgone hlive, fun hgone => absurd hgone hlive, htouched⟩
  unfold NoneBehind
  rw [hfifo]
  exact List.Pairwise.nil

end Steps

/-- After the destruction, a message with bytes is touched upon, and so is an empty
one that finds the output buffer empty. -/
theorem late_send_touches (h : s.Sheltered) (hgone : s.destroyed = true)
    {message : List Byte} (hlate : message ≠ [] ∨ s.endpoint.outstanding = 0)
    (caller : ThreadId) (r : WriteResult) :
    Ends (fun s' => s'.touched = true) (fun _ => True) (s.sendInLoop caller message r) := by
  obtain ⟨-, hidle⟩ := h.gone hgone
  unfold sendInLoop
  apply Ends.bind ((Endpoint.sendInLoop_reaches hidle hlate r).mapError fun _ _ => trivial)
  intro outcome htouch
  apply (commit_carried _ outcome).mono
  intro s' hc
  rw [hc.touched]
  change (s.touched || s.destroyed && (s.endpoint.writesDirectly ||
    outcome.2.contains .update)) = true
  rw [htouch, hgone]
  simp

/-- In every run in which messages with bytes are queued before the destruction,
the others find bytes in the output buffer and somebody keeps the connection alive
for the functors with a plain `this`, whatever the threads do, no `sendInLoop`
touches the destroyed connection, no pointer dangles and no assert of the poller
fails. Every step of the connection leaves the slots of the other channels alone, and
after the destruction the whole poller. -/
theorem late_sends_touch_nothing {s : Except Fault (Contended κ)}
    (h : (machine κ).Reach (whileRunning fun s a => s.InTime a ∧ s.Permits a) s) :
    Ends (fun s => s.touched = false ∧
        (s.destroyed = true → s.poll.status s.self = .removed) ∧
        ∀ a, s.InTime a → (∀ c, a ≠ .others c) →
          Ends (fun s' => s.Spares s') Harmless (s.step a))
      Harmless s := by
  have hsheltered : Ends Sheltered Harmless s := by
    apply ends_of_reach _ _ h
    · intro s hs
      exact sheltered_of_initial hs
    · rintro s a hs ⟨htime, hpermits⟩
      by_cases hown : ∀ c, a ≠ .others c
      · exact (hs.step htime hown).mono fun _ hs' => hs'.1
      · obtain ⟨c, rfl⟩ : ∃ c, a = .others c := by simpa using hown
        exact hs.others hpermits
  apply hsheltered.mono
  intro s hs
  refine ⟨hs.untouched, fun hgone => (hs.gone hgone).1, ?_⟩
  intro a htime hown
  exact (hs.step htime hown).mono fun _ hs' => hs'.2

section Example

/-- A message stays in the output buffer, the connection is closed, and an empty
message is queued behind its destruction. The connection goes away with the batch. -/
def exampleInTime : List (Action Bool) :=
  [.send 2 [65], .proceed 2 (.send [65]) .error, .doPendingFunctors, .functor .error,
    .endFunctors, .handleClose, .send 2 [], .proceed 2 (.send []) .error, .doPendingFunctors,
    .functor .error, .functor .error, .release, .endFunctors, .release]

/-- An empty message runs after the destruction. -/
theorem empty_send_touches_nothing : ∃ s : Contended Bool, s.destroyed = true ∧
    (2, []) ∈ s.ran ∧ s.alive = false ∧ s.touched = false ∧
      s.poll.status s.self = .removed := by
  obtain ⟨s, hs, hp⟩ := Machine.exists_reach
    (whileRunning fun s a => InTime s a ∧ Permits s a) (M := machine Bool)
    ⟨exampleOpen, rfl, exampleOpen_initial⟩ exampleInTime
    (fun s => match s with
      | .ok s => s.destroyed ∧ (2, []) ∈ s.ran ∧ s.alive = false
      | .error _ => false) (by decide +kernel)
  have hends := late_sends_touch_nothing hs
  cases s with
  | error f => cases hp
  | ok s =>
      obtain ⟨hgone, hran, hdead⟩ := of_decide_eq_true hp
      obtain ⟨htouched, hremoved, -⟩ := hends
      exact ⟨s, hgone, hran, hdead, htouched, hremoved hgone⟩

/-- An empty message is let in before the close, and is queued when the batch of the
destruction has ended. -/
def exampleReleased : List (Action Bool) :=
  [.send 2 [], .handleClose, .doPendingFunctors, .functor .error, .endFunctors,
    .proceed 2 (.send []) .error, .release, .doPendingFunctors, .functor .error]

/-- Its functor runs on a connection that is gone. -/
example : ((machine Bool).runs (whileRunning fun s a => s.Permits a) (.ok exampleOpen)
    exampleReleased).any (fun s => match s with
      | .error .dangling => true
      | _ => false) = true := by decide +kernel

/-- A message with bytes is queued behind the destruction, and `write(2)` fails. -/
def exampleLate : List (Action Bool) :=
  [.handleClose, .send 2 [65], .proceed 2 (.send [65]) .error, .doPendingFunctors,
    .functor .error, .functor .error]

/-- The channel of a destroyed connection is handed to the poller. -/
theorem late_send_hits_poller : ¬ ∀ s : Except Fault (Contended Bool),
    (machine Bool).Reach (whileRunning fun s a => s.Permits a) s →
    Ends (fun s => s.touched = false) Harmless s := by
  intro h
  obtain ⟨s, hs, hp⟩ := Machine.exists_reach
    (whileRunning fun s a => Permits s a) (M := machine Bool)
    ⟨exampleOpen, rfl, exampleOpen_initial⟩ exampleLate
    (fun s => match s with
      | .error (.poller _) => true
      | _ => false) (by decide +kernel)
  have hends := h s hs
  split at hp
  · exact hends
  · cases hp

end Example

end Contended

end Yatwb
