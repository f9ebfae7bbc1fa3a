import Yatwb.Contention.Frames

/-!
# Messages accepted before a shutdown

`send` and `shutdown` look at `state_` on the thread of the caller and act on
the thread of the loop. A message that was accepted is not cut off as long as
no shutdown overtakes it. There are three ways to do that: the thread of the
loop shuts down at once, without the queue; a shutdown is queued before a
`sendInLoop` whose `send` has already been let in, and finds the channel idle;
and `handleWrite` shuts down for a `shutdown` whose functor is still in the queue.
-/

namespace Yatwb.Contended

open Foundation

variable {κ : Type}

/-- No message that was accepted is still to be handed to `sendInLoop`. -/
def Quiet (s : Contended κ) : Prop :=
  (∀ c ∈ s.calls, c.2.isSend = false) ∧ ∀ task ∈ s.fifo, task.isSend = false

instance (s : Contended κ) : Decidable s.Quiet := inferInstanceAs (Decidable (_ ∧ _))

/-- No shutdown overtakes an accepted message. -/
def InTurn (s : Contended κ) : Action κ → Prop
  | .proceed tid .shutdown _ => s.loop.isInLoopThread tid = true →
      s.endpoint.isWriting = true ∨ s.Quiet
  | .functor _ => .shutdownInLoop true ∈ (s.batch.getD []).head? → s.endpoint.isWriting = true
  | .handleWrite r => s.endpoint.isWriting = true → s.conn.state = .disconnecting →
      s.endpoint.outstanding ≤ r.value.toNat → s.Quiet
  | _ => True

instance (s : Contended κ) : ∀ a : Action κ, Decidable (s.InTurn a)
  | .proceed _ .shutdown _ => inferInstanceAs (Decidable (_ → _ ∨ s.Quiet))
  | .functor _ => inferInstanceAs (Decidable
      (.shutdownInLoop true ∈ (s.batch.getD []).head? → s.endpoint.isWriting = true))
  | .handleWrite r =>
      inferInstanceAs (Decidable (_ → _ → s.endpoint.outstanding ≤ r.value.toNat → _))
  | .proceed _ (.send _) _ => isTrue trivial
  | .send _ _ => isTrue trivial
  | .shutdown _ => isTrue trivial
  | .handleClose => isTrue trivial
  | .others _ => isTrue trivial
  | .doPendingFunctors => isTrue trivial
  | .endFunctors => isTrue trivial
  | .release => isTrue trivial

/-- The connection stays open, and others use their own channels. -/
def StaysOpen (s : Contended κ) : Action κ → Prop
  | .handleClose => False
  | .others c => target c ≠ s.self
  | _ => True

instance [DecidableEq κ] (s : Contended κ) : ∀ a : Action κ, Decidable (s.StaysOpen a)
  | .handleClose => isFalse id
  | .others c => inferInstanceAs (Decidable (target c ≠ s.self))
  | .send _ _ => isTrue trivial
  | .shutdown _ => isTrue trivial
  | .proceed _ _ _ => isTrue trivial
  | .handleWrite _ => isTrue trivial
  | .doPendingFunctors => isTrue trivial
  | .functor _ => isTrue trivial
  | .endFunctors => isTrue trivial
  | .release => isTrue trivial

/-- Every accepted message has run, is queued, is on its way, or is in hand; a
connection that is `Connected` has no shutdown on its way; and nothing was
written late. -/
structure Books (hand : List (ThreadId × List Byte)) (s : Contended κ) : Prop where
  conserved : ∀ tid m, s.accepted.count (tid, m) = s.ran.count (tid, m) +
    s.fifo.count (.sendInLoop tid m) + s.calls.count (tid, .send m) + hand.count (tid, m)
  noDestroy : .destroyConnection ∉ s.fifo
  isOpen : s.conn.state = .connected ∨ s.conn.state = .disconnecting
  fresh : s.conn.state = .connected →
    (∀ overtaking, .shutdownInLoop overtaking ∉ s.fifo) ∧ ∀ c ∈ s.calls, c.2 ≠ .shutdown
  onTime : s.wroteLate = false

/-- The write side is open, and a shutdown in the queue that has overtaken nobody
is behind all messages. -/
structure Ordered (s : Contended κ) : Prop where
  notShut : s.shut = false
  behind : s.NoneBehind (.shutdownInLoop false) ConnTask.isSend
  entering : .shutdownInLoop false ∈ s.fifo → s.entering = false

/-- The invariant: either all accepted messages have run, and no more are
accepted, or the shutdown is behind those that have not, or will find the channel
writing. -/
structure Orderly (s : Contended κ) : Prop extends Books [] s where
  order : (s.conn.state ≠ .connected ∧ s.Quiet) ∨ s.Ordered
  idleShut : s.shut = true → s.endpoint.isWriting = false

variable {hand : List (ThreadId × List Byte)} {channel : Channel} {asked : List Request}
  {s s' : Contended κ}

theorem entering_eq_false : s.entering = false ↔
    ∀ c ∈ s.calls, c.1 ≠ s.loop.threadId → c.2.isSend = false := by
  simp [entering]

theorem entering_erase (h : s.entering = false) (c : ThreadId × Passed) :
    entering { s with calls := s.calls.erase c } = false := by
  rw [entering_eq_false] at h ⊢
  exact fun _ hc => h _ (List.mem_of_mem_erase hc)

theorem Books.carried (h : Books hand s) (hc : Carried channel asked s s') : Books hand s' := by
  obtain ⟨extra, hextra, hall⟩ := hc.fifo
  constructor
  · intro tid m
    have hnone : extra.count (.sendInLoop tid m) = 0 := by
      apply List.count_eq_zero.mpr
      intro hmem
      cases hall _ hmem
    rw [hc.accepted, hc.ran, hc.calls, hextra, List.count_append, hnone]
    exact h.conserved tid m
  · rw [hc.mem_fifo .destroyConnection nofun]
    exact h.noDestroy
  · rw [hc.conn]
    exact h.isOpen
  · intro hconnected
    obtain ⟨hnone, hcalls⟩ := h.fresh (hc.conn ▸ hconnected)
    refine ⟨fun overtaking => ?_, hc.calls ▸ hcalls⟩
    rw [hc.mem_fifo (.shutdownInLoop overtaking) nofun]
    exact hnone overtaking
  · rw [hc.wroteLate]
    exact h.onTime

theorem Quiet.carried (h : s.Quiet) (hc : Carried channel asked s s') : s'.Quiet := by
  obtain ⟨extra, hextra, hall⟩ := hc.fifo
  refine ⟨hc.calls ▸ h.1, ?_⟩
  intro task htask
  rw [hextra] at htask
  rcases List.mem_append.mp htask with hmem | hmem
  · exact h.2 task hmem
  · rw [hall task hmem]
    rfl

theorem Ordered.carried (h : s.Ordered) (hc : Carried channel asked s s')
    (hopen : .shutdownWrite ∉ asked) : s'.Ordered := by
  constructor
  · rw [hc.shut, h.notShut]
    simpa using hopen
  · exact h.behind.carried hc rfl
  · rw [hc.mem_fifo (.shutdownInLoop false) nofun]
    intro hmem
    unfold Contended.entering
    rw [hc.calls, hc.loop]
    exact h.entering hmem

variable [DecidableEq κ]

/-- A message in hand is handed to `sendInLoop` while the write side is open. -/
theorem sendInLoop_ordered {caller : ThreadId} {message : List Byte}
    (h : Books [(caller, message)] s) (ho : s.Ordered) (r : WriteResult) :
    Ends (fun s' => Books [] s' ∧ s'.Ordered) (fun _ => True)
      (s.sendInLoop caller message r) := by
  unfold sendInLoop
  apply Ends.bind (((Endpoint.sendInLoop_writes s.endpoint message r).and
    (Endpoint.sendInLoop_open s.endpoint message r)).mapError fun _ _ => trivial)
  rintro outcome ⟨hwrites, hopen⟩
  obtain ⟨b, hconn⟩ := hwrites.conn
  apply (commit_carried _ outcome).mono
  intro s' hc
  refine ⟨Books.carried ?_ hc, Ordered.carried ?_ hc hopen⟩
  · refine ⟨?_, h.noDestroy, ?_, ?_, ?_⟩
    · intro tid m
      have hconserved := h.conserved tid m
      change s.accepted.count (tid, m) = (s.ran ++ [(caller, message)]).count (tid, m) +
        s.fifo.count (.sendInLoop tid m) + s.calls.count (tid, .send m) + 0
      rw [List.count_append]
      omega
    · change outcome.1.conn.state = _ ∨ outcome.1.conn.state = _
      rw [hconn]
      exact h.isOpen
    · change outcome.1.conn.state = _ → _
      rw [hconn]
      exact h.fresh
    · change (s.wroteLate || s.endpoint.writesDirectly && s.shut) = false
      rw [h.onTime, ho.notShut]
      simp
  · exact ⟨ho.notShut, ho.behind, ho.entering⟩

omit [DecidableEq κ] in
theorem orderly_of_ordered (h : Books [] s) (ho : s.Ordered) : s.Orderly := by
  refine ⟨h, Or.inr ho, ?_⟩
  intro hshut
  rw [ho.notShut] at hshut
  cases hshut

/-- A shutdown runs while bytes are pending, or when all messages have run. -/
theorem Orderly.shutdownInLoop (h : s.Orderly)
    (hturn : s.endpoint.isWriting = true ∨ s.conn.state ≠ .connected ∧ s.Quiet) :
    Ends Orderly (fun _ => True) s.shutdownInLoop := by
  apply (commit_carried s (s.endpoint, s.endpoint.shutdownInLoop)).mono
  intro s' hc
  have hsame : s'.endpoint.isWriting = s.endpoint.isWriting := by
    have hnone : s.endpoint.shutdownInLoop.contains .update = false := by
      unfold Endpoint.shutdownInLoop
      split <;> rfl
    have hwriting := hc.isWriting
    simp only [hnone] at hwriting
    exact hwriting
  cases hwriting : s.endpoint.isWriting with
  | true =>
      have hopen : .shutdownWrite ∉ s.endpoint.shutdownInLoop := by
        simp [Endpoint.shutdownInLoop, hwriting]
      refine ⟨h.toBooks.carried hc, ?_, ?_⟩
      · rcases h.order with ⟨hstate, hquiet⟩ | ho
        · exact Or.inl ⟨hc.conn ▸ hstate, hquiet.carried hc⟩
        · exact Or.inr (ho.carried hc hopen)
      · intro hshut
        have hbefore : s.shut = true := by
          rw [hc.shut] at hshut
          simpa [hopen] using hshut
        rw [hsame]
        exact h.idleShut hbefore
  | false =>
      obtain ⟨hstate, hquiet⟩ := hturn.resolve_left (by simp [hwriting])
      refine ⟨h.toBooks.carried hc, Or.inl ⟨hc.conn ▸ hstate, hquiet.carried hc⟩, ?_⟩
      intro _
      rw [hsame, hwriting]

theorem handleWrite_idle (hwriting : s.endpoint.isWriting = false) (r : WriteResult) :
    s.handleWrite r = .ok s := by
  unfold Contended.handleWrite
  rw [Endpoint.handleWrite_idle hwriting, hwriting]
  change Except.ok { s with wroteLate := s.wroteLate || false } = Except.ok s
  rw [Bool.or_false]

/-- `handleWrite` empties the buffer of a connection that is `Disconnecting` only
when all messages have run. -/
theorem Orderly.handleWrite (h : s.Orderly) {r : WriteResult}
    (hturn : s.endpoint.isWriting = true → s.conn.state = .disconnecting →
      s.endpoint.outstanding ≤ r.value.toNat → s.Quiet) :
    Ends Orderly (fun _ => True) (s.handleWrite r) := by
  cases hwriting : s.endpoint.isWriting with
  | false =>
      rw [handleWrite_idle hwriting]
      exact h
  | true =>
      have hshut : s.shut = false := by
        by_contra hshut
        rw [h.idleShut (Bool.eq_true_of_not_eq_false hshut)] at hwriting
        cases hwriting
      unfold Contended.handleWrite
      apply Ends.bind (((Endpoint.handleWrite_writes s.endpoint r).and
        (Endpoint.handleWrite_shuts s.endpoint r)).mapError fun _ _ => trivial)
      rintro outcome ⟨hwrites, hshuts⟩
      obtain ⟨b, hconn⟩ := hwrites.conn
      have hstate : outcome.1.conn.state = s.conn.state := by
        rw [hconn]
        rfl
      apply (commit_carried _ outcome).mono
      intro s' hc
      have hbooks : Books [] s' := by
        refine Books.carried ?_ hc
        refine ⟨h.conserved, h.noDestroy, ?_, ?_, ?_⟩
        · change outcome.1.conn.state = _ ∨ outcome.1.conn.state = _
          rw [hstate]
          exact h.isOpen
        · change outcome.1.conn.state = _ → _
          rw [hstate]
          exact h.fresh
        · change (s.wroteLate || s.endpoint.isWriting && s.shut) = false
          rw [h.onTime, hshut, Bool.and_false, Bool.or_false]
      have hquiets : s.Quiet → s'.Quiet := by
        intro hquiet
        refine Quiet.carried ?_ hc
        exact hquiet
      have hkept : s'.conn.state = s.conn.state := by
        rw [hc.conn]
        exact hstate
      by_cases hasked : .shutdownWrite ∈ outcome.2
      · obtain ⟨-, hdisconnecting, hall, hidle, hupdate⟩ := hshuts hasked
        have hquiet : s.Quiet := hturn hwriting hdisconnecting hall
        refine ⟨hbooks, Or.inl ⟨?_, hquiets hquiet⟩, ?_⟩
        · rw [hkept]
          change s.conn.state = .disconnecting at hdisconnecting
          rw [hdisconnecting]
          nofun
        · intro _
          rw [hc.isWriting, if_pos (by simpa using hupdate)]
          exact hidle
      · refine ⟨hbooks, ?_, ?_⟩
        · rcases h.order with ⟨hne, hquiet⟩ | ho
          · exact Or.inl ⟨hkept ▸ hne, hquiets hquiet⟩
          · refine Or.inr (Ordered.carried ?_ hc hasked)
            exact ⟨ho.notShut, ho.behind, ho.entering⟩
        · intro hafter
          rw [hc.shut] at hafter
          simp [hshut, hasked] at hafter

section Calls

variable {tid : ThreadId} {p : Passed} {message : List Byte} {loop : EventLoop ConnTask}
  {task : ConnTask}

omit [DecidableEq κ] in
/-- A call that leaves takes its message into the hand. -/
theorem Books.leave_send (h : Books [] s) (hmem : (tid, .send message) ∈ s.calls) :
    Books [(tid, message)] { s with calls := s.calls.erase (tid, .send message) } := by
  refine ⟨?_, h.noDestroy, h.isOpen, ?_, h.onTime⟩
  · intro t m
    have hconserved := h.conserved t m
    have hperm := (List.perm_cons_erase hmem).count_eq (t, .send m)
    rw [List.count_cons] at hperm
    have hhand : [(tid, message)].count (t, m) =
        if ((tid, Passed.send message) == (t, Passed.send m)) = true then 1 else 0 := by
      simp [List.count_cons]
    change s.accepted.count (t, m) = s.ran.count (t, m) + s.fifo.count (.sendInLoop t m) +
      (s.calls.erase (tid, .send message)).count (t, .send m) + _
    rw [List.count_nil] at hconserved
    rw [hhand]
    omega
  · intro hstate
    obtain ⟨hnone, hcalls⟩ := h.fresh hstate
    exact ⟨hnone, fun c hc => hcalls c (List.mem_of_mem_erase hc)⟩

omit [DecidableEq κ] in
theorem Books.leave_shutdown (h : Books [] s) :
    Books [] { s with calls := s.calls.erase (tid, .shutdown) } := by
  refine ⟨?_, h.noDestroy, h.isOpen, ?_, h.onTime⟩
  · intro t m
    have hsame : (s.calls.erase (tid, .shutdown)).count (t, .send m) =
        s.calls.count (t, .send m) :=
      List.count_erase_of_ne (by simp)
    have hconserved := h.conserved t m
    rw [← hsame] at hconserved
    exact hconserved
  · intro hstate
    obtain ⟨hnone, hcalls⟩ := h.fresh hstate
    exact ⟨hnone, fun c hc => hcalls c (List.mem_of_mem_erase hc)⟩

omit [DecidableEq κ] in
theorem Quiet.leave (h : s.Quiet) (c : ThreadId × Passed) :
    Quiet { s with calls := s.calls.erase c } :=
  ⟨fun _ hc => h.1 _ (List.mem_of_mem_erase hc), h.2⟩

omit [DecidableEq κ] in
theorem Ordered.leave (h : s.Ordered) (c : ThreadId × Passed) :
    Ordered { s with calls := s.calls.erase c } :=
  ⟨h.notShut, h.behind, fun hmem => entering_erase (h.entering hmem) c⟩

omit [DecidableEq κ] in
theorem Quiet.queue (h : s.Quiet)
    (hloop : loop.pendingFunctors = s.loop.pendingFunctors ++ [task])
    (htask : task.isSend = false) : Quiet { s with loop := loop } := by
  refine ⟨h.1, ?_⟩
  intro other hother
  rw [fifo_queued s hloop] at hother
  rcases List.mem_append.mp hother with hmem | hmem
  · exact h.2 other hmem
  · obtain rfl := List.mem_singleton.mp hmem
    exact htask

omit [DecidableEq κ] in
/-- The message in hand is queued. -/
theorem Books.queue_send (h : Books [(tid, message)] s)
    (hloop : loop.pendingFunctors = s.loop.pendingFunctors ++ [.sendInLoop tid message]) :
    Books [] { s with loop := loop } := by
  have hfifo := fifo_queued s hloop
  refine ⟨?_, ?_, h.isOpen, ?_, h.onTime⟩
  · intro t m
    have hconserved := h.conserved t m
    have hhand : [(tid, message)].count (t, m) =
        [ConnTask.sendInLoop tid message].count (.sendInLoop t m) := by
      simp [List.count_cons]
    rw [hfifo, List.count_append]
    change s.accepted.count (t, m) = s.ran.count (t, m) + _ + s.calls.count (t, .send m) + 0
    omega
  · rw [hfifo]
    simpa using h.noDestroy
  · intro hstate
    obtain ⟨hnone, hcalls⟩ := h.fresh hstate
    rw [hfifo]
    exact ⟨by simpa using hnone, hcalls⟩

omit [DecidableEq κ] in
/-- A shutdown is queued by a call that has left `Connected` behind. -/
theorem Books.queue_shutdown (h : Books [] s) (hstate : s.conn.state ≠ .connected)
    {overtaking : Bool}
    (hloop : loop.pendingFunctors = s.loop.pendingFunctors ++ [.shutdownInLoop overtaking]) :
    Books [] { s with loop := loop } := by
  have hfifo := fifo_queued s hloop
  refine ⟨?_, ?_, h.isOpen, fun hconnected => absurd hconnected hstate, h.onTime⟩
  · intro t m
    have hconserved := h.conserved t m
    have hnone : [ConnTask.shutdownInLoop overtaking].count (.sendInLoop t m) = 0 := by simp
    rw [hfifo, List.count_append, hnone]
    exact hconserved
  · rw [hfifo]
    simpa using h.noDestroy

omit [DecidableEq κ] in
/-- A functor goes to the end of the queue: a message when no shutdown is there that
overtook nobody, such a shutdown when no other thread is about to queue a message. -/
theorem Ordered.queue (h : s.Ordered) (hthread : loop.threadId = s.loop.threadId)
    (hloop : loop.pendingFunctors = s.loop.pendingFunctors ++ [task])
    (hsend : task.isSend = true → .shutdownInLoop false ∉ s.fifo)
    (hshutdown : task = .shutdownInLoop false → s.entering = false) :
    Ordered { s with loop := loop } := by
  refine ⟨h.notShut, ?_, ?_⟩
  · exact h.behind.queue hloop hsend
  · intro hmem
    unfold Contended.entering
    rw [hthread]
    rw [fifo_queued s hloop] at hmem
    rcases List.mem_append.mp hmem with hmem | hmem
    · exact h.entering hmem
    · exact hshutdown (by simpa using (List.mem_singleton.mp hmem).symm)

omit [DecidableEq κ] in
/-- A message that is on its way has not been overtaken. -/
theorem Orderly.ordered_of_call (h : s.Orderly) (hmem : (tid, .send message) ∈ s.calls) :
    s.Ordered := by
  rcases h.order with ⟨-, hquiet⟩ | ho
  · have hnot := hquiet.1 _ hmem
    cases hnot
  · exact ho

theorem Orderly.proceed_send (h : s.Orderly) (hmem : (tid, .send message) ∈ s.calls)
    (r : WriteResult) :
    Ends Orderly (fun _ => True) (s.proceed tid (.send message) r) := by
  have ho := h.ordered_of_call hmem
  have hbooks := h.toBooks.leave_send hmem
  simp only [proceed]
  split
  · apply (sendInLoop_ordered hbooks (ho.leave _) r).mono
    rintro s' ⟨hbooks', ho'⟩
    exact orderly_of_ordered hbooks' ho'
  · rename_i hother
    have hspec := enqueue_spec s tid (.send message) (.sendInLoop tid message)
    apply (hspec.weaken fun _ _ => trivial).mono
    rintro s' (rfl | ⟨loop, hthread, hpending, rfl⟩)
    · exact h
    · apply orderly_of_ordered (hbooks.queue_send hpending)
      apply (ho.leave (tid, .send message)).queue hthread hpending
      · intro _ hshutdown
        have hne : tid ≠ s.loop.threadId := by
          intro heq
          exact hother (heq ▸ beq_self_eq_true s.loop.threadId)
        have hnot := entering_eq_false.mp (ho.entering hshutdown) _ hmem hne
        cases hnot
      · intro hne
        cases hne

theorem Orderly.proceed_shutdown (h : s.Orderly) (hmem : (tid, .shutdown) ∈ s.calls)
    {r : WriteResult} (hturn : s.InTurn (.proceed tid .shutdown r)) :
    Ends Orderly (fun _ => True) (s.proceed tid .shutdown r) := by
  have hstate : s.conn.state ≠ .connected := by
    intro hconnected
    exact (h.fresh hconnected).2 _ hmem rfl
  have hleft : Orderly { s with calls := s.calls.erase (tid, .shutdown) } := by
    refine ⟨h.toBooks.leave_shutdown, ?_, h.idleShut⟩
    rcases h.order with ⟨-, hquiet⟩ | ho
    · exact Or.inl ⟨hstate, hquiet.leave _⟩
    · exact Or.inr (ho.leave _)
  simp only [proceed]
  split
  · rename_i hloop
    apply hleft.shutdownInLoop
    rcases hturn hloop with hwriting | hquiet
    · exact Or.inl hwriting
    · exact Or.inr ⟨hstate, hquiet.leave _⟩
  · have hspec := enqueue_spec s tid .shutdown (.shutdownInLoop s.entering)
    apply (hspec.weaken fun _ _ => trivial).mono
    rintro s' (rfl | ⟨loop, hthread, hpending, rfl⟩)
    · exact h
    · have hbooks := hleft.toBooks.queue_shutdown hstate hpending
      refine ⟨hbooks, ?_, h.idleShut⟩
      rcases hleft.order with ⟨-, hquiet⟩ | ho
      · exact Or.inl ⟨hstate, hquiet.queue hpending rfl⟩
      · apply Or.inr
        apply ho.queue hthread hpending
        · intro hsend
          cases hsend
        · intro hfirst
          exact entering_erase (ConnTask.shutdownInLoop.inj hfirst) _

end Calls

section Functors

variable {task : ConnTask} {rest : List ConnTask}

omit [DecidableEq κ] in
/-- The next functor leaves the queue; a message goes into the hand. -/
theorem Books.pop (h : Books [] s) (hbatch : s.batch = some (task :: rest))
    (hhand : ∀ tid m, [task].count (.sendInLoop tid m) = hand.count (tid, m)) :
    Books hand { s with batch := some rest } := by
  have hfifo := fifo_of_batch hbatch
  refine ⟨?_, ?_, h.isOpen, ?_, h.onTime⟩
  · intro tid m
    have hconserved := h.conserved tid m
    have hsplit : s.fifo.count (.sendInLoop tid m) =
        [task].count (.sendInLoop tid m) +
          (fifo { s with batch := some rest }).count (.sendInLoop tid m) := by
      rw [hfifo, ← List.count_append]
      rfl
    rw [hhand] at hsplit
    change s.accepted.count (tid, m) = s.ran.count (tid, m) + _ + s.calls.count (tid, .send m) + _
    rw [List.count_nil] at hconserved
    omega
  · intro hmem
    apply h.noDestroy
    rw [hfifo]
    exact List.mem_cons_of_mem task hmem
  · intro hstate
    obtain ⟨hnone, hcalls⟩ := h.fresh hstate
    rw [hfifo] at hnone
    exact ⟨fun overtaking hmem => hnone overtaking (List.mem_cons_of_mem task hmem), hcalls⟩

omit [DecidableEq κ] in
theorem Quiet.pop (h : s.Quiet) (hbatch : s.batch = some (task :: rest)) :
    Quiet { s with batch := some rest } := by
  refine ⟨h.1, ?_⟩
  intro other hother
  apply h.2
  rw [fifo_of_batch hbatch]
  exact List.mem_cons_of_mem task hother

omit [DecidableEq κ] in
theorem Ordered.pop (h : s.Ordered) (hbatch : s.batch = some (task :: rest)) :
    Ordered { s with batch := some rest } := by
  have hentering := h.entering
  rw [fifo_of_batch hbatch] at hentering
  exact ⟨h.notShut, (h.behind.pop hbatch).2, fun hmem => hentering (List.mem_cons_of_mem task hmem)⟩

omit [DecidableEq κ] in
/-- A functor that is not a message leaves the queue. -/
theorem Orderly.pop (h : s.Orderly) (hbatch : s.batch = some (task :: rest))
    (htask : task.isSend = false) : Orderly { s with batch := some rest } := by
  refine ⟨h.toBooks.pop hbatch ?_, ?_, h.idleShut⟩
  · intro tid m
    have hne : task ≠ .sendInLoop tid m := by
      rintro rfl
      cases htask
    simp [hne]
  · rcases h.order with ⟨hstate, hquiet⟩ | ho
    · exact Or.inl ⟨hstate, hquiet.pop hbatch⟩
    · exact Or.inr (ho.pop hbatch)

theorem Orderly.functor_send {caller : ThreadId} {message : List Byte} (h : s.Orderly)
    (hbatch : s.batch = some (.sendInLoop caller message :: rest)) (r : WriteResult) :
    Ends Orderly (fun _ => True)
      (({ s with batch := some rest } : Contended κ).runTask r (.sendInLoop caller message)) := by
  refine ends_check (fun _ => trivial) fun _ => ?_
  have hmem : .sendInLoop caller message ∈ s.fifo := by
    rw [fifo_of_batch hbatch]
    exact List.mem_cons_self
  have ho : s.Ordered := by
    rcases h.order with ⟨-, hquiet⟩ | ho
    · have hnot := hquiet.2 _ hmem
      cases hnot
    · exact ho
  have hbooks : Books [(caller, message)] { s with batch := some rest } := by
    apply h.toBooks.pop hbatch
    intro tid m
    simp [List.count_cons]
  apply (sendInLoop_ordered hbooks (ho.pop hbatch) r).mono
  rintro s' ⟨hbooks', ho'⟩
  exact orderly_of_ordered hbooks' ho'

/-- When a shutdown is the next functor, all messages have run, or the channel is writing. -/
theorem Orderly.functor_shutdown {overtaking : Bool} (h : s.Orderly)
    (hbatch : s.batch = some (.shutdownInLoop overtaking :: rest)) (hidle : s.loopIdle = true)
    {r : WriteResult} (hturn : s.InTurn (.functor r)) :
    Ends Orderly (fun _ => True)
      (({ s with batch := some rest } : Contended κ).runTask r (.shutdownInLoop overtaking)) := by
  refine ends_check (fun _ => trivial) fun _ => ?_
  have hmem : .shutdownInLoop overtaking ∈ s.fifo := by
    rw [fifo_of_batch hbatch]
    exact List.mem_cons_self
  apply (h.pop hbatch rfl).shutdownInLoop
  cases overtaking with
  | true =>
      left
      apply hturn
      rw [hbatch]
      rfl
  | false =>
      refine Or.inr ⟨fun hstate => (h.fresh hstate).1 false hmem, ?_⟩
      rcases h.order with ⟨-, hquiet⟩ | ho
      · exact hquiet.pop hbatch
      · refine ⟨?_, (ho.behind.pop hbatch).1 rfl⟩
        intro c hc
        have hother : c.1 ≠ s.loop.threadId := by
          simpa using List.all_eq_true.mp hidle c hc
        exact entering_eq_false.mp (ho.entering hmem) c hc hother

theorem Orderly.functor (h : s.Orderly) {r : WriteResult} (hturn : s.InTurn (.functor r)) :
    Ends Orderly (fun _ => True) (s.step (.functor r)) := by
  simp only [step]
  split
  · rename_i task rest hbatch
    split
    · rename_i hidle
      cases task with
      | sendInLoop caller message => exact h.functor_send hbatch r
      | shutdownInLoop overtaking => exact h.functor_shutdown hbatch hidle hturn
      | destroyConnection =>
          refine absurd ?_ h.noDestroy
          rw [fifo_of_batch hbatch]
          exact List.mem_cons_self
      | writeComplete => exact h.pop hbatch rfl
    · exact h
  · exact h

omit [DecidableEq κ] in
theorem Orderly.rearranged (h : s.Orderly) (hs : Rearranged s s') : s'.Orderly := by
  have hfifo := hs.fifo
  obtain ⟨loop, batch, owns, hthread, rfl⟩ := hs.same
  refine ⟨⟨?_, hfifo ▸ h.noDestroy, h.isOpen, ?_, h.onTime⟩, ?_, h.idleShut⟩
  · rw [hfifo]
    exact h.conserved
  · rw [hfifo]
    exact h.fresh
  · unfold Quiet
    rw [hfifo]
    refine h.order.imp_right ?_
    intro ho
    refine ⟨ho.notShut, ho.behind.rearranged hs, ?_⟩
    unfold Contended.entering
    rw [hfifo, hthread]
    exact ho.entering

end Functors

section Steps

/-- A message is let in while no shutdown is on its way. -/
theorem Orderly.send (h : s.Orderly) (tid : ThreadId) (message : List Byte) :
    Ends Orderly (fun _ => True) (s.step (.send tid message)) := by
  simp only [step]
  split
  · rename_i hstart
    have hstate : s.conn.state = .connected :=
      beq_iff_eq.mp (Bool.and_eq_true_iff.mp hstart).2
    obtain ⟨hnone, hcalls⟩ := h.fresh hstate
    have ho : s.Ordered := h.order.resolve_left fun hout => hout.1 hstate
    apply orderly_of_ordered
    · refine ⟨?_, h.noDestroy, h.isOpen, fun _ => ⟨hnone, ?_⟩, h.onTime⟩
      · intro t m
        have hconserved := h.conserved t m
        change (s.accepted ++ [(tid, message)]).count (t, m) =
          s.ran.count (t, m) + s.fifo.count (.sendInLoop t m) +
            ((tid, Passed.send message) :: s.calls).count (t, .send m) + 0
        have hnew : ((tid, Passed.send message) == (t, Passed.send m)) =
            ((tid, message) == (t, m)) := by
          rw [Bool.eq_iff_iff]
          simp
        rw [List.count_append, List.count_singleton, List.count_cons, hnew]
        rw [List.count_nil] at hconserved
        omega
      · intro c hc
        rcases List.mem_cons.mp hc with rfl | hc
        · intro hshutdown
          cases hshutdown
        · exact hcalls c hc
    · exact ⟨ho.notShut, ho.behind, fun hmem => absurd hmem (hnone false)⟩
  · exact h

/-- A shutdown leaves `Connected` behind before it acts. -/
theorem Orderly.shutdown (h : s.Orderly) (tid : ThreadId) :
    Ends Orderly (fun _ => True) (s.step (.shutdown tid)) := by
  simp only [step]
  split
  · rename_i hstart
    obtain ⟨hstate, hleft⟩ := Endpoint.shutdown_asks (Bool.and_eq_true_iff.mp hstart).2
    obtain ⟨hnone, -⟩ := h.fresh hstate
    have ho : s.Ordered := h.order.resolve_left fun hout => hout.1 hstate
    rw [hleft]
    apply orderly_of_ordered
    · refine ⟨?_, h.noDestroy, Or.inr rfl, ?_, h.onTime⟩
      · intro t m
        have hsame : ((tid, Passed.shutdown) :: s.calls).count (t, .send m) =
            s.calls.count (t, .send m) :=
          List.count_cons_of_ne (by simp)
        have hconserved := h.conserved t m
        rw [← hsame] at hconserved
        exact hconserved
      · intro hconnected
        cases hconnected
    · exact ⟨ho.notShut, ho.behind, fun hmem => absurd hmem (hnone false)⟩
  · exact h

/-- Calls for other channels keep the interest of this one. -/
theorem pollerStep_events (s : PollerRuns.State κ) {c : PollerRuns.Call κ} {k : κ}
    (hk : target c ≠ k) :
    Ends (fun s' => (s'.channels k).events = (s.channels k).events) (fun _ => True)
      (PollerRuns.step s c) := by
  cases c with
  | change j i =>
      apply (Poller.updateChannel_frame _ _ _).bind
      rintro ⟨poller, channels⟩ ⟨hsame, -⟩
      obtain ⟨m, hm⟩ := hsame k
      have hne : k ≠ j := Ne.symm hk
      simp only at hm
      change (channels k).events = _
      rw [hm, Function.update_of_ne hne, Channel.setIndex_events]
  | remove j =>
      apply (Poller.removeChannel_frame _ _ _).bind
      rintro ⟨poller, channels⟩ ⟨hsame, -⟩
      obtain ⟨m, hm⟩ := hsame k
      simp only at hm
      change (channels k).events = _
      rw [hm, Channel.setIndex_events]

theorem Orderly.others (h : s.Orderly) {c : PollerRuns.Call κ} (hc : target c ≠ s.self) :
    Ends Orderly (fun _ => True) (s.step (.others c)) := by
  apply Ends.bind ((pollerStep_events s.poll hc).mapError fun _ _ => trivial)
  intro poll hevents
  refine ⟨⟨h.conserved, h.noDestroy, h.isOpen, h.fresh, h.onTime⟩, ?_, ?_⟩
  · exact h.order.imp_right fun ho => ⟨ho.notShut, ho.behind, ho.entering⟩
  · intro hshut
    change (poll.channels s.self).events.has Channel.writeEvent = false
    rw [hevents]
    exact h.idleShut hshut

/-- Every step in turn keeps the invariant. -/
theorem Orderly.step {a : Action κ} (h : s.Orderly) (hturn : s.InTurn a)
    (hopen : s.StaysOpen a) : Ends Orderly (fun _ => True) (s.step a) := by
  cases a with
  | send tid message => exact h.send tid message
  | shutdown tid => exact h.shutdown tid
  | proceed tid p r =>
      simp only [Contended.step]
      split
      · rename_i hmem
        cases p with
        | send message => exact h.proceed_send hmem r
        | shutdown => exact h.proceed_shutdown hmem hturn
      · exact h
  | handleWrite r =>
      simp only [Contended.step]
      split
      · exact h.handleWrite hturn
      · exact h
  | handleClose => exact hopen.elim
  | others c => exact h.others hopen
  | doPendingFunctors =>
      exact ((doPendingFunctors_spec s).weaken fun _ _ => trivial).mono fun _ => h.rearranged
  | functor r => exact h.functor hturn
  | endFunctors =>
      exact ((endFunctors_spec s).weaken fun _ _ => trivial).mono fun _ => h.rearranged
  | release =>
      exact ⟨⟨h.conserved, h.noDestroy, h.isOpen, h.fresh, h.onTime⟩,
        h.order.imp_right fun ho => ⟨ho.notShut, ho.behind, ho.entering⟩, h.idleShut⟩

theorem orderly_of_initial (h : s.Initial) : s.Orderly := by
  obtain ⟨hcalls, hshut, haccepted, hran, hlate, -⟩ := h.history
  have hfifo := h.fifo_eq_nil
  apply orderly_of_ordered
  · refine ⟨?_, ?_, Or.inl h.connected, ?_, hlate⟩
    · intro tid m
      rw [haccepted, hran, hfifo, hcalls]
      rfl
    · rw [hfifo]
      exact List.not_mem_nil
    · intro _
      rw [hfifo, hcalls]
      exact ⟨fun _ => List.not_mem_nil, nofun⟩
  · refine ⟨hshut, ?_, ?_⟩
    · unfold NoneBehind
      rw [hfifo]
      exact List.Pairwise.nil
    · rw [hfifo]
      nofun

omit [DecidableEq κ] in
/-- When the write side is shut down, every accepted message has been handed to
`sendInLoop`. -/
theorem Orderly.none_cut_off (h : s.Orderly) (hshut : s.shut = true)
    (message : ThreadId × List Byte) : s.accepted.count message = s.ran.count message := by
  obtain ⟨tid, m⟩ := message
  have hquiet : s.Quiet := by
    rcases h.order with ⟨-, hquiet⟩ | ho
    · exact hquiet
    · rw [ho.notShut] at hshut
      cases hshut
  have hfifo : s.fifo.count (.sendInLoop tid m) = 0 := by
    apply List.count_eq_zero.mpr
    intro hmem
    have hnot := hquiet.2 _ hmem
    cases hnot
  have hcalls : s.calls.count (tid, .send m) = 0 := by
    apply List.count_eq_zero.mpr
    intro hmem
    have hnot := hquiet.1 _ hmem
    cases hnot
  have hconserved := h.conserved tid m
  rw [hfifo, hcalls] at hconserved
  exact hconserved

end Steps

section Overtaken

omit [DecidableEq κ] in
/-- A message that has not run is missing in the history. -/
theorem Books.left_behind (h : Books [] s) (hquiet : ¬ s.Quiet) :
    ∃ message, s.ran.count message < s.accepted.count message := by
  by_contra hnone
  push Not at hnone
  apply hquiet
  constructor
  · rintro ⟨tid, p⟩ hc
    cases p with
    | shutdown => rfl
    | send m =>
        have hcount := List.count_pos_iff.mpr hc
        have hconserved := h.conserved tid m
        have hle := hnone (tid, m)
        omega
  · intro task htask
    cases task with
    | sendInLoop tid m =>
        have hcount := List.count_pos_iff.mpr htask
        have hconserved := h.conserved tid m
        have hle := hnone (tid, m)
        omega
    | shutdownInLoop overtaking => rfl
    | destroyConnection => rfl
    | writeComplete => rfl

/-- The thread of the loop cuts messages off when it shuts down out of turn. -/
theorem Orderly.shutdown_cuts_off (h : s.Orderly) {tid : ThreadId} {r : WriteResult}
    (hself : s.loop.isInLoopThread tid = true)
    (hturn : ¬ s.InTurn (.proceed tid .shutdown r)) :
    Ends (fun s' => s'.shut = true ∧ ∃ message, s'.ran.count message < s'.accepted.count message)
      (fun _ => True) (s.proceed tid .shutdown r) := by
  obtain ⟨-, hout⟩ := Classical.not_imp.mp hturn
  obtain ⟨hidle, hquiet⟩ := not_or.mp hout
  have hasks : s.endpoint.shutdownInLoop = [.shutdownWrite] := if_neg hidle
  simp only [proceed, if_pos hself]
  apply (commit_carried _ _).mono
  intro s' hc
  rw [hc.shut, hc.ran, hc.accepted]
  refine ⟨?_, h.toBooks.left_behind hquiet⟩
  change (s.shut || s.endpoint.shutdownInLoop.contains .shutdownWrite) = true
  rw [hasks]
  simp

/-- `handleWrite` cuts messages off when it empties the output buffer out of turn. -/
theorem Orderly.handleWrite_cuts_off (h : s.Orderly) {r : WriteResult} (hwrote : 0 < r.value)
    (hturn : ¬ s.InTurn (.handleWrite r)) :
    Ends (fun s' => s'.shut = true ∧ ∃ message, s'.ran.count message < s'.accepted.count message)
      (fun _ => True) (s.handleWrite r) := by
  simp only [InTurn, Classical.not_imp] at hturn
  obtain ⟨hwriting, hstate, hall, hquiet⟩ := hturn
  unfold Contended.handleWrite
  apply Ends.bind ((Endpoint.handleWrite_empties hwriting hstate hwrote hall).mapError
    fun _ _ => trivial)
  intro outcome hasks
  apply (commit_carried _ outcome).mono
  intro s' hc
  rw [hc.shut, hc.ran, hc.accepted]
  refine ⟨?_, h.toBooks.left_behind hquiet⟩
  rw [List.contains_iff_mem.mpr hasks, Bool.or_true]

end Overtaken

/-- In every run of an open connection in which no shutdown overtakes an accepted
message, whatever the threads do, nothing is written after the write side is
shut down, and every accepted message has then been handed to `sendInLoop`. -/
theorem accepted_not_cut_off {s : Except Fault (Contended κ)}
    (h : (machine κ).Reach (whileRunning fun s a => s.InTurn a ∧ s.StaysOpen a) s) :
    Ends (fun s => s.wroteLate = false ∧
        (s.shut = true → ∀ message, s.accepted.count message = s.ran.count message))
      (fun _ => True) s := by
  have horderly : Ends Orderly (fun _ => True) s := by
    apply ends_of_reach _ _ h
    · intro s hs
      exact orderly_of_initial hs
    · rintro s a hs ⟨hturn, hopen⟩
      exact hs.step hturn hopen
  apply horderly.mono
  intro s hs
  exact ⟨hs.onTime, fun hshut message => hs.none_cut_off hshut message⟩

section Example

/-- A thread sends and shuts down, and the loop then runs both functors. -/
def exampleInTurn : List (Action Bool) :=
  [.send 2 [65], .proceed 2 (.send [65]) .error, .shutdown 2, .proceed 2 .shutdown .error,
    .doPendingFunctors, .functor (.wrote 1), .functor .error, .endFunctors]

/-- The message is written before the write side is shut down. -/
theorem accepted_written_first : ∃ s : Contended Bool, s.shut = true ∧ s.wroteLate = false ∧
    s.accepted.count (2, [65]) = 1 ∧ s.ran.count (2, [65]) = 1 := by
  obtain ⟨s, hs, hp⟩ := Machine.exists_reach
    (whileRunning fun s a => InTurn s a ∧ StaysOpen s a) (M := machine Bool)
    ⟨exampleOpen, rfl, exampleOpen_initial⟩ exampleInTurn
    (fun s => match s with
      | .ok s => s.shut ∧ s.accepted.count (2, [65]) = 1
      | .error _ => false) (by decide +kernel)
  have hends := accepted_not_cut_off hs
  cases s with
  | error f => cases hp
  | ok s =>
      obtain ⟨hshut, hone⟩ := of_decide_eq_true hp
      obtain ⟨hlate, hall⟩ := hends
      exact ⟨s, hshut, hlate, hone, (hall hshut _).symm.trans hone⟩

/-- A thread has queued a message when the thread of the loop shuts down. -/
def exampleOvertaken : List (Action Bool) :=
  [.send 2 [65], .proceed 2 (.send [65]) .error, .shutdown 1, .proceed 1 .shutdown .error,
    .doPendingFunctors, .functor .error]

/-- The thread of the loop shuts down before an accepted message is written. -/
theorem accepted_cut_off : ¬ ∀ s : Contended Bool,
    (machine Bool).Reach (whileRunning fun s a => s.StaysOpen a) (.ok s) →
    s.wroteLate = false ∧
      (s.shut = true → ∀ message, s.accepted.count message = s.ran.count message) := by
  intro h
  obtain ⟨s, hs, hp⟩ := Machine.exists_reach
    (whileRunning fun s a => StaysOpen s a) (M := machine Bool)
    ⟨exampleOpen, rfl, exampleOpen_initial⟩ exampleOvertaken
    (fun s => match s with
      | .ok s => s.wroteLate
      | .error _ => false) (by decide +kernel)
  cases s with
  | error f => cases hp
  | ok s =>
      have hlate := (h s hs).1
      simp only at hp
      rw [hp] at hlate
      cases hlate

end Example

end Yatwb.Contended
