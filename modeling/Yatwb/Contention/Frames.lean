import Yatwb.Contention.Model
import Yatwb.Connection.Frames
import Yatwb.Poller.Polling

/-!
# What the methods of a contended connection leave alone

Whatever its requests are, a method changes the connection, its channel and
its poller, may shut the write side down, and appends nothing but
`writeComplete` to the queue. The two write paths of a connection are then
followed by what they ask for.
-/

namespace Yatwb

open Foundation

namespace Endpoint

theorem directWrite_open {e : Endpoint} {message : List Byte} {r : WriteResult}
    {nwrote : Int} {asked : List Request} (hd : e.directWrite message r = (nwrote, asked)) :
    .shutdownWrite ∉ asked := by
  simp only [directWrite] at hd
  split at hd
  · split at hd
    · split at hd
      · cases hd
        simp
      · split at hd
        · cases hd
          simp
        · cases hd
          simp
    · cases hd
      simp
  · cases hd
    simp

/-- `sendInLoop` does not shut the write side down. -/
theorem sendInLoop_open (e : Endpoint) (message : List Byte) (r : WriteResult) :
    Ends (fun outcome => .shutdownWrite ∉ outcome.2) IoFault (e.sendInLoop message r) := by
  obtain ⟨nwrote, asked, hd⟩ : ∃ nwrote asked, e.directWrite message r = (nwrote, asked) :=
    ⟨_, _, rfl⟩
  have hasked := directWrite_open hd
  simp only [sendInLoop, hd]
  apply ends_check (fun _ => trivial)
  intro _
  split
  · apply (ofBuffer_ends _).bind
    intro output _
    split
    · exact hasked
    · change .shutdownWrite ∉ asked ++ [.update]
      simpa using hasked
  · exact hasked

/-- `retrieve` empties a buffer exactly when it is asked for all of it. -/
theorem retrieve_all (b : Buffer) (len : Nat) :
    Ends (fun output => output.readableBytes = 0 ↔ b.readableBytes ≤ len) (fun _ => True)
      (b.retrieve len) := by
  apply ends_check (fun _ => trivial)
  intro _
  change b.writerIdx - (b.readerIdx + len) = 0 ↔ b.writerIdx - b.readerIdx ≤ len
  omega

/-- `handleWrite` shuts the write side down when it empties the output buffer of
a connection that is `Disconnecting`; then nothing is left to write. -/
theorem handleWrite_shuts (e : Endpoint) (r : WriteResult) :
    Ends (fun outcome => .shutdownWrite ∈ outcome.2 →
        e.isWriting = true ∧ e.conn.state = .disconnecting ∧
          e.outstanding ≤ r.value.toNat ∧ outcome.1.isWriting = false ∧ .update ∈ outcome.2)
      IoFault (e.handleWrite r) := by
  have hsame : ∀ e' : Endpoint, Ends (fun outcome : Endpoint × List Request =>
      .shutdownWrite ∈ outcome.2 → e.isWriting = true ∧ e.conn.state = .disconnecting ∧
        e.outstanding ≤ r.value.toNat ∧ outcome.1.isWriting = false ∧ .update ∈ outcome.2)
      IoFault (.ok (e', [])) := by
    intro e' hmem
    cases hmem
  unfold handleWrite
  split
  · rename_i hwriting
    split
    · apply Ends.bind ((retrieve_all _ _).mapError fun _ _ => trivial)
      intro output houtput
      change Ends _ IoFault (if (e.setOutput output).outstanding = 0 then _ else _)
      split
      · rename_i hempty
        intro hmem
        have hlast : (e.setOutput output).conn.state = .disconnecting ∧ .shutdownWrite ∈
            (Endpoint.mk (e.setOutput output).conn
              ((e.setOutput output).channel.change .disableWriting)).shutdownInLoop := by
          simpa using hmem
        exact ⟨hwriting, hlast.1, houtput.mp hempty, Channel.isWriting_disableWriting _, by simp⟩
      · intro hmem
        simp at hmem
    · exact hsame e
  · exact hsame e

/-- `handleWrite` shuts the write side down whenever it empties the output buffer
of a connection that is `Disconnecting`. -/
theorem handleWrite_empties {e : Endpoint} {r : WriteResult} (hwriting : e.isWriting = true)
    (hstate : e.conn.state = .disconnecting) (hwrote : 0 < r.value)
    (hall : e.outstanding ≤ r.value.toNat) :
    Ends (fun outcome => .shutdownWrite ∈ outcome.2) (fun _ => True) (e.handleWrite r) := by
  unfold handleWrite
  rw [if_pos hwriting, if_pos hwrote]
  apply Ends.bind ((retrieve_all _ _).mapError fun _ _ => trivial)
  intro output houtput
  have hempty : (e.setOutput output).outstanding = 0 := houtput.mpr hall
  change Ends _ _ (if (e.setOutput output).outstanding = 0 then _ else _)
  rw [if_pos hempty]
  have hstill : ((e.setOutput output).change .disableWriting).1.isWriting = false :=
    Channel.isWriting_disableWriting _
  have hlast : .shutdownWrite ∈
      ((e.setOutput output).change .disableWriting).1.shutdownInLoop := by
    simp [shutdownInLoop, hstill]
  have hkept : ((e.setOutput output).change .disableWriting).1.conn.state = .disconnecting :=
    hstate
  apply List.mem_append_right
  change .shutdownWrite ∈ if
    ((e.setOutput output).change .disableWriting).1.conn.state = .disconnecting then
      ((e.setOutput output).change .disableWriting).1.shutdownInLoop else []
  rw [if_pos hkept]
  exact hlast

/-- `shutdown` asks the loop for `shutdownInLoop` when it has left `Connected`. -/
theorem shutdown_asks {e : Endpoint} (h : e.shutdown.2 = true) :
    e.conn.state = .connected ∧ e.shutdown.1 = e.setState .disconnecting := by
  unfold shutdown at h ⊢
  split at h
  · rename_i hstate
    exact ⟨hstate, by rw [if_pos hstate]⟩
  · cases h

end Endpoint

namespace Contended

variable {κ : Type} [DecidableEq κ] {s s' : Contended κ}

/-- What requests leave alone, and what they do to the queue, the write side and
the interest of the channel. -/
structure Carried (channel : Channel) (asked : List Request) (s s' : Contended κ) : Prop where
  loop : s'.loop.threadId = s.loop.threadId
  batch : s'.batch = s.batch
  conn : s'.conn = s.conn
  self : s'.self = s.self
  calls : s'.calls = s.calls
  accepted : s'.accepted = s.accepted
  ran : s'.ran = s.ran
  wroteLate : s'.wroteLate = s.wroteLate
  touched : s'.touched = s.touched
  queued : ∃ extra, s'.loop.pendingFunctors = s.loop.pendingFunctors ++ extra ∧
    ∀ task ∈ extra, task = .writeComplete
  shut : s'.shut = (s.shut || asked.contains .shutdownWrite)
  events : (s'.poll.channels s.self).events =
    if asked.contains .update then channel.events else (s.poll.channels s.self).events

omit [DecidableEq κ] in
theorem Carried.isWriting {channel : Channel} {asked : List Request}
    (h : Carried channel asked s s') : s'.endpoint.isWriting =
      if asked.contains .update then channel.isWriting else s.endpoint.isWriting := by
  change (s'.poll.channels s'.self).events.has Channel.writeEvent = _
  rw [h.self, h.events]
  split <;> rfl

omit [DecidableEq κ] in
theorem Carried.refl (channel : Channel) (s : Contended κ) : Carried channel [] s s :=
  ⟨rfl, rfl, rfl, rfl, rfl, rfl, rfl, rfl, rfl, ⟨[], by simp, nofun⟩, by simp, by simp⟩

omit [DecidableEq κ] in
theorem Carried.trans {channel : Channel} {asked rest : List Request} {s₁ s₂ s₃ : Contended κ}
    (h : Carried channel asked s₁ s₂) (h' : Carried channel rest s₂ s₃) :
    Carried channel (asked ++ rest) s₁ s₃ := by
  obtain ⟨extra, hextra, hall⟩ := h.queued
  obtain ⟨extra', hextra', hall'⟩ := h'.queued
  refine ⟨h'.loop.trans h.loop, h'.batch.trans h.batch, h'.conn.trans h.conn,
    h'.self.trans h.self, h'.calls.trans h.calls, h'.accepted.trans h.accepted,
    h'.ran.trans h.ran, h'.wroteLate.trans h.wroteLate, h'.touched.trans h.touched,
    ⟨extra ++ extra', ?_, ?_⟩, ?_, ?_⟩
  · rw [hextra', hextra, List.append_assoc]
  · intro task htask
    exact (List.mem_append.mp htask).elim (hall task) (hall' task)
  · rw [h'.shut, h.shut, Bool.or_assoc]
    simp
  · have hevents := h'.events
    rw [h.self, h.events] at hevents
    rw [hevents]
    by_cases hrest : .update ∈ rest
    · simp [hrest]
    · by_cases hasked : .update ∈ asked
      · simp [hrest, hasked]
      · simp [hrest, hasked]

theorem updateChannel_carried (channel : Channel) (s : Contended κ) :
    Ends (Carried channel [.update] s) (fun _ => True) (s.updateChannel channel) := by
  unfold updateChannel
  apply Ends.bind ((Poller.updateChannel_frame _ _ _).mapError fun _ _ => trivial)
  rintro ⟨poller, channels⟩ ⟨hsame, -⟩
  obtain ⟨m, hm⟩ := hsame s.self
  refine ⟨rfl, rfl, rfl, rfl, rfl, rfl, rfl, rfl, rfl, ⟨[], by simp, nofun⟩, by simp, ?_⟩
  change (channels s.self).events = channel.events
  simp only [Function.update_self] at hm
  rw [hm]
  rfl

omit [DecidableEq κ] in
theorem queueInLoop_carried (channel : Channel) (s : Contended κ) :
    Ends (Carried channel [.queueWriteComplete] s) (fun _ => True)
      (s.queueInLoop .writeComplete) := by
  unfold queueInLoop
  apply Ends.bind ((EventLoop.queueInLoop_spec _ _ _).mapError fun _ _ => trivial)
  rintro loop ⟨hthread, hpending⟩
  exact ⟨hthread, rfl, rfl, rfl, rfl, rfl, rfl, rfl, rfl,
    ⟨[.writeComplete], hpending, by simp⟩, by simp, by simp⟩

theorem requests_carried (channel : Channel) (asked : List Request) (s : Contended κ) :
    Ends (Carried channel asked s) (fun _ => True) (s.requests channel asked) := by
  induction asked generalizing s with
  | nil => exact Carried.refl channel s
  | cons q rest ih =>
      cases q with
      | write taken =>
          apply (ih s).mono
          intro s' h
          exact { h with
            shut := by simpa using h.shut
            events := by simpa using h.events }
      | update =>
          apply (updateChannel_carried channel s).bind
          intro s₁ h₁
          exact (ih s₁).mono fun _ h => h₁.trans h
      | queueWriteComplete =>
          apply (queueInLoop_carried channel s).bind
          intro s₁ h₁
          exact (ih s₁).mono fun _ h => h₁.trans h
      | shutdownWrite =>
          apply (ih { s with shut := true }).mono
          intro s' h
          exact { h with
            shut := by simpa using h.shut
            events := by simpa using h.events }

theorem commit_carried (s : Contended κ) (outcome : Endpoint × List Request) :
    Ends (Carried outcome.1.channel outcome.2 { s with conn := outcome.1.conn })
      (fun _ => True) (s.commit outcome) :=
  requests_carried ..

omit [DecidableEq κ] in
theorem Carried.fifo {channel : Channel} {asked : List Request}
    (h : Carried channel asked s s') :
    ∃ extra, s'.fifo = s.fifo ++ extra ∧ ∀ task ∈ extra, task = .writeComplete := by
  obtain ⟨extra, hextra, hall⟩ := h.queued
  refine ⟨extra, ?_, hall⟩
  rw [Contended.fifo, Contended.fifo, h.batch, hextra, List.append_assoc]

omit [DecidableEq κ] in
/-- What is appended by requests is neither a message nor a shutdown nor a destruction. -/
theorem Carried.mem_fifo {channel : Channel} {asked : List Request}
    (h : Carried channel asked s s') (task : ConnTask) (hne : task ≠ .writeComplete) :
    task ∈ s'.fifo ↔ task ∈ s.fifo := by
  obtain ⟨extra, hextra, hall⟩ := h.fifo
  rw [hextra, List.mem_append]
  constructor
  · rintro (hmem | hmem)
    · exact hmem
    · exact absurd (hall task hmem) hne
  · exact Or.inl

theorem Initial.fifo_eq_nil (h : s.Initial) : s.fifo = [] := by
  obtain ⟨-, hpending, hbatch⟩ := h.loop
  unfold fifo
  rw [hpending, hbatch]
  rfl

section Queue

variable {loop : EventLoop ConnTask} {task : ConnTask} {rest : List ConnTask}

omit [DecidableEq κ] in
theorem fifo_queued (s : Contended κ)
    (hloop : loop.pendingFunctors = s.loop.pendingFunctors ++ [task]) :
    fifo { s with loop := loop } = s.fifo ++ [task] := by
  change s.batch.getD [] ++ loop.pendingFunctors = _
  rw [hloop, ← List.append_assoc]
  rfl

omit [DecidableEq κ] in
theorem fifo_of_batch (hbatch : s.batch = some (task :: rest)) :
    s.fifo = task :: fifo { s with batch := some rest } := by
  unfold fifo
  rw [hbatch]
  rfl

omit [DecidableEq κ] in
theorem enqueue_spec (s : Contended κ) (tid : ThreadId) (p : Passed) (task : ConnTask) :
    Ends (fun s' => s' = s ∨ ∃ loop, loop.threadId = s.loop.threadId ∧
        loop.pendingFunctors = s.loop.pendingFunctors ++ [task] ∧
        s' = { s with loop := loop, calls := s.calls.erase (tid, p) })
      (fun f => ∃ g, f = .loop g) (s.enqueue tid p task) := by
  have hqueue := EventLoop.queueInLoop_spec s.loop tid task
  unfold enqueue
  split
  · rename_i loop hok
    obtain ⟨hthread, hpending⟩ := hqueue.of_eq_ok hok
    exact Or.inr ⟨loop, hthread, hpending, rfl⟩
  · exact Or.inl rfl
  · exact ⟨_, rfl⟩

/-- Only the split of the functors into a batch and the rest differs. -/
structure Rearranged (s s' : Contended κ) : Prop where
  same : ∃ loop batch owns, loop.threadId = s.loop.threadId ∧
    s' = { s with loop := loop, batch := batch, batchOwns := owns }
  fifo : s'.fifo = s.fifo

omit [DecidableEq κ] in
theorem Rearranged.refl (s : Contended κ) : Rearranged s s :=
  ⟨⟨s.loop, s.batch, s.batchOwns, rfl, rfl⟩, rfl⟩

theorem doPendingFunctors_spec (s : Contended κ) :
    Ends (Rearranged s) (fun f => ∃ g, f = .loop g) (s.step .doPendingFunctors) := by
  simp only [step]
  split
  · rename_i hstart
    have hnone : s.batch = none := by
      simpa using (Bool.and_eq_true_iff.mp hstart).2
    apply Ends.bind ((EventLoop.beginFunctors_spec s.loop s.loop.threadId).mapError
      fun f _ => ⟨f, rfl⟩)
    rintro ⟨loop, tasks⟩ ⟨hthread, hpending, htasks⟩
    refine ⟨⟨loop, some tasks, _, hthread, rfl⟩, ?_⟩
    simp only at hpending htasks
    change tasks ++ loop.pendingFunctors = s.batch.getD [] ++ s.loop.pendingFunctors
    rw [hpending, htasks, hnone]
    simp
  · exact Rearranged.refl s

theorem endFunctors_spec (s : Contended κ) :
    Ends (Rearranged s) (fun f => ∃ g, f = .loop g) (s.step .endFunctors) := by
  simp only [step]
  split
  · rename_i hbatch
    split
    · refine ⟨⟨s.loop.endFunctors, none, false, rfl, rfl⟩, ?_⟩
      change [] ++ s.loop.pendingFunctors = s.batch.getD [] ++ s.loop.pendingFunctors
      rw [hbatch]
      rfl
    · exact Rearranged.refl s
  · exact Rearranged.refl s

/-- In the queue, no functor of the kind `late` stands behind `first`. -/
def NoneBehind (first : ConnTask) (late : ConnTask → Bool) (s : Contended κ) : Prop :=
  s.fifo.Pairwise fun x y => x = first → late y = false

variable {first : ConnTask} {late : ConnTask → Bool}

omit [DecidableEq κ] in
theorem NoneBehind.carried {channel : Channel} {asked : List Request}
    (h : s.NoneBehind first late) (hc : Carried channel asked s s')
    (hlate : late .writeComplete = false) : s'.NoneBehind first late := by
  obtain ⟨extra, hextra, hall⟩ := hc.fifo
  have hnone : ∀ y ∈ extra, late y = false := by
    intro y hy
    rw [hall y hy]
    exact hlate
  unfold NoneBehind
  rw [hextra, List.pairwise_append]
  refine ⟨h, ?_, fun _ _ y hy _ => hnone y hy⟩
  apply List.pairwise_of_forall_mem_list
  intro _ _ y hy _
  exact hnone y hy

omit [DecidableEq κ] in
theorem NoneBehind.queue (h : s.NoneBehind first late)
    (hloop : loop.pendingFunctors = s.loop.pendingFunctors ++ [task])
    (hlate : late task = true → first ∉ s.fifo) :
    NoneBehind first late { s with loop := loop } := by
  unfold NoneBehind
  rw [fifo_queued s hloop, List.pairwise_append]
  refine ⟨h, List.pairwise_singleton _ _, ?_⟩
  intro x hx y hy hfirst
  obtain rfl := List.mem_singleton.mp hy
  cases hlast : late y with
  | false => rfl
  | true => exact absurd (hfirst ▸ hx) (hlate hlast)

omit [DecidableEq κ] in
theorem NoneBehind.rearranged (h : s.NoneBehind first late) (hs : Rearranged s s') :
    s'.NoneBehind first late := by
  unfold NoneBehind
  rw [hs.fifo]
  exact h

omit [DecidableEq κ] in
/-- The next functor leaves the queue; what is behind it is not late for it. -/
theorem NoneBehind.pop (h : s.NoneBehind first late)
    (hbatch : s.batch = some (task :: rest)) :
    (task = first → ∀ y ∈ fifo { s with batch := some rest }, late y = false) ∧
      NoneBehind first late { s with batch := some rest } := by
  unfold NoneBehind at h
  rw [fifo_of_batch hbatch, List.pairwise_cons] at h
  exact ⟨fun hfirst y hy => h.1 y hy hfirst, h.2⟩

end Queue

end Contended

end Yatwb
