import Yatwb.EventLoop.Interleaving

/-!
# The functor queue

The pending functors of an event loop are a mailbox: the threads that call
`runInLoop` and `queueInLoop` are the callers, the thread of the loop is the
server, and the ordered letters are the functors given to `runInLoop`. Every
statement of the code is a step of the mailbox or leaves it unchanged, so the
order of execution follows from the mailbox alone, for any interleaving.
-/

namespace Yatwb.System

open Foundation

variable {σ φ ε ι : Type} {A : App σ φ ε ι} {s s' : System σ φ ε} {a : Action φ ε ι}

/-- The mailbox a state stands for. -/
def mailbox (s : System σ φ ε) : Mailbox ThreadId φ where
  issued := s.issued
  carried tid := (s.calls tid).carried
  posted := s.queued
  box := s.loop.pendingFunctors
  batch := s.pc.rest
  served := s.executed.map Prod.snd
  direct := s.immediate.map Prod.snd
  handled := s.log

@[simp] theorem setCall_calls (s : System σ φ ε) (tid tid' : ThreadId) (pc : CallPc φ) :
    (s.setCall tid pc).calls tid' = if tid' = tid then pc else s.calls tid' := by
  simp [setCall, Function.update_apply]

theorem idle_of_mayCall {tid : ThreadId} (h : s.mayCall tid = true) : s.calls tid = .idle :=
  CallPc.isIdle_iff.mp (Bool.and_eq_true_iff.mp h).1

/-- No statement changes the thread of the loop. -/
theorem Effect.threadId_eq (h : Effect A s a s') : s'.loop.threadId = s.loop.threadId := by
  cases h with
  | wake tid hat => exact EventLoop.wakeupIfNeeded_threadId s.loop tid
  | _ => rfl

/-- A call that moves on without a functor to carry leaves the mailbox alone. -/
theorem mailbox_setCall {tid : ThreadId} {pc : CallPc φ}
    (hcarried : pc.carried = (s.calls tid).carried) (loop : EventLoop (Posted φ))
    (hpending : loop.pendingFunctors = s.loop.pendingFunctors) (acquired : List (Posted φ)) :
    mailbox { s.setCall tid pc with loop := loop, acquired := acquired } = s.mailbox := by
  have hcalls : (fun t => ((s.setCall tid pc).calls t).carried) = fun t => (s.calls t).carried := by
    funext t
    rw [setCall_calls]
    split
    · rename_i ht
      rw [hcarried, ht]
    · rfl
  simp only [mailbox, hpending, hcalls]
  rfl

theorem mailbox_issue {p : Posted φ} {app : σ} :
    (s.issue p app).mailbox = { s.mailbox with
      issued := s.issued ++ [p]
      carried := Function.update s.mailbox.carried p.caller [p] } := by
  have hcalls : (fun t => ((s.issue p app).calls t).carried) =
      Function.update (fun t => (s.calls t).carried) p.caller [p] := by
    funext t
    simp only [System.issue, Function.update_apply]
    split <;> rfl
  simp only [mailbox, hcalls]
  rfl

theorem mailbox_push {tid : ThreadId} {p : Posted φ} :
    mailbox { s.setCall tid .pushed with
      loop := s.loop.pushBack p
      queued := s.queued ++ [p] } =
    { s.mailbox with
      carried := Function.update s.mailbox.carried tid []
      posted := s.mailbox.posted ++ [p]
      box := s.mailbox.box ++ [p] } := by
  have hcalls : (fun t => ((s.setCall tid .pushed).calls t).carried) =
      Function.update (fun t => (s.calls t).carried) tid [] := by
    funext t
    simp only [setCall_calls, Function.update_apply]
    split <;> rfl
  simp only [mailbox, hcalls]
  rfl

/-- The code refines the mailbox. -/
theorem Effect.refines (h : Effect A s a s') :
    s'.mailbox = s.mailbox ∨ Mailbox.Step s.loop.threadId s.mailbox s'.mailbox := by
  cases h with
  | executeNow tid cb app app' answers hmay hcall hin hexec =>
      right
      have hstep := Mailbox.Step.direct s.mailbox ⟨cb, tid, true⟩ hin.symm rfl
      simpa [mailbox, System.executeNow] using hstep
  | issue p app hands hmay hcall hroute =>
      right
      rw [mailbox_issue]
      refine Mailbox.Step.issue s.mailbox p ?_ hroute
      exact congrArg CallPc.carried (idle_of_mayCall hmay)
  | quit tid pc hmay hpc =>
      left
      refine mailbox_setCall ?_ _ rfl s.acquired
      rw [idle_of_mayCall hmay]
      rcases hpc with rfl | ⟨rfl, -⟩ <;> rfl
  | acquire tid p hat hfree =>
      exact Or.inl (mailbox_setCall (by rw [hat]; rfl) _ rfl (s.acquired ++ [p]))
  | push tid p hat =>
      right
      rw [mailbox_push]
      exact Mailbox.Step.post s.mailbox tid p (congrArg CallPc.carried hat)
  | wake tid hat =>
      left
      exact mailbox_setCall (by rw [hat]; rfl) _
        (EventLoop.wakeupIfNeeded_pendingFunctors s.loop tid) s.acquired
  | unlock tid hat => exact Or.inl (mailbox_setCall (by rw [hat]; rfl) _ rfl s.acquired)
  | quitWake tid hat => exact Or.inl (mailbox_setCall (by rw [hat]; rfl) _ rfl s.acquired)
  | swap hready hpc hfree =>
      right
      exact Mailbox.Step.take s.mailbox (congrArg LoopPc.rest hpc)
  | functor p rest app answers hready hpc hexec =>
      right
      have hstep : Mailbox.Step s.loop.threadId s.mailbox _ :=
        .serve s.mailbox p rest (congrArg LoopPc.rest hpc)
      simpa [mailbox, LoopPc.rest] using hstep
  | enterLoop tid hmay hpc hin => exact Or.inl (by simp [mailbox, hpc, LoopPc.rest])
  | leaveLoop hready hpc => exact Or.inl (by simp [mailbox, hpc, LoopPc.rest, EventLoop.leaveLoop])
  | poll hready hpc => exact Or.inl (by simp [mailbox, hpc, LoopPc.rest])
  | pollReturn active hready hpc => exact Or.inl (by simp [mailbox, hpc, LoopPc.rest])
  | handleRead rest hready hpc =>
      exact Or.inl (by simp [mailbox, hpc, LoopPc.rest, EventLoop.handleRead])
  | callback e rest app answers hready hpc hhandle =>
      exact Or.inl (by simp [mailbox, hpc, LoopPc.rest])
  | endCallback rest hready hpc => exact Or.inl (by simp [mailbox, hpc, LoopPc.rest])
  | doPendingFunctors hready hpc =>
      exact Or.inl (by simp [mailbox, hpc, LoopPc.rest, EventLoop.setCalling])
  | endFunctor rest hready hpc => exact Or.inl (by simp [mailbox, hpc, LoopPc.rest])
  | finish hready hpc => exact Or.inl (by simp [mailbox, hpc, LoopPc.rest, EventLoop.setCalling])
  | release hready hpc => exact Or.inl (by simp [mailbox, hpc, LoopPc.rest, EventLoop.unlock])

theorem Initial.mailbox_inv (h : Initial A s) : Mailbox.Inv s.loop.threadId s.mailbox := by
  obtain ⟨hissued, -, hqueued, hexecuted, himmediate, hlog⟩ := h.history
  have hempty : s.mailbox = ⟨[], fun _ => [], [], [], [], [], [], []⟩ := by
    simp [mailbox, hissued, hqueued, hexecuted, himmediate, hlog, h.pendingFunctors, h.pc, h.calls,
      LoopPc.rest, CallPc.carried]
  rw [hempty]
  exact Mailbox.Inv.empty s.loop.threadId

theorem mailbox_inv (h : (machine A).Reachable s) : Mailbox.Inv s.loop.threadId s.mailbox := by
  refine h.invariant (fun _ => Initial.mailbox_inv) ?_
  intro s a s' hinv _ hnext
  have heffect := next_effect hnext
  rw [heffect.threadId_eq]
  rcases heffect.refines with heq | hstep
  · rw [heq]
    exact hinv
  · exact hinv.step hstep

/-- The mutex discipline: `loop` runs on its own thread, and `mutex_` is held
by the one thread that is between a lock and its unlock. -/
structure Exclusive (s : System σ φ ε) : Prop where
  runner : s.pc ≠ .outside → s.runner = s.loop.threadId
  critical : ∀ tid, (s.calls tid).critical = true → s.loop.mutex = some tid
  batch : s.pc.holdsMutex = true →
    s.loop.mutex = some s.runner ∧ (s.calls s.runner).critical = false

/-- Statements that neither take nor release `mutex_` keep the discipline. -/
theorem Exclusive.frame (h : Exclusive s) (hmutex : s'.loop.mutex = s.loop.mutex)
    (htid : s'.loop.threadId = s.loop.threadId)
    (hcalls : ∀ tid, (s'.calls tid).critical = (s.calls tid).critical)
    (hrunner : s'.runner = s.runner) (hout : s'.pc ≠ .outside → s.pc ≠ .outside)
    (hheld : s'.pc.holdsMutex = true → s.pc.holdsMutex = true) : Exclusive s' := by
  constructor
  · intro hpc
    rw [hrunner, htid]
    exact h.runner (hout hpc)
  · intro tid hcritical
    rw [hmutex]
    exact h.critical tid (hcalls tid ▸ hcritical)
  · intro hpc
    rw [hmutex, hrunner, hcalls]
    exact h.batch (hheld hpc)

/-- A call that moves on outside its critical section, or inside it, keeps the discipline. -/
theorem Exclusive.setCall (h : Exclusive s) (tid : ThreadId) (pc : CallPc φ)
    (hcritical : pc.critical = (s.calls tid).critical) (hs' : s'.calls = (s.setCall tid pc).calls)
    (hmutex : s'.loop.mutex = s.loop.mutex) (htid : s'.loop.threadId = s.loop.threadId)
    (hrunner : s'.runner = s.runner) (hpc : s'.pc = s.pc) : Exclusive s' := by
  refine h.frame hmutex htid ?_ hrunner (hpc ▸ id) (hpc ▸ id)
  intro t
  rw [hs', setCall_calls]
  split
  · rename_i ht
    rw [hcritical, ht]
  · rfl

theorem Initial.exclusive (h : Initial A s) : Exclusive s := by
  constructor
  · intro hpc
    exact absurd h.pc hpc
  · intro tid hcritical
    rw [h.calls tid] at hcritical
    cases hcritical
  · intro hpc
    rw [h.pc] at hpc
    cases hpc

/-- The thread of the loop moves on without touching `mutex_`. -/
theorem Exclusive.movePc (h : Exclusive s) (hmutex : s'.loop.mutex = s.loop.mutex)
    (htid : s'.loop.threadId = s.loop.threadId) (hcalls : s'.calls = s.calls)
    (hrunner : s'.runner = s.runner) (hpc : s.pc ≠ .outside)
    (hheld : s'.pc.holdsMutex = true → s.pc.holdsMutex = true) : Exclusive s' :=
  h.frame hmutex htid (fun _ => by rw [hcalls]) hrunner (fun _ => hpc) hheld

/-- The step lemma of the mutex discipline. -/
theorem Exclusive.step (h : Exclusive s) (he : Effect A s a s') : Exclusive s' := by
  cases he with
  | executeNow tid cb app app' answers hmay hcall hin hexec =>
      exact h.frame rfl rfl (fun _ => rfl) rfl id id
  | issue p app hands hmay hcall hroute =>
      exact h.setCall p.caller (.entering p) (by rw [idle_of_mayCall hmay]; rfl) rfl rfl rfl rfl rfl
  | quit tid pc hmay hpc =>
      refine h.setCall tid pc ?_ rfl rfl rfl rfl rfl
      rw [idle_of_mayCall hmay]
      rcases hpc with rfl | ⟨rfl, -⟩ <;> rfl
  | acquire tid p hat hfree =>
      refine ⟨h.runner, ?_, ?_⟩
      · intro t hcritical
        simp only [setCall_calls] at hcritical
        split at hcritical
        · rename_i ht
          rw [ht]
        · rw [h.critical t hcritical] at hfree
          cases hfree
      · intro hpc
        rw [(h.batch hpc).1] at hfree
        cases hfree
  | push tid p hat => exact h.setCall tid .pushed (by rw [hat]; rfl) rfl rfl rfl rfl rfl
  | wake tid hat =>
      exact h.setCall tid .leaving (by rw [hat]; rfl) rfl (EventLoop.wakeupIfNeeded_mutex _ _)
        (EventLoop.wakeupIfNeeded_threadId _ _) rfl rfl
  | unlock tid hat =>
      have howner := h.critical tid (by rw [hat]; rfl)
      refine ⟨h.runner, ?_, ?_⟩
      · intro t hcritical
        simp only [setCall_calls] at hcritical
        split at hcritical
        · cases hcritical
        · rename_i ht
          rw [h.critical t hcritical] at howner
          exact absurd (Option.some.inj howner) ht
      · intro hpc
        obtain ⟨hmutex, hidle⟩ := h.batch hpc
        rw [hmutex] at howner
        rw [Option.some.inj howner, hat] at hidle
        cases hidle
  | quitWake tid hat => exact h.setCall tid .idle (by rw [hat]; rfl) rfl rfl rfl rfl rfl
  | enterLoop tid hmay hpc hin => exact ⟨fun _ => hin.symm, h.critical, fun hheld => by cases hheld⟩
  | leaveLoop hready hpc =>
      exact h.movePc rfl rfl rfl rfl (by simp [hpc]) fun hheld => by cases hheld
  | poll hready hpc => exact h.movePc rfl rfl rfl rfl (by simp [hpc]) fun hheld => by cases hheld
  | pollReturn active hready hpc =>
      exact h.movePc rfl rfl rfl rfl (by simp [hpc]) fun hheld => by cases hheld
  | handleRead rest hready hpc =>
      exact h.movePc rfl rfl rfl rfl (by simp [hpc]) fun hheld => by cases hheld
  | callback e rest app answers hready hpc hhandle =>
      exact h.movePc rfl rfl rfl rfl (by simp [hpc]) fun hheld => by cases hheld
  | endCallback rest hready hpc =>
      exact h.movePc rfl rfl rfl rfl (by simp [hpc]) fun hheld => by cases hheld
  | doPendingFunctors hready hpc =>
      exact h.movePc rfl rfl rfl rfl (by simp [hpc]) fun hheld => by cases hheld
  | swap hready hpc hfree =>
      refine ⟨fun _ => h.runner (by simp [hpc]), ?_, fun _ => ⟨rfl, by simp [hready]; rfl⟩⟩
      intro t hcritical
      rw [h.critical t hcritical] at hfree
      cases hfree
  | functor p rest app answers hready hpc hexec =>
      exact h.movePc rfl rfl rfl rfl (by simp [hpc]) fun _ => by rw [hpc]; rfl
  | endFunctor rest hready hpc =>
      exact h.movePc rfl rfl rfl rfl (by simp [hpc]) fun _ => by rw [hpc]; rfl
  | finish hready hpc =>
      exact h.movePc rfl rfl rfl rfl (by simp [hpc]) fun _ => by rw [hpc]; rfl
  | release hready hpc =>
      have howner := (h.batch (by rw [hpc]; rfl)).1
      refine ⟨fun _ => h.runner (by simp [hpc]), ?_, fun hheld => by cases hheld⟩
      intro t hcritical
      rw [h.critical t hcritical] at howner
      rw [Option.some.inj howner, hready] at hcritical
      cases hcritical

theorem exclusive (h : (machine A).Reachable s) : Exclusive s :=
  h.invariant (fun _ => Initial.exclusive) fun _ _ _ hs _ hnext => hs.step (next_effect hnext)

/-- The functor for which `mutex_` has been taken and that is not pushed yet. -/
def holding (s : System σ φ ε) : List (Posted φ) :=
  match s.loop.mutex with
  | none => []
  | some tid => (s.calls tid).holding

/-- What is known of the threads that executed, and of the order of the locks. -/
structure Recorded (s : System σ φ ε) : Prop where
  executed : ∀ e ∈ s.executed, e.1 = s.loop.threadId
  immediate : ∀ e ∈ s.immediate, e.1 = s.loop.threadId
  acquired : s.queued ++ s.holding = s.acquired

theorem holding_of_none (h : s.loop.mutex = none) : s.holding = [] := by
  simp [holding, h]

theorem holding_of_some {tid : ThreadId} (h : s.loop.mutex = some tid) :
    s.holding = (s.calls tid).holding := by
  simp [holding, h]

/-- A call that moves on without taking `mutex_` or pushing its functor. -/
theorem acquired_setCall (h : s.queued ++ s.holding = s.acquired) (tid : ThreadId)
    (pc : CallPc φ) (hpc : pc.holding = (s.calls tid).holding)
    (hcalls : s'.calls = (s.setCall tid pc).calls) (hmutex : s'.loop.mutex = s.loop.mutex)
    (hqueued : s'.queued = s.queued) (hacquired : s'.acquired = s.acquired) :
    s'.queued ++ s'.holding = s'.acquired := by
  have hholding : s'.holding = s.holding := by
    unfold holding
    rw [hmutex, hcalls]
    split
    · rfl
    · rw [setCall_calls]
      split
      · rename_i ht
        rw [hpc, ht]
      · rfl
  rw [hqueued, hholding, hacquired]
  exact h

/-- The order of the `push_back`s is the order in which `mutex_` was taken for them. -/
theorem acquired_step (hx : Exclusive s) (h : s.queued ++ s.holding = s.acquired)
    (he : Effect A s a s') : s'.queued ++ s'.holding = s'.acquired := by
  cases he with
  | acquire tid p hat hfree =>
      have hbefore := holding_of_none hfree
      rw [hbefore, List.append_nil] at h
      simp only [← h, holding, setCall_calls, if_true, CallPc.holding]
      rfl
  | push tid p hat =>
      have howner := hx.critical tid (by rw [hat]; rfl)
      rw [holding_of_some howner, hat] at h
      simpa [holding, EventLoop.pushBack, howner, setCall, CallPc.holding] using h
  | unlock tid hat =>
      have howner := hx.critical tid (by rw [hat]; rfl)
      rw [holding_of_some howner, hat] at h
      rw [holding_of_none rfl]
      exact h
  | swap hready hpc hfree =>
      rw [holding_of_none hfree] at h
      simp only [holding, hready]
      exact h
  | release hready hpc =>
      have howner := (hx.batch (by rw [hpc]; rfl)).1
      rw [holding_of_some howner, hready] at h
      rw [holding_of_none rfl]
      exact h
  | wake tid hat =>
      exact acquired_setCall h tid .leaving (by rw [hat]; rfl) rfl
        (EventLoop.wakeupIfNeeded_mutex _ _) rfl rfl
  | quitWake tid hat => exact acquired_setCall h tid .idle (by rw [hat]; rfl) rfl rfl rfl rfl
  | issue p app hands hmay hcall hroute =>
      exact acquired_setCall h p.caller (.entering p) (by rw [idle_of_mayCall hmay]; rfl) rfl rfl
        rfl rfl
  | quit tid pc hmay hpc =>
      refine acquired_setCall h tid pc ?_ rfl rfl rfl rfl
      rw [idle_of_mayCall hmay]
      rcases hpc with rfl | ⟨rfl, -⟩ <;> rfl
  | _ => exact h

theorem recorded (h : (machine A).Reachable s) : Recorded s := by
  induction h with
  | init h =>
      obtain ⟨-, hacquired, hqueued, hexecuted, himmediate, -⟩ := h.history
      constructor
      · simp [hexecuted]
      · simp [himmediate]
      · simp [hqueued, hacquired, holding_of_none h.mutex]
  | step run _ hnext ih =>
      have hx := exclusive run
      have he := next_effect hnext
      refine ⟨?_, ?_, acquired_step hx ih.acquired he⟩
      · rw [he.threadId_eq]
        cases he with
        | functor p rest app answers hready hpc hexec =>
            intro e hmem
            rcases List.mem_append.mp hmem with hmem | hmem
            · exact ih.executed e hmem
            · rw [List.mem_singleton.mp hmem]
              exact hx.runner (by simp [hpc])
        | _ => exact ih.executed
      · rw [he.threadId_eq]
        cases he with
        | executeNow tid cb app app' answers hmay hcall hin hexec =>
            intro e hmem
            rcases List.mem_append.mp hmem with hmem | hmem
            · exact ih.immediate e hmem
            · rw [List.mem_singleton.mp hmem]
              exact hin.symm
        | _ => exact ih.immediate

/-- For any interleaving of any number of threads, at every point: what
`doPendingFunctors` has executed, the rest of its batch and the pending
functors are, in this order, the functors queued so far, in the order in which
`mutex_` was taken for them; both kinds of execution happen on the thread of
the loop; and the functors a thread gave to `runInLoop` are, in order, those
executed at once, those queued and the one on its way. Only calls of the loop's
own thread are executed at once, and none of those is queued. -/
theorem functor_queue_exactly_once_fifo (h : (machine A).Reachable s) :
    s.executed.map Prod.snd ++ s.pc.rest ++ s.loop.pendingFunctors = s.queued ∧
    s.queued ++ s.holding = s.acquired ∧
    (∀ e ∈ s.executed ++ s.immediate, e.1 = s.loop.threadId) ∧
    (∀ tid, Mailbox.orderedOf tid (s.immediate.map Prod.snd) ++ Mailbox.orderedOf tid s.queued ++
      Mailbox.orderedOf tid (s.calls tid).carried = Mailbox.orderedOf tid s.issued) ∧
    (∀ e ∈ s.immediate, e.2.ordered = true ∧ e.2.caller = s.loop.threadId) ∧
    (∀ p ∈ s.queued, p.ordered = true → p.caller ≠ s.loop.threadId) := by
  have hinv := mailbox_inv h
  have hrec := recorded h
  refine ⟨hinv.fifo, hrec.acquired, ?_, hinv.routes, ?_, hinv.posted_other⟩
  · intro e hmem
    rcases List.mem_append.mp hmem with hmem | hmem
    · exact hrec.executed e hmem
    · exact hrec.immediate e hmem
  · intro e hmem
    exact (hinv.direct_own e.2 (List.mem_map_of_mem hmem)).symm

section Example

/-- Numbered functors and callbacks without an effect. -/
def plainApp : App Unit Nat Unit Unit where
  Initial _ := True
  call _ _ := some ()
  exec _ _ _ := some ()
  handle _ _ _ := some ()

/-- A loop constructed by thread `0`. -/
def plainStart : System Unit Nat Unit where
  loop := EventLoop.new 0 false 0
  pc := .outside
  runner := 0
  calls _ := .idle
  app := ()
  issued := []
  acquired := []
  queued := []
  executed := []
  immediate := []
  log := []

theorem plainStart_initial : Initial plainApp plainStart :=
  ⟨trivial, rfl, rfl, rfl, rfl, fun _ => rfl, rfl, rfl, rfl, rfl, rfl, rfl⟩

/-- Threads `1` and `2` queue a functor each while the loop polls; then a
callback gives one to `runInLoop` and the batch is begun. -/
def twoCallers : List (Action Nat Unit Unit) :=
  [.enterLoop 0, .loop .test, .runInLoop 1 7 (), .advance 1, .queueInLoop 2 8, .advance 1,
    .advance 1, .advance 1, .advance 2, .advance 2, .advance 2, .advance 2,
    .loop (.pollReturn [.wakeup]), .loop (.nextCallback ()), .runInLoop 0 9 (),
    .loop .endCallback, .loop .doPendingFunctors, .loop .swap, .loop (.nextFunctor ())]

theorem functor_queue_two_callers :
    ∃ s, (machine plainApp).Reachable s ∧ s.queued.map Letter.content = [7, 8] ∧
      s.immediate.map (fun e => e.2.content) = [9] := by
  obtain ⟨s, hs, hp⟩ := Machine.exists_reach (M := machine plainApp) (fun _ _ => True)
    plainStart_initial twoCallers
    (fun s => s.executed.map (fun e => e.2.content) == [7] && s.pc.rest.map Letter.content == [8] &&
      s.loop.pendingFunctors.map Letter.content == [] &&
      s.immediate.map (fun e => e.2.content) == [9]) (by decide +kernel)
  simp only [Bool.and_eq_true, beq_iff_eq] at hp
  obtain ⟨⟨⟨hexecuted, hrest⟩, hpending⟩, himmediate⟩ := hp
  obtain ⟨hfifo, -⟩ := functor_queue_exactly_once_fifo hs
  refine ⟨s, hs, ?_, himmediate⟩
  rw [← hfifo, List.map_append, List.map_append, List.map_map]
  simp only [Function.comp_def, hexecuted, hrest, hpending]
  rfl

end Example

end Yatwb.System
