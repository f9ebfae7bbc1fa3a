import Yatwb.EventLoop.Wakeup

/-!
# Who waits for the event loop, and for how long

`mutex_` is held by a thread in the short section of `queueInLoop`, or by the
loop while it runs a batch of functors. Each of them lets go of it in a few
statements of its own, unless a functor of the batch calls `queueInLoop`: then
the thread of the loop waits for itself. From there on no statement moves the
loop, and every thread that waits for `mutex_` waits for ever. In every other
state, a thread that waits can be served.

A `quit` from another thread writes the wake-up event after the store. While
the loop polls with `quit_` set, the event has been written, or the thread that
set `quit_` is right before the write.
-/

namespace Yatwb

open Foundation

/-- Every functor comes to its end, for some answers of the kernel. -/
def App.Total {σ φ ε ι : Type} (A : App σ φ ε ι) : Prop :=
  ∀ app cb, ∃ answers app', A.exec app cb answers = some app'

namespace System

variable {σ φ ε ι : Type} {A : App σ φ ε ι} {s s' : System σ φ ε} {a : Action φ ε ι}
  {tid : ThreadId}

/-! ### Who holds `mutex_` -/

/-- `mutex_` is held by a thread in `queueInLoop` or by the loop with its batch,
and the thread of the loop is in a call only where it runs user code. -/
structure Held (s : System σ φ ε) : Prop where
  holder : ∀ tid, s.loop.mutex = some tid → (s.calls tid).critical = true ∨
    s.pc.holdsMutex = true ∧ tid = s.loop.threadId
  own : s.pc.runsUserCode = false → s.calls s.loop.threadId = .idle
  stored : s.calls s.loop.threadId ≠ .quitting

theorem Initial.held (h : Initial A s) : Held s := by
  constructor
  · intro tid hmutex
    rw [h.mutex] at hmutex
    cases hmutex
  · intro _
    exact h.calls s.loop.threadId
  · rw [h.calls]
    simp

/-- A call that moves on inside or outside its critical section. -/
theorem Held.setCall (h : Held s) (tid : ThreadId) (pc : CallPc φ)
    (hcritical : pc.critical = (s.calls tid).critical) (hcalls : s'.calls = (s.setCall tid pc).calls)
    (hmutex : s'.loop.mutex = s.loop.mutex) (htid : s'.loop.threadId = s.loop.threadId)
    (hpc : s'.pc = s.pc)
    (hown : tid = s.loop.threadId → pc ≠ .quitting ∧ (pc = .idle ∨ s.pc.runsUserCode = true)) :
    Held s' := by
  constructor
  · intro t ht
    rw [hmutex] at ht
    rw [hcalls, setCall_calls, hpc, htid]
    split
    · rename_i heq
      rw [hcritical, ← heq]
      exact h.holder t ht
    · exact h.holder t ht
  · intro huser
    rw [hpc] at huser
    rw [hcalls, setCall_calls, htid]
    split
    · rename_i heq
      rcases (hown heq.symm).2 with hidle | hruns
      · exact hidle
      · rw [hruns] at huser
        cases huser
    · exact h.own huser
  · rw [hcalls, setCall_calls, htid]
    split
    · rename_i heq
      exact (hown heq.symm).1
    · exact h.stored

/-- The thread of the loop moves on, and keeps `mutex_` if it had it. -/
theorem Held.movePc (h : Held s) (hready : s.calls s.loop.threadId = .idle)
    (hcalls : s'.calls = s.calls) (hmutex : s'.loop.mutex = s.loop.mutex)
    (htid : s'.loop.threadId = s.loop.threadId)
    (hheld : s.pc.holdsMutex = true → s'.pc.holdsMutex = true) : Held s' := by
  constructor
  · intro t ht
    rw [hcalls, htid]
    exact (h.holder t (hmutex ▸ ht)).imp_right fun hbatch => ⟨hheld hbatch.1, hbatch.2⟩
  · intro _
    rw [hcalls, htid]
    exact hready
  · rw [hcalls, htid, hready]
    simp

/-- The step lemma. -/
theorem Held.step (h : Held s) (hx : Exclusive s) (he : Effect A s a s') : Held s' := by
  have hown (hready : s.calls s.runner = .idle) (hpc : s.pc ≠ .outside) :
      s.calls s.loop.threadId = .idle := by
    rw [← hx.runner hpc]
    exact hready
  have huser {t : ThreadId} {pc : CallPc φ} (hat : s.calls t = pc) (hpc : pc ≠ .idle)
      (ht : t = s.loop.threadId) : s.pc.runsUserCode = true := by
    by_contra hno
    rw [ht, h.own (Bool.eq_false_iff.mpr hno)] at hat
    exact hpc hat.symm
  cases he with
  | executeNow tid cb app app' answers hmay hcall hin hexec => exact ⟨h.holder, h.own, h.stored⟩
  | issue p app hands hmay hcall hroute =>
      refine h.setCall p.caller (.entering p) (by rw [idle_of_mayCall hmay]; rfl) rfl rfl rfl rfl ?_
      intro hcaller
      exact ⟨by simp, .inr (runsUserCode_of_mayCall hmay hcaller)⟩
  | quit tid pc hmay hpc =>
      rcases hpc with rfl | ⟨rfl, hne⟩
      · refine h.setCall tid .idle (by rw [idle_of_mayCall hmay]) rfl rfl rfl rfl ?_
        exact fun _ => ⟨by simp, .inl rfl⟩
      · refine h.setCall tid .quitting (by rw [idle_of_mayCall hmay]; rfl) rfl rfl rfl rfl ?_
        exact fun heq => absurd heq hne
  | acquire tid p hat hfree =>
      refine ⟨fun t ht => .inl ?_, fun hpc => ?_, ?_⟩
      · obtain rfl := Option.some.inj ht
        simp [CallPc.critical]
      · have hidle := h.own hpc
        have hne : s.loop.threadId ≠ tid := by
          rintro rfl
          rw [hidle] at hat
          cases hat
        simpa [hne] using hidle
      · have hstored := h.stored
        simp only [setCall_calls]
        split
        · simp
        · exact hstored
  | push tid p hat =>
      refine h.setCall tid .pushed (by rw [hat]; rfl) rfl rfl rfl rfl ?_
      exact fun ht => ⟨by simp, .inr (huser hat (by simp) ht)⟩
  | wake tid hat =>
      refine h.setCall tid .leaving (by rw [hat]; rfl) rfl (EventLoop.wakeupIfNeeded_mutex _ _)
        (EventLoop.wakeupIfNeeded_threadId _ _) rfl ?_
      exact fun ht => ⟨by simp, .inr (huser hat (by simp) ht)⟩
  | unlock tid hat =>
      refine ⟨(fun t ht => by cases ht), fun hpc => ?_, ?_⟩
      · simp only [setCall_calls]
        split
        · rfl
        · exact h.own hpc
      · simp only [setCall_calls]
        split
        · simp
        · exact h.stored
  | quitWake tid hat =>
      refine h.setCall tid .idle (by rw [hat]; rfl) rfl rfl rfl rfl ?_
      exact fun _ => ⟨by simp, .inl rfl⟩
  | enterLoop tid hmay hpc hin =>
      refine h.movePc ?_ rfl rfl rfl (by simp [hpc, LoopPc.holdsMutex])
      rw [hin]
      exact idle_of_mayCall hmay
  | leaveLoop hready hpc | poll hready hpc | pollReturn active hready hpc
  | handleRead rest hready hpc | callback e rest app answers hready hpc hhandle
  | endCallback rest hready hpc | doPendingFunctors hready hpc =>
      exact h.movePc (hown hready (by simp [hpc])) rfl rfl rfl (by simp [hpc, LoopPc.holdsMutex])
  | swap hready hpc hfree =>
      have hidle := hown hready (by simp [hpc])
      refine ⟨fun t ht => .inr ⟨rfl, ?_⟩, fun _ => hidle, ?_⟩
      · rw [← hx.runner (by simp [hpc])]
        exact (Option.some.inj ht).symm
      · change s.calls s.loop.threadId ≠ .quitting
        rw [hidle]
        simp
  | functor p rest app answers hready hpc hexec | endFunctor rest hready hpc
  | finish hready hpc =>
      exact h.movePc (hown hready (by simp [hpc])) rfl rfl rfl fun _ => rfl
  | release hready hpc =>
      have hidle := hown hready (by simp [hpc])
      refine ⟨(fun t ht => by cases ht), fun _ => hidle, ?_⟩
      change s.calls s.loop.threadId ≠ .quitting
      rw [hidle]
      simp

theorem held (h : (machine A).Reachable s) : Held s := by
  induction h with
  | init h => exact h.held
  | step run _ hnext ih => exact ih.step (exclusive run) (next_effect hnext)

/-! ### A functor that calls `queueInLoop` -/

/-- The thread of the loop waits in `queueInLoop` for the `mutex_` that it holds. -/
def SelfQueued (s : System σ φ ε) : Prop :=
  s.pc.holdsMutex = true ∧ ∃ p, s.calls s.loop.threadId = .entering p

/-- Neither the loop nor a thread that waits for `mutex_` has moved. -/
structure Frozen (s s' : System σ φ ε) : Prop where
  selfQueued : s'.SelfQueued
  pc : s'.pc = s.pc
  executed : s'.executed = s.executed
  pendingFunctors : s'.loop.pendingFunctors = s.loop.pendingFunctors
  entering : ∀ tid p, s.calls tid = .entering p → s'.calls tid = .entering p

theorem SelfQueued.refl (h : s.SelfQueued) : Frozen s s :=
  ⟨h, rfl, rfl, rfl, fun _ _ => id⟩

theorem Frozen.trans {s'' : System σ φ ε} (h : Frozen s s') (h' : Frozen s' s'') :
    Frozen s s'' where
  selfQueued := h'.selfQueued
  pc := h'.pc.trans h.pc
  executed := h'.executed.trans h.executed
  pendingFunctors := h'.pendingFunctors.trans h.pendingFunctors
  entering tid p hat := h'.entering tid p (h.entering tid p hat)

/-- A call of a thread that does not wait for `mutex_` moves on. -/
theorem SelfQueued.setCall (h : s.SelfQueued) (tid : ThreadId) (pc : CallPc φ)
    (hat : ∀ p, s.calls tid ≠ .entering p) (hcalls : s'.calls = (s.setCall tid pc).calls)
    (htid : s'.loop.threadId = s.loop.threadId) (hpc : s'.pc = s.pc)
    (hexecuted : s'.executed = s.executed)
    (hpending : s'.loop.pendingFunctors = s.loop.pendingFunctors) : Frozen s s' := by
  have hkeep (t : ThreadId) (p : Posted φ) (ht : s.calls t = .entering p) :
      s'.calls t = .entering p := by
    have hne : t ≠ tid := by
      rintro rfl
      exact hat p ht
    rw [hcalls, setCall_calls, if_neg hne]
    exact ht
  obtain ⟨hbatch, p, hown⟩ := h
  refine ⟨⟨hpc ▸ hbatch, p, ?_⟩, hpc, hexecuted, hpending, hkeep⟩
  rw [htid]
  exact hkeep _ p hown

theorem SelfQueued.step (h : s.SelfQueued) (hx : Exclusive s) (he : Effect A s a s') :
    Frozen s s' := by
  obtain ⟨hbatch, p, hown⟩ := id h
  obtain ⟨hmutex, hcritical⟩ := hx.batch hbatch
  have hinside : s.pc ≠ .outside := by
    intro hpc
    rw [hpc] at hbatch
    cases hbatch
  have hrunner := hx.runner hinside
  -- The loop's thread is in a call, so it takes no statement of `loop`.
  have hbusy : s.calls s.runner ≠ .idle := by
    rw [hrunner, hown]
    simp
  have hother {t : ThreadId} (hat : (s.calls t).critical = true) : False := by
    have hholder := hx.critical t hat
    rw [hmutex] at hholder
    rw [Option.some.inj hholder, hat] at hcritical
    cases hcritical
  cases he with
  | executeNow tid cb app app' answers hmay hcall hin hexec =>
      rw [hrunner, hin] at hbusy
      exact absurd (idle_of_mayCall hmay) hbusy
  | issue q app hands hmay hcall hroute =>
      exact h.setCall q.caller (.entering q) (by simp [idle_of_mayCall hmay]) rfl rfl rfl rfl rfl
  | quit tid pc hmay hpc =>
      exact h.setCall tid pc (by simp [idle_of_mayCall hmay]) rfl rfl rfl rfl rfl
  | acquire tid q hat hfree =>
      rw [hmutex] at hfree
      cases hfree
  | push tid q hat => exact (hother (t := tid) (hat ▸ rfl)).elim
  | wake tid hat => exact (hother (t := tid) (hat ▸ rfl)).elim
  | unlock tid hat => exact (hother (t := tid) (hat ▸ rfl)).elim
  | quitWake tid hat => exact h.setCall tid .idle (by simp [hat]) rfl rfl rfl rfl rfl
  | enterLoop tid hmay hpc hin => exact absurd hpc hinside
  | leaveLoop hready hpc | poll hready hpc | pollReturn active hready hpc
  | handleRead rest hready hpc | callback e rest app answers hready hpc hhandle
  | endCallback rest hready hpc | doPendingFunctors hready hpc | swap hready hpc hfree
  | functor q rest app answers hready hpc hexec | endFunctor rest hready hpc
  | finish hready hpc | release hready hpc => exact absurd hready hbusy

/-- Once the thread of the loop waits for itself, nothing moves the loop again. -/
theorem SelfQueued.frozen (h : (machine A).Reachable s) (hself : s.SelfQueued)
    (hleads : (machine A).Leads s s') : Frozen s s' := by
  have hinv : (machine A).Reachable s' ∧ Frozen s s' := by
    induction hleads with
    | refl => exact ⟨h, hself.refl⟩
    | step _ hnext ih =>
        obtain ⟨hreach, hfrozen⟩ := ih
        exact ⟨hreach.step trivial hnext,
          hfrozen.trans (hfrozen.selfQueued.step (exclusive hreach) (next_effect hnext))⟩
  exact hinv.2

/-! ### Everyone else lets go of `mutex_` -/

/-- A statement of the loop or of a call that has begun. -/
def Action.Continues : Action φ ε ι → Prop
  | .advance _ => True
  | .loop _ => True
  | _ => False

instance : DecidablePred (Action.Continues (φ := φ) (ε := ε) (ι := ι))
  | .advance _ | .loop _ => isTrue trivial
  | .runInLoop _ _ _ | .queueInLoop _ _ | .quit _ | .enterLoop _ => isFalse id

/-- A run in which no thread begins a call. -/
abbrev Settles (A : App σ φ ε ι) (s s' : System σ φ ε) : Prop :=
  ((machine A).restrict Action.Continues).Leads s s'

/-- `mutex_` is free, and the other threads are where they were. -/
structure Freed (tid : ThreadId) (s s' : System σ φ ε) : Prop where
  mutex : s'.loop.mutex = none
  others : ∀ t, t ≠ tid → s'.calls t = s.calls t

/-- The thread has come to the end of its call, and the loop is where it was. -/
structure Returned (tid : ThreadId) (s s' : System σ φ ε) : Prop extends Freed tid s s' where
  idle : s'.calls tid = .idle
  pc : s'.pc = s.pc
  runner : s'.runner = s.runner

theorem settles_advance (tid : ThreadId) {s₁ : System σ φ ε} (h : s.advance tid = some s₁)
    (hleads : Settles A s₁ s') : Settles A s s' :=
  (Machine.Leads.single (a := .advance tid) (Machine.restrict_next.mpr ⟨trivial, h⟩)).trans hleads

theorem leaving_frees (A : App σ φ ε ι) (tid : ThreadId) (hat : s.calls tid = .leaving) :
    ∃ s', Settles A s s' ∧ Returned tid s s' := by
  refine ⟨{ s.setCall tid .idle with loop := s.loop.unlock }, ?_, ⟨rfl, ?_⟩, ?_, rfl, rfl⟩
  · exact settles_advance tid (by simp only [advance, hat]) (.refl _)
  · intro t ht
    simp [ht]
  · simp

theorem pushed_frees (A : App σ φ ε ι) (tid : ThreadId) (hat : s.calls tid = .pushed) :
    ∃ s', Settles A s s' ∧ Returned tid s s' := by
  obtain ⟨s', hleads, hreturned⟩ := leaving_frees A tid
    (s := { s.setCall tid .leaving with loop := s.loop.wakeupIfNeeded tid }) (by simp)
  refine ⟨s', settles_advance tid (by simp only [advance, hat]) hleads,
    ⟨hreturned.mutex, fun t ht => ?_⟩, hreturned.idle, hreturned.pc, hreturned.runner⟩
  rw [hreturned.others t ht]
  simp [ht]

theorem locked_frees (A : App σ φ ε ι) (tid : ThreadId) {p : Posted φ}
    (hat : s.calls tid = .locked p) : ∃ s', Settles A s s' ∧ Returned tid s s' := by
  obtain ⟨s', hleads, hreturned⟩ := pushed_frees A tid
    (s := { s.setCall tid .pushed with
      loop := s.loop.pushBack p
      queued := s.queued ++ [p] }) (by simp)
  refine ⟨s', settles_advance tid (by simp only [advance, hat]) hleads,
    ⟨hreturned.mutex, fun t ht => ?_⟩, hreturned.idle, hreturned.pc, hreturned.runner⟩
  rw [hreturned.others t ht]
  simp [ht]

/-- A thread in `queueInLoop` lets go of `mutex_`. -/
theorem critical_frees (A : App σ φ ε ι) (hcritical : (s.calls tid).critical = true) :
    ∃ s', Settles A s s' ∧ Returned tid s s' := by
  cases hat : s.calls tid with
  | locked p => exact locked_frees A tid hat
  | pushed => exact pushed_frees A tid hat
  | leaving => exact leaving_frees A tid hat
  | idle | entering _ | quitting =>
      rw [hat] at hcritical
      cases hcritical

/-- A statement of the loop, when its thread is in no call. -/
theorem settles_loop {l : LoopAction ε ι} {t : System σ φ ε} (hready : s.calls s.runner = .idle)
    (h : s.loopStep A l = some t) (hleads : Settles A t s') : Settles A s s' := by
  have hnext : (machine A).next s (.loop l) = some t := by
    change (if (s.calls s.runner).isIdle then s.loopStep A l else none) = some t
    rw [if_pos (CallPc.isIdle_iff.mpr hready)]
    exact h
  exact (Machine.Leads.single (Machine.restrict_next.mpr ⟨trivial, hnext⟩)).trans hleads

theorem unlocking_frees (A : App σ φ ε ι) (hready : s.calls s.runner = .idle)
    (hpc : s.pc = .unlocking) (tid : ThreadId) :
    ∃ s', Settles A s s' ∧ Freed tid s s' := by
  refine ⟨{ s with loop := s.loop.unlock, pc := .testing }, ?_, rfl, fun _ _ => rfl⟩
  exact settles_loop (l := .release) hready (by simp only [loopStep, hpc]) (.refl _)

/-- The loop lets go of `mutex_` after the rest of its batch. -/
theorem batch_frees (hA : A.Total) {rest : List (Posted φ)} (hready : s.calls s.runner = .idle)
    (hpc : s.pc = .batch rest) (tid : ThreadId) :
    ∃ s', Settles A s s' ∧ Freed tid s s' := by
  induction rest generalizing s with
  | nil =>
      obtain ⟨s', hleads, hfreed⟩ := unlocking_frees A
        (s := { s with loop := s.loop.setCalling false, pc := .unlocking }) hready rfl tid
      exact ⟨s', settles_loop (l := .finish) hready (by simp only [loopStep, hpc]) hleads,
        hfreed.mutex, hfreed.others⟩
  | cons p rest ih =>
      obtain ⟨answers, app, hexec⟩ := hA s.app p.content
      let s₁ : System σ φ ε := { s with
        app := app
        pc := .inFunctor rest
        executed := s.executed ++ [(s.runner, p)]
        log := s.log ++ [p] }
      obtain ⟨s', hleads, hfreed⟩ := ih (s := { s₁ with pc := .batch rest }) hready rfl
      refine ⟨s', ?_, hfreed.mutex, hfreed.others⟩
      refine settles_loop (l := .nextFunctor answers) (t := s₁) hready ?_ ?_
      · simp only [loopStep, hpc, hexec, Option.map_some]
        rfl
      · exact settles_loop (l := .endFunctor) hready rfl hleads

/-- The loop, wherever it holds `mutex_`, lets go of it. -/
theorem holdsMutex_frees (hA : A.Total) (hready : s.calls s.runner = .idle)
    (hheld : s.pc.holdsMutex = true) (tid : ThreadId) :
    ∃ s', Settles A s s' ∧ Freed tid s s' := by
  cases hpc : s.pc with
  | batch rest => exact batch_frees hA hready hpc tid
  | inFunctor rest =>
      obtain ⟨s', hleads, hfreed⟩ := batch_frees hA (s := { s with pc := .batch rest }) hready rfl tid
      exact ⟨s', settles_loop (l := .endFunctor) hready (by simp only [loopStep, hpc]) hleads,
        hfreed.mutex, hfreed.others⟩
  | unlocking => exact unlocking_frees A hready hpc tid
  | outside | testing | polling | dispatching _ | inCallback _ | locking =>
      rw [hpc] at hheld
      cases hheld

/-- Whoever holds `mutex_` lets go of it, unless the loop's thread waits for itself. -/
theorem mutex_frees (hA : A.Total) (h : (machine A).Reachable s) (hself : ¬ s.SelfQueued)
    {holder : ThreadId} (hmutex : s.loop.mutex = some holder) :
    ∃ s', Settles A s s' ∧ Freed holder s s' := by
  have hheld := held h
  rcases hheld.holder holder hmutex with hcritical | ⟨hbatch, rfl⟩
  · obtain ⟨s', hleads, hreturned⟩ := critical_frees A hcritical
    exact ⟨s', hleads, hreturned.toFreed⟩
  · have hx := exclusive h
    have hrunner : s.runner = s.loop.threadId := by
      apply hx.runner
      intro hpc
      rw [hpc] at hbatch
      cases hbatch
    have hidle : s.calls s.loop.threadId = .idle := by
      have hcritical := (hx.batch hbatch).2
      rw [hrunner] at hcritical
      cases hat : s.calls s.loop.threadId with
      | idle => rfl
      | entering p => exact absurd ⟨hbatch, p, hat⟩ hself
      | quitting => exact absurd hat hheld.stored
      | locked p | pushed | leaving =>
          rw [hat] at hcritical
          cases hcritical
    exact holdsMutex_frees hA (hrunner ▸ hidle) hbatch _

/-- A thread that waits for `mutex_` can get it, in some continuation of the run,
if and only if the thread of the loop does not wait for itself. -/
theorem served_iff_not_self_queued (hA : A.Total) (h : (machine A).Reachable s) {p : Posted φ}
    (hat : s.calls tid = .entering p) :
    (∃ s', (machine A).Leads s s' ∧ s'.calls tid = .locked p) ↔ ¬ s.SelfQueued := by
  constructor
  · rintro ⟨s', hleads, hlocked⟩ hself
    have hstill := (hself.frozen h hleads).entering tid p hat
    rw [hlocked] at hstill
    cases hstill
  · intro hself
    have hget {t : System σ φ ε} (hleads : (machine A).Leads s t) (hfree : t.loop.mutex = none)
        (hentering : t.calls tid = .entering p) :
        ∃ s', (machine A).Leads s s' ∧ s'.calls tid = .locked p := by
      refine ⟨{ t.setCall tid (.locked p) with
        loop := { t.loop with mutex := some tid }
        acquired := t.acquired ++ [p] }, ?_, by simp⟩
      apply hleads.step (a := .advance tid)
      simp [machine, next, advance, hentering, EventLoop.lock, hfree]
    cases hmutex : s.loop.mutex with
    | none => exact hget (.refl s) hmutex hat
    | some holder =>
        obtain ⟨s', hleads, hfree, hothers⟩ := mutex_frees hA h hself hmutex
        refine hget hleads.of_restrict hfree ((hothers tid ?_).trans hat)
        rintro rfl
        rcases (held h).holder tid hmutex with hcritical | ⟨hbatch, rfl⟩
        · rw [hat] at hcritical
          cases hcritical
        · exact hself ⟨hbatch, p, hat⟩

section Example

theorem plainApp_total : plainApp.Total := fun _ _ => ⟨(), (), rfl⟩

/-- Thread `1` waits for `mutex_` while thread `2` has it. -/
def waitingCaller : List (Action Nat Unit Unit) :=
  [.enterLoop 0, .queueInLoop 1 7, .queueInLoop 2 8, .advance 2]

theorem waiting_caller_served : ∃ s s' : System Unit Nat Unit, s.loop.mutex = some 2 ∧
    (machine plainApp).Leads s s' ∧ s'.calls 1 = .locked ⟨7, 1, false⟩ := by
  obtain ⟨s, hs, hp⟩ := Machine.exists_reach (M := machine plainApp) (fun _ _ => True)
    plainStart_initial waitingCaller
    (fun s => decide (s.loop.mutex = some 2 ∧ s.pc = .testing ∧
      s.calls 1 = .entering ⟨7, 1, false⟩)) (by decide +kernel)
  obtain ⟨hmutex, hpc, hat⟩ := of_decide_eq_true hp
  have hself : ¬ s.SelfQueued := by
    rintro ⟨hbatch, -⟩
    rw [hpc] at hbatch
    cases hbatch
  obtain ⟨s', hleads, hlocked⟩ := (served_iff_not_self_queued plainApp_total hs hat).mpr hself
  exact ⟨s, s', hmutex, hleads, hlocked⟩

/-- The functor of thread `1` calls `queueInLoop`. -/
def queueingFunctor : List (Action Nat Unit Unit) :=
  [.enterLoop 0, .queueInLoop 1 7, .advance 1, .advance 1, .advance 1, .advance 1, .loop .test,
    .loop (.pollReturn [.wakeup]), .loop (.nextCallback ()), .loop .endCallback,
    .loop .doPendingFunctors, .loop .swap, .loop (.nextFunctor ()), .queueInLoop 0 9]

example : ∃ s, (machine plainApp).Reachable s ∧ s.SelfQueued := by
  obtain ⟨s, hs, hp⟩ := Machine.exists_reach (M := machine plainApp) (fun _ _ => True)
    plainStart_initial queueingFunctor
    (fun s => decide (s.pc.holdsMutex = true ∧
      s.calls s.loop.threadId = .entering ⟨9, 0, false⟩)) (by decide +kernel)
  obtain ⟨hbatch, hat⟩ := of_decide_eq_true hp
  exact ⟨s, hs, hbatch, _, hat⟩

end Example

/-! ### `quit` and `poll` -/

/-- The wake-up event is written, or a thread that has set `quit_` is right before
the write. -/
def QuitHeard (s : System σ φ ε) : Prop :=
  0 < s.loop.wakeupFd ∨ ∃ tid, tid ≠ s.loop.threadId ∧ s.calls tid = .quitting

/-- A call that moves on, other than the write of the event for a `quit`. -/
theorem QuitHeard.setCall (h : s.QuitHeard) {pc : CallPc φ} (hat : s.calls tid ≠ .quitting)
    (hcalls : s'.calls = (s.setCall tid pc).calls)
    (htid : s'.loop.threadId = s.loop.threadId)
    (hwakeup : 0 < s.loop.wakeupFd → 0 < s'.loop.wakeupFd) : s'.QuitHeard := by
  refine h.imp hwakeup ?_
  rintro ⟨t, hne, hquitting⟩
  refine ⟨t, htid ▸ hne, ?_⟩
  have hne' : t ≠ tid := by
    rintro rfl
    exact hat hquitting
  rw [hcalls, setCall_calls, if_neg hne']
  exact hquitting

theorem wakeupIfNeeded_pos (h : 0 < s.loop.wakeupFd) (tid : ThreadId) :
    0 < (s.loop.wakeupIfNeeded tid).wakeupFd := by
  unfold EventLoop.wakeupIfNeeded
  split
  · exact EventLoop.wakeup_pos s.loop
  · exact h

theorem QuitHeard.advance (h : s.QuitHeard) (hadvance : s.advance tid = some s') :
    s'.QuitHeard := by
  unfold System.advance at hadvance
  cases hat : s.calls tid with
  | idle => simp [hat] at hadvance
  | entering p =>
      simp only [hat] at hadvance
      split at hadvance
      · rename_i hlock
        obtain ⟨-, rfl⟩ := EventLoop.lock_eq_ok.mp hlock
        obtain rfl := Option.some.inj hadvance
        exact h.setCall (by simp [hat]) rfl rfl id
      · cases hadvance
  | locked p =>
      simp only [hat, Option.some.injEq] at hadvance
      subst hadvance
      exact h.setCall (by simp [hat]) rfl rfl id
  | pushed =>
      simp only [hat, Option.some.injEq] at hadvance
      subst hadvance
      exact h.setCall (by simp [hat]) rfl (EventLoop.wakeupIfNeeded_threadId _ _)
        fun hpos => wakeupIfNeeded_pos hpos tid
  | leaving =>
      simp only [hat, Option.some.injEq] at hadvance
      subst hadvance
      exact h.setCall (by simp [hat]) rfl rfl id
  | quitting =>
      simp only [hat, Option.some.injEq] at hadvance
      subst hadvance
      exact .inl (EventLoop.wakeup_pos s.loop)

theorem advance_pc (h : s.advance tid = some s') :
    s'.pc = s.pc ∧ s'.loop.quit = s.loop.quit := by
  unfold advance at h
  split at h
  · cases h
  · split at h
    · rename_i hlock
      obtain ⟨-, rfl⟩ := EventLoop.lock_eq_ok.mp hlock
      obtain rfl := Option.some.inj h
      exact ⟨rfl, rfl⟩
    · cases h
  · obtain rfl := Option.some.inj h
    exact ⟨rfl, rfl⟩
  · obtain rfl := Option.some.inj h
    refine ⟨rfl, ?_⟩
    simp only [EventLoop.wakeupIfNeeded]
    split <;> rfl
  · obtain rfl := Option.some.inj h
    exact ⟨rfl, rfl⟩
  · obtain rfl := Option.some.inj h
    exact ⟨rfl, rfl⟩

/-- The loop enters `poll` only by a test that finds `quit_` unset. -/
theorem loopStep_polling {l : LoopAction ε ι} (h : s.loopStep A l = some s')
    (hpc : s'.pc = .polling) : s'.loop.quit = false := by
  cases l with
  | test =>
      simp only [loopStep] at h
      split at h
      · split at h
        · obtain rfl := Option.some.inj h
          cases hpc
        · rename_i hquit
          obtain rfl := Option.some.inj h
          exact Bool.eq_false_iff.mpr hquit
      · cases h
  | nextCallback answers =>
      simp only [loopStep] at h
      split at h
      · obtain rfl := Option.some.inj h
        cases hpc
      · obtain ⟨app, -, rfl⟩ := Option.map_eq_some_iff.mp h
        cases hpc
      · cases h
  | nextFunctor answers =>
      simp only [loopStep] at h
      split at h
      · obtain ⟨app, -, rfl⟩ := Option.map_eq_some_iff.mp h
        cases hpc
      · cases h
  | pollReturn active | endCallback | doPendingFunctors | swap | endFunctor | finish | release =>
      simp only [loopStep] at h
      split at h
      · obtain rfl := Option.some.inj h
        cases hpc
      · cases h

/-- The step lemma: while the loop polls with `quit_` set, the event is on its way. -/
theorem quit_heard_step (h : s.pc = .polling → s.loop.quit = true → s.QuitHeard)
    (hnext : next A s a = some s') (hpc : s'.pc = .polling) (hquit : s'.loop.quit = true) :
    s'.QuitHeard := by
  cases a with
  | runInLoop tid cb answers =>
      simp only [next] at hnext
      split at hnext
      · rename_i hmay
        obtain ⟨app, -, hnext⟩ := Option.bind_eq_some_iff.mp hnext
        split at hnext
        · obtain ⟨app', -, rfl⟩ := Option.map_eq_some_iff.mp hnext
          exact h hpc hquit
        · obtain rfl := Option.some.inj hnext
          exact (h hpc hquit).setCall (by simp [idle_of_mayCall hmay]) rfl rfl id
      · cases hnext
  | queueInLoop tid cb =>
      simp only [next] at hnext
      split at hnext
      · rename_i hmay
        obtain ⟨app, -, rfl⟩ := Option.map_eq_some_iff.mp hnext
        exact (h hpc hquit).setCall (by simp [idle_of_mayCall hmay]) rfl rfl id
      · cases hnext
  | quit tid =>
      simp only [next] at hnext
      split at hnext
      · rename_i hmay
        obtain rfl := Option.some.inj hnext
        have hpolling : s.pc = .polling := hpc
        have hne : tid ≠ s.loop.threadId := by
          intro heq
          have huser := runsUserCode_of_mayCall hmay heq
          rw [hpolling] at huser
          cases huser
        right
        refine ⟨tid, hne, ?_⟩
        simp [EventLoop.isInLoopThread, Ne.symm hne]
      · cases hnext
  | advance tid =>
      obtain ⟨hsamePc, hsameQuit⟩ := advance_pc hnext
      exact (h (hsamePc ▸ hpc) (hsameQuit ▸ hquit)).advance hnext
  | enterLoop tid =>
      simp only [next] at hnext
      split at hnext
      · split at hnext
        · obtain rfl := Option.some.inj hnext
          cases hpc
        · cases hnext
      · cases hnext
  | loop l =>
      simp only [next] at hnext
      split at hnext
      · rw [loopStep_polling hnext hpc] at hquit
        cases hquit
      · cases hnext

theorem quit_heard (h : (machine A).Reachable s) :
    s.pc = .polling → s.loop.quit = true → s.QuitHeard := by
  induction h with
  | init hinit =>
      intro hpc
      rw [hinit.pc] at hpc
      cases hpc
  | step run _ hnext ih => exact quit_heard_step ih hnext

/-- For any interleaving, a loop that polls with `quit_` set is woken: the event is
written, or the next statement of the thread that called `quit` writes it. -/
theorem quit_wakes_poll (h : (machine A).Reachable s) (hpc : s.pc = .polling)
    (hquit : s.loop.quit = true) :
    0 < s.loop.wakeupFd ∨ ∃ tid s', tid ≠ s.loop.threadId ∧ s.calls tid = .quitting ∧
      s.advance tid = some s' ∧ 0 < s'.loop.wakeupFd := by
  rcases quit_heard h hpc hquit with hpos | ⟨tid, hne, hquitting⟩
  · exact .inl hpos
  · right
    refine ⟨tid, { s.setCall tid .idle with loop := s.loop.wakeup }, hne, hquitting, ?_, ?_⟩
    · simp only [advance, hquitting]
    · exact EventLoop.wakeup_pos s.loop

section Example

/-- Thread `1` has set `quit_` while the loop polls. -/
def quitWhilePolling : List (Action Nat Unit Unit) := [.enterLoop 0, .loop .test, .quit 1]

theorem quit_wakes_poll_example : ∃ s : System Unit Nat Unit, s.pc = .polling ∧
    s.loop.wakeupFd = 0 ∧ ∃ tid s', s.advance tid = some s' ∧ 0 < s'.loop.wakeupFd := by
  obtain ⟨s, hs, hp⟩ := Machine.exists_reach (M := machine plainApp) (fun _ _ => True)
    plainStart_initial quitWhilePolling
    (fun s => decide (s.pc = .polling ∧ s.loop.quit = true ∧ s.loop.wakeupFd = 0))
    (by decide +kernel)
  obtain ⟨hpc, hquit, hzero⟩ := of_decide_eq_true hp
  rcases quit_wakes_poll hs hpc hquit with hpos | ⟨tid, s', -, -, hadvance, hpos⟩
  · omega
  · exact ⟨s, hpc, hzero, tid, s', hadvance, hpos⟩

end Example

end System

end Yatwb
