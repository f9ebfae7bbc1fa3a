import Yatwb.EventLoop.Progress
import Yatwb.Thread.Handshake
import Yatwb.Thread.Quit

/-!
# When the destructor of a thread with an event loop returns

The destructor of `EventLoopThread` calls `quit` and joins the thread. Unless
somebody calls `quit` again, it can return exactly when the loop is entered and
`quit_` still set, and the thread of the loop does not wait for itself in a
functor: then the loop ends after the callbacks and functors that it has begun
with. In every other state the destructor waits until `quit` is called again.
-/

namespace Yatwb

open Foundation

/-- Every channel callback comes to its end, for some answers of the kernel. -/
def App.HandlesTotal {σ φ ε ι : Type} (A : App σ φ ε ι) : Prop :=
  ∀ app e, ∃ answers app', A.handle app e answers = some app'

namespace System

variable {σ φ ε ι : Type} {A : App σ φ ε ι} {s s' : System σ φ ε} {l : LoopAction ε ι}

/-! ### A loop with `quit_` set ends -/

/-- The loop moves no call of a thread. -/
theorem loopStep_calls (h : s.loopStep A l = some s') :
    s'.calls = s.calls ∧ s'.runner = s.runner := by
  cases l with
  | test =>
      simp only [loopStep] at h
      split at h
      · split at h
        all_goals
          obtain rfl := Option.some.inj h
          exact ⟨rfl, rfl⟩
      · cases h
  | nextCallback answers =>
      simp only [loopStep] at h
      split at h
      · obtain rfl := Option.some.inj h
        exact ⟨rfl, rfl⟩
      · obtain ⟨app, -, rfl⟩ := Option.map_eq_some_iff.mp h
        exact ⟨rfl, rfl⟩
      · cases h
  | nextFunctor answers =>
      simp only [loopStep] at h
      split at h
      · obtain ⟨app, -, rfl⟩ := Option.map_eq_some_iff.mp h
        exact ⟨rfl, rfl⟩
      · cases h
  | _ =>
      simp only [loopStep] at h
      split at h
      · obtain rfl := Option.some.inj h
        exact ⟨rfl, rfl⟩
      · cases h

/-- The thread of the loop is in no call, and `quit_` is set. -/
structure Ready (A : App σ φ ε ι) (s : System σ φ ε) : Prop where
  reachable : (machine A).Reachable s
  idle : s.calls s.runner = .idle
  quit : s.loop.quit = true

/-- A thread that has stored `true` in `quit_` has yet to call `wakeup`. -/
def KeepsQuitting (s s' : System σ φ ε) : Prop :=
  ∀ tid, s.calls tid = .quitting → s'.calls tid = .quitting

theorem KeepsQuitting.trans {s'' : System σ φ ε} (h : KeepsQuitting s s')
    (h' : KeepsQuitting s' s'') : KeepsQuitting s s'' :=
  fun tid hat => h' tid (h tid hat)

theorem KeepsQuitting.of_calls_eq (h : s'.calls = s.calls) : KeepsQuitting s s' := by
  intro tid hat
  rw [h]
  exact hat

theorem Freed.keepsQuitting {tid : ThreadId} (h : Freed tid s s')
    (hat : s.calls tid ≠ .quitting) : KeepsQuitting s s' := by
  intro t ht
  rw [h.others t (by rintro rfl; exact hat ht)]
  exact ht

theorem ne_quitting_of_critical {tid : ThreadId} (h : (s.calls tid).critical = true) :
    s.calls tid ≠ .quitting := by
  intro hat
  rw [hat] at h
  cases h

/-- The loop can come to its end with no new call and no `wakeup` of a `quit`. -/
def Leaves (A : App σ φ ε ι) (s : System σ φ ε) : Prop :=
  ∃ s', Settles A s s' ∧ s'.pc = .outside ∧ KeepsQuitting s s'

theorem settles_quit (h : Settles A s s') : s'.loop.quit = s.loop.quit := by
  induction h with
  | refl => rfl
  | @step t s' a _ hnext ih =>
      obtain ⟨hcontinues, hnext⟩ := Machine.restrict_next.mp hnext
      rw [next_quit hnext, ← ih]
      cases a with
      | advance tid | loop l => rfl
      | runInLoop tid cb answers | queueInLoop tid cb | quit tid | enterLoop tid =>
          exact hcontinues.elim

theorem Ready.loop (h : Ready A s) (hstep : s.loopStep A l = some s') : Ready A s' := by
  have hsettles : Settles A s s' := settles_loop h.idle hstep (.refl _)
  obtain ⟨hcalls, hrunner⟩ := loopStep_calls hstep
  refine ⟨hsettles.of_restrict.reachable h.reachable, ?_, (settles_quit hsettles).trans h.quit⟩
  rw [hcalls, hrunner]
  exact h.idle

theorem Ready.leaves_of_loop (h : Ready A s) (hstep : s.loopStep A l = some s')
    (hrest : Leaves A s') : Leaves A s := by
  obtain ⟨t, hsettles, hpc, hkeeps⟩ := hrest
  exact ⟨t, settles_loop h.idle hstep hsettles, hpc,
    (KeepsQuitting.of_calls_eq (loopStep_calls hstep).1).trans hkeeps⟩

theorem Ready.leaves_testing (h : Ready A s) (hpc : s.pc = .testing) : Leaves A s := by
  have htest : s.loopStep A .test =
      some { s with loop := s.loop.leaveLoop, pc := .outside } := by
    simp only [loopStep, hpc, h.quit, if_true]
  exact h.leaves_of_loop htest ⟨_, .refl _, rfl, fun _ => id⟩

theorem Ready.leaves_batch (h : Ready A s) (hA : A.Total) {rest : List (Posted φ)}
    (hpc : s.pc = .batch rest) : Leaves A s := by
  induction rest generalizing s with
  | nil =>
      have hfinish : s.loopStep A .finish =
          some { s with loop := s.loop.setCalling false, pc := .unlocking } := by
        simp only [loopStep, hpc]
      refine h.leaves_of_loop hfinish ((h.loop hfinish).leaves_of_loop (l := .release) rfl ?_)
      exact ((h.loop hfinish).loop (l := .release) rfl).leaves_testing rfl
  | cons p rest ih =>
      obtain ⟨answers, app, hexec⟩ := hA s.app p.content
      have hfunctor : s.loopStep A (.nextFunctor answers) = some { s with
          app := app
          pc := .inFunctor rest
          executed := s.executed ++ [(s.runner, p)]
          log := s.log ++ [p] } := by
        simp only [loopStep, hpc, hexec, Option.map_some]
      have hready := h.loop hfunctor
      refine h.leaves_of_loop hfunctor (hready.leaves_of_loop (l := .endFunctor) rfl ?_)
      exact ih (hready.loop (l := .endFunctor) rfl) rfl

/-- Where the loop waits for `mutex_`, another thread lets go of it first. -/
theorem Ready.leaves_locking (h : Ready A s) (hA : A.Total) (hpc : s.pc = .locking) :
    Leaves A s := by
  have hfree {t : System σ φ ε} (ht : Ready A t) (htpc : t.pc = .locking)
      (hmutex : t.loop.mutex = none) : Leaves A t := by
    have hswap : t.loopStep A .swap = some { t with
        loop := { t.loop with mutex := some t.runner, pendingFunctors := [] }
        pc := .batch t.loop.pendingFunctors } := by
      simp only [loopStep, htpc, EventLoop.lock, hmutex]
      rfl
    exact ht.leaves_of_loop hswap ((ht.loop hswap).leaves_batch hA rfl)
  cases hmutex : s.loop.mutex with
  | none => exact hfree h hpc hmutex
  | some holder =>
      rcases (held h.reachable).holder holder hmutex with hcritical | ⟨hbatch, -⟩
      · obtain ⟨t, hsettles, hreturned⟩ := critical_frees A hcritical
        have hother : s.runner ≠ holder := by
          rintro rfl
          rw [h.idle] at hcritical
          cases hcritical
        have ht : Ready A t := by
          refine ⟨hsettles.of_restrict.reachable h.reachable, ?_,
            (settles_quit hsettles).trans h.quit⟩
          rw [hreturned.runner, hreturned.others _ hother]
          exact h.idle
        obtain ⟨u, hrest, hout, hkeeps⟩ := hfree ht (hreturned.pc.trans hpc) hreturned.mutex
        exact ⟨u, hsettles.trans hrest, hout,
          (hreturned.keepsQuitting (ne_quitting_of_critical hcritical)).trans hkeeps⟩
      · rw [hpc] at hbatch
        cases hbatch

theorem Ready.leaves_dispatching [Inhabited ι] (h : Ready A s) (hA : A.Total) (hH : A.HandlesTotal)
    {active : List (Active ε)} (hpc : s.pc = .dispatching active) : Leaves A s := by
  induction active generalizing s with
  | nil =>
      have hbegin : s.loopStep A .doPendingFunctors =
          some { s with loop := s.loop.setCalling true, pc := .locking } := by
        simp only [loopStep, hpc]
      exact h.leaves_of_loop hbegin ((h.loop hbegin).leaves_locking hA rfl)
  | cons channel rest ih =>
      cases channel with
      | wakeup =>
          have hcallback : s.loopStep A (.nextCallback default) =
              some { s with loop := s.loop.handleRead, pc := .inCallback rest } := by
            simp only [loopStep, hpc]
          have hready := h.loop hcallback
          refine h.leaves_of_loop hcallback (hready.leaves_of_loop (l := .endCallback) rfl ?_)
          exact ih (hready.loop (l := .endCallback) rfl) rfl
      | channel e =>
          obtain ⟨answers, app, hhandle⟩ := hH s.app e
          have hcallback : s.loopStep A (.nextCallback answers) =
              some { s with app := app, pc := .inCallback rest } := by
            simp only [loopStep, hpc, hhandle, Option.map_some]
          have hready := h.loop hcallback
          refine h.leaves_of_loop hcallback (hready.leaves_of_loop (l := .endCallback) rfl ?_)
          exact ih (hready.loop (l := .endCallback) rfl) rfl

/-- Wherever its thread is between two calls, the loop can come to its end. -/
theorem Ready.leaves [Inhabited ι] (h : Ready A s) (hA : A.Total) (hH : A.HandlesTotal) :
    Leaves A s := by
  cases hpc : s.pc with
  | outside => exact ⟨s, .refl s, hpc, fun _ => id⟩
  | testing => exact h.leaves_testing hpc
  | polling =>
      have hreturn : s.loopStep A (.pollReturn []) = some { s with pc := .dispatching [] } := by
        simp only [loopStep, hpc]
      exact h.leaves_of_loop hreturn ((h.loop hreturn).leaves_dispatching hA hH rfl)
  | dispatching active => exact h.leaves_dispatching hA hH hpc
  | inCallback active =>
      have hend : s.loopStep A .endCallback = some { s with pc := .dispatching active } := by
        simp only [loopStep, hpc]
      exact h.leaves_of_loop hend ((h.loop hend).leaves_dispatching hA hH rfl)
  | locking => exact h.leaves_locking hA hpc
  | batch rest => exact h.leaves_batch hA hpc
  | inFunctor rest =>
      have hend : s.loopStep A .endFunctor = some { s with pc := .batch rest } := by
        simp only [loopStep, hpc]
      exact h.leaves_of_loop hend ((h.loop hend).leaves_batch hA rfl)
  | unlocking =>
      have hrelease : s.loopStep A .release =
          some { s with loop := s.loop.unlock, pc := .testing } := by
        simp only [loopStep, hpc]
      exact h.leaves_of_loop hrelease ((h.loop hrelease).leaves_testing rfl)

/-! ### The thread of the loop comes back from its own call -/

theorem Returned.after {tid : ThreadId} {s'' : System σ φ ε} (h : Returned tid s' s'')
    (hothers : ∀ t, t ≠ tid → s'.calls t = s.calls t) (hpc : s'.pc = s.pc)
    (hrunner : s'.runner = s.runner) : Returned tid s s'' :=
  ⟨⟨h.mutex, fun t ht => (h.others t ht).trans (hothers t ht)⟩, h.idle, h.pc.trans hpc,
    h.runner.trans hrunner⟩

/-- A thread that waits for a free `mutex_` gets it. -/
theorem entering_returns (A : App σ φ ε ι) {tid : ThreadId} {p : Posted φ}
    (hat : s.calls tid = .entering p) (hfree : s.loop.mutex = none) :
    ∃ s', Settles A s s' ∧ Returned tid s s' := by
  obtain ⟨s', hsettles, hreturned⟩ := locked_frees A tid (p := p)
    (s := { s.setCall tid (.locked p) with
      loop := { s.loop with mutex := some tid }
      acquired := s.acquired ++ [p] }) (by simp)
  refine ⟨s', settles_advance tid ?_ hsettles, hreturned.after ?_ rfl rfl⟩
  · simp only [advance, hat, EventLoop.lock, hfree]
  · intro t ht
    simp [ht]

/-- The thread of the loop can come back from a call that it made in a callback. -/
theorem own_call_returns (A : App σ φ ε ι) (h : (machine A).Reachable s) (hpc : s.pc ≠ .outside)
    (hself : ¬ s.SelfQueued) :
    ∃ s', Settles A s s' ∧ s'.calls s'.runner = .idle ∧ KeepsQuitting s s' := by
  have hheld := held h
  have hrunner := (exclusive h).runner hpc
  have hstored : s.calls s.runner ≠ .quitting := by
    rw [hrunner]
    exact hheld.stored
  have hdone {t : System σ φ ε} (hsettles : Settles A s t) (ht : Returned s.runner s t) :
      ∃ s', Settles A s s' ∧ s'.calls s'.runner = .idle ∧ KeepsQuitting s s' := by
    refine ⟨t, hsettles, ?_, ht.keepsQuitting hstored⟩
    rw [ht.runner]
    exact ht.idle
  cases hat : s.calls s.runner with
  | idle => exact ⟨s, .refl s, hat, fun _ => id⟩
  | quitting => exact absurd hat hstored
  | locked p | pushed | leaving =>
      have hcritical : (s.calls s.runner).critical = true := by
        rw [hat]
        rfl
      obtain ⟨t, hsettles, ht⟩ := critical_frees A hcritical
      exact hdone hsettles ht
  | entering p =>
      cases hmutex : s.loop.mutex with
      | none =>
          obtain ⟨t, hsettles, ht⟩ := entering_returns A hat hmutex
          exact hdone hsettles ht
      | some holder =>
          rcases hheld.holder holder hmutex with hcritical | ⟨hbatch, -⟩
          · obtain ⟨t, hsettles, ht⟩ := critical_frees A hcritical
            have hother : s.runner ≠ holder := by
              rintro rfl
              rw [hat] at hcritical
              cases hcritical
            have hstill : t.calls s.runner = .entering p := (ht.others _ hother).trans hat
            obtain ⟨u, hrest, hu⟩ := entering_returns A hstill ht.mutex
            refine ⟨u, hsettles.trans hrest, ?_, ?_⟩
            · rw [hu.runner, ht.runner]
              exact hu.idle
            · exact (ht.keepsQuitting (ne_quitting_of_critical hcritical)).trans
                (hu.keepsQuitting (by rw [hstill]; simp))
          · exact absurd ⟨hbatch, p, hrunner ▸ hat⟩ hself

/-- What a statement of a call does to the calls. -/
theorem advance_calls {tid : ThreadId} (h : s.advance tid = some s') :
    s'.loop.threadId = s.loop.threadId ∧ (∀ t, t ≠ tid → s'.calls t = s.calls t) ∧
      (s.calls tid = .quitting → s'.calls tid = .idle) ∧ s.calls tid ≠ .idle := by
  have hothers {pc : CallPc φ} {u : System σ φ ε} (hu : u.calls = (s.setCall tid pc).calls) :
      ∀ t, t ≠ tid → u.calls t = s.calls t := by
    intro t ht
    rw [hu, setCall_calls, if_neg ht]
  unfold advance at h
  cases hat : s.calls tid with
  | idle => simp [hat] at h
  | entering p =>
      simp only [hat] at h
      cases hlock : s.loop.lock tid with
      | error f => simp [hlock] at h
      | ok loop =>
          obtain ⟨-, rfl⟩ := EventLoop.lock_eq_ok.mp hlock
          simp only [hlock, Option.some.injEq] at h
          subst h
          exact ⟨rfl, hothers rfl, by simp, by simp⟩
  | locked p | leaving =>
      simp only [hat, Option.some.injEq] at h
      subst h
      exact ⟨rfl, hothers rfl, by simp, by simp⟩
  | pushed =>
      simp only [hat, Option.some.injEq] at h
      subst h
      exact ⟨EventLoop.wakeupIfNeeded_threadId s.loop tid, hothers rfl, by simp, by simp⟩
  | quitting =>
      simp only [hat, Option.some.injEq] at h
      subst h
      exact ⟨rfl, hothers rfl, by simp, by simp⟩

/-- A loop that was entered and has `quit_` set can come to its end, unless its thread waits
for itself. -/
theorem leaves_of_quit [Inhabited ι] (hA : A.Total) (hH : A.HandlesTotal)
    (h : (machine A).Reachable s) (hquit : s.loop.quit = true) (hself : ¬ s.SelfQueued) :
    Leaves A s := by
  by_cases hpc : s.pc = .outside
  · exact ⟨s, .refl s, hpc, fun _ => id⟩
  · obtain ⟨t, hsettles, hidle, hkeeps⟩ := own_call_returns A h hpc hself
    have hready : Ready A t := ⟨hsettles.of_restrict.reachable h, hidle,
      (settles_quit hsettles).trans hquit⟩
    obtain ⟨u, hrest, hout, hkeepsOn⟩ := hready.leaves hA hH
    exact ⟨u, hsettles.trans hrest, hout, hkeeps.trans hkeepsOn⟩

/-- The loop ends only when its test has found `quit_` set. -/
theorem loopStep_outside (h : s.loopStep A l = some s') (hpc : s'.pc = .outside) :
    s'.loop.quit = true := by
  cases l with
  | test =>
      simp only [loopStep] at h
      split at h
      · split at h
        · rename_i hquit
          obtain rfl := Option.some.inj h
          exact hquit
        · obtain rfl := Option.some.inj h
          cases hpc
      · cases h
  | nextCallback answers =>
      simp only [loopStep] at h
      split at h
      · obtain rfl := Option.some.inj h
        cases hpc
      · obtain ⟨app, -, rfl⟩ := Option.map_eq_some_iff.mp h
        cases hpc
      · cases h
  | nextFunctor answers =>
      simp only [loopStep] at h
      split at h
      · obtain ⟨app, -, rfl⟩ := Option.map_eq_some_iff.mp h
        cases hpc
      · cases h
  | _ =>
      simp only [loopStep] at h
      split at h
      · obtain rfl := Option.some.inj h
        cases hpc
      · cases h

end System

namespace Lifetime

variable {σ φ ε ι : Type} {A : App σ φ ε ι} {s s' : Lifetime σ φ ε} {a : Action φ ε ι}

/-! ### The system of the loop -/

/-- Every statement is one of the system of the loop or leaves it alone. -/
theorem next_system (h : s.next A a = some s') :
    s'.system = s.system ∨ ∃ b, s.system.next A b = some s'.system := by
  cases a with
  | startLoop =>
      obtain ⟨thread, -, rfl⟩ := Option.map_eq_some_iff.mp h
      exact .inl rfl
  | wakeSpuriously =>
      obtain ⟨thread, -, rfl⟩ := Option.map_eq_some_iff.mp h
      exact .inl rfl
  | runInThread =>
      obtain ⟨thread, -, rfl⟩ := Option.map_eq_some_iff.mp h
      exact .inl rfl
  | pthreadCreate tid stack =>
      simp only [next] at h
      split at h
      · obtain ⟨thread, -, rfl⟩ := Option.map_eq_some_iff.mp h
        exact .inl rfl
      · cases h
  | enterLoop =>
      simp only [next] at h
      split at h
      · obtain ⟨system, hsystem, rfl⟩ := Option.map_eq_some_iff.mp h
        exact .inr ⟨_, hsystem⟩
      · cases h
  | loop l =>
      obtain ⟨system, hsystem, rfl⟩ := Option.map_eq_some_iff.mp h
      exact .inr ⟨_, hsystem⟩
  | call tid c =>
      simp only [next] at h
      split at h
      · obtain ⟨system, hsystem, rfl⟩ := Option.map_eq_some_iff.mp h
        exact .inr ⟨_, hsystem⟩
      · cases h
  | advance tid =>
      obtain ⟨system, hsystem, rfl⟩ := Option.map_eq_some_iff.mp h
      exact .inr ⟨_, hsystem⟩
  | destroy =>
      simp only [next] at h
      split at h
      · obtain ⟨system, hsystem, rfl⟩ := Option.map_eq_some_iff.mp h
        exact .inr ⟨_, hsystem⟩
      · cases h
  | join =>
      simp only [next] at h
      split at h
      · obtain rfl := Option.some.inj h
        exact .inl rfl
      · cases h

theorem system_reachable (h : (machine A).Reachable s) :
    (System.machine A).Reachable s.system := by
  induction h with
  | init h => exact .init h.system
  | step _ _ hnext ih =>
      rcases next_system hnext with hsame | ⟨b, hb⟩
      · rw [hsame]
        exact ih
      · exact ih.step trivial hb

theorem system_leads (h : (machine A).Leads s s') :
    (System.machine A).Leads s.system s'.system := by
  induction h with
  | refl => exact .refl _
  | step _ hnext ih =>
      rcases next_system hnext with hsame | ⟨b, hb⟩
      · rw [hsame]
        exact ih
      · exact ih.step hb

/-- A run of the system without new calls is a run of the two threads. -/
theorem leads_of_settles {t : System σ φ ε} (h : System.Settles A s.system t) :
    (quietly A).Leads s (s.setSystem t) := by
  generalize hstart : s.system = start at h
  induction h with
  | refl =>
      subst hstart
      exact .refl s
  | @step t t' a _ hnext ih =>
      obtain ⟨hcontinues, hnext⟩ := Machine.restrict_next.mp hnext
      cases a with
      | advance tid =>
          refine ih.step (a := .advance tid) (Machine.restrict_next.mpr ⟨rfl, ?_⟩)
          exact Option.map_eq_some_iff.mpr ⟨t', hnext, rfl⟩
      | loop l =>
          refine ih.step (a := .loop l) (Machine.restrict_next.mpr ⟨rfl, ?_⟩)
          exact Option.map_eq_some_iff.mpr ⟨t', hnext, rfl⟩
      | runInLoop tid cb answers | queueInLoop tid cb | quit tid | enterLoop tid =>
          exact hcontinues.elim

/-! ### What holds of the owner and of a loop that has ended -/

/-- The loop has ended only with `quit_` set, its thread is not the owner, and the owner makes
no call of its own while it destroys the object. -/
structure Consistent (s : Lifetime σ φ ε) : Prop where
  thread : s.thread.Inv
  apart : s.thread.io ≠ .unborn → s.ownerTid ≠ s.system.loop.threadId
  left : s.entered = true → s.system.pc = .outside → s.system.loop.quit = true
  owner : s.exiting = true → s.published = true ∧
    (s.system.calls s.ownerTid = .idle ∨ s.system.calls s.ownerTid = .quitting)

theorem Initial.consistent (h : Initial A s) : s.Consistent := by
  obtain ⟨hentered, -, hexiting, -⟩ := h.flags
  refine ⟨?_, ?_, ?_, ?_⟩
  · rw [h.thread]
    exact EventLoopThread.inv_new
  · intro hborn
    rw [h.thread] at hborn
    exact absurd rfl hborn
  · intro htrue
    rw [hentered] at htrue
    cases htrue
  · intro htrue
    rw [hexiting] at htrue
    cases htrue

/-- Once the loop is known, its thread exists. -/
theorem Consistent.born (h : s.Consistent) (hpublished : s.published = true) :
    s.thread.io ≠ .unborn := by
  have howner := h.thread.owner
  unfold published at hpublished
  unfold EventLoopThread.OwnerOk at howner
  cases hpc : s.thread.owner with
  | returned loop =>
      rw [hpc] at howner
      exact howner.1
  | calling | creating | latching | checking | waiting | aborted =>
      rw [hpc] at hpublished
      cases hpublished

/-- A statement of the start keeps what holds. -/
theorem Consistent.setThread (h : s.Consistent) {thread : EventLoopThread} (hthread : thread.Inv)
    (hborn : thread.io ≠ .unborn → s.ownerTid ≠ s.system.loop.threadId)
    (howner : thread.owner = s.thread.owner ∨ s.published = false) :
    (s.setThread thread).Consistent := by
  refine ⟨hthread, hborn, h.left, ?_⟩
  intro hexiting
  obtain ⟨hpublished, hcalls⟩ := h.owner hexiting
  rcases howner with hsame | hunpublished
  · refine ⟨?_, hcalls⟩
    unfold published at hpublished ⊢
    rw [show (s.setThread thread).thread = thread from rfl, hsame]
    exact hpublished
  · rw [hunpublished] at hpublished
    cases hpublished

/-- The system of the loop moves on. -/
theorem Consistent.setSystem (h : s.Consistent) {system : System σ φ ε}
    (htid : system.loop.threadId = s.system.loop.threadId)
    (hleft : s.entered = true → system.pc = .outside → system.loop.quit = true)
    (hcalls : s.exiting = true → system.calls s.ownerTid = s.system.calls s.ownerTid ∨
      system.calls s.ownerTid = .idle) : (s.setSystem system).Consistent := by
  refine ⟨h.thread, ?_, hleft, ?_⟩
  · intro hborn
    change s.ownerTid ≠ system.loop.threadId
    rw [htid]
    exact h.apart hborn
  · intro hexiting
    obtain ⟨hpublished, howner⟩ := h.owner hexiting
    refine ⟨hpublished, ?_⟩
    rcases hcalls hexiting with hsame | hidle
    · change system.calls s.ownerTid = .idle ∨ system.calls s.ownerTid = .quitting
      rw [hsame]
      exact howner
    · exact .inl hidle

theorem startLoop_unpublished {t : EventLoopThread} (h : s.thread.startLoop = some t) :
    s.published = false := by
  unfold EventLoopThread.startLoop at h
  unfold published
  cases hpc : s.thread.owner with
  | returned loop =>
      rw [hpc] at h
      cases h
  | calling | creating | latching | checking | waiting | aborted => rfl

/-- A call that a user may begin leaves the owner alone while the object is destroyed. -/
theorem Consistent.call (h : s.Consistent) {tid : ThreadId} (hmay : s.mayUse tid = true)
    {c : LoopCall φ ι} {system : System σ φ ε}
    (hsystem : s.system.next A (LoopCall.action tid c) = some system) :
    (s.called c system).Consistent := by
  have hsame : system.pc = s.system.pc ∧
      (s.system.loop.quit = true → system.loop.quit = true) ∧
      ∀ t, t ≠ tid → system.calls t = s.system.calls t := by
    cases c with
    | runInLoop cb answers =>
        simp only [LoopCall.action, System.next] at hsystem
        split at hsystem
        · obtain ⟨app, -, hsystem⟩ := Option.bind_eq_some_iff.mp hsystem
          split at hsystem
          · obtain ⟨app', -, rfl⟩ := Option.map_eq_some_iff.mp hsystem
            exact ⟨rfl, id, fun _ _ => rfl⟩
          · obtain rfl := Option.some.inj hsystem
            exact ⟨rfl, id, fun t ht => Function.update_of_ne ht _ _⟩
        · cases hsystem
    | queueInLoop cb =>
        simp only [LoopCall.action, System.next] at hsystem
        split at hsystem
        · obtain ⟨app, -, rfl⟩ := Option.map_eq_some_iff.mp hsystem
          exact ⟨rfl, id, fun t ht => Function.update_of_ne ht _ _⟩
        · cases hsystem
    | quit =>
        simp only [LoopCall.action, System.next] at hsystem
        split at hsystem
        · obtain rfl := Option.some.inj hsystem
          exact ⟨rfl, fun _ => rfl, fun t ht => Function.update_of_ne ht _ _⟩
        · cases hsystem
  obtain ⟨hpc, hquit, hcalls⟩ := hsame
  have hset : (s.setSystem system).Consistent := by
    refine h.setSystem (System.next_effect hsystem).threadId_eq ?_ fun hexiting => .inl ?_
    · intro hentered hout
      exact hquit (h.left hentered (hpc ▸ hout))
    · apply hcalls
      rintro heq
      have hapart := h.apart (h.born (h.owner hexiting).1)
      subst heq
      rw [mayUse, if_neg hapart] at hmay
      simp [hexiting] at hmay
  exact ⟨hset.thread, hset.apart, hset.left, hset.owner⟩

theorem Consistent.advance (h : s.Consistent) {tid : ThreadId} {system : System σ φ ε}
    (hsystem : s.system.advance tid = some system) : (s.setSystem system).Consistent := by
  obtain ⟨hpc, hquit⟩ := System.advance_pc hsystem
  obtain ⟨htid, hothers, hown⟩ := System.advance_calls hsystem
  refine h.setSystem htid ?_ fun hexiting => ?_
  · intro hentered hout
    rw [hquit]
    exact h.left hentered (hpc ▸ hout)
  · by_cases heq : s.ownerTid = tid
    · subst heq
      rcases (h.owner hexiting).2 with hidle | hquitting
      · exact .inl (hown.2 hidle).elim
      · exact .inr (hown.1 hquitting)
    · exact .inl (hothers _ heq)

/-- The step lemma. -/
theorem Consistent.next (h : s.Consistent) (hnext : s.next A a = some s') : s'.Consistent := by
  cases a with
  | startLoop =>
      obtain ⟨thread, hthread, rfl⟩ := Option.map_eq_some_iff.mp hnext
      obtain ⟨hinv, hframe⟩ := h.thread.startLoop hthread
      exact h.setThread hinv (fun hborn => h.apart (hframe.io ▸ hborn))
        (.inr (startLoop_unpublished hthread))
  | pthreadCreate tid stack =>
      simp only [Lifetime.next] at hnext
      split at hnext
      · rename_i htid
        obtain ⟨thread, hthread, rfl⟩ := Option.map_eq_some_iff.mp hnext
        refine h.setThread (h.thread.pthreadCreate htid.1 hthread)
          (fun _ => ?_) (.inr ?_)
        · rw [← htid.2.1]
          exact htid.2.2.symm
        · unfold EventLoopThread.pthreadCreate at hthread
          unfold published
          split at hthread
          · rename_i hpc
            rw [hpc]
          · cases hthread
      · cases hnext
  | wakeSpuriously =>
      obtain ⟨thread, hthread, rfl⟩ := Option.map_eq_some_iff.mp hnext
      obtain ⟨hinv, hframe⟩ := h.thread.wakeSpuriously hthread
      refine h.setThread hinv (fun hborn => h.apart (hframe.io ▸ hborn)) (.inl ?_)
      unfold EventLoopThread.wakeSpuriously at hthread
      split at hthread
      · obtain ⟨latch, -, rfl⟩ := Option.map_eq_some_iff.mp hthread
        rfl
      · obtain ⟨loop, -, rfl⟩ := Option.map_eq_some_iff.mp hthread
        rfl
      · cases hthread
  | runInThread =>
      obtain ⟨thread, hthread, rfl⟩ := Option.map_eq_some_iff.mp hnext
      obtain ⟨hinv, hframe⟩ := h.thread.runInThread hthread
      exact h.setThread hinv (fun _ => h.apart hframe.born) (.inl hframe.owner)
  | enterLoop =>
      simp only [Lifetime.next] at hnext
      split at hnext
      · obtain ⟨system, hsystem, rfl⟩ := Option.map_eq_some_iff.mp hnext
        have htid := (System.next_effect hsystem).threadId_eq
        simp only [System.next] at hsystem
        split at hsystem
        · split at hsystem
          · obtain rfl := Option.some.inj hsystem
            refine ⟨h.thread, ?_, fun _ hout => (by cases hout), h.owner⟩
            intro hborn
            exact fun heq => h.apart hborn (heq.trans htid)
          · cases hsystem
        · cases hsystem
      · cases hnext
  | loop l =>
      obtain ⟨system, hsystem, rfl⟩ := Option.map_eq_some_iff.mp hnext
      have htid := (System.next_effect hsystem).threadId_eq
      simp only [System.next] at hsystem
      split at hsystem
      · refine h.setSystem htid (fun _ hout => System.loopStep_outside hsystem hout) fun _ => ?_
        rw [(System.loopStep_calls hsystem).1]
        exact .inl rfl
      · cases hsystem
  | call tid c =>
      simp only [Lifetime.next] at hnext
      split at hnext
      · rename_i hmay
        obtain ⟨system, hsystem, rfl⟩ := Option.map_eq_some_iff.mp hnext
        exact h.call hmay hsystem
      · cases hnext
  | advance tid =>
      obtain ⟨system, hsystem, rfl⟩ := Option.map_eq_some_iff.mp hnext
      exact h.advance hsystem
  | destroy =>
      simp only [Lifetime.next] at hnext
      split at hnext
      · rename_i hready
        obtain ⟨system, hsystem, rfl⟩ := Option.map_eq_some_iff.mp hnext
        have htid := (System.next_effect hsystem).threadId_eq
        simp only [System.next] at hsystem
        split at hsystem
        · obtain rfl := Option.some.inj hsystem
          refine ⟨h.thread, h.apart, fun _ _ => rfl, fun _ => ⟨hready.1, ?_⟩⟩
          simp only [System.setCall_calls, if_true]
          split
          · exact .inl rfl
          · exact .inr rfl
        · cases hsystem
      · cases hnext
  | join =>
      simp only [Lifetime.next] at hnext
      split at hnext
      · obtain rfl := Option.some.inj hnext
        exact ⟨h.thread, h.apart, h.left, h.owner⟩
      · cases hnext

theorem consistent (h : (machine A).Reachable s) : s.Consistent := by
  induction h with
  | init h => exact h.consistent
  | step _ _ hnext ih => exact ih.next hnext

/-! ### The destructor -/

theorem finished_iff : s.finished = true ↔ s.system.pc = .outside ∧ s.entered = true := by
  unfold finished
  cases s.system.pc <;> simp

/-- The thread is joined when its loop has ended. -/
theorem finished_of_joined (h : s.next A a = some s') (hbefore : s.joined = false)
    (hafter : s'.joined = true) : s.finished = true := by
  cases a with
  | join =>
      simp only [next] at h
      split at h
      · rename_i hready
        exact hready.2.2.1
      · cases h
  | startLoop | wakeSpuriously | runInThread =>
      obtain ⟨thread, -, rfl⟩ := Option.map_eq_some_iff.mp h
      exact absurd (hbefore.symm.trans hafter) Bool.false_ne_true
  | loop l | advance tid =>
      obtain ⟨system, -, rfl⟩ := Option.map_eq_some_iff.mp h
      exact absurd (hbefore.symm.trans hafter) Bool.false_ne_true
  | pthreadCreate tid stack | enterLoop | call tid c | destroy =>
      simp only [next] at h
      split at h
      · obtain ⟨x, -, rfl⟩ := Option.map_eq_some_iff.mp h
        exact absurd (hbefore.symm.trans hafter) Bool.false_ne_true
      · cases h

/-- While the loop does not end, the destructor does not return. -/
theorem unjoined_of_unfinished (hjoined : s.joined = false)
    (hunfinished : ∀ t, (quietly A).Leads s t → t.finished = false)
    (h : (quietly A).Leads s s') : s'.joined = false := by
  induction h with
  | refl => exact hjoined
  | @step t s' a run hnext ih =>
      rw [Bool.eq_false_iff]
      intro hafter
      have hfinished := finished_of_joined (Machine.restrict_next.mp hnext).2 ih hafter
      rw [hunfinished t run] at hfinished
      cases hfinished

/-- Unless `quit` is called again, only a loop that was told to end, and does not wait for
itself, ends. -/
theorem heeded_of_finished {t : Lifetime σ φ ε} (h : (machine A).Reachable s)
    (hleads : (quietly A).Leads s t) (hfinished : t.finished = true) :
    s.entered = true ∧ s.system.loop.quit = true ∧ ¬ s.system.SelfQueued := by
  obtain ⟨hout, hentered⟩ := finished_iff.mp hfinished
  have hself : ¬ s.system.SelfQueued := by
    intro hself
    have hfrozen := hself.frozen (system_reachable h) (system_leads hleads.of_restrict)
    have hheld := hself.1
    rw [← hfrozen.pc, hout] at hheld
    cases hheld
  by_contra hnot
  have hforgotten : s.Forgotten := by
    intro htrue
    rw [Bool.eq_false_iff]
    exact fun hquit => hnot ⟨htrue, hquit, hself⟩
  have hstill : t.Forgotten := by
    clear hout hentered hfinished
    induction hleads with
    | refl => exact hforgotten
    | step _ hnext ih =>
        obtain ⟨hquiet, hnext⟩ := Machine.restrict_next.mp hnext
        exact ih.next hquiet hnext
  have hquit := (consistent (hleads.of_restrict.reachable h)).left hentered hout
  rw [hstill hentered] at hquit
  cases hquit

/-- Such a loop ends while the owner is where it was. -/
theorem finishes_of_heeded [Inhabited ι] (hA : A.Total) (hH : A.HandlesTotal)
    (h : (machine A).Reachable s) (hentered : s.entered = true)
    (hquit : s.system.loop.quit = true) (hself : ¬ s.system.SelfQueued) :
    ∃ t : System σ φ ε, (quietly A).Leads s (s.setSystem t) ∧ t.pc = .outside ∧
      (s.setSystem t).finished = true ∧ System.KeepsQuitting s.system t := by
  obtain ⟨t, hsettles, hout, hkeeps⟩ :=
    System.leaves_of_quit hA hH (system_reachable h) hquit hself
  exact ⟨t, leads_of_settles hsettles, hout, finished_iff.mpr ⟨hout, hentered⟩, hkeeps⟩

/-- The destructor of `EventLoopThread` can return, in some continuation of the run in which
nobody calls `quit` again, if and only if the loop is entered and `quit_` still set, and the
thread of the loop does not wait for itself. -/
theorem destructor_returns_iff [Inhabited ι] (hA : A.Total) (hH : A.HandlesTotal)
    (h : (machine A).Reachable s) (hexiting : s.exiting = true) (hjoined : s.joined = false) :
    (∃ s', (quietly A).Leads s s' ∧ s'.joined = true) ↔
      s.entered = true ∧ s.system.loop.quit = true ∧ ¬ s.system.SelfQueued := by
  constructor
  · rintro ⟨s', hleads, hafter⟩
    by_contra hnot
    have hunfinished (t : Lifetime σ φ ε) (ht : (quietly A).Leads s t) : t.finished = false := by
      rw [Bool.eq_false_iff]
      exact fun hfinished => hnot (heeded_of_finished h ht hfinished)
    rw [unjoined_of_unfinished hjoined hunfinished hleads] at hafter
    cases hafter
  · rintro ⟨hentered, hquit, hself⟩
    obtain ⟨t, hleads, hout, -⟩ := finishes_of_heeded hA hH h hentered hquit hself
    have hjoin {u : System σ φ ε} (hu : (quietly A).Leads s (s.setSystem u))
        (hpc : u.pc = .outside) (hidle : u.calls s.ownerTid = .idle) :
        ∃ s', (quietly A).Leads s s' ∧ s'.joined = true := by
      refine ⟨{ s.setSystem u with joined := true },
        hu.step (a := .join) (Machine.restrict_next.mpr ⟨rfl, ?_⟩), rfl⟩
      change (s.setSystem u).next A .join = _
      have hready : (s.setSystem u).exiting = true ∧
          ((s.setSystem u).system.calls (s.setSystem u).ownerTid).isIdle = true ∧
          (s.setSystem u).finished = true ∧ (s.setSystem u).joined = false :=
        ⟨hexiting, CallPc.isIdle_iff.mpr hidle, finished_iff.mpr ⟨hpc, hentered⟩, hjoined⟩
      simp only [next]
      rw [if_pos hready]
    have hreachable : (machine A).Reachable (s.setSystem t) := hleads.of_restrict.reachable h
    rcases ((consistent hreachable).owner hexiting).2 with hidle | hquitting
    · exact hjoin hleads hout hidle
    · have hstep : t.advance s.ownerTid =
          some { t.setCall s.ownerTid .idle with loop := t.loop.wakeup } := by
        simp only [System.advance]
        rw [show t.calls s.ownerTid = .quitting from hquitting]
      refine hjoin (u := { t.setCall s.ownerTid .idle with loop := t.loop.wakeup }) ?_ hout ?_
      · refine hleads.step (a := .advance s.ownerTid) (Machine.restrict_next.mpr ⟨rfl, ?_⟩)
        exact Option.map_eq_some_iff.mpr ⟨_, hstep, rfl⟩
      · simp

/-- The destructor has stored `true` in `quit_` and has yet to call `wakeup`. -/
def InQuit (s : Lifetime σ φ ε) : Prop :=
  s.exiting = true ∧ s.system.calls s.ownerTid = .quitting

instance (s : Lifetime σ φ ε) : Decidable s.InQuit :=
  decidable_of_iff (s.exiting = true ∧ s.system.calls s.ownerTid matches .quitting) <| by
    unfold InQuit
    cases s.system.calls s.ownerTid <;> simp

/-- The destructor calls `wakeup` on its loop without knowing whether `loop` has returned and
the loop, which is local to the thread, is gone. From every state between its two
statements that can happen, with no other call of `quit`, if and only if the destructor
can return. -/
theorem late_wakeup_iff [Inhabited ι] (hA : A.Total) (hH : A.HandlesTotal)
    (h : (machine A).Reachable s) (hinQuit : s.InQuit) :
    (∃ s', (quietly A).Leads s s' ∧ s'.finished = true ∧ s'.InQuit) ↔
      s.entered = true ∧ s.system.loop.quit = true ∧ ¬ s.system.SelfQueued := by
  obtain ⟨hexiting, hquitting⟩ := hinQuit
  constructor
  · rintro ⟨s', hleads, hfinished, -⟩
    exact heeded_of_finished h hleads hfinished
  · rintro ⟨hentered, hquit, hself⟩
    obtain ⟨t, hleads, -, hfinished, hkeeps⟩ := finishes_of_heeded hA hH h hentered hquit hself
    exact ⟨s.setSystem t, hleads, hfinished, hexiting, hkeeps _ hquitting⟩

section Example

/-- The object is destroyed while its loop polls and thread `2` waits in `queueInLoop`. -/
theorem destructor_returns_example : ∃ s s' : Lifetime Unit Unit Unit,
    s.system.pc = .polling ∧ s.exiting = true ∧ (quietly idleApp).Leads s s' ∧
      s'.joined = true := by
  obtain ⟨s, hs, hp⟩ := Machine.exists_reach (M := machine idleApp) (fun _ _ => True)
    initial_fresh
    (startingUp ++ [.enterLoop, .loop .test, .call 2 (.queueInLoop ()), .destroy])
    (fun s => decide (s.system.pc = .polling ∧ s.exiting = true ∧ s.joined = false ∧
      s.entered = true ∧ s.system.loop.quit = true)) (by decide +kernel)
  obtain ⟨hpc, hexiting, hjoined, hentered, hquit⟩ := of_decide_eq_true hp
  have hself : ¬ s.system.SelfQueued := by
    rintro ⟨hbatch, -⟩
    rw [hpc] at hbatch
    cases hbatch
  obtain ⟨s', hleads, hdone⟩ := (destructor_returns_iff (fun _ _ => ⟨(), (), rfl⟩)
    (fun _ _ => ⟨(), (), rfl⟩) hs hexiting hjoined).mpr ⟨hentered, hquit, hself⟩
  exact ⟨s, s', hpc, hexiting, hleads, hdone⟩

/-- The same state is one in which the `wakeup` may come after the end of the loop. -/
theorem late_wakeup_example : ∃ s s' : Lifetime Unit Unit Unit,
    s.system.pc = .polling ∧ (quietly idleApp).Leads s s' ∧ s'.finished = true ∧ s'.InQuit := by
  obtain ⟨s, hs, hp⟩ := Machine.exists_reach (M := machine idleApp) (fun _ _ => True)
    initial_fresh
    (startingUp ++ [.enterLoop, .loop .test, .call 2 (.queueInLoop ()), .destroy])
    (fun s => decide (s.system.pc = .polling ∧ s.InQuit ∧
      s.entered = true ∧ s.system.loop.quit = true)) (by decide +kernel)
  obtain ⟨hpc, hinQuit, hentered, hquit⟩ := of_decide_eq_true hp
  have hself : ¬ s.system.SelfQueued := by
    rintro ⟨hbatch, -⟩
    rw [hpc] at hbatch
    cases hbatch
  obtain ⟨s', hleads, hdone⟩ := (late_wakeup_iff (fun _ _ => ⟨(), (), rfl⟩)
    (fun _ _ => ⟨(), (), rfl⟩) hs hinQuit).mpr ⟨hentered, hquit, hself⟩
  exact ⟨s, s', hpc, hleads, hdone⟩

end Example

end Lifetime

end Yatwb
