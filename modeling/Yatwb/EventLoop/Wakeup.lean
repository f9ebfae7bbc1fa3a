import Yatwb.EventLoop.FunctorQueue

/-!
# No lost wake-up

`queueInLoop` omits the wake-up event in one phase: when the loop's own thread
calls it from a channel callback, since `doPendingFunctors` follows in the same
iteration. The invariant therefore depends on where the loop is. While the
loop is outside its iteration or on its way into `poll`, pending functors imply
that the event is already written or that a thread stands right before writing
it. Between the lock and the unlock of `doPendingFunctors` nothing is pending.
In the phases in between nothing needs to hold.

The calls of the loop's own thread are those from channel callbacks and
functors, that is, made after `loop` was entered.
-/

namespace Yatwb

open Foundation

/-- The points from which the next `poll` comes before the next `doPendingFunctors`. -/
def LoopPc.atRest {φ ε : Type} : LoopPc φ ε → Bool
  | outside => true
  | testing => true
  | polling => true
  | _ => false

namespace System

variable {σ φ ε ι : Type} {A : App σ φ ε ι} {s s' : System σ φ ε} {a : Action φ ε ι}

/-- The loop's own thread hands functors over only after `loop` was entered. -/
def InsideLoop (s : System σ φ ε) : Action φ ε ι → Prop
  | .runInLoop tid _ _ => tid = s.loop.threadId → s.pc ≠ .outside
  | .queueInLoop tid _ => tid = s.loop.threadId → s.pc ≠ .outside
  | _ => True

/-- A thread other than the loop's has pushed a functor and is about to write the event. -/
def SomePushed (s : System σ φ ε) : Prop :=
  ∃ tid, tid ≠ s.loop.threadId ∧ s.calls tid = .pushed

structure Awake (s : System σ φ ε) : Prop where
  ownIdle : s.pc.runsUserCode = false ∨ s.pc = .outside → s.calls s.loop.threadId = .idle
  drained : s.pc.holdsMutex = true → s.loop.pendingFunctors = []
  written : s.pc.atRest = true → s.loop.pendingFunctors ≠ [] →
    0 < s.loop.wakeupFd ∨ s.SomePushed

theorem Initial.awake (h : Initial A s) : Awake s := by
  constructor
  · intro _
    exact h.calls s.loop.threadId
  · intro _
    exact h.pendingFunctors
  · intro _ hne
    exact absurd h.pendingFunctors hne

/-- The loop's own thread is idle while the loop is at rest. -/
theorem Awake.ownIdle_of_atRest (h : Awake s) (hpc : s.pc.atRest = true) :
    s.calls s.loop.threadId = .idle := by
  apply h.ownIdle
  cases hs : s.pc <;> simp_all [LoopPc.atRest, LoopPc.runsUserCode]

/-- Another call that moves on does not hide the thread about to write. -/
theorem SomePushed.setCall (h : s.SomePushed) {tid : ThreadId} {pc : CallPc φ}
    (hat : s.calls tid ≠ .pushed) (hcalls : s'.calls = (s.setCall tid pc).calls)
    (htid : s'.loop.threadId = s.loop.threadId) : s'.SomePushed := by
  obtain ⟨t, ht, hpushed⟩ := h
  refine ⟨t, htid ▸ ht, ?_⟩
  have hne : t ≠ tid := by
    rintro rfl
    exact hat hpushed
  rw [hcalls, setCall_calls, if_neg hne, hpushed]

/-- A call that moves on without pushing, outside the write of the event. -/
theorem Awake.setCall (h : Awake s) (tid : ThreadId) (pc : CallPc φ)
    (hat : s.calls tid ≠ .pushed) (hcalls : s'.calls = (s.setCall tid pc).calls)
    (htid : s'.loop.threadId = s.loop.threadId) (hpc : s'.pc = s.pc)
    (hpending : s'.loop.pendingFunctors = s.loop.pendingFunctors)
    (hwakeup : 0 < s.loop.wakeupFd → 0 < s'.loop.wakeupFd)
    (hown : tid = s.loop.threadId → pc = .idle ∨ ¬ (s.pc.runsUserCode = false ∨ s.pc = .outside)) :
    Awake s' := by
  constructor
  · intro hrest
    rw [hpc] at hrest
    rw [htid, hcalls, setCall_calls]
    split
    · rename_i heq
      exact (hown heq.symm).resolve_right fun hno => hno hrest
    · exact h.ownIdle hrest
  · rw [hpc, hpending]
    exact h.drained
  · rw [hpc, hpending]
    intro hrest hne
    exact (h.written hrest hne).imp hwakeup fun hsome => hsome.setCall hat hcalls htid

/-- The thread of the loop moves on without touching the functors. -/
theorem Awake.movePc (h : Awake s) (hready : s.calls s.loop.threadId = .idle)
    (hcalls : s'.calls = s.calls) (htid : s'.loop.threadId = s.loop.threadId)
    (hpending : s'.loop.pendingFunctors = s.loop.pendingFunctors)
    (hwakeup : s'.pc.atRest = true → s'.loop.wakeupFd = s.loop.wakeupFd)
    (hheld : s'.pc.holdsMutex = true → s.pc.holdsMutex = true)
    (hrest : s'.pc.atRest = true → s.pc.atRest = true ∨ s.pc.holdsMutex = true) : Awake s' := by
  constructor
  · intro _
    rw [hcalls, htid]
    exact hready
  · rw [hpending]
    exact fun hpc => h.drained (hheld hpc)
  · rw [hpending]
    intro hpc hne
    rcases hrest hpc with hpc' | hpc'
    · rw [hwakeup hpc, SomePushed, hcalls, htid]
      exact h.written hpc' hne
    · exact absurd (h.drained hpc') hne

theorem insideLoop_of_hands {p : Posted φ} (hands : a.Hands p) (h : InsideLoop s a)
    (hcaller : p.caller = s.loop.threadId) : s.pc ≠ .outside := by
  cases a with
  | runInLoop tid cb answers =>
      obtain rfl : p = ⟨cb, tid, true⟩ := hands
      exact h hcaller
  | queueInLoop tid cb =>
      obtain rfl : p = ⟨cb, tid, false⟩ := hands
      exact h hcaller
  | quit tid => exact hands.elim
  | advance tid => exact hands.elim
  | enterLoop tid => exact hands.elim
  | loop l => exact hands.elim

/-- A thread that may call and runs the loop is in a callback, a functor, or outside `loop`. -/
theorem runsUserCode_of_mayCall {tid : ThreadId} (h : s.mayCall tid = true)
    (htid : tid = s.loop.threadId) : s.pc.runsUserCode = true := by
  simpa [mayCall, EventLoop.isInLoopThread, htid] using (Bool.and_eq_true_iff.mp h).2

/-- A `push_back` leaves its thread right before the wake-up event. -/
theorem Awake.push (h : Awake s) (hx : Exclusive s) {tid : ThreadId} {p : Posted φ}
    (hat : s.calls tid = .locked p) :
    Awake { s.setCall tid .pushed with
      loop := s.loop.pushBack p
      queued := s.queued ++ [p] } := by
  have howner := hx.critical tid (by rw [hat]; rfl)
  have hnotOwn : s.pc.runsUserCode = false ∨ s.pc = .outside → tid ≠ s.loop.threadId := by
    rintro hpc rfl
    rw [h.ownIdle hpc] at hat
    cases hat
  constructor
  · intro hpc
    have hne : s.loop.threadId ≠ tid := Ne.symm (hnotOwn hpc)
    have hidle := h.ownIdle hpc
    simpa [EventLoop.pushBack, hne] using hidle
  · intro hpc
    obtain ⟨hmutex, hcritical⟩ := hx.batch hpc
    rw [hmutex] at howner
    rw [Option.some.inj howner, hat] at hcritical
    cases hcritical
  · intro hpc _
    right
    have hidle := h.ownIdle_of_atRest hpc
    refine ⟨tid, ?_, by simp⟩
    rintro heq
    have heq' : tid = s.loop.threadId := heq
    rw [← heq', hat] at hidle
    cases hidle

/-- The write of the wake-up event. -/
theorem Awake.wake (h : Awake s) {tid : ThreadId} (hat : s.calls tid = .pushed) :
    Awake { s.setCall tid .leaving with loop := s.loop.wakeupIfNeeded tid } := by
  constructor
  · intro hpc
    have hidle := h.ownIdle hpc
    have hne : s.loop.threadId ≠ tid := by
      rintro rfl
      rw [hidle] at hat
      cases hat
    simpa [hne] using hidle
  · intro hpc
    simpa using h.drained hpc
  · intro hpc _
    left
    have hidle := h.ownIdle_of_atRest hpc
    have hne : tid ≠ s.loop.threadId := by
      rintro rfl
      rw [hidle] at hat
      cases hat
    simp only [EventLoop.wakeupIfNeeded_of_ne hne]
    exact EventLoop.wakeup_pos s.loop

/-- The step lemma. -/
theorem Awake.step (h : Awake s) (hx : Exclusive s) (hguard : InsideLoop s a)
    (he : Effect A s a s') : Awake s' := by
  have hown (hready : s.calls s.runner = .idle) (hpc : s.pc ≠ .outside) :
      s.calls s.loop.threadId = .idle := by
    rw [← hx.runner hpc]
    exact hready
  cases he with
  | executeNow tid cb app app' answers hmay hcall hin hexec =>
      exact ⟨h.ownIdle, h.drained, h.written⟩
  | issue p app hands hmay hcall hroute =>
      refine h.setCall p.caller (.entering p) (by simp [idle_of_mayCall hmay]) rfl rfl rfl rfl id ?_
      intro hcaller
      have huser := runsUserCode_of_mayCall hmay hcaller
      have hinside := insideLoop_of_hands hands hguard hcaller
      right
      simp [huser, hinside]
  | quit tid pc hmay hpc =>
      refine h.setCall tid pc (by simp [idle_of_mayCall hmay]) rfl rfl rfl rfl id ?_
      intro htid
      left
      rcases hpc with rfl | ⟨-, hne⟩
      · rfl
      · exact absurd htid hne
  | acquire tid p hat hfree =>
      refine h.setCall tid (.locked p) (by simp [hat]) rfl rfl rfl rfl id ?_
      rintro rfl
      right
      intro hpc
      rw [h.ownIdle hpc] at hat
      cases hat
  | push tid p hat => exact h.push hx hat
  | wake tid hat => exact h.wake hat
  | unlock tid hat =>
      exact h.setCall tid .idle (by simp [hat]) rfl rfl rfl rfl id fun _ => Or.inl rfl
  | quitWake tid hat =>
      exact h.setCall tid .idle (by simp [hat]) rfl rfl rfl rfl
        (fun _ => EventLoop.wakeup_pos s.loop) fun _ => Or.inl rfl
  | enterLoop tid hmay hpc hin =>
      have hready : s.calls s.loop.threadId = .idle := h.ownIdle (Or.inr hpc)
      exact h.movePc hready rfl rfl rfl (fun _ => rfl) (fun hheld => nomatch hheld)
        fun _ => Or.inl (by rw [hpc]; rfl)
  | leaveLoop hready hpc =>
      exact h.movePc (hown hready (by simp [hpc])) rfl rfl rfl (fun _ => rfl)
        (fun hheld => nomatch hheld) fun _ => Or.inl (by rw [hpc]; rfl)
  | poll hready hpc =>
      exact h.movePc (hown hready (by simp [hpc])) rfl rfl rfl (fun _ => rfl)
        (fun hheld => nomatch hheld) fun _ => Or.inl (by rw [hpc]; rfl)
  | pollReturn active hready hpc =>
      exact h.movePc (hown hready (by simp [hpc])) rfl rfl rfl (fun _ => rfl)
        (fun hheld => nomatch hheld) fun hrest => nomatch hrest
  | handleRead rest hready hpc =>
      exact h.movePc (hown hready (by simp [hpc])) rfl rfl rfl (fun hrest => nomatch hrest)
        (fun hheld => nomatch hheld) fun hrest => nomatch hrest
  | callback e rest app answers hready hpc hhandle =>
      exact h.movePc (hown hready (by simp [hpc])) rfl rfl rfl (fun _ => rfl)
        (fun hheld => nomatch hheld) fun hrest => nomatch hrest
  | endCallback rest hready hpc =>
      exact h.movePc (hown hready (by simp [hpc])) rfl rfl rfl (fun _ => rfl)
        (fun hheld => nomatch hheld) fun hrest => nomatch hrest
  | doPendingFunctors hready hpc =>
      exact h.movePc (hown hready (by simp [hpc])) rfl rfl rfl (fun _ => rfl)
        (fun hheld => nomatch hheld) fun hrest => nomatch hrest
  | swap hready hpc hfree =>
      exact ⟨fun _ => hown hready (by simp [hpc]), fun _ => rfl, fun hrest => nomatch hrest⟩
  | functor p rest app answers hready hpc hexec =>
      exact h.movePc (hown hready (by simp [hpc])) rfl rfl rfl (fun _ => rfl)
        (fun _ => by rw [hpc]; rfl) fun hrest => nomatch hrest
  | endFunctor rest hready hpc =>
      exact h.movePc (hown hready (by simp [hpc])) rfl rfl rfl (fun _ => rfl)
        (fun _ => by rw [hpc]; rfl) fun hrest => nomatch hrest
  | finish hready hpc =>
      exact h.movePc (hown hready (by simp [hpc])) rfl rfl rfl (fun _ => rfl)
        (fun _ => by rw [hpc]; rfl) fun hrest => nomatch hrest
  | release hready hpc =>
      exact h.movePc (hown hready (by simp [hpc])) rfl rfl rfl (fun _ => rfl)
        (fun hheld => nomatch hheld) fun _ => Or.inr (by rw [hpc]; rfl)

/-- The run lemma. -/
theorem awake (h : (machine A).Reach InsideLoop s) : Awake s := by
  induction h with
  | init h => exact h.awake
  | step run ok hnext ih => exact ih.step (exclusive run.reachable) ok (next_effect hnext)

/-- The loop enters `Poller::poll` with functors pending. -/
structure PollsWithPending (A : App σ φ ε ι) (s s' : System σ φ ε) : Prop where
  enters : next A s (.loop .test) = some s'
  polling : s'.pc = .polling
  pending : s'.loop.pendingFunctors ≠ []

/-- When the loop enters `poll` with functors pending, the wake-up event is
written, or another thread is inside `queueInLoop` right before writing it and
its next statement, which nothing can block, writes it. -/
theorem poll_wakes_for_pending (h : (machine A).Reach InsideLoop s)
    (hp : PollsWithPending A s s') :
    0 < s'.loop.wakeupFd ∨ ∃ tid, tid ≠ s'.loop.threadId ∧ s'.calls tid = .pushed ∧
      s'.loop.mutex = some tid ∧
      ∃ s'', s'.advance tid = some s'' ∧ 0 < s''.loop.wakeupFd := by
  have hguard : InsideLoop s (.loop .test : Action φ ε ι) := trivial
  have hreach : (machine A).Reach InsideLoop s' := .step h hguard hp.enters
  have hrest : s'.pc.atRest = true := by
    rw [hp.polling]
    rfl
  rcases (awake hreach).written hrest hp.pending with hpos | ⟨tid, hne, hat⟩
  · exact Or.inl hpos
  · right
    refine ⟨tid, hne, hat, (exclusive hreach.reachable).critical tid (by rw [hat]; rfl), ?_⟩
    refine ⟨_, by simp only [advance, hat]; rfl, ?_⟩
    simp only [EventLoop.wakeupIfNeeded_of_ne hne]
    exact EventLoop.wakeup_pos s'.loop

section Example

instance (s : System Unit Nat Unit) : ∀ a : Action Nat Unit Unit, Decidable (InsideLoop s a)
  | .runInLoop tid _ _ => inferInstanceAs (Decidable (tid = s.loop.threadId → s.pc ≠ .outside))
  | .queueInLoop tid _ => inferInstanceAs (Decidable (tid = s.loop.threadId → s.pc ≠ .outside))
  | .quit _ | .advance _ | .enterLoop _ | .loop _ => isTrue trivial

/-- Thread `1` has pushed its functor and has not written the event when the
loop tests `quit_`. -/
def pushedNotWritten : List (Action Nat Unit Unit) :=
  [.enterLoop 0, .queueInLoop 1 7, .advance 1, .advance 1]

/-- The loop can then enter `poll` with a functor pending and the counter at zero. -/
theorem poll_with_counter_zero :
    plainStart.loop.callingPendingFunctors = false ∧
      ∃ s s', (machine plainApp).Reach InsideLoop s ∧ PollsWithPending plainApp s s' ∧
        ¬ 0 < s'.loop.wakeupFd := by
  refine ⟨rfl, ?_⟩
  obtain ⟨s, hs, hp⟩ := Machine.exists_reach (M := machine plainApp) InsideLoop
    plainStart_initial pushedNotWritten
    (fun s => (next plainApp s (.loop .test)).any fun s' : System Unit Nat Unit =>
      decide (s'.pc = .polling) && !s'.loop.pendingFunctors.isEmpty && s'.loop.wakeupFd == 0)
    (by decide +kernel)
  obtain ⟨s', hnext, hp⟩ := (Option.any_eq_true _ _).mp hp
  simp only [Bool.and_eq_true, decide_eq_true_eq, Bool.not_eq_true', List.isEmpty_eq_false_iff,
    beq_iff_eq] at hp
  exact ⟨s, s', hs, ⟨hnext, hp.1.1, hp.1.2⟩, by simp [hp.2]⟩

/-- Thread `1` has written the event when the loop tests `quit_`. -/
def pushedAndWritten : List (Action Nat Unit Unit) := pushedNotWritten ++ [.advance 1]

theorem poll_wakes_for_pending_example :
    ∃ s s', (machine plainApp).Reach InsideLoop s ∧ PollsWithPending plainApp s s' ∧
      0 < s'.loop.wakeupFd := by
  obtain ⟨s, hs, hp⟩ := Machine.exists_reach (M := machine plainApp) InsideLoop
    plainStart_initial pushedAndWritten
    (fun s => (next plainApp s (.loop .test)).any fun s' : System Unit Nat Unit =>
      decide (s'.pc = .polling) && !s'.loop.pendingFunctors.isEmpty && s'.loop.mutex == some 1 &&
        decide (s'.calls 1 = .leaving))
    (by decide +kernel)
  obtain ⟨s', hnext, hp⟩ := (Option.any_eq_true _ _).mp hp
  simp only [Bool.and_eq_true, decide_eq_true_eq, Bool.not_eq_true', List.isEmpty_eq_false_iff,
    beq_iff_eq] at hp
  obtain ⟨⟨⟨hpc, hpending⟩, hmutex⟩, hat⟩ := hp
  refine ⟨s, s', hs, ⟨hnext, hpc, hpending⟩, ?_⟩
  rcases poll_wakes_for_pending hs ⟨hnext, hpc, hpending⟩ with hpos | ⟨tid, -, hpushed, howner, -⟩
  · exact hpos
  · rw [hmutex] at howner
    rw [← Option.some.inj howner, hat] at hpushed
    cases hpushed

end Example

end System

end Yatwb
