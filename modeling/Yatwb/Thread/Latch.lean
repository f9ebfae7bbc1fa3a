import Yatwb.Foundation.Condition
import Yatwb.Thread.Model

/-!
# A latch and any number of threads

`CountDownLatch` of `count_down_latch.cpp` when any threads call `wait` and
`countDown` as often as they like. `Thread` uses a latch with one thread on each
side; the steps of that latch are steps of this one.

## Implementation notes

`count_` is an integer. As an `int` it overflows only in a run that decrements it
more than `2 ^ 31` times beyond its initial value.
-/

namespace Yatwb

open Foundation

namespace CountDownLatch

/-- `wait` returns unless `count_ > 0`; `countDown` decrements, and notifies all at zero. -/
def protocol : Protocol Int where
  ready count := !decide (0 < count)
  change count := count - 1
  notifies count := count == 0

theorem protocol_sound : protocol.Sound where
  stable count hready := by
    simp only [protocol, Bool.not_eq_true', decide_eq_false_iff_not] at hready ⊢
    omega
  announced count hnot hready := by
    simp only [protocol, Bool.not_eq_true', Bool.not_eq_false', decide_eq_true_eq,
      decide_eq_false_iff_not, beq_iff_eq] at hnot hready ⊢
    omega

variable {τ : Type} {count : Int} {m m' : Condition τ Int}

theorem change_iterate (n : Nat) (count : Int) : protocol.change^[n] count = count - n := by
  induction n with
  | zero => simp
  | succ n ih =>
      rw [Function.iterate_succ_apply', ih]
      simp only [protocol]
      omega

section

variable [DecidableEq τ]

/-- The runs of a latch. -/
def shared (count : Int) : Machine (Condition τ Int) (Condition.Action τ) :=
  Condition.machine protocol count

omit [DecidableEq τ] in
theorem ready_iff (h : m.Inv protocol count) :
    protocol.ready m.value = true ↔ count ≤ m.changes := by
  rw [h.value_eq, change_iterate]
  simp only [protocol, Bool.not_eq_true', decide_eq_false_iff_not]
  omega

/-- However the calls of `wait` and `countDown` interleave, `wait` returns only
after the last `countDown` that was to be waited for, and no thread sleeps after
it unless the thread that holds `mutex_` is about to notify all. -/
theorem waits_for_the_count (h : (shared count).Reachable m) :
    m.value = count - m.changes ∧
      (∀ t, m.pc t = .passed → count ≤ m.changes) ∧
      ∀ t, m.pc t = .blocked → count ≤ m.changes → ∃ t' m', m.mutex = some t' ∧
        m.step protocol t' = some m' ∧ ∀ t, m'.pc t ≠ .blocked := by
  have hinv := Condition.inv_of_reach protocol_sound h
  refine ⟨?_, ?_, ?_⟩
  · rw [hinv.value_eq, change_iterate]
  · intro t ht
    exact (ready_iff hinv).mp (hinv.passed t ht)
  · intro t ht hcount
    obtain ⟨t', hnotifying, hnotifies⟩ := hinv.heard t ht ((ready_iff hinv).mpr hcount)
    refine ⟨t', m.notifyAll.move t' .unlocking, ?_, ?_, ?_⟩
    · rw [hinv.exclusive, hnotifying]
      rfl
    · simp [Condition.step, hnotifying, hnotifies]
    · intro t₁
      by_cases hne : t₁ = t'
      · subst hne
        simp
      · rw [Condition.move_pc_of_ne _ hne]
        exact Visit.notified_ne_blocked _

/-- Once the count is reached, the calls that are under way take at most four
statements for each thread, and the run stops only when all of them have returned. -/
theorem calls_return_after_count [Fintype τ] (h : (shared count).Reachable m)
    (hcount : count ≤ m.changes) {as : List (Condition.Action τ)}
    (hruns : (shared count).runs (fun _ a => a.Continues) m as = some m') :
    as.length ≤ 4 * Fintype.card τ ∧
      ((∀ t, m'.step protocol t = none) → ∀ t, m'.pc t = .idle) := by
  have hinv := Condition.inv_of_reach protocol_sound h
  obtain ⟨hwork, hprogress⟩ :=
    Condition.calls_return protocol_sound hinv ((ready_iff hinv).mpr hcount) hruns
  constructor
  · have hle := m.work_le
    omega
  · intro hstuck t
    by_contra hbusy
    obtain ⟨t', ht'⟩ := hprogress t hbusy
    rw [hstuck t'] at ht'
    cases ht'

end

section Example

/-- Two threads wait for two others. The first waiter is blocked before the first
`countDown` and wakes up once for nothing; the second one comes after the first. -/
def exampleCalls : List (Condition.Action (Fin 4)) :=
  [.wait 0, .step 0, .step 0, .change 2, .step 2, .wakeSpuriously 0, .step 2, .step 2, .step 2,
    .wait 1, .step 1, .step 1, .step 0, .step 0, .change 3, .step 3, .step 3]

def exampleRest : List (Condition.Action (Fin 4)) :=
  [.step 3, .step 3, .step 1, .step 1, .step 1, .step 0, .step 0, .step 0]

theorem reach_example : ∃ m : Condition (Fin 4) Int, (shared 2).Reachable m ∧
    m.pc 0 = .blocked ∧ m.changes = 2 ∧
      ∃ m', (shared 2).runs (fun _ a => a.Continues) m exampleRest = some m' ∧
        ∀ t, m'.step protocol t = none := by
  obtain ⟨m, hm, hp⟩ := Machine.exists_reach (M := shared (τ := Fin 4) 2) (fun _ _ => True) rfl
    exampleCalls (fun m => m.pc 0 = .blocked ∧ m.changes = 2 ∧
      ((shared 2).runs (fun _ a => a.Continues) m exampleRest).any fun m' =>
        decide (∀ t, (m'.step protocol t).isNone)) (by decide +kernel)
  obtain ⟨hblocked, hchanges, hrest⟩ := of_decide_eq_true hp
  obtain ⟨m', hm', hstuck⟩ := (Option.any_eq_true _ _).mp hrest
  exact ⟨m, hm, hblocked, hchanges, m', hm', fun t =>
    Option.isNone_iff_eq_none.mp (of_decide_eq_true hstuck t)⟩

theorem example_waits_for_the_count : ∃ m : Condition (Fin 4) Int, m.pc 0 = .blocked ∧
    ∃ t' m', m.step protocol t' = some m' ∧ ∀ t, m'.pc t ≠ .blocked := by
  obtain ⟨m, hm, hblocked, hchanges, -⟩ := reach_example
  obtain ⟨t', m', -, hstep, hwoken⟩ := (waits_for_the_count hm).2.2 0 hblocked (by simp [hchanges])
  exact ⟨m, hblocked, t', m', hstep, hwoken⟩

theorem example_calls_return : ∃ m m' : Condition (Fin 4) Int, m.pc 0 = .blocked ∧
    (shared 2).runs (fun _ a => a.Continues) m exampleRest = some m' ∧ ∀ t, m'.pc t = .idle := by
  obtain ⟨m, hm, hblocked, hchanges, m', hruns, hstuck⟩ := reach_example
  obtain ⟨-, hidle⟩ := calls_return_after_count hm (by simp [hchanges]) hruns
  exact ⟨m, m', hblocked, hruns, hidle hstuck⟩

end Example

/-! ### The latch of a thread -/

/-- Where the thread that calls `Thread::start` is in the latch. -/
def visitWaiter : Waiter → Visit
  | .away | .gone => .idle
  | .locking => .waitLocking
  | .testing => .testing
  | .blocked => .blocked
  | .woken => .woken
  | .inside => .passed

/-- Where the new thread is in the latch. -/
def visitSignaller : Signaller → Visit
  | .away | .gone => .idle
  | .locking => .changeLocking
  | .changing => .changing
  | .notifying => .notifying
  | .unlocking => .unlocking

/-- The latch of a thread as a latch of two threads. -/
def ofThread (latch : CountDownLatch) : Condition Holder Int where
  value := latch.value
  mutex := latch.mutex
  pc
    | .waiter => visitWaiter latch.waiter
    | .signaller => visitSignaller latch.signaller
  changes := if latch.signaller.changed then 1 else 0

variable {latch latch' : CountDownLatch}

theorem ofThread_ext {m : Condition Holder Int} (hvalue : m.value = latch.value)
    (hmutex : m.mutex = latch.mutex) (hwaiter : m.pc .waiter = visitWaiter latch.waiter)
    (hsignaller : m.pc .signaller = visitSignaller latch.signaller)
    (hchanges : m.changes = if latch.signaller.changed then 1 else 0) : m = ofThread latch := by
  cases m
  simp only [ofThread, Condition.mk.injEq]
  refine ⟨hvalue, hmutex, ?_, hchanges⟩
  funext holder
  cases holder with
  | waiter => exact hwaiter
  | signaller => exact hsignaller

@[simp] theorem pc_ofThread_waiter (latch : CountDownLatch) :
    (ofThread latch).pc .waiter = visitWaiter latch.waiter := rfl

@[simp] theorem pc_ofThread_signaller (latch : CountDownLatch) :
    (ofThread latch).pc .signaller = visitSignaller latch.signaller := rfl

/-- `wait` of `Thread::start` is a `wait` of the latch. -/
theorem wait_ofThread (h : latch.wait = some latch') :
    (ofThread latch).step protocol .waiter = some (ofThread latch') := by
  have hother (x : Visit) :
      ((ofThread latch).move .waiter x).pc .signaller = visitSignaller latch.signaller :=
    Condition.move_pc_of_ne _ (by decide) x
  have hself (x : Visit) : ((ofThread latch).move .waiter x).pc .waiter = x :=
    Condition.move_pc_self _ _ x
  unfold Condition.step
  rw [pc_ofThread_waiter]
  rcases Monitor.wait_cases h with ⟨hfree, hw | hw, rfl⟩ | ⟨hw, hready, rfl⟩ |
    ⟨hw, hready, rfl⟩ | ⟨hw, rfl⟩
  · rw [hw, show (ofThread latch).mutex = none from hfree]
    exact congrArg some (ofThread_ext rfl rfl (hself .testing) (hother .testing) rfl)
  · rw [hw, show (ofThread latch).mutex = none from hfree]
    exact congrArg some (ofThread_ext rfl rfl (hself .testing) (hother .testing) rfl)
  · rw [hw]
    exact (if_pos hready).trans
      (congrArg some (ofThread_ext rfl rfl (hself .passed) (hother .passed) rfl))
  · rw [hw]
    exact (if_neg (Bool.eq_false_iff.mp hready)).trans
      (congrArg some (ofThread_ext rfl rfl (hself .blocked) (hother .blocked) rfl))
  · rw [hw]
    exact congrArg some (ofThread_ext rfl rfl (hself .idle) (hother .idle) rfl)

theorem visitWaiter_notified (x : Waiter) : visitWaiter x.notified = (visitWaiter x).notified := by
  cases x <;> rfl

/-- `countDown` of `runInThread` is a `countDown` of the latch. -/
theorem countDown_ofThread (h : latch.countDown = some latch') :
    (ofThread latch).step protocol .signaller = some (ofThread latch') := by
  have hother (m : Condition Holder Int) (x : Visit) :
      (m.move .signaller x).pc .waiter = m.pc .waiter :=
    Condition.move_pc_of_ne m (by decide) x
  have hself (m : Condition Holder Int) (x : Visit) : (m.move .signaller x).pc .signaller = x :=
    Condition.move_pc_self m _ x
  unfold Condition.step
  rw [pc_ofThread_signaller]
  rcases Monitor.signal_cases h with ⟨hfree, hs, rfl⟩ | ⟨hs, rfl⟩ | ⟨hs, rfl⟩ | ⟨hs, rfl⟩
  · rw [hs, show (ofThread latch).mutex = none from hfree]
    exact congrArg some (ofThread_ext rfl rfl (hother (ofThread latch) .changing)
      (hself (ofThread latch) .changing) (by simp [ofThread, Condition.move, hs]; rfl))
  · rw [hs]
    exact congrArg some (ofThread_ext rfl rfl (hother (ofThread latch) .notifying)
      (hself (ofThread latch) .notifying) (by simp [ofThread, hs]; rfl))
  · rw [hs]
    cases hzero : latch.value == 0 with
    | true =>
        refine (if_pos hzero).trans (congrArg some (ofThread_ext rfl rfl ?_
          (hself (ofThread latch).notifyAll .unlocking) ?_))
        · rw [hother]
          simp only [if_pos]
          exact (visitWaiter_notified latch.waiter).symm
        · simp [ofThread, Condition.move, Condition.notifyAll, hs]; rfl
    | false =>
        refine (if_neg (Bool.eq_false_iff.mp hzero)).trans (congrArg some (ofThread_ext rfl rfl ?_
          (hself (ofThread latch) .unlocking) ?_))
        · rw [hother]
          rfl
        · simp [ofThread, Condition.move, hs]; rfl
  · rw [hs]
    exact congrArg some (ofThread_ext rfl rfl (hother (ofThread latch) .idle)
      (hself (ofThread latch) .idle) (by simp [ofThread, Condition.move, hs]; rfl))

end CountDownLatch

end Yatwb
