import Mathlib.Init

/-!
# Monitors

A value behind a mutex and a condition variable, used by one waiter and one
signaller. The waiter locks the mutex, waits until the value is ready, and
unlocks. The signaller locks the mutex, changes the value, notifies, and
unlocks. Each is at a program point, and a step executes the next statement
of one of them, if it does not have to wait for the mutex. A blocked waiter
may also wake up without a notification; it then tests the value again.

A value that becomes ready when the signaller changes it is never missed: the
waiter is blocked only before the change, or when the notification is the next
statement of the signaller.
-/

namespace Yatwb.Foundation

universe u

/-- Where the waiter is. It holds the mutex while it tests and when it has passed. -/
inductive Waiter
  | away
  | locking
  | testing
  | blocked
  | woken
  | inside
  | gone
  deriving DecidableEq, Repr

/-- Where the signaller is. -/
inductive Signaller
  | away
  | locking
  | changing
  | notifying
  | unlocking
  | gone
  deriving DecidableEq, Repr

/-- Whether a thread has begun with its part of a monitor, and whether it has ended. -/
inductive Stage
  | before
  | during
  | after
  deriving DecidableEq, Repr

inductive Holder
  | waiter
  | signaller
  deriving DecidableEq, Repr

namespace Waiter

def holds : Waiter → Bool
  | testing => true
  | inside => true
  | _ => false

/-- The test of the waiter has succeeded. -/
def passed : Waiter → Bool
  | inside => true
  | gone => true
  | _ => false

def stage : Waiter → Stage
  | away => .before
  | gone => .after
  | _ => .during

def notified : Waiter → Waiter
  | blocked => woken
  | w => w

@[simp] theorem holds_notified (w : Waiter) : w.notified.holds = w.holds := by
  cases w <;> rfl

@[simp] theorem stage_notified (w : Waiter) : w.notified.stage = w.stage := by
  cases w <;> rfl

theorem stage_eq_before {w : Waiter} : w.stage = .before ↔ w = away := by
  cases w <;> simp [stage]

theorem stage_eq_after {w : Waiter} : w.stage = .after ↔ w = gone := by
  cases w <;> simp [stage]

theorem stage_eq_during {w : Waiter} (hbegun : w.stage ≠ .before) (hgone : w ≠ gone) :
    w.stage = .during := by
  cases w <;> simp_all [stage]

theorem notified_ne_blocked (w : Waiter) : w.notified ≠ blocked := by
  cases w <;> nofun

end Waiter

namespace Signaller

def holds : Signaller → Bool
  | changing => true
  | notifying => true
  | unlocking => true
  | _ => false

/-- The value has been changed. -/
def changed : Signaller → Bool
  | notifying => true
  | unlocking => true
  | gone => true
  | _ => false

def stage : Signaller → Stage
  | away => .before
  | gone => .after
  | _ => .during

theorem stage_eq_before {x : Signaller} : x.stage = .before ↔ x = away := by
  cases x <;> simp [stage]

theorem stage_eq_after {x : Signaller} : x.stage = .after ↔ x = gone := by
  cases x <;> simp [stage]

theorem stage_eq_during {x : Signaller} (hbegun : x.stage ≠ .before) (hgone : x ≠ gone) :
    x.stage = .during := by
  cases x <;> simp_all [stage]

end Signaller

structure Monitor (α : Type u) where
  value : α
  mutex : Option Holder
  waiter : Waiter
  signaller : Signaller
  deriving DecidableEq, Repr

namespace Monitor

variable {α : Type u}

def new (value : α) : Monitor α := ⟨value, none, .away, .away⟩

def beginWait (m : Monitor α) : Monitor α := { m with waiter := .locking }

def beginSignal (m : Monitor α) : Monitor α := { m with signaller := .locking }

/-- The next statement of the waiter. -/
def wait (ready : α → Bool) (m : Monitor α) : Option (Monitor α) :=
  match m.waiter, m.mutex with
  | .locking, none => some { m with mutex := some .waiter, waiter := .testing }
  | .testing, _ =>
      if ready m.value then some { m with waiter := .inside }
      else some { m with mutex := none, waiter := .blocked }
  | .woken, none => some { m with mutex := some .waiter, waiter := .testing }
  | .inside, _ => some { m with mutex := none, waiter := .gone }
  | _, _ => none

/-- A blocked waiter wakes up without a notification. -/
def wakeSpuriously (m : Monitor α) : Option (Monitor α) :=
  match m.waiter with
  | .blocked => some { m with waiter := .woken }
  | _ => none

/-- The next statement of the signaller, which notifies if the new value says so. -/
def signal (change : α → α) (notifies : α → Bool) (m : Monitor α) : Option (Monitor α) :=
  match m.signaller, m.mutex with
  | .locking, none => some { m with mutex := some .signaller, signaller := .changing }
  | .changing, _ => some { m with value := change m.value, signaller := .notifying }
  | .notifying, _ => some { m with
      waiter := if notifies m.value then m.waiter.notified else m.waiter
      signaller := .unlocking }
  | .unlocking, _ => some { m with mutex := none, signaller := .gone }
  | _, _ => none

/-- The mutex is held by whom the program points say, the value is the one
before or after the change, the waiter has passed only after the change, and a
waiter that is blocked after the change is about to be notified. -/
structure Inv (before after : α) (m : Monitor α) : Prop where
  waiter_holds : m.mutex = some .waiter ↔ m.waiter.holds = true
  signaller_holds : m.mutex = some .signaller ↔ m.signaller.holds = true
  value_eq : m.value = if m.signaller.changed then after else before
  passed : m.waiter.passed = true → m.signaller.changed = true
  notified : m.waiter = .blocked → m.signaller.changed = true → m.signaller = .notifying

variable {ready notifies : α → Bool} {change : α → α} {before after : α} {m m' : Monitor α}

theorem inv_new (before after : α) : (new before).Inv before after :=
  ⟨by simp [new, Waiter.holds], by simp [new, Signaller.holds], rfl, nofun, nofun⟩

/-- The value that is to come does not matter before the change. -/
theorem Inv.retarget (h : m.Inv before after) (haway : m.signaller = .away) (after' : α) :
    m.Inv before after' := by
  have hvalue := h.value_eq
  rw [haway] at hvalue
  refine ⟨h.waiter_holds, h.signaller_holds, ?_, h.passed, h.notified⟩
  rw [haway]
  exact hvalue

theorem Inv.beginWait (h : m.Inv before after) (haway : m.waiter = .away) :
    m.beginWait.Inv before after := by
  refine ⟨?_, h.signaller_holds, h.value_eq, nofun, nofun⟩
  have hfree := h.waiter_holds
  rw [haway] at hfree
  exact hfree

theorem Inv.beginSignal (h : m.Inv before after) (haway : m.signaller = .away) :
    m.beginSignal.Inv before after := by
  have hfree := h.signaller_holds
  have hvalue := h.value_eq
  have hpassed := h.passed
  rw [haway] at hfree hvalue hpassed
  exact ⟨h.waiter_holds, hfree, hvalue, hpassed, nofun⟩

/-- Everything a statement of the waiter can do. -/
theorem wait_cases (h : m.wait ready = some m') :
    (m.mutex = none ∧ (m.waiter = .locking ∨ m.waiter = .woken) ∧
      m' = { m with mutex := some .waiter, waiter := .testing }) ∨
    (m.waiter = .testing ∧ ready m.value = true ∧ m' = { m with waiter := .inside }) ∨
    (m.waiter = .testing ∧ ready m.value = false ∧
      m' = { m with mutex := none, waiter := .blocked }) ∨
    (m.waiter = .inside ∧ m' = { m with mutex := none, waiter := .gone }) := by
  unfold wait at h
  split at h
  · rename_i hw hfree
    exact Or.inl ⟨hfree, Or.inl hw, (Option.some.inj h).symm⟩
  · rename_i hw
    split at h
    · rename_i hready
      exact Or.inr (Or.inl ⟨hw, hready, (Option.some.inj h).symm⟩)
    · rename_i hready
      exact Or.inr (Or.inr (Or.inl ⟨hw, Bool.eq_false_iff.mpr hready, (Option.some.inj h).symm⟩))
  · rename_i hw hfree
    exact Or.inl ⟨hfree, Or.inr hw, (Option.some.inj h).symm⟩
  · rename_i hw
    exact Or.inr (Or.inr (Or.inr ⟨hw, (Option.some.inj h).symm⟩))
  · cases h

theorem Inv.wait (h : m.Inv before after) (hbefore : ready before = false)
    (hafter : ready after = true) (hstep : m.wait ready = some m') : m'.Inv before after := by
  have hready : ready m.value = m.signaller.changed := by
    rw [h.value_eq]
    cases m.signaller.changed with
    | false => exact hbefore
    | true => exact hafter
  rcases wait_cases hstep with ⟨hfree, -, rfl⟩ | ⟨hw, htest, rfl⟩ | ⟨hw, htest, rfl⟩ | ⟨hw, rfl⟩
  · have hsignaller := h.signaller_holds
    rw [hfree] at hsignaller
    exact ⟨by simp [Waiter.holds], by simpa using hsignaller, h.value_eq, nofun, nofun⟩
  · have hwaiter := h.waiter_holds
    rw [hw] at hwaiter
    exact ⟨hwaiter, h.signaller_holds, h.value_eq, fun _ => hready ▸ htest, nofun⟩
  · have hmutex := h.waiter_holds.mpr (hw ▸ rfl)
    have hsignaller := h.signaller_holds
    rw [hmutex] at hsignaller
    refine ⟨by simp [Waiter.holds], by simpa using hsignaller, h.value_eq, nofun, ?_⟩
    intro _ hchanged
    rw [← hready, htest] at hchanged
    cases hchanged
  · have hmutex := h.waiter_holds.mpr (hw ▸ rfl)
    have hsignaller := h.signaller_holds
    rw [hmutex] at hsignaller
    refine ⟨by simp [Waiter.holds], by simpa using hsignaller, h.value_eq, ?_, nofun⟩
    intro _
    exact h.passed (hw ▸ rfl)

theorem Inv.wakeSpuriously (h : m.Inv before after) (hstep : m.wakeSpuriously = some m') :
    m'.Inv before after := by
  unfold Monitor.wakeSpuriously at hstep
  split at hstep
  · rename_i hw
    obtain rfl := Option.some.inj hstep
    have hwaiter := h.waiter_holds
    rw [hw] at hwaiter
    exact ⟨hwaiter, h.signaller_holds, h.value_eq, nofun, nofun⟩
  · cases hstep

/-- Everything a statement of the signaller can do. -/
theorem signal_cases (h : m.signal change notifies = some m') :
    (m.mutex = none ∧ m.signaller = .locking ∧
      m' = { m with mutex := some .signaller, signaller := .changing }) ∨
    (m.signaller = .changing ∧
      m' = { m with value := change m.value, signaller := .notifying }) ∨
    (m.signaller = .notifying ∧ m' = { m with
      waiter := if notifies m.value then m.waiter.notified else m.waiter
      signaller := .unlocking }) ∨
    (m.signaller = .unlocking ∧ m' = { m with mutex := none, signaller := .gone }) := by
  unfold signal at h
  split at h
  · rename_i hs hfree
    exact Or.inl ⟨hfree, hs, (Option.some.inj h).symm⟩
  · rename_i hs
    exact Or.inr (Or.inl ⟨hs, (Option.some.inj h).symm⟩)
  · rename_i hs
    exact Or.inr (Or.inr (Or.inl ⟨hs, (Option.some.inj h).symm⟩))
  · rename_i hs
    exact Or.inr (Or.inr (Or.inr ⟨hs, (Option.some.inj h).symm⟩))
  · cases h

theorem Inv.signal (h : m.Inv before after) (hchange : change before = after)
    (hnotifies : notifies after = true) (hstep : m.signal change notifies = some m') :
    m'.Inv before after := by
  rcases signal_cases hstep with ⟨hfree, hs, rfl⟩ | ⟨hs, rfl⟩ | ⟨hs, rfl⟩ | ⟨hs, rfl⟩
  · have hwaiter := h.waiter_holds
    have hvalue := h.value_eq
    have hpassed := h.passed
    rw [hfree] at hwaiter
    rw [hs] at hvalue hpassed
    exact ⟨by simpa using hwaiter, by simp [Signaller.holds], hvalue, hpassed, nofun⟩
  · have hsignaller := h.signaller_holds
    have hvalue := h.value_eq
    rw [hs] at hsignaller hvalue
    refine ⟨h.waiter_holds, hsignaller, ?_, fun _ => rfl, fun _ _ => rfl⟩
    change change m.value = after
    rw [hvalue]
    exact hchange
  · have hsignaller := h.signaller_holds
    have hvalue := h.value_eq
    rw [hs] at hsignaller hvalue
    have hnotified : notifies m.value = true := by
      rw [hvalue]
      exact hnotifies
    simp only [hnotified]
    refine ⟨?_, hsignaller, hvalue, fun _ => rfl, ?_⟩
    · rw [h.waiter_holds]
      simp
    · intro hblocked
      exact absurd hblocked (Waiter.notified_ne_blocked m.waiter)
  · have hmutex := h.signaller_holds.mpr (hs ▸ rfl)
    have hwaiter := h.waiter_holds
    have hvalue := h.value_eq
    have hnotified := h.notified
    rw [hmutex] at hwaiter
    rw [hs] at hvalue hnotified
    refine ⟨by simpa using hwaiter, by simp [Signaller.holds], hvalue, fun _ => rfl, ?_⟩
    intro hblocked _
    cases hnotified hblocked rfl

/-- The waiter leaves the signaller where it is, and goes on. -/
theorem wait_stage (h : m.wait ready = some m') :
    m'.signaller = m.signaller ∧ m.waiter.stage = .during ∧ m'.waiter.stage ≠ .before := by
  rcases wait_cases h with ⟨-, hw | hw, rfl⟩ | ⟨hw, -, rfl⟩ | ⟨hw, -, rfl⟩ | ⟨hw, rfl⟩ <;>
    exact ⟨rfl, hw ▸ rfl, nofun⟩

theorem wakeSpuriously_stage (h : m.wakeSpuriously = some m') :
    m'.signaller = m.signaller ∧ m'.waiter.stage = m.waiter.stage := by
  unfold wakeSpuriously at h
  split at h
  · rename_i hw
    obtain rfl := Option.some.inj h
    exact ⟨rfl, hw ▸ rfl⟩
  · cases h

/-- The signaller leaves the waiter in its stage, and goes on. -/
theorem signal_stage (h : m.signal change notifies = some m') :
    m'.waiter.stage = m.waiter.stage ∧ m.signaller.stage = .during ∧
      m'.signaller.stage ≠ .before := by
  rcases signal_cases h with ⟨-, hs, rfl⟩ | ⟨hs, rfl⟩ | ⟨hs, rfl⟩ | ⟨hs, rfl⟩
  · exact ⟨rfl, hs ▸ rfl, nofun⟩
  · exact ⟨rfl, hs ▸ rfl, nofun⟩
  · refine ⟨?_, hs ▸ rfl, nofun⟩
    cases hn : notifies m.value with
    | false => simp
    | true => simp
  · exact ⟨rfl, hs ▸ rfl, nofun⟩

/-- Who holds the mutex can go on. -/
theorem wait_isSome_of_holds (h : m.waiter.holds = true) : (m.wait ready).isSome = true := by
  unfold wait
  cases hw : m.waiter with
  | testing => simp [apply_ite Option.isSome]
  | inside => simp
  | _ => rw [hw] at h; cases h

theorem signal_isSome_of_holds (h : m.signaller.holds = true) :
    (m.signal change notifies).isSome = true := by
  unfold signal
  cases hs : m.signaller with
  | changing => simp
  | notifying => simp
  | unlocking => simp
  | _ => rw [hs] at h; cases h

/-- A waiter that has to wait does so for the signaller, which then can go on
or has not begun. -/
theorem Inv.wait_progress (h : m.Inv before after) (hduring : m.waiter.stage = .during)
    (ready : α → Bool) (change : α → α) (notifies : α → Bool) :
    (m.wait ready).isSome = true ∨ (m.signal change notifies).isSome = true ∨
      m.signaller = .away := by
  cases hm : m.mutex with
  | some holder =>
      cases holder with
      | waiter => exact Or.inl (wait_isSome_of_holds (h.waiter_holds.mp hm))
      | signaller => exact Or.inr (Or.inl (signal_isSome_of_holds (h.signaller_holds.mp hm)))
  | none =>
      have hfree : m.signaller.holds = false := by
        rw [Bool.eq_false_iff]
        intro hholds
        rw [h.signaller_holds.mpr hholds] at hm
        cases hm
      cases hw : m.waiter with
      | away => rw [hw] at hduring; cases hduring
      | gone => rw [hw] at hduring; cases hduring
      | locking => simp [Monitor.wait, hw, hm]
      | woken => simp [Monitor.wait, hw, hm]
      | testing => exact Or.inl (wait_isSome_of_holds (hw ▸ rfl))
      | inside => exact Or.inl (wait_isSome_of_holds (hw ▸ rfl))
      | blocked =>
          cases hs : m.signaller with
          | away => exact Or.inr (Or.inr rfl)
          | locking => simp [Monitor.signal, hs, hm]
          | gone =>
              have hnext := h.notified hw (hs ▸ rfl)
              rw [hs] at hnext
              cases hnext
          | _ => rw [hs] at hfree; cases hfree

/-- A waiter can go on when the signaller has ended. -/
theorem Inv.wait_isSome (h : m.Inv before after) (hduring : m.waiter.stage = .during)
    (hended : m.signaller.stage = .after) : (m.wait ready).isSome = true := by
  have hgone := Signaller.stage_eq_after.mp hended
  rcases h.wait_progress hduring ready id (fun _ => true) with hwait | hsignal | haway
  · exact hwait
  · obtain ⟨m', hm'⟩ := Option.isSome_iff_exists.mp hsignal
    have hstage := (signal_stage hm').2.1
    rw [hended] at hstage
    cases hstage
  · rw [hgone] at haway
    cases haway

/-- A signaller that has to wait does so for the waiter, which then can go on. -/
theorem Inv.signal_progress (h : m.Inv before after) (hduring : m.signaller.stage = .during) :
    (m.signal change notifies).isSome = true ∨ (m.wait ready).isSome = true := by
  cases hm : m.mutex with
  | some holder =>
      cases holder with
      | waiter => exact Or.inr (wait_isSome_of_holds (h.waiter_holds.mp hm))
      | signaller => exact Or.inl (signal_isSome_of_holds (h.signaller_holds.mp hm))
  | none =>
      cases hs : m.signaller with
      | away => rw [hs] at hduring; cases hduring
      | gone => rw [hs] at hduring; cases hduring
      | locking => simp [Monitor.signal, hs, hm]
      | _ => exact Or.inl (signal_isSome_of_holds (hs ▸ rfl))

/-- The waiter passes only after the signaller has left. -/
def Parted (m : Monitor α) : Prop := m.waiter.passed = true → m.signaller = .gone

/-- Who is past its test holds the mutex, so the signaller does not. -/
theorem Parted.wait (hparted : m.Parted) (h : m.Inv before after) (hbefore : ready before = false)
    (hstep : m.wait ready = some m') : m'.Parted := by
  rcases wait_cases hstep with ⟨-, -, rfl⟩ | ⟨hw, htest, rfl⟩ | ⟨-, -, rfl⟩ | ⟨hw, rfl⟩
  · intro hpassed
    cases hpassed
  · intro _
    have hmutex := h.waiter_holds.mpr (hw ▸ rfl)
    have hsignaller := h.signaller_holds
    rw [hmutex] at hsignaller
    have hvalue := h.value_eq
    change m.signaller = .gone
    cases hs : m.signaller with
    | gone => rfl
    | away | locking =>
        rw [hs] at hvalue
        rw [hvalue] at htest
        exact absurd (hbefore.symm.trans htest) Bool.false_ne_true
    | changing | notifying | unlocking => simp [hs, Signaller.holds] at hsignaller
  · intro hpassed
    cases hpassed
  · intro _
    exact hparted (hw ▸ rfl)

theorem Parted.wakeSpuriously (hstep : m.wakeSpuriously = some m') : m'.Parted := by
  unfold Monitor.wakeSpuriously at hstep
  split at hstep
  · obtain rfl := Option.some.inj hstep
    intro hpassed
    cases hpassed
  · cases hstep

theorem Parted.signal (hparted : m.Parted) (hstep : m.signal change notifies = some m') :
    m'.Parted := by
  intro hpassed
  obtain ⟨-, hduring, -⟩ := signal_stage hstep
  have hsame : m'.waiter.passed = m.waiter.passed := by
    rcases signal_cases hstep with ⟨-, -, rfl⟩ | ⟨-, rfl⟩ | ⟨-, rfl⟩ | ⟨-, rfl⟩
    · rfl
    · rfl
    · cases hw : m.waiter <;> cases hn : notifies m.value <;> rfl
    · rfl
  rw [hsame] at hpassed
  rw [hparted hpassed] at hduring
  cases hduring

end Monitor

end Yatwb.Foundation
