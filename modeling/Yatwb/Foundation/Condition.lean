import Yatwb.Foundation.Machine
import Mathlib.Algebra.BigOperators.Group.Finset.Basic
import Mathlib.Algebra.Order.BigOperators.Group.Finset
import Mathlib.Data.Fintype.Basic
import Mathlib.Logic.Function.Iterate

/-!
# Condition variables

A value behind a mutex and a condition variable, used by any number of threads.
A thread that waits locks the mutex, waits until the value is ready, and
unlocks. A thread that changes the value locks the mutex, changes it, notifies
all waiters if the new value says so, and unlocks. Every call may be made again
and again, and a blocked waiter may wake up without a notification.

The value is always the initial one changed as often as a change was made. When
a change that makes the value ready is one that notifies, no thread sleeps on a
ready value unless the notification is the next statement of the thread that
holds the mutex, and all calls made on a ready value come to their end.
-/

namespace Yatwb.Foundation

universe u v

/-- Where a thread is in a call. -/
inductive Visit
  | idle
  | waitLocking
  | testing
  | blocked
  | woken
  | passed
  | changeLocking
  | changing
  | notifying
  | unlocking
  deriving DecidableEq, Repr

namespace Visit

def holds : Visit → Bool
  | testing | passed | changing | notifying | unlocking => true
  | _ => false

def notified : Visit → Visit
  | blocked => woken
  | x => x

/-- The statements a call has left when it does not have to wait for the value. -/
def rank : Visit → Nat
  | idle => 0
  | passed | unlocking => 1
  | testing | notifying => 2
  | waitLocking | woken | changing => 3
  | blocked | changeLocking => 4

@[simp] theorem holds_notified (x : Visit) : x.notified.holds = x.holds := by
  cases x <;> rfl

theorem notified_ne_blocked (x : Visit) : x.notified ≠ blocked := by
  cases x <;> simp [notified]

theorem notified_eq_passed {x : Visit} : x.notified = passed ↔ x = passed := by
  cases x <;> simp [notified]

theorem rank_notified_le (x : Visit) : x.notified.rank ≤ x.rank := by
  cases x <;> simp [notified, rank]

end Visit

/-- When a waiter may pass, what a change does, and after which changes the
waiters are notified. -/
structure Protocol (α : Type u) where
  ready : α → Bool
  change : α → α
  notifies : α → Bool

/-- A ready value stays ready, and the change that makes it ready notifies. -/
structure Protocol.Sound {α : Type u} (P : Protocol α) : Prop where
  stable : ∀ x, P.ready x = true → P.ready (P.change x) = true
  announced : ∀ x, P.ready x = false → P.ready (P.change x) = true →
    P.notifies (P.change x) = true

/-- The value, who holds the mutex, where the threads are, and the number of changes made. -/
structure Condition (τ : Type v) (α : Type u) where
  value : α
  mutex : Option τ
  pc : τ → Visit
  changes : Nat

namespace Condition

variable {τ : Type v} {α : Type u}

def new (value : α) : Condition τ α := ⟨value, none, fun _ => .idle, 0⟩

/-- Every blocked thread is woken. -/
def notifyAll (m : Condition τ α) : Condition τ α := { m with pc := fun t => (m.pc t).notified }

section

variable [DecidableEq τ]

def move (m : Condition τ α) (t : τ) (x : Visit) : Condition τ α :=
  { m with pc := Function.update m.pc t x }

/-- The next statement of the call that a thread is in. -/
def step (P : Protocol α) (m : Condition τ α) (t : τ) : Option (Condition τ α) :=
  match m.pc t, m.mutex with
  | .waitLocking, none => some { m.move t .testing with mutex := some t }
  | .testing, _ =>
      if P.ready m.value then some (m.move t .passed)
      else some { m.move t .blocked with mutex := none }
  | .woken, none => some { m.move t .testing with mutex := some t }
  | .passed, _ => some { m.move t .idle with mutex := none }
  | .changeLocking, none => some { m.move t .changing with mutex := some t }
  | .changing, _ => some { m.move t .notifying with
      value := P.change m.value
      changes := m.changes + 1 }
  | .notifying, _ =>
      if P.notifies m.value then some (m.notifyAll.move t .unlocking)
      else some (m.move t .unlocking)
  | .unlocking, _ => some { m.move t .idle with mutex := none }
  | _, _ => none

inductive Action (τ : Type v)
  | wait (t : τ)
  | change (t : τ)
  | step (t : τ)
  | wakeSpuriously (t : τ)
  deriving DecidableEq, Repr

def next (P : Protocol α) (m : Condition τ α) : Action τ → Option (Condition τ α)
  | .wait t => if m.pc t = .idle then some (m.move t .waitLocking) else none
  | .change t => if m.pc t = .idle then some (m.move t .changeLocking) else none
  | .step t => m.step P t
  | .wakeSpuriously t => if m.pc t = .blocked then some (m.move t .woken) else none

def machine (P : Protocol α) (value : α) : Machine (Condition τ α) (Action τ) where
  init m := m = new value
  next := next P

/-- The action is no new call. -/
def Action.Continues : Action τ → Prop
  | .step _ | .wakeSpuriously _ => True
  | .wait _ | .change _ => False

instance : ∀ a : Action τ, Decidable a.Continues
  | .step _ | .wakeSpuriously _ => isTrue trivial
  | .wait _ | .change _ => isFalse id

end

/-- The mutex is held by whom the program points say, the value is the changed
one, a waiter passes on a ready value only, and a waiter that is blocked on a
ready value is about to be notified. -/
structure Inv (P : Protocol α) (value : α) (m : Condition τ α) : Prop where
  exclusive : ∀ t, m.mutex = some t ↔ (m.pc t).holds = true
  value_eq : m.value = P.change^[m.changes] value
  passed : ∀ t, m.pc t = .passed → P.ready m.value = true
  heard : ∀ t, m.pc t = .blocked → P.ready m.value = true →
    ∃ t', m.pc t' = .notifying ∧ P.notifies m.value = true

variable {P : Protocol α} {value : α} {m m' : Condition τ α} {t : τ}

theorem inv_new : (new value : Condition τ α).Inv P value := by
  constructor
  · intro t
    simp [new, Visit.holds]
  · rfl
  · intro t ht
    cases ht
  · intro t ht
    cases ht

/-- A thread that holds the mutex is the only one. -/
theorem Inv.unique (h : m.Inv P value) {t' : τ} (ht : (m.pc t).holds = true)
    (ht' : (m.pc t').holds = true) : t' = t :=
  Option.some.inj (((h.exclusive t').mpr ht').symm.trans ((h.exclusive t).mpr ht))

theorem Inv.not_holds (h : m.Inv P value) (hfree : m.mutex = none) (t : τ) :
    (m.pc t).holds = false := by
  rw [Bool.eq_false_iff]
  intro hholds
  rw [(h.exclusive t).mpr hholds] at hfree
  cases hfree

/-- When a thread is about to notify, whoever holds the mutex is. -/
theorem Inv.notifying_of (h : m.Inv P value) {t' : τ} (ht : (m.pc t).holds = true)
    (ht' : m.pc t' = .notifying) : m.pc t = .notifying := by
  have hholds : (m.pc t').holds = true := by
    rw [ht']
    rfl
  rw [← h.unique ht hholds]
  exact ht'

/-- While nobody is about to notify, a blocked waiter waits for the value. -/
theorem Inv.not_ready (h : m.Inv P value) (hblocked : m.pc t = .blocked)
    (hnone : ∀ t', m.pc t' ≠ .notifying) : P.ready m.value = false := by
  rw [Bool.eq_false_iff]
  intro hready
  obtain ⟨t', ht', -⟩ := h.heard t hblocked hready
  exact hnone t' ht'

section

variable [DecidableEq τ]

@[simp] theorem move_pc_self (m : Condition τ α) (t : τ) (x : Visit) : (m.move t x).pc t = x :=
  Function.update_self ..

theorem move_pc_of_ne (m : Condition τ α) {t t' : τ} (h : t' ≠ t) (x : Visit) :
    (m.move t x).pc t' = m.pc t' := Function.update_of_ne h ..

/-- Everything a statement of a thread can do. -/
inductive Stepped (P : Protocol α) (m : Condition τ α) (t : τ) : Condition τ α → Prop
  | test (hfree : m.mutex = none) (hpc : m.pc t = .waitLocking ∨ m.pc t = .woken) :
      Stepped P m t { m.move t .testing with mutex := some t }
  | pass (hpc : m.pc t = .testing) (hready : P.ready m.value = true) :
      Stepped P m t (m.move t .passed)
  | block (hpc : m.pc t = .testing) (hready : P.ready m.value = false) :
      Stepped P m t { m.move t .blocked with mutex := none }
  | enter (hfree : m.mutex = none) (hpc : m.pc t = .changeLocking) :
      Stepped P m t { m.move t .changing with mutex := some t }
  | change (hpc : m.pc t = .changing) :
      Stepped P m t { m.move t .notifying with
        value := P.change m.value
        changes := m.changes + 1 }
  | notify (hpc : m.pc t = .notifying) (hnotifies : P.notifies m.value = true) :
      Stepped P m t (m.notifyAll.move t .unlocking)
  | skip (hpc : m.pc t = .notifying) (hnotifies : P.notifies m.value = false) :
      Stepped P m t (m.move t .unlocking)
  | unlock (hpc : m.pc t = .passed ∨ m.pc t = .unlocking) :
      Stepped P m t { m.move t .idle with mutex := none }

theorem stepped (h : m.step P t = some m') : Stepped P m t m' := by
  unfold step at h
  split at h
  · rename_i hpc hfree
    obtain rfl := Option.some.inj h
    exact .test hfree (.inl hpc)
  · rename_i hpc
    split at h
    · rename_i hready
      obtain rfl := Option.some.inj h
      exact .pass hpc hready
    · rename_i hready
      obtain rfl := Option.some.inj h
      exact .block hpc (Bool.eq_false_iff.mpr hready)
  · rename_i hpc hfree
    obtain rfl := Option.some.inj h
    exact .test hfree (.inr hpc)
  · rename_i hpc
    obtain rfl := Option.some.inj h
    exact .unlock (.inl hpc)
  · rename_i hpc hfree
    obtain rfl := Option.some.inj h
    exact .enter hfree hpc
  · rename_i hpc
    obtain rfl := Option.some.inj h
    exact .change hpc
  · rename_i hpc
    split at h
    · rename_i hnotifies
      obtain rfl := Option.some.inj h
      exact .notify hpc hnotifies
    · rename_i hnotifies
      obtain rfl := Option.some.inj h
      exact .skip hpc (Bool.eq_false_iff.mpr hnotifies)
  · rename_i hpc
    obtain rfl := Option.some.inj h
    exact .unlock (.inr hpc)
  · cases h

/-- A thread without the mutex goes to a point without it. -/
theorem Inv.outside (h : m.Inv P value) (hpc : (m.pc t).holds = false) {x : Visit}
    (hx : x.holds = false) (hblocked : x = .blocked → P.ready m.value = false) :
    Inv P value (m.move t x) := by
  have hother {t' : τ} {y : Visit} (hy : y.holds = true) :
      m.pc t' = y ↔ (m.move t x).pc t' = y := by
    by_cases hne : t' = t
    · subst hne
      rw [move_pc_self]
      constructor
      · rintro rfl
        exact absurd hy (Bool.eq_false_iff.mp hpc)
      · rintro rfl
        exact absurd hy (Bool.eq_false_iff.mp hx)
    · rw [move_pc_of_ne m hne]
  refine ⟨fun t' => ?_, h.value_eq, fun t' ht' => h.passed t' ((hother rfl).mpr ht'), ?_⟩
  · change m.mutex = some t' ↔ _
    rw [h.exclusive]
    by_cases hne : t' = t
    · subst hne
      rw [move_pc_self, hpc, hx]
    · rw [move_pc_of_ne m hne]
  · intro t' ht' hready
    by_cases hne : t' = t
    · subst hne
      rw [move_pc_self] at ht'
      exact absurd hready (Bool.eq_false_iff.mp (hblocked ht'))
    · rw [move_pc_of_ne m hne] at ht'
      obtain ⟨t₁, ht₁, hnotifies⟩ := h.heard t' ht' hready
      exact ⟨t₁, (hother rfl).mp ht₁, hnotifies⟩

/-- A thread takes the mutex. -/
theorem Inv.acquire (h : m.Inv P value) (hfree : m.mutex = none) {x : Visit}
    (hx : x.holds = true) (hpassed : x ≠ .passed) :
    Inv P value { m.move t x with mutex := some t } := by
  have hnone := h.not_holds hfree
  refine ⟨fun t' => ?_, h.value_eq, fun t' ht' => ?_, fun t' ht' hready => ?_⟩
  · change some t = some t' ↔ ((m.move t x).pc t').holds = true
    by_cases hne : t' = t
    · subst hne
      simp [hx]
    · rw [move_pc_of_ne m hne, hnone t']
      simp [Ne.symm hne]
  · change (m.move t x).pc t' = .passed at ht'
    by_cases hne : t' = t
    · subst hne
      rw [move_pc_self] at ht'
      exact absurd ht' hpassed
    · rw [move_pc_of_ne m hne] at ht'
      exact h.passed t' ht'
  · change (m.move t x).pc t' = .blocked at ht'
    by_cases hne : t' = t
    · subst hne
      rw [move_pc_self] at ht'
      rw [ht'] at hx
      cases hx
    · rw [move_pc_of_ne m hne] at ht'
      obtain ⟨t₁, ht₁, -⟩ := h.heard t' ht' hready
      have hholds := hnone t₁
      rw [ht₁] at hholds
      cases hholds

/-- The holder of the mutex goes on with it. -/
theorem Inv.inside (h : m.Inv P value) (hpc : (m.pc t).holds = true) {x : Visit}
    (hx : x.holds = true) {newValue : α} {changes : Nat}
    (hvalue : newValue = P.change^[changes] value)
    (hpassed : x = .passed → P.ready newValue = true)
    (hheard : ∀ t', m.pc t' = .blocked → P.ready newValue = true →
      x = .notifying ∧ P.notifies newValue = true) :
    Inv P value { m.move t x with value := newValue, changes := changes } := by
  have hholder := (h.exclusive t).mpr hpc
  refine ⟨fun t' => ?_, hvalue, fun t' ht' => ?_, fun t' ht' hready => ?_⟩
  · change m.mutex = some t' ↔ ((m.move t x).pc t').holds = true
    rw [h.exclusive]
    by_cases hne : t' = t
    · subst hne
      rw [move_pc_self, hpc, hx]
    · rw [move_pc_of_ne m hne]
  · change (m.move t x).pc t' = .passed at ht'
    by_cases hne : t' = t
    · subst hne
      rw [move_pc_self] at ht'
      exact hpassed ht'
    · rw [move_pc_of_ne m hne] at ht'
      exact absurd (h.unique hpc (ht' ▸ rfl)) hne
  · change (m.move t x).pc t' = .blocked at ht'
    have hne : t' ≠ t := by
      rintro rfl
      rw [move_pc_self] at ht'
      rw [ht'] at hx
      cases hx
    rw [move_pc_of_ne m hne] at ht'
    obtain ⟨rfl, hnotifies⟩ := hheard t' ht' hready
    exact ⟨t, move_pc_self m t _, hnotifies⟩

/-- The holder of the mutex gives it up. -/
theorem Inv.release (h : m.Inv P value) (hpc : (m.pc t).holds = true)
    (hnotifying : m.pc t ≠ .notifying) {x : Visit} (hx : x.holds = false)
    (hblocked : x = .blocked → P.ready m.value = false) :
    Inv P value { m.move t x with mutex := none } := by
  have hother {t' : τ} (hholds : (m.pc t').holds = true) : t' = t := h.unique hpc hholds
  refine ⟨fun t' => ?_, h.value_eq, fun t' ht' => ?_, fun t' ht' hready => ?_⟩
  · change none = some t' ↔ ((m.move t x).pc t').holds = true
    by_cases hne : t' = t
    · subst hne
      simp [hx]
    · rw [move_pc_of_ne m hne]
      simpa using fun hholds => hne (hother hholds)
  · change (m.move t x).pc t' = .passed at ht'
    by_cases hne : t' = t
    · subst hne
      rw [move_pc_self] at ht'
      rw [ht'] at hx
      cases hx
    · rw [move_pc_of_ne m hne] at ht'
      exact h.passed t' ht'
  · change (m.move t x).pc t' = .blocked at ht'
    have hnone : ∀ t₁, m.pc t₁ ≠ .notifying := fun _ ht₁ => hnotifying (h.notifying_of hpc ht₁)
    have hnot : P.ready m.value = false := by
      by_cases hne : t' = t
      · subst hne
        rw [move_pc_self] at ht'
        exact hblocked ht'
      · rw [move_pc_of_ne m hne] at ht'
        exact h.not_ready ht' hnone
    exact absurd hready (Bool.eq_false_iff.mp hnot)

omit [DecidableEq τ] in
theorem Inv.notifyAll (h : m.Inv P value) : m.notifyAll.Inv P value where
  exclusive t := by
    rw [Condition.notifyAll, Visit.holds_notified]
    exact h.exclusive t
  value_eq := h.value_eq
  passed t ht := h.passed t (Visit.notified_eq_passed.mp ht)
  heard t ht := absurd ht (Visit.notified_ne_blocked _)

theorem Inv.step (h : m.Inv P value) (hP : P.Sound) (hstep : m.step P t = some m') :
    m'.Inv P value := by
  cases stepped hstep with
  | test hfree hpc => exact h.acquire hfree rfl (by simp)
  | pass hpc hready =>
      have hholds : (m.pc t).holds = true := hpc ▸ rfl
      apply h.inside hholds rfl h.value_eq (fun _ => hready)
      intro t' ht' _
      obtain ⟨t₁, ht₁, -⟩ := h.heard t' ht' hready
      have hnotifying := h.notifying_of hholds ht₁
      rw [hpc] at hnotifying
      cases hnotifying
  | block hpc hready => exact h.release (hpc ▸ rfl) (by simp [hpc]) rfl fun _ => hready
  | enter hfree hpc => exact h.acquire hfree rfl (by simp)
  | change hpc =>
      have hholds : (m.pc t).holds = true := hpc ▸ rfl
      apply h.inside hholds rfl
      · rw [Function.iterate_succ_apply', ← h.value_eq]
      · simp
      · intro t' ht' hready
        -- The holder was changing, so nobody was notifying and the old value not ready.
        have hnot : P.ready m.value = false := by
          apply h.not_ready ht'
          intro t₁ ht₁
          have hnotifying := h.notifying_of hholds ht₁
          rw [hpc] at hnotifying
          cases hnotifying
        exact ⟨rfl, hP.announced _ hnot hready⟩
  | notify hpc hnotifies =>
      have hall := h.notifyAll
      have hpc' : m.notifyAll.pc t = .notifying := by
        change (m.pc t).notified = .notifying
        rw [hpc]
        rfl
      apply hall.inside (hpc' ▸ rfl) rfl h.value_eq (by simp)
      intro t' ht'
      exact absurd ht' (Visit.notified_ne_blocked _)
  | skip hpc hnotifies =>
      apply h.inside (hpc ▸ rfl) rfl h.value_eq (by simp)
      intro t' ht' hready
      obtain ⟨t₁, -, htrue⟩ := h.heard t' ht' hready
      rw [hnotifies] at htrue
      cases htrue
  | unlock hpc =>
      rcases hpc with hpc | hpc <;>
        exact h.release (hpc ▸ rfl) (by simp [hpc]) rfl (by simp)

theorem Inv.next (h : m.Inv P value) (hP : P.Sound) {a : Action τ}
    (hnext : m.next P a = some m') : m'.Inv P value := by
  cases a with
  | wait t =>
      simp only [Condition.next] at hnext
      split at hnext
      · rename_i hpc
        obtain rfl := Option.some.inj hnext
        exact h.outside (hpc ▸ rfl) rfl (by simp)
      · cases hnext
  | change t =>
      simp only [Condition.next] at hnext
      split at hnext
      · rename_i hpc
        obtain rfl := Option.some.inj hnext
        exact h.outside (hpc ▸ rfl) rfl (by simp)
      · cases hnext
  | step t => exact h.step hP hnext
  | wakeSpuriously t =>
      simp only [Condition.next] at hnext
      split at hnext
      · rename_i hpc
        obtain rfl := Option.some.inj hnext
        exact h.outside (hpc ▸ rfl) rfl (by simp)
      · cases hnext

theorem inv_of_reach {guard : Condition τ α → Action τ → Prop} (hP : P.Sound)
    (hm : (machine P value).Reach guard m) : m.Inv P value :=
  hm.invariant (fun _ hinit => hinit ▸ inv_new) fun _ _ _ h _ hnext => h.next hP hnext

/-! ### Calls on a ready value -/

/-- Who holds the mutex can go on. -/
theorem step_isSome_of_holds (h : (m.pc t).holds = true) : (m.step P t).isSome = true := by
  unfold step
  cases hpc : m.pc t with
  | testing | notifying => simp [apply_ite Option.isSome]
  | passed | changing | unlocking => simp
  | idle | waitLocking | blocked | woken | changeLocking => rw [hpc] at h; cases h

/-- Some thread can go on while a call is under way. -/
theorem Inv.progress (h : m.Inv P value) (hready : P.ready m.value = true)
    (hbusy : m.pc t ≠ .idle) : ∃ t', (m.step P t').isSome = true := by
  cases hm : m.mutex with
  | some holder => exact ⟨holder, step_isSome_of_holds ((h.exclusive holder).mp hm)⟩
  | none =>
      have hnone := h.not_holds hm
      cases hpc : m.pc t with
      | idle => exact absurd hpc hbusy
      | waitLocking | woken | changeLocking => exact ⟨t, by simp [Condition.step, hpc, hm]⟩
      | blocked =>
          obtain ⟨t', ht', -⟩ := h.heard t hpc hready
          exact ⟨t', step_isSome_of_holds (ht' ▸ rfl)⟩
      | testing | passed | changing | notifying | unlocking =>
          have hholds := hnone t
          rw [hpc] at hholds
          cases hholds

theorem ready_step (hP : P.Sound) (hready : P.ready m.value = true)
    (hstep : m.step P t = some m') : P.ready m'.value = true := by
  cases stepped hstep with
  | change hpc => exact hP.stable _ hready
  | test hfree hpc => exact hready
  | pass hpc _ => exact hready
  | block hpc _ => exact hready
  | enter hfree hpc => exact hready
  | notify hpc _ => exact hready
  | skip hpc _ => exact hready
  | unlock hpc => exact hready

variable [Fintype τ]

/-- The statements that the calls under way have left. -/
def work (m : Condition τ α) : Nat := ∑ t, (m.pc t).rank

omit [DecidableEq τ] in
theorem work_le (m : Condition τ α) : m.work ≤ 4 * Fintype.card τ := by
  have hrank : ∀ t ∈ Finset.univ, (m.pc t).rank ≤ 4 := by
    intro t _
    cases m.pc t <;> simp [Visit.rank]
  calc m.work ≤ Finset.univ.card • 4 := Finset.sum_le_card_nsmul _ _ _ hrank
    _ = 4 * Fintype.card τ := by
      simp [Finset.card_univ, Nat.mul_comm]

/-- A thread goes on, and the others fall behind by nothing. -/
theorem work_lt (hlt : (m'.pc t).rank < (m.pc t).rank)
    (hle : ∀ t', t' ≠ t → (m'.pc t').rank ≤ (m.pc t').rank) : m'.work < m.work := by
  apply Finset.sum_lt_sum
  · intro t' _
    by_cases hne : t' = t
    · subst hne
      exact hlt.le
    · exact hle t' hne
  · exact ⟨t, Finset.mem_univ t, hlt⟩

theorem work_move {x : Visit} (hlt : x.rank < (m.pc t).rank)
    (hpc : m'.pc = Function.update m.pc t x) : m'.work < m.work := by
  apply work_lt (t := t)
  · rw [hpc, Function.update_self]
    exact hlt
  · intro t' hne
    rw [hpc, Function.update_of_ne hne]

theorem work_step (hready : P.ready m.value = true) (hstep : m.step P t = some m') :
    m'.work < m.work := by
  cases stepped hstep with
  | test hfree hpc => rcases hpc with hpc | hpc <;> exact work_move (by simp [hpc, Visit.rank]) rfl
  | pass hpc _ => exact work_move (by simp [hpc, Visit.rank]) rfl
  | block hpc hnot =>
      rw [hready] at hnot
      cases hnot
  | enter hfree hpc => exact work_move (by simp [hpc, Visit.rank]) rfl
  | change hpc => exact work_move (by simp [hpc, Visit.rank]) rfl
  | notify hpc _ =>
      apply work_lt (t := t)
      · rw [move_pc_self, hpc]
        decide
      · intro t' hne
        rw [move_pc_of_ne _ hne]
        exact Visit.rank_notified_le _
  | skip hpc _ => exact work_move (by simp [hpc, Visit.rank]) rfl
  | unlock hpc => rcases hpc with hpc | hpc <;> exact work_move (by simp [hpc, Visit.rank]) rfl

/-- Whatever continues a call on a ready value lowers the work. -/
theorem Inv.continued (h : m.Inv P value) (hP : P.Sound) (hready : P.ready m.value = true)
    {a : Action τ} (hcontinues : a.Continues) (hnext : m.next P a = some m') :
    (m'.Inv P value ∧ P.ready m'.value = true) ∧ m'.work < m.work := by
  have hinv := h.next hP hnext
  cases a with
  | wait t => exact hcontinues.elim
  | change t => exact hcontinues.elim
  | step t => exact ⟨⟨hinv, ready_step hP hready hnext⟩, work_step hready hnext⟩
  | wakeSpuriously t =>
      simp only [Condition.next] at hnext
      split at hnext
      · rename_i hpc
        obtain rfl := Option.some.inj hnext
        exact ⟨⟨hinv, hready⟩, work_move (by simp [hpc, Visit.rank]) rfl⟩
      · cases hnext

/-- The calls that are under way when the value is ready take at most four
statements each, and whoever has not returned keeps some thread going. -/
theorem calls_return (hP : P.Sound) (h : m.Inv P value) (hready : P.ready m.value = true)
    {as : List (Action τ)}
    (hruns : (machine P value).runs (fun _ a => a.Continues) m as = some m') :
    m'.work + as.length ≤ m.work ∧
      ∀ t, m'.pc t ≠ .idle → ∃ t', (m'.step P t').isSome = true := by
  have hstep (s : Condition τ α) (a : Action τ) (s' : Condition τ α)
      (hs : s.Inv P value ∧ P.ready s.value = true) (hcontinues : a.Continues)
      (hnext : s.next P a = some s') := hs.1.continued hP hs.2 hcontinues hnext
  obtain ⟨⟨hinv, hready'⟩, hwork⟩ := Machine.work_of_runs hstep ⟨h, hready⟩ hruns
  exact ⟨hwork, fun t ht => hinv.progress hready' ht⟩

end

end Condition

end Yatwb.Foundation
