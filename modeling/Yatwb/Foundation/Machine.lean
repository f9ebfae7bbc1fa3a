import Yatwb.Foundation.Check

/-!
# Machines, guarded runs and invariants

A machine is a partial next-state function. Every choice made outside the
modelled code is part of the action, so a run is determined by its start
and its list of actions. A guard restricts the actions a run may take in
each state; a run without restriction has the guard that is always true.
-/

namespace Yatwb.Foundation

universe u v

/-- Initial states and a partial next-state function. -/
structure Machine (σ : Type u) (act : Type v) where
  init : σ → Prop
  next : σ → act → Option σ

namespace Machine

variable {σ : Type u} {act : Type v} (M : Machine σ act)

/-- The states of runs whose every action meets the guard where it is taken. -/
inductive Reach (guard : σ → act → Prop) : σ → Prop
  | init {s} (h : M.init s) : Reach guard s
  | step {s a s'} (run : Reach guard s) (ok : guard s a) (h : M.next s a = some s') :
      Reach guard s'

/-- The states of runs without a restriction on the actions. -/
abbrev Reachable (s : σ) : Prop := M.Reach (fun _ _ => True) s

/-- Take the actions of a list in order, each only if it meets the guard. -/
def runs (guard : σ → act → Prop) [∀ s a, Decidable (guard s a)] : σ → List act → Option σ
  | s, [] => some s
  | s, a :: rest =>
      if guard s a then (M.next s a).bind fun s' => runs guard s' rest else none

variable {M}

/-- What holds initially and is kept by every guarded action holds along every run. -/
theorem Reach.invariant {guard : σ → act → Prop} {Inv : σ → Prop}
    (hinit : ∀ s, M.init s → Inv s)
    (hstep : ∀ s a s', Inv s → guard s a → M.next s a = some s' → Inv s')
    {s : σ} (h : M.Reach guard s) : Inv s := by
  induction h with
  | init h => exact hinit _ h
  | step _ ok h ih => exact hstep _ _ _ ih ok h

/-- A weaker guard reaches at least as much. -/
theorem Reach.mono {guard guard' : σ → act → Prop}
    (hg : ∀ s a, guard s a → guard' s a) {s : σ} (h : M.Reach guard s) :
    M.Reach guard' s := by
  induction h with
  | init h => exact Reach.init h
  | step _ ok h ih => exact Reach.step ih (hg _ _ ok) h

/-- Every guarded run is a run. -/
theorem Reach.reachable {guard : σ → act → Prop} {s : σ} (h : M.Reach guard s) :
    M.Reachable s :=
  h.mono fun _ _ _ => trivial

theorem Reach.runs {guard : σ → act → Prop} [∀ s a, Decidable (guard s a)] {s : σ}
    (h : M.Reach guard s) (as : List act) {s' : σ} (he : M.runs guard s as = some s') :
    M.Reach guard s' := by
  induction as generalizing s with
  | nil =>
      cases he
      exact h
  | cons a rest ih =>
      simp only [Machine.runs] at he
      split at he
      · rename_i ok
        obtain ⟨t, ht, he⟩ := Option.bind_eq_some_iff.mp he
        exact ih (Reach.step h ok ht) he
      · cases he

/-- A list of actions that can be taken from an initial state and ends in a
state with `p` shows that such a state is reached. -/
theorem exists_reach (guard : σ → act → Prop) [∀ s a, Decidable (guard s a)] {s : σ}
    (h : M.init s) (as : List act) (p : σ → Bool) (hp : (M.runs guard s as).any p = true) :
    ∃ s', M.Reach guard s' ∧ p s' = true := by
  obtain ⟨s', hs', hps'⟩ := (Option.any_eq_true p _).mp hp
  exact ⟨s', (Reach.init h).runs as hs', hps'⟩

/-- The machine in a given state. -/
def startingAt (M : Machine σ act) (s : σ) : Machine σ act := { M with init := (· = s) }

/-- A run that goes on where another one stopped. -/
theorem Reach.resume {guard : σ → act → Prop} {s s' : σ} (h : M.Reach guard s)
    (h' : (M.startingAt s).Reach guard s') : M.Reach guard s' := by
  induction h' with
  | init hinit =>
      obtain rfl := hinit
      exact h
  | step _ ok hnext ih => exact ih.step ok hnext

/-- A run without a restriction leads from one state to the other. -/
inductive Leads (M : Machine σ act) : σ → σ → Prop
  | refl (s : σ) : Leads M s s
  | step {s t s' : σ} {a : act} (run : Leads M s t) (h : M.next t a = some s') : Leads M s s'

theorem Leads.trans {s t s' : σ} (h : M.Leads s t) (h' : M.Leads t s') : M.Leads s s' := by
  induction h' with
  | refl => exact h
  | step _ hnext ih => exact ih.step hnext

theorem Leads.single {s s' : σ} {a : act} (h : M.next s a = some s') : M.Leads s s' :=
  (Leads.refl s).step h

theorem Leads.reachable {s s' : σ} (h : M.Leads s s') (hs : M.Reachable s) : M.Reachable s' := by
  induction h with
  | refl => exact hs
  | step _ hnext ih => exact ih.step trivial hnext

/-- The machine with some of its actions only. -/
def restrict (M : Machine σ act) (allowed : act → Prop) [DecidablePred allowed] :
    Machine σ act where
  init := M.init
  next s a := if allowed a then M.next s a else none

theorem restrict_next {allowed : act → Prop} [DecidablePred allowed] {s s' : σ} {a : act} :
    (M.restrict allowed).next s a = some s' ↔ allowed a ∧ M.next s a = some s' := by
  simp only [restrict]
  split
  · simp [*]
  · simp [*]

theorem Leads.of_restrict {allowed : act → Prop} [DecidablePred allowed] {s s' : σ}
    (h : (M.restrict allowed).Leads s s') : M.Leads s s' := by
  induction h with
  | refl => exact .refl _
  | step _ hnext ih => exact ih.step (restrict_next.mp hnext).2

/-- A run whose guarded actions all lower a measure is no longer than the measure. -/
theorem work_of_runs {guard : σ → act → Prop} [∀ s a, Decidable (guard s a)] {Inv : σ → Prop}
    {work : σ → Nat}
    (hstep : ∀ s a s', Inv s → guard s a → M.next s a = some s' → Inv s' ∧ work s' < work s)
    {s s' : σ} (h : Inv s) {as : List act} (hruns : M.runs guard s as = some s') :
    Inv s' ∧ work s' + as.length ≤ work s := by
  induction as generalizing s with
  | nil =>
      cases hruns
      exact ⟨h, Nat.le_refl _⟩
  | cons a rest ih =>
      simp only [Machine.runs] at hruns
      split at hruns
      · rename_i ok
        obtain ⟨t, ht, hruns⟩ := Option.bind_eq_some_iff.mp hruns
        obtain ⟨hinv, hless⟩ := hstep s a t h ok ht
        obtain ⟨hinv', hwork⟩ := ih hinv hruns
        refine ⟨hinv', ?_⟩
        rw [List.length_cons]
        omega
      · cases hruns

end Machine

section Faulting

variable {fault : Type u} {σ : Type u} {act : Type v}

/-- A machine whose actions can fault. A faulted run has ended. -/
def faulting (init : σ → Prop) (step : σ → act → Except fault σ) :
    Machine (Except fault σ) act where
  init s := ∃ s₀, s = .ok s₀ ∧ init s₀
  next
    | .ok s, a => some (step s a)
    | .error _, _ => none

/-- A guard for the states that have not faulted. -/
def whileRunning (guard : σ → act → Prop) : Except fault σ → act → Prop :=
  fun s a => ∀ s₀, s = .ok s₀ → guard s₀ a

instance (guard : σ → act → Prop) [∀ s a, Decidable (guard s a)] :
    ∀ (s : Except fault σ) (a : act), Decidable (whileRunning guard s a)
  | .ok s, a => decidable_of_iff (guard s a)
      ⟨fun h _ hs => Except.ok.inj hs ▸ h, fun h => h s rfl⟩
  | .error _, _ => isTrue fun _ hs => by cases hs

theorem runs_error {init : σ → Prop} {step : σ → act → Except fault σ}
    {guard : Except fault σ → act → Prop} [∀ s a, Decidable (guard s a)] {f : fault}
    {as : List act} {s : Except fault σ}
    (h : (faulting init step).runs guard (.error f) as = some s) : s = .error f := by
  cases as with
  | nil => exact (Option.some.inj h).symm
  | cons a rest =>
      simp only [Machine.runs] at h
      split at h <;> cases h

/-- A run that has not faulted is the chain of its steps. -/
theorem foldlM_of_runs {init : σ → Prop} {step : σ → act → Except fault σ}
    {guard : Except fault σ → act → Prop} [∀ s a, Decidable (guard s a)] {s s' : σ}
    {as : List act} (h : (faulting init step).runs guard (.ok s) as = some (.ok s')) :
    as.foldlM step s = .ok s' := by
  induction as generalizing s with
  | nil => exact Option.some.inj h
  | cons a rest ih =>
      simp only [Machine.runs] at h
      split at h
      · obtain ⟨t, ht, hrest⟩ := Option.bind_eq_some_iff.mp h
        have hstep : step s a = t := Option.some.inj ht
        rw [List.foldlM_cons, hstep]
        cases t with
        | error f => cases runs_error hrest
        | ok u => exact ih hrest
      · cases h

/-- When every guarded step keeps the invariant or ends with an allowed fault,
so does every run. -/
theorem ends_of_reach {init : σ → Prop} {step : σ → act → Except fault σ}
    {guard : σ → act → Prop} {Inv : σ → Prop} {Allowed : fault → Prop}
    (hinit : ∀ s, init s → Inv s)
    (hstep : ∀ s a, Inv s → guard s a → Ends Inv Allowed (step s a))
    {s : Except fault σ} (h : (faulting init step).Reach (whileRunning guard) s) :
    Ends Inv Allowed s := by
  refine h.invariant ?_ ?_
  · rintro s ⟨s₀, rfl, h₀⟩
    exact hinit s₀ h₀
  · intro s a s' hs ok hnext
    cases s with
    | error f => cases hnext
    | ok s₀ =>
        obtain rfl := Option.some.inj hnext
        exact hstep s₀ a hs (ok s₀ rfl)

/-- When an invariant excludes every fault, no run faults and all keep the invariant. -/
theorem faultless {init : σ → Prop} {step : σ → act → Except fault σ}
    {guard : σ → act → Prop} {Inv : σ → Prop} (hinit : ∀ s, init s → Inv s)
    (hstep : ∀ s a, Inv s → guard s a → ∃ s', step s a = .ok s' ∧ Inv s')
    {s : Except fault σ} (h : (faulting init step).Reach (whileRunning guard) s) :
    ∃ s₀, s = .ok s₀ ∧ Inv s₀ := by
  have hends : Ends Inv (fun _ => False) s := by
    refine ends_of_reach hinit (fun s a hs ok => ?_) h
    obtain ⟨s', hs', hinv⟩ := hstep s a hs ok
    rw [hs']
    exact hinv
  cases s with
  | error f => exact hends.elim
  | ok s₀ => exact ⟨s₀, rfl, hends⟩

/-- The same for the runs that go on from a state with the invariant. -/
theorem faultless_from {init : σ → Prop} {step : σ → act → Except fault σ}
    {guard : σ → act → Prop} {Inv : σ → Prop} {s₀ : σ} (h₀ : Inv s₀)
    (hstep : ∀ s a, Inv s → guard s a → ∃ s', step s a = .ok s' ∧ Inv s')
    {s : Except fault σ}
    (h : ((faulting init step).startingAt (.ok s₀)).Reach (whileRunning guard) s) :
    ∃ s₁, s = .ok s₁ ∧ Inv s₁ := by
  induction h with
  | init hinit => exact ⟨s₀, hinit, h₀⟩
  | step _ ok hnext ih =>
      obtain ⟨s₁, rfl, h₁⟩ := ih
      obtain ⟨s₂, hs₂, h₂⟩ := hstep _ _ h₁ (ok _ rfl)
      exact ⟨s₂, (Option.some.inj hnext).symm.trans hs₂, h₂⟩

end Faulting

end Yatwb.Foundation
