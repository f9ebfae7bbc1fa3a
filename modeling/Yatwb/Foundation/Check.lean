import Mathlib.Init

/-!
# Run-time checks

A check ends the computation with a fault when its condition is false. The
lemmas split a successful chain of checks and calls into its links. `Ends`
is the postcondition of a computation together with the faults it may end
with, and its rules follow the links of a chain. `Corresponds` relates two
computations in the same way.
-/

namespace Yatwb.Foundation

universe u v

variable {ε : Type u} {α β : Type v}

/-- An `assert`: continue, or stop with the fault `e`. -/
def check (p : Prop) [Decidable p] (e : ε) : Except ε PUnit.{v + 1} :=
  if p then .ok ⟨⟩ else .error e

theorem check_of {p : Prop} [Decidable p] (e : ε) (h : p) :
    check p e = (.ok ⟨⟩ : Except ε PUnit.{v + 1}) :=
  if_pos h

/-- A check that holds is passed over. -/
theorem check_bind_of {p : Prop} [Decidable p] (e : ε) (h : p) (f : PUnit.{v + 1} → Except ε β) :
    check p e >>= f = f ⟨⟩ := by
  rw [check_of e h]
  rfl

/-- A check that fails ends the chain. -/
theorem check_bind_of_not {p : Prop} [Decidable p] (e : ε) (h : ¬ p)
    (f : PUnit.{v + 1} → Except ε β) : check p e >>= f = .error e := by
  rw [check, if_neg h]
  rfl

@[simp] theorem check_eq_ok {p : Prop} [Decidable p] {e : ε} {x : PUnit.{v + 1}} :
    check p e = .ok x ↔ p := by
  unfold check
  split <;> simp_all

/-- A chain succeeds exactly when its first link does and the rest succeeds on its result. -/
theorem bind_eq_ok {x : Except ε α} {f : α → Except ε β} {b : β} :
    x >>= f = .ok b ↔ ∃ a, x = .ok a ∧ f a = .ok b := by
  cases x with
  | error e => simp [bind, Except.bind]
  | ok a => simp [bind, Except.bind]

/-- A chain that begins with a check succeeds exactly when the check and the rest do. -/
theorem check_bind_eq_ok {p : Prop} [Decidable p] {e : ε} {f : PUnit.{v + 1} → Except ε β} {b : β} :
    check p e >>= f = .ok b ↔ p ∧ f ⟨⟩ = .ok b := by
  rw [bind_eq_ok]
  constructor
  · rintro ⟨_, hp, hf⟩
    exact ⟨check_eq_ok.mp hp, hf⟩
  · rintro ⟨hp, hf⟩
    exact ⟨⟨⟩, check_of e hp, hf⟩

theorem toOption_eq_some {x : Except ε α} {a : α} : x.toOption = some a ↔ x = .ok a := by
  cases x with
  | error e => simp [Except.toOption]
  | ok b => simp [Except.toOption]

/-- What a computation leaves: a result with `Post`, or a fault with `Allowed`. -/
def Ends (Post : α → Prop) (Allowed : ε → Prop) : Except ε α → Prop
  | .ok a => Post a
  | .error e => Allowed e

instance {Post : α → Prop} {Allowed : ε → Prop} [∀ a, Decidable (Post a)]
    [∀ e, Decidable (Allowed e)] : ∀ x : Except ε α, Decidable (Ends Post Allowed x)
  | .ok a => inferInstanceAs (Decidable (Post a))
  | .error e => inferInstanceAs (Decidable (Allowed e))

section Ends

variable {Post Post' : α → Prop} {After : β → Prop} {Allowed Allowed' : ε → Prop}
  {x : Except ε α}

/-- What holds of every outcome. -/
theorem ends_of (h : ∀ a, x = .ok a → Post a) (he : ∀ e, x = .error e → Allowed e) :
    Ends Post Allowed x := by
  cases x with
  | error e => exact he e rfl
  | ok a => exact h a rfl

theorem ends_any (x : Except ε α) : Ends (fun _ => True) (fun _ => True) x :=
  ends_of (fun _ _ => trivial) fun _ _ => trivial

theorem Ends.of_eq_ok {a : α} (h : Ends Post Allowed x) (hx : x = .ok a) : Post a := by
  rw [hx] at h
  exact h

theorem Ends.of_eq_error {e : ε} (h : Ends Post Allowed x) (hx : x = .error e) : Allowed e := by
  rw [hx] at h
  exact h

theorem Ends.mono (h : Ends Post Allowed x) (hpost : ∀ a, Post a → Post' a) :
    Ends Post' Allowed x := by
  cases x with
  | error e => exact h
  | ok a => exact hpost a h

theorem Ends.weaken (h : Ends Post Allowed x) (hallowed : ∀ e, Allowed e → Allowed' e) :
    Ends Post Allowed' x := by
  cases x with
  | error e => exact hallowed e h
  | ok a => exact h

/-- Two postconditions of one computation. -/
theorem Ends.and (h : Ends Post Allowed x) (h' : Ends Post' Allowed' x) :
    Ends (fun a => Post a ∧ Post' a) (fun e => Allowed e ∧ Allowed' e) x := by
  cases x with
  | error e => exact ⟨h, h'⟩
  | ok a => exact ⟨h, h'⟩

/-- The rule of a chain. -/
theorem Ends.bind {f : α → Except ε β} (h : Ends Post Allowed x)
    (hf : ∀ a, Post a → Ends After Allowed (f a)) : Ends After Allowed (x >>= f) := by
  cases x with
  | error e => exact h
  | ok a => exact hf a h

/-- The rule of a chain whose first link says nothing. -/
theorem ends_bind {f : α → Except ε β} (hf : ∀ a, Ends After (fun _ => True) (f a)) :
    Ends After (fun _ => True) (x >>= f) :=
  (ends_any x).bind fun a _ => hf a

/-- The rule of a check: what follows may use its condition. -/
theorem ends_check {p : Prop} [Decidable p] {e : ε} {f : PUnit.{v + 1} → Except ε β}
    (he : ¬ p → Allowed e) (hf : p → Ends After Allowed (f ⟨⟩)) :
    Ends After Allowed (check p e >>= f) := by
  by_cases hp : p
  · rw [check_bind_of e hp]
    exact hf hp
  · unfold check
    rw [if_neg hp]
    exact he hp

/-- The rule of a translated fault. -/
theorem Ends.mapError {ε' : Type u} {g : ε → ε'} {Allowed' : ε' → Prop}
    (h : Ends Post Allowed x) (hg : ∀ e, Allowed e → Allowed' (g e)) :
    Ends Post Allowed' (x.mapError g) := by
  cases x with
  | error e => exact hg e h
  | ok a => exact h

end Ends

section Corresponds

universe w

variable {ε' : Type w} {γ δ : Type v} {R : α → γ → Prop} {S : β → δ → Prop}
  {Excused : ε → Prop} {Same : ε → ε' → Prop} {x : Except ε α} {y : Except ε' γ}

/-- The second computation goes with the first one: it ends with a related result or the
same fault, unless the first one ends with an excused fault. -/
def Corresponds (R : α → γ → Prop) (Excused : ε → Prop) (Same : ε → ε' → Prop)
    (x : Except ε α) (y : Except ε' γ) : Prop :=
  Ends (fun a => ∃ c, y = .ok c ∧ R a c) (fun e => Excused e ∨ ∃ e', y = .error e' ∧ Same e e') x

theorem Corresponds.mono {R' : α → γ → Prop} (h : Corresponds R Excused Same x y)
    (hpost : ∀ a c, R a c → R' a c) : Corresponds R' Excused Same x y := by
  refine Ends.mono h ?_
  rintro a ⟨c, hc, hac⟩
  exact ⟨c, hc, hpost a c hac⟩

/-- What is known of each of the two results. -/
theorem Corresponds.and {Post : α → Prop} {Post' : γ → Prop} {Allowed : ε → Prop}
    {Allowed' : ε' → Prop} (h : Corresponds R Excused Same x y) (hx : Ends Post Allowed x)
    (hy : Ends Post' Allowed' y) :
    Corresponds (fun a c => R a c ∧ Post a ∧ Post' c) Excused Same x y := by
  cases x with
  | error e => exact h
  | ok a =>
      obtain ⟨c, hc, hac⟩ := h
      exact ⟨c, hc, hac, hx, hy.of_eq_ok hc⟩

/-- The rule of two chains with the same links. -/
theorem Corresponds.bind {f : α → Except ε β} {g : γ → Except ε' δ}
    (h : Corresponds R Excused Same x y)
    (hfg : ∀ a c, R a c → Corresponds S Excused Same (f a) (g c)) :
    Corresponds S Excused Same (x >>= f) (y >>= g) := by
  cases x with
  | error e =>
      refine Or.imp id ?_ h
      rintro ⟨e', he', hsame⟩
      rw [he']
      exact ⟨e', rfl, hsame⟩
  | ok a =>
      obtain ⟨c, hc, hac⟩ := h
      rw [hc]
      exact hfg a c hac

/-- The rule of a link of the first chain that the second one lacks. -/
theorem Corresponds.skip {Post : α → Prop} {f : α → Except ε β} {z : Except ε' δ}
    (h : Ends Post Excused x) (hf : ∀ a, Post a → Corresponds S Excused Same (f a) z) :
    Corresponds S Excused Same (x >>= f) z := by
  cases x with
  | error e => exact .inl h
  | ok a => exact hf a h

end Corresponds

end Yatwb.Foundation
