import Mathlib.Logic.Relation

/-!
# Relays

A relay passes on what arrives, in the order of its arrival. It is started once
and stopped at most once. What it holds when it is stopped is lost.
-/

namespace Yatwb.Foundation

universe u

/-- What a relay has passed on and what it still holds. -/
inductive Relay (α : Type u) where
  | idle
  | running (passed held : List α)
  | stopped (passed lost : List α)
deriving DecidableEq

namespace Relay

variable {α : Type u} {passed held held' data arrived : List α} {r : Relay α}

inductive Step : Relay α → Relay α → Prop
  | start : Step idle (running [] [])
  | arrive (passed held data : List α) : Step (running passed held) (running passed (held ++ data))
  | pass (passed data held : List α) :
      Step (running passed (data ++ held)) (running (passed ++ data) held)
  | stop (passed held : List α) : Step (running passed held) (stopped passed held)

/-- Any number of steps. -/
abbrev Steps : Relay α → Relay α → Prop := Relation.ReflTransGen Step

/-- Some data arrive, and the relay passes on a beginning of what it holds then. -/
theorem carries (h : data ++ held' = held ++ arrived) :
    Steps (running passed held) (running (passed ++ data) held') := by
  have harrive : Steps (running passed held) (running passed (data ++ held')) := by
    rw [h]
    exact .single (.arrive passed held arrived)
  exact harrive.tail (.pass passed data held')

/-- A stopped relay stays as it is. -/
theorem eq_of_stopped (h : Steps (stopped passed held) r) : r = stopped passed held := by
  induction h with
  | refl => rfl
  | tail _ hstep ih =>
      rw [ih] at hstep
      cases hstep

end Relay

end Yatwb.Foundation
