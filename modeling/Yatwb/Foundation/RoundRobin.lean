import Mathlib.Data.Int.CardIntervalMod
import Mathlib.Data.List.Induction

/-!
# Taking turns

A list takes its elements from another list in turn, when the element at each
position is the one at that position modulo the length. Then any two elements
of the other list occur about equally often: their counts differ by one at most.
-/

namespace Yatwb.Foundation

universe u

variable {α : Type u} {xs ys : List α} {y : α}

/-- The elements of `ys` are those of `xs`, over and over again. -/
def InTurn (xs ys : List α) : Prop := ∀ k, k < ys.length → ys[k]? = xs[k % xs.length]?

theorem inTurn_nil (xs : List α) : InTurn xs [] := fun k hk => absurd hk (Nat.not_lt_zero k)

theorem InTurn.concat (h : InTurn xs ys) (hy : xs[ys.length % xs.length]? = some y) :
    InTurn xs (ys ++ [y]) := by
  intro k hk
  rw [List.length_append, List.length_singleton] at hk
  rcases Nat.lt_or_eq_of_le (Nat.le_of_lt_succ hk) with hlt | rfl
  · rw [List.getElem?_append_left hlt]
    exact h k hlt
  · rw [List.getElem?_concat_length, hy]

theorem InTurn.of_concat (h : InTurn xs (ys ++ [y])) :
    InTurn xs ys ∧ xs[ys.length % xs.length]? = some y := by
  have hlength : (ys ++ [y]).length = ys.length + 1 := by
    rw [List.length_append, List.length_singleton]
  constructor
  · intro k hk
    rw [← h k (by omega), List.getElem?_append_left hk]
  · rw [← h ys.length (by omega), List.getElem?_concat_length]

/-- An element occurs as often as its position is met modulo the length. -/
theorem InTurn.count [DecidableEq α] (h : InTurn xs ys) (hnodup : xs.Nodup) {i : Nat}
    (hi : i < xs.length) : ys.count xs[i] = Nat.count (· ≡ i [MOD xs.length]) ys.length := by
  induction ys using List.reverseRecOn with
  | nil => rfl
  | append_singleton ys y ih =>
      obtain ⟨hys, hy⟩ := h.of_concat
      have hsame : y = xs[i] ↔ ys.length ≡ i [MOD xs.length] := by
        obtain ⟨hlt, rfl⟩ := List.getElem?_eq_some_iff.mp hy
        rw [hnodup.getElem_inj_iff, Nat.ModEq, Nat.mod_eq_of_lt hi]
      rw [List.count_append, ih hys, List.length_append, List.length_singleton, Nat.count_succ,
        List.count_singleton]
      simp only [beq_iff_eq, hsame]

/-- No element is more than one turn ahead of another. -/
theorem InTurn.balanced [DecidableEq α] (h : InTurn xs ys) (hnodup : xs.Nodup) {x x' : α}
    (hx : x ∈ xs) (hx' : x' ∈ xs) : ys.count x ≤ ys.count x' + 1 := by
  obtain ⟨i, hi, rfl⟩ := List.getElem_of_mem hx
  obtain ⟨j, hj, rfl⟩ := List.getElem_of_mem hx'
  have hpos : 0 < xs.length := Nat.zero_lt_of_lt hi
  rw [h.count hnodup hi, h.count hnodup hj, Nat.count_modEq_card _ hpos,
    Nat.count_modEq_card _ hpos]
  split <;> split <;> omega

end Yatwb.Foundation
