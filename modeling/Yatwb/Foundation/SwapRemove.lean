import Mathlib.Data.List.Basic
import Mathlib.Data.List.Nodup

/-!
# Removal by moving the last element

A vector gives up position `i` in constant time: its last element takes the
free place and the vector loses its last position.
-/

namespace Yatwb.Foundation

variable {α : Type*}

/-- A position of `xs ++ [x]` is one of `xs` or the new last one. -/
theorem getElem?_concat_eq_some {xs : List α} {x y : α} {i : Nat} :
    (xs ++ [x])[i]? = some y ↔ xs[i]? = some y ∨ i = xs.length ∧ x = y := by
  by_cases hi : i < xs.length
  · rw [List.getElem?_append_left hi]
    simp [Nat.ne_of_lt hi]
  · rw [List.getElem?_append_right (by omega), List.getElem?_singleton,
      List.getElem?_eq_none (by omega : xs.length ≤ i)]
    by_cases he : i = xs.length
    · simp [he]
    · simp [he, show i - xs.length ≠ 0 by omega]

/-- Move the last element to position `i` and drop the last position. -/
def swapRemove (xs : List α) (i : Nat) : List α :=
  match xs.getLast? with
  | some y => (xs.set i y).dropLast
  | none => []

@[simp] theorem length_swapRemove (xs : List α) (i : Nat) :
    (swapRemove xs i).length = xs.length - 1 := by
  unfold swapRemove
  split
  · simp
  · rename_i h
    simp [List.getLast?_eq_none_iff.mp h]

theorem getElem?_swapRemove (xs : List α) (i j : Nat) :
    (swapRemove xs i)[j]? =
      if j < xs.length - 1 then (if j = i then xs[xs.length - 1]? else xs[j]?) else none := by
  unfold swapRemove
  split
  · rename_i y hy
    rw [List.getLast?_eq_getElem?] at hy
    rw [List.getElem?_dropLast, List.length_set]
    by_cases hj : j < xs.length - 1
    · rw [if_pos hj, if_pos hj, List.getElem?_set, hy]
      by_cases hi : i = j
      · subst hi
        rw [if_pos rfl, if_pos rfl, if_pos (by omega)]
      · rw [if_neg hi, if_neg (Ne.symm hi)]
    · rw [if_neg hj, if_neg hj]
  · rename_i h
    simp [List.getLast?_eq_none_iff.mp h]

/-- Every surviving position holds an old element from a position other than `i`. -/
theorem getElem?_of_swapRemove {xs : List α} {i j : Nat} {y : α}
    (h : (swapRemove xs i)[j]? = some y) :
    ∃ m, xs[m]? = some y ∧ m ≠ i ∧ (m = j ∨ m = xs.length - 1 ∧ j = i) ∧ j < xs.length - 1 := by
  rw [getElem?_swapRemove] at h
  split at h
  · rename_i hj
    split at h
    · rename_i hji
      exact ⟨xs.length - 1, h, by omega, Or.inr ⟨rfl, hji⟩, hj⟩
    · rename_i hji
      exact ⟨j, h, hji, Or.inl rfl, hj⟩
  · cases h

/-- Where the element of an old position went. -/
theorem exists_getElem?_swapRemove {xs : List α} {i m : Nat} {y : α}
    (h : xs[m]? = some y) (hi : i < xs.length) (hm : m ≠ i) :
    ∃ j, (swapRemove xs i)[j]? = some y ∧ (m = j ∨ m = xs.length - 1 ∧ j = i) := by
  have hlt : m < xs.length := (List.getElem?_eq_some_iff.mp h).1
  by_cases hlast : m = xs.length - 1
  · refine ⟨i, ?_, Or.inr ⟨hlast, rfl⟩⟩
    rw [getElem?_swapRemove, if_pos (by omega), if_pos rfl, ← hlast, h]
  · refine ⟨m, ?_, Or.inl rfl⟩
    rw [getElem?_swapRemove, if_pos (by omega), if_neg hm, h]

theorem nodup_iff_getElem?_inj {xs : List α} :
    xs.Nodup ↔ ∀ (i j : Nat) (y : α), xs[i]? = some y → xs[j]? = some y → i = j := by
  rw [List.nodup_iff_getElem?_ne_getElem?]
  constructor
  · intro h i j y hi hj
    rcases Nat.lt_trichotomy i j with hij | hij | hij
    · exact absurd (hi.trans hj.symm) (h i j hij (List.getElem?_eq_some_iff.mp hj).1)
    · exact hij
    · exact absurd (hj.trans hi.symm) (h j i hij (List.getElem?_eq_some_iff.mp hi).1)
  · intro h i j hij hj heq
    have hy := List.getElem?_eq_getElem hj
    exact absurd (h i j _ (heq.trans hy) hy) (by omega)

theorem nodup_swapRemove {xs : List α} (h : xs.Nodup) (i : Nat) : (swapRemove xs i).Nodup := by
  rw [nodup_iff_getElem?_inj] at h ⊢
  intro a b y ha hb
  obtain ⟨m, hm, hmi, hma, ha'⟩ := getElem?_of_swapRemove ha
  obtain ⟨n, hn, hni, hnb, hb'⟩ := getElem?_of_swapRemove hb
  have := h m n y hm hn
  omega

/-- The removed list has the old members without the one at `i`. -/
theorem mem_swapRemove {xs : List α} (h : xs.Nodup) {i : Nat} {x : α} (hx : xs[i]? = some x)
    (y : α) : y ∈ swapRemove xs i ↔ y ∈ xs ∧ y ≠ x := by
  rw [nodup_iff_getElem?_inj] at h
  constructor
  · intro hy
    obtain ⟨j, hj⟩ := List.getElem?_of_mem hy
    obtain ⟨m, hm, hmi, -⟩ := getElem?_of_swapRemove hj
    refine ⟨List.mem_of_getElem? hm, ?_⟩
    rintro rfl
    exact hmi (h m i y hm hx)
  · rintro ⟨hy, hne⟩
    obtain ⟨m, hm⟩ := List.getElem?_of_mem hy
    have hmi : m ≠ i := by
      rintro rfl
      exact hne (Option.some.inj (hm.symm.trans hx))
    obtain ⟨j, hj, -⟩ := exists_getElem?_swapRemove hm (List.getElem?_eq_some_iff.mp hx).1 hmi
    exact List.mem_of_getElem? hj

end Yatwb.Foundation
