import Mathlib.Data.List.Basic
import Mathlib.Data.List.TakeDrop

/-!
# Element-wise copies in a list of cells

The two loops below are the element-by-element copies of a standard
library: from a separate source, and from the same array. Each has one
closed form, under the bounds that keep the loop inside the array. The
second also needs the destination to lie before the source, since the loop
reads cells after it has written others.
-/

namespace Yatwb.Foundation

variable {α : Type*}

/-- Store the elements of `xs` one after another, starting at cell `pos`. -/
def writeAt (cells : List α) (pos : Nat) : List α → List α
  | [] => cells
  | x :: xs => writeAt (cells.set pos x) (pos + 1) xs

/-- Move `n` cells from `src` to `dst` of the same array, lowest cell first. -/
def copyWithin (cells : List α) (src dst : Nat) : Nat → List α
  | 0 => cells
  | n + 1 =>
      match cells[src]? with
      | some x => copyWithin (cells.set dst x) (src + 1) (dst + 1) n
      | none => cells

/-- Grow or truncate to exactly `n` cells; new cells hold `fill`. -/
def resize (cells : List α) (n : Nat) (fill : α) : List α :=
  cells.take n ++ List.replicate (n - cells.length) fill

/-- The cells with indices in `[first, last)`. -/
def segment (cells : List α) (first last : Nat) : List α :=
  (cells.drop first).take (last - first)

@[simp] theorem length_writeAt (cells : List α) (pos : Nat) (xs : List α) :
    (writeAt cells pos xs).length = cells.length := by
  induction xs generalizing cells pos with
  | nil => rfl
  | cons x xs ih => simp [writeAt, ih]

@[simp] theorem length_copyWithin (cells : List α) (src dst n : Nat) :
    (copyWithin cells src dst n).length = cells.length := by
  induction n generalizing cells src dst with
  | zero => rfl
  | succ n ih =>
      simp only [copyWithin]
      split
      · simp [ih]
      · rfl

@[simp] theorem length_resize (cells : List α) (n : Nat) (fill : α) :
    (resize cells n fill).length = n := by
  simp only [resize, List.length_append, List.length_take, List.length_replicate]
  omega

theorem length_segment (cells : List α) (first : Nat) {last : Nat} (h : last ≤ cells.length) :
    (segment cells first last).length = last - first := by
  simp only [segment, List.length_take, List.length_drop]
  omega

@[simp] theorem segment_self (cells : List α) (i : Nat) : segment cells i i = [] := by
  simp [segment]

theorem getElem?_writeAt (cells : List α) (pos : Nat) (xs : List α)
    (h : pos + xs.length ≤ cells.length) (i : Nat) :
    (writeAt cells pos xs)[i]? =
      if pos ≤ i ∧ i < pos + xs.length then xs[i - pos]? else cells[i]? := by
  induction xs generalizing cells pos with
  | nil =>
      have hout : ¬ (pos ≤ i ∧ i < pos + ([] : List α).length) := by
        simp only [List.length_nil]
        omega
      rw [if_neg hout]
      rfl
  | cons x xs ih =>
      simp only [List.length_cons] at h
      rw [writeAt, ih (cells.set pos x) (pos + 1) (by simp; omega)]
      simp only [List.length_cons, List.getElem?_set]
      by_cases hi : i = pos
      · subst hi
        rw [if_neg (by omega), if_pos rfl, if_pos (by omega), if_pos (by omega), Nat.sub_self]
        rfl
      · by_cases hin : pos + 1 ≤ i ∧ i < pos + 1 + xs.length
        · have hsub : i - pos = (i - (pos + 1)) + 1 := by omega
          simp only [if_pos hin, if_pos (show pos ≤ i ∧ i < pos + (xs.length + 1) by omega),
            hsub, List.getElem?_cons_succ]
        · simp only [if_neg hin, if_neg (show ¬ (pos ≤ i ∧ i < pos + (xs.length + 1)) by omega),
            if_neg (Ne.symm hi)]

/-- A forward copy to lower cells never reads a cell it has already written. -/
theorem getElem?_copyWithin (cells : List α) (src dst n : Nat) (hle : dst ≤ src)
    (h : src + n ≤ cells.length) (i : Nat) :
    (copyWithin cells src dst n)[i]? =
      if dst ≤ i ∧ i < dst + n then cells[i - dst + src]? else cells[i]? := by
  induction n generalizing cells src dst with
  | zero =>
      have hout : ¬ (dst ≤ i ∧ i < dst + 0) := by omega
      rw [if_neg hout]
      rfl
  | succ n ih =>
      have hsrc : src < cells.length := by omega
      simp only [copyWithin, List.getElem?_eq_getElem hsrc]
      rw [ih (cells.set dst cells[src]) (src + 1) (dst + 1) (by omega) (by simp; omega)]
      simp only [List.getElem?_set]
      by_cases hi : i = dst
      · subst hi
        rw [if_neg (by omega), if_pos rfl, if_pos (by omega), if_pos (by omega), Nat.sub_self,
          Nat.zero_add, List.getElem?_eq_getElem hsrc]
      · by_cases hin : dst + 1 ≤ i ∧ i < dst + 1 + n
        · have hpos : i - (dst + 1) + (src + 1) = i - dst + src := by omega
          simp only [if_pos hin, if_pos (show dst ≤ i ∧ i < dst + (n + 1) by omega), hpos,
            if_neg (show ¬ dst = i - dst + src by omega)]
        · simp only [if_neg hin, if_neg (show ¬ (dst ≤ i ∧ i < dst + (n + 1)) by omega),
            if_neg (Ne.symm hi)]

theorem getElem?_resize (cells : List α) (n : Nat) (fill : α) {i : Nat}
    (h : i < cells.length) (hn : i < n) : (resize cells n fill)[i]? = cells[i]? := by
  rw [resize, List.getElem?_append_left (by simp; omega), List.getElem?_take_of_lt hn]

theorem getElem?_segment (cells : List α) (first last i : Nat) :
    (segment cells first last)[i]? = if i < last - first then cells[first + i]? else none := by
  simp only [segment, List.getElem?_take, List.getElem?_drop]

/-- Two adjacent segments join. -/
theorem segment_append (cells : List α) {i j k : Nat} (hij : i ≤ j) (hjk : j ≤ k)
    (hk : k ≤ cells.length) : segment cells i j ++ segment cells j k = segment cells i k := by
  apply List.ext_getElem?
  intro m
  rw [List.getElem?_append]
  have hlen := length_segment cells i (Nat.le_trans hjk hk)
  simp only [getElem?_segment, hlen]
  by_cases hm : m < j - i
  · simp only [if_pos hm, if_pos (show m < k - i by omega)]
  · by_cases hm' : m < k - i
    · simp only [if_neg hm, if_pos hm', if_pos (show m - (j - i) < k - j by omega),
        show j + (m - (j - i)) = i + m by omega]
    · simp only [if_neg hm, if_neg hm', if_neg (show ¬ m - (j - i) < k - j by omega)]

theorem drop_segment (cells : List α) (i k n : Nat) :
    (segment cells i k).drop n = segment cells (i + n) k := by
  simp only [segment, List.drop_take, List.drop_drop, Nat.sub_sub]

/-- Cells outside the written range keep their segment. -/
theorem segment_writeAt_of_disjoint (cells : List α) (pos : Nat) (xs : List α) {i j : Nat}
    (h : pos + xs.length ≤ cells.length) (hd : j ≤ pos ∨ pos + xs.length ≤ i) :
    segment (writeAt cells pos xs) i j = segment cells i j := by
  apply List.ext_getElem?
  intro m
  simp only [getElem?_segment]
  split
  · rw [getElem?_writeAt cells pos xs h, if_neg (by omega)]
  · rfl

/-- The written range holds exactly what was written. -/
theorem segment_writeAt_self (cells : List α) (pos : Nat) (xs : List α)
    (h : pos + xs.length ≤ cells.length) :
    segment (writeAt cells pos xs) pos (pos + xs.length) = xs := by
  apply List.ext_getElem?
  intro m
  simp only [getElem?_segment, Nat.add_sub_cancel_left]
  by_cases hm : m < xs.length
  · rw [if_pos hm, getElem?_writeAt cells pos xs h, if_pos (by omega), Nat.add_sub_cancel_left]
  · rw [if_neg hm, List.getElem?_eq_none (by omega)]

/-- The destination of a forward copy holds the old source. -/
theorem segment_copyWithin (cells : List α) (src dst n : Nat) (hle : dst ≤ src)
    (h : src + n ≤ cells.length) :
    segment (copyWithin cells src dst n) dst (dst + n) = segment cells src (src + n) := by
  apply List.ext_getElem?
  intro m
  simp only [getElem?_segment, Nat.add_sub_cancel_left]
  by_cases hm : m < n
  · rw [if_pos hm, if_pos hm, getElem?_copyWithin cells src dst n hle h, if_pos (by omega)]
    congr 1
    omega
  · rw [if_neg hm, if_neg hm]

/-- Growing the array keeps every segment of the old one. -/
theorem segment_resize (cells : List α) (n : Nat) (fill : α) {i j : Nat}
    (hj : j ≤ cells.length) (hn : cells.length ≤ n) :
    segment (resize cells n fill) i j = segment cells i j := by
  apply List.ext_getElem?
  intro m
  simp only [getElem?_segment]
  split
  · exact getElem?_resize cells n fill (by omega) (by omega)
  · rfl

end Yatwb.Foundation
