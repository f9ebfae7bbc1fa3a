import Mathlib.Order.Lattice
import Mathlib.Data.List.Nodup
import Mathlib.Data.List.TakeWhile

/-!
# Ordered sets by a key

A set whose members are compared by a key is the list of its members in
ascending order. A new member goes to its place; a member with the key of
another one is refused. The members below a bound are the beginning of the
list.
-/

namespace Yatwb.Foundation

universe u v

variable {α : Type u} {κ : Type v} [LinearOrder κ] (key : α → κ)

/-- The members are in ascending order, with different keys. -/
def Ascending (xs : List α) : Prop := xs.Pairwise fun a b => key a < key b

/-- Insert a member, or refuse it because its key is taken. -/
def insertUnique (x : α) : List α → Option (List α)
  | [] => some [x]
  | y :: rest =>
      if key x < key y then some (x :: y :: rest)
      else if key y < key x then (insertUnique x rest).map (y :: ·)
      else none

/-- The members below a bound. -/
def below (bound : κ) (xs : List α) : List α := xs.takeWhile fun x => key x < bound

/-- The members from the lower bound on. -/
def fromLowerBound (bound : κ) (xs : List α) : List α := xs.dropWhile fun x => key x < bound

variable {key} {x : α} {xs ys : List α}

theorem insertUnique_perm (h : insertUnique key x xs = some ys) : ys.Perm (x :: xs) := by
  induction xs generalizing ys with
  | nil =>
      obtain rfl := Option.some.inj h
      exact List.Perm.refl _
  | cons y rest ih =>
      simp only [insertUnique] at h
      split at h
      · obtain rfl := Option.some.inj h
        exact List.Perm.refl _
      · split at h
        · obtain ⟨zs, hzs, rfl⟩ := Option.map_eq_some_iff.mp h
          exact ((ih hzs).cons y).trans (List.Perm.swap x y rest)
        · cases h

/-- A key that is not taken is not refused. -/
theorem exists_insertUnique (hfresh : ∀ y ∈ xs, key y ≠ key x) :
    ∃ ys, insertUnique key x xs = some ys := by
  induction xs with
  | nil => exact ⟨[x], rfl⟩
  | cons y rest ih =>
      simp only [insertUnique]
      split
      · exact ⟨_, rfl⟩
      · rename_i hxy
        have hyx : key y < key x :=
          lt_of_le_of_ne (not_lt.mp hxy) (hfresh y (List.mem_cons_self ..))
        obtain ⟨zs, hzs⟩ := ih fun z hz => hfresh z (List.mem_cons_of_mem _ hz)
        rw [if_pos hyx, hzs]
        exact ⟨y :: zs, rfl⟩

theorem ascending_insertUnique (hxs : Ascending key xs) (h : insertUnique key x xs = some ys) :
    Ascending key ys := by
  induction xs generalizing ys with
  | nil =>
      obtain rfl := Option.some.inj h
      exact List.pairwise_singleton ..
  | cons y rest ih =>
      obtain ⟨hy, hrest⟩ := List.pairwise_cons.mp hxs
      simp only [insertUnique] at h
      split at h
      · rename_i hxy
        obtain rfl := Option.some.inj h
        refine List.pairwise_cons.mpr ⟨?_, hxs⟩
        intro z hz
        rcases List.mem_cons.mp hz with rfl | hz
        · exact hxy
        · exact lt_trans hxy (hy z hz)
      · split at h
        · rename_i hyx
          obtain ⟨zs, hzs, rfl⟩ := Option.map_eq_some_iff.mp h
          refine List.pairwise_cons.mpr ⟨?_, ih hrest hzs⟩
          intro z hz
          rcases List.mem_cons.mp ((insertUnique_perm hzs).mem_iff.mp hz) with rfl | hz
          · exact hyx
          · exact hy z hz
        · cases h

/-- The first member has the smallest key. -/
theorem Ascending.head_le (h : Ascending key (x :: xs)) {y : α} (hy : y ∈ x :: xs) :
    key x ≤ key y := by
  rcases List.mem_cons.mp hy with rfl | hy
  · exact le_rfl
  · exact le_of_lt ((List.pairwise_cons.mp h).1 y hy)

theorem below_append_fromLowerBound (key : α → κ) (bound : κ) (xs : List α) :
    below key bound xs ++ fromLowerBound key bound xs = xs :=
  List.takeWhile_append_dropWhile

theorem Ascending.fromLowerBound (h : Ascending key xs) (bound : κ) :
    Ascending key (fromLowerBound key bound xs) :=
  h.sublist (List.dropWhile_sublist _)

/-- No member from the lower bound on is below the bound. -/
theorem Ascending.le_of_mem_fromLowerBound (h : Ascending key xs) {bound : κ} {y : α}
    (hy : y ∈ Foundation.fromLowerBound key bound xs) : bound ≤ key y := by
  have hascending := h.fromLowerBound bound
  cases hrest : Foundation.fromLowerBound key bound xs with
  | nil =>
      rw [hrest] at hy
      cases hy
  | cons z rest =>
      rw [hrest] at hy hascending
      have hz : ¬ key z < bound := by
        have hhead := List.head?_dropWhile_not (fun x => decide (key x < bound)) xs
        rw [Foundation.fromLowerBound] at hrest
        rw [hrest] at hhead
        simpa using hhead
      exact le_trans (not_lt.mp hz) (hascending.head_le hy)

theorem lt_of_mem_below {bound : κ} {y : α} (hy : y ∈ below key bound xs) : key y < bound := by
  simpa using List.mem_takeWhile_imp hy

/-- The lower bound splits the members by the bound. -/
theorem Ascending.below_eq_filter (h : Ascending key xs) (bound : κ) :
    below key bound xs = xs.filter fun x => key x < bound := by
  have hbelow : (below key bound xs).filter (fun x => key x < bound) = below key bound xs :=
    List.filter_eq_self.mpr fun y hy => decide_eq_true (lt_of_mem_below hy)
  have hrest : (Foundation.fromLowerBound key bound xs).filter (fun x => key x < bound) = [] :=
    List.filter_eq_nil_iff.mpr fun y hy hlt =>
      absurd (of_decide_eq_true hlt) (not_lt.mpr (h.le_of_mem_fromLowerBound hy))
  calc below key bound xs
      = (below key bound xs ++ Foundation.fromLowerBound key bound xs).filter
          fun x => key x < bound := by rw [List.filter_append, hbelow, hrest, List.append_nil]
    _ = xs.filter fun x => key x < bound := by rw [below_append_fromLowerBound]

theorem Ascending.fromLowerBound_eq_filter (h : Ascending key xs) (bound : κ) :
    Foundation.fromLowerBound key bound xs = xs.filter fun x => bound ≤ key x := by
  have hbelow : (below key bound xs).filter (fun x => bound ≤ key x) = [] :=
    List.filter_eq_nil_iff.mpr fun y hy hle =>
      absurd (of_decide_eq_true hle) (not_le.mpr (lt_of_mem_below hy))
  have hrest : (Foundation.fromLowerBound key bound xs).filter (fun x => bound ≤ key x) =
      Foundation.fromLowerBound key bound xs :=
    List.filter_eq_self.mpr fun y hy => decide_eq_true (h.le_of_mem_fromLowerBound hy)
  calc Foundation.fromLowerBound key bound xs
      = (below key bound xs ++ Foundation.fromLowerBound key bound xs).filter
          fun x => bound ≤ key x := by rw [List.filter_append, hbelow, hrest, List.nil_append]
    _ = xs.filter fun x => bound ≤ key x := by rw [below_append_fromLowerBound]

section Map

universe w

variable {β : Type w} {key' : β → κ} {f : α → β}

/-- Members that stand for others are inserted where those are. -/
theorem insertUnique_map (h : ∀ y ∈ x :: xs, key' (f y) = key y) :
    insertUnique key' (f x) (xs.map f) = (insertUnique key x xs).map (List.map f) := by
  induction xs with
  | nil => rfl
  | cons y rest ih =>
      have hx : key' (f x) = key x := h x (List.mem_cons_self ..)
      have hy : key' (f y) = key y := h y (List.mem_cons_of_mem _ (List.mem_cons_self ..))
      have hrest : ∀ z ∈ x :: rest, key' (f z) = key z := by
        intro z hz
        rcases List.mem_cons.mp hz with rfl | hz
        · exact hx
        · exact h z (List.mem_cons_of_mem _ (List.mem_cons_of_mem _ hz))
      simp only [List.map_cons, insertUnique, hx, hy, ih hrest]
      split
      · rfl
      · split
        · simp only [Option.map_map]
          rfl
        · rfl

theorem below_map (bound : κ) (h : ∀ y ∈ xs, key' (f y) = key y) :
    below key' bound (xs.map f) = (below key bound xs).map f := by
  induction xs with
  | nil => rfl
  | cons y rest ih =>
      have hrest := ih fun z hz => h z (List.mem_cons_of_mem _ hz)
      simp only [below] at hrest ⊢
      simp only [List.map_cons, List.takeWhile_cons, h y (List.mem_cons_self ..), hrest]
      split <;> rfl

theorem fromLowerBound_map (bound : κ) (h : ∀ y ∈ xs, key' (f y) = key y) :
    fromLowerBound key' bound (xs.map f) = (fromLowerBound key bound xs).map f := by
  induction xs with
  | nil => rfl
  | cons y rest ih =>
      have hrest := ih fun z hz => h z (List.mem_cons_of_mem _ hz)
      simp only [fromLowerBound] at hrest ⊢
      simp only [List.map_cons, List.dropWhile_cons, h y (List.mem_cons_self ..), hrest]
      split <;> rfl

end Map

end Yatwb.Foundation
