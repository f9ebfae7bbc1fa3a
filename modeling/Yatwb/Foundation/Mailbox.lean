import Mathlib.Logic.Function.Basic

/-!
# Mailboxes

Many callers hand letters to one server. A caller other than the server puts
each letter in a box, one at a time. The server empties the box in batches and
handles a batch letter by letter. A letter of the server's own may be handled
at once, without the box. The ordered letters are those that take one of these
two ways depending on the caller; other letters always go through the box.

The lists of issued, posted and handled letters are the history. Whatever the
interleaving, the box is first in, first out, every letter is handled at most
once, and the ordered letters of each caller are handled in their order.
-/

namespace Yatwb.Foundation

/-- What a caller hands over. -/
structure Letter (ι α : Type) where
  content : α
  caller : ι
  ordered : Bool
  deriving DecidableEq, Repr

/-- The letters on their way, and the history of the box. -/
structure Mailbox (ι α : Type) where
  issued : List (Letter ι α)
  carried : ι → List (Letter ι α)
  posted : List (Letter ι α)
  box : List (Letter ι α)
  batch : List (Letter ι α)
  served : List (Letter ι α)
  direct : List (Letter ι α)
  handled : List (Letter ι α)

namespace Mailbox

variable {ι α : Type} [DecidableEq ι]

/-- The ordered letters of a caller. -/
def orderedOf (c : ι) (letters : List (Letter ι α)) : List (Letter ι α) :=
  letters.filter fun l => l.ordered && decide (l.caller = c)

@[simp] theorem orderedOf_nil (c : ι) : orderedOf c ([] : List (Letter ι α)) = [] := rfl

@[simp] theorem orderedOf_append (c : ι) (xs ys : List (Letter ι α)) :
    orderedOf c (xs ++ ys) = orderedOf c xs ++ orderedOf c ys :=
  List.filter_append _ _

theorem orderedOf_cons (c : ι) (x : Letter ι α) (xs : List (Letter ι α)) :
    orderedOf c (x :: xs) = orderedOf c [x] ++ orderedOf c xs :=
  orderedOf_append c [x] xs

theorem orderedOf_of_ne {c : ι} {l : Letter ι α} (h : l.caller ≠ c) : orderedOf c [l] = [] := by
  simp [orderedOf, h]

/-- Letters that are not ordered, or not from `c`, leave nothing. -/
theorem orderedOf_eq_nil {c : ι} {xs : List (Letter ι α)}
    (h : ∀ l ∈ xs, l.ordered = true → l.caller ≠ c) : orderedOf c xs = [] := by
  rw [orderedOf, List.filter_eq_nil_iff]
  intro l hl
  simpa using h l hl

/-- The steps of callers and server. -/
inductive Step (server : ι) : Mailbox ι α → Mailbox ι α → Prop
  | direct (m : Mailbox ι α) (l : Letter ι α) (hcaller : l.caller = server)
      (hordered : l.ordered = true) :
      Step server m
        { m with
          issued := m.issued ++ [l]
          direct := m.direct ++ [l]
          handled := m.handled ++ [l] }
  | issue (m : Mailbox ι α) (l : Letter ι α) (hfree : m.carried l.caller = [])
      (hroute : l.ordered = true → l.caller ≠ server) :
      Step server m
        { m with
          issued := m.issued ++ [l]
          carried := Function.update m.carried l.caller [l] }
  | post (m : Mailbox ι α) (c : ι) (l : Letter ι α) (hcarried : m.carried c = [l]) :
      Step server m
        { m with
          carried := Function.update m.carried c []
          posted := m.posted ++ [l]
          box := m.box ++ [l] }
  | take (m : Mailbox ι α) (hbatch : m.batch = []) :
      Step server m { m with batch := m.box, box := [] }
  | serve (m : Mailbox ι α) (l : Letter ι α) (rest : List (Letter ι α))
      (hbatch : m.batch = l :: rest) :
      Step server m
        { m with
          batch := rest
          served := m.served ++ [l]
          handled := m.handled ++ [l] }

/-- What every history satisfies. -/
structure Inv (server : ι) (m : Mailbox ι α) : Prop where
  fifo : m.served ++ m.batch ++ m.box = m.posted
  carried_from : ∀ c, ∀ l ∈ m.carried c, l.caller = c ∧ (l.ordered = true → c ≠ server)
  direct_own : ∀ l ∈ m.direct, l.caller = server ∧ l.ordered = true
  posted_other : ∀ l ∈ m.posted, l.ordered = true → l.caller ≠ server
  routes : ∀ c, orderedOf c m.direct ++ orderedOf c m.posted ++ orderedOf c (m.carried c) =
    orderedOf c m.issued
  order : ∀ c, orderedOf c m.handled ++ orderedOf c m.batch ++ orderedOf c m.box ++
    orderedOf c (m.carried c) = orderedOf c m.issued

namespace Inv

variable {server : ι} {m : Mailbox ι α}

/-- Nothing has been issued. -/
theorem empty (server : ι) :
    Inv server (⟨[], fun _ => [], [], [], [], [], [], []⟩ : Mailbox ι α) := by
  constructor <;> simp

theorem box_other (h : Inv server m) : ∀ l ∈ m.batch ++ m.box, l.ordered = true →
    l.caller ≠ server := by
  intro l hl
  apply h.posted_other l
  rw [← h.fifo, List.append_assoc]
  exact List.mem_append_right _ hl

/-- The server carries no ordered letter and has none in the box. -/
theorem server_waits_for_none (h : Inv server m) :
    orderedOf server m.batch = [] ∧ orderedOf server m.box = [] ∧
      orderedOf server m.posted = [] ∧ orderedOf server (m.carried server) = [] := by
  refine ⟨?_, ?_, ?_, ?_⟩
  · exact orderedOf_eq_nil fun l hl => h.box_other l (List.mem_append_left _ hl)
  · exact orderedOf_eq_nil fun l hl => h.box_other l (List.mem_append_right _ hl)
  · exact orderedOf_eq_nil h.posted_other
  · refine orderedOf_eq_nil fun l hl ho => ?_
    exact absurd rfl ((h.carried_from server l hl).2 ho)

/-- A letter of the server's own, handled at once. -/
theorem handle_direct (h : Inv server m) {l : Letter ι α} (hcaller : l.caller = server)
    (hordered : l.ordered = true) :
    Inv server { m with
      issued := m.issued ++ [l]
      direct := m.direct ++ [l]
      handled := m.handled ++ [l] } := by
  refine ⟨h.fifo, h.carried_from, ?_, h.posted_other, ?_, ?_⟩
  · intro l' hl'
    rcases List.mem_append.mp hl' with hl' | hl'
    · exact h.direct_own l' hl'
    · rw [List.mem_singleton.mp hl']
      exact ⟨hcaller, hordered⟩
  · intro c
    by_cases hc : l.caller = c
    · subst hc
      rw [hcaller]
      obtain ⟨-, -, hposted, hcarried⟩ := h.server_waits_for_none
      have hroutes := h.routes server
      simp only [hposted, hcarried, List.append_nil] at hroutes
      simp [hposted, hcarried, hroutes]
    · simpa [orderedOf_of_ne hc] using h.routes c
  · intro c
    by_cases hc : l.caller = c
    · subst hc
      rw [hcaller]
      obtain ⟨hbatch, hbox, -, hcarried⟩ := h.server_waits_for_none
      have horder := h.order server
      simp only [hbatch, hbox, hcarried, List.append_nil] at horder
      simp [hbatch, hbox, hcarried, horder]
    · simpa [orderedOf_of_ne hc] using h.order c

/-- A caller takes a letter on its way. -/
theorem issue (h : Inv server m) {l : Letter ι α} (hfree : m.carried l.caller = [])
    (hroute : l.ordered = true → l.caller ≠ server) :
    Inv server { m with
      issued := m.issued ++ [l]
      carried := Function.update m.carried l.caller [l] } := by
  refine ⟨h.fifo, ?_, h.direct_own, h.posted_other, ?_, ?_⟩
  · intro c l' hl'
    by_cases hc : c = l.caller
    · subst hc
      simp only [Function.update_self, List.mem_singleton] at hl'
      subst hl'
      exact ⟨rfl, hroute⟩
    · simp only [Function.update_of_ne hc] at hl'
      exact h.carried_from c l' hl'
  · intro c
    by_cases hc : c = l.caller
    · subst hc
      have hroutes := h.routes l.caller
      simp only [hfree, orderedOf_nil, List.append_nil] at hroutes
      simp [hroutes]
    · simpa [hc, orderedOf_of_ne (Ne.symm hc)] using h.routes c
  · intro c
    by_cases hc : c = l.caller
    · subst hc
      have horder := h.order l.caller
      simp only [hfree, orderedOf_nil, List.append_nil] at horder
      simp only [Function.update_self, orderedOf_append, horder]
    · simpa [hc, orderedOf_of_ne (Ne.symm hc)] using h.order c

/-- A caller puts its letter in the box. -/
theorem post (h : Inv server m) {c : ι} {l : Letter ι α} (hcarried : m.carried c = [l]) :
    Inv server { m with
      carried := Function.update m.carried c []
      posted := m.posted ++ [l]
      box := m.box ++ [l] } := by
  have hfrom := h.carried_from c l (by simp [hcarried])
  refine ⟨?_, ?_, h.direct_own, ?_, ?_, ?_⟩
  · rw [← h.fifo, List.append_assoc, List.append_assoc, List.append_assoc]
  · intro c' l' hl'
    by_cases hc : c' = c
    · subst hc
      simp at hl'
    · simp only [Function.update_of_ne hc] at hl'
      exact h.carried_from c' l' hl'
  · intro l' hl' ho
    rcases List.mem_append.mp hl' with hl' | hl'
    · exact h.posted_other l' hl' ho
    · rw [List.mem_singleton.mp hl'] at ho ⊢
      rw [hfrom.1]
      exact hfrom.2 ho
  · intro c'
    by_cases hc : c' = c
    · subst hc
      have hroutes := h.routes c'
      rw [hcarried] at hroutes
      simpa using hroutes
    · have hne : l.caller ≠ c' := by
        rw [hfrom.1]
        exact Ne.symm hc
      simpa [hc, orderedOf_of_ne hne] using h.routes c'
  · intro c'
    by_cases hc : c' = c
    · subst hc
      have horder := h.order c'
      rw [hcarried] at horder
      simpa using horder
    · have hne : l.caller ≠ c' := by
        rw [hfrom.1]
        exact Ne.symm hc
      simpa [hc, orderedOf_of_ne hne] using h.order c'

/-- The server empties the box. -/
theorem take (h : Inv server m) (hbatch : m.batch = []) :
    Inv server { m with batch := m.box, box := [] } := by
  refine ⟨?_, h.carried_from, h.direct_own, h.posted_other, h.routes, ?_⟩
  · have hfifo := h.fifo
    rw [hbatch] at hfifo
    simpa using hfifo
  · intro c
    have horder := h.order c
    rw [hbatch] at horder
    simpa using horder

/-- The server handles the first letter of its batch. -/
theorem serve (h : Inv server m) {l : Letter ι α} {rest : List (Letter ι α)}
    (hbatch : m.batch = l :: rest) :
    Inv server { m with
      batch := rest
      served := m.served ++ [l]
      handled := m.handled ++ [l] } := by
  refine ⟨?_, h.carried_from, h.direct_own, h.posted_other, h.routes, ?_⟩
  · have hfifo := h.fifo
    rw [hbatch] at hfifo
    simpa using hfifo
  · intro c
    have horder := h.order c
    rw [hbatch, orderedOf_cons] at horder
    simpa using horder

/-- The step lemma. -/
theorem step (h : Inv server m) {m' : Mailbox ι α} (hs : Step server m m') : Inv server m' := by
  cases hs with
  | direct l hcaller hordered => exact h.handle_direct hcaller hordered
  | issue l hfree hroute => exact h.issue hfree hroute
  | post c l hcarried => exact h.post hcarried
  | take hbatch => exact h.take hbatch
  | serve l rest hbatch => exact h.serve hbatch

/-- The ordered letters of a caller that are handled come first among those it issued. -/
theorem handled_first (h : Inv server m) (c : ι) :
    orderedOf c m.handled <+: orderedOf c m.issued :=
  ⟨orderedOf c m.batch ++ orderedOf c m.box ++ orderedOf c (m.carried c), by
    rw [← h.order c]
    simp⟩

end Inv

end Mailbox

end Yatwb.Foundation
