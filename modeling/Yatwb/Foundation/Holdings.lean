import Mathlib.Data.Finset.Card
import Mathlib.Data.Finset.Image
import Mathlib.Data.Option.Basic
import Mathlib.Logic.Function.Basic

/-!
# Open handles and their holders

A finite set of handles is open. Each object holds at most one handle, which is
opened for it and closed with it; the standing handles belong to nobody here.
While a handle that is opened was not open before, every open handle is a
standing one or has exactly one holder, so none leaks and none is closed while
another object holds it.
-/

namespace Yatwb.Foundation

/-- The open handles, and what each object holds. -/
structure Holdings (κ η : Type) where
  opened : Finset η
  held : κ → Option η

namespace Holdings

variable {κ η : Type} [DecidableEq κ] [DecidableEq η]

/-- A handle that was not open is opened for an object without one. -/
def acquire (s : Holdings κ η) (k : κ) (h : η) : Holdings κ η :=
  ⟨insert h s.opened, Function.update s.held k (some h)⟩

/-- The handle of an object is closed. -/
def release (s : Holdings κ η) (k : κ) (h : η) : Holdings κ η :=
  ⟨s.opened.erase h, Function.update s.held k none⟩

inductive Step (s : Holdings κ η) : Holdings κ η → Prop
  | stay : Step s s
  | acquire (k : κ) (h : η) (hfree : h ∉ s.opened) (hnone : s.held k = none) :
      Step s (s.acquire k h)
  | release (k : κ) (h : η) (hheld : s.held k = some h) : Step s (s.release k h)

/-- Every open handle is a standing one or has one holder. -/
structure Balanced (standing : Finset η) (s : Holdings κ η) : Prop where
  mem_iff : ∀ h, h ∈ s.opened ↔ h ∈ standing ∨ ∃ k, s.held k = some h
  apart : ∀ k h, s.held k = some h → h ∉ standing
  unique : ∀ k k' h, s.held k = some h → s.held k' = some h → k = k'

variable {s s' : Holdings κ η} {standing : Finset η} {k : κ} {h : η}

omit [DecidableEq κ] [DecidableEq η] in
theorem balanced_of_unheld (hheld : ∀ k, s.held k = none) : s.Balanced s.opened := by
  refine ⟨fun h => ?_, fun k h hk => ?_, fun k k' h hk => ?_⟩
  · simp [hheld]
  · rw [hheld] at hk
    cases hk
  · rw [hheld] at hk
    cases hk

namespace Balanced

theorem acquire (hs : s.Balanced standing) (hfree : h ∉ s.opened) (hnone : s.held k = none) :
    (s.acquire k h).Balanced standing := by
  have hother {k' : κ} {h' : η} (hk : (s.acquire k h).held k' = some h') :
      k' = k ∧ h' = h ∨ k' ≠ k ∧ s.held k' = some h' := by
    by_cases heq : k' = k
    · subst heq
      left
      simpa [Holdings.acquire, eq_comm] using hk
    · right
      simpa [Holdings.acquire, heq] using hk
  have hstanding : h ∉ standing := fun hmem => hfree ((hs.mem_iff h).mpr (Or.inl hmem))
  have hunheld : ∀ k', s.held k' ≠ some h := fun k' hk =>
    hfree ((hs.mem_iff h).mpr (Or.inr ⟨k', hk⟩))
  refine ⟨fun h' => ?_, fun k' h' hk => ?_, fun k₁ k₂ h' hk₁ hk₂ => ?_⟩
  · constructor
    · intro hmem
      rcases Finset.mem_insert.mp hmem with rfl | hmem
      · exact Or.inr ⟨k, by simp [Holdings.acquire]⟩
      · refine ((hs.mem_iff h').mp hmem).imp_right ?_
        rintro ⟨k', hk'⟩
        have hne : k' ≠ k := by
          rintro rfl
          rw [hnone] at hk'
          cases hk'
        exact ⟨k', by simpa [Holdings.acquire, hne] using hk'⟩
    · rintro (hmem | ⟨k', hk'⟩)
      · exact Finset.mem_insert_of_mem ((hs.mem_iff h').mpr (Or.inl hmem))
      · rcases hother hk' with ⟨-, rfl⟩ | ⟨-, hold⟩
        · exact Finset.mem_insert_self ..
        · exact Finset.mem_insert_of_mem ((hs.mem_iff h').mpr (Or.inr ⟨k', hold⟩))
  · rcases hother hk with ⟨-, rfl⟩ | ⟨-, hold⟩
    · exact hstanding
    · exact hs.apart k' h' hold
  · rcases hother hk₁ with ⟨rfl, rfl⟩ | ⟨-, hold₁⟩
    · rcases hother hk₂ with ⟨rfl, -⟩ | ⟨-, hold₂⟩
      · rfl
      · exact absurd hold₂ (hunheld k₂)
    · rcases hother hk₂ with ⟨-, rfl⟩ | ⟨-, hold₂⟩
      · exact absurd hold₁ (hunheld k₁)
      · exact hs.unique k₁ k₂ h' hold₁ hold₂

theorem release (hs : s.Balanced standing) (hheld : s.held k = some h) :
    (s.release k h).Balanced standing := by
  have hother {k' : κ} {h' : η} (hk : (s.release k h).held k' = some h') :
      k' ≠ k ∧ s.held k' = some h' := by
    by_cases heq : k' = k
    · subst heq
      simp [Holdings.release] at hk
    · exact ⟨heq, by simpa [Holdings.release, heq] using hk⟩
  refine ⟨fun h' => ?_, fun k' h' hk => hs.apart k' h' (hother hk).2,
    fun k₁ k₂ h' hk₁ hk₂ => hs.unique k₁ k₂ h' (hother hk₁).2 (hother hk₂).2⟩
  constructor
  · intro hmem
    obtain ⟨hne, hmem⟩ := Finset.mem_erase.mp hmem
    refine ((hs.mem_iff h').mp hmem).imp_right ?_
    rintro ⟨k', hk'⟩
    have hkept : k' ≠ k := by
      rintro rfl
      rw [hheld] at hk'
      exact hne (Option.some.inj hk').symm
    exact ⟨k', by simpa [Holdings.release, hkept] using hk'⟩
  · rintro (hmem | ⟨k', hk'⟩)
    · refine Finset.mem_erase.mpr ⟨?_, (hs.mem_iff h').mpr (Or.inl hmem)⟩
      rintro rfl
      exact hs.apart k h' hheld hmem
    · obtain ⟨hkept, hold⟩ := hother hk'
      refine Finset.mem_erase.mpr ⟨?_, (hs.mem_iff h').mpr (Or.inr ⟨k', hold⟩)⟩
      rintro rfl
      exact hkept (hs.unique k' k h' hold hheld)

theorem step (hs : s.Balanced standing) (hstep : s.Step s') : s'.Balanced standing := by
  cases hstep with
  | stay => exact hs
  | acquire k h hfree hnone => exact hs.acquire hfree hnone
  | release k h hheld => exact hs.release hheld

omit [DecidableEq κ] in
/-- The open handles are counted by the standing ones and the holders. -/
theorem card_eq (hs : s.Balanced standing) {holders : Finset κ}
    (hholders : ∀ k, k ∈ holders ↔ (s.held k).isSome) :
    s.opened.card = standing.card + holders.card := by
  have hinj : Set.InjOn (fun k => s.held k) holders := by
    intro k hk k' _ heq
    obtain ⟨h, hh⟩ := Option.isSome_iff_exists.mp ((hholders k).mp hk)
    exact hs.unique k k' h hh (heq.symm.trans hh)
  have hsplit : s.opened.image some =
      standing.image some ∪ holders.image fun k => s.held k := by
    ext x
    simp only [Finset.mem_image, Finset.mem_union]
    constructor
    · rintro ⟨h, hmem, rfl⟩
      refine ((hs.mem_iff h).mp hmem).imp (fun hstanding => ⟨h, hstanding, rfl⟩) ?_
      rintro ⟨k, hk⟩
      exact ⟨k, (hholders k).mpr (by rw [hk]; rfl), hk⟩
    · rintro (⟨h, hstanding, rfl⟩ | ⟨k, hk, rfl⟩)
      · exact ⟨h, (hs.mem_iff h).mpr (Or.inl hstanding), rfl⟩
      · obtain ⟨h, hh⟩ := Option.isSome_iff_exists.mp ((hholders k).mp hk)
        exact ⟨h, (hs.mem_iff h).mpr (Or.inr ⟨k, hh⟩), hh.symm⟩
  have hdisjoint : Disjoint (standing.image some) (holders.image fun k => s.held k) := by
    rw [Finset.disjoint_left]
    intro x hstanding hheld
    obtain ⟨h, hmem, rfl⟩ := Finset.mem_image.mp hstanding
    obtain ⟨k, -, hk⟩ := Finset.mem_image.mp hheld
    exact hs.apart k h hk hmem
  calc s.opened.card
      = (s.opened.image some).card :=
        (Finset.card_image_of_injective _ (Option.some_injective η)).symm
    _ = (standing.image some).card + (holders.image fun k => s.held k).card := by
        rw [hsplit, Finset.card_union_of_disjoint hdisjoint]
    _ = standing.card + holders.card := by
        rw [Finset.card_image_of_injective _ (Option.some_injective η),
          Finset.card_image_of_injOn hinj]

end Balanced

end Holdings

end Yatwb.Foundation
