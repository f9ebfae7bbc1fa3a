import Yatwb.Timer.Model

/-!
# The expired timers and the timers left

`getExpired` takes the timers below the lower bound of its sentry. The
sentry is not above a timer that expires at the same time, whatever its
pointer is, since the comparator reads expirations only. Such a timer is the
first one left, and the assert wants the first one left to expire later.
-/

namespace Yatwb

open Foundation

namespace TimerQueue

/-- What `getExpired` is for: the timers that have expired are returned in the
order of their expirations, and the other ones stay. -/
def Splits (q : TimerQueue) (now : Int) : Prop :=
  ∃ expired q', q.getExpired now = .ok (expired, q') ∧
    expired.Pairwise (fun t u => t.expiration ≤ u.expiration) ∧
    expired = q.timers.filter (fun t => t.expiration ≤ now) ∧
    q' = { q with timers := q.timers.filter (fun t => now < t.expiration) }

variable {q : TimerQueue} {now : Int}

/-- A timer that expires at the same time is left by the lower bound. -/
theorem not_expired_of_eq (h : Ascending Timer.expiration q.timers) {t : Timer}
    (ht : t ∈ q.timers) (hnow : t.expiration = now) :
    q.getExpired now = .error .expiredOrder := by
  have hmem : t ∈ fromLowerBound Timer.expiration now q.timers := by
    rw [h.fromLowerBound_eq_filter]
    exact List.mem_filter.mpr ⟨ht, decide_eq_true hnow.ge⟩
  have hascending := h.fromLowerBound now
  have hassert : ¬ ∀ first ∈ (fromLowerBound Timer.expiration now q.timers).head?,
      now < first.expiration := by
    intro hall
    cases hrest : fromLowerBound Timer.expiration now q.timers with
    | nil =>
        rw [hrest] at hmem
        cases hmem
    | cons first rest =>
        rw [hrest] at hmem hascending hall
        have hlater : now < first.expiration := hall first rfl
        have hfirst : first.expiration ≤ t.expiration := hascending.head_le hmem
        omega
  exact check_bind_of_not _ hassert _

theorem splits_of_ne (h : Ascending Timer.expiration q.timers)
    (hne : ∀ t ∈ q.timers, t.expiration ≠ now) : q.Splits now := by
  have hexpired : below Timer.expiration now q.timers =
      q.timers.filter fun t => t.expiration ≤ now := by
    rw [h.below_eq_filter]
    apply List.filter_congr
    intro t ht
    have := hne t ht
    simp only [decide_eq_decide]
    omega
  have hleft : fromLowerBound Timer.expiration now q.timers =
      q.timers.filter fun t => now < t.expiration := by
    rw [h.fromLowerBound_eq_filter]
    apply List.filter_congr
    intro t ht
    have := hne t ht
    simp only [decide_eq_decide]
    omega
  have hassert : ∀ first ∈ (fromLowerBound Timer.expiration now q.timers).head?,
      now < first.expiration := by
    intro first hfirst
    have hmem := List.mem_of_mem_head? hfirst
    rw [hleft] at hmem
    exact of_decide_eq_true (List.mem_filter.mp hmem).2
  refine ⟨_, _, check_bind_of _ hassert _, ?_, hexpired, by rw [hleft]⟩
  exact (h.imp fun hlt => le_of_lt hlt).sublist (List.takeWhile_sublist _)

/-- `getExpired` splits the timers exactly when none of them expires at `now`. -/
theorem splits_iff_none_expires_now (q : TimerQueue) (now : Int)
    (h : Ascending Timer.expiration q.timers) :
    q.Splits now ↔ ∀ t ∈ q.timers, t.expiration ≠ now := by
  constructor
  · rintro ⟨expired, q', hok, -⟩ t ht hnow
    rw [not_expired_of_eq h ht hnow] at hok
    cases hok
  · exact splits_of_ne h

/-- Two timers, one of them expired. -/
theorem splits_between_two_timers :
    Splits ⟨[⟨0, 100, 0, false⟩, ⟨1, 300, 50, true⟩], some 100, []⟩ 200 :=
  (splits_iff_none_expires_now _ _ (by simp [Ascending])).mpr (by simp)

/-- A timer that expires at `now` ends the call in its assert. -/
theorem not_splits_at_expiration :
    Ascending Timer.expiration [⟨0, 100, 0, false⟩] ∧
      getExpired ⟨[⟨0, 100, 0, false⟩], some 100, []⟩ 100 = .error .expiredOrder ∧
      ¬ Splits ⟨[⟨0, 100, 0, false⟩], some 100, []⟩ 100 := by
  refine ⟨by simp [Ascending], by decide, ?_⟩
  rintro ⟨expired, q', hok, -⟩
  cases hok

end TimerQueue

end Yatwb
