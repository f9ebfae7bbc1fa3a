import Yatwb.Timer.Model
import Yatwb.Foundation.Machine

/-!
# The timer descriptor is armed for the earliest timer

`addTimerInLoop` arms the descriptor when the new timer is the earliest, and
`reset` arms it for the earliest timer that is left. While the callbacks run
the descriptor may be unarmed, but never for a timer whose expiration is not
positive, since such a timer was added by one of these callbacks; these are
the timers for which `reset` does not arm it.
-/

namespace Yatwb

open Foundation

/-- The value is valid, does not disarm the descriptor, and is the time from the
clock to the target, at least 100 microseconds. -/
structure SetTime.Exact (call : SetTime) : Prop where
  valid : call.value.Valid
  ne_zero : call.value ≠ ⟨0, 0⟩
  exact : call.value.sec * 1000000000 + call.value.nsec =
    max (call.target - call.clock) 100 * 1000

namespace TimerQueue

/-- The descriptor is armed, not later than the smallest expiration. -/
def Armed (q : TimerQueue) : Prop :=
  ∃ target, q.timerfd = some target ∧ ∀ t ∈ q.timers, target ≤ t.expiration

/-- The order of the set, the intervals in it, and the calls of `timerfd_settime`. -/
structure Stored (q : TimerQueue) : Prop where
  ascending : Ascending Timer.expiration q.timers
  intervals : ∀ t ∈ q.timers, t.isRepeat = true → 0 ≤ t.interval
  exact : ∀ call ∈ q.settimes, call.Exact

/-- While the callbacks run, the descriptor need not be armed for timers with a
positive expiration. -/
structure Kept (running : Bool) (q : TimerQueue) : Prop extends Stored q where
  armed : ∀ t ∈ q.timers, (running = true → t.expiration ≤ 0) → q.Armed

variable {running : Bool} {q q' : TimerQueue}

/-- Truncating division splits a time that is not negative exactly. -/
theorem timespec_exact {microseconds : Int} (hpos : 100 ≤ microseconds) :
    let value : Timespec := ⟨microseconds.tdiv microSecondsPerSecond,
      microseconds.tmod microSecondsPerSecond * 1000⟩
    value.Valid ∧ value ≠ ⟨0, 0⟩ ∧ value.sec * 1000000000 + value.nsec = microseconds * 1000 := by
  have hdiv : microseconds.tdiv microSecondsPerSecond = microseconds / 1000000 :=
    Int.tdiv_eq_ediv_of_nonneg (by omega)
  have hmod : microseconds.tmod microSecondsPerSecond = microseconds % 1000000 :=
    Int.tmod_eq_emod_of_nonneg (by omega)
  simp only [hdiv, hmod, Timespec.Valid, ne_eq, Timespec.mk.injEq]
  omega

theorem howMuchTimeFromNow_exact {Allowed : Fault → Prop} (hoverflow : Allowed .overflow)
    (target clock : Int) :
    Ends (fun value => SetTime.Exact ⟨target, clock, value⟩) Allowed
      (howMuchTimeFromNow target clock) := by
  unfold howMuchTimeFromNow
  apply ends_check (fun _ => hoverflow)
  intro _
  have hmax : (if target - clock < 100 then (100 : Int) else target - clock) =
      max (target - clock) 100 := by
    rw [max_def]
    split <;> split <;> omega
  simp only [hmax]
  obtain ⟨hvalid, hne, hexact⟩ := timespec_exact (le_max_right (target - clock) 100)
  exact ⟨hvalid, hne, hexact⟩

/-- A descriptor armed for the earliest timer covers every timer. -/
theorem Stored.resetTimerfd (h : Stored q) {expiration : Int}
    (hfirst : ∀ t ∈ q.timers, expiration ≤ t.expiration) (clock : Int) :
    Ends (Kept running) (fun _ => True) (q.resetTimerfd expiration clock) := by
  apply (howMuchTimeFromNow_exact trivial expiration clock).bind
  intro value hvalue
  refine ⟨⟨h.ascending, h.intervals, ?_⟩, ?_⟩
  · intro call hcall
    rcases List.mem_append.mp hcall with hcall | hcall
    · exact h.exact call hcall
    · exact List.mem_singleton.mp hcall ▸ hvalue
  · intro t _ _
    refine ⟨expiration, ?_, hfirst⟩
    exact (if_pos hvalue.valid).trans (if_neg hvalue.ne_zero)

/-- What `insert` does, unless the expiration is taken. -/
theorem insert_spec (q : TimerQueue) (t : Timer) :
    Ends (fun r => r.1 = q.earliestToAlarm t.expiration ∧
        ∃ timers, r.2 = { q with timers := timers } ∧ timers.Perm (t :: q.timers) ∧
          (Ascending Timer.expiration q.timers → Ascending Timer.expiration timers))
      (fun _ => True) (q.insert t) := by
  unfold insert
  split
  · trivial
  · rename_i timers htimers
    exact ⟨rfl, timers, rfl, insertUnique_perm htimers, (ascending_insertUnique · htimers)⟩

theorem restart_spec {Allowed : Fault → Prop} (hoverflow : Allowed .overflow) (t : Timer)
    (now : Int) :
    Ends (fun t' => t' = { t with expiration := now + t.interval }) Allowed (restart t now) :=
  ends_check (fun _ => hoverflow) fun _ => rfl

theorem Stored.insert (h : Stored q) {t : Timer} {timers : List Timer}
    (hperm : timers.Perm (t :: q.timers)) (hascending : Ascending Timer.expiration timers)
    (ht : t.isRepeat = true → 0 ≤ t.interval) : Stored { q with timers := timers } := by
  refine ⟨hascending, ?_, h.exact⟩
  intro u hu
  rcases List.mem_cons.mp (hperm.mem_iff.mp hu) with rfl | hu
  · exact ht
  · exact h.intervals u hu

theorem getExpired_spec {Allowed : Fault → Prop} (horder : Allowed .expiredOrder)
    (q : TimerQueue) (now : Int) :
    Ends (fun r => r = (below Timer.expiration now q.timers,
        { q with timers := fromLowerBound Timer.expiration now q.timers })) Allowed
      (q.getExpired now) :=
  ends_check (fun _ => horder) fun _ => rfl

/-- A timer may be inserted without arming the descriptor when the descriptor
needs no arming for it, or covers an earlier timer. -/
theorem Kept.insert (h : Kept running q) {t : Timer} {timers : List Timer}
    (hperm : timers.Perm (t :: q.timers)) (hstored : Stored { q with timers := timers })
    (hearlier : ∀ u ∈ q.timers, (running = true → u.expiration ≤ 0) →
      ∃ v ∈ q.timers, v.expiration ≤ t.expiration)
    (hlate : (running = true → t.expiration ≤ 0) →
      ∃ v ∈ q.timers, v.expiration ≤ t.expiration) :
    Kept running { q with timers := timers } := by
  have hcovers : ∀ v ∈ q.timers, v.expiration ≤ t.expiration → q.Armed →
      Armed { q with timers := timers } := by
    rintro v hv hvt ⟨target, htarget, hle⟩
    refine ⟨target, htarget, ?_⟩
    intro u hu
    rcases List.mem_cons.mp (hperm.mem_iff.mp hu) with rfl | hu
    · exact le_trans (hle v hv) hvt
    · exact hle u hu
  refine ⟨hstored, ?_⟩
  intro u hu hdue
  rcases List.mem_cons.mp (hperm.mem_iff.mp hu) with rfl | hu
  · obtain ⟨v, hv, hvu⟩ := hlate hdue
    exact hcovers v hv hvu (h.armed v hv fun hrunning => le_trans hvu (hdue hrunning))
  · obtain ⟨v, hv, hvt⟩ := hearlier u hu hdue
    exact hcovers v hv hvt (h.armed u hu hdue)

/-- A timer that is not the earliest comes after the first one. -/
theorem exists_le_of_not_earliest {expiration : Int}
    (h : q.earliestToAlarm expiration = false) : ∃ v ∈ q.timers, v.expiration ≤ expiration := by
  unfold earliestToAlarm at h
  split at h
  · cases h
  · rename_i first rest htimers
    refine ⟨first, ?_, not_lt.mp (of_decide_eq_false h)⟩
    rw [htimers]
    exact List.mem_cons_self ..

theorem le_of_earliest {expiration : Int} (hascending : Ascending Timer.expiration q.timers)
    (h : q.earliestToAlarm expiration = true) {v : Timer} (hv : v ∈ q.timers) :
    expiration ≤ v.expiration := by
  unfold earliestToAlarm at h
  split at h
  · rename_i htimers
    rw [htimers] at hv
    cases hv
  · rename_i first rest htimers
    rw [htimers] at hv hascending
    exact le_trans (le_of_lt (of_decide_eq_true h)) (hascending.head_le hv)

theorem Kept.addTimerInLoop (h : Kept running q) {t : Timer}
    (ht : t.isRepeat = true → 0 ≤ t.interval) (clock : Int) :
    Ends (Kept running) (fun _ => True) (q.addTimerInLoop t clock) := by
  unfold TimerQueue.addTimerInLoop
  apply (insert_spec q t).bind
  rintro ⟨earliest, q'⟩ ⟨rfl, timers, rfl, hperm, hascending⟩
  have hstored := h.toStored.insert hperm (hascending h.ascending) ht
  cases hearliest : q.earliestToAlarm t.expiration with
  | false =>
      have hlate := exists_le_of_not_earliest hearliest
      exact h.insert hperm hstored (fun _ _ _ => hlate) (fun _ => hlate)
  | true =>
      have hfirst : ∀ u ∈ timers, t.expiration ≤ u.expiration := by
        intro u hu
        rcases List.mem_cons.mp (hperm.mem_iff.mp hu) with rfl | hu
        · exact le_rfl
        · exact le_of_earliest h.ascending hearliest hu
      exact hstored.resetTimerfd hfirst clock

/-- The timers that are left by `getExpired` have a positive expiration. -/
theorem Kept.getExpired (h : Kept false q) {now : Int} (hnow : 0 < now) :
    Ends (fun r => Kept true r.2 ∧ ∀ t ∈ r.1, t.isRepeat = true → 0 ≤ t.interval)
      (fun _ => True) (q.readTimerfd.getExpired now) := by
  apply (getExpired_spec trivial q.readTimerfd now).mono
  rintro r rfl
  have hsplit := below_append_fromLowerBound Timer.expiration now q.timers
  have hexpired : ∀ t ∈ below Timer.expiration now q.timers, t ∈ q.timers := by
    intro t ht
    rw [← hsplit]
    exact List.mem_append_left _ ht
  have hrest : ∀ t ∈ fromLowerBound Timer.expiration now q.timers, t ∈ q.timers := by
    intro t ht
    rw [← hsplit]
    exact List.mem_append_right _ ht
  have hstored : Stored { q.readTimerfd with
      timers := fromLowerBound Timer.expiration now q.timers } :=
    ⟨h.ascending.fromLowerBound now, fun t ht => h.intervals t (hrest t ht), h.exact⟩
  refine ⟨⟨hstored, ?_⟩, fun t ht => h.intervals t (hexpired t ht)⟩
  intro t ht hdue
  have hlate : now ≤ t.expiration := h.ascending.le_of_mem_fromLowerBound ht
  have hle := hdue rfl
  omega

theorem Kept.resetTimers (h : Kept true q) {now : Int} (hnow : 0 < now) {expired : List Timer}
    (hintervals : ∀ t ∈ expired, t.isRepeat = true → 0 ≤ t.interval) :
    Ends (Kept true) (fun _ => True) (q.resetTimers now expired) := by
  induction expired generalizing q with
  | nil => exact h
  | cons t rest ih =>
      have hrest : ∀ u ∈ rest, u.isRepeat = true → 0 ≤ u.interval :=
        fun u hu => hintervals u (List.mem_cons_of_mem _ hu)
      unfold TimerQueue.resetTimers
      split
      · rename_i hrepeat
        have hlate : 0 < now + t.interval := by
          have hinterval := hintervals t (List.mem_cons_self ..) hrepeat
          omega
        apply (restart_spec trivial t now).bind
        intro t' ht'
        have hlate' : 0 < t'.expiration := by
          rw [ht']
          exact hlate
        apply (insert_spec q t').bind
        rintro ⟨earliest, q'⟩ ⟨-, timers, rfl, hperm, hascending⟩
        have hinterval : t'.isRepeat = true → 0 ≤ t'.interval := by
          rw [ht']
          exact hintervals t (List.mem_cons_self ..)
        have hstored := h.toStored.insert hperm (hascending h.ascending) hinterval
        refine ih (h.insert hperm hstored ?_ ?_) hrest
        · intro u hu hdue
          exact ⟨u, hu, le_of_lt (lt_of_le_of_lt (hdue rfl) hlate')⟩
        · intro hdue
          exact absurd (hdue rfl) (not_le.mpr hlate')
      · exact ih h hrest

/-- `reset` does not arm the descriptor for an expiration that is not positive:
then it is already armed. -/
theorem Kept.rearm (h : Kept true q) (clock : Int) :
    Ends (Kept false) (fun _ => True) (q.rearm clock) := by
  unfold TimerQueue.rearm
  split
  · rename_i htimers
    refine ⟨h.toStored, ?_⟩
    intro t ht
    rw [htimers] at ht
    cases ht
  · rename_i first rest htimers
    have hfirst : ∀ t ∈ q.timers, first.expiration ≤ t.expiration := by
      have hascending := h.ascending
      rw [htimers] at hascending ⊢
      exact fun t ht => hascending.head_le ht
    split
    · exact h.toStored.resetTimerfd hfirst clock
    · rename_i hdue
      have hmem : first ∈ q.timers := htimers ▸ List.mem_cons_self ..
      exact ⟨h.toStored, fun _ _ _ => h.armed first hmem fun _ => not_lt.mp hdue⟩

end TimerQueue

namespace TimerState

open TimerQueue (Kept Armed)

variable {running : Bool} {s : TimerState}

theorem addTimer_kept (h : Kept running s.queue) {n : NewTimer}
    (hn : n.isRepeat = true → 0 ≤ n.interval) :
    Ends (fun s' => Kept running s'.queue) (fun _ => True) (s.addTimer n) := by
  apply (h.addTimerInLoop (t := s.nextTimer n) hn n.clock).bind
  intro queue hqueue
  exact hqueue

theorem addTimers_kept (h : Kept running s.queue) {new : List NewTimer}
    (hnew : ∀ n ∈ new, n.isRepeat = true → 0 ≤ n.interval) :
    Ends (fun s' => Kept running s'.queue) (fun _ => True) (s.addTimers new) := by
  induction new generalizing s with
  | nil => exact h
  | cons n rest ih =>
      apply (addTimer_kept h (hnew n (List.mem_cons_self ..))).bind
      intro s' hs'
      exact ih hs' fun m hm => hnew m (List.mem_cons_of_mem _ hm)

theorem runTimers_kept (h : Kept running s.queue) {expired : List Timer}
    {calls : List (List NewTimer)}
    (hcalls : ∀ new ∈ calls, ∀ n ∈ new, n.isRepeat = true → 0 ≤ n.interval) :
    Ends (fun s' => Kept running s'.queue) (fun _ => True) (s.runTimers expired calls) := by
  induction expired generalizing s calls with
  | nil => exact h
  | cons t rest ih =>
      have hnew : ∀ n ∈ calls.headD [], n.isRepeat = true → 0 ≤ n.interval := by
        cases calls with
        | nil => nofun
        | cons new others => exact hcalls new (List.mem_cons_self ..)
      apply Ends.bind (addTimers_kept (s := { s with ran := s.ran ++ [t.id] }) h hnew)
      intro s' hs'
      exact ih hs' fun new hmem => hcalls new (List.mem_of_mem_tail hmem)

/-- The clock is past the epoch when the descriptor is read, and the intervals of
repeating timers are not negative. -/
def Sane : Action → Prop
  | .addTimerInLoop n => n.isRepeat = true → 0 ≤ n.interval
  | .handleRead now calls _ =>
      0 < now ∧ ∀ new ∈ calls, ∀ n ∈ new, n.isRepeat = true → 0 ≤ n.interval

instance : DecidablePred Sane
  | .addTimerInLoop n => inferInstanceAs (Decidable (n.isRepeat = true → 0 ≤ n.interval))
  | .handleRead now calls _ => inferInstanceAs (Decidable
      (0 < now ∧ ∀ new ∈ calls, ∀ n ∈ new, n.isRepeat = true → 0 ≤ n.interval))

theorem step_kept (h : Kept false s.queue) {a : Action} (ha : Sane a) :
    Ends (fun s' => Kept false s'.queue) (fun _ => True) (s.step a) := by
  cases a with
  | addTimerInLoop n => exact addTimer_kept h ha
  | handleRead now calls clock =>
      obtain ⟨hnow, hcalls⟩ := ha
      apply (h.getExpired hnow).bind
      rintro ⟨expired, queue⟩ ⟨hqueue, hintervals⟩
      apply Ends.bind (runTimers_kept (s := { s with queue := queue }) hqueue hcalls)
      intro s' hs'
      apply Ends.bind (Ends.bind (hs'.resetTimers hnow hintervals) fun _ hq => hq.rearm clock)
      intro queue' hqueue'
      exact hqueue'

/-- The runs of a timer queue from its construction on. -/
abbrev timerRuns : Machine (Except TimerQueue.Fault TimerState) Action :=
  faulting (· = new) step

/-- After every operation of every run, a queue that is not empty has its
descriptor armed for the earliest timer, and every value it was ever armed with
is exact. -/
theorem armed_for_earliest {s : Except TimerQueue.Fault TimerState}
    (hs : timerRuns.Reach (whileRunning fun _ => Sane) s) :
    Ends (fun s => (s.queue.timers ≠ [] → s.queue.Armed) ∧
      ∀ call ∈ s.queue.settimes, call.Exact) (fun _ => True) s := by
  have hinit : ∀ s, s = new → Kept false s.queue := by
    rintro s rfl
    exact ⟨⟨List.Pairwise.nil, nofun, nofun⟩, nofun⟩
  have hkept := ends_of_reach hinit (fun s a h ha => step_kept h ha) hs
  apply hkept.mono
  intro s h
  refine ⟨?_, h.exact⟩
  intro hne
  obtain ⟨t, ht⟩ := List.exists_mem_of_ne_nil _ hne
  exact h.armed t ht nofun

/-- A repeating timer expires, its callback adds a timer whose time is long past,
and both are in the queue afterwards. -/
theorem armed_for_past_timer :
    ∃ s, timerRuns.Reach (whileRunning fun _ => Sane) (.ok s) ∧
      s.queue.timers.map Timer.expiration = [-5, 350] ∧ s.queue.Armed := by
  obtain ⟨s, hreach, hs⟩ := Machine.exists_reach (M := timerRuns)
    (whileRunning fun _ => Sane) ⟨new, rfl, rfl⟩
    [.addTimerInLoop ⟨200, 50, true, 100⟩,
      .handleRead 300 [[⟨-5, 0, false, 310⟩]] 320]
    (fun s => match s with
      | .ok s => decide (s.queue.timers.map Timer.expiration = [-5, 350])
      | .error _ => false) (by decide +kernel)
  cases s with
  | error f => cases hs
  | ok s =>
      have hexpirations := of_decide_eq_true hs
      have hne : s.queue.timers ≠ [] := by
        intro hnil
        rw [hnil] at hexpirations
        cases hexpirations
      exact ⟨s, hreach, hexpirations, (armed_for_earliest hreach).1 hne⟩

end TimerState

end Yatwb
