import Yatwb.Timer.Arming
import Mathlib.Data.List.Count

/-!
# No timer is lost or duplicated

A timer travels from `timers_` to the vector of expired timers, has its
callback run and, if it repeats, is inserted again. The ledger counts where
each added timer is on the way. An insertion is refused when another timer of
the set has the same expiration, so the ledger holds along the runs in which
the expirations that meet in the set are different.
-/

namespace Yatwb

open Foundation

/-- The number of entries of a timer. -/
def tally (timers : List Timer) (id : Nat) : Nat := (timers.map Timer.id).count id

@[simp] theorem tally_nil (id : Nat) : tally [] id = 0 := rfl

@[simp] theorem tally_append (timers others : List Timer) (id : Nat) :
    tally (timers ++ others) id = tally timers id + tally others id := by
  simp [tally, List.count_append]

theorem tally_cons (t : Timer) (timers : List Timer) (id : Nat) :
    tally (t :: timers) id = tally timers id + if t.id = id then 1 else 0 := by
  simp [tally, List.count_cons]

theorem tally_perm {timers others : List Timer} (h : timers.Perm others) (id : Nat) :
    tally timers id = tally others id :=
  (h.map Timer.id).count_eq id

theorem tally_eq_zero {timers : List Timer} {id : Nat} (h : ∀ t ∈ timers, t.id ≠ id) :
    tally timers id = 0 := by
  apply List.count_eq_zero.mpr
  intro hmem
  obtain ⟨t, ht, hid⟩ := List.mem_map.mp hmem
  exact h t ht hid

/-- Where the added timers are: in the set, in the vector of expired timers, or
there with a callback that is still due. -/
structure Ledger (added : List Timer) (ran : List Nat) (timers held due : List Timer) : Prop where
  numbered : added.map Timer.id = List.range added.length
  known : ∀ u ∈ timers ++ held ++ due, ∃ t ∈ added, t.id = u.id ∧ t.isRepeat = u.isRepeat
  ranKnown : ∀ id ∈ ran, id < added.length
  oneShot : ∀ t ∈ added, t.isRepeat = false →
    tally timers t.id + tally due t.id + ran.count t.id = 1
  repeating : ∀ t ∈ added, t.isRepeat = true → tally timers t.id + tally held t.id = 1

namespace Ledger

variable {added : List Timer} {ran : List Nat} {timers timers' held due : List Timer} {t : Timer}

theorem id_lt (h : Ledger added ran timers held due) (ht : t ∈ added) :
    t.id < added.length := by
  have hmem : t.id ∈ added.map Timer.id := List.mem_map_of_mem ht
  rw [h.numbered] at hmem
  exact List.mem_range.mp hmem

/-- The number of a timer tells whether it repeats. -/
theorem isRepeat_eq (h : Ledger added ran timers held due) {u : Timer} (ht : t ∈ added)
    (hu : u ∈ added) (hid : t.id = u.id) : t.isRepeat = u.isRepeat := by
  have hnodup : (added.map Timer.id).Nodup := by
    rw [h.numbered]
    exact List.nodup_range
  rw [List.inj_on_of_nodup_map hnodup ht hu hid]

/-- A new timer is inserted. -/
theorem add (h : Ledger added ran timers held due) (hid : t.id = added.length)
    (hperm : timers'.Perm (t :: timers)) : Ledger (added ++ [t]) ran timers' held due := by
  have hnew : ∀ u ∈ timers ++ held ++ due, u.id ≠ t.id := by
    intro u hu heq
    obtain ⟨u', hu', hid', -⟩ := h.known u hu
    have hlt := h.id_lt hu'
    omega
  have hran : ran.count t.id = 0 := by
    apply List.count_eq_zero.mpr
    intro hmem
    have hlt := h.ranKnown _ hmem
    omega
  have htally : ∀ id, tally timers' id = tally timers id + if t.id = id then 1 else 0 :=
    fun id => (tally_perm hperm id).trans (tally_cons t timers id)
  have hold : ∀ u ∈ added, tally timers' u.id = tally timers u.id := by
    intro u hu
    have hlt := h.id_lt hu
    rw [htally, if_neg (by omega), Nat.add_zero]
  have hfirst : tally timers' t.id = 1 := by
    rw [htally, if_pos rfl, tally_eq_zero fun u hu => hnew u (by simp [hu])]
  constructor
  · rw [List.map_append, h.numbered, List.length_append, List.map_singleton, hid]
    exact List.range_succ.symm
  · intro u hu
    have hcases : u = t ∨ u ∈ timers ++ held ++ due := by
      simp only [List.mem_append, hperm.mem_iff, List.mem_cons] at hu ⊢
      tauto
    rcases hcases with rfl | hu
    · exact ⟨u, by simp, rfl, rfl⟩
    · obtain ⟨u', hu', heq⟩ := h.known u hu
      exact ⟨u', List.mem_append_left _ hu', heq⟩
  · intro id hid'
    have hlt := h.ranKnown id hid'
    rw [List.length_append]
    omega
  · intro u hu hrepeat
    rcases List.mem_append.mp hu with hu | hu
    · rw [hold u hu]
      exact h.oneShot u hu hrepeat
    · obtain rfl := List.mem_singleton.mp hu
      rw [hfirst, hran, tally_eq_zero fun v hv => hnew v (by simp [hv])]
  · intro u hu hrepeat
    rcases List.mem_append.mp hu with hu | hu
    · rw [hold u hu]
      exact h.repeating u hu hrepeat
    · obtain rfl := List.mem_singleton.mp hu
      rw [hfirst, tally_eq_zero fun v hv => hnew v (by simp [hv])]

/-- The expired timers leave the set, with their callbacks due. -/
theorem expire {expired rest : List Timer} (h : Ledger added ran timers [] [])
    (hsplit : expired ++ rest = timers) : Ledger added ran rest expired expired := by
  subst hsplit
  refine ⟨h.numbered, ?_, h.ranKnown, ?_, ?_⟩
  · intro u hu
    apply h.known u
    simp only [List.mem_append] at hu ⊢
    tauto
  · intro u hu hrepeat
    have hone := h.oneShot u hu hrepeat
    rw [tally_append, tally_nil] at hone
    omega
  · intro u hu hrepeat
    have hone := h.repeating u hu hrepeat
    rw [tally_append, tally_nil] at hone
    omega

/-- The next callback runs. -/
theorem run (h : Ledger added ran timers held (t :: due)) :
    Ledger added (ran ++ [t.id]) timers held due := by
  refine ⟨h.numbered, ?_, ?_, ?_, h.repeating⟩
  · intro u hu
    apply h.known u
    simp only [List.mem_append, List.mem_cons] at hu ⊢
    tauto
  · intro id hid
    rcases List.mem_append.mp hid with hid | hid
    · exact h.ranKnown id hid
    · obtain ⟨u, hu, heq, -⟩ := h.known t (by simp)
      rw [List.mem_singleton.mp hid, ← heq]
      exact h.id_lt hu
  · intro u hu hrepeat
    have hone := h.oneShot u hu hrepeat
    rw [tally_cons] at hone
    rw [List.count_append, List.count_singleton]
    simp only [beq_iff_eq]
    omega

/-- A repeating timer is inserted again. -/
theorem restart (h : Ledger added ran timers (t :: held) []) (t' : Timer)
    (hid : t'.id = t.id) (hsame : t'.isRepeat = t.isRepeat) (hrepeat : t.isRepeat = true)
    (hperm : timers'.Perm (t' :: timers)) : Ledger added ran timers' held [] := by
  have htally : ∀ id, tally timers' id = tally timers id + if t.id = id then 1 else 0 :=
    fun id => hid ▸ (tally_perm hperm id).trans (tally_cons t' timers id)
  obtain ⟨t₀, ht₀, hid₀, hrepeat₀⟩ := h.known t (by simp)
  refine ⟨h.numbered, ?_, h.ranKnown, ?_, ?_⟩
  · intro u hu
    have hcases : u = t' ∨ u ∈ timers ++ (t :: held) ++ [] := by
      simp only [List.mem_append, hperm.mem_iff, List.mem_cons] at hu ⊢
      tauto
    rcases hcases with rfl | hu
    · exact ⟨t₀, ht₀, hid₀.trans hid.symm, hrepeat₀.trans hsame.symm⟩
    · exact h.known u hu
  · intro u hu hone
    have hne : t.id ≠ u.id := by
      intro heq
      have hkind := h.isRepeat_eq ht₀ hu (hid₀.trans heq)
      rw [hrepeat₀, hrepeat, hone] at hkind
      cases hkind
    rw [htally, if_neg hne]
    exact h.oneShot u hu hone
  · intro u hu hmany
    have hone := h.repeating u hu hmany
    rw [tally_cons] at hone
    rw [htally]
    omega

/-- A timer that does not repeat is deleted. -/
theorem drop (h : Ledger added ran timers (t :: held) []) (hrepeat : t.isRepeat = false) :
    Ledger added ran timers held [] := by
  obtain ⟨t₀, ht₀, hid₀, hrepeat₀⟩ := h.known t (by simp)
  refine ⟨h.numbered, ?_, h.ranKnown, h.oneShot, ?_⟩
  · intro u hu
    apply h.known u
    simp only [List.mem_append, List.mem_cons] at hu ⊢
    tauto
  · intro u hu hmany
    have hne : t.id ≠ u.id := by
      intro heq
      have hkind := h.isRepeat_eq ht₀ hu (hid₀.trans heq)
      rw [hrepeat₀, hrepeat, hmany] at hkind
      cases hkind
    have hone := h.repeating u hu hmany
    rw [tally_cons, if_neg hne] at hone
    exact hone

end Ledger

/-- The expirations in the set and those still to be inserted are different. -/
def Room (timers : List Timer) (todo : List Int) : Prop :=
  (timers.map Timer.expiration ++ todo).Nodup

instance (timers : List Timer) (todo : List Int) : Decidable (Room timers todo) :=
  inferInstanceAs (Decidable (List.Nodup _))

namespace TimerQueue

variable {q : TimerQueue} {t : Timer} {todo : List Int}

/-- A timer that has room is inserted, and the others keep their room. -/
theorem insert_of_room (h : Room q.timers (t.expiration :: todo)) :
    ∃ earliest timers, q.insert t = .ok (earliest, { q with timers := timers }) ∧
      timers.Perm (t :: q.timers) ∧ Room timers todo := by
  have hmoved : (t.expiration :: (q.timers.map Timer.expiration ++ todo)).Nodup :=
    (List.perm_middle.nodup_iff).mp h
  have hfresh : ∀ u ∈ q.timers, u.expiration ≠ t.expiration := by
    intro u hu heq
    apply (List.nodup_cons.mp hmoved).1
    rw [← heq]
    exact List.mem_append_left _ (List.mem_map_of_mem hu)
  obtain ⟨timers, htimers⟩ := exists_insertUnique hfresh
  have hperm := insertUnique_perm htimers
  refine ⟨q.earliestToAlarm t.expiration, timers, ?_, hperm, ?_⟩
  · unfold insert
    rw [htimers]
  · exact (((hperm.map Timer.expiration).append_right todo).nodup_iff).mpr hmoved

theorem resetTimerfd_timers {Allowed : Fault → Prop} (hoverflow : Allowed .overflow)
    (q : TimerQueue) (expiration clock : Int) :
    Ends (fun q' => q'.timers = q.timers) Allowed (q.resetTimerfd expiration clock) := by
  apply (howMuchTimeFromNow_exact hoverflow expiration clock).bind
  intro value _
  exact rfl

theorem addTimerInLoop_of_room (h : Room q.timers (t.expiration :: todo)) (clock : Int) :
    Ends (fun q' => q'.timers.Perm (t :: q.timers) ∧ Room q'.timers todo)
      (fun f => f ≠ .insertResult) (q.addTimerInLoop t clock) := by
  obtain ⟨earliest, timers, hinsert, hperm, hroom⟩ := insert_of_room h
  unfold addTimerInLoop
  rw [hinsert]
  cases earliest with
  | false => exact ⟨hperm, hroom⟩
  | true =>
      apply (resetTimerfd_timers nofun { q with timers := timers } t.expiration clock).mono
      intro q' hq'
      rw [hq']
      exact ⟨hperm, hroom⟩

theorem rearm_timers {Allowed : Fault → Prop} (hoverflow : Allowed .overflow) (q : TimerQueue)
    (clock : Int) : Ends (fun q' => q'.timers = q.timers) Allowed (q.rearm clock) := by
  unfold rearm
  split
  · exact rfl
  · split
    · exact resetTimerfd_timers hoverflow ..
    · exact rfl

/-- The expirations that `reset` gives to the repeating timers. -/
def restarts (now : Int) (expired : List Timer) : List Int :=
  (expired.filter Timer.isRepeat).map fun t => now + t.interval

theorem resetTimers_ledger {added : List Timer} {ran : List Nat} {expired : List Timer} {now : Int}
    (h : Ledger added ran q.timers expired []) (hroom : Room q.timers (restarts now expired)) :
    Ends (fun q' => Ledger added ran q'.timers [] [] ∧ Room q'.timers [])
      (fun f => f ≠ .insertResult) (q.resetTimers now expired) := by
  induction expired generalizing q with
  | nil => exact ⟨h, hroom⟩
  | cons t rest ih =>
      unfold resetTimers
      split
      · rename_i hrepeat
        rw [restarts, List.filter_cons_of_pos hrepeat, List.map_cons] at hroom
        have hoverflow : TimerQueue.Fault.overflow ≠ .insertResult := by decide
        apply (restart_spec hoverflow t now).bind
        rintro t' rfl
        obtain ⟨earliest, timers, hinsert, hperm, hrest⟩ :=
          insert_of_room (t := { t with expiration := now + t.interval }) hroom
        rw [hinsert]
        have hledger : Ledger added ran timers rest [] :=
          h.restart { t with expiration := now + t.interval } rfl rfl hrepeat hperm
        exact ih (q := { q with timers := timers }) hledger hrest
      · rename_i hrepeat
        rw [restarts, List.filter_cons_of_neg hrepeat] at hroom
        exact ih (h.drop (Bool.eq_false_iff.mpr hrepeat)) hroom

end TimerQueue

namespace TimerState

variable {s : TimerState} {held due : List Timer} {todo : List Int}

/-- The ledger of a state, with room for what is still to be inserted. -/
def Balanced (held due : List Timer) (todo : List Int) (s : TimerState) : Prop :=
  Ledger s.added s.ran s.queue.timers held due ∧ Room s.queue.timers todo

theorem addTimer_balanced {n : NewTimer} (h : s.Balanced held due (n.expiration :: todo)) :
    Ends (Balanced held due todo) (fun f => f ≠ .insertResult) (s.addTimer n) := by
  apply Ends.bind (TimerQueue.addTimerInLoop_of_room (t := s.nextTimer n) h.2 n.clock)
  rintro queue ⟨hperm, hroom⟩
  exact ⟨h.1.add rfl hperm, hroom⟩

theorem addTimers_balanced {new : List NewTimer}
    (h : s.Balanced held due (new.map NewTimer.expiration ++ todo)) :
    Ends (Balanced held due todo) (fun f => f ≠ .insertResult) (s.addTimers new) := by
  induction new generalizing s with
  | nil => exact h
  | cons n rest ih =>
      apply Ends.bind (addTimer_balanced h)
      intro s' hs'
      exact ih hs'

/-- The expirations of the timers that the callbacks add. -/
def additions (calls : List (List NewTimer)) : List Int := calls.flatten.map NewTimer.expiration

theorem runTimers_balanced {calls : List (List NewTimer)}
    (h : s.Balanced held due (additions (calls.take due.length) ++ todo)) :
    Ends (Balanced held [] todo) (fun f => f ≠ .insertResult) (s.runTimers due calls) := by
  induction due generalizing s calls with
  | nil => exact h
  | cons t rest ih =>
      have hsplit : additions (calls.take (rest.length + 1)) =
          (calls.headD []).map NewTimer.expiration ++ additions (calls.tail.take rest.length) := by
        cases calls with
        | nil => simp [additions]
        | cons new others => simp [additions]
      obtain ⟨hledger, hroom⟩ := h
      rw [List.length_cons, hsplit, List.append_assoc] at hroom
      apply Ends.bind (addTimers_balanced (s := { s with ran := s.ran ++ [t.id] })
        ⟨hledger.run, hroom⟩)
      intro s' hs'
      exact ih hs'

/-- The expirations that come together in the set are different: for a new timer
those in the set, and for the descriptor those of the timers that are not
expired, of the timers the callbacks add, and of the timers that are restarted. -/
def Distinct (s : TimerState) : Action → Prop
  | .addTimerInLoop n => ∀ t ∈ s.queue.timers, t.expiration ≠ n.expiration
  | .handleRead now calls _ =>
      let expired := below Timer.expiration now s.queue.timers
      Room (fromLowerBound Timer.expiration now s.queue.timers)
        (additions (calls.take expired.length) ++ TimerQueue.restarts now expired)

instance (s : TimerState) : ∀ a, Decidable (s.Distinct a)
  | .addTimerInLoop _ => inferInstanceAs (Decidable (∀ t ∈ s.queue.timers, _))
  | .handleRead _ _ _ => inferInstanceAs (Decidable (Room _ _))

theorem handleRead_balanced (h : s.Balanced [] [] []) {now clock : Int}
    {calls : List (List NewTimer)} (hdistinct : s.Distinct (.handleRead now calls clock)) :
    Ends (Balanced [] [] []) (fun f => f ≠ .insertResult) (s.handleRead now calls clock) := by
  have hexpired := h.1.expire (below_append_fromLowerBound Timer.expiration now s.queue.timers)
  apply (TimerQueue.getExpired_spec nofun s.queue.readTimerfd now).bind
  rintro ⟨expired, queue⟩ hr
  obtain ⟨rfl, rfl⟩ := Prod.mk.inj hr
  have hbalanced : Balanced (below Timer.expiration now s.queue.timers)
      (below Timer.expiration now s.queue.timers) _
      { s with queue := { s.queue.readTimerfd with
        timers := fromLowerBound Timer.expiration now s.queue.timers } } :=
    ⟨hexpired, hdistinct⟩
  apply (runTimers_balanced hbalanced).bind
  intro s' hs'
  have hreset : Ends (fun q => Ledger s'.added s'.ran q.timers [] [] ∧ Room q.timers [])
      (fun f => f ≠ .insertResult)
      (s'.queue.reset (below Timer.expiration now s.queue.timers) now clock) := by
    apply (TimerQueue.resetTimers_ledger hs'.1 hs'.2).bind
    intro q hq
    apply (TimerQueue.rearm_timers nofun q clock).mono
    intro q' hq'
    rw [hq']
    exact hq
  apply hreset.bind
  intro q hq
  exact hq

theorem step_balanced (h : s.Balanced [] [] []) {a : Action} (hdistinct : s.Distinct a) :
    Ends (Balanced [] [] []) (fun f => f ≠ .insertResult) (s.step a) := by
  cases a with
  | addTimerInLoop n =>
      have hroom : Room s.queue.timers [n.expiration] := by
        apply (List.perm_middle.nodup_iff).mpr
        refine List.nodup_cons.mpr ⟨?_, h.2⟩
        intro hmem
        rw [List.append_nil] at hmem
        obtain ⟨t, ht, heq⟩ := List.mem_map.mp hmem
        exact hdistinct t ht heq
      exact addTimer_balanced ⟨h.1, hroom⟩
  | handleRead now calls clock => exact handleRead_balanced h hdistinct

/-- Every added timer is accounted for: one that repeats is in the set exactly
once, any other is there exactly once or its callback has run exactly once. -/
structure Accounted (s : TimerState) : Prop where
  numbered : s.added.map Timer.id = List.range s.added.length
  repeating : ∀ t ∈ s.added, t.isRepeat = true → tally s.queue.timers t.id = 1
  oneShot : ∀ t ∈ s.added, t.isRepeat = false →
    tally s.queue.timers t.id = 1 ∧ s.ran.count t.id = 0 ∨
      tally s.queue.timers t.id = 0 ∧ s.ran.count t.id = 1

theorem Balanced.accounted (h : s.Balanced [] [] []) : s.Accounted := by
  refine ⟨h.1.numbered, h.1.repeating, ?_⟩
  intro t ht hrepeat
  have hone := h.1.oneShot t ht hrepeat
  rw [tally_nil] at hone
  omega

theorem balanced_of_reach {s : Except TimerQueue.Fault TimerState}
    (hs : timerRuns.Reach (whileRunning Distinct) s) :
    Ends (Balanced [] [] []) (fun f => f ≠ .insertResult) s := by
  have hinit : ∀ s, s = new → Balanced [] [] [] s := by
    rintro s rfl
    exact ⟨⟨rfl, nofun, nofun, nofun, nofun⟩, List.nodup_nil⟩
  exact ends_of_reach hinit (fun s a h ha => step_balanced h ha) hs

/-- Along every run whose expirations stay distinct, every added timer is
accounted for, and no insertion is refused. -/
theorem timers_accounted {s : Except TimerQueue.Fault TimerState}
    (hs : timerRuns.Reach (whileRunning Distinct) s) :
    Ends Accounted (fun f => f ≠ .insertResult) s :=
  (balanced_of_reach hs).mono fun _ h => h.accounted

/-- A one-shot and two repeating timers with different intervals expire together. -/
theorem expired_together_accounted :
    ∃ s, timerRuns.Reach (whileRunning Distinct) (.ok s) ∧ s.ran = [0, 1, 2] ∧
      s.queue.timers.map Timer.id = [2, 1] ∧ s.Accounted := by
  obtain ⟨s, hreach, hs⟩ := Machine.exists_reach (M := timerRuns)
    (whileRunning Distinct) ⟨new, rfl, rfl⟩
    [.addTimerInLoop ⟨100, 0, false, 10⟩, .addTimerInLoop ⟨110, 80, true, 20⟩,
      .addTimerInLoop ⟨120, 50, true, 30⟩, .handleRead 200 [] 210]
    (fun s => match s with
      | .ok s => decide (s.ran = [0, 1, 2] ∧ s.queue.timers.map Timer.id = [2, 1])
      | .error _ => false) (by decide +kernel)
  cases s with
  | error f => cases hs
  | ok s =>
      obtain ⟨hran, htimers⟩ := of_decide_eq_true hs
      exact ⟨s, hreach, hran, htimers, timers_accounted hreach⟩

/-- The clock readings of an operation, in order. -/
def Action.clocks : Action → List Int
  | .addTimerInLoop n => [n.clock]
  | .handleRead now calls clock => now :: calls.flatten.map NewTimer.clock ++ [clock]

/-- Two repeating timers with the same interval that expire together are given
the same expiration by `reset`, and the second one is refused. -/
theorem same_interval_refused :
    ¬ ∀ (as : List Action) (s : Except TimerQueue.Fault TimerState),
      (as.flatMap Action.clocks).Pairwise (· ≤ ·) →
      timerRuns.runs (fun _ _ => True) (.ok new) as = some s →
      Ends Accounted (fun f => f ≠ .insertResult) s := by
  intro h
  exact h [.addTimerInLoop ⟨100, 50, true, 10⟩, .addTimerInLoop ⟨110, 50, true, 20⟩,
    .handleRead 200 [] 210] (.error .insertResult) (by decide) (by decide +kernel) rfl

end TimerState

end Yatwb
