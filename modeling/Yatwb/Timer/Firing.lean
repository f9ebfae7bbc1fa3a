import Yatwb.Timer.Ledger

/-!
# When callbacks run

A history of the callbacks beside the timer queue: each with its timer as it was
when it expired, and the clock reading of the `handleRead` that ran it. No
callback runs before the expiration of its timer. Only a repeating timer runs
again, more than its interval later. While no timer is added with a time that
has passed, the callbacks run in the order of their expirations.
-/

namespace Yatwb

open Foundation

structure Firing where
  timer : Timer
  now : Int
  deriving DecidableEq, Repr

/-- The queue, and the callbacks that have run, in order. -/
structure TimerHistory where
  state : TimerState
  fired : List Firing
  deriving DecidableEq, Repr

/-- What is known of the timers in the set and of the expired ones that wait for
`reset` at the reading `now`. -/
structure Spaced (added : Nat) (fired : List Firing) (timers held : List Timer) (now : Int) :
    Prop where
  ascending : Ascending Timer.expiration timers
  distinct : ((timers ++ held).map Timer.id).Nodup
  numbered : ∀ u ∈ timers ++ held, u.id < added
  interval : ∀ u ∈ timers ++ held, u.isRepeat = true → 0 ≤ u.interval
  known : ∀ f ∈ fired, f.timer.id < added
  rested : ∀ u ∈ timers, ∀ f ∈ fired, f.timer.id = u.id →
    u.isRepeat = true ∧ f.now + u.interval ≤ u.expiration
  recent : ∀ u ∈ held, ∀ f ∈ fired, f.timer.id = u.id → f.now ≤ now
  early : ∀ f ∈ fired, f.timer.expiration < f.now
  apart : fired.Pairwise fun f g => f.timer.id = g.timer.id →
    g.timer.isRepeat = true ∧ f.now + g.timer.interval < g.now

namespace Spaced

variable {added : Nat} {fired : List Firing} {timers timers' held : List Timer} {now : Int}
  {t : Timer}

/-- A new timer is inserted. -/
theorem add (h : Spaced added fired timers held now) (hid : t.id = added)
    (hinterval : t.isRepeat = true → 0 ≤ t.interval) (hperm : timers'.Perm (t :: timers))
    (hascending : Ascending Timer.expiration timers') :
    Spaced (added + 1) fired timers' held now := by
  have hperm' : (timers' ++ held).Perm (t :: (timers ++ held)) := hperm.append_right held
  have hcases {P : Timer → Prop} (ht : P t) (hold : ∀ u ∈ timers ++ held, P u) :
      ∀ u ∈ timers' ++ held, P u := by
    intro u hu
    rcases List.mem_cons.mp (hperm'.mem_iff.mp hu) with rfl | hu
    · exact ht
    · exact hold u hu
  refine ⟨hascending, ?_, ?_, hcases hinterval h.interval, ?_, ?_, h.recent, h.early, h.apart⟩
  · rw [(hperm'.map Timer.id).nodup_iff, List.map_cons, List.nodup_cons]
    refine ⟨?_, h.distinct⟩
    intro hmem
    obtain ⟨u, hu, heq⟩ := List.mem_map.mp hmem
    have hlt := h.numbered u hu
    omega
  · exact hcases (by omega) fun u hu => Nat.lt_succ_of_lt (h.numbered u hu)
  · exact fun f hf => Nat.lt_succ_of_lt (h.known f hf)
  · intro u hu f hf heq
    rcases List.mem_cons.mp (hperm.mem_iff.mp hu) with rfl | hu
    · have hlt := h.known f hf
      omega
    · exact h.rested u hu f hf heq

/-- The expired timers leave the set, and their callbacks are going to run. -/
theorem expire {expired rest : List Timer} {old : Int}
    (h : Spaced added fired (expired ++ rest) [] old) (hdue : ∀ t ∈ expired, t.expiration < now) :
    Spaced added (fired ++ expired.map fun t => ⟨t, now⟩) rest expired now := by
  have hdistinct := h.distinct
  rw [List.append_nil] at hdistinct
  have hleft {u : Timer} (hu : u ∈ expired) : u ∈ expired ++ rest := List.mem_append_left _ hu
  have hright {u : Timer} (hu : u ∈ rest) : u ∈ expired ++ rest := List.mem_append_right _ hu
  have hall {P : Timer → Prop} (hold : ∀ u ∈ (expired ++ rest) ++ [], P u) :
      ∀ u ∈ rest ++ expired, P u := by
    intro u hu
    apply hold u
    simp only [List.mem_append] at hu ⊢
    tauto
  refine ⟨?_, ?_, hall h.numbered, hall h.interval, ?_, ?_, ?_, ?_, ?_⟩
  · exact (List.pairwise_append.mp h.ascending).2.1
  · rw [(List.perm_append_comm.map Timer.id).nodup_iff]
    exact hdistinct
  · intro f hf
    rcases List.mem_append.mp hf with hf | hf
    · exact h.known f hf
    · obtain ⟨t, ht, rfl⟩ := List.mem_map.mp hf
      exact h.numbered t (by simp [ht])
  · intro u hu f hf heq
    rcases List.mem_append.mp hf with hf | hf
    · exact h.rested u (hright hu) f hf heq
    · obtain ⟨t, ht, rfl⟩ := List.mem_map.mp hf
      rw [List.map_append, List.nodup_append] at hdistinct
      exact absurd heq
        (hdistinct.2.2 t.id (List.mem_map_of_mem ht) u.id (List.mem_map_of_mem hu))
  · intro u hu f hf heq
    rcases List.mem_append.mp hf with hf | hf
    · obtain ⟨hrepeat, hrested⟩ := h.rested u (hleft hu) f hf heq
      have hinterval := h.interval u (by simp [hu]) hrepeat
      have hlate := hdue u hu
      omega
    · obtain ⟨t, -, rfl⟩ := List.mem_map.mp hf
      exact le_rfl
  · intro f hf
    rcases List.mem_append.mp hf with hf | hf
    · exact h.early f hf
    · obtain ⟨t, ht, rfl⟩ := List.mem_map.mp hf
      exact hdue t ht
  · refine List.pairwise_append.mpr ⟨h.apart, ?_, ?_⟩
    · rw [List.pairwise_map]
      rw [List.map_append, List.nodup_append] at hdistinct
      have hids := hdistinct.1
      rw [List.Nodup, List.pairwise_map] at hids
      exact hids.imp fun hne heq => absurd heq hne
    · intro f hf g hg heq
      obtain ⟨t, ht, rfl⟩ := List.mem_map.mp hg
      obtain ⟨hrepeat, hrested⟩ := h.rested t (hleft ht) f hf heq
      exact ⟨hrepeat, lt_of_le_of_lt hrested (hdue t ht)⟩

/-- A repeating timer is inserted again, at its interval from the reading. -/
theorem restart (h : Spaced added fired timers (t :: held) now) (hrepeat : t.isRepeat = true)
    (hperm : timers'.Perm ({ t with expiration := now + t.interval } :: timers))
    (hascending : Ascending Timer.expiration timers') :
    Spaced added fired timers' held now := by
  have hids : ((timers' ++ held).map Timer.id).Perm ((timers ++ t :: held).map Timer.id) := by
    have hmoved := (hperm.append_right held).map Timer.id
    have hmiddle : ((timers ++ t :: held).map Timer.id).Perm ((t :: (timers ++ held)).map Timer.id) :=
      List.perm_middle.map Timer.id
    exact hmoved.trans hmiddle.symm
  have hcases {P : Timer → Prop} (ht : P { t with expiration := now + t.interval })
      (hold : ∀ u ∈ timers ++ t :: held, P u) : ∀ u ∈ timers' ++ held, P u := by
    intro u hu
    rcases List.mem_append.mp hu with hu | hu
    · rcases List.mem_cons.mp (hperm.mem_iff.mp hu) with rfl | hu
      · exact ht
      · exact hold u (by simp [hu])
    · exact hold u (by simp [hu])
  have ht : t ∈ timers ++ t :: held := by simp
  refine ⟨hascending, hids.nodup_iff.mpr h.distinct, hcases (h.numbered t ht) h.numbered,
    hcases (h.interval t ht) h.interval, h.known, ?_, ?_, h.early, h.apart⟩
  · intro u hu f hf heq
    rcases List.mem_cons.mp (hperm.mem_iff.mp hu) with rfl | hu
    · have hrecent := h.recent t (List.mem_cons_self ..) f hf heq
      exact ⟨hrepeat, Int.add_le_add_right hrecent _⟩
    · exact h.rested u hu f hf heq
  · exact fun u hu => h.recent u (List.mem_cons_of_mem _ hu)

/-- A timer that does not repeat is deleted. -/
theorem drop (h : Spaced added fired timers (t :: held) now) :
    Spaced added fired timers held now := by
  have hsub : (timers ++ held).Sublist (timers ++ t :: held) :=
    (List.sublist_cons_self t held).append_left timers
  refine ⟨h.ascending, h.distinct.sublist (hsub.map Timer.id),
    fun u hu => h.numbered u (hsub.subset hu), fun u hu => h.interval u (hsub.subset hu), h.known,
    h.rested, fun u hu => h.recent u (List.mem_cons_of_mem _ hu), h.early, h.apart⟩

/-- Between two operations no reading is under way. -/
theorem settle (h : Spaced added fired timers [] now) (later : Int) :
    Spaced added fired timers [] later :=
  { h with recent := fun _ hu => absurd hu List.not_mem_nil }

end Spaced

namespace TimerQueue

variable {q : TimerQueue} {t : Timer} {added : Nat} {fired : List Firing} {held : List Timer}
  {now : Int} {Φ : Timer → Prop}

/-- The new set of a queue that inserts one timer. -/
theorem addTimerInLoop_timers (q : TimerQueue) (t : Timer) (clock : Int) :
    Ends (fun q' => q'.timers.Perm (t :: q.timers) ∧
      (Ascending Timer.expiration q.timers → Ascending Timer.expiration q'.timers))
      (fun _ => True) (q.addTimerInLoop t clock) := by
  unfold addTimerInLoop
  apply (insert_spec q t).bind
  rintro ⟨earliest, q'⟩ ⟨-, timers, rfl, hperm, hascending⟩
  cases earliest with
  | false => exact ⟨hperm, hascending⟩
  | true =>
      apply (resetTimerfd_timers trivial { q with timers := timers } t.expiration clock).mono
      intro q' hq'
      rw [hq']
      exact ⟨hperm, hascending⟩

theorem resetTimers_spaced {expired : List Timer} (h : Spaced added fired q.timers expired now) :
    Ends (fun q' => Spaced added fired q'.timers [] now) (fun _ => True)
      (q.resetTimers now expired) := by
  induction expired generalizing q with
  | nil => exact h
  | cons t rest ih =>
      unfold resetTimers
      split
      · rename_i hrepeat
        apply (restart_spec trivial t now).bind
        rintro t' rfl
        apply (insert_spec q { t with expiration := now + t.interval }).bind
        rintro ⟨earliest, q'⟩ ⟨-, timers, rfl, hperm, hascending⟩
        exact ih (q := { q with timers := timers })
          (h.restart hrepeat hperm (hascending h.ascending))
      · exact ih h.drop

/-- What holds of every timer is kept by `reset`. -/
theorem resetTimers_all {expired : List Timer} (h : ∀ u ∈ q.timers, Φ u)
    (hrestart : ∀ t ∈ expired, t.isRepeat = true → Φ { t with expiration := now + t.interval }) :
    Ends (fun q' => ∀ u ∈ q'.timers, Φ u) (fun _ => True) (q.resetTimers now expired) := by
  induction expired generalizing q with
  | nil => exact h
  | cons t rest ih =>
      have hrest : ∀ u ∈ rest, u.isRepeat = true → Φ { u with expiration := now + u.interval } :=
        fun u hu => hrestart u (List.mem_cons_of_mem _ hu)
      unfold resetTimers
      split
      · rename_i hrepeat
        apply (restart_spec trivial t now).bind
        rintro t' rfl
        apply (insert_spec q { t with expiration := now + t.interval }).bind
        rintro ⟨earliest, q'⟩ ⟨-, timers, rfl, hperm, -⟩
        refine ih (q := { q with timers := timers }) ?_ hrest
        intro u hu
        rcases List.mem_cons.mp (hperm.mem_iff.mp hu) with rfl | hu
        · exact hrestart t (List.mem_cons_self ..) hrepeat
        · exact h u hu
      · exact ih h hrest

end TimerQueue

namespace TimerState

variable {s : TimerState} {fired : List Firing} {held : List Timer} {now : Int} {Φ : Timer → Prop}

/-- The invariant of a state, with the callbacks that have run before. -/
def Spaced (fired : List Firing) (held : List Timer) (now : Int) (ran : List Nat)
    (s : TimerState) : Prop :=
  Yatwb.Spaced s.added.length fired s.queue.timers held now ∧ s.ran = ran

/-- The intervals of new repeating timers are not negative. -/
def Regular : Action → Prop
  | .addTimerInLoop n => n.isRepeat = true → 0 ≤ n.interval
  | .handleRead _ calls _ => ∀ new ∈ calls, ∀ n ∈ new, n.isRepeat = true → 0 ≤ n.interval

instance : DecidablePred Regular
  | .addTimerInLoop n => inferInstanceAs (Decidable (n.isRepeat = true → 0 ≤ n.interval))
  | .handleRead _ calls _ => inferInstanceAs (Decidable
      (∀ new ∈ calls, ∀ n ∈ new, n.isRepeat = true → 0 ≤ n.interval))

theorem addTimer_spaced {ran : List Nat} (h : s.Spaced fired held now ran) {n : NewTimer}
    (hn : n.isRepeat = true → 0 ≤ n.interval) :
    Ends (Spaced fired held now ran) (fun _ => True) (s.addTimer n) := by
  apply (s.queue.addTimerInLoop_timers (s.nextTimer n) n.clock).bind
  rintro queue ⟨hperm, hascending⟩
  refine ⟨?_, h.2⟩
  have hadded := h.1.add (t := s.nextTimer n) rfl hn hperm (hascending h.1.ascending)
  rw [List.length_append]
  exact hadded

theorem addTimers_spaced {ran : List Nat} (h : s.Spaced fired held now ran) {new : List NewTimer}
    (hnew : ∀ n ∈ new, n.isRepeat = true → 0 ≤ n.interval) :
    Ends (Spaced fired held now ran) (fun _ => True) (s.addTimers new) := by
  induction new generalizing s with
  | nil => exact h
  | cons n rest ih =>
      apply (addTimer_spaced h (hnew n (List.mem_cons_self ..))).bind
      intro s' hs'
      exact ih hs' fun m hm => hnew m (List.mem_cons_of_mem _ hm)

theorem runTimers_spaced {ran : List Nat} (h : s.Spaced fired held now ran) {due : List Timer}
    {calls : List (List NewTimer)}
    (hcalls : ∀ new ∈ calls, ∀ n ∈ new, n.isRepeat = true → 0 ≤ n.interval) :
    Ends (Spaced fired held now (ran ++ due.map Timer.id)) (fun _ => True)
      (s.runTimers due calls) := by
  induction due generalizing s ran calls with
  | nil => simpa [runTimers, Ends] using h
  | cons t rest ih =>
      have hnew : ∀ n ∈ calls.headD [], n.isRepeat = true → 0 ≤ n.interval := by
        cases calls with
        | nil => simp
        | cons new others => exact hcalls new (List.mem_cons_self ..)
      have hran : Spaced fired held now (ran ++ [t.id]) { s with ran := s.ran ++ [t.id] } :=
        ⟨h.1, congrArg (· ++ [t.id]) h.2⟩
      apply (addTimers_spaced hran hnew).bind
      intro s' hs'
      have hrest := ih hs' fun new hmem => hcalls new (List.mem_of_mem_tail hmem)
      rw [List.append_assoc] at hrest
      exact hrest

/-- What holds of every timer and of every new one is kept by the callbacks. -/
theorem addTimers_all (h : ∀ u ∈ s.queue.timers, Φ u) {new : List NewTimer}
    (hnew : ∀ n ∈ new, ∀ s : TimerState, Φ (s.nextTimer n)) :
    Ends (fun s' => ∀ u ∈ s'.queue.timers, Φ u) (fun _ => True) (s.addTimers new) := by
  induction new generalizing s with
  | nil => exact h
  | cons n rest ih =>
      have hadd : Ends (fun s' => ∀ u ∈ s'.queue.timers, Φ u) (fun _ => True) (s.addTimer n) := by
        apply (s.queue.addTimerInLoop_timers (s.nextTimer n) n.clock).bind
        rintro queue ⟨hperm, -⟩ u hu
        rcases List.mem_cons.mp (hperm.mem_iff.mp hu) with rfl | hu
        · exact hnew n (List.mem_cons_self ..) s
        · exact h u hu
      apply hadd.bind
      intro s' hs'
      exact ih hs' fun m hm => hnew m (List.mem_cons_of_mem _ hm)

theorem runTimers_all (h : ∀ u ∈ s.queue.timers, Φ u) {due : List Timer}
    {calls : List (List NewTimer)}
    (hcalls : ∀ new ∈ calls, ∀ n ∈ new, ∀ s : TimerState, Φ (s.nextTimer n)) :
    Ends (fun s' => ∀ u ∈ s'.queue.timers, Φ u) (fun _ => True) (s.runTimers due calls) := by
  induction due generalizing s calls with
  | nil => exact h
  | cons t rest ih =>
      have hnew : ∀ n ∈ calls.headD [], ∀ s : TimerState, Φ (s.nextTimer n) := by
        cases calls with
        | nil => simp
        | cons new others => exact hcalls new (List.mem_cons_self ..)
      apply Ends.bind (addTimers_all (s := { s with ran := s.ran ++ [t.id] }) h hnew)
      intro s' hs'
      exact ih hs' fun new hmem => hcalls new (List.mem_of_mem_tail hmem)

end TimerState

namespace TimerHistory

open TimerState (Action Regular)
open TimerQueue (Fault)

def new : TimerHistory := ⟨.new, []⟩

/-- The callbacks that an operation runs. -/
def firings (s : TimerState) : Action → List Firing
  | .addTimerInLoop _ => []
  | .handleRead now _ _ => (below Timer.expiration now s.queue.timers).map fun t => ⟨t, now⟩

def step (s : TimerHistory) (a : Action) : Except Fault TimerHistory := do
  let state ← s.state.step a
  return ⟨state, s.fired ++ firings s.state a⟩

def machine : Machine (Except Fault TimerHistory) Action := faulting (· = new) step

variable {s : TimerHistory} {a : Action}

/-- The history reads nothing and changes nothing. -/
theorem state_step (s : TimerHistory) (a : Action) :
    (s.step a).map TimerHistory.state = s.state.step a := by
  simp only [step]
  cases s.state.step a <;> rfl

/-- The invariant: the numbers of the timers whose callbacks have run are those
of the history, and the callbacks were spaced. -/
def Spaced (s : TimerHistory) : Prop :=
  s.state.Spaced s.fired [] 0 (s.fired.map fun f => f.timer.id)

theorem step_spaced (h : s.Spaced) (ha : Regular a) :
    Ends Spaced (fun _ => True) (s.step a) := by
  have hstate : Ends (TimerState.Spaced (s.fired ++ firings s.state a) [] 0
      ((s.fired ++ firings s.state a).map fun f => f.timer.id)) (fun _ => True)
      (s.state.step a) := by
    cases a with
    | addTimerInLoop n =>
        rw [firings, List.append_nil]
        exact TimerState.addTimer_spaced h ha
    | handleRead now calls clock =>
        apply (TimerQueue.getExpired_spec trivial s.state.queue.readTimerfd now).bind
        rintro ⟨expired, queue⟩ hr
        obtain ⟨rfl, rfl⟩ := Prod.mk.inj hr
        have hsplit := below_append_fromLowerBound Timer.expiration now s.state.queue.timers
        have hexpired : TimerState.Spaced (s.fired ++ firings s.state (.handleRead now calls clock))
            (below Timer.expiration now s.state.queue.timers) now
            (s.fired.map fun f => f.timer.id) { s.state with
              queue := { s.state.queue.readTimerfd with
                timers := fromLowerBound Timer.expiration now s.state.queue.timers } } := by
          refine ⟨?_, h.2⟩
          have hbefore := h.1
          rw [← hsplit] at hbefore
          exact hbefore.expire fun t ht => lt_of_mem_below ht
        apply (TimerState.runTimers_spaced hexpired ha).bind
        intro state hs
        have hreset : Ends (fun q => Yatwb.Spaced state.added.length
            (s.fired ++ firings s.state (.handleRead now calls clock)) q.timers [] 0)
            (fun _ => True)
            (state.queue.reset (below Timer.expiration now s.state.queue.timers) now clock) := by
          apply (TimerQueue.resetTimers_spaced hs.1).bind
          intro q hq
          apply (TimerQueue.rearm_timers trivial q clock).mono
          intro q' hq'
          rw [hq']
          exact hq.settle 0
        apply hreset.bind
        intro q hq
        refine ⟨hq, ?_⟩
        rw [List.map_append, firings, List.map_map]
        exact hs.2
  apply hstate.bind
  intro state hs
  exact hs

theorem spaced_of_reach {s : Except Fault TimerHistory}
    (hs : machine.Reach (whileRunning fun _ => Regular) s) : Ends Spaced (fun _ => True) s := by
  have hinit : ∀ s, s = new → Spaced s := by
    rintro s rfl
    refine ⟨⟨List.Pairwise.nil, List.nodup_nil, ?_, ?_, ?_, ?_, ?_, ?_, List.Pairwise.nil⟩, rfl⟩
    all_goals
      intro u hu
      exact absurd hu List.not_mem_nil
  exact ends_of_reach hinit (fun _ _ h ha => step_spaced h ha) hs

/-- No callback runs before the time of its timer, only the callback of a
repeating timer runs again, and then more than the interval after it ran last. -/
theorem never_early_nor_too_often {s : TimerHistory}
    (hs : machine.Reach (whileRunning fun _ => Regular) (.ok s)) :
    s.state.ran = s.fired.map (fun f => f.timer.id) ∧
      (∀ f ∈ s.fired, f.timer.expiration < f.now) ∧
      s.fired.Pairwise fun f g => f.timer.id = g.timer.id →
        g.timer.isRepeat = true ∧ f.now + g.timer.interval < g.now := by
  obtain ⟨hspaced, hran⟩ := spaced_of_reach hs
  exact ⟨hran, hspaced.early, hspaced.apart⟩

/-! ### The order of the callbacks -/

/-- The clock does not go back behind a callback that has run, and no timer is
added with a time before the reading with which a callback has run. -/
def Prompt (s : TimerHistory) : Action → Prop
  | .addTimerInLoop n =>
      Regular (.addTimerInLoop n) ∧ ∀ f ∈ s.fired, f.now ≤ n.expiration
  | .handleRead now calls clock =>
      Regular (.handleRead now calls clock) ∧ (∀ f ∈ s.fired, f.now ≤ now) ∧
        ∀ new ∈ calls, ∀ n ∈ new, now ≤ n.expiration

instance (s : TimerHistory) : DecidablePred s.Prompt
  | .addTimerInLoop n => inferInstanceAs
      (Decidable (Regular (.addTimerInLoop n) ∧ ∀ f ∈ s.fired, f.now ≤ n.expiration))
  | .handleRead now calls clock => inferInstanceAs
      (Decidable (Regular (.handleRead now calls clock) ∧ (∀ f ∈ s.fired, f.now ≤ now) ∧
        ∀ new ∈ calls, ∀ n ∈ new, now ≤ n.expiration))

theorem Prompt.regular (h : s.Prompt a) : Regular a := by
  cases a with
  | addTimerInLoop n => exact h.1
  | handleRead now calls clock => exact h.1

/-- The callbacks ran in the order of their expirations, and the timers in the set
expire after the last of them ran. -/
structure InOrder (s : TimerHistory) : Prop where
  spaced : s.Spaced
  waiting : ∀ u ∈ s.state.queue.timers, ∀ f ∈ s.fired, f.now ≤ u.expiration
  ordered : s.fired.Pairwise fun f g => f.timer.expiration ≤ g.timer.expiration

/-- After a reading, no timer in the set expires before it. -/
theorem handleRead_late (s : TimerState) {now clock : Int} {calls : List (List NewTimer)}
    (hascending : Ascending Timer.expiration s.queue.timers)
    (hintervals : ∀ t ∈ s.queue.timers, t.isRepeat = true → 0 ≤ t.interval)
    (hcalls : ∀ new ∈ calls, ∀ n ∈ new, now ≤ n.expiration) :
    Ends (fun s' => ∀ u ∈ s'.queue.timers, now ≤ u.expiration) (fun _ => True)
      (s.handleRead now calls clock) := by
  apply (TimerQueue.getExpired_spec trivial s.queue.readTimerfd now).bind
  rintro ⟨expired, queue⟩ hr
  obtain ⟨rfl, rfl⟩ := Prod.mk.inj hr
  have hrest : ∀ u ∈ fromLowerBound Timer.expiration now s.queue.timers, now ≤ u.expiration :=
    fun u hu => hascending.le_of_mem_fromLowerBound hu
  apply Ends.bind (TimerState.runTimers_all (s := { s with queue := { s.queue.readTimerfd with
    timers := fromLowerBound Timer.expiration now s.queue.timers } }) hrest
      fun new hnew n hn _ => hcalls new hnew n hn)
  intro s' hs'
  have hreset : Ends (fun q => ∀ u ∈ q.timers, now ≤ u.expiration) (fun _ => True)
      (s'.queue.reset (below Timer.expiration now s.queue.timers) now clock) := by
    apply Ends.bind (TimerQueue.resetTimers_all hs' ?_)
    · intro q hq
      apply (TimerQueue.rearm_timers trivial q clock).mono
      intro q' hq'
      rw [hq']
      exact hq
    · intro t ht hrepeat
      have hmem : t ∈ s.queue.timers := by
        rw [← below_append_fromLowerBound Timer.expiration now s.queue.timers]
        exact List.mem_append_left _ ht
      have hinterval := hintervals t hmem hrepeat
      simp only
      omega
  apply hreset.bind
  intro q hq
  exact hq

theorem step_inOrder (h : s.InOrder) (ha : s.Prompt a) :
    Ends InOrder (fun _ => True) (s.step a) := by
  have hlate : Ends (fun state : TimerState => ∀ u ∈ state.queue.timers,
      ∀ f ∈ s.fired ++ firings s.state a, f.now ≤ u.expiration) (fun _ => True)
      (s.state.step a) := by
    cases a with
    | addTimerInLoop n =>
        rw [firings, List.append_nil]
        apply (s.state.queue.addTimerInLoop_timers (s.state.nextTimer n) n.clock).bind
        rintro queue ⟨hperm, -⟩ u hu
        rcases List.mem_cons.mp (hperm.mem_iff.mp hu) with rfl | hu
        · exact ha.2
        · exact h.waiting u hu
    | handleRead now calls clock =>
        obtain ⟨-, hnow, hcalls⟩ := ha
        have hspaced := h.spaced.1
        apply (handleRead_late s.state hspaced.ascending
          (fun t ht => hspaced.interval t (by simp [ht])) hcalls).mono
        intro state hstate u hu f hf
        have hfnow : f.now ≤ now := by
          rcases List.mem_append.mp hf with hf | hf
          · exact hnow f hf
          · obtain ⟨t, -, rfl⟩ := List.mem_map.mp hf
            exact le_rfl
        exact le_trans hfnow (hstate u hu)
  have hordered : (s.fired ++ firings s.state a).Pairwise fun f g =>
      f.timer.expiration ≤ g.timer.expiration := by
    cases a with
    | addTimerInLoop n =>
        rw [firings, List.append_nil]
        exact h.ordered
    | handleRead now calls clock =>
        have hsplit := below_append_fromLowerBound Timer.expiration now s.state.queue.timers
        have hascending := h.spaced.1.ascending
        rw [← hsplit] at hascending
        refine List.pairwise_append.mpr ⟨h.ordered, ?_, ?_⟩
        · rw [firings, List.pairwise_map]
          exact (List.pairwise_append.mp hascending).1.imp fun hlt => le_of_lt hlt
        · intro f hf g hg
          obtain ⟨t, ht, rfl⟩ := List.mem_map.mp hg
          have hmem : t ∈ s.state.queue.timers := by
            rw [← hsplit]
            exact List.mem_append_left _ ht
          exact le_trans (le_of_lt (h.spaced.1.early f hf)) (h.waiting t hmem f hf)
  have hspaced := step_spaced h.spaced ha.regular
  simp only [step] at hspaced ⊢
  cases hstep : s.state.step a with
  | error f => trivial
  | ok state =>
      rw [hstep] at hlate hspaced
      exact ⟨hspaced, hlate, hordered⟩

/-- While no timer is added with a time that has passed, the callbacks run in the
order of the times of their timers. -/
theorem fires_in_order {s : TimerHistory}
    (hs : machine.Reach (whileRunning Prompt) (.ok s)) :
    s.fired.Pairwise fun f g => f.timer.expiration ≤ g.timer.expiration := by
  have hinit : ∀ s, s = new → InOrder s := by
    rintro s rfl
    refine ⟨spaced_of_reach (.init ⟨new, rfl, rfl⟩), ?_, List.Pairwise.nil⟩
    intro u hu
    exact absurd hu List.not_mem_nil
  exact (ends_of_reach hinit (fun _ _ h ha => step_inOrder h ha) hs).ordered

section Example

/-- A repeating timer runs twice, with a one-shot timer between, which the first
callback has added. -/
def exampleRun : List Action :=
  [.addTimerInLoop ⟨100, 50, true, 10⟩, .handleRead 120 [[⟨150, 0, false, 121⟩]] 122,
    .handleRead 160 [] 161, .handleRead 175 [] 176]

theorem reach_example : ∃ s, machine.Reach (whileRunning Prompt) (.ok s) ∧
    s.fired.map (fun f => (f.timer.id, f.timer.expiration, f.now)) =
      [(0, 100, 120), (1, 150, 160), (0, 170, 175)] := by
  obtain ⟨x, hx, hp⟩ := Machine.exists_reach (M := machine) (whileRunning Prompt) ⟨new, rfl, rfl⟩
    exampleRun
    (fun x => match x with
      | .ok s => decide (s.fired.map (fun f => (f.timer.id, f.timer.expiration, f.now)) =
          [(0, 100, 120), (1, 150, 160), (0, 170, 175)])
      | .error _ => false) (by decide +kernel)
  cases x with
  | error f => cases hp
  | ok s => exact ⟨s, hx, of_decide_eq_true hp⟩

theorem example_never_early : ∃ s : TimerHistory, s.fired.map (fun f => f.now) = [120, 160, 175] ∧
    ∀ f ∈ s.fired, f.timer.expiration < f.now := by
  obtain ⟨s, hs, hfired⟩ := reach_example
  have hregular : machine.Reach (whileRunning fun _ => Regular) (.ok s) :=
    hs.mono fun _ _ ha s₀ hs₀ => (ha s₀ hs₀).regular
  refine ⟨s, ?_, (never_early_nor_too_often hregular).2.1⟩
  have hnow := congrArg (List.map fun x => x.2.2) hfired
  rwa [List.map_map] at hnow

theorem example_fires_in_order : ∃ s : TimerHistory, s.fired.map (fun f => f.timer.id) = [0, 1, 0] ∧
    s.fired.Pairwise fun f g => f.timer.expiration ≤ g.timer.expiration := by
  obtain ⟨s, hs, hfired⟩ := reach_example
  refine ⟨s, ?_, fires_in_order hs⟩
  have hids := congrArg (List.map fun x => x.1) hfired
  rwa [List.map_map] at hids

end Example

end TimerHistory

end Yatwb
