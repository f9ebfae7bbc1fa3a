import Yatwb.Timer.SlotOwners
import Yatwb.Timer.Ledger

/-!
# The slots follow the queue

The functions with the owners of the timers and those of the queue without them
compute the same. The set of the slots has an entry for each timer of the
queue, in the same order, and the same asserts fail. This needs a comparison with
the sentry to read `now`, and an overflow ends only the runs of the queue. So what
is known about the runs of the queue is known about the slots.
-/

namespace Yatwb

open Foundation

namespace TimerSlots

open TimerQueue (Fault)
open TimerState (timerRuns)

/-- The entry of a timer. -/
def entry (t : Timer) : TimerEntry := ⟨t.expiration, some (.timer t.id)⟩

/-- The slots show the timers of a queue, and those held by `expired` after the
positions that are already empty. -/
structure Shows (number : Nat) (emptied : List TimerEntry) (held queued : List Timer)
    (s : TimerSlots) : Prop where
  inv : s.Inv
  made : s.made = number
  timers : s.timers = queued.map entry
  empty : ∀ e ∈ emptied, e.second = none
  expired : s.expired = emptied ++ held.map entry
  live : ∀ t ∈ queued ++ held, t ∈ s.live

def Overflows (f : Fault) : Prop := f = .overflow

theorem overflows : Overflows .overflow := rfl

/-- The slots end as the queue does, unless a time overflows. -/
abbrev Follows {α β : Type} (R : α → β → Prop) : Except Fault α → Except Halt β → Prop :=
  Corresponds R Overflows fun f h => h.fault = f

variable {s : TimerState} {m : TimerSlots} {number : Nat} {emptied : List TimerEntry}
  {held queued : List Timer} {q : TimerQueue} {t : Timer}

theorem Inv.deref_eq (h : m.Inv) (ht : t ∈ m.live) : m.deref (some (.timer t.id)) = some t := by
  simp only [deref]
  cases hfind : m.live.find? fun u => u.id = t.id with
  | none => exact absurd (decide_eq_true rfl) (List.find?_eq_none.mp hfind t ht)
  | some u =>
      have hid : u.id = t.id := by simpa using List.find?_some hfind
      exact congrArg some
        (List.inj_on_of_nodup_map h.ids (List.mem_of_find?_eq_some hfind) ht hid)

theorem Inv.getExpiration_eq (h : m.Inv) (junk : Nat → Int) (ht : t ∈ m.live) :
    m.getExpiration junk (some (.timer t.id)) = t.expiration := by
  rw [getExpiration, h.deref_eq ht]
  rfl

theorem filterMap_entry (ts : List Timer) :
    (ts.map entry).filterMap TimerEntry.second = ts.map fun t => .timer t.id := by
  rw [List.filterMap_map]
  exact congrFun List.filterMap_eq_map ts

/-- The addresses that are shown are different. -/
theorem Shows.ids_nodup (h : Shows number emptied held queued m) :
    ((queued ++ held).map Timer.id).Nodup := by
  have howners := h.inv.owners_nodup
  have hslots : (queued.map fun t => TimerPtr.timer t.id) ++ (held.map fun t => .timer t.id) =
      ((queued ++ held).map Timer.id).map TimerPtr.timer := by
    simp [Function.comp_def]
  rw [owners, List.append_assoc, h.timers, h.expired, List.filterMap_append, filterMap_entry,
    filterMap_entry, List.filterMap_eq_nil_iff.mpr h.empty, List.nil_append, hslots] at howners
  exact (List.nodup_append.mp howners).2.1.of_map _

theorem Shows.access (h : Shows number emptied held queued m) (site : Site) {slot : TimerSlot}
    (hslot : m.Holds slot ∨ Access.Broken ⟨site, slot, m.deref slot, decide m.Exclusive⟩) :
    Shows number emptied held queued (m.access site slot) :=
  ⟨h.inv.access site hslot, h.made, h.timers, h.empty, h.expired, h.live⟩

theorem Shows.holds_timers (h : Shows number emptied held queued m) (ht : t ∈ queued) :
    m.Holds (entry t).second := by
  refine TimerSlots.holds_timers ?_ (Option.some_ne_none _)
  rw [h.timers]
  exact List.mem_map_of_mem ht

theorem Shows.holds_expired (h : Shows number emptied held queued m) (ht : t ∈ held) :
    m.Holds (entry t).second := by
  refine TimerSlots.holds_expired ?_ (Option.some_ne_none _)
  rw [h.expired]
  exact List.mem_append_right _ (List.mem_map_of_mem ht)

variable (junk : Nat → Int)

/-- The timer in the parameter is inserted as the queue inserts it. -/
theorem insert_follows (h : Shows number emptied held q.timers m) (hargument : m.argument = none)
    (hparameter : m.parameter = some (.timer t.id)) (ht : t ∈ m.live) :
    Follows (fun r r' => r'.1 = r.1 ∧ Shows number emptied held r.2.timers r'.2 ∧ r'.2.Idle)
      (q.insert t) (m.insert junk) := by
  have hholds : m.Holds m.parameter := ⟨.timer t.id, by simp [owners, hparameter], hparameter⟩
  have haccess := h.inv.access .insert (.inl hholds)
  have hfirst : m.getExpiration junk m.parameter = t.expiration := by
    rw [hparameter]
    exact h.inv.getExpiration_eq junk ht
  have hkey : ∀ u ∈ t :: q.timers,
      (m.access .insert m.parameter).getExpiration junk (entry u).second = u.expiration := by
    intro u hu
    apply haccess.getExpiration_eq junk
    rcases List.mem_cons.mp hu with rfl | hu
    · exact ht
    · exact h.live u (List.mem_append_left _ hu)
  have hentry : (⟨t.expiration, (m.access .insert m.parameter).parameter⟩ : TimerEntry) =
      entry t := congrArg (TimerEntry.mk t.expiration) hparameter
  have htimers : (m.access .insert m.parameter).timers = q.timers.map entry := h.timers
  have hset : insertUnique
      (fun e : TimerEntry => (m.access .insert m.parameter).getExpiration junk e.second)
      ⟨t.expiration, (m.access .insert m.parameter).parameter⟩
      (m.access .insert m.parameter).timers =
      (insertUnique Timer.expiration t q.timers).map (List.map entry) := by
    rw [hentry, htimers]
    exact insertUnique_map hkey
  have hlogged := (access_logged m .insert m.parameter).trans
    (compare_spec haccess (.inl hholds) fun e (he : e ∈ m.timers) => he).2
  have hspec := insert_spec junk h.inv hargument hparameter
  have hends : Follows (fun r r' => r'.1 = r.1 ∧ r'.2.timers = r.2.timers.map entry ∧
      r'.2.live = m.live ∧ r'.2.made = m.made ∧ r.2.timers.Perm (t :: q.timers))
      (q.insert t) (m.insert junk) := by
    unfold TimerQueue.insert TimerSlots.insert
    simp only [hfirst, hset]
    cases hinsert : insertUnique Timer.expiration t q.timers with
    | none => exact .inr ⟨_, rfl, rfl⟩
    | some timers =>
        refine ⟨_, rfl, ?_, rfl, hlogged.live, hlogged.made, insertUnique_perm hinsert⟩
        rw [htimers, TimerQueue.earliestToAlarm]
        cases q.timers <;> rfl
  refine (hends.and (ends_any _) hspec).mono ?_
  rintro r r' ⟨⟨hfirst, htimers, hlive, hmade, hperm⟩, -, hsettled⟩
  refine ⟨hfirst, ⟨hsettled.inv, hmade.trans h.made, htimers, h.empty, ?_, ?_⟩, hsettled.idle⟩
  · exact hsettled.expired.trans h.expired
  · intro u hu
    rw [hlive]
    rcases List.mem_append.mp hu with hu | hu
    · rcases List.mem_cons.mp (hperm.mem_iff.mp hu) with rfl | hu
      · exact ht
      · exact h.live u (List.mem_append_left _ hu)
    · exact h.live u (List.mem_append_right _ hu)

/-- What the slots show of a state between two calls. -/
def Shown (held : List Timer) (s : TimerState) (m : TimerSlots) : Prop :=
  Shows s.added.length [] held s.queue.timers m ∧ m.Idle

theorem addTimer_follows (h : Shown held s m) (n : NewTimer) :
    Follows (Shown held) (s.addTimer n) (m.addTimer junk n) := by
  obtain ⟨hshows, hidle⟩ := h
  have hnew : s.nextTimer n ∈ (m.make n).live := by
    rw [TimerState.nextTimer, ← hshows.made]
    exact List.mem_append_right _ (List.mem_singleton_self _)
  have hpassed : Shows (s.added ++ [s.nextTimer n]).length [] held s.queue.timers
      { m.make n with parameter := (m.make n).argument, argument := none } := by
    refine ⟨hshows.inv.pass hidle n, ?_, hshows.timers, hshows.empty, hshows.expired, ?_⟩
    · rw [List.length_append, List.length_singleton, ← hshows.made]
      rfl
    · exact fun u hu => List.mem_append_left _ (hshows.live u hu)
  have hparameter : (m.make n).argument = some (.timer (s.nextTimer n).id) :=
    congrArg (fun k => some (TimerPtr.timer k)) hshows.made
  have hinsert := insert_follows junk hpassed rfl hparameter hnew
  unfold TimerState.addTimer TimerQueue.addTimerInLoop TimerSlots.addTimer
  rw [bind_assoc]
  apply hinsert.bind
  rintro ⟨earliest, queue⟩ ⟨earliest', m'⟩ ⟨rfl, hshows', hidle'⟩
  cases earliest' with
  | false => exact ⟨m', rfl, hshows', hidle'⟩
  | true =>
      apply Corresponds.skip (TimerQueue.resetTimerfd_timers overflows queue _ _)
      intro queue' hqueue'
      refine ⟨_, rfl, ?_, ⟨hidle'.argument, hidle'.parameter⟩⟩
      rw [← hqueue'] at hshows'
      exact hshows'.access _ (.inr (.inl ⟨rfl, hidle'.argument⟩))

theorem addTimers_follows (h : Shown held s m) (new : List NewTimer) :
    Follows (Shown held) (s.addTimers new) (m.addTimers junk new) := by
  induction new generalizing s m with
  | nil => exact ⟨m, rfl, h⟩
  | cons n rest ih =>
      apply (addTimer_follows junk h n).bind
      intro s' m' h'
      exact ih h'

theorem runTimers_follows (h : Shown held s m) {due : List Timer} (hdue : ∀ t ∈ due, t ∈ held)
    (calls : List (List NewTimer)) :
    Follows (Shown held) (s.runTimers due calls) (m.runTimers junk (due.map entry) calls) := by
  induction due generalizing s m calls with
  | nil => exact ⟨m, rfl, h⟩
  | cons t rest ih =>
      have ht : t ∈ held := hdue t (List.mem_cons_self ..)
      have haccess : Shown held { s with ran := s.ran ++ [t.id] }
          (m.access .run (entry t).second) :=
        ⟨h.1.access .run (.inl (h.1.holds_expired ht)), ⟨h.2.argument, h.2.parameter⟩⟩
      apply (addTimers_follows junk haccess (calls.headD [])).bind
      intro s' m' h'
      exact ih h' (fun u hu => hdue u (List.mem_cons_of_mem _ hu)) calls.tail

/-- The sentry reads as `now`, and the same timers expire. -/
theorem getExpired_follows (h : Shown [] s m) {now : Int} (hnow : junk m.accesses.length = now) :
    Follows (fun r m' => Shown r.1 { s with queue := r.2 } m')
      (s.queue.readTimerfd.getExpired now) (m.getExpired junk now) := by
  obtain ⟨hshows, hidle⟩ := h
  have hspec := getExpired_spec junk hshows.inv hidle hshows.expired now
  have hkey : ∀ u ∈ s.queue.timers, m.getExpiration junk (entry u).second = u.expiration := by
    intro u hu
    exact hshows.inv.getExpiration_eq junk (hshows.live u (List.mem_append_left _ hu))
  have hbound : m.getExpiration junk (some .uintptrMax) = now := hnow
  have hlogged :=
    (compare_spec hshows.inv (.inr rfl) fun e (he : e ∈ m.timers) => he).2
  have hends : Follows (fun r m' => r = (below Timer.expiration now s.queue.timers,
        { s.queue.readTimerfd with timers := fromLowerBound Timer.expiration now s.queue.timers }) ∧
      m'.expired = (below Timer.expiration now s.queue.timers).map entry ∧
      m'.timers = (fromLowerBound Timer.expiration now s.queue.timers).map entry ∧
      m'.live = m.live ∧ m'.made = m.made)
      (s.queue.readTimerfd.getExpired now) (m.getExpired junk now) := by
    have hbelow : below (fun e : TimerEntry => m.getExpiration junk e.second) now m.timers =
        (below Timer.expiration now s.queue.timers).map entry := by
      rw [hshows.timers]
      exact below_map now hkey
    have hrest : fromLowerBound (fun e : TimerEntry => m.getExpiration junk e.second) now
        m.timers = (fromLowerBound Timer.expiration now s.queue.timers).map entry := by
      rw [hshows.timers]
      exact fromLowerBound_map now hkey
    have horder : (∀ it ∈ ((fromLowerBound Timer.expiration now s.queue.timers).map entry).head?,
        now < it.first) ↔
        ∀ first ∈ (fromLowerBound Timer.expiration now s.queue.timers).head?,
          now < first.expiration := by
      cases fromLowerBound Timer.expiration now s.queue.timers <;> simp [entry]
    unfold TimerQueue.getExpired TimerSlots.getExpired
    simp only [hbound, hbelow, hrest, horder]
    by_cases hfirst : ∀ first ∈ (fromLowerBound Timer.expiration now s.queue.timers).head?,
        now < first.expiration
    · rw [if_pos hfirst, check_bind_of _ (by exact hfirst)]
      exact ⟨_, rfl, rfl, rfl, rfl, hlogged.live, hlogged.made⟩
    · rw [if_neg hfirst, check_bind_of_not _ (by exact hfirst)]
      exact .inr ⟨_, rfl, rfl⟩
  refine (hends.and (ends_any _) hspec).mono ?_
  rintro r m' ⟨⟨rfl, hexpired, htimers, hlive, hmade⟩, -, hinv, hidle', -, -⟩
  refine ⟨⟨hinv, hmade.trans hshows.made, htimers, nofun, hexpired, ?_⟩, hidle'⟩
  intro u hu
  rw [hlive]
  apply hshows.live
  rw [List.append_nil, ← below_append_fromLowerBound Timer.expiration now s.queue.timers]
  exact (List.mem_append.mp hu).elim (List.mem_append_right _) (List.mem_append_left _)

/-- The timer whose slot is emptied has an address of its own. -/
theorem Shows.id_ne (h : Shows number emptied (t :: held) queued m) {u : Timer}
    (hu : u ∈ queued ++ held) : u.id ≠ t.id := by
  have hids := h.ids_nodup
  rw [(List.perm_middle.map Timer.id).nodup_iff, List.map_cons, List.nodup_cons] at hids
  intro hid
  exact hids.1 (hid ▸ List.mem_map_of_mem hu)

theorem Shows.live_of_mem (h : Shows number emptied (t :: held) queued m) {u : Timer}
    (hu : u ∈ queued ++ held) : u ∈ m.live := by
  apply h.live
  rcases List.mem_append.mp hu with hu | hu
  · exact List.mem_append_left _ hu
  · exact List.mem_append_right _ (List.mem_cons_of_mem _ hu)

/-- The position of the emptied slot is the next empty one. -/
theorem Shows.empty_snoc (h : Shows number emptied held queued m) (first : Int) :
    ∀ e ∈ emptied ++ [⟨first, none⟩], e.second = none := by
  intro e he
  rcases List.mem_append.mp he with he | he
  · exact h.empty e he
  · obtain rfl := List.mem_singleton.mp he
    rfl

/-- A restarted timer moves to the parameter of `insert`. -/
theorem Shows.restart (h : Shows number emptied (t :: held) queued m) (hidle : m.Idle)
    (now : Int) :
    let m' : TimerSlots :=
      { (m.restart now (entry t).second).vacate emptied.length (entry t) with
        parameter := (entry t).second }
    Shows number (emptied ++ [⟨t.expiration, none⟩]) held queued m' ∧
      { t with expiration := now + t.interval } ∈ m'.live := by
  have hrestarted := h.inv.restart now (entry t).second
  have hlive : ∀ u ∈ m.live, (if u.id = t.id then
      { u with expiration := now + u.interval } else u) ∈
      (m.restart now (entry t).second).live := fun u hu => List.mem_map_of_mem hu
  refine ⟨⟨?_, h.made, h.timers, h.empty_snoc _, vacate_expired h.expired, ?_⟩, ?_⟩
  · exact hrestarted.unplace ⟨hidle.argument, hidle.parameter⟩ h.expired rfl
  · intro u hu
    have hmem := hlive u (h.live_of_mem hu)
    rw [if_neg (h.id_ne hu)] at hmem
    exact hmem
  · have hmem := hlive t (h.live t (List.mem_append_right _ (List.mem_cons_self ..)))
    rw [if_pos rfl] at hmem
    exact hmem

/-- A timer that does not repeat is deleted. -/
theorem Shows.retire (h : Shows number emptied (t :: held) queued m) :
    Shows number (emptied ++ [⟨t.expiration, none⟩]) held queued
      ((m.vacate emptied.length (entry t)).release (entry t).second) := by
  refine ⟨h.inv.retire h.expired rfl, h.made, h.timers, h.empty_snoc _,
    vacate_expired h.expired, ?_⟩
  intro u hu
  exact List.mem_filter.mpr ⟨h.live_of_mem hu, decide_eq_true (h.id_ne hu)⟩

/-- What the slots show after the loop of `reset`. -/
def Emptying (number : Nat) (q : TimerQueue) (m : TimerSlots) : Prop :=
  ∃ emptied, Shows number emptied [] q.timers m ∧ m.Idle

theorem resetTimers_follows (h : Shows number emptied held q.timers m) (hidle : m.Idle)
    (now : Int) :
    Follows (Emptying number) (q.resetTimers now held)
      (m.resetTimers junk now emptied.length (held.map entry)) := by
  induction held generalizing q m emptied with
  | nil => exact ⟨m, rfl, emptied, h, hidle⟩
  | cons t rest ih =>
      have ht : t ∈ m.live := h.live t (List.mem_append_right _ (List.mem_cons_self ..))
      have hrepeat : m.isRepeat junk (entry t).second = t.isRepeat := by
        rw [TimerSlots.isRepeat, entry, h.inv.deref_eq ht]
        rfl
      have hread := h.access .isRepeat (.inl (h.holds_expired (List.mem_cons_self ..)))
      have hlength : (emptied ++ [(⟨t.expiration, none⟩ : TimerEntry)]).length =
          emptied.length + 1 := by
        rw [List.length_append, List.length_singleton]
      simp only [TimerQueue.resetTimers, List.map_cons, TimerSlots.resetTimers, hrepeat]
      cases t.isRepeat with
      | true =>
          rw [if_pos rfl, if_pos rfl]
          apply Corresponds.skip (TimerQueue.restart_spec overflows t now)
          rintro t' rfl
          have hread' := hread.access .restart
            (.inl (hread.holds_expired (List.mem_cons_self ..)))
          obtain ⟨hshows, hlive⟩ := hread'.restart ⟨hidle.argument, hidle.parameter⟩ now
          have hinsert := insert_follows (t := { t with expiration := now + t.interval }) junk
            hshows hidle.argument rfl hlive
          apply hinsert.bind
          rintro ⟨earliest, queue⟩ ⟨earliest', m'⟩ ⟨-, hshows', hidle'⟩
          rw [← hlength]
          exact ih hshows' hidle'
      | false =>
          rw [if_neg Bool.false_ne_true, if_neg Bool.false_ne_true, ← hlength]
          exact ih hread.retire ⟨hidle.argument, hidle.parameter⟩

theorem reset_follows (h : Shows number [] held q.timers m) (hidle : m.Idle)
    (now clock : Int) :
    Follows (Emptying number) (q.reset held now clock) (m.reset junk now) := by
  unfold TimerQueue.reset TimerSlots.reset
  rw [h.expired]
  apply (resetTimers_follows junk h hidle now).bind
  rintro q' m' ⟨emptied, hshows, hidle'⟩
  apply (TimerQueue.rearm_timers (.inl rfl) q' clock).mono
  intro q'' hq''
  rw [← hq''] at hshows
  cases hqueued : q''.timers with
  | nil =>
      have htimers : m'.timers = [] := hshows.timers.trans (congrArg _ hqueued)
      rw [htimers]
      exact ⟨m', rfl, emptied, hshows, hidle'⟩
  | cons t rest =>
      have htimers : m'.timers = entry t :: rest.map entry :=
        hshows.timers.trans (congrArg _ hqueued)
      have ht : t ∈ q''.timers := hqueued ▸ List.mem_cons_self ..
      rw [htimers]
      exact ⟨_, rfl, emptied, hshows.access .nextExpire (.inl (hshows.holds_timers ht)),
        hidle'.argument, hidle'.parameter⟩

theorem Emptying.destroyExpired (h : Emptying number q m) :
    Shows number [] [] q.timers m.destroyExpired ∧ m.destroyExpired.Idle := by
  obtain ⟨emptied, hshows, hidle⟩ := h
  have hempty : ∀ e ∈ m.expired, e.second = none := by
    rw [hshows.expired, List.map_nil, List.append_nil]
    exact hshows.empty
  obtain ⟨hinv, hidle', -, -⟩ :=
    (⟨hshows.inv, hidle, hempty, List.prefix_refl _⟩ : Emptied m m).destroyExpired
  rw [destroyExpired_eq hempty] at hinv hidle' ⊢
  exact ⟨⟨hinv, hshows.made, hshows.timers, nofun, rfl, hshows.live⟩, hidle'⟩

theorem handleRead_follows (h : Shown [] s m) {now : Int}
    (hnow : junk m.accesses.length = now) (calls : List (List NewTimer)) (clock : Int) :
    Follows (Shown []) (s.handleRead now calls clock) (m.handleRead junk now calls) := by
  apply (getExpired_follows junk h hnow).bind
  rintro ⟨expired, queue⟩ m₁ h₁
  have hexpired : m₁.expired = expired.map entry := h₁.1.expired
  rw [hexpired]
  apply (runTimers_follows junk h₁ (fun t ht => ht) calls).bind
  intro s₂ m₂ h₂
  apply (reset_follows junk h₂.1 h₂.2 now clock).bind
  intro queue₃ m₃ h₃
  exact ⟨_, rfl, h₃.destroyExpired⟩

/-- A comparison with the sentry that the step makes reads `now`. -/
def ReadsNow (m : TimerSlots) : TimerState.Action → Prop
  | .addTimerInLoop _ => True
  | .handleRead now _ _ => junk m.accesses.length = now

instance (m : TimerSlots) : ∀ a, Decidable (m.ReadsNow junk a)
  | .addTimerInLoop _ => isTrue trivial
  | .handleRead now _ _ => inferInstanceAs (Decidable (junk m.accesses.length = now))

/-- So do the comparisons of all steps of the run. -/
def AllReadNow (m : TimerSlots) : List TimerState.Action → Prop
  | [] => True
  | a :: rest =>
      m.ReadsNow junk a ∧ Ends (fun m' => m'.AllReadNow rest) (fun _ => True) (m.step junk a)

instance decidableAllReadNow :
    ∀ (as : List TimerState.Action) (m : TimerSlots), Decidable (m.AllReadNow junk as)
  | [], _ => isTrue trivial
  | a :: rest, m =>
      have : ∀ m' : TimerSlots, Decidable (m'.AllReadNow junk rest) :=
        decidableAllReadNow rest
      inferInstanceAs (Decidable (m.ReadsNow junk a ∧
        Ends (fun m' => m'.AllReadNow junk rest) (fun _ => True) (m.step junk a)))

theorem step_follows (h : Shown [] s m) {a : TimerState.Action} (ha : m.ReadsNow junk a) :
    Follows (Shown []) (s.step a) (m.step junk a) := by
  cases a with
  | addTimerInLoop n => exact addTimer_follows junk h n
  | handleRead now calls clock => exact handleRead_follows junk h ha calls clock

theorem run_follows (h : Shown [] s m) {as : List TimerState.Action}
    (has : m.AllReadNow junk as) :
    Follows (Shown []) (as.foldlM TimerState.step s) (m.run junk as) := by
  induction as generalizing s m with
  | nil => exact ⟨m, rfl, h⟩
  | cons a rest ih =>
      rw [List.foldlM_cons]
      apply ((step_follows junk h has.1).and (ends_any _) has.2).bind
      rintro s' m' ⟨hshown, -, hrest⟩
      exact ih hshown hrest

theorem new_shown : Shown [] .new new :=
  ⟨⟨new_inv, rfl, rfl, nofun, rfl, nofun⟩, rfl, rfl⟩

example : new.AllReadNow (fun access => if access < 16 then 200 else 300)
    [.addTimerInLoop ⟨100, 0, false, 50⟩, .addTimerInLoop ⟨120, 80, true, 60⟩,
      .handleRead 200 [] 210, .handleRead 300 [] 310] := by
  decide

/-- Between two calls the live timers are those of the queue. -/
theorem Shown.live_perm (h : Shown [] s m) : m.live.Perm s.queue.timers := by
  obtain ⟨hshows, hidle⟩ := h
  have hids := hshows.ids_nodup
  have hsubset : s.queue.timers ⊆ m.live :=
    fun t ht => hshows.live t (List.mem_append_left _ ht)
  rw [List.append_nil] at hids
  have hlength : m.live.length ≤ s.queue.timers.length := by
    have howned := hshows.inv.owned.length_eq
    rw [owners, hidle.argument, hidle.parameter, hshows.timers, hshows.expired, filterMap_entry]
      at howned
    simp at howned
    exact le_of_eq howned.symm
  exact ((List.subperm_of_subset hids.of_map hsubset).perm_of_length_le hlength).symm

/-- In every run whose expirations stay distinct, the live timers are those of the queue:
one that repeats stays alive, and any other lives until its callback has run. -/
theorem live_until_run {as : List TimerState.Action}
    (hs : timerRuns.runs (whileRunning TimerState.Distinct) (.ok .new) as = some (.ok s))
    (has : new.AllReadNow junk as) :
    ∃ m, new.run junk as = .ok m ∧ m.live.Perm s.queue.timers ∧
      ∀ t ∈ s.added, (t.isRepeat = true → tally m.live t.id = 1) ∧
        (t.isRepeat = false → (tally m.live t.id = 1 ↔ s.ran.count t.id = 0)) := by
  have hnew : timerRuns.Reach (whileRunning TimerState.Distinct) (.ok .new) :=
    Machine.Reach.init ⟨_, rfl, rfl⟩
  have haccounted : s.Accounted :=
    (TimerState.balanced_of_reach (hnew.runs as hs)).accounted
  have hfollows := run_follows junk new_shown has
  rw [foldlM_of_runs hs] at hfollows
  obtain ⟨m, hm, hshown⟩ := hfollows
  have hlive := hshown.live_perm
  refine ⟨m, hm, hlive, ?_⟩
  intro t ht
  rw [tally_perm hlive]
  refine ⟨haccounted.repeating t ht, ?_⟩
  intro hrepeat
  have hone := haccounted.oneShot t ht hrepeat
  omega

end TimerSlots

end Yatwb
