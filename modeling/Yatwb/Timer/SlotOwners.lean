import Yatwb.Timer.Slots
import Mathlib.Data.List.Perm.Basic
import Mathlib.Data.List.Nodup

/-!
# Every timer has one owner, and which dereferences go wrong

The addresses in the slots are a rearrangement of the addresses of the live
timers, whatever a bad dereference reads. So every access through a slot that
is full finds its timer. Two accesses are made through other slots: the
re-arming of `addTimerInLoop`, whose argument has been moved away, and the
comparisons with the sentry of `getExpired`.
-/

namespace Yatwb

open Foundation

/-- The two dereferences of slots that own no timer. -/
def Access.Broken (a : Access) : Prop :=
  a.site = .addTimerInLoop ∧ a.slot = none ∨
    a.site = .timerEntryCmp ∧ a.slot = some .uintptrMax

/-- The access finds a live timer. -/
def Access.Live (a : Access) : Prop := a.target.isSome = true

instance (a : Access) : Decidable a.Live := inferInstanceAs (Decidable (_ = _))

namespace TimerSlots

/-- The owners are the live timers, and the log has nothing worse than the two
broken dereferences. -/
structure Inv (s : TimerSlots) : Prop where
  ids : (s.live.map Timer.id).Nodup
  made : ∀ t ∈ s.live, t.id < s.made
  owned : s.owners.Perm (s.live.map fun t => .timer t.id)
  full : ∀ e ∈ s.timers, e.second ≠ none
  exclusive : ∀ a ∈ s.accesses, a.exclusive = true
  broken : ∀ a ∈ s.accesses, a.Live ∨ a.Broken

variable {s s' : TimerSlots} {junk : Nat → Int} {slot : TimerSlot}

theorem new_inv : new.Inv := by
  constructor <;> simp [new, owners]

theorem Inv.owners_nodup (h : s.Inv) : s.owners.Nodup := by
  rw [h.owned.nodup_iff]
  have hids : (s.live.map fun t => TimerPtr.timer t.id) =
      (s.live.map Timer.id).map TimerPtr.timer := by
    rw [List.map_map]
    rfl
  rw [hids]
  exact h.ids.map fun _ _ heq => TimerPtr.timer.inj heq

theorem Inv.exclusive_now (h : s.Inv) : s.Exclusive := by
  intro t ht
  have hmem : TimerPtr.timer t.id ∈ s.owners :=
    h.owned.mem_iff.mpr (List.mem_map_of_mem (f := fun t => TimerPtr.timer t.id) ht)
  exact List.count_eq_one_of_mem h.owners_nodup hmem

/-- An address in a slot is that of a live timer. -/
theorem Inv.deref_isSome (h : s.Inv) {p : TimerPtr} (hp : p ∈ s.owners) :
    (s.deref (some p)).isSome = true := by
  obtain ⟨t, ht, rfl⟩ := List.mem_map.mp (h.owned.mem_iff.mp hp)
  simp only [deref, List.find?_isSome, decide_eq_true_eq]
  exact ⟨t, ht, rfl⟩

/-- The slot is one of the owners. -/
def Holds (s : TimerSlots) (slot : TimerSlot) : Prop := ∃ p ∈ s.owners, slot = some p

theorem Inv.deref_of_holds (h : s.Inv) (hslot : s.Holds slot) :
    (s.deref slot).isSome = true := by
  obtain ⟨p, hp, rfl⟩ := hslot
  exact h.deref_isSome hp

theorem holds_timers {e : TimerEntry} (he : e ∈ s.timers) (hfull : e.second ≠ none) :
    s.Holds e.second := by
  obtain ⟨p, hp⟩ := Option.ne_none_iff_exists'.mp hfull
  refine ⟨p, ?_, hp⟩
  simp only [owners, List.mem_append, List.mem_filterMap]
  exact .inl (.inr ⟨e, he, hp⟩)

theorem holds_expired {e : TimerEntry} (he : e ∈ s.expired) (hfull : e.second ≠ none) :
    s.Holds e.second := by
  obtain ⟨p, hp⟩ := Option.ne_none_iff_exists'.mp hfull
  refine ⟨p, ?_, hp⟩
  simp only [owners, List.mem_append, List.mem_filterMap]
  exact .inr ⟨e, he, hp⟩

/-- What is logged about a slot that is an owner, or about one of the two broken ones. -/
theorem Inv.access (h : s.Inv) (site : Site)
    (hslot : s.Holds slot ∨ Access.Broken ⟨site, slot, s.deref slot, decide s.Exclusive⟩) :
    (s.access site slot).Inv := by
  refine ⟨h.ids, h.made, h.owned, h.full, ?_, ?_⟩
  · intro a ha
    rcases List.mem_append.mp ha with ha | ha
    · exact h.exclusive a ha
    · obtain rfl := List.mem_singleton.mp ha
      exact decide_eq_true h.exclusive_now
  · intro a ha
    rcases List.mem_append.mp ha with ha | ha
    · exact h.broken a ha
    · obtain rfl := List.mem_singleton.mp ha
      exact hslot.imp h.deref_of_holds id

/-- Only the log differs, and it has grown. -/
structure Logged (s s' : TimerSlots) : Prop where
  live : s'.live = s.live
  made : s'.made = s.made
  argument : s'.argument = s.argument
  parameter : s'.parameter = s.parameter
  timers : s'.timers = s.timers
  expired : s'.expired = s.expired
  grows : s.accesses <+: s'.accesses

theorem access_logged (s : TimerSlots) (site : Site) (slot : TimerSlot) :
    Logged s (s.access site slot) :=
  ⟨rfl, rfl, rfl, rfl, rfl, rfl, List.prefix_append _ _⟩

theorem Logged.trans {t : TimerSlots} (h : Logged s s') (h' : Logged s' t) : Logged s t :=
  ⟨h'.live.trans h.live, h'.made.trans h.made, h'.argument.trans h.argument,
    h'.parameter.trans h.parameter, h'.timers.trans h.timers, h'.expired.trans h.expired,
    h.grows.trans h'.grows⟩

theorem Logged.owners (h : Logged s s') : s'.owners = s.owners := by
  simp only [TimerSlots.owners, h.argument, h.parameter, h.timers, h.expired]

theorem compare_spec (h : s.Inv)
    (hslot : s.Holds slot ∨ slot = some .uintptrMax) {entries : List TimerEntry}
    (hentries : ∀ e ∈ entries, e ∈ s.timers) :
    (s.compare slot entries).Inv ∧ Logged s (s.compare slot entries) := by
  induction entries generalizing s with
  | nil => exact ⟨h, rfl, rfl, rfl, rfl, rfl, rfl, List.prefix_refl _⟩
  | cons e rest ih =>
      have he : e ∈ s.timers := hentries e (List.mem_cons_self ..)
      have hfirst : (s.access .timerEntryCmp slot).Inv :=
        h.access _ (hslot.imp id fun hsentry => .inr ⟨rfl, hsentry⟩)
      have hsecond := hfirst.access .timerEntryCmp (.inl (holds_timers he (h.full e he)))
      obtain ⟨hinv, hlogged⟩ := ih hsecond hslot
        fun e' he' => hentries e' (List.mem_cons_of_mem _ he')
      refine ⟨hinv, ?_⟩
      exact ((access_logged s _ _).trans (access_logged _ _ _)).trans hlogged

/-- Addresses have moved between slots. -/
theorem Inv.moved (h : s.Inv) (hlive : s'.live = s.live) (hmade : s'.made = s.made)
    (howners : s'.owners.Perm s.owners) (hfull : ∀ e ∈ s'.timers, e.second ≠ none)
    (haccesses : s'.accesses = s.accesses) : s'.Inv := by
  refine ⟨hlive ▸ h.ids, ?_, ?_, hfull, haccesses ▸ h.exclusive, haccesses ▸ h.broken⟩
  · rw [hlive, hmade]
    exact h.made
  · rw [hlive]
    exact howners.trans h.owned

/-- No call is in progress that owns a timer. -/
structure Idle (s : TimerSlots) : Prop where
  argument : s.argument = none
  parameter : s.parameter = none

/-- What a call that returns leaves. -/
structure Settled (s s' : TimerSlots) : Prop where
  inv : s'.Inv
  idle : s'.Idle
  expired : s'.expired = s.expired
  grows : s.accesses <+: s'.accesses

/-- What a call that fails an assert leaves. -/
structure Halted (s : TimerSlots) (h : Halt) : Prop where
  inv : h.left.Inv
  grows : s.accesses <+: h.left.accesses

theorem Halted.of_grows {h : Halt} (hh : Halted s' h) (hgrows : s.accesses <+: s'.accesses) :
    Halted s h :=
  ⟨hh.inv, hgrows.trans hh.grows⟩

theorem Settled.of_grows {t : TimerSlots} (h : Settled s' t) (hexpired : s'.expired = s.expired)
    (hgrows : s.accesses <+: s'.accesses) : Settled s t :=
  ⟨h.inv, h.idle, h.expired.trans hexpired, hgrows.trans h.grows⟩

/-- The slot of the parameter becomes the one of an entry. -/
theorem Logged.placed (h : Logged s s') {p : TimerPtr} (hparameter : s.parameter = some p)
    {timers : List TimerEntry} {first : Int}
    (hperm : timers.Perm (⟨first, s.parameter⟩ :: s.timers)) :
    ({ s' with timers := timers, parameter := none } : TimerSlots).owners.Perm s'.owners := by
  rw [hparameter] at hperm
  have hslots : (timers.filterMap TimerEntry.second).Perm
      (p :: s.timers.filterMap TimerEntry.second) := hperm.filterMap TimerEntry.second
  simp only [TimerSlots.owners, h.parameter, h.timers, hparameter, Option.toList_none,
    Option.toList_some, List.append_nil, List.append_assoc, List.singleton_append]
  exact (hslots.append_right _).append_left _

variable (junk)

/-- The timer in the parameter goes to the set, if the set takes it. -/
theorem insert_spec (h : s.Inv) (hargument : s.argument = none) {p : TimerPtr}
    (hparameter : s.parameter = some p) :
    Ends (fun r => Settled s r.2) (Halted s) (s.insert junk) := by
  have hholds : s.Holds s.parameter := by
    refine ⟨p, ?_, hparameter⟩
    simp [owners, hparameter]
  obtain ⟨hinv, hlogged⟩ :=
    compare_spec (h.access .insert (.inl hholds)) (.inl hholds) fun e (he : e ∈ s.timers) => he
  have hlogged := (access_logged s .insert s.parameter).trans hlogged
  simp only [insert]
  split
  · exact ⟨hinv, hlogged.grows⟩
  · rename_i timers htimers
    have hperm := insertUnique_perm htimers
    refine ⟨hinv.moved rfl rfl ?_ ?_ rfl, ⟨?_, rfl⟩, hlogged.expired, hlogged.grows⟩
    · exact hlogged.placed hparameter hperm
    · intro e he
      rcases List.mem_cons.mp (hperm.mem_iff.mp he) with rfl | he
      · exact hparameter ▸ Option.some_ne_none p
      · exact h.full e he
    · exact hlogged.argument.trans hargument

theorem Inv.make (h : s.Inv) (hidle : s.Idle) (n : NewTimer) :
    (s.make n).Inv ∧ (s.make n).argument = some (.timer s.made) ∧
      (s.make n).parameter = none := by
  refine ⟨⟨?_, ?_, ?_, h.full, h.exclusive, h.broken⟩, rfl, hidle.parameter⟩
  · have hfresh : s.made ∉ s.live.map Timer.id := by
      intro hmem
      obtain ⟨t, ht, hid⟩ := List.mem_map.mp hmem
      exact absurd (hid ▸ h.made t ht) (Nat.lt_irrefl _)
    rw [TimerSlots.make, List.map_append]
    refine h.ids.append (List.nodup_singleton _) ?_
    intro id hid hmade
    obtain rfl := List.mem_singleton.mp hmade
    exact hfresh hid
  · intro t ht
    rcases List.mem_append.mp ht with ht | ht
    · exact Nat.lt_succ_of_lt (h.made t ht)
    · exact List.mem_singleton.mp ht ▸ Nat.lt_succ_self _
  · have howners : (s.make n).owners = .timer s.made :: s.owners := by
      simp [owners, TimerSlots.make, hidle.argument]
    rw [howners, TimerSlots.make, List.map_append]
    exact (h.owned.cons _).trans (List.perm_append_singleton _ _).symm

/-- The new timer moves from the argument to the parameter of `insert`. -/
theorem Inv.pass (h : s.Inv) (hidle : s.Idle) (n : NewTimer) :
    ({ s.make n with parameter := (s.make n).argument, argument := none } : TimerSlots).Inv := by
  obtain ⟨hinv, -, hparameter⟩ := h.make hidle n
  refine hinv.moved rfl rfl ?_ hinv.full rfl
  simp only [owners, hparameter, Option.toList_none, List.nil_append, List.append_nil]
  exact List.Perm.refl _

/-- Adding a timer dereferences the argument after it was moved away, if the timer
is the earliest. -/
theorem addTimer_spec (h : s.Inv) (hidle : s.Idle) (n : NewTimer) :
    Ends (Settled s) (Halted s) (s.addTimer junk n) := by
  have hinsert := ((insert_spec junk (h.pass hidle n) rfl rfl).mono
    (fun r hr => (⟨hr.inv, hr.idle, hr.expired, hr.grows⟩ : Settled s r.2))).weaken
    (fun h hh => (⟨hh.inv, hh.grows⟩ : Halted s h))
  apply hinsert.bind
  rintro ⟨earliest, t⟩ ht
  cases earliest with
  | false => exact ht
  | true =>
      refine ⟨ht.inv.access _ (.inr (.inl ⟨rfl, ht.idle.argument⟩)), ?_, ht.expired, ?_⟩
      · exact ⟨ht.idle.argument, ht.idle.parameter⟩
      · exact ht.grows.trans (List.prefix_append _ _)

theorem addTimers_spec (h : s.Inv) (hidle : s.Idle) (new : List NewTimer) :
    Ends (Settled s) (Halted s) (s.addTimers junk new) := by
  induction new generalizing s with
  | nil => exact ⟨h, hidle, rfl, List.prefix_refl _⟩
  | cons n rest ih =>
      apply (addTimer_spec junk h hidle n).bind
      intro t ht
      apply ((ih ht.inv ht.idle).mono fun u hu => hu.of_grows ht.expired ht.grows).weaken
      exact fun _ hh => hh.of_grows ht.grows

theorem runTimers_spec (h : s.Inv) (hidle : s.Idle) {entries : List TimerEntry}
    (hentries : ∀ e ∈ entries, e ∈ s.expired) (hfull : ∀ e ∈ entries, e.second ≠ none)
    (calls : List (List NewTimer)) :
    Ends (Settled s) (Halted s) (s.runTimers junk entries calls) := by
  induction entries generalizing s calls with
  | nil => exact ⟨h, hidle, rfl, List.prefix_refl _⟩
  | cons it rest ih =>
      have hit : it ∈ s.expired := hentries it (List.mem_cons_self ..)
      have hslot := holds_expired hit (hfull it (List.mem_cons_self ..))
      have hinv := h.access .run (.inl hslot)
      have hgrows := (access_logged s .run it.second).grows
      have hadded := addTimers_spec junk hinv ⟨hidle.argument, hidle.parameter⟩
        (calls.headD [])
      apply ((hadded.mono fun t ht => Settled.of_grows (s := s) ht rfl hgrows).weaken
        fun _ hh => hh.of_grows hgrows).bind
      intro t ht
      have hrest : ∀ e ∈ rest, e ∈ t.expired := by
        intro e he
        rw [ht.expired]
        exact hentries e (List.mem_cons_of_mem _ he)
      have hends := ih ht.inv ht.idle hrest
        (fun e he => hfull e (List.mem_cons_of_mem _ he)) calls.tail
      apply (hends.mono fun u hu => hu.of_grows ht.expired ht.grows).weaken
      exact fun _ hh => hh.of_grows ht.grows

/-- The entries below the lower bound move to `expired`. -/
theorem getExpired_spec (h : s.Inv) (hidle : s.Idle) (hexpired : s.expired = []) (now : Int) :
    Ends (fun t => t.Inv ∧ t.Idle ∧ (∀ e ∈ t.expired, e.second ≠ none) ∧
        s.accesses <+: t.accesses)
      (Halted s) (s.getExpired junk now) := by
  obtain ⟨hinv, hlogged⟩ :=
    compare_spec h (.inr rfl) fun e (he : e ∈ s.timers) => he
  simp only [getExpired]
  split
  · generalize hkey : (fun e : TimerEntry => s.getExpiration junk e.second) = key
    generalize s.getExpiration junk (some .uintptrMax) = bound
    have hsplit := below_append_fromLowerBound key bound s.timers
    have hmem : ∀ e ∈ below key bound s.timers ++ fromLowerBound key bound s.timers,
        e.second ≠ none := by
      rw [hsplit]
      exact h.full
    refine ⟨hinv.moved rfl rfl ?_ ?_ rfl, ⟨?_, ?_⟩, ?_, hlogged.grows⟩
    · have hslots : s.timers.filterMap TimerEntry.second =
          (below key bound s.timers).filterMap TimerEntry.second ++
            (fromLowerBound key bound s.timers).filterMap TimerEntry.second := by
        rw [← List.filterMap_append, hsplit]
      simp only [owners, release, hlogged.argument, hlogged.parameter, hlogged.timers,
        hlogged.expired, hidle.argument, hidle.parameter, hexpired, hslots, Option.toList_none,
        List.nil_append, List.filterMap_nil, List.append_nil]
      exact List.perm_append_comm
    · exact fun e he => hmem e (List.mem_append_right _ he)
    · exact hlogged.argument.trans hidle.argument
    · exact hlogged.parameter.trans hidle.parameter
    · exact fun e he => hmem e (List.mem_append_left _ he)
  · exact ⟨hinv, hlogged.grows⟩

theorem restart_ids (s : TimerSlots) (now : Int) (slot : TimerSlot) :
    (s.restart now slot).live.map Timer.id = s.live.map Timer.id := by
  unfold restart
  split
  · rw [List.map_map]
    apply List.map_congr_left
    intro t _
    simp only [Function.comp]
    split <;> rfl
  · rfl
  · rfl

theorem restart_frame (s : TimerSlots) (now : Int) (slot : TimerSlot) :
    ∃ live, s.restart now slot = { s with live := live } := by
  unfold restart
  split <;> exact ⟨_, rfl⟩

theorem release_frame (s : TimerSlots) (slot : TimerSlot) :
    ∃ live, s.release slot = { s with live := live } := by
  unfold release
  split <;> exact ⟨_, rfl⟩

/-- A restarted timer keeps its address. -/
theorem Inv.restart (h : s.Inv) (now : Int) (slot : TimerSlot) : (s.restart now slot).Inv := by
  have hids := restart_ids s now slot
  obtain ⟨live, hlive⟩ := restart_frame s now slot
  rw [hlive] at hids ⊢
  have hptrs : ∀ ts : List Timer, (ts.map fun t => TimerPtr.timer t.id) =
      (ts.map Timer.id).map TimerPtr.timer := by
    intro ts
    rw [List.map_map]
    rfl
  refine ⟨hids ▸ h.ids, ?_, ?_, h.full, h.exclusive, h.broken⟩
  · intro t ht
    have hmem : t.id ∈ s.live.map Timer.id := hids ▸ List.mem_map_of_mem ht
    obtain ⟨u, hu, hid⟩ := List.mem_map.mp hmem
    exact hid ▸ h.made u hu
  · have howned := h.owned
    rw [hptrs] at howned
    rw [hptrs, hids]
    exact howned

section Vacate

variable {emptied rest : List TimerEntry} {it : TimerEntry} {p : TimerPtr}

theorem vacate_expired (hexpired : s.expired = emptied ++ it :: rest) :
    (s.vacate emptied.length it).expired = (emptied ++ [⟨it.first, none⟩]) ++ rest := by
  simp [vacate, hexpired]

theorem owners_vacate (hexpired : s.expired = emptied ++ it :: rest) (hslot : it.second = some p) :
    s.owners.Perm (p :: (s.vacate emptied.length it).owners) := by
  have hold : s.expired.filterMap TimerEntry.second =
      emptied.filterMap TimerEntry.second ++ p :: rest.filterMap TimerEntry.second := by
    rw [hexpired, List.filterMap_append, List.filterMap_cons_some hslot]
  have hnew : (s.vacate emptied.length it).expired.filterMap TimerEntry.second =
      emptied.filterMap TimerEntry.second ++ rest.filterMap TimerEntry.second := by
    simp [vacate_expired hexpired]
  rw [owners, owners, hold, hnew, ← List.append_assoc, ← List.append_assoc]
  exact List.perm_middle

/-- The slot of an expired entry becomes the parameter of `insert`. -/
theorem Inv.unplace (h : s.Inv) (hidle : s.Idle) (hexpired : s.expired = emptied ++ it :: rest)
    (hslot : it.second = some p) :
    ({ s.vacate emptied.length it with parameter := it.second } : TimerSlots).Inv := by
  refine h.moved rfl rfl ?_ h.full rfl
  have hvacate := owners_vacate hexpired hslot
  have hparameter : (s.vacate emptied.length it).parameter = none := hidle.parameter
  have hargument : (s.vacate emptied.length it).argument = none := hidle.argument
  refine List.Perm.trans ?_ hvacate.symm
  simp [owners, hslot, hparameter, hargument]

/-- A timer that does not repeat is deleted through its slot. -/
theorem Inv.retire (h : s.Inv) (hexpired : s.expired = emptied ++ it :: rest)
    (hslot : it.second = some p) :
    ((s.vacate emptied.length it).release it.second).Inv := by
  have hvacate := owners_vacate hexpired hslot
  have hmem : p ∈ s.owners := hvacate.mem_iff.mpr (List.mem_cons_self ..)
  obtain ⟨t, -, rfl⟩ := List.mem_map.mp (h.owned.mem_iff.mp hmem)
  have hlive : ((s.live.filter fun u => u.id ≠ t.id).map fun u => TimerPtr.timer u.id) =
      (s.live.map fun u => TimerPtr.timer u.id).filter fun q => q ≠ .timer t.id := by
    rw [List.filter_map]
    congr 1
    apply List.filter_congr
    intro u _
    simp
  rw [hslot]
  refine ⟨?_, ?_, ?_, h.full, h.exclusive, h.broken⟩
  · exact h.ids.sublist (List.filter_sublist.map Timer.id)
  · exact fun u hu => h.made u (List.mem_of_mem_filter hu)
  · have hnodup : (TimerPtr.timer t.id :: (s.vacate emptied.length it).owners).Nodup :=
      hvacate.nodup_iff.mp h.owners_nodup
    have hfresh : ∀ q ∈ (s.vacate emptied.length it).owners, q ≠ .timer t.id := by
      rintro q hq rfl
      exact (List.nodup_cons.mp hnodup).1 hq
    have hfilter := (hvacate.symm.trans h.owned).filter fun q => decide (q ≠ .timer t.id)
    rw [List.filter_cons_of_neg (by simp), ← hlive,
      List.filter_eq_self.mpr fun q hq => decide_eq_true (hfresh q hq)] at hfilter
    exact hfilter

end Vacate

/-- What the loop of `reset` leaves: no entry of `expired` owns a timer. -/
structure Emptied (s s' : TimerSlots) : Prop where
  inv : s'.Inv
  idle : s'.Idle
  empty : ∀ e ∈ s'.expired, e.second = none
  grows : s.accesses <+: s'.accesses

theorem Emptied.of_grows {t : TimerSlots} (h : Emptied s' t)
    (hgrows : s.accesses <+: s'.accesses) : Emptied s t :=
  ⟨h.inv, h.idle, h.empty, hgrows.trans h.grows⟩

theorem resetTimers_spec (h : s.Inv) (hidle : s.Idle) (now : Int)
    {emptied entries : List TimerEntry} (hexpired : s.expired = emptied ++ entries)
    (hempty : ∀ e ∈ emptied, e.second = none) (hfull : ∀ e ∈ entries, e.second ≠ none) :
    Ends (Emptied s) (Halted s) (s.resetTimers junk now emptied.length entries) := by
  induction entries generalizing s emptied with
  | nil =>
      rw [List.append_nil] at hexpired
      exact ⟨h, hidle, hexpired ▸ hempty, List.prefix_refl _⟩
  | cons it rest ih =>
      obtain ⟨p, hslot⟩ := Option.ne_none_iff_exists'.mp (hfull it (List.mem_cons_self ..))
      have hholds : s.Holds it.second := by
        refine holds_expired ?_ (hfull it (List.mem_cons_self ..))
        rw [hexpired]
        exact List.mem_append_right _ (List.mem_cons_self ..)
      have hrest : ∀ e ∈ rest, e.second ≠ none := fun e he => hfull e (List.mem_cons_of_mem _ he)
      have hempty' : ∀ e ∈ emptied ++ [⟨it.first, none⟩], e.second = none := by
        intro e he
        rcases List.mem_append.mp he with he | he
        · exact hempty e he
        · obtain rfl := List.mem_singleton.mp he
          rfl
      have hlength : (emptied ++ [(⟨it.first, none⟩ : TimerEntry)]).length =
          emptied.length + 1 := by
        rw [List.length_append, List.length_singleton]
      have hinv := h.access .isRepeat (.inl hholds)
      have hgrows := (access_logged s .isRepeat it.second).grows
      simp only [resetTimers]
      split
      · have hrestarted := (hinv.access .restart (.inl hholds)).restart now it.second
        obtain ⟨live, hlive⟩ :=
          restart_frame ((s.access .isRepeat it.second).access .restart it.second) now it.second
        rw [hlive] at hrestarted ⊢
        have hgrows := hgrows.trans (access_logged _ .restart it.second).grows
        have hunplaced := hrestarted.unplace ⟨hidle.argument, hidle.parameter⟩ hexpired hslot
        apply ((insert_spec junk hunplaced hidle.argument hslot).weaken
          fun _ hh => (⟨hh.inv, hgrows.trans hh.grows⟩ : Halted s _)).bind
        rintro ⟨earliest, t⟩ ht
        have hgrows := hgrows.trans ht.grows
        have hnext := ih ht.inv ht.idle (ht.expired.trans (vacate_expired hexpired)) hempty' hrest
        rw [hlength] at hnext
        exact (hnext.mono fun u hu => hu.of_grows hgrows).weaken fun _ hh => hh.of_grows hgrows
      · have hretired := hinv.retire hexpired hslot
        obtain ⟨live, hlive⟩ :=
          release_frame ((s.access .isRepeat it.second).vacate emptied.length it) it.second
        rw [hlive] at hretired ⊢
        have hnext := ih hretired ⟨hidle.argument, hidle.parameter⟩ (vacate_expired hexpired)
          hempty' hrest
        rw [hlength] at hnext
        exact (hnext.mono fun u hu => hu.of_grows hgrows).weaken fun _ hh => hh.of_grows hgrows

theorem reset_spec (h : s.Inv) (hidle : s.Idle) (hfull : ∀ e ∈ s.expired, e.second ≠ none)
    (now : Int) : Ends (Emptied s) (Halted s) (s.reset junk now) := by
  have hnone : ∀ e ∈ ([] : List TimerEntry), e.second = none := fun e he => by cases he
  have hloop := resetTimers_spec junk h hidle now (List.nil_append s.expired).symm hnone hfull
  apply hloop.bind
  intro t ht
  split
  · exact ht
  · rename_i it rest htimers
    have hit : it ∈ t.timers := htimers ▸ List.mem_cons_self ..
    have haccess := ht.inv.access .nextExpire (.inl (holds_timers hit (ht.inv.full it hit)))
    refine ⟨haccess, ⟨ht.idle.argument, ht.idle.parameter⟩, ht.empty, ?_⟩
    exact ht.grows.trans (List.prefix_append _ _)

/-- A vector without owners releases nothing when it ends. -/
theorem destroyExpired_eq (h : ∀ e ∈ s.expired, e.second = none) :
    s.destroyExpired = { s with expired := [] } := by
  have hnone : ∀ es : List TimerEntry, (∀ e ∈ es, e.second = none) →
      es.foldl (fun s it => s.release it.second) s = s := by
    intro es hes
    induction es with
    | nil => rfl
    | cons e rest ih =>
        rw [List.foldl_cons, hes e (List.mem_cons_self ..)]
        exact ih fun e' he' => hes e' (List.mem_cons_of_mem _ he')
  rw [destroyExpired, hnone s.expired h]

/-- The vector ends without a timer in it. -/
theorem Emptied.destroyExpired {t : TimerSlots} (h : Emptied s t) :
    t.destroyExpired.Inv ∧ t.destroyExpired.Idle ∧ t.destroyExpired.expired = [] ∧
      s.accesses <+: t.destroyExpired.accesses := by
  have hslots : t.expired.filterMap TimerEntry.second = [] :=
    List.filterMap_eq_nil_iff.mpr h.empty
  rw [destroyExpired_eq h.empty]
  refine ⟨h.inv.moved rfl rfl ?_ h.inv.full rfl, ⟨h.idle.argument, h.idle.parameter⟩, rfl, h.grows⟩
  simp [owners, hslots]

/-- Between two calls no slot but those of the set owns a timer. -/
structure Resting (s : TimerSlots) : Prop where
  inv : s.Inv
  idle : s.Idle
  expired : s.expired = []

theorem new_resting : new.Resting := ⟨new_inv, ⟨rfl, rfl⟩, rfl⟩

theorem handleRead_spec (h : s.Resting) (now : Int) (calls : List (List NewTimer)) :
    Ends (fun t => t.Resting ∧ s.accesses <+: t.accesses) (Halted s)
      (s.handleRead junk now calls) := by
  apply (getExpired_spec junk h.inv h.idle h.expired now).bind
  rintro t ⟨hinv, hidle, hfull, hgrows⟩
  apply ((runTimers_spec junk hinv hidle (fun e he => he) hfull calls).weaken
    fun _ hh => hh.of_grows hgrows).bind
  intro u hu
  have hgrows := hgrows.trans hu.grows
  apply ((reset_spec junk hu.inv hu.idle (hu.expired ▸ hfull) now).weaken
    fun _ hh => hh.of_grows hgrows).bind
  intro v hv
  obtain ⟨hinv, hidle, hexpired, hmore⟩ := hv.destroyExpired
  exact ⟨⟨hinv, hidle, hexpired⟩, hgrows.trans hmore⟩

theorem step_spec (h : s.Resting) (a : TimerState.Action) :
    Ends (fun t => t.Resting ∧ s.accesses <+: t.accesses) (Halted s) (s.step junk a) := by
  cases a with
  | addTimerInLoop n =>
      apply (addTimer_spec junk h.inv h.idle n).mono
      intro t ht
      exact ⟨⟨ht.inv, ht.idle, ht.expired.trans h.expired⟩, ht.grows⟩
  | handleRead now calls clock => exact handleRead_spec junk h now calls

theorem run_spec (h : s.Resting) (as : List TimerState.Action) :
    Ends (fun t => t.Resting ∧ s.accesses <+: t.accesses) (Halted s) (s.run junk as) := by
  induction as generalizing s with
  | nil => exact ⟨h, List.prefix_refl _⟩
  | cons a rest ih =>
      apply (step_spec junk h a).bind
      rintro t ⟨ht, hgrows⟩
      apply ((ih ht).mono fun u hu => ⟨hu.1, hgrows.trans hu.2⟩).weaken
      exact fun _ hh => hh.of_grows hgrows

theorem final_spec (h : s.Resting) (as : List TimerState.Action) :
    (final (s.run junk as)).Inv ∧ s.accesses <+: (final (s.run junk as)).accesses := by
  have hrun := run_spec junk h as
  cases hend : s.run junk as with
  | ok t =>
      rw [hend] at hrun
      exact ⟨hrun.1.inv, hrun.2⟩
  | error e =>
      rw [hend] at hrun
      exact ⟨hrun.inv, hrun.grows⟩

/-- The step makes neither of the two broken dereferences: a new timer is not the
earliest, and the descriptor is read while the set is empty. -/
def Meets (s : TimerSlots) : TimerState.Action → Prop
  | .addTimerInLoop n => ∃ it ∈ s.timers.head?, it.first ≤ n.expiration
  | .handleRead _ _ _ => s.timers = []

/-- Every step of the run meets the condition in the state it finds. -/
def MeetsAll (junk : Nat → Int) (s : TimerSlots) : List TimerState.Action → Prop
  | [] => True
  | a :: rest => s.Meets a ∧ ∀ s', s.step junk a = .ok s' → s'.MeetsAll junk rest

/-- With an empty set there is nothing to compare with the sentry. -/
theorem handleRead_empty (htimers : s.timers = []) (hexpired : s.expired = []) (now : Int)
    (calls : List (List NewTimer)) : s.handleRead junk now calls = .ok s := by
  obtain ⟨live, made, argument, parameter, timers, expired, accesses⟩ := s
  obtain rfl : timers = [] := htimers
  obtain rfl : expired = [] := hexpired
  rfl

/-- The first timer is the earliest, and its slot is read after it was moved away. -/
theorem addTimer_empty (htimers : s.timers = []) (n : NewTimer) :
    ∃ t, s.addTimer junk n = .ok t ∧ ∃ a ∈ t.accesses, ¬ a.Live := by
  obtain ⟨live, made, argument, parameter, timers, expired, accesses⟩ := s
  obtain rfl : timers = [] := htimers
  refine ⟨_, rfl, _, List.mem_append_right _ (List.mem_singleton_self _), ?_⟩
  exact Bool.false_ne_true

/-- From an empty set, all accesses of a run are of live timers exactly when every step
meets the condition. -/
theorem live_iff_meetsAll (h : s.Resting) (htimers : s.timers = [])
    (hlive : ∀ a ∈ s.accesses, a.Live) (as : List TimerState.Action) :
    (∀ a ∈ (final (s.run junk as)).accesses, a.Live) ↔ s.MeetsAll junk as := by
  induction as generalizing s with
  | nil => exact ⟨fun _ => trivial, fun _ => hlive⟩
  | cons a rest ih =>
      cases a with
      | handleRead now calls clock =>
          have hstep : s.step junk (.handleRead now calls clock) = .ok s :=
            handleRead_empty junk htimers h.expired now calls
          have hrun : s.run junk (.handleRead now calls clock :: rest) = s.run junk rest := by
            rw [run, hstep]
            rfl
          rw [hrun, ih h htimers hlive]
          constructor
          · intro hrest
            refine ⟨htimers, ?_⟩
            intro s' hs'
            obtain rfl := Except.ok.inj (hstep.symm.trans hs')
            exact hrest
          · exact fun hall => hall.2 s hstep
      | addTimerInLoop n =>
          obtain ⟨t, ht, a, ha, hdead⟩ := addTimer_empty junk htimers n
          have hstep : s.step junk (.addTimerInLoop n) = .ok t := ht
          have hrun : s.run junk (.addTimerInLoop n :: rest) = t.run junk rest := by
            rw [run, hstep]
            rfl
          have hresting : t.Resting := ((step_spec junk h _).of_eq_ok hstep).1
          have hgrows := (final_spec junk hresting rest).2
          rw [hrun]
          constructor
          · intro hall
            exact absurd (hall a (hgrows.subset ha)) hdead
          · rintro ⟨⟨it, hit, -⟩, -⟩
            rw [htimers] at hit
            cases hit

/-- In every run, whatever a bad dereference reads: each live timer has exactly one
owner, at the end and at every access; the owners hold live timers only; an access is
of a live timer unless it is the re-arming through the argument or a comparison with
the sentry; and all accesses are of live timers exactly when no timer became the
earliest and the descriptor was read only while the set was empty. -/
theorem timers_owned_and_live_iff (junk : Nat → Int) (as : List TimerState.Action) :
    let s := final (new.run junk as)
    (∀ t ∈ s.live, s.owners.count (.timer t.id) = 1) ∧
      (∀ p ∈ s.owners, ∃ t ∈ s.live, p = .timer t.id) ∧
      (∀ a ∈ s.accesses, a.exclusive = true ∧ (a.Live ∨ a.Broken)) ∧
      ((∀ a ∈ s.accesses, a.Live) ↔ new.MeetsAll junk as) := by
  obtain ⟨hinv, -⟩ := final_spec junk new_resting as
  refine ⟨hinv.exclusive_now, ?_, ?_, ?_⟩
  · intro p hp
    obtain ⟨t, ht, rfl⟩ := List.mem_map.mp (hinv.owned.mem_iff.mp hp)
    exact ⟨t, ht, rfl⟩
  · exact fun a ha => ⟨hinv.exclusive a ha, hinv.broken a ha⟩
  · exact live_iff_meetsAll junk new_resting rfl (fun a ha => by cases ha) as

/-- One timer is added and expires: its slot is read when it is empty, and the sentry is
read as if it held a timer. -/
theorem first_timer_breaks_twice :
    let s := final (new.run (fun _ => 200)
      [.addTimerInLoop ⟨100, 0, false, 50⟩, .handleRead 200 [] 210])
    (∃ a ∈ s.accesses, a.site = .addTimerInLoop ∧ a.slot = none ∧ ¬ a.Live) ∧
      (∃ a ∈ s.accesses, a.site = .timerEntryCmp ∧ a.slot = some .uintptrMax ∧ ¬ a.Live) ∧
      ¬ ∀ a ∈ s.accesses, a.Live := by
  decide

end TimerSlots

end Yatwb
