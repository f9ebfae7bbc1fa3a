import Yatwb.Foundation.Machine
import Yatwb.Poller.Registration
import Mathlib.Data.Set.Function
import Mathlib.Data.Int.ConditionallyCompleteOrder
import Mathlib.Order.ConditionallyCompleteLattice.Basic
import Mathlib.Order.Interval.Set.Defs

/-!
# Runs of the poller

A run changes the interest of channels and removes channels, in any order.
The callers keep three things: a channel is not used after its removal, it is
removed only while registered and without interest, and two channels that are
registered at the same time have different descriptors. A descriptor may come
back with a new channel. No such run fails an assert of `updateChannel` or
`removeChannel`, and the containers stay in step.
-/

namespace Yatwb.PollerRuns

open Foundation

variable {κ : Type} [DecidableEq κ]

/-- Where a channel is between its construction and its removal. -/
inductive Status
  | unused
  | registered
  | removed
  deriving DecidableEq, Repr

/-- The poller, the channels it points to, and the history of each channel. -/
structure State (κ : Type) where
  poller : Poller κ
  channels : κ → Channel
  status : κ → Status

/-- A call of an interest method, with the `updateChannel` it makes, or of `removeChannel`. -/
inductive Call (κ : Type)
  | change (k : κ) (i : Channel.Interest)
  | remove (k : κ)
  deriving DecidableEq, Repr

def step (s : State κ) : Call κ → Except Poller.Fault (State κ)
  | .change k i => do
      let channels := Function.update s.channels k ((s.channels k).change i)
      let (poller, channels) ← s.poller.updateChannel channels k
      return ⟨poller, channels, Function.update s.status k .registered⟩
  | .remove k => do
      let (poller, channels) ← s.poller.removeChannel s.channels k
      return ⟨poller, channels, Function.update s.status k .removed⟩

/-- What the callers keep. -/
def Permitted (s : State κ) : Call κ → Prop
  | .change k _ =>
      s.status k ≠ .removed ∧ 0 ≤ (s.channels k).fd ∧
        ∀ j, s.status j = .registered → j ≠ k → (s.channels j).fd ≠ (s.channels k).fd
  | .remove k => s.status k = .registered ∧ (s.channels k).events = Channel.noneEvent

/-- An empty poller and channels fresh from their constructor. -/
def Initial (s : State κ) : Prop :=
  s.poller = Poller.new ∧ ∀ k, s.status k = .unused ∧ (s.channels k).index = -1 ∧
    (s.channels k).events = 0

def machine (κ : Type) [DecidableEq κ] : Machine (Except Poller.Fault (State κ)) (Call κ) :=
  faulting Initial step

/-- The states of permitted runs, the faulted ones included. -/
abbrev Reach (s : Except Poller.Fault (State κ)) : Prop :=
  (machine κ).Reach (whileRunning Permitted) s

structure Inv (s : State κ) : Prop where
  rep : ∃ owners, s.poller.Rep s.channels owners ∧ ∀ k, k ∈ owners ↔ s.status k = .registered
  unused_index : ∀ k, s.status k = .unused → (s.channels k).index < 0
  requested : ∀ k, Channel.Requested (s.channels k).events

omit [DecidableEq κ] in
theorem inv_of_initial {s : State κ} (h : Initial s) : Inv s := by
  obtain ⟨hp, hk⟩ := h
  constructor
  · refine ⟨[], hp ▸ Poller.rep_new s.channels, fun k => ?_⟩
    simp [(hk k).1]
  · intro k _
    rw [(hk k).2.1]
    decide
  · intro k
    rw [(hk k).2.2]
    exact Channel.requested_zero

/-- Registering or updating `k` touches no other channel. -/
theorem inv_of_change {s : State κ} (h : Inv s) {k : κ} {p' : Poller κ} {channel : Channel}
    {owners : List κ} (hrep : p'.Rep (Function.update s.channels k channel) owners)
    (howners : ∀ j, j ∈ owners ↔ j = k ∨ s.status j = .registered)
    (hreq : Channel.Requested channel.events) :
    Inv ⟨p', Function.update s.channels k channel, Function.update s.status k .registered⟩ := by
  constructor
  · refine ⟨owners, hrep, fun j => ?_⟩
    rw [howners]
    by_cases hj : j = k
    · subst hj
      simp
    · simp [hj]
  · intro j hj
    have hjk : j ≠ k := by
      rintro rfl
      simp at hj
    simp only [Function.update_of_ne hjk] at hj ⊢
    exact h.unused_index j hj
  · intro j
    by_cases hjk : j = k
    · subst hjk
      simpa using hreq
    · simpa [hjk] using h.requested j

/-- The slot of a channel. -/
def State.slot (s : State κ) (k : κ) : Option PollFd :=
  s.poller.pollFds[(s.channels k).index.toNat]?

/-- A call that sets the interest of a channel whose slot `poll(2)` ignores. -/
def revives (s : State κ) : Call κ → Bool
  | .change k i =>
      s.status k == .registered && i.apply (s.channels k).events != Channel.noneEvent &&
        (s.slot k).any fun pfd => pfd.fd < 0
  | .remove _ => false

/-- The slots after a change of interest: the others are as they were, and an
interest is stored with the descriptor, unless the slot was ignored. -/
structure Changed (s : State κ) (k : κ) (i : Channel.Interest) (s' : State κ) : Prop where
  others : ∀ j, j ≠ k → s'.channels j = s.channels j ∧
    (s.status j = .registered → s'.slot j = s.slot j)
  fd : (s'.channels k).fd = (s.channels k).fd
  events : (s'.channels k).events = i.apply (s.channels k).events
  status : s'.status = Function.update s.status k .registered
  own : revives s (.change k i) = false → i.apply (s.channels k).events ≠ Channel.noneEvent →
    ∃ pfd, s'.slot k = some pfd ∧ pfd.fd = (s.channels k).fd

/-- The step lemma of the interest methods. -/
theorem change_spec {s : State κ} (h : Inv s) {k : κ} {i : Channel.Interest}
    (hp : Permitted s (.change k i)) :
    ∃ s', step s (.change k i) = .ok s' ∧ Inv s' ∧ Changed s k i s' := by
  obtain ⟨owners, hrep, howners⟩ := h.rep
  obtain ⟨hstatus, hfd, hdistinct⟩ := hp
  have hreq := (h.requested k).change i
  by_cases hreg : s.status k = .registered
  · obtain ⟨p', hp', hrep', hkeep, hown⟩ :=
      hrep.updateChannel_existing ((howners k).mpr hreg) hreq
    refine ⟨_, ?_, inv_of_change h hrep' (fun j => ?_) hreq, ?_⟩
    · simp only [step, Channel.change, hp']
      rfl
    · rw [howners]
      constructor
      · exact Or.inr
      · rintro (rfl | hj)
        · exact hreg
        · exact hj
    · obtain ⟨a, pfd, ha, hpfd, hindex, -⟩ := hrep.position ((howners k).mpr hreg)
      refine ⟨?_, by simp, by simp, rfl, ?_⟩
      · intro j hj
        refine ⟨Function.update_of_ne hj .., fun hjreg => ?_⟩
        obtain ⟨b, -, hb, -, hindex', -⟩ := hrep.position ((howners j).mpr hjreg)
        simp only [State.slot, Function.update_of_ne hj]
        apply hkeep
        intro heq
        have hab : a = b := by omega
        exact hj (Option.some.inj (hb.symm.trans (hab ▸ ha)))
      · intro hlive hne
        have hslot : s.slot k = some pfd := by
          rw [State.slot, hindex, Int.toNat_natCast, hpfd]
        obtain ⟨pfd', hpfd', hfd'⟩ := hown pfd hslot hne
        refine ⟨pfd', ?_, ?_⟩
        · simp only [State.slot, Function.update_self, Channel.setEvents_index]
          exact hpfd'
        · rw [hfd']
          refine (hrep.slot a k pfd ha hpfd).1.resolve_right fun hignored => ?_
          have hneg : pfd.fd < 0 := by
            rw [hignored, Poller.ignoredFd]
            omega
          simp [revives, hreg, hne, hslot, hneg] at hlive
  · have hindex : (s.channels k).index < 0 := by
      apply h.unused_index
      cases hs : s.status k with
      | unused => rfl
      | registered => exact absurd hs hreg
      | removed => exact absurd hs hstatus
    have hfresh : ∀ j ∈ owners, (s.channels j).fd ≠ (s.channels k).fd := by
      intro j hj
      have hjreg := (howners j).mp hj
      apply hdistinct j hjreg
      rintro rfl
      exact hreg hjreg
    obtain ⟨p', hp', hrep', hslots⟩ := hrep.change_new hindex hfd hfresh (h.requested k) i
    refine ⟨_, ?_, inv_of_change h hrep' (fun j => ?_) hreq, ?_⟩
    · simp only [step, hp']
      rfl
    · simp [howners, or_comm]
    · refine ⟨?_, by simp, by simp, rfl, ?_⟩
      · intro j hj
        refine ⟨Function.update_of_ne hj .., fun hjreg => ?_⟩
        obtain ⟨b, -, hb, -, hindex', hlt⟩ := hrep.position ((howners j).mpr hjreg)
        simp only [State.slot, Function.update_of_ne hj, hindex', Int.toNat_natCast, hslots]
        exact List.getElem?_append_left (hrep.length_eq ▸ hlt)
      · intro _ _
        refine ⟨⟨(s.channels k).fd, (i.apply (s.channels k).events).setWidth 16, 0⟩, ?_, rfl⟩
        simp only [State.slot, Function.update_self, Channel.setIndex_index, Int.toNat_natCast,
          hslots, ← hrep.length_eq]
        exact List.getElem?_concat_length ..

/-- The step lemma of `removeChannel`, with its frame: every other registered
channel keeps the content of its slot. -/
theorem remove_spec {s : State κ} (h : Inv s) {k : κ} (hp : Permitted s (.remove k)) :
    ∃ s', step s (.remove k) = .ok s' ∧ Inv s' ∧
      s'.status = Function.update s.status k .removed ∧
      (∀ j, ∃ m, s'.channels j = (s.channels j).setIndex m) ∧
      ∀ j, j ≠ k → s.status j = .registered → s'.slot j = s.slot j := by
  obtain ⟨⟨owners, hrep, howners⟩, hunused, hreq⟩ := h
  obtain ⟨hreg, hnone⟩ := hp
  obtain ⟨p', channels', i, hp', hi, hrep', hslots, hindex, hsame⟩ :=
    hrep.removeChannel ((howners k).mpr hreg) hnone
  refine ⟨⟨p', channels', Function.update s.status k .removed⟩, ?_, ⟨?_, ?_, ?_⟩, rfl, hindex, ?_⟩
  · simp only [step, hp']
    rfl
  · refine ⟨swapRemove owners i, hrep', fun j => ?_⟩
    rw [mem_swapRemove hrep.nodup hi, howners]
    by_cases hj : j = k
    · subst hj
      simp
    · simp [hj]
  · intro j hj
    have hjk : j ≠ k := by
      rintro rfl
      simp at hj
    simp only [Function.update_of_ne hjk] at hj
    have hnot : j ∉ owners := by
      rw [howners, hj]
      exact Status.noConfusion
    simp only [hsame j (Or.inl hnot)]
    exact hunused j hj
  · intro j
    obtain ⟨m, hm⟩ := hindex j
    simp only [hm, Channel.setIndex_events]
    exact hreq j
  · intro j hjk hj
    exact hrep.slot_swapRemove hi hrep' hslots ((howners j).mpr hj) hjk

theorem inv_step {s : State κ} {c : Call κ} (h : Inv s) (hp : Permitted s c) :
    ∃ s', step s c = .ok s' ∧ Inv s' := by
  cases c with
  | change k i =>
      obtain ⟨s', hs', hinv, -⟩ := change_spec h hp
      exact ⟨s', hs', hinv⟩
  | remove k =>
      obtain ⟨s', hs', hinv, -⟩ := remove_spec h hp
      exact ⟨s', hs', hinv⟩

omit [DecidableEq κ] in
/-- The indices of the registered channels are exactly the slot numbers. -/
theorem index_bijOn {s : State κ} (h : Inv s) :
    Set.BijOn (fun k => (s.channels k).index) {k | s.status k = .registered}
      (Set.Ico 0 (s.poller.pollFds.length : Int)) := by
  obtain ⟨⟨owners, hrep, howners⟩, -, -⟩ := h
  refine ⟨?_, ?_, ?_⟩
  · intro k hk
    obtain ⟨i, -, -, -, hi, hlt⟩ := hrep.position ((howners k).mpr hk)
    have := hrep.length_eq
    exact ⟨by simp [hi], by simp only [hi]; omega⟩
  · intro j hj k hk heq
    obtain ⟨a, -, ha, -, hja, -⟩ := hrep.position ((howners j).mpr hj)
    obtain ⟨b, -, hb, -, hkb, -⟩ := hrep.position ((howners k).mpr hk)
    have hab : a = b := by
      simp only [hja, hkb] at heq
      omega
    exact Option.some.inj (ha.symm.trans (hab ▸ hb))
  · rintro i ⟨hnonneg, hlt⟩
    rw [hrep.length_eq] at hlt
    have hi : i.toNat < owners.length := by omega
    have hget := List.getElem?_eq_getElem hi
    refine ⟨owners[i.toNat], (howners _).mp (List.getElem_mem hi), ?_⟩
    have := hrep.index_eq i.toNat _ hget
    simp only [this]
    omega

/-- In every permitted run no assert fails, and after every call the map, the
vector and the indices describe the same registered channels. A removal
leaves the slot content of every other channel as it was. -/
theorem containers_in_step {s : Except Poller.Fault (State κ)} (h : Reach s) :
    ∃ r, s = .ok r ∧
      (∀ fd k, r.poller.channelMap[fd]? = some k ↔
        r.status k = .registered ∧ (r.channels k).fd = fd) ∧
      r.poller.pollFds.length = r.poller.channelMap.size ∧
      Set.BijOn (fun k => (r.channels k).index) {k | r.status k = .registered}
        (Set.Ico 0 (r.poller.pollFds.length : Int)) ∧
      (∀ k, r.status k = .registered → ∃ pfd,
        r.poller.pollFds[(r.channels k).index.toNat]? = some pfd ∧
        (pfd.fd = (r.channels k).fd ∨ pfd.fd = -(r.channels k).fd - 1) ∧
        pfd.events.signExtend 32 = (r.channels k).events) ∧
      (∀ k, r.status k = .registered → (r.channels k).events = Channel.noneEvent →
        ∃ r', step r (.remove k) = .ok r' ∧
          ∀ j, j ≠ k → r.status j = .registered →
            r'.poller.pollFds[(r'.channels j).index.toNat]? =
              r.poller.pollFds[(r.channels j).index.toNat]?) := by
  obtain ⟨r, rfl, hinv⟩ := faultless (fun s => inv_of_initial) (fun s c => inv_step) h
  obtain ⟨⟨owners, hrep, howners⟩, -, -⟩ := id hinv
  refine ⟨r, rfl, ?_, ?_, index_bijOn hinv, ?_, ?_⟩
  · intro fd k
    rw [hrep.map_iff, howners]
  · rw [hrep.length_eq, hrep.size_eq]
  · intro k hk
    obtain ⟨i, pfd, hi, hpfd, hindex, -⟩ := hrep.position ((howners k).mpr hk)
    refine ⟨pfd, ?_, hrep.slot i k pfd hi hpfd⟩
    rw [hindex, Int.toNat_natCast]
    exact hpfd
  · intro k hk hnone
    obtain ⟨r', hr', -, -, -, hframe⟩ := remove_spec hinv ⟨hk, hnone⟩
    exact ⟨r', hr', hframe⟩

/-- `poll(2)` gets what the channel asks for. -/
def Polled (s : State κ) (k : κ) : Prop :=
  ∃ pfd, s.slot k = some pfd ∧ pfd.events.signExtend 32 = (s.channels k).events ∧
    ((s.channels k).events ≠ Channel.noneEvent → pfd.fd = (s.channels k).fd)

omit [DecidableEq κ] in
/-- A slot holds the events of its channel in any case. -/
theorem Inv.slot_events {s : State κ} (h : Inv s) {k : κ} (hk : s.status k = .registered) :
    ∃ pfd, s.slot k = some pfd ∧ pfd.events.signExtend 32 = (s.channels k).events := by
  obtain ⟨owners, hrep, howners⟩ := h.rep
  obtain ⟨i, pfd, hi, hpfd, hindex, -⟩ := hrep.position ((howners k).mpr hk)
  refine ⟨pfd, ?_, (hrep.slot i k pfd hi hpfd).2⟩
  rw [State.slot, hindex, Int.toNat_natCast, hpfd]

theorem polled_of_change {s s' : State κ} {k : κ} {i : Channel.Interest} (hinv : Inv s')
    (hpolled : ∀ j, s.status j = .registered → Polled s j) (hc : Changed s k i s')
    (hlive : revives s (.change k i) = false) {j : κ} (hj : s'.status j = .registered) :
    Polled s' j := by
  by_cases hjk : j = k
  · subst hjk
    obtain ⟨pfd, hpfd, hevents⟩ := hinv.slot_events hj
    refine ⟨pfd, hpfd, hevents, fun hne => ?_⟩
    rw [hc.events] at hne
    obtain ⟨pfd', hpfd', hfd'⟩ := hc.own hlive hne
    obtain rfl : pfd = pfd' := Option.some.inj (hpfd.symm.trans hpfd')
    rw [hfd', hc.fd]
  · rw [hc.status, Function.update_of_ne hjk] at hj
    obtain ⟨hchannel, hslot⟩ := hc.others j hjk
    rw [Polled, hslot hj, hchannel]
    exact hpolled j hj

theorem polled_of_remove {s s' : State κ} {k : κ} (h : Inv s) (hp : Permitted s (.remove k))
    (hs' : step s (.remove k) = .ok s') (hpolled : ∀ j, s.status j = .registered → Polled s j)
    {j : κ} (hj : s'.status j = .registered) : Polled s' j := by
  obtain ⟨s'', hs'', -, hstatus, hsame, hslots⟩ := remove_spec h hp
  obtain rfl : s' = s'' := Except.ok.inj (hs'.symm.trans hs'')
  have hjk : j ≠ k := by
    rintro rfl
    rw [hstatus, Function.update_self] at hj
    cases hj
  rw [hstatus, Function.update_of_ne hjk] at hj
  obtain ⟨pfd, hpfd, hevents, hfd⟩ := hpolled j hj
  obtain ⟨m, hm⟩ := hsame j
  refine ⟨pfd, (hslots j hjk hj).trans hpfd, ?_, ?_⟩
  · rw [hevents, hm, Channel.setIndex_events]
  · intro hne
    rw [hm, Channel.setIndex_events] at hne
    rw [hfd hne, hm, Channel.setIndex_fd]

/-- In every permitted run that never sets the interest of a channel whose slot
is ignored, the poller polls exactly what the registered channels ask for. -/
theorem polls_what_channels_ask {s : Except Poller.Fault (State κ)}
    (h : (machine κ).Reach (whileRunning fun s c => Permitted s c ∧ revives s c = false) s) :
    ∃ r, s = .ok r ∧ ∀ k, r.status k = .registered → Polled r k := by
  have hmain : ∃ r, s = .ok r ∧ Inv r ∧ ∀ k, r.status k = .registered → Polled r k := by
    apply faultless _ _ h
    · intro r hr
      refine ⟨inv_of_initial hr, fun k hk => ?_⟩
      rw [(hr.2 k).1] at hk
      cases hk
    · rintro r c ⟨hinv, hpolled⟩ ⟨hp, hlive⟩
      cases c with
      | change k i =>
          obtain ⟨r', hr', hinv', hc⟩ := change_spec hinv hp
          exact ⟨r', hr', hinv', fun j hj => polled_of_change hinv' hpolled hc hlive hj⟩
      | remove k =>
          obtain ⟨r', hr', hinv', -⟩ := remove_spec hinv hp
          exact ⟨r', hr', hinv', fun j hj => polled_of_remove hinv hp hr' hpolled hj⟩
  obtain ⟨r, hr, -, hpolled⟩ := hmain
  exact ⟨r, hr, hpolled⟩

section Example

instance {n : Nat} (s : State (Fin n)) : ∀ c, Decidable (Permitted s c)
  | .change k _ => inferInstanceAs (Decidable (s.status k ≠ .removed ∧ _ ∧ _))
  | .remove k => inferInstanceAs (Decidable (s.status k = .registered ∧ _))

/-- Three channels with the descriptors `3`, `4` and `5`. -/
def exampleStart : State (Fin 3) where
  poller := Poller.new
  channels k := Channel.new 0 (k.val + 3) 0
  status _ := .unused

/-- All three are registered, the first loses its interest and is removed, so
that the last one takes its slot. -/
def exampleCalls : List (Call (Fin 3)) :=
  [.change 0 .enableReading, .change 1 .enableWriting, .change 2 .enableReading,
    .change 0 .disableAllEvents, .remove 0]

/-- The run is permitted and ends with two slots and two entries. -/
theorem containers_in_step_example :
    ∃ r : State (Fin 3), Reach (.ok r) ∧ r.poller.pollFds.length = 2 ∧
      r.poller.channelMap.size = 2 := by
  have hinit : (machine (Fin 3)).init (.ok exampleStart) :=
    ⟨exampleStart, rfl, rfl, fun _ => ⟨rfl, rfl, rfl⟩⟩
  obtain ⟨s, hs, hp⟩ := Machine.exists_reach (whileRunning Permitted) hinit exampleCalls
    (fun s => match s with
      | .ok r => r.poller.pollFds.length == 2
      | .error _ => false) (by decide +kernel)
  obtain ⟨r, rfl, -, hsize, -⟩ := containers_in_step hs
  have hlen : r.poller.pollFds.length = 2 := by simpa using hp
  exact ⟨r, hs, hlen, by rw [← hsize, hlen]⟩

/-- The last channel takes over a slot and is polled there. -/
theorem polls_after_removal : ∃ r : State (Fin 3), r.status 2 = .registered ∧
    (r.channels 2).index = 0 ∧ Polled r 2 := by
  obtain ⟨s, hs, hp⟩ := Machine.exists_reach
    (whileRunning fun s c => Permitted s c ∧ revives s c = false) (M := machine (Fin 3))
    ⟨exampleStart, rfl, rfl, fun _ => ⟨rfl, rfl, rfl⟩⟩ exampleCalls
    (fun s => match s with
      | .ok r => r.status 2 = .registered ∧ (r.channels 2).index = 0
      | .error _ => false) (by decide +kernel)
  obtain ⟨r, rfl, hpolled⟩ := polls_what_channels_ask hs
  have hr := of_decide_eq_true hp
  exact ⟨r, hr.1, hr.2, hpolled 2 hr.1⟩

/-- The interest of a channel is cleared and set again. -/
def revivingCalls : List (Call (Fin 3)) :=
  [.change 0 .enableReading, .change 0 .disableAllEvents, .change 0 .enableReading]

/-- A channel whose interest was cleared is not polled again. -/
theorem cleared_channel_stays_ignored : ¬ ∀ s : Except Poller.Fault (State (Fin 3)), Reach s →
    ∃ r, s = .ok r ∧ ∀ k, r.status k = .registered → Polled r k := by
  intro h
  obtain ⟨s, hs, hp⟩ := Machine.exists_reach (whileRunning Permitted) (M := machine (Fin 3))
    ⟨exampleStart, rfl, rfl, fun _ => ⟨rfl, rfl, rfl⟩⟩ revivingCalls
    (fun s => match s with
      | .ok r => r.status 0 = .registered ∧ (r.channels 0).events ≠ Channel.noneEvent ∧
          (r.slot 0).map PollFd.fd ≠ some (r.channels 0).fd
      | .error _ => false) (by decide +kernel)
  obtain ⟨r, rfl, hpolled⟩ := h s hs
  obtain ⟨hreg, hne, hfd⟩ := of_decide_eq_true hp
  obtain ⟨pfd, hpfd, -, hown⟩ := hpolled 0 hreg
  rw [hpfd] at hfd
  exact hfd (congrArg some (hown hne))

end Example

end Yatwb.PollerRuns
