import Yatwb.Poller.Polling
import Yatwb.Poller.Runs

/-!
# What the index of a channel tells

`updateChannel` decides by `index_` alone whether a channel is new, while
`channel_map_` holds the registered ones. Here a run is any list of calls, in
any order and with any descriptors, in which no assert has failed. The index
is negative exactly for the channels that are not registered as long as no
channel has been removed, and never afterwards: `removeChannel` leaves
`index_` as it was, and no later call repairs it.
-/

namespace Yatwb.PollerRuns

open Foundation

variable {κ : Type} [DecidableEq κ]

/-- The index of a channel tells whether it is registered, so that a channel
that is not registered gets a slot of its own. -/
structure IndexTells (s : State κ) : Prop where
  index : ∀ k, (s.channels k).index < 0 ↔ ¬ s.poller.Holds k
  appends : ∀ k i s', ¬ s.poller.Holds k → step s (.change k i) = .ok s' →
    ∃ pfd, s'.poller.pollFds = s.poller.pollFds ++ [pfd]

/-- The map holds each channel under its own descriptor. -/
def Keyed (s : State κ) : Prop :=
  ∀ (fd : Int) k, s.poller.channelMap[fd]? = some k → (s.channels k).fd = fd

/-- The channel has an index and is not registered. -/
def Lost (s : State κ) (k : κ) : Prop := 0 ≤ (s.channels k).index ∧ ¬ s.poller.Holds k

/-- What an interest method does when no assert fails: it registers a new
channel or writes to a registered one. -/
theorem change_cases {s s' : State κ} {k : κ} {i : Channel.Interest}
    (h : step s (.change k i) = .ok s') :
    ((s.channels k).index < 0 ∧ s.poller.channelMap.contains (s.channels k).fd = false ∧
      s'.poller.channelMap = s.poller.channelMap.insertIfNew (s.channels k).fd k ∧
      (∃ pfd, s'.poller.pollFds = s.poller.pollFds ++ [pfd]) ∧
      ∃ n : Nat, s'.channels =
        Function.update s.channels k (((s.channels k).change i).setIndex n)) ∨
    (0 ≤ (s.channels k).index ∧ s.poller.channelMap[(s.channels k).fd]? = some k ∧
      s'.poller.channelMap = s.poller.channelMap ∧
      s'.channels = Function.update s.channels k ((s.channels k).change i)) := by
  obtain ⟨⟨p', channels'⟩, hupdate, hs'⟩ := bind_eq_ok.mp h
  obtain rfl := Except.ok.inj hs'
  simp only [Poller.updateChannel, Function.update_self, Channel.change_index,
    Channel.change_fd] at hupdate
  split at hupdate
  · rename_i hindex
    obtain ⟨habsent, hresult⟩ := check_bind_eq_ok.mp hupdate
    obtain ⟨rfl, rfl⟩ := Prod.mk.inj (Except.ok.inj hresult)
    refine Or.inl ⟨hindex, habsent, rfl, ⟨_, rfl⟩, s.poller.pollFds.length, ?_⟩
    simp
  · rename_i hindex
    obtain ⟨-, hupdate⟩ := check_bind_eq_ok.mp hupdate
    obtain ⟨hown, hupdate⟩ := check_bind_eq_ok.mp hupdate
    split at hupdate
    · cases hupdate
    · obtain ⟨-, hresult⟩ := check_bind_eq_ok.mp hupdate
      obtain ⟨rfl, rfl⟩ := Prod.mk.inj (Except.ok.inj hresult)
      exact Or.inr ⟨by omega, hown, rfl, rfl⟩

/-- What `removeChannel` does when no assert fails: the entry goes, and a
channel that is still registered may have moved. -/
theorem remove_cases {s s' : State κ} {k : κ} (h : step s (.remove k) = .ok s') :
    0 ≤ (s.channels k).index ∧ s.poller.channelMap[(s.channels k).fd]? = some k ∧
      s'.poller.channelMap = s.poller.channelMap.erase (s.channels k).fd ∧
      (s'.channels = s.channels ∨ ∃ (fd : Int) (moved : κ),
        (s.poller.channelMap.erase (s.channels k).fd)[fd]? = some moved ∧
        s'.channels =
          Function.update s.channels moved ((s.channels moved).setIndex (s.channels k).index)) := by
  obtain ⟨⟨p', channels'⟩, hremove, hs'⟩ := bind_eq_ok.mp h
  obtain rfl := Except.ok.inj hs'
  simp only [Poller.removeChannel] at hremove
  obtain ⟨-, hremove⟩ := check_bind_eq_ok.mp hremove
  obtain ⟨hown, hremove⟩ := check_bind_eq_ok.mp hremove
  obtain ⟨-, hremove⟩ := check_bind_eq_ok.mp hremove
  obtain ⟨hrange, hremove⟩ := check_bind_eq_ok.mp hremove
  have hnonneg := hrange.1
  split at hremove
  · obtain ⟨-, hremove⟩ := check_bind_eq_ok.mp hremove
    obtain ⟨-, hremove⟩ := check_bind_eq_ok.mp hremove
    obtain ⟨-, hremove⟩ := check_bind_eq_ok.mp hremove
    split at hremove
    · obtain ⟨rfl, rfl⟩ := Prod.mk.inj (Except.ok.inj hremove)
      exact ⟨hnonneg, hown, rfl, Or.inl rfl⟩
    · split at hremove
      · cases hremove
      · rename_i moved hmoved
        obtain ⟨rfl, rfl⟩ := Prod.mk.inj (Except.ok.inj hremove)
        exact ⟨hnonneg, hown, rfl, Or.inr ⟨_, moved, hmoved, rfl⟩⟩
  · cases hremove

omit [DecidableEq κ] in
theorem holds_insertIfNew {p : Poller κ} (slots : List PollFd) {fd : Int} {k : κ}
    (habsent : p.channelMap.contains fd = false) (j : κ) :
    Poller.Holds ⟨slots, p.channelMap.insertIfNew fd k⟩ j ↔ p.Holds j ∨ j = k := by
  have hnotin : fd ∉ p.channelMap := by
    rw [← Std.ExtTreeMap.contains_iff_mem, habsent]
    exact Bool.false_ne_true
  have hnone : p.channelMap[fd]? = none := Std.ExtTreeMap.getElem?_eq_none hnotin
  constructor
  · rintro ⟨fd', hfd'⟩
    rw [Std.ExtTreeMap.getElem?_insertIfNew] at hfd'
    split at hfd'
    · exact Or.inr (Option.some.inj hfd').symm
    · exact Or.inl ⟨fd', hfd'⟩
  · rintro (⟨fd', hfd'⟩ | rfl)
    · refine ⟨fd', ?_⟩
      have hne : fd ≠ fd' := by
        rintro rfl
        rw [hnone] at hfd'
        cases hfd'
      rw [Std.ExtTreeMap.getElem?_insertIfNew, if_neg fun hand => hne ?_]
      · exact hfd'
      · exact Std.LawfulEqCmp.eq_of_compare hand.1
    · refine ⟨fd, ?_⟩
      rw [Std.ExtTreeMap.getElem?_insertIfNew, if_pos ⟨Std.ReflCmp.compare_self, hnotin⟩]

/-- The descriptors of channels never change. -/
theorem step_fd {s s' : State κ} {c : Call κ} (h : step s c = .ok s') (j : κ) :
    (s'.channels j).fd = (s.channels j).fd := by
  have hupdate {k : κ} {channel : Channel}
      (hs : s'.channels = Function.update s.channels k channel)
      (hfd : channel.fd = (s.channels k).fd) : (s'.channels j).fd = (s.channels j).fd := by
    rw [hs]
    by_cases hj : j = k
    · subst hj
      rw [Function.update_self, hfd]
    · rw [Function.update_of_ne hj]
  cases c with
  | change k i =>
      rcases change_cases h with ⟨-, -, -, -, n, hs⟩ | ⟨-, -, -, hs⟩
      · exact hupdate hs rfl
      · exact hupdate hs rfl
  | remove k =>
      obtain ⟨-, -, -, hs | ⟨fd, moved, -, hs⟩⟩ := remove_cases h
      · rw [hs]
      · exact hupdate hs rfl

theorem Keyed.step {s s' : State κ} {c : Call κ} (hkeyed : Keyed s) (h : step s c = .ok s') :
    Keyed s' := by
  intro fd j hj
  rw [step_fd h]
  cases c with
  | change k i =>
      rcases change_cases h with ⟨-, -, hmap, -, -⟩ | ⟨-, -, hmap, -⟩
      · rw [hmap, Std.ExtTreeMap.getElem?_insertIfNew] at hj
        split at hj
        · rename_i hand
          rw [← Option.some.inj hj]
          exact Std.LawfulEqCmp.eq_of_compare hand.1
        · exact hkeyed fd j hj
      · exact hkeyed fd j (hmap ▸ hj)
  | remove k =>
      obtain ⟨-, -, hmap, -⟩ := remove_cases h
      rw [hmap, Std.ExtTreeMap.getElem?_erase] at hj
      split at hj
      · cases hj
      · exact hkeyed fd j hj

/-- Registering a channel keeps what the indices tell. -/
theorem index_of_change {s s' : State κ} {k : κ} {i : Channel.Interest}
    (hindex : ∀ j, (s.channels j).index < 0 ↔ ¬ s.poller.Holds j)
    (h : step s (.change k i) = .ok s') (j : κ) :
    (s'.channels j).index < 0 ↔ ¬ s'.poller.Holds j := by
  rcases change_cases h with ⟨hnew, habsent, hmap, -, n, hchannels⟩ | ⟨hold, hown, hmap, hchannels⟩
  · have hholds : s'.poller.Holds j ↔ s.poller.Holds j ∨ j = k := by
      rw [Poller.Holds, hmap]
      exact holds_insertIfNew [] habsent j
    rw [hholds, hchannels]
    by_cases hj : j = k
    · subst hj
      rw [Function.update_self, Channel.setIndex_index]
      simp
    · rw [Function.update_of_ne hj, hindex]
      simp [hj]
  · have hholds : s'.poller.Holds j ↔ s.poller.Holds j := by
      rw [Poller.Holds, hmap]
      exact Iff.rfl
    rw [hholds, hchannels, ← hindex]
    by_cases hj : j = k
    · subst hj
      rw [Function.update_self, Channel.change_index]
    · rw [Function.update_of_ne hj]

/-- A removed channel keeps its index. -/
theorem lost_of_remove {s s' : State κ} {k : κ} (hkeyed : Keyed s)
    (h : step s (.remove k) = .ok s') : Lost s' k := by
  obtain ⟨hnonneg, -, hmap, hchannels⟩ := remove_cases h
  have hgone : ¬ s'.poller.Holds k := by
    rintro ⟨fd, hfd⟩
    rw [hmap, Std.ExtTreeMap.getElem?_erase] at hfd
    split at hfd
    · cases hfd
    · rename_i hne
      rw [hkeyed fd k hfd] at hne
      exact hne Std.ReflCmp.compare_self
  refine ⟨?_, hgone⟩
  rcases hchannels with hchannels | ⟨fd, moved, hmoved, hchannels⟩
  · rw [hchannels]
    exact hnonneg
  · have hne : k ≠ moved := by
      rintro rfl
      exact hgone ⟨fd, hmap ▸ hmoved⟩
    rw [hchannels, Function.update_of_ne hne]
    exact hnonneg

/-- No call finds a channel again that has an index and no entry. -/
theorem Lost.step {s s' : State κ} {k : κ} {c : Call κ} (hlost : Lost s k)
    (h : step s c = .ok s') : Lost s' k := by
  obtain ⟨hnonneg, hgone⟩ := hlost
  cases c with
  | change j i =>
      rcases change_cases h with
        ⟨hnew, habsent, hmap, -, n, hchannels⟩ | ⟨hold, hown, hmap, hchannels⟩
      · have hne : k ≠ j := by
          rintro rfl
          omega
        constructor
        · rw [hchannels, Function.update_of_ne hne]
          exact hnonneg
        · rw [Poller.Holds, hmap]
          intro hholds
          exact ((holds_insertIfNew [] habsent k).mp hholds).elim hgone hne
      · have hne : k ≠ j := by
          rintro rfl
          exact hgone ⟨_, hown⟩
        constructor
        · rw [hchannels, Function.update_of_ne hne]
          exact hnonneg
        · rw [Poller.Holds, hmap]
          exact hgone
  | remove j =>
      obtain ⟨hrange, -, hmap, hchannels⟩ := remove_cases h
      have hgone' : ¬ s'.poller.Holds k := by
        rintro ⟨fd, hfd⟩
        rw [hmap, Std.ExtTreeMap.getElem?_erase] at hfd
        split at hfd
        · cases hfd
        · exact hgone ⟨fd, hfd⟩
      refine ⟨?_, hgone'⟩
      rcases hchannels with hchannels | ⟨fd, moved, hmoved, hchannels⟩
      · rw [hchannels]
        exact hnonneg
      · have hne : k ≠ moved := by
          rintro rfl
          exact hgone' ⟨fd, hmap ▸ hmoved⟩
        rw [hchannels, Function.update_of_ne hne]
        exact hnonneg

/-- A lost channel stays lost. -/
theorem Lost.run {s r : State κ} {k : κ} {calls : List (Call κ)} (hlost : Lost s k)
    (hr : calls.foldlM PollerRuns.step s = .ok r) : Lost r k := by
  induction calls generalizing s with
  | nil =>
      obtain rfl : s = r := Except.ok.inj hr
      exact hlost
  | cons c rest ih =>
      rw [List.foldlM_cons] at hr
      obtain ⟨s', hs', hr⟩ := bind_eq_ok.mp hr
      exact ih (hlost.step hs') hr

/-- After any calls without a failed assert, the indices tell the registered
channels exactly when no channel was removed. -/
theorem index_tells_of_keyed {s r : State κ} {calls : List (Call κ)} (hkeyed : Keyed s)
    (hindex : ∀ j, (s.channels j).index < 0 ↔ ¬ s.poller.Holds j)
    (hr : calls.foldlM step s = .ok r) :
    (∀ j, (r.channels j).index < 0 ↔ ¬ r.poller.Holds j) ↔ ∀ k, .remove k ∉ calls := by
  induction calls generalizing s with
  | nil =>
      obtain rfl : s = r := Except.ok.inj hr
      exact iff_of_true hindex fun k => List.not_mem_nil
  | cons c rest ih =>
      rw [List.foldlM_cons] at hr
      obtain ⟨s', hs', hrest⟩ := bind_eq_ok.mp hr
      cases c with
      | change k i =>
          rw [ih (hkeyed.step hs') (index_of_change hindex hs') hrest]
          simp
      | remove k =>
          have hlost := (lost_of_remove hkeyed hs').run hrest
          apply iff_of_false
          · intro htells
            exact hlost.2 (by_contra fun hnot => absurd ((htells k).mpr hnot) (not_lt.mpr hlost.1))
          · exact fun hnone => hnone k (List.mem_cons_self ..)

/-- After every run, the index of a channel tells whether it is registered if
and only if no channel was removed in the run. -/
theorem index_tells_iff_never_removed {s r : State κ} {calls : List (Call κ)} (h : Initial s)
    (hr : calls.foldlM step s = .ok r) : IndexTells r ↔ ∀ k, .remove k ∉ calls := by
  have hempty (fd : Int) : s.poller.channelMap[fd]? = none := by
    rw [h.1]
    exact Std.ExtTreeMap.getElem?_empty
  have hkeyed : Keyed s := by
    intro fd k hk
    rw [hempty] at hk
    cases hk
  have hindex (j : κ) : (s.channels j).index < 0 ↔ ¬ s.poller.Holds j := by
    rw [(h.2 j).2.1]
    refine iff_of_true (by decide) ?_
    rintro ⟨fd, hfd⟩
    rw [hempty] at hfd
    cases hfd
  rw [← index_tells_of_keyed hkeyed hindex hr]
  constructor
  · exact fun htells => htells.index
  · intro htells
    refine ⟨htells, fun k i r' hout hr' => ?_⟩
    rcases change_cases hr' with ⟨-, -, -, happend, -⟩ | ⟨hold, -⟩
    · exact happend
    · exact absurd ((htells k).mpr hout) (not_lt.mpr hold)

/-- Without a removal the indices tell. -/
theorem index_tells_without_removal : ∃ r : State (Fin 3),
    (exampleCalls.take 4).foldlM step exampleStart = .ok r ∧ IndexTells r := by
  have hok : ((exampleCalls.take 4).foldlM step exampleStart).toOption.isSome = true := by
    decide +kernel
  cases hrun : (exampleCalls.take 4).foldlM step exampleStart with
  | error f =>
      rw [hrun] at hok
      cases hok
  | ok r =>
      have hnone : ∀ k, Call.remove k ∉ exampleCalls.take 4 := by decide
      have hinit : Initial exampleStart := ⟨rfl, fun _ => ⟨rfl, rfl, rfl⟩⟩
      exact ⟨r, rfl, (index_tells_iff_never_removed hinit hrun).mpr hnone⟩

/-- A removed channel is not in the map and has an index. -/
theorem removed_channel_keeps_index : ¬ ∀ (calls : List (Call (Fin 3))) (r : State (Fin 3)),
    calls.foldlM step exampleStart = .ok r → IndexTells r := by
  intro h
  have hrun : ((exampleCalls.foldlM step exampleStart).toOption.any fun r =>
      0 ≤ (r.channels 0).index ∧
        r.poller.channelMap.toList.all fun entry => entry.2 ≠ 0) = true := by
    decide +kernel
  cases hok : exampleCalls.foldlM step exampleStart with
  | error f =>
      rw [hok] at hrun
      cases hrun
  | ok r =>
      rw [hok] at hrun
      obtain ⟨hnonneg, hentries⟩ := of_decide_eq_true hrun
      refine absurd (((h _ r hok).index 0).mpr ?_) (not_lt.mpr hnonneg)
      rintro ⟨fd, hfd⟩
      have hentry := List.all_eq_true.mp hentries (fd, 0)
        (Std.ExtTreeMap.mem_toList_iff_getElem?_eq_some.mpr hfd)
      simp at hentry

end Yatwb.PollerRuns
