import Yatwb.Foundation.SwapRemove
import Yatwb.Poller.Model

/-!
# What the poller's containers have to do with each other

The representation relation names the registered channels in slot order.
Registering a channel extends that list, changing the interest of a
registered channel keeps it, and removing a channel moves its last member to
the free place. Each of the three results also says that the function fails
none of its asserts.
-/

namespace Yatwb.Poller

open Foundation

variable {κ : Type}

/-- `owners` lists the registered channels, each at the position of its slot. -/
structure Rep (p : Poller κ) (channels : κ → Channel) (owners : List κ) : Prop where
  nodup : owners.Nodup
  length_eq : p.pollFds.length = owners.length
  index_eq : ∀ (i : Nat) (k : κ), owners[i]? = some k → (channels k).index = i
  slot : ∀ (i : Nat) (k : κ) (pfd : PollFd), owners[i]? = some k → p.pollFds[i]? = some pfd →
    (pfd.fd = (channels k).fd ∨ pfd.fd = ignoredFd (channels k).fd) ∧
      pfd.events.signExtend 32 = (channels k).events
  map_iff : ∀ (fd : Int) (k : κ), p.channelMap[fd]? = some k ↔ k ∈ owners ∧ (channels k).fd = fd
  size_eq : p.channelMap.size = owners.length
  fd_nonneg : ∀ k ∈ owners, 0 ≤ (channels k).fd

variable {p : Poller κ} {channels : κ → Channel} {owners : List κ} {k : κ}

theorem rep_new (channels : κ → Channel) : (new : Poller κ).Rep channels [] := by
  constructor <;> simp [new]

/-- A channel without a slot whose descriptor is not in the map gets the next slot. -/
theorem updateChannel_absent [DecidableEq κ] (hindex : (channels k).index < 0)
    (habsent : p.channelMap.contains (channels k).fd = false) :
    p.updateChannel channels k =
      .ok (⟨p.pollFds ++ [⟨(channels k).fd, (channels k).events.setWidth 16, 0⟩],
          p.channelMap.insertIfNew (channels k).fd k⟩,
        Function.update channels k ((channels k).setIndex p.pollFds.length)) := by
  simp only [updateChannel, if_pos hindex, check_bind_of _ habsent, List.length_append,
    List.length_singleton]
  simp
  rfl

namespace Rep

/-- Only the index, the descriptor and the events of registered channels matter. -/
theorem congr (h : p.Rep channels owners) {channels' : κ → Channel}
    (hindex : ∀ k ∈ owners, (channels' k).index = (channels k).index)
    (hfd : ∀ k ∈ owners, (channels' k).fd = (channels k).fd)
    (hevents : ∀ k ∈ owners, (channels' k).events = (channels k).events) :
    p.Rep channels' owners where
  nodup := h.nodup
  length_eq := h.length_eq
  index_eq i k hk := (hindex k (List.mem_of_getElem? hk)).trans (h.index_eq i k hk)
  slot i k pfd hk hpfd := by
    have hmem := List.mem_of_getElem? hk
    rw [hfd k hmem, hevents k hmem]
    exact h.slot i k pfd hk hpfd
  map_iff fd k := by
    rw [h.map_iff]
    constructor
    · rintro ⟨hk, heq⟩
      exact ⟨hk, (hfd k hk).trans heq⟩
    · rintro ⟨hk, heq⟩
      exact ⟨hk, (hfd k hk).symm.trans heq⟩
  size_eq := h.size_eq
  fd_nonneg k hk := (hfd k hk).symm ▸ h.fd_nonneg k hk

theorem position (h : p.Rep channels owners) (hk : k ∈ owners) :
    ∃ (i : Nat) (pfd : PollFd), owners[i]? = some k ∧ p.pollFds[i]? = some pfd ∧
      (channels k).index = i ∧ i < owners.length := by
  obtain ⟨i, hi⟩ := List.getElem?_of_mem hk
  have hlt : i < owners.length := (List.getElem?_eq_some_iff.mp hi).1
  have hslot : i < p.pollFds.length := h.length_eq ▸ hlt
  exact ⟨i, p.pollFds[i], hi, List.getElem?_eq_getElem hslot, h.index_eq i k hi, hlt⟩

theorem index_nonneg (h : p.Rep channels owners) (hk : k ∈ owners) :
    0 ≤ (channels k).index := by
  obtain ⟨i, -, -, -, hi, -⟩ := h.position hk
  omega

theorem not_mem_of_index_neg (h : p.Rep channels owners) (hi : (channels k).index < 0) :
    k ∉ owners := fun hk => absurd (h.index_nonneg hk) (by omega)

theorem fd_inj (h : p.Rep channels owners) {k' : κ} (hk : k ∈ owners) (hk' : k' ∈ owners)
    (hfd : (channels k).fd = (channels k').fd) : k = k' := by
  have h₁ := (h.map_iff _ k).mpr ⟨hk, hfd⟩
  have h₂ := (h.map_iff _ k').mpr ⟨hk', rfl⟩
  exact Option.some.inj (h₁.symm.trans h₂)

theorem map_of_mem (h : p.Rep channels owners) (hk : k ∈ owners) :
    p.channelMap[(channels k).fd]? = some k :=
  (h.map_iff _ k).mpr ⟨hk, rfl⟩

theorem contains_of_mem (h : p.Rep channels owners) (hk : k ∈ owners) :
    p.channelMap.contains (channels k).fd = true := by
  rw [Std.ExtTreeMap.contains_eq_isSome_getElem?, h.map_of_mem hk]
  rfl

/-- A descriptor is in the map exactly when a registered channel has it. -/
theorem contains_eq_false (h : p.Rep channels owners) {fd : Int}
    (hfd : ∀ k ∈ owners, (channels k).fd ≠ fd) : p.channelMap.contains fd = false := by
  rw [Std.ExtTreeMap.contains_eq_isSome_getElem?]
  cases hm : p.channelMap[fd]? with
  | none => rfl
  | some k =>
      obtain ⟨hk, heq⟩ := (h.map_iff fd k).mp hm
      exact absurd heq (hfd k hk)

/-- `iter_swap` with the last slot followed by `pop_back`. -/
theorem dropLast_iterSwap {pollFds : List PollFd} {i : Nat} (hi : i < pollFds.length - 1) :
    (iterSwap pollFds i (pollFds.length - 1)).dropLast = swapRemove pollFds i := by
  have hlast : pollFds.length - 1 < pollFds.length := by omega
  have hget := List.getElem?_eq_getElem hlast
  apply List.ext_getElem?
  intro j
  rw [getElem?_swapRemove, iterSwap, List.getElem?_eq_getElem (by omega : i < pollFds.length), hget]
  simp only [List.getElem?_dropLast, List.length_set, List.getElem?_set]
  by_cases hj : j < pollFds.length - 1
  · rw [if_pos hj, if_pos hj, if_neg (by omega : ¬ pollFds.length - 1 = j)]
    by_cases hij : i = j
    · subst hij
      rw [if_pos rfl, if_pos rfl, if_pos (by omega)]
    · rw [if_neg hij, if_neg (Ne.symm hij)]
  · rw [if_neg hj, if_neg hj]

theorem dropLast_eq_swapRemove {α : Type*} (xs : List α) :
    xs.dropLast = swapRemove xs (xs.length - 1) := by
  apply List.ext_getElem?
  intro j
  rw [getElem?_swapRemove, List.getElem?_dropLast]
  by_cases hj : j < xs.length - 1
  · rw [if_pos hj, if_pos hj, if_neg (by omega)]
  · rw [if_neg hj, if_neg hj]

/-- The relation for the containers after a removal, once the index of the
channel that took the free slot is repaired. -/
theorem swapRemoved (h : p.Rep channels owners) {i : Nat} (hi : owners[i]? = some k)
    {channels' : κ → Channel} (hfd : ∀ j, (channels' j).fd = (channels j).fd)
    (hevents : ∀ j, (channels' j).events = (channels j).events)
    (hindex : ∀ (m : Nat) (j : κ), (swapRemove owners i)[m]? = some j → (channels' j).index = m) :
    Rep ⟨swapRemove p.pollFds i, p.channelMap.erase (channels k).fd⟩ channels'
      (swapRemove owners i) := by
  have hmem : k ∈ owners := List.mem_of_getElem? hi
  constructor
  · exact nodup_swapRemove h.nodup i
  · simp [h.length_eq]
  · exact hindex
  · intro m j pfd hj hpfd
    obtain ⟨a, ha, hai, ham, hlt⟩ := getElem?_of_swapRemove hj
    have hpfd' : p.pollFds[a]? = some pfd := by
      rw [getElem?_swapRemove, h.length_eq, if_pos hlt] at hpfd
      rcases ham with rfl | ⟨rfl, rfl⟩
      · rwa [if_neg hai] at hpfd
      · rwa [if_pos rfl] at hpfd
    rw [hfd, hevents]
    exact h.slot a j pfd ha hpfd'
  · intro fd j
    rw [Std.ExtTreeMap.getElem?_erase, hfd, mem_swapRemove h.nodup hi]
    by_cases hc : (channels k).fd = fd
    · rw [if_pos (by simp [hc])]
      constructor
      · intro hn
        cases hn
      · rintro ⟨⟨hj, hne⟩, heq⟩
        exact absurd (h.fd_inj hj hmem (heq.trans hc.symm)) hne
    · rw [if_neg (fun he => hc (Std.LawfulEqCmp.eq_of_compare he)), h.map_iff]
      constructor
      · rintro ⟨hj, heq⟩
        refine ⟨⟨hj, ?_⟩, heq⟩
        rintro rfl
        exact hc heq
      · rintro ⟨⟨hj, -⟩, heq⟩
        exact ⟨hj, heq⟩
  · rw [Std.ExtTreeMap.size_erase, if_pos (h.contains_of_mem hmem), h.size_eq, length_swapRemove]
  · intro j hj
    rw [hfd]
    exact h.fd_nonneg j ((mem_swapRemove h.nodup hi j).mp hj).1

/-- The slot of the last channel leads back to that channel, ignored or not. -/
theorem decode_last (h : p.Rep channels owners) {back : PollFd} {last : κ}
    (hlast : owners[owners.length - 1]? = some last)
    (hback : p.pollFds[owners.length - 1]? = some back) :
    (if back.fd < 0 then -back.fd - 1 else back.fd) = (channels last).fd := by
  have hnonneg := h.fd_nonneg last (List.mem_of_getElem? hlast)
  rcases (h.slot _ last back hlast hback).1 with he | he
  · rw [he, if_neg (by omega)]
  · rw [he, if_pos (by simp only [ignoredFd]; omega)]
    simp only [ignoredFd]
    omega

variable [DecidableEq κ]

/-- A channel that is not registered gets the next slot. -/
theorem updateChannel_new (h : p.Rep channels owners) (hindex : (channels k).index < 0)
    (hfd : 0 ≤ (channels k).fd) (hfresh : ∀ j ∈ owners, (channels j).fd ≠ (channels k).fd)
    (hreq : Channel.Requested (channels k).events) :
    ∃ p', p.updateChannel channels k =
        .ok (p', Function.update channels k ((channels k).setIndex owners.length)) ∧
      p'.Rep (Function.update channels k ((channels k).setIndex owners.length))
        (owners ++ [k]) ∧
      p'.pollFds = p.pollFds ++ [⟨(channels k).fd, (channels k).events.setWidth 16, 0⟩] := by
  have habsent := h.contains_eq_false hfresh
  have hnotin : (channels k).fd ∉ p.channelMap := by
    rw [← Std.ExtTreeMap.contains_iff_mem, habsent]
    exact Bool.false_ne_true
  have hnot : k ∉ owners := h.not_mem_of_index_neg hindex
  have hne : ∀ j ∈ owners, j ≠ k := fun j hj heq => hnot (heq ▸ hj)
  refine ⟨⟨p.pollFds ++ [⟨(channels k).fd, (channels k).events.setWidth 16, 0⟩],
    p.channelMap.insertIfNew (channels k).fd k⟩, ?_, ?_, rfl⟩
  · rw [updateChannel_absent hindex habsent, h.length_eq]
  · constructor
    · rw [List.nodup_append]
      exact ⟨h.nodup, by simp, by simpa using hne⟩
    · simp [h.length_eq]
    · intro i j hj
      rcases getElem?_concat_eq_some.mp hj with hj | ⟨rfl, rfl⟩
      · rw [Function.update_of_ne (hne j (List.mem_of_getElem? hj))]
        exact h.index_eq i j hj
      · simp
    · intro i j pfd hj hpfd
      rcases getElem?_concat_eq_some.mp hj with hj | ⟨rfl, rfl⟩
      · have hi := (List.getElem?_eq_some_iff.mp hj).1
        rw [List.getElem?_append_left (h.length_eq ▸ hi)] at hpfd
        rw [Function.update_of_ne (hne j (List.mem_of_getElem? hj))]
        exact h.slot i j pfd hj hpfd
      · rw [← h.length_eq, List.getElem?_concat_length] at hpfd
        cases hpfd
        simpa using hreq.signExtend
    · intro fd j
      rw [Std.ExtTreeMap.getElem?_insertIfNew]
      by_cases hfd' : (channels k).fd = fd
      · subst hfd'
        rw [if_pos ⟨Std.ReflCmp.compare_self, hnotin⟩]
        constructor
        · rintro ⟨⟩
          simp
        · rintro ⟨hj, heq⟩
          by_cases hjk : j = k
          · rw [hjk]
          · rw [Function.update_of_ne hjk] at heq
            have hmem : j ∈ owners := by simpa [hjk] using hj
            exact absurd heq (hfresh j hmem)
      · rw [if_neg (fun hc => hfd' (Std.LawfulEqCmp.eq_of_compare hc.1)), h.map_iff]
        by_cases hjk : j = k
        · subst hjk
          simp [hnot, hfd']
        · simp [hjk]
    · rw [Std.ExtTreeMap.size_insertIfNew, if_neg hnotin, h.size_eq]
      simp
    · intro j hj
      by_cases hjk : j = k
      · subst hjk
        simpa using hfd
      · rw [Function.update_of_ne hjk]
        exact h.fd_nonneg j (by simpa [hjk] using hj)

/-- The first interest method called on a channel registers it. -/
theorem change_new (h : p.Rep channels owners) (hindex : (channels k).index < 0)
    (hfd : 0 ≤ (channels k).fd) (hfresh : ∀ j ∈ owners, (channels j).fd ≠ (channels k).fd)
    (hreq : Channel.Requested (channels k).events) (i : Channel.Interest) :
    ∃ p', p.updateChannel (Function.update channels k ((channels k).change i)) k =
        .ok (p', Function.update channels k
          (((channels k).change i).setIndex owners.length)) ∧
      p'.Rep (Function.update channels k (((channels k).change i).setIndex owners.length))
        (owners ++ [k]) ∧
      p'.pollFds = p.pollFds ++ [⟨(channels k).fd, (i.apply (channels k).events).setWidth 16, 0⟩] :=
        by
  have hne : ∀ j ∈ owners, j ≠ k :=
    fun j hj heq => h.not_mem_of_index_neg hindex (heq ▸ hj)
  have hrep : p.Rep (Function.update channels k ((channels k).change i)) owners := by
    apply h.congr <;> intro j hj <;> rw [Function.update_of_ne (hne j hj)]
  have hfresh' : ∀ j ∈ owners,
      (Function.update channels k ((channels k).change i) j).fd ≠
        (Function.update channels k ((channels k).change i) k).fd := by
    intro j hj
    rw [Function.update_of_ne (hne j hj), Function.update_self]
    exact hfresh j hj
  obtain ⟨p', hp', hrep', hslots⟩ := hrep.updateChannel_new (k := k)
    (by rw [Function.update_self]; exact hindex) (by rw [Function.update_self]; exact hfd) hfresh'
    (by rw [Function.update_self]; exact hreq.change i)
  simp only [Function.update_self, Function.update_idem] at hp' hrep' hslots
  exact ⟨p', hp', hrep', hslots⟩

/-- A registered channel writes its new events into its own slot. -/
theorem updateChannel_existing (h : p.Rep channels owners) (hk : k ∈ owners) {events : Events}
    (hreq : Channel.Requested events) :
    ∃ p', p.updateChannel (Function.update channels k ((channels k).setEvents events)) k =
        .ok (p', Function.update channels k ((channels k).setEvents events)) ∧
      p'.Rep (Function.update channels k ((channels k).setEvents events)) owners ∧
      (∀ (i : Nat), (channels k).index ≠ i → p'.pollFds[i]? = p.pollFds[i]?) ∧
      ∀ pfd, p.pollFds[(channels k).index.toNat]? = some pfd → events ≠ Channel.noneEvent →
        ∃ pfd', p'.pollFds[(channels k).index.toNat]? = some pfd' ∧ pfd'.fd = pfd.fd := by
  obtain ⟨i, pfd, hi, hpfd, hindex, hlt⟩ := h.position hk
  have hslot := (h.slot i k pfd hi hpfd).1
  have hfd (j : κ) : (Function.update channels k ((channels k).setEvents events) j).fd =
      (channels j).fd := by
    by_cases hjk : j = k
    · subst hjk
      simp
    · rw [Function.update_of_ne hjk]
  have hidx (j : κ) : (Function.update channels k ((channels k).setEvents events) j).index =
      (channels j).index := by
    by_cases hjk : j = k
    · subst hjk
      simp
    · rw [Function.update_of_ne hjk]
  let slot' : PollFd :=
    { fd := if events == Channel.noneEvent then ignoredFd (channels k).fd else pfd.fd
      events := events.setWidth 16
      revents := 0 }
  refine ⟨⟨p.pollFds.set i slot', p.channelMap⟩, ?_, ?_, ?_, ?_⟩
  · have hneg : ¬ (channels k).index < 0 := by omega
    have htoNat : (channels k).index.toNat = i := by omega
    simp only [updateChannel, Function.update_self, Channel.setEvents_index,
      Channel.setEvents_fd, Channel.setEvents_events, Channel.isNoneEvent, if_neg hneg, htoNat,
      check_bind_of _ (h.contains_of_mem hk), check_bind_of _ (h.map_of_mem hk), hpfd,
      check_bind_of _ hslot]
    by_cases hz : (events == Channel.noneEvent) = true
    · simp only [slot', if_pos hz]
      rfl
    · simp only [slot', if_neg hz]
      rfl
  · constructor
    · exact h.nodup
    · simp [h.length_eq]
    · intro m j hj
      rw [hidx]
      exact h.index_eq m j hj
    · intro m j q hj hq
      rw [hfd]
      by_cases hm : m = i
      · subst hm
        obtain rfl : j = k := Option.some.inj (hj.symm.trans hi)
        rw [List.getElem?_set_self (h.length_eq ▸ hlt)] at hq
        rw [← Option.some.inj hq]
        refine ⟨?_, by simpa [slot'] using hreq.signExtend⟩
        by_cases hz : (events == Channel.noneEvent) = true
        · exact Or.inr (if_pos hz)
        · simpa only [slot', if_neg hz] using hslot
      · rw [List.getElem?_set_ne (Ne.symm hm)] at hq
        have hjk : j ≠ k := by
          rintro rfl
          exact hm (nodup_iff_getElem?_inj.mp h.nodup m i j hj hi)
        rw [Function.update_of_ne hjk]
        exact h.slot m j q hj hq
    · intro fd j
      rw [hfd]
      exact h.map_iff fd j
    · exact h.size_eq
    · intro j hj
      rw [hfd]
      exact h.fd_nonneg j hj
  · intro m hm
    rw [List.getElem?_set_ne]
    omega
  · intro old hold hne
    have htoNat : (channels k).index.toNat = i := by omega
    rw [htoNat] at hold ⊢
    obtain rfl : pfd = old := Option.some.inj (hpfd.symm.trans hold)
    refine ⟨slot', List.getElem?_set_self (h.length_eq ▸ hlt), ?_⟩
    exact if_neg (by simpa using hne)

omit [DecidableEq κ] in
/-- The last channel leaves, and no index changes. -/
theorem swapRemoved_last (h : p.Rep channels owners) {i : Nat} (hi : owners[i]? = some k)
    (hend : i = p.pollFds.length - 1) :
    Rep ⟨p.pollFds.dropLast, p.channelMap.erase (channels k).fd⟩ channels
      (swapRemove owners i) := by
  have hlen := h.length_eq
  rw [dropLast_eq_swapRemove, ← hend]
  apply h.swapRemoved hi (fun _ => rfl) (fun _ => rfl)
  intro m j hj
  obtain ⟨a, ha, hai, ham, hm⟩ := getElem?_of_swapRemove hj
  rcases ham with rfl | ⟨hal, rfl⟩
  · exact h.index_eq a j ha
  · omega

/-- Another channel leaves, and the last one takes its slot and its index. -/
theorem swapRemoved_moved (h : p.Rep channels owners) {i : Nat} (hi : owners[i]? = some k)
    (hend : i < p.pollFds.length - 1) {last : κ}
    (hlast : owners[owners.length - 1]? = some last) :
    Rep ⟨(iterSwap p.pollFds i (p.pollFds.length - 1)).dropLast,
        p.channelMap.erase (channels k).fd⟩
      (Function.update channels last ((channels last).setIndex (channels k).index))
      (swapRemove owners i) := by
  rw [dropLast_iterSwap hend]
  apply h.swapRemoved hi
  · intro j
    by_cases hj : j = last
    · subst hj
      simp
    · rw [Function.update_of_ne hj]
  · intro j
    by_cases hj : j = last
    · subst hj
      simp
    · rw [Function.update_of_ne hj]
  · intro m j hj
    obtain ⟨a, ha, hai, ham, hm⟩ := getElem?_of_swapRemove hj
    rcases ham with rfl | ⟨rfl, rfl⟩
    · have hjl : j ≠ last := by
        rintro rfl
        have := nodup_iff_getElem?_inj.mp h.nodup _ _ _ ha hlast
        omega
      rw [Function.update_of_ne hjl]
      exact h.index_eq a j ha
    · obtain rfl : j = last := Option.some.inj (ha.symm.trans hlast)
      simpa using h.index_eq m k hi

/-- Removing a registered channel without interest frees its slot. Only an
index of another channel may change, and that channel keeps its slot content. -/
theorem removeChannel (h : p.Rep channels owners) (hk : k ∈ owners)
    (hnone : (channels k).events = Channel.noneEvent) :
    ∃ (p' : Poller κ) (channels' : κ → Channel) (i : Nat),
      p.removeChannel channels k = .ok (p', channels') ∧ owners[i]? = some k ∧
      p'.Rep channels' (swapRemove owners i) ∧ p'.pollFds = swapRemove p.pollFds i ∧
      (∀ j, ∃ m, channels' j = (channels j).setIndex m) ∧
      ∀ j, j ∉ owners ∨ j = k → channels' j = channels j := by
  obtain ⟨i, pfd, hi, hpfd, hindex, hlt⟩ := h.position hk
  have hslot := h.slot i k pfd hi hpfd
  have hlen := h.length_eq
  have hnone' : (channels k).isNoneEvent = true := by
    simp [Channel.isNoneEvent, hnone]
  have hrange : 0 ≤ (channels k).index ∧ (channels k).index < p.pollFds.length := by omega
  have htoNat : (channels k).index.toNat = i := by omega
  obtain ⟨back, hback⟩ : ∃ back, p.pollFds[owners.length - 1]? = some back :=
    ⟨_, List.getElem?_eq_getElem (by omega : owners.length - 1 < p.pollFds.length)⟩
  have hgetLast : p.pollFds.getLast? = some back := by
    rw [List.getLast?_eq_getElem?, hlen]
    exact hback
  by_cases hend : i = p.pollFds.length - 1
  · have hlead : p.removeChannel channels k =
        .ok (⟨p.pollFds.dropLast, p.channelMap.erase (channels k).fd⟩, channels) := by
      simp only [Poller.removeChannel, check_bind_of _ (h.contains_of_mem hk),
        check_bind_of _ (h.map_of_mem hk), check_bind_of _ hnone', check_bind_of _ hrange, htoNat,
        hpfd, hgetLast, check_bind_of _ hslot.1.symm, check_bind_of _ hslot.2, if_pos hend]
      rfl
    refine ⟨_, channels, i, hlead, hi, h.swapRemoved_last hi hend, ?_, fun j => ⟨_, rfl⟩,
      fun _ _ => rfl⟩
    simp only [dropLast_eq_swapRemove, ← hend]
  · obtain ⟨last, hlast⟩ : ∃ last, owners[owners.length - 1]? = some last :=
      ⟨_, List.getElem?_eq_getElem (by omega : owners.length - 1 < owners.length)⟩
    have hlastmem := List.mem_of_getElem? hlast
    have hne : last ≠ k := by
      rintro rfl
      have := nodup_iff_getElem?_inj.mp h.nodup _ _ _ hlast hi
      omega
    have hbefore : i < p.pollFds.length - 1 := by omega
    have hmoved : (p.channelMap.erase (channels k).fd)[(channels last).fd]? = some last := by
      rw [Std.ExtTreeMap.getElem?_erase, if_neg, h.map_of_mem hlastmem]
      intro hc
      exact hne (h.fd_inj hlastmem hk (Std.LawfulEqCmp.eq_of_compare hc).symm)
    have hlead : p.removeChannel channels k =
        .ok (⟨(iterSwap p.pollFds i (p.pollFds.length - 1)).dropLast,
          p.channelMap.erase (channels k).fd⟩,
          Function.update channels last ((channels last).setIndex (channels k).index)) := by
      simp only [Poller.removeChannel, check_bind_of _ (h.contains_of_mem hk),
        check_bind_of _ (h.map_of_mem hk), check_bind_of _ hnone', check_bind_of _ hrange, htoNat,
        hpfd, hgetLast, check_bind_of _ hslot.1.symm, check_bind_of _ hslot.2, if_neg hend,
        h.decode_last hlast hback, hmoved]
      rfl
    refine ⟨_, _, i, hlead, hi, h.swapRemoved_moved hi hbefore hlast, dropLast_iterSwap hbefore,
      ?_, ?_⟩
    · intro j
      by_cases hj : j = last
      · subst hj
        exact ⟨_, by rw [Function.update_self]⟩
      · exact ⟨(channels j).index, by rw [Function.update_of_ne hj]; rfl⟩
    · intro j hj
      have hjl : j ≠ last := by
        rintro rfl
        rcases hj with hj | rfl
        · exact hj hlastmem
        · exact hne rfl
      rw [Function.update_of_ne hjl]

omit [DecidableEq κ] in
/-- The slot of a channel before and after the removal of another one. -/
theorem slot_swapRemove (h : p.Rep channels owners) {i : Nat} (hi : owners[i]? = some k)
    {p' : Poller κ} {channels' : κ → Channel} (hrep : p'.Rep channels' (swapRemove owners i))
    (hslots : p'.pollFds = swapRemove p.pollFds i) {j : κ} (hj : j ∈ owners) (hne : j ≠ k) :
    p'.pollFds[(channels' j).index.toNat]? = p.pollFds[(channels j).index.toNat]? := by
  obtain ⟨m, -, hm, -, hindex, -⟩ := h.position hj
  have hmi : m ≠ i := by
    rintro rfl
    exact hne (Option.some.inj (hm.symm.trans hi))
  have hilt := (List.getElem?_eq_some_iff.mp hi).1
  obtain ⟨m', hm', hwhere⟩ := exists_getElem?_swapRemove hm hilt hmi
  have hlt : m' < owners.length - 1 := by
    simpa using (List.getElem?_eq_some_iff.mp hm').1
  rw [hrep.index_eq m' j hm', hindex, hslots, Int.toNat_natCast, Int.toNat_natCast,
    getElem?_swapRemove, h.length_eq, if_pos hlt]
  rcases hwhere with rfl | ⟨rfl, rfl⟩
  · rw [if_neg hmi]
  · rw [if_pos rfl]

end Rep

end Yatwb.Poller
