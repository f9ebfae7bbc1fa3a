import Yatwb.Poller.Runs
import Mathlib.Data.List.Forall2

/-!
# What the poller writes to the channels

The functions that register channels write nothing but slot numbers to them,
and `poll` writes nothing but the reported words. Where the containers
represent the registered channels and `poll(2)` reports as it should,
`fillActiveChannels` fails none of its asserts and hands out every channel at
most once, in slot order.
-/

namespace Yatwb.Poller

open Foundation

variable {κ : Type} [DecidableEq κ]

/-- `poll(2)` reports requested events, errors and hang-ups, and ignores the
slots with a negative descriptor. -/
def ReportFits (slot : PollFd) (word : BitVec 16) : Prop :=
  word &&& ~~~(slot.events ||| 0x38) = 0 ∧ (slot.fd < 0 → word = 0)

instance (slot : PollFd) (word : BitVec 16) : Decidable (ReportFits slot word) :=
  inferInstanceAs (Decidable (_ ∧ _))

/-- The slots with a negative descriptor are ignored. -/
def Ignores (slot : PollFd) (word : BitVec 16) : Prop := slot.fd < 0 → word = 0

/-- The channels differ in their slot numbers at most. -/
def SameButIndex (channels channels' : κ → Channel) : Prop :=
  ∀ k, ∃ m, channels' k = (channels k).setIndex m

/-- The channels differ in their reported words at most. -/
def SameButRevents (channels channels' : κ → Channel) : Prop :=
  ∀ k, ∃ r, channels' k = (channels k).setRevents r

/-- What a slot asks `poll(2)` for. -/
def asked (pfd : PollFd) : Int × BitVec 16 := (pfd.fd, pfd.events)

/-- The pollers differ in the words that `poll(2)` stored at most. -/
structure SameButWords (p p' : Poller κ) : Prop where
  slots : p'.pollFds.map asked = p.pollFds.map asked
  map : p'.channelMap = p.channelMap

/-- The map holds a pointer to the channel. -/
def Holds (p : Poller κ) (k : κ) : Prop := ∃ fd : Int, p.channelMap[fd]? = some k

variable {p : Poller κ} {channels : κ → Channel} {owners : List κ}

omit [DecidableEq κ] in
theorem SameButIndex.refl (channels : κ → Channel) : SameButIndex channels channels :=
  fun k => ⟨(channels k).index, rfl⟩

omit [DecidableEq κ] in
theorem SameButRevents.refl (channels : κ → Channel) : SameButRevents channels channels :=
  fun k => ⟨(channels k).revents, rfl⟩

omit [DecidableEq κ] in
theorem SameButRevents.trans {channels channels' channels'' : κ → Channel}
    (h : SameButRevents channels channels') (h' : SameButRevents channels' channels'') :
    SameButRevents channels channels'' := by
  intro k
  obtain ⟨r, hr⟩ := h k
  obtain ⟨r', hr'⟩ := h' k
  exact ⟨r', by rw [hr', hr]; rfl⟩

omit [DecidableEq κ] in
theorem SameButWords.refl (p : Poller κ) : p.SameButWords p := ⟨rfl, rfl⟩

omit [DecidableEq κ] in
theorem SameButWords.trans {p' p'' : Poller κ} (h : p.SameButWords p') (h' : p'.SameButWords p'') :
    p.SameButWords p'' := ⟨h'.slots.trans h.slots, h'.map.trans h.map⟩

omit [DecidableEq κ] in
/-- `poll(2)` stores one word for each slot. -/
theorem sameButWords_setRevents {reported : List (BitVec 16)}
    (hlen : reported.length = p.pollFds.length) : p.SameButWords (p.setRevents reported) := by
  refine ⟨?_, rfl⟩
  apply List.ext_getElem
  · simp [Poller.setRevents, hlen]
  · intro i hi hi'
    simp [Poller.setRevents, asked]

theorem SameButIndex.update (channels : κ → Channel) (k : κ) (m : Int) :
    SameButIndex channels (Function.update channels k ((channels k).setIndex m)) := by
  intro j
  by_cases hj : j = k
  · subst hj
    exact ⟨m, Function.update_self ..⟩
  · rw [Function.update_of_ne hj]
    exact SameButIndex.refl channels j

theorem SameButRevents.update {channels channels' : κ → Channel}
    (h : SameButRevents channels channels') (k : κ) (r : Events) :
    SameButRevents channels (Function.update channels' k ((channels' k).setRevents r)) := by
  intro j
  obtain ⟨r', hr'⟩ := h j
  by_cases hj : j = k
  · subst hj
    refine ⟨r, ?_⟩
    rw [Function.update_self, hr']
    rfl
  · rw [Function.update_of_ne hj]
    exact ⟨r', hr'⟩

/-- A slot of the channel with the descriptor `fd`, ignored or not. -/
def SlotOf (fd : Int) (pfd : PollFd) : Prop := pfd.fd = fd ∨ pfd.fd = ignoredFd fd

/-- An update adds a new channel with its slot, or changes the slot of a known one. -/
theorem updateChannel_ends (p : Poller κ) (channels : κ → Channel) (k : κ) :
    Ends (fun r => SameButIndex channels r.2 ∧
        ((channels k).fd ∉ p.channelMap ∧
            r.1.channelMap = p.channelMap.insertIfNew (channels k).fd k ∧
            (∃ pfd, SlotOf (channels k).fd pfd ∧ r.1.pollFds = p.pollFds ++ [pfd]) ∨
          p.channelMap[(channels k).fd]? = some k ∧ r.1.channelMap = p.channelMap ∧
            ∃ i pfd, SlotOf (channels k).fd pfd ∧ r.1.pollFds = p.pollFds.set i pfd))
      (fun _ => True) (p.updateChannel channels k) := by
  simp only [updateChannel]
  split
  · apply ends_check (fun _ => trivial)
    intro hfree
    refine ⟨SameButIndex.update channels k _, .inl ⟨?_, rfl, _, .inl rfl, rfl⟩⟩
    rw [Std.ExtTreeMap.mem_iff_contains, hfree]
    exact Bool.false_ne_true
  · apply ends_check (fun _ => trivial)
    intro _
    apply ends_check (fun _ => trivial)
    intro hmapped
    split
    · exact trivial
    · apply ends_check (fun _ => trivial)
      intro hslot
      refine ⟨SameButIndex.refl channels, .inr ⟨hmapped, rfl, _, _, ?_, rfl⟩⟩
      split
      · exact .inr rfl
      · exact hslot

theorem updateChannel_frame (p : Poller κ) (channels : κ → Channel) (k : κ) :
    Ends (fun r => SameButIndex channels r.2 ∧ ∀ j, r.1.Holds j → p.Holds j ∨ j = k)
      (fun _ => True) (p.updateChannel channels k) := by
  apply (updateChannel_ends p channels k).mono
  rintro r ⟨hsame, ⟨-, hmap, -⟩ | ⟨-, hmap, -⟩⟩
  · refine ⟨hsame, ?_⟩
    rintro j ⟨fd, hfd⟩
    rw [hmap, Std.ExtTreeMap.getElem?_insertIfNew] at hfd
    split at hfd
    · exact Or.inr (Option.some.inj hfd).symm
    · exact Or.inl ⟨fd, hfd⟩
  · refine ⟨hsame, ?_⟩
    rintro j ⟨fd, hfd⟩
    exact Or.inl ⟨fd, hmap ▸ hfd⟩

/-- After an update the map holds the channel, and what it held before; a slot
is a slot of the channel or has the descriptor of an old one. -/
theorem updateChannel_keeps (p : Poller κ) (channels : κ → Channel) (k : κ) :
    Ends (fun r => r.1.Holds k ∧ (∀ j, p.Holds j → r.1.Holds j) ∧
        ∀ pfd ∈ r.1.pollFds, SlotOf (channels k).fd pfd ∨ ∃ old ∈ p.pollFds, pfd.fd = old.fd)
      (fun _ => True) (p.updateChannel channels k) := by
  apply (updateChannel_ends p channels k).mono
  rintro r ⟨-, ⟨hfree, hmap, new, hslot, hslots⟩ | ⟨hmapped, hmap, i, new, hslot, hslots⟩⟩
  · refine ⟨⟨(channels k).fd, ?_⟩, ?_, ?_⟩
    · rw [hmap, Std.ExtTreeMap.getElem?_insertIfNew, if_pos ⟨Std.ReflCmp.compare_self, hfree⟩]
    · rintro j ⟨fd, hfd⟩
      refine ⟨fd, ?_⟩
      rw [hmap, Std.ExtTreeMap.getElem?_insertIfNew, if_neg, hfd]
      rintro ⟨heq, -⟩
      obtain rfl := Std.LawfulEqCmp.eq_of_compare heq
      rw [Std.ExtTreeMap.mem_iff_isSome_getElem?, hfd] at hfree
      exact hfree rfl
    · intro pfd hpfd
      rw [hslots] at hpfd
      rcases List.mem_append.mp hpfd with hpfd | hpfd
      · exact .inr ⟨pfd, hpfd, rfl⟩
      · exact .inl (List.mem_singleton.mp hpfd ▸ hslot)
  · refine ⟨⟨_, hmap ▸ hmapped⟩, fun j hj => ?_, ?_⟩
    · obtain ⟨fd, hfd⟩ := hj
      exact ⟨fd, hmap ▸ hfd⟩
    · intro pfd hpfd
      rw [hslots] at hpfd
      rcases List.mem_or_eq_of_mem_set hpfd with hpfd | rfl
      · exact .inr ⟨pfd, hpfd, rfl⟩
      · exact .inl hslot

/-- A removal takes the entry of the channel out of the map. -/
theorem removeChannel_ends (p : Poller κ) (channels : κ → Channel) (k : κ) :
    Ends (fun r => SameButIndex channels r.2 ∧ p.channelMap[(channels k).fd]? = some k ∧
        r.1.channelMap = p.channelMap.erase (channels k).fd)
      (fun _ => True) (p.removeChannel channels k) := by
  simp only [Poller.removeChannel]
  apply ends_check (fun _ => trivial)
  intro _
  apply ends_check (fun _ => trivial)
  intro hmapped
  apply ends_check (fun _ => trivial)
  intro _
  apply ends_check (fun _ => trivial)
  intro _
  split
  · apply ends_check (fun _ => trivial)
    intro _
    apply ends_check (fun _ => trivial)
    intro _
    apply ends_check (fun _ => trivial)
    intro _
    split
    · exact ⟨SameButIndex.refl channels, hmapped, rfl⟩
    · split
      · exact trivial
      · exact ⟨SameButIndex.update channels _ _, hmapped, rfl⟩
  · exact trivial

theorem removeChannel_frame (p : Poller κ) (channels : κ → Channel) (k : κ) :
    Ends (fun r => SameButIndex channels r.2 ∧ ∀ j, r.1.Holds j → p.Holds j)
      (fun _ => True) (p.removeChannel channels k) := by
  apply (removeChannel_ends p channels k).mono
  rintro r ⟨hsame, -, hmap⟩
  refine ⟨hsame, ?_⟩
  rintro j ⟨fd, hfd⟩
  rw [hmap, Std.ExtTreeMap.getElem?_erase] at hfd
  split at hfd
  · cases hfd
  · exact ⟨fd, hfd⟩

/-- Removing a channel leaves the others in the map. -/
theorem removeChannel_keeps (p : Poller κ) (channels : κ → Channel) {j k : κ} (hj : j ≠ k)
    (h : p.Holds j) : Ends (fun r => r.1.Holds j) (fun _ => True) (p.removeChannel channels k) := by
  apply (removeChannel_ends p channels k).mono
  rintro r ⟨-, hmapped, hmap⟩
  obtain ⟨fd, hfd⟩ := h
  refine ⟨fd, ?_⟩
  rw [hmap, Std.ExtTreeMap.getElem?_erase, if_neg, hfd]
  intro heq
  obtain rfl := Std.LawfulEqCmp.eq_of_compare heq
  exact hj (Option.some.inj (hfd.symm.trans hmapped))

/-- The loop of `fillActiveChannels` writes reported words only, and takes the
channels from the map. -/
theorem fillActiveChannels_frame (p : Poller κ) {channels : κ → Channel} (slots : List PollFd)
    (numEvents : Int) {active : List κ} {channels' : κ → Channel}
    (h : SameButRevents channels channels') (hactive : ∀ k ∈ active, p.Holds k) :
    Ends (fun r => SameButRevents channels r.1 ∧ ∀ k ∈ r.2, p.Holds k) (fun _ => True)
      (p.fillActiveChannels slots numEvents channels' active) := by
  induction slots generalizing numEvents channels' active with
  | nil => exact ⟨h, hactive⟩
  | cons pfd rest ih =>
      unfold fillActiveChannels
      split
      · split
        · split
          · exact trivial
          · rename_i k hk
            apply ends_check (fun _ => trivial)
            intro _
            apply ih _ (h.update _ _)
            intro j hj
            rcases List.mem_append.mp hj with hj | hj
            · exact hactive j hj
            · exact ⟨pfd.fd, List.mem_singleton.mp hj ▸ hk⟩
        · exact ih _ h hactive
      · exact ⟨h, hactive⟩

theorem poll_frame (p : Poller κ) (channels : κ → Channel) (reported : List (BitVec 16))
    (numEvents : Int) :
    Ends (fun r => r.1.channelMap = p.channelMap ∧ SameButRevents channels r.2.1 ∧
        ∀ k ∈ r.2.2, p.Holds k) (fun _ => True)
      (p.poll channels reported numEvents) := by
  unfold poll
  split
  · apply (fillActiveChannels_frame _ _ _ (SameButRevents.refl channels) (by simp)).bind
    intro r hr
    exact ⟨rfl, hr⟩
  · exact ⟨rfl, SameButRevents.refl channels, by simp⟩

theorem poll_words (p : Poller κ) (channels : κ → Channel) {reported : List (BitVec 16)}
    (hlen : reported.length = p.pollFds.length) (numEvents : Int) :
    Ends (fun r => p.SameButWords r.1) (fun _ => True) (p.poll channels reported numEvents) := by
  unfold poll
  split
  · exact (ends_any _).bind fun _ _ => sameButWords_setRevents hlen
  · exact sameButWords_setRevents hlen

/-- `poll` keeps the descriptors of its slots. -/
theorem poll_slots (p : Poller κ) (channels : κ → Channel) (reported : List (BitVec 16))
    (numEvents : Int) :
    Ends (fun r => ∀ pfd ∈ r.1.pollFds, ∃ old ∈ p.pollFds, pfd.fd = old.fd) (fun _ => True)
      (p.poll channels reported numEvents) := by
  have hslots : ∀ pfd ∈ (p.setRevents reported).pollFds, ∃ old ∈ p.pollFds, pfd.fd = old.fd := by
    intro pfd hpfd
    obtain ⟨i, hi⟩ := List.mem_iff_getElem?.mp hpfd
    obtain ⟨old, r, hold, -, rfl⟩ := List.getElem?_zipWith_eq_some.mp hi
    exact ⟨old, List.mem_of_getElem? hold, rfl⟩
  unfold poll
  split
  · exact (ends_any _).bind fun _ _ => hslots
  · exact hslots

namespace Rep

/-- A slot with a reported word belongs to the channel at its position. -/
def SlotOf (p : Poller κ) (channels : κ → Channel) (pfd : PollFd) (k : κ) : Prop :=
  p.channelMap[(channels k).fd]? = some k ∧
    (0 < pfd.revents.toInt → pfd.fd = (channels k).fd)

/-- From slots that belong to the channels of `rest`, `fillActiveChannels`
takes a sublist of `rest`. -/
theorem fillActiveChannels_slots {slots : List PollFd} {rest : List κ}
    (h : List.Forall₂ (SlotOf p channels) slots rest) (numEvents : Int) (active : List κ)
    {channels' : κ → Channel} (hsame : SameButRevents channels channels') :
    ∃ channels'' taken, p.fillActiveChannels slots numEvents channels' active =
        .ok (channels'', active ++ taken) ∧ taken.Sublist rest := by
  induction h generalizing numEvents active channels' with
  | nil =>
      exact ⟨channels', [], by simp [fillActiveChannels, pure, Except.pure], List.nil_sublist _⟩
  | @cons pfd k slots rest hslot _ ih =>
      unfold fillActiveChannels
      by_cases hnum : 0 < numEvents
      · rw [if_pos hnum]
        by_cases hword : 0 < pfd.revents.toInt
        · have hfd : pfd.fd = (channels k).fd := hslot.2 hword
          have hfd' : (channels' k).fd = pfd.fd := by
            obtain ⟨r, hr⟩ := hsame k
            rw [hr, hfd]
            rfl
          have hmap : p.channelMap[pfd.fd]? = some k := by rw [hfd, hslot.1]
          obtain ⟨channels'', taken, hfill, hsub⟩ := ih (numEvents - 1) (active ++ [k])
            (hsame.update k (pfd.revents.signExtend 32))
          refine ⟨channels'', k :: taken, ?_, hsub.cons_cons k⟩
          rw [if_pos hword]
          simp only [hmap, check_bind_of _ hfd', hfill, List.append_assoc, List.singleton_append]
        · obtain ⟨channels'', taken, hfill, hsub⟩ := ih numEvents active hsame
          refine ⟨channels'', taken, ?_, hsub.cons k⟩
          rw [if_neg hword, hfill]
      · refine ⟨channels', [], ?_, List.nil_sublist _⟩
        simp [hnum, pure, Except.pure]

omit [DecidableEq κ] in
/-- The words that `poll(2)` stored do not matter. -/
theorem reworded {p' : Poller κ} (h : p.Rep channels owners) (hp : p.SameButWords p') :
    p'.Rep channels owners where
  nodup := h.nodup
  length_eq := by
    rw [← h.length_eq, ← List.length_map asked, hp.slots, List.length_map]
  index_eq := h.index_eq
  slot i k pfd hk hpfd := by
    have hasked : (p.pollFds.map asked)[i]? = some (asked pfd) := by
      rw [← hp.slots, List.getElem?_map, hpfd]
      rfl
    rw [List.getElem?_map] at hasked
    obtain ⟨old, hold, heq⟩ := Option.map_eq_some_iff.mp hasked
    obtain ⟨hfd, hevents⟩ := Prod.mk.inj heq
    rw [← hfd, ← hevents]
    exact h.slot i k old hk hold
  map_iff fd k := by
    rw [hp.map]
    exact h.map_iff fd k
  size_eq := by
    rw [hp.map]
    exact h.size_eq
  fd_nonneg := h.fd_nonneg

omit [DecidableEq κ] in
/-- Nor do the words that the channels have been given. -/
theorem reported (h : p.Rep channels owners) {channels' : κ → Channel}
    (hsame : SameButRevents channels channels') : p.Rep channels' owners := by
  apply h.congr <;> intro k _ <;> obtain ⟨r, hr⟩ := hsame k <;> rw [hr] <;> rfl

omit [DecidableEq κ] in
/-- After `poll(2)` the containers represent the same channels. -/
theorem setRevents (h : p.Rep channels owners) {reported : List (BitVec 16)}
    (hlen : reported.length = p.pollFds.length) :
    (p.setRevents reported).Rep channels owners :=
  h.reworded (sameButWords_setRevents hlen)

omit [DecidableEq κ] in
/-- The stored words belong to the channels at their positions. -/
theorem slots_setRevents (h : p.Rep channels owners) {reported : List (BitVec 16)}
    (hfit : List.Forall₂ Ignores p.pollFds reported) :
    List.Forall₂ (SlotOf p channels) (p.setRevents reported).pollFds owners := by
  have hlen : (p.setRevents reported).pollFds.length = owners.length := by
    simp [Poller.setRevents, ← hfit.length_eq, h.length_eq]
  apply List.forall₂_iff_get.mpr
  refine ⟨hlen, ?_⟩
  intro i hi hk
  have hpfd := List.getElem?_eq_getElem hi
  have howner := List.getElem?_eq_getElem hk
  obtain ⟨old, word, hold, hword, heq⟩ := List.getElem?_zipWith_eq_some.mp hpfd
  have hfits : Ignores old word := by
    obtain ⟨hi', hold⟩ := List.getElem?_eq_some_iff.mp hold
    obtain ⟨hj', hword⟩ := List.getElem?_eq_some_iff.mp hword
    have hat := (List.forall₂_iff_get.mp hfit).2 i hi' hj'
    simpa [hold, hword] using hat
  have hmem : owners[i] ∈ owners := List.getElem_mem hk
  refine ⟨h.map_of_mem hmem, ?_⟩
  intro hpos
  simp only [List.get_eq_getElem] at hpos ⊢
  rw [← heq] at hpos ⊢
  rcases (h.slot i _ old howner hold).1 with hfd | hfd
  · exact hfd
  · have hnonneg := h.fd_nonneg _ hmem
    have hneg : old.fd < 0 := by
      simp only [hfd, ignoredFd]
      omega
    simp [hfits hneg] at hpos

/-- `poll` fails none of its asserts and hands out registered channels, each
at most once and in slot order. -/
theorem poll (h : p.Rep channels owners) {reported : List (BitVec 16)}
    (hfit : List.Forall₂ ReportFits p.pollFds reported) (numEvents : Int) :
    ∃ p' channels' active, p.poll channels reported numEvents = .ok (p', channels', active) ∧
      p'.Rep channels' owners ∧ SameButRevents channels channels' ∧ active.Sublist owners := by
  have hrep := h.setRevents (hfit.length_eq.symm)
  have hsame := poll_frame p channels reported numEvents
  by_cases hnum : 0 < numEvents
  · obtain ⟨channels', taken, hfill, hsub⟩ := fillActiveChannels_slots
      (p := p.setRevents reported) (h.slots_setRevents (hfit.imp fun _ _ hw => hw.2)) numEvents []
      (SameButRevents.refl channels)
    have hpoll : p.poll channels reported numEvents =
        .ok (p.setRevents reported, channels', taken) := by
      simp only [Poller.poll, if_pos hnum, hfill]
      rfl
    have hs := (hsame.of_eq_ok hpoll).2.1
    exact ⟨_, channels', taken, hpoll, hrep.reported hs, hs, hsub⟩
  · have hpoll : p.poll channels reported numEvents =
        .ok (p.setRevents reported, channels, []) := by
      simp only [Poller.poll, if_neg hnum]
      rfl
    exact ⟨_, channels, [], hpoll, hrep, SameButRevents.refl channels, List.nil_sublist _⟩

end Rep

/-- `poll(2)` answers as its contract says: nothing for an ignored slot, a
positive word where there are events, and the number of such words. -/
structure Answers (p : Poller κ) (reported : List (BitVec 16)) (numEvents : Int) : Prop where
  ignored : List.Forall₂ Ignores p.pollFds reported
  positive : ∀ word ∈ reported, word ≠ 0 → 0 < word.toInt
  count : numEvents = reported.countP (· ≠ 0)

/-- The channels whose slot has a word, in slot order. -/
def dispatched : List (BitVec 16) → List κ → List κ
  | word :: words, k :: rest =>
      if word = 0 then dispatched words rest else k :: dispatched words rest
  | _, _ => []

/-- The channel of a slot after the word of the slot has been stored. -/
def Stored (channels channels' : κ → Channel) (word : BitVec 16) (k : κ) : Prop :=
  channels' k = if word = 0 then channels k else (channels k).setRevents (word.signExtend 32)

omit [DecidableEq κ] in
theorem dispatched_sublist (words : List (BitVec 16)) (rest : List κ) :
    (dispatched words rest).Sublist rest := by
  fun_induction dispatched words rest with
  | case1 words k rest ih => exact ih.cons k
  | case2 word words k rest hword ih => exact ih.cons_cons k
  | case3 => exact List.nil_sublist _

omit [DecidableEq κ] in
/-- A channel is dispatched exactly when its slot has a word. -/
theorem mem_dispatched {words : List (BitVec 16)} {rest : List κ} (hnodup : rest.Nodup) {i : Nat}
    {word : BitVec 16} {k : κ} (hword : words[i]? = some word) (hk : rest[i]? = some k) :
    k ∈ dispatched words rest ↔ word ≠ 0 := by
  fun_induction dispatched words rest generalizing i with
  | case1 words k' rest ih =>
      obtain ⟨hout, hnodup⟩ := List.nodup_cons.mp hnodup
      cases i with
      | zero =>
          obtain rfl : 0 = word := Option.some.inj hword
          obtain rfl : k' = k := Option.some.inj hk
          constructor
          · intro hmem
            exact absurd ((dispatched_sublist words rest).subset hmem) hout
          · exact fun hne => absurd rfl hne
      | succ i => exact ih hnodup hword hk
  | case2 word' words k' rest hnonzero ih =>
      obtain ⟨hout, hnodup⟩ := List.nodup_cons.mp hnodup
      cases i with
      | zero =>
          obtain rfl : word' = word := Option.some.inj hword
          obtain rfl : k' = k := Option.some.inj hk
          exact iff_of_true (List.mem_cons_self ..) hnonzero
      | succ i =>
          have hne : k ≠ k' := by
            rintro rfl
            exact hout (List.mem_of_getElem? hk)
          rw [List.mem_cons, or_iff_right hne]
          exact ih hnodup hword hk
  | case3 words rest hnone =>
      cases words with
      | nil => simp at hword
      | cons word' words =>
          cases rest with
          | nil => simp at hk
          | cons k' rest => exact (hnone word' words k' rest rfl rfl).elim

/-- Without events left, the loop stops. -/
theorem fillActiveChannels_zero (p : Poller κ) (slots : List PollFd) (channels : κ → Channel)
    (active : List κ) : p.fillActiveChannels slots 0 channels active = .ok (channels, active) := by
  cases slots with
  | nil => rfl
  | cons pfd rest => rfl

/-- With as many events as words are left, the loop finds all of them. -/
theorem fillActiveChannels_exact {slots : List PollFd} {rest : List κ}
    (h : List.Forall₂ (Rep.SlotOf p channels) slots rest) (hnodup : rest.Nodup)
    (hpos : ∀ pfd ∈ slots, pfd.revents ≠ 0 → 0 < pfd.revents.toInt) (active : List κ)
    {channels' : κ → Channel} (hsame : SameButRevents channels channels') :
    ∃ channels'', p.fillActiveChannels slots
        ((slots.map PollFd.revents).countP (· ≠ 0) : Nat) channels' active =
          .ok (channels'', active ++ dispatched (slots.map PollFd.revents) rest) ∧
      (∀ k, k ∉ rest → channels'' k = channels' k) ∧
      List.Forall₂ (fun pfd k => Stored channels' channels'' pfd.revents k) slots rest := by
  induction h generalizing active channels' with
  | nil => exact ⟨channels', by simp [fillActiveChannels, dispatched, pure, Except.pure], by simp⟩
  | @cons pfd k slots rest hslot _ ih =>
      obtain ⟨hout, hnodup⟩ := List.nodup_cons.mp hnodup
      have hpos' := fun pfd' hmem => hpos pfd' (List.mem_cons_of_mem pfd hmem)
      by_cases hzero : pfd.revents = 0
      · obtain ⟨channels'', hfill, hothers, hstored⟩ := ih hnodup hpos' active hsame
        have hcount : ((pfd :: slots).map PollFd.revents).countP (· ≠ 0) =
            (slots.map PollFd.revents).countP (· ≠ 0) := by
          simp [hzero]
        have hnone : ¬ 0 < pfd.revents.toInt := by
          rw [hzero]
          decide
        refine ⟨channels'', ?_, fun k' hk' => hothers k' fun hmem => hk' ?_, ?_⟩
        · rw [hcount, List.map_cons, dispatched, if_pos hzero, ← hfill, fillActiveChannels,
            if_neg hnone]
          split
          · rfl
          · rename_i hleft
            have hdone : ((slots.map PollFd.revents).countP (· ≠ 0) : Int) = 0 := by omega
            rw [hdone, fillActiveChannels_zero]
            rfl
        · exact List.mem_cons_of_mem _ hmem
        · refine List.Forall₂.cons ?_ hstored
          rw [Stored, if_pos hzero]
          exact hothers k hout
      · have hword : 0 < pfd.revents.toInt := hpos pfd (List.mem_cons_self ..) hzero
        have hfd : pfd.fd = (channels k).fd := hslot.2 hword
        have hfd' : (channels' k).fd = pfd.fd := by
          obtain ⟨r, hr⟩ := hsame k
          rw [hr, hfd]
          rfl
        have hmap : p.channelMap[pfd.fd]? = some k := by rw [hfd, hslot.1]
        obtain ⟨channels'', hfill, hothers, hstored⟩ := ih hnodup hpos' (active ++ [k])
          (hsame.update k (pfd.revents.signExtend 32))
        have hcons : ((pfd :: slots).map PollFd.revents).countP (· ≠ 0) =
            (slots.map PollFd.revents).countP (· ≠ 0) + 1 :=
          List.countP_cons_of_pos (decide_eq_true hzero)
        have hcount : (((pfd :: slots).map PollFd.revents).countP (· ≠ 0) : Int) - 1 =
            (slots.map PollFd.revents).countP (· ≠ 0) := by omega
        have hleft : (0 : Int) < ((pfd :: slots).map PollFd.revents).countP (· ≠ 0) := by omega
        refine ⟨channels'', ?_, ?_, List.Forall₂.cons ?_ ?_⟩
        · rw [fillActiveChannels, if_pos hleft, if_pos hword, hcount, List.map_cons, dispatched,
            if_neg hzero]
          simp only [hmap, check_bind_of _ hfd', hfill, List.append_assoc, List.singleton_append]
        · intro k' hk'
          rw [List.mem_cons, not_or] at hk'
          rw [hothers k' hk'.2, Function.update_of_ne hk'.1]
        · rw [Stored, if_neg hzero, hothers k hout, Function.update_self]
        · apply List.forall₂_iff_get.mpr
          obtain ⟨hlen, hat⟩ := List.forall₂_iff_get.mp hstored
          refine ⟨hlen, fun i hi hk => ?_⟩
          have hne : rest.get ⟨i, hk⟩ ≠ k := fun heq => hout (heq ▸ List.get_mem ..)
          have hi' := hat i hi hk
          rw [Stored, Function.update_of_ne hne] at hi'
          exact hi'

omit [DecidableEq κ] in
theorem map_revents_setRevents {reported : List (BitVec 16)}
    (hlen : reported.length = p.pollFds.length) :
    (p.setRevents reported).pollFds.map PollFd.revents = reported := by
  apply List.ext_getElem
  · simp [Poller.setRevents, hlen]
  · intro i hi hi'
    simp [Poller.setRevents]

/-- Dispatch is exact: after an answer of `poll(2)` the channels whose slot has
a word, and no others, are appended in slot order and get that word. -/
theorem dispatch_exact (h : p.Rep channels owners) {reported : List (BitVec 16)}
    {numEvents : Int} (ha : Answers p reported numEvents) (active : List κ) :
    ∃ channels', (p.setRevents reported).fillActiveChannels (p.setRevents reported).pollFds
        numEvents channels active = .ok (channels', active ++ dispatched reported owners) ∧
      (dispatched reported owners).Sublist owners ∧ (dispatched reported owners).Nodup ∧
      (∀ (i : Nat) k word, owners[i]? = some k → reported[i]? = some word →
        (k ∈ dispatched reported owners ↔ word ≠ 0) ∧ Stored channels channels' word k) ∧
      ∀ k, k ∉ owners → channels' k = channels k := by
  have hlen : reported.length = p.pollFds.length := ha.ignored.length_eq.symm
  have hwords := map_revents_setRevents hlen
  have hpos : ∀ pfd ∈ (p.setRevents reported).pollFds, pfd.revents ≠ 0 →
      0 < pfd.revents.toInt := by
    intro pfd hpfd
    apply ha.positive
    rw [← hwords]
    exact List.mem_map_of_mem hpfd
  obtain ⟨channels', hfill, hothers, hstored⟩ := fillActiveChannels_exact
    (p := p.setRevents reported) (h.slots_setRevents ha.ignored) h.nodup hpos active
    (SameButRevents.refl channels)
  rw [hwords, ← ha.count] at hfill
  have hsub := dispatched_sublist reported owners
  refine ⟨channels', hfill, hsub, hsub.nodup h.nodup, ?_, hothers⟩
  intro i k word hk hword
  refine ⟨mem_dispatched h.nodup hword hk, ?_⟩
  obtain ⟨hi, hget⟩ := List.getElem?_eq_some_iff.mp hk
  have hslot : i < (p.setRevents reported).pollFds.length := hstored.length_eq ▸ hi
  have hat := (List.forall₂_iff_get.mp hstored).2 i hslot hi
  have hrevents : (p.setRevents reported).pollFds[i].revents = word := by
    have hmap := congrArg (·[i]?) hwords
    simp only [List.getElem?_map, List.getElem?_eq_getElem hslot, hword] at hmap
    exact Option.some.inj hmap
  simp only [List.get_eq_getElem, hget, hrevents] at hat
  exact hat

section Example

open PollerRuns (State Call machine Permitted)

/-- Five channels with the descriptors `3` to `7`. -/
def fiveChannels : State (Fin 5) where
  poller := new
  channels k := Channel.new 0 (k.val + 3) 0
  status _ := .unused

/-- All ask for input, and the third loses its interest again. -/
def fiveCalls : List (Call (Fin 5)) :=
  [.change 0 .enableReading, .change 1 .enableReading, .change 2 .enableReading,
    .change 3 .enableReading, .change 4 .enableReading, .change 2 .disableAllEvents]

/-- Slot numbers in order tell who owns which slot. -/
theorem Rep.eq_finRange {n : Nat} {p : Poller (Fin n)} {channels : Fin n → Channel}
    {owners : List (Fin n)} (h : p.Rep channels owners) (hlength : p.pollFds.length = n)
    (hindex : ∀ k, (channels k).index = k.val) : owners = List.finRange n := by
  have hlen : owners.length = n := h.length_eq.symm.trans hlength
  apply List.ext_getElem
  · rw [hlen, List.length_finRange]
  · intro i hi hi'
    have hi₁ := (hindex owners[i]).symm.trans (h.index_eq i _ (List.getElem?_eq_getElem hi))
    apply Fin.ext
    rw [List.getElem_finRange]
    exact Int.ofNat.inj hi₁

/-- The registrations of the five, with the slot of the third ignored. -/
theorem registered_five : ∃ (p : Poller (Fin 5)) (channels : Fin 5 → Channel),
    p.Rep channels (List.finRange 5) ∧ p.pollFds.map PollFd.fd = [3, 4, -6, 6, 7] := by
  obtain ⟨s, hs, hp⟩ := Machine.exists_reach (whileRunning Permitted) (M := machine (Fin 5))
    ⟨fiveChannels, rfl, rfl, fun _ => ⟨rfl, rfl, rfl⟩⟩ fiveCalls
    (fun s => match s with
      | .ok r => r.poller.pollFds.map PollFd.fd = [3, 4, -6, 6, 7] ∧
          ∀ k, (r.channels k).index = k.val
      | .error _ => false) (by decide +kernel)
  obtain ⟨r, rfl, hinv⟩ := faultless (fun _ => PollerRuns.inv_of_initial)
    (fun _ _ => PollerRuns.inv_step) hs
  obtain ⟨hfds, hindex⟩ := of_decide_eq_true hp
  have hlength : r.poller.pollFds.length = 5 := by
    rw [← List.length_map, hfds]
    rfl
  obtain ⟨owners, hrep, -⟩ := hinv.rep
  rw [hrep.eq_finRange hlength hindex] at hrep
  exact ⟨r.poller, r.channels, hrep, hfds⟩

/-- Of five slots one is ignored and two have a word; the loop stops before the last. -/
theorem dispatch_exact_five : ∃ (p : Poller (Fin 5)) (channels channels' : Fin 5 → Channel),
    p.pollFds.map PollFd.fd = [3, 4, -6, 6, 7] ∧
    (p.setRevents [1, 0, 0, 5, 0]).fillActiveChannels
      (p.setRevents [1, 0, 0, 5, 0]).pollFds 2 channels [] = .ok (channels', [0, 3]) ∧
    (channels' 0).revents = 1 ∧ (channels' 3).revents = 5 ∧
    ∀ k ∈ [1, 2, 4], channels' k = channels k := by
  obtain ⟨p, channels, hrep, hfds⟩ := registered_five
  have hignored : List.Forall₂ (fun (fd : Int) (word : BitVec 16) => fd < 0 → word = 0)
      (p.pollFds.map PollFd.fd) [1, 0, 0, 5, 0] := by
    rw [hfds]
    decide
  have hanswers : Answers p [1, 0, 0, 5, 0] 2 := by
    constructor
    · have hslots := List.forall₂_map_left_iff.mp hignored
      exact hslots
    · simp
    · rfl
  obtain ⟨channels', hfill, -, -, hslots, -⟩ := dispatch_exact hrep hanswers []
  have hword (k : Fin 5) {word : BitVec 16} (hk : [1, 0, 0, 5, 0][k.val]? = some word) :
      Stored channels channels' word k := by
    refine (hslots k.val k word ?_ hk).2
    rw [List.getElem?_eq_getElem (by simp), List.getElem_finRange]
    rfl
  refine ⟨p, channels, channels', hfds, hfill, ?_, ?_, ?_⟩
  · rw [hword 0 rfl]
    rfl
  · rw [hword 3 rfl]
    rfl
  · simp only [List.forall_mem_cons]
    exact ⟨hword 1 rfl, hword 2 rfl, hword 4 rfl, by simp⟩

end Example

end Yatwb.Poller
