import Yatwb.Poller.Polling

/-!
# A report of one channel

The kernel may answer `poll(2)` with the events of a single channel, where these
were asked for. The channel is then the only active one.
-/

namespace Yatwb.Poller

open Foundation

variable {κ : Type} [DecidableEq κ] {p : Poller κ} {channels : κ → Channel} {owners : List κ}
  {k : κ} {word : BitVec 16}

/-- The words of an answer of `poll(2)` that reports one channel only. -/
def reportOf (owners : List κ) (k : κ) (word : BitVec 16) : List (BitVec 16) :=
  owners.map fun j => if j = k then word else 0

/-- Only the reported channel is dispatched. -/
theorem dispatched_reportOf (hword : word ≠ 0) (owners : List κ) :
    dispatched (reportOf owners k word) owners = owners.filter (· = k) := by
  induction owners with
  | nil => rfl
  | cons j rest ih =>
      rw [reportOf, List.map_cons, ← reportOf, dispatched, ih]
      by_cases heq : j = k
      · simpa [heq] using hword
      · simp [heq]

theorem filter_eq_singleton (hnodup : owners.Nodup) (hk : k ∈ owners) :
    owners.filter (· = k) = [k] := by
  rw [List.filter_eq, List.count_eq_one_of_mem hnodup hk]
  rfl

theorem countP_reportOf (hword : word ≠ 0) (hnodup : owners.Nodup) (hk : k ∈ owners) :
    (reportOf owners k word).countP (· ≠ 0) = 1 := by
  have hsame : ((fun x : BitVec 16 => decide (x ≠ 0)) ∘ fun j => if j = k then word else 0) =
      fun j => decide (j = k) := by
    funext j
    by_cases heq : j = k
    · simpa [heq] using hword
    · simp [heq]
  rw [reportOf, List.countP_map, hsame, List.countP_eq_length_filter, filter_eq_singleton hnodup hk]
  rfl

/-- A `short` can be read back from the `int` it is converted to. -/
theorem setWidth_signExtend (x : BitVec 16) : (x.signExtend 32).setWidth 16 = x := by
  apply BitVec.eq_of_getLsbD_eq
  intro i hi
  have hwide : i < 32 := by omega
  rw [BitVec.getLsbD_setWidth, BitVec.getLsbD_signExtend]
  simp only [hi, hwide, decide_true, Bool.true_and, if_true]

namespace Rep

/-- The kernel may report what one channel has asked for. -/
theorem reportFits (h : p.Rep channels owners) {i : Nat} {pfd : PollFd}
    (hk : owners[i]? = some k) (hpfd : p.pollFds[i]? = some pfd)
    (hfd : 0 ≤ pfd.fd) (hasked : word &&& ~~~(pfd.events ||| 0x38) = 0) :
    List.Forall₂ ReportFits p.pollFds (reportOf owners k word) := by
  apply List.forall₂_iff_get.mpr
  refine ⟨by simp [reportOf, h.length_eq], fun j hj hj' => ?_⟩
  have hlt : j < owners.length := h.length_eq ▸ hj
  have hget : (reportOf owners k word).get ⟨j, hj'⟩ = if owners[j] = k then word else 0 := by
    simp [reportOf]
  rw [hget]
  split
  · rename_i heq
    obtain ⟨hi, howner⟩ := List.getElem?_eq_some_iff.mp hk
    have hij : j = i := (List.Nodup.getElem_inj_iff h.nodup).mp (heq.trans howner.symm)
    subst hij
    rw [List.getElem?_eq_getElem hj] at hpfd
    rw [List.get_eq_getElem, Option.some.inj hpfd]
    exact ⟨hasked, fun hneg => absurd hfd (by omega)⟩
  · exact ⟨by simp, fun _ => rfl⟩

/-- After such an answer the channel is the only active one. -/
theorem poll_reportOf (h : p.Rep channels owners)
    (hfits : List.Forall₂ ReportFits p.pollFds (reportOf owners k word))
    (hk : k ∈ owners) (hpos : 0 < word.toInt) :
    ∃ p' channels', p.poll channels (reportOf owners k word) 1 = .ok (p', channels', [k]) ∧
      SameButRevents channels channels' ∧ (channels' k).revents = word.signExtend 32 := by
  have hword : word ≠ 0 := by
    rintro rfl
    exact absurd hpos (by decide)
  have hwords := map_revents_setRevents hfits.length_eq.symm
  have hslots := h.slots_setRevents (hfits.imp fun _ _ hw => hw.2)
  have hpositive : ∀ pfd ∈ (p.setRevents (reportOf owners k word)).pollFds, pfd.revents ≠ 0 →
      0 < pfd.revents.toInt := by
    intro pfd hpfd hne
    have hmem := List.mem_map_of_mem (f := PollFd.revents) hpfd
    rw [hwords] at hmem
    obtain ⟨j, -, heq⟩ := List.mem_map.mp hmem
    rw [← heq] at hne ⊢
    split
    · exact hpos
    · rename_i hj
      rw [if_neg hj] at hne
      exact absurd rfl hne
  obtain ⟨channels', hfill, -, hstored⟩ := fillActiveChannels_exact
    (p := p.setRevents (reportOf owners k word)) hslots h.nodup hpositive []
    (SameButRevents.refl channels)
  rw [hwords, dispatched_reportOf hword, countP_reportOf hword h.nodup hk,
    filter_eq_singleton h.nodup hk] at hfill
  have hpoll : p.poll channels (reportOf owners k word) 1 =
      .ok (p.setRevents (reportOf owners k word), channels', [k]) := by
    simp only [Poller.poll, Int.zero_lt_one, if_true]
    rw [show ((1 : Nat) : Int) = 1 from rfl] at hfill
    rw [hfill]
    rfl
  refine ⟨_, channels', hpoll, ((poll_frame p channels _ 1).of_eq_ok hpoll).2.1, ?_⟩
  obtain ⟨i, hi⟩ := List.getElem?_of_mem hk
  obtain ⟨hlt, hget⟩ := List.getElem?_eq_some_iff.mp hi
  have hslot : i < (p.setRevents (reportOf owners k word)).pollFds.length :=
    hstored.length_eq ▸ hlt
  have hat := (List.forall₂_iff_get.mp hstored).2 i hslot hlt
  have hrevents : (p.setRevents (reportOf owners k word)).pollFds[i].revents = word := by
    have hreport : (reportOf owners k word)[i]? = some word := by simp [reportOf, hi]
    rw [← hwords, List.getElem?_map, List.getElem?_eq_getElem hslot] at hreport
    exact Option.some.inj hreport
  simp only [List.get_eq_getElem, hget, hrevents, Stored, if_neg hword] at hat
  rw [hat]
  rfl

end Rep

end Yatwb.Poller
