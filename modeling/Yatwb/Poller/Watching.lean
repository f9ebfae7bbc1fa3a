import Yatwb.Poller.Polling

/-!
# Which channels poll(2) watches

The slot of a channel carries its descriptor or the ignored one. An update of
the interest of another channel, a registration, a removal and an answer of
`poll(2)` keep a slot that carries the descriptor, and so does every update of
the channel itself that leaves it an interest.
-/

namespace Yatwb.Poller

open Foundation

variable {κ : Type}

/-- The slot of the channel carries its descriptor. -/
def Watched (p : Poller κ) (channels : κ → Channel) (k : κ) : Prop :=
  ∃ pfd, p.pollFds[(channels k).index.toNat]? = some pfd ∧ pfd.fd = (channels k).fd

variable {p p' : Poller κ} {channels channels' : κ → Channel} {owners : List κ} {k : κ}

/-- A slot that keeps its descriptor. -/
theorem Watched.keep (h : p.Watched channels k)
    (hfd : (channels' k).fd = (channels k).fd)
    (hslot : ∀ pfd, p.pollFds[(channels k).index.toNat]? = some pfd →
      ∃ pfd', p'.pollFds[(channels' k).index.toNat]? = some pfd' ∧ pfd'.fd = pfd.fd) :
    p'.Watched channels' k := by
  obtain ⟨pfd, hpfd, hsame⟩ := h
  obtain ⟨pfd', hpfd', hsame'⟩ := hslot pfd hpfd
  exact ⟨pfd', hpfd', hsame'.trans (hsame.trans hfd.symm)⟩

/-- A channel that reads the same slot of a poller with the same slots. -/
theorem Watched.congr (h : p.Watched channels k)
    (hindex : (channels' k).index = (channels k).index)
    (hfd : (channels' k).fd = (channels k).fd)
    (hslots : ∀ i, i = (channels k).index.toNat → p'.pollFds[i]? = p.pollFds[i]?) :
    p'.Watched channels' k := by
  apply h.keep hfd
  intro pfd hpfd
  exact ⟨pfd, by rw [hindex, hslots _ rfl, hpfd], rfl⟩

/-- After `poll(2)` the slots carry the same descriptors. -/
theorem Watched.setRevents (h : p.Watched channels k) {reported : List (BitVec 16)}
    (hlen : p.pollFds.length = reported.length)
    (hsame : SameButRevents channels channels') :
    (p.setRevents reported).Watched channels' k := by
  obtain ⟨r, hr⟩ := hsame k
  apply h.keep (by rw [hr]; rfl)
  intro pfd hpfd
  have hlt := (List.getElem?_eq_some_iff.mp hpfd).1
  obtain ⟨word, hword⟩ : ∃ word, reported[(channels k).index.toNat]? = some word :=
    ⟨_, List.getElem?_eq_getElem (hlen ▸ hlt)⟩
  have hindex : (channels' k).index = (channels k).index := by
    rw [hr]
    rfl
  refine ⟨{ pfd with revents := word }, ?_, rfl⟩
  rw [hindex, Poller.setRevents, List.getElem?_zipWith, hpfd, hword]

namespace Rep

variable [DecidableEq κ]

/-- A registered channel asks for other events. -/
theorem change_existing (h : p.Rep channels owners) (hk : k ∈ owners)
    (hreq : Channel.Requested (channels k).events) (i : Channel.Interest) :
    ∃ p', p.updateChannel (Function.update channels k ((channels k).change i)) k =
        .ok (p', Function.update channels k ((channels k).change i)) ∧
      (∀ j ∈ owners, j ≠ k → p.Watched channels j →
        p'.Watched (Function.update channels k ((channels k).change i)) j) ∧
      (i.apply (channels k).events ≠ Channel.noneEvent → p.Watched channels k →
        p'.Watched (Function.update channels k ((channels k).change i)) k) := by
  obtain ⟨p', hp', -, hothers, hown⟩ := h.updateChannel_existing hk (hreq.change i)
  obtain ⟨n, -, hn, -, hindex, -⟩ := h.position hk
  refine ⟨p', hp', ?_, ?_⟩
  · intro j hj hne hwatched
    obtain ⟨m, -, hm, -, hindex', -⟩ := h.position hj
    have hupdate := Function.update_of_ne hne ((channels k).change i) channels
    apply hwatched.congr (by rw [hupdate]) (by rw [hupdate])
    rintro _ rfl
    apply hothers
    intro heq
    have hmn : m = n := by omega
    subst hmn
    exact hne (Option.some.inj (hm.symm.trans hn))
  · intro hsome hwatched
    apply hwatched.keep (by rw [Function.update_self]; rfl)
    intro pfd hpfd
    obtain ⟨pfd', hpfd', hfd'⟩ := hown pfd hpfd hsome
    exact ⟨pfd', by rw [Function.update_self]; exact hpfd', hfd'⟩

/-- A new channel is watched, and a registration moves no slot. -/
theorem change_watches (h : p.Rep channels owners) (hindex : (channels k).index < 0)
    (hslots : p'.pollFds = p.pollFds ++ [⟨(channels k).fd, events, 0⟩]) (events' : Events) :
    (∀ j ∈ owners, p.Watched channels j → p'.Watched
      (Function.update channels k (((channels k).setEvents events').setIndex owners.length)) j) ∧
    p'.Watched
      (Function.update channels k (((channels k).setEvents events').setIndex owners.length)) k := by
  constructor
  · intro j hj hwatched
    have hne : j ≠ k := fun heq => h.not_mem_of_index_neg hindex (heq ▸ hj)
    have hupdate := Function.update_of_ne hne
      (((channels k).setEvents events').setIndex owners.length) channels
    apply hwatched.congr (by rw [hupdate]) (by rw [hupdate])
    rintro _ rfl
    obtain ⟨m, pfd, -, hpfd, hindex', -⟩ := h.position hj
    have hlt := (List.getElem?_eq_some_iff.mp hpfd).1
    rw [hslots, List.getElem?_append_left (by omega)]
  · refine ⟨⟨(channels k).fd, events, 0⟩, ?_, by rw [Function.update_self]; rfl⟩
    rw [Function.update_self, hslots, Channel.setIndex_index, Int.toNat_natCast, ← h.length_eq]
    exact List.getElem?_concat_length

omit [DecidableEq κ] in
/-- The slot of a removed channel goes, and the others are watched as before. -/
theorem swapRemove_watches (h : p.Rep channels owners) {i : Nat} (hi : owners[i]? = some k)
    (hrep : p'.Rep channels' (swapRemove owners i))
    (hslots : p'.pollFds = swapRemove p.pollFds i)
    (hfd : ∀ j, (channels' j).fd = (channels j).fd) {j : κ} (hj : j ∈ owners) (hne : j ≠ k)
    (hwatched : p.Watched channels j) : p'.Watched channels' j := by
  apply hwatched.keep (hfd j)
  intro pfd hpfd
  exact ⟨pfd, (h.slot_swapRemove hi hrep hslots hj hne).trans hpfd, rfl⟩

end Rep

end Yatwb.Poller
