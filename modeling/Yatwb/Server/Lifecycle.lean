import Yatwb.Server.Steps

/-!
# The life of a connection

In a server without pool threads the events of a connection come in one order:
`connection_cb_` in state `connected`, messages, `handleClose` with
`removeConnection`, and `destroyConnection` with the second `connection_cb_`.
The order is kept as long as no word with a hang-up and without input is
followed by a read that succeeds: `handleEvents` runs the close callback for
such a word, and goes on to the read callback when the word has `POLLPRI`.

## Implementation notes

The invariant says which part of its life each connection is in, and that what
`loop` has yet to dispatch belongs to connections that have not been closed.
-/

namespace Yatwb

open Foundation

namespace Event

/-- The event belongs to the life of the connection `c`. -/
def concerns (c : Nat) : Event → Bool
  | connectionCb c' _ => c' == c
  | messageCb c' => c' == c
  | handleClose c' => c' == c
  | removeConnection c' => c' == c
  | destroyConnection c' => c' == c
  | removeChannel _ _ => false

/-- A connection with `n` messages. -/
def opening (c n : Nat) : List Event :=
  .connectionCb c .connected :: List.replicate n (.messageCb c)

/-- The connection has been closed. -/
def closing (c n : Nat) : List Event := opening c n ++ [.handleClose c, .removeConnection c]

/-- The connection has been destroyed. -/
def life (c n : Nat) : List Event :=
  closing c n ++ [.destroyConnection c, .connectionCb c .disconnected]

theorem opening_prefix (c n : Nat) : opening c n <+: life c n :=
  (List.prefix_append _ _).trans (List.prefix_append _ _)

theorem closing_prefix (c n : Nat) : closing c n <+: life c n := List.prefix_append _ _

theorem opening_succ (c n : Nat) : opening c n ++ [.messageCb c] = opening c (n + 1) := by
  rw [opening, opening, List.replicate_succ', List.cons_append]

end Event

namespace Channel

/-- The condition of the close callback. -/
def hangUp (word : Events) : Bool := word.has Events.pollHup && !word.has Events.pollIn

/-- The callbacks run in one order. -/
theorem handleEvents_sublist (word : Events) :
    (handleEvents word).Sublist [.close, .error, .read, .write] := by
  have hsingle (p : Bool) (cb : Callback) : (if p then [cb] else []).Sublist [cb] := by
    cases p
    · exact List.nil_sublist _
    · exact List.Sublist.refl _
  exact (((hsingle _ .close).append (hsingle _ .error)).append (hsingle _ .read)).append
    (hsingle _ .write)

theorem hangUp_of_close {word : Events} (h : .close ∈ handleEvents word) : hangUp word = true := by
  by_contra hup
  rw [hangUp] at hup
  simp [handleEvents, hup] at h

/-- Close comes first. -/
theorem close_not_mem {callbacks : List Callback}
    (h : (.close :: callbacks).Sublist [.close, .error, .read, .write]) :
    .close ∉ callbacks := by
  have htail : callbacks.Sublist [.error, .read, .write] := List.cons_sublist_cons.mp h
  intro hmem
  simpa using htail.subset hmem

/-- Only the write callback comes after the read callback. -/
theorem mem_after_read {callbacks : List Callback}
    (h : (.read :: callbacks).Sublist [.close, .error, .read, .write]) {cb : Callback}
    (hmem : cb ∈ callbacks) : cb = .write := by
  have hclose : (.read :: callbacks).Sublist [.error, .read, .write] :=
    (List.sublist_cons_iff.mp h).resolve_right (by rintro ⟨r, hr, -⟩; cases hr)
  have herror : (.read :: callbacks).Sublist [.read, .write] :=
    (List.sublist_cons_iff.mp hclose).resolve_right (by rintro ⟨r, hr, -⟩; cases hr)
  simpa using (List.cons_sublist_cons.mp herror).subset hmem

end Channel

namespace World

/-- The events of one connection, in order. -/
def story (w : World) (c : Nat) : List Event := w.trace.filter (Event.concerns c)

/-- `connections_` has an entry for the connection. -/
def Listed (w : World) (c : Nat) : Prop := ∃ name : String, w.server.connections[name]? = some c

/-- Every connection is in one part of its life. -/
structure Told (w : World) : Prop where
  unborn : ∀ c, w.nextObj ≤ c → w.story c = []
  live : ∀ c, Listed w c → ∃ n, w.story c = Event.opening c n
  closing : ∀ c ∈ w.dying, ∃ n, w.story c = Event.closing c n
  gone : ∀ c < w.nextObj, ¬ Listed w c → c ∉ w.dying → ∃ n, w.story c = Event.life c n

/-- What is left of the callbacks of a channel whose connection may have been
closed by an earlier one. -/
structure Current (dying : List Nat) (word : Events) (c : Nat)
    (callbacks : List Channel.Callback) : Prop where
  hangsUp : .close ∈ callbacks → Channel.hangUp word = true
  close : c ∈ dying → .close ∉ callbacks
  read : c ∈ dying → .read ∈ callbacks → Channel.hangUp word = true

/-- The channels that `loop` has yet to dispatch are those of connections that
have not been closed. -/
def Serves (dying : List Nat) (words : ChannelRef → Events) : Phase → Prop
  | .dispatching active => active.Nodup ∧ ∀ c, .conn c ∈ active → c ∉ dying
  | .handling ref callbacks active => (ref :: active).Nodup ∧
      (∀ c, .conn c ∈ active → c ∉ dying) ∧
      callbacks.Sublist [.close, .error, .read, .write] ∧
      ∀ c, ref = .conn c → Current dying (words ref) c callbacks
  | _ => True

/-- The words that `poll(2)` reported last. -/
def words (w : World) (ref : ChannelRef) : Events := (w.channels ref).revents

/-- The invariant behind the order of events. -/
structure Life (w : World) : Prop where
  told : Told w
  serves : Serves w.dying w.words (w.reactors 0).phase
  settled : (w.reactors 0).phase.iterating = false →
    (w.reactors 0).event.pendingFunctors.filterMap Functor.destroys = []

variable {w w' : World} {owners : List ChannelRef}

/-- The dying connections are those of the pending and of the executed batch. -/
theorem dying_eq (w : World) : w.dying =
    (w.reactors 0).event.pendingFunctors.filterMap Functor.destroys ++
      (w.reactors 0).phase.rest.filterMap Functor.destroys := by
  rw [dying, waiting, List.filterMap_append]

theorem Told.congr (h : Told w) (hnext : w'.nextObj = w.nextObj)
    (hlisted : ∀ c, Listed w' c ↔ Listed w c) (hdying : w'.dying = w.dying)
    (htrace : w'.trace = w.trace) : Told w' where
  unborn c hc := by
    rw [story, htrace]
    exact h.unborn c (hnext ▸ hc)
  live c hc := by
    rw [story, htrace]
    exact h.live c ((hlisted c).mp hc)
  closing c hc := by
    rw [story, htrace]
    exact h.closing c (hdying ▸ hc)
  gone c hc hout hdead := by
    rw [story, htrace]
    rw [hnext] at hc
    rw [hlisted] at hout
    rw [hdying] at hdead
    exact h.gone c hc hout hdead

theorem Told.steady (h : Told w) (hs : Steady w w') : Told w' :=
  h.congr hs.nextObj (fun c => by rw [Listed, Listed, hs.connections]) hs.dying hs.trace

theorem Told.quiet (h : Told w) (hq : Quiet w w') : Told w' :=
  h.congr hq.nextObj (fun c => by rw [Listed, Listed, hq.server]) hq.dying hq.trace

/-- Nothing is about to be destroyed when `loop` polls. -/
theorem Life.dying_eq_nil (h : Life w) (hiter : (w.reactors 0).phase.iterating = false)
    (hrest : (w.reactors 0).phase.rest = []) : w.dying = [] := by
  rw [dying_eq, h.settled hiter, hrest]
  rfl

theorem Life.stay (h : Life w) (hs : Steady w w')
    (hphase : (w'.reactors 0).phase = (w.reactors 0).phase)
    (hwords : ∀ ref, (w'.channels ref).revents = (w.channels ref).revents) : Life w' where
  told := h.told.steady hs
  serves := by
    have heq : w'.words = w.words := funext hwords
    rw [hs.dying, hphase, heq]
    exact h.serves
  settled hiter := by
    have hdying := hs.dying
    rw [dying_eq, dying_eq, hphase] at hdying
    rw [List.append_cancel_right hdying]
    exact h.settled (hphase ▸ hiter)

/-- A step of `loop` itself. -/
theorem Life.move (h : Life w) (hs : Steady w w')
    (hmove : Phase.Move owners w'.words (w.reactors 0).event.pendingFunctors
      (w.reactors 0).phase (w'.reactors 0).phase) : Life w' := by
  refine ⟨h.told.steady hs, ?_, ?_⟩
  · rw [hs.dying]
    have hserves := h.serves
    have hidle := h.dying_eq_nil
    generalize (w.reactors 0).phase = phase at hmove hserves hidle
    generalize (w'.reactors 0).phase = phase' at hmove
    cases hmove with
    | enter => trivial
    | poll hnodup howners =>
        refine ⟨hnodup, ?_⟩
        intro c _
        rw [hidle rfl rfl]
        exact List.not_mem_nil
    | next =>
        obtain ⟨hnodup, hactive⟩ := hserves
        refine ⟨hnodup, fun c hc => hactive c (List.mem_cons_of_mem _ hc),
          Channel.handleEvents_sublist _, ?_⟩
        rintro c rfl
        have hc := hactive c (List.mem_cons_self ..)
        exact ⟨Channel.hangUp_of_close, fun hdead => absurd hdead hc,
          fun hdead => absurd hdead hc⟩
    | done => exact ⟨(List.nodup_cons.mp hserves.1).2, hserves.2.1⟩
    | swap => trivial
    | finish => trivial
  · intro hiter
    have hdying := hs.dying
    have hsettled := h.settled
    rw [dying_eq, dying_eq] at hdying
    generalize (w.reactors 0).phase = phase at hmove hdying hsettled
    generalize (w'.reactors 0).phase = phase' at hmove hdying hiter
    cases hmove with
    | enter =>
        rw [hsettled rfl] at hdying
        exact (List.append_eq_nil_iff.mp hdying).1
    | poll => cases hiter
    | next => cases hiter
    | done => cases hiter
    | swap => exact List.append_left_eq_self.mp (hdying.trans (List.append_nil _))
    | finish =>
        rw [hsettled rfl] at hdying
        exact (List.append_eq_nil_iff.mp hdying).1

theorem Life.quiet (h : Life w) (hq : Quiet w w') : Life w' where
  told := h.told.quiet hq
  serves := by
    have hwords : w'.words = w.words := by
      funext ref
      obtain ⟨events, hevents⟩ := hq.channels ref
      rw [words, hevents]
      rfl
    rw [hq.dying, hq.phase, hwords]
    exact h.serves
  settled hiter := by
    obtain ⟨extra, hextra, hwrites⟩ := hq.pending
    rw [hextra, List.filterMap_append, Functor.filterMap_destroys_eq_nil hwrites,
      List.append_nil]
    exact h.settled (hq.phase ▸ hiter)

/-- The last pointer to a connection goes away without an event. -/
theorem Life.destroy (h : Life w) (c : Nat) : Life (w.destroy c) := by
  unfold World.destroy
  split
  · exact h
  · split
    · exact h
    · exact ⟨h.told.congr rfl (fun _ => Iff.rfl) rfl rfl, h.serves, h.settled⟩

theorem Established.listed_iff {fd : Int} (he : Established w fd w') (c : Nat)
    (hfree : w.server.connections[connName w.server]? = none) :
    Listed w' c ↔ Listed w c ∨ c = w.nextObj := by
  constructor
  · rintro ⟨name, hname⟩
    rcases (he.connections_iff name c).mp hname with ⟨-, rfl⟩ | ⟨-, hname⟩
    · exact Or.inr rfl
    · exact Or.inl ⟨name, hname⟩
  · rintro (⟨name, hname⟩ | rfl)
    · refine ⟨name, (he.connections_iff name c).mpr (Or.inr ⟨?_, hname⟩)⟩
      rintro rfl
      rw [hfree] at hname
      cases hname
    · exact ⟨_, (he.connections_iff _ _).mpr (Or.inl ⟨rfl, rfl⟩)⟩

theorem story_append {c : Nat} (events : List Event) (htrace : w'.trace = w.trace ++ events) :
    w'.story c = w.story c ++ events.filter (Event.concerns c) := by
  rw [story, story, htrace, List.filter_append]

/-- The events of another connection do not belong to this one. -/
theorem story_append_of_ne {c : Nat} (events : List Event)
    (htrace : w'.trace = w.trace ++ events)
    (hne : ∀ event ∈ events, event.concerns c = false) : w'.story c = w.story c := by
  have hnil : events.filter (Event.concerns c) = [] := by
    rw [List.filter_eq_nil_iff]
    intro event hevent
    simp [hne event hevent]
  rw [story_append events htrace, hnil, List.append_nil]

/-- A life begins. -/
theorem Told.established (h : Told w) (howned : Owned w owners) {fd : Int}
    (he : Established w fd w') : Told w' := by
  have hlisted (c : Nat) := he.listed_iff c howned.connName_free
  have hother {c : Nat} (hne : c ≠ w.nextObj) : w'.story c = w.story c := by
    apply story_append_of_ne _ he.trace
    simp [Event.concerns, Ne.symm hne]
  have hnew : w'.story w.nextObj = Event.opening w.nextObj 0 := by
    rw [story_append _ he.trace, h.unborn _ le_rfl]
    simp [Event.concerns, Event.opening]
  constructor
  · intro c hc
    rw [he.nextObj] at hc
    rw [hother (by omega)]
    exact h.unborn c (by omega)
  · intro c hc
    by_cases hne : c = w.nextObj
    · exact ⟨0, hne ▸ hnew⟩
    · rw [hother hne]
      exact h.live c (((hlisted c).mp hc).resolve_right hne)
  · intro c hc
    rw [he.dying] at hc
    rw [hother fun heq => howned.nextObj_not_mem (heq ▸ (howned.doomed c hc).1)]
    exact h.closing c hc
  · intro c hc hout hdead
    rw [hlisted, not_or] at hout
    rw [he.dying] at hdead
    rw [he.nextObj] at hc
    rw [hother hout.2]
    exact h.gone c (by omega) hout.1 hdead

theorem Life.established (h : Life w) (howned : Owned w owners) {fd : Int}
    (he : Established w fd w') : Life w' where
  told := h.told.established howned he
  serves := by
    have hrefs := howned.refs
    have hserves := h.serves
    rw [he.dying, he.phase]
    cases hphase : (w.reactors 0).phase with
    | outside => trivial
    | polling => trivial
    | functors rest => trivial
    | dispatching active =>
        rw [hphase] at hserves
        exact hserves
    | handling ref callbacks active =>
        rw [hphase] at hserves hrefs
        refine ⟨hserves.1, hserves.2.1, hserves.2.2.1, ?_⟩
        intro c hc
        have hne : ref ≠ .conn w.nextObj := fun heq =>
          howned.nextObj_not_mem (heq ▸ hrefs ref (List.mem_cons_self ..))
        have hword : w'.words ref = w.words ref := congrArg Channel.revents (he.channels ref hne)
        rw [hword]
        exact hserves.2.2.2 c hc
  settled hiter := by
    rw [he.pending]
    exact h.settled (he.phase ▸ hiter)

/-- A message belongs to a life that has not ended. -/
theorem Told.message (h : Told w) {c : Nat} (hc : Listed w c) (hdead : c ∉ w.dying) :
    Told (w.log (.messageCb c)) := by
  have hother {c' : Nat} (hne : c' ≠ c) : (w.log (.messageCb c)).story c' = w.story c' := by
    apply story_append_of_ne [.messageCb c] rfl
    simp [Event.concerns, Ne.symm hne]
  constructor
  · intro c' hc'
    have hne : c' ≠ c := by
      rintro rfl
      obtain ⟨n, hn⟩ := h.live c' hc
      rw [h.unborn c' hc'] at hn
      cases hn
    rw [hother hne]
    exact h.unborn c' hc'
  · intro c' hc'
    by_cases hne : c' = c
    · subst hne
      obtain ⟨n, hn⟩ := h.live c' hc
      refine ⟨n + 1, ?_⟩
      rw [← Event.opening_succ, ← hn]
      rw [story_append (w := w) [.messageCb c'] rfl]
      simp [Event.concerns]
    · rw [hother hne]
      exact h.live c' hc'
  · intro c' hc'
    rw [hother fun heq => hdead (heq ▸ hc')]
    exact h.closing c' hc'
  · intro c' hc' hout hdead'
    rw [hother fun heq => hout (heq ▸ hc)]
    exact h.gone c' hc' hout hdead'

theorem Closed.listed_iff {c : Nat} {conn : TcpConnection} (howned : Owned w owners)
    (hc : w.conns c = some conn) (hcl : Closed w c conn.name w') (c' : Nat) :
    Listed w' c' ↔ Listed w c' ∧ c' ≠ c := by
  have hentry := howned.listed_of_mem hc hcl.listed
  constructor
  · rintro ⟨name, hname⟩
    obtain ⟨hne, hold⟩ := (hcl.connections_iff name c').mp hname
    refine ⟨⟨name, hold⟩, ?_⟩
    rintro rfl
    obtain ⟨-, conn', hc', heq⟩ := howned.named name c' hold
    obtain rfl : conn = conn' := Option.some.inj (hc.symm.trans hc')
    exact hne heq.symm
  · rintro ⟨⟨name, hname⟩, hne⟩
    refine ⟨name, (hcl.connections_iff name c').mpr ⟨?_, hname⟩⟩
    rintro rfl
    rw [hentry] at hname
    exact hne (Option.some.inj hname).symm

/-- A life comes to its close. -/
theorem Told.closed (h : Told w) (howned : Owned w owners) {c : Nat} {conn : TcpConnection}
    (hc : w.conns c = some conn) (hcl : Closed w c conn.name w') : Told w' := by
  have hlisted (c' : Nat) := hcl.listed_iff howned hc c'
  have hold : Listed w c := ⟨_, howned.listed_of_mem hc hcl.listed⟩
  have hdying (c' : Nat) : c' ∈ w'.dying ↔ c' = c ∨ c' ∈ w.dying :=
    hcl.dying_perm.mem_iff.trans List.mem_cons
  have hother {c' : Nat} (hne : c' ≠ c) : w'.story c' = w.story c' := by
    apply story_append_of_ne _ hcl.trace
    simp [Event.concerns, Ne.symm hne]
  constructor
  · intro c' hc'
    rw [hcl.nextObj] at hc'
    have hne : c' ≠ c := by
      rintro rfl
      rw [howned.fresh c' hc'] at hc
      cases hc
    rw [hother hne]
    exact h.unborn c' hc'
  · intro c' hc'
    obtain ⟨hc', hne⟩ := (hlisted c').mp hc'
    rw [hother hne]
    exact h.live c' hc'
  · intro c' hc'
    by_cases hne : c' = c
    · subst hne
      obtain ⟨n, hn⟩ := h.live c' hold
      refine ⟨n, ?_⟩
      rw [story_append _ hcl.trace, hn, Event.closing]
      simp [Event.concerns]
    · rw [hother hne]
      exact h.closing c' (((hdying c').mp hc').resolve_left hne)
  · intro c' hc' hout hdead
    rw [hdying, not_or] at hdead
    rw [hcl.nextObj] at hc'
    rw [hother hdead.1]
    exact h.gone c' hc' (fun hin => hout ((hlisted c').mpr ⟨hin, hdead.1⟩)) hdead.2

/-- The connection whose callback runs has been closed, and what is left of its
callbacks neither closes nor, without a hang-up, reads. -/
theorem Life.closed (h : Life w) (howned : Owned w owners) {c : Nat} {conn : TcpConnection}
    {callbacks : List Channel.Callback} {active : List ChannelRef}
    (hphase : (w.reactors 0).phase = .handling (.conn c) callbacks active)
    (hleft : Current [c] (w.words (.conn c)) c callbacks)
    (hc : w.conns c = some conn) (hcl : Closed w c conn.name w') : Life w' where
  told := h.told.closed howned hc hcl
  serves := by
    have hserves := h.serves
    have hwords : w'.words = w.words := funext fun ref => by rw [words, words, hcl.channels]
    rw [hcl.phase, hphase, hwords]
    rw [hphase] at hserves
    obtain ⟨hnodup, hactive, horder, -⟩ := hserves
    refine ⟨hnodup, ?_, horder, ?_⟩
    · intro c' hc' hdead
      rcases List.mem_cons.mp (hcl.dying_perm.mem_iff.mp hdead) with rfl | hdead
      · exact (List.nodup_cons.mp hnodup).1 hc'
      · exact hactive c' hc' hdead
    · rintro c' ⟨⟩
      exact ⟨hleft.hangsUp, fun _ => hleft.close (List.mem_singleton.mpr rfl),
        fun _ => hleft.read (List.mem_singleton.mpr rfl)⟩
  settled hiter := by
    rw [hcl.phase, hphase] at hiter
    cases hiter

/-- A life is over. -/
theorem Told.destroyed (h : Told w) (howned : Owned w owners) {c : Nat} {rest : List Functor}
    (hphase : (w.reactors 0).phase = .functors (.destroyConnection c :: rest))
    (hd : Destroyed (w.setPhase 0 (.functors rest)) owners c w') : Told w' := by
  have hperm := hd.dying_perm hphase
  have honce := List.nodup_cons.mp (hperm.nodup_iff.mp howned.once)
  have hc : c ∈ w.dying := hperm.mem_iff.mpr (List.mem_cons_self ..)
  have hlisted (c' : Nat) : Listed w' c' ↔ Listed w c' := by
    have hserver : w'.server = w.server := hd.server
    rw [Listed, Listed, hserver]
  have hnext : w'.nextObj = w.nextObj := hd.nextObj
  have htrace : w'.trace = w.trace ++ _ := hd.trace
  have hother {c' : Nat} (hne : c' ≠ c) : w'.story c' = w.story c' := by
    apply story_append_of_ne _ htrace
    simp [Event.concerns, Ne.symm hne]
  constructor
  · intro c' hc'
    rw [hnext] at hc'
    have hne : c' ≠ c := by
      rintro rfl
      obtain ⟨n, hn⟩ := h.closing c' hc
      rw [h.unborn c' hc'] at hn
      cases hn
    rw [hother hne]
    exact h.unborn c' hc'
  · intro c' hc'
    rw [hlisted] at hc'
    have hne : c' ≠ c := by
      rintro rfl
      obtain ⟨name, hname⟩ := hc'
      exact (howned.doomed c' hc).2 name hname
    rw [hother hne]
    exact h.live c' hc'
  · intro c' hc'
    have hne : c' ≠ c := fun heq => honce.1 (heq ▸ hc')
    rw [hother hne]
    exact h.closing c' (hperm.mem_iff.mpr (List.mem_cons_of_mem _ hc'))
  · intro c' hc' hout hdead
    rw [hnext] at hc'
    rw [hlisted] at hout
    by_cases hne : c' = c
    · subst hne
      obtain ⟨n, hn⟩ := h.closing c' hc
      refine ⟨n, ?_⟩
      rw [story_append _ htrace, hn, Event.life]
      simp [Event.concerns]
    · rw [hother hne]
      refine h.gone c' hc' hout fun hdead' => hdead ?_
      exact (List.mem_cons.mp (hperm.mem_iff.mp hdead')).resolve_left hne

theorem Life.destroyed (h : Life w) (howned : Owned w owners) {c : Nat} {rest : List Functor}
    (hphase : (w.reactors 0).phase = .functors (.destroyConnection c :: rest))
    (hd : Destroyed (w.setPhase 0 (.functors rest)) owners c w') : Life w' where
  told := h.told.destroyed howned hphase hd
  serves := by
    rw [hd.phase, phase_setPhase_self]
    trivial
  settled _ := by
    obtain ⟨extra, hextra, hwrites⟩ := hd.pending
    rw [hextra, event_setPhase, List.filterMap_append,
      Functor.filterMap_destroys_eq_nil hwrites, List.append_nil]
    exact h.settled (by rw [hphase]; rfl)

/-- A read callback that goes on after a hang-up without input has closed the
connection, and that gets an answer. -/
def lateRead (w : World) : Action → Bool
  | .callback l x =>
      match (w.reactors l).phase with
      | .handling (.conn c) (.read :: _) _ =>
          Channel.hangUp (w.words (.conn c)) && decide (Endpoint.Received x.read)
      | _ => false
  | _ => false

/-- The callback of the step before has been taken off the list. -/
theorem Life.popCallback (h : Life w) {ref : ChannelRef} {cb : Channel.Callback}
    {callbacks : List Channel.Callback} {active : List ChannelRef}
    (hphase : (w.reactors 0).phase = .handling ref (cb :: callbacks) active) :
    Life (w.setPhase 0 (.handling ref callbacks active)) := by
  have hrest : (Phase.handling ref callbacks active).rest = (w.reactors 0).phase.rest := by
    rw [hphase]
    rfl
  have hs : Steady w (w.setPhase 0 (.handling ref callbacks active)) := Steady.setPhase hrest
  have hserves := h.serves
  rw [hphase] at hserves
  obtain ⟨hnodup, hactive, horder, hcurrent⟩ := hserves
  refine ⟨h.told.steady hs, ?_, ?_⟩
  · rw [hs.dying, phase_setPhase_self]
    refine ⟨hnodup, hactive, (List.sublist_cons_self ..).trans horder, ?_⟩
    intro c hc
    have hold := hcurrent c hc
    exact ⟨fun hmem => hold.hangsUp (List.mem_cons_of_mem _ hmem),
      fun hdead hmem => hold.close hdead (List.mem_cons_of_mem _ hmem),
      fun hdead hmem => hold.read hdead (List.mem_cons_of_mem _ hmem)⟩
  · intro hiter
    rw [phase_setPhase_self] at hiter
    cases hiter

/-- A callback that may close a connection runs only for connections that have
not been closed. -/
theorem Life.not_dying (h : Life w) {c : Nat} {cb : Channel.Callback}
    {callbacks : List Channel.Callback} {active : List ChannelRef}
    (hphase : (w.reactors 0).phase = .handling (.conn c) (cb :: callbacks) active) {x : Answers}
    (hcb : MayClose x.read cb) (hearly : w.lateRead (.callback 0 x) = false) : c ∉ w.dying := by
  have hserves := h.serves
  rw [hphase] at hserves
  have hcurrent := hserves.2.2.2 c rfl
  intro hdead
  rcases hcb with rfl | ⟨rfl, hr⟩
  · exact hcurrent.close hdead (List.mem_cons_self ..)
  · have hup := hcurrent.read hdead (List.mem_cons_self ..)
    simp [lateRead, hphase, hup, hr] at hearly

/-- What is left once a callback has closed its connection. -/
theorem Life.current (h : Life w) {c : Nat} {cb : Channel.Callback}
    {callbacks : List Channel.Callback} {active : List ChannelRef}
    (hphase : (w.reactors 0).phase = .handling (.conn c) (cb :: callbacks) active)
    {r : Buffer.ReadResult} (hcb : MayClose r cb) :
    Current [c] (w.words (.conn c)) c callbacks := by
  have hserves := h.serves
  rw [hphase] at hserves
  obtain ⟨-, -, horder, hcurrent⟩ := hserves
  have hold := hcurrent c rfl
  refine ⟨fun hmem => hold.hangsUp (List.mem_cons_of_mem _ hmem), fun _ => ?_, fun _ hmem => ?_⟩
  · rcases hcb with rfl | ⟨rfl, -⟩
    · exact Channel.close_not_mem horder
    · intro hmem
      cases Channel.mem_after_read horder hmem
  · rcases hcb with rfl | ⟨rfl, -⟩
    · exact hold.hangsUp (List.mem_cons_self ..)
    · cases Channel.mem_after_read horder hmem

/-- A registered connection that is not about to be destroyed is listed. -/
theorem Owned.listed (howned : Owned w owners) {c : Nat} (hmem : .conn c ∈ owners)
    (hdead : c ∉ w.dying) : Listed w c := by
  obtain ⟨conn, hc, -⟩ := howned.conn_of_mem hmem
  exact ⟨_, (howned.inUse c conn hmem hc).2.resolve_right hdead⟩

/-- A callback of a connection keeps the order of events. -/
theorem Life.handled (h : Life w) (howned : Owned w owners) {c : Nat} {conn : TcpConnection}
    {cb : Channel.Callback} {callbacks : List Channel.Callback} {active : List ChannelRef}
    (hphase : (w.reactors 0).phase = .handling (.conn c) (cb :: callbacks) active)
    (hc : w.conns c = some conn) {x : Answers} (hearly : w.lateRead (.callback 0 x) = false)
    (hh : Handled (w.setPhase 0 (.handling (.conn c) callbacks active)) c conn.name x.read cb w') :
    Life w' := by
  have hpop := h.popCallback hphase
  have hrefs := howned.refs
  rw [hphase] at hrefs
  have hmem : .conn c ∈ owners := hrefs _ (List.mem_cons_self ..)
  have howned' : Owned (w.setPhase 0 (.handling (.conn c) callbacks active)) owners :=
    howned.popCallback hphase
  have hdying : (w.setPhase 0 (.handling (.conn c) callbacks active)).dying = w.dying := by
    rw [dying_eq, dying_eq, event_setPhase, phase_setPhase_self, hphase]
    rfl
  cases hh with
  | quiet hquiet => exact hpop.quiet hquiet
  | message hr hquiet =>
      have hdead := h.not_dying hphase (Or.inr ⟨rfl, hr⟩) hearly
      have hdead' : c ∉ (w.setPhase 0 (.handling (.conn c) callbacks active)).dying :=
        hdying ▸ hdead
      have hlog : Life ((w.setPhase 0 (.handling (.conn c) callbacks active)).log
          (.messageCb c)) :=
        ⟨hpop.told.message (howned'.listed hmem hdead') hdead', hpop.serves, hpop.settled⟩
      exact hlog.quiet hquiet
  | @close _ w₁ _ hcb hquiet hclosed =>
      obtain ⟨conn₁, hc₁, hages⟩ := hquiet.conn_some c conn hc
      have hleft := h.current hphase hcb
      have hword : w₁.words (.conn c) = w.words (.conn c) := by
        obtain ⟨events, hevents⟩ := hquiet.channels (.conn c)
        rw [words, hevents]
        rfl
      have hphase₁ : (w₁.reactors 0).phase = .handling (.conn c) callbacks active :=
        hquiet.phase.trans (phase_setPhase_self ..)
      rw [← hages.1] at hclosed
      rw [← hword] at hleft
      exact (hpop.quiet hquiet).closed (howned'.quiet hquiet) hphase₁ hleft hc₁ hclosed

theorem Life.calledBack (h : Life w) (howned : Owned w owners) {ref : ChannelRef}
    {cb : Channel.Callback} {callbacks : List Channel.Callback} {active : List ChannelRef}
    (hphase : (w.reactors 0).phase = .handling ref (cb :: callbacks) active) {x : Answers}
    (hearly : w.lateRead (.callback 0 x) = false)
    (hcalled : CalledBack (w.setPhase 0 (.handling ref callbacks active)) x.read ref cb w') :
    Life w' := by
  have hpop := h.popCallback hphase
  cases hcalled with
  | quiet hquiet => exact hpop.quiet hquiet
  | accept hfd hfree he hquiet =>
      exact (hpop.established (howned.popCallback hphase) he).quiet hquiet
  | conn hc hh => exact h.handled howned hphase hc hearly hh

theorem Life.ran (h : Life w) (howned : Owned w owners) {f : Functor} {rest : List Functor}
    (hphase : (w.reactors 0).phase = .functors (f :: rest))
    (hran : Ran (w.setPhase 0 (.functors rest)) owners f w') : Life w' := by
  cases hran with
  | quiet hquiet =>
      rename_i c
      have hdying : (w.setPhase 0 (.functors rest)).dying = w.dying := by
        rw [dying_eq, dying_eq, event_setPhase, phase_setPhase_self, hphase]
        rfl
      have htold : Told (w.setPhase 0 (.functors rest)) :=
        h.told.congr rfl (fun _ => Iff.rfl) hdying rfl
      have hpop : Life (w.setPhase 0 (.functors rest)) := by
        refine ⟨htold, ?_, fun _ => ?_⟩
        · rw [phase_setPhase_self]
          trivial
        · rw [event_setPhase]
          exact h.settled (by rw [hphase]; rfl)
      exact hpop.quiet hquiet
  | destroyed hd => exact h.destroyed howned hphase hd

/-- Every effect keeps the order of events, unless a read comes too late. -/
theorem Life.effect (h : Life w) (howned : Owned w owners) {a : Action}
    (hearly : w.lateRead a = false) (he : Effect w owners a w') : Life w' := by
  cases he with
  | stay hs hphase hwords => exact h.stay hs hphase hwords
  | move hs hmove => exact h.move hs hmove
  | callback hphase hcalled => exact h.calledBack howned hphase hearly hcalled
  | functor hphase hran => exact h.ran howned hphase hran
  | freed c => exact h.destroy c

theorem life_init (h : Initial 0 w) : Life w := by
  obtain ⟨flag, counter, hbase⟩ := h.reactors 0
  obtain ⟨name, writeCmplCb, hserver⟩ := h.server
  have hdying : w.dying = [] := by
    rw [dying_eq, hbase]
    rfl
  have hstory (c : Nat) : w.story c = [] := by
    rw [story, h.trace]
    rfl
  refine ⟨⟨fun c _ => hstory c, ?_, by simp [hdying], ?_⟩, ?_, fun _ => ?_⟩
  · rintro c ⟨name', hname'⟩
    rw [hserver] at hname'
    simp at hname'
  · intro c hc
    rw [h.nextObj] at hc
    exact absurd hc (Nat.not_lt_zero c)
  · rw [hbase]
    trivial
  · rw [hbase]
    rfl

/-- The events of every connection are a beginning of one life. -/
structure OneLife (w : World) : Prop where
  story : ∀ c, ∃ n, w.story c <+: Event.life c n
  established : ∀ c < w.nextObj, .connectionCb c .connected ∈ w.trace

/-- None of the asserts on the life of a connection has failed. -/
def Fault.Orderly (f : Fault) : Prop :=
  f ≠ .removeConnectionCount ∧ f ≠ .connection .handleCloseState ∧
    f ≠ .connection .destroyConnectionState

theorem Benign.orderly {f : Fault} (h : Benign f) : f.Orderly := by
  refine ⟨?_, ?_, ?_⟩ <;> rintro rfl <;> exact h

theorem Life.oneLife (h : Life w) : OneLife w := by
  have hcases (c : Nat) : w.nextObj ≤ c ∨ Listed w c ∨ c ∈ w.dying ∨
      c < w.nextObj ∧ ¬ Listed w c ∧ c ∉ w.dying := by
    have hlt := Nat.lt_or_ge c w.nextObj
    tauto
  constructor
  · intro c
    rcases hcases c with hc | hc | hc | ⟨hc, hout, hdead⟩
    · rw [h.told.unborn c hc]
      exact ⟨0, List.nil_prefix⟩
    · obtain ⟨n, hn⟩ := h.told.live c hc
      exact ⟨n, hn ▸ Event.opening_prefix c n⟩
    · obtain ⟨n, hn⟩ := h.told.closing c hc
      exact ⟨n, hn ▸ Event.closing_prefix c n⟩
    · obtain ⟨n, hn⟩ := h.told.gone c hc hout hdead
      exact ⟨n, hn ▸ List.prefix_rfl⟩
  · intro c hlt
    have hfirst {n : Nat} {events : List Event} (hn : w.story c = Event.opening c n ++ events) :
        .connectionCb c .connected ∈ w.trace := by
      have hmem : .connectionCb c .connected ∈ w.story c := by
        rw [hn]
        exact List.mem_cons_self ..
      exact (List.mem_filter.mp hmem).1
    rcases hcases c with hc | hc | hc | ⟨hc, hout, hdead⟩
    · omega
    · obtain ⟨n, hn⟩ := h.told.live c hc
      exact hfirst (hn.trans (List.append_nil _).symm)
    · obtain ⟨n, hn⟩ := h.told.closing c hc
      exact hfirst hn
    · obtain ⟨n, hn⟩ := h.told.gone c hc hout hdead
      exact hfirst (hn.trans (List.append_assoc ..))

/-- In every run of a server without pool threads in which no read succeeds
after its own hang-up, each connection is closed at most once, is destroyed at
most once and after that, gets no message after its close, and has
`connection_cb_` called once when it is established and once when it is
destroyed; none of the asserts on its state fails. -/
theorem close_at_most_once {s : Except Fault World} (h : (machine 0).Reach
      (whileRunning fun w a => Undisturbed w a ∧ w.lateRead a = false) s) :
    Ends OneLife Fault.Orderly s := by
  have hlife : Ends (fun w => (∃ owners, Inv w owners) ∧ Life w) Fault.Orderly s := by
    apply ends_of_reach (fun w hw => ⟨⟨[], Inv.init hw⟩, life_init hw⟩) _ h
    rintro w a ⟨⟨owners, hinv⟩, hlife⟩ ⟨⟨hkernel, hlocal⟩, hearly⟩
    apply ((hinv.step hkernel hlocal).mono _).weaken
    · rintro f (hf | ⟨rfl, x, c, conn, cb, callbacks, active, rfl, hphase, hcb, hc, hunlisted⟩)
      · exact hf.orderly
      · have hdead := hlife.not_dying hphase hcb hearly
        have hrefs := hinv.owned.refs
        rw [hphase] at hrefs
        have hlisted := (hinv.owned.inUse c conn (hrefs _ (List.mem_cons_self ..)) hc).2
        have hmem : conn.name ∈ w.server.connections := by
          rw [Std.ExtTreeMap.mem_iff_isSome_getElem?, hlisted.resolve_right hdead]
          rfl
        exact absurd hmem hunlisted
    · rintro w' ⟨hinv', he⟩
      exact ⟨hinv', hlife.effect hinv.owned hearly he⟩
  exact hlife.mono fun w hw => hw.2.oneLife

/-- A run with a close has the events of one life. -/
theorem closing_run_one_life : ∃ w, OneLife w ∧ w.story 0 = Event.closing 0 0 := by
  obtain ⟨s, hs, hp⟩ := Machine.exists_reach
    (whileRunning fun w a => Undisturbed w a ∧ w.lateRead a = false)
    (M := machine 0) ⟨fresh 0, rfl, initial_fresh 0⟩ closingRun
    (fun s => match s with
      | .ok w => w.story 0 = Event.closing 0 0
      | .error _ => false) (by decide +kernel)
  cases s with
  | error f => cases hp
  | ok w => exact ⟨w, close_at_most_once hs, of_decide_eq_true hp⟩

/-- A connection gets `POLLHUP` and `POLLPRI`, and its read finds the end of the stream. -/
def hangUpRun : List Action :=
  [.start, .wire 0, .enterLoop 0, .pollReturn 0 [1, 0, 0] 1, .nextChannel 0,
    .callback 0 { noAnswers with connfd := 100 }, .endChannel 0, .doPendingFunctors 0,
    .endFunctors 0, .pollReturn 0 [0, 0, 0, 0x12] 1, .nextChannel 0, .callback 0 noAnswers,
    .callback 0 noAnswers]

/-- A hang-up with urgent data closes a connection twice. -/
theorem hang_up_closes_twice : ¬ ∀ s, (machine 0).Reach (whileRunning Undisturbed) s →
    Ends OneLife Fault.Orderly s := by
  intro h
  obtain ⟨s, hs, hp⟩ := Machine.exists_reach (whileRunning Undisturbed)
    (M := machine 0) ⟨fresh 0, rfl, initial_fresh 0⟩ hangUpRun
    (fun s => match s with
      | .ok _ => false
      | .error f => f = .removeConnectionCount) (by decide +kernel)
  cases s with
  | error f => exact (h _ hs).1 (of_decide_eq_true hp)
  | ok w => cases hp

end World

end Yatwb
