import Yatwb.Server.Registration
import Yatwb.Server.Steps

/-!
# The end of a server

The destructor of `TcpServer` is empty, so its members go in reverse order:
`connections_` first, then `acceptor_`. With the last pointer to a connection
goes the connection, with it its channel, and `~Channel` only looks at
`events_handling_`. No destructor tells a poller anything. So a server that
listens leaves the channel of its acceptor in the poller of the base loop, and
the channel of every connection that goes with it.

## Implementation notes

* `held` says which connections the user still has a pointer to.
* The threads of `thread_pool_` end in between. That part is left out: it
  destroys no channel of the server and concerns no poller of the base loop.
-/

namespace Yatwb.World

open Foundation

/-- The assert of `~Channel`. -/
inductive TeardownFault
  | eventsHandling
  deriving DecidableEq, Repr

/-- `events_handling_` of a channel. -/
def eventsHandling (w : World) (ref : ChannelRef) : Bool :=
  (0 :: w.server.pool.loops).any fun l =>
    match (w.reactors l).phase with
    | .handling ref' _ _ => ref' == ref
    | _ => false

/-- `~Channel`. -/
def destroyChannel (w : World) (ref : ChannelRef) : Except TeardownFault PUnit :=
  check (w.eventsHandling ref = false) .eventsHandling

/-- An entry of `connections_` is destroyed, with its pointer. -/
def releaseConnection (held : Nat → Bool) (w : World) (name : String) (c : Nat) :
    Except TeardownFault World :=
  let w := w.eraseConnection name
  if held c || w.owned c then .ok w
  else do
    w.destroyChannel (.conn c)
    return w.destroy c

/-- `connections_` is destroyed. -/
def releaseConnections (held : Nat → Bool) (w : World) :
    List (String × Nat) → Except TeardownFault World
  | [] => .ok w
  | entry :: rest => do
      let w ← w.releaseConnection held entry.1 entry.2
      w.releaseConnections held rest

/-- `acceptor_` is destroyed, with its channel and its socket. -/
def destroyAcceptor (w : World) : Except TeardownFault World := do
  w.destroyChannel .acceptor
  return { w with openFds := w.openFds.erase (w.channels .acceptor).fd }

/-- `~TcpServer`. -/
def destroyServer (held : Nat → Bool) (w : World) : Except TeardownFault World := do
  let w ← w.releaseConnections held w.server.connections.toList
  w.destroyAcceptor

/-- The channels that are gone after the server is destroyed. -/
def Gone (w w' : World) : ChannelRef → Prop
  | .acceptor => True
  | .conn c => w.conns c ≠ none ∧ w'.conns c = none
  | _ => False

/-- The poller of the loop refers to the channel, in its map or in its slots. -/
def Refers (w : World) (l : LoopId) (ref : ChannelRef) : Prop :=
  (w.reactors l).poller.Holds ref ∨
    ∃ pfd ∈ (w.reactors l).poller.pollFds, Poller.SlotOf (w.channels ref).fd pfd

/-- The destructor ends, no poller refers to a channel that is gone, and no
`poll` makes one active. -/
def Unregisters (held : Nat → Bool) (w : World) : Prop :=
  ∃ w', w.destroyServer held = .ok w' ∧
    (∀ ref, Gone w w' ref → ∀ l, ¬ w'.Refers l ref) ∧
    ∀ l reported numEvents r,
      (w'.reactors l).poller.poll w'.channels reported numEvents = .ok r →
        ∀ ref ∈ r.2.2, ¬ Gone w w' ref

variable {w w' : World} {held : Nat → Bool}

/-- What no destructor of the server touches. -/
structure Untouched (w w' : World) : Prop where
  reactors : w'.reactors = w.reactors
  channels : w'.channels = w.channels

theorem Untouched.trans {w'' : World} (h : Untouched w w') (h' : Untouched w' w'') :
    Untouched w w'' :=
  ⟨h'.reactors.trans h.reactors, h'.channels.trans h.channels⟩

theorem destroy_untouched (w : World) (c : Nat) : Untouched w (w.destroy c) := by
  unfold destroy
  split
  · exact ⟨rfl, rfl⟩
  · split <;> exact ⟨rfl, rfl⟩

theorem destroy_conns (w : World) {c c' : Nat} (hne : c' ≠ c) :
    (w.destroy c).conns c' = w.conns c' := by
  unfold destroy
  split
  · rfl
  · split
    · rfl
    · exact setConn_of_ne w hne none

theorem releaseConnection_spec (w : World) (name : String) (c : Nat) :
    Ends (fun w' => Untouched w w' ∧ ∀ c' ≠ c, w'.conns c' = w.conns c') (fun _ => True)
      (w.releaseConnection held name c) := by
  simp only [releaseConnection]
  split
  · exact ⟨⟨rfl, rfl⟩, fun _ _ => rfl⟩
  · apply ends_bind
    intro _
    have herase : Untouched w (w.eraseConnection name) := ⟨rfl, rfl⟩
    exact ⟨herase.trans (destroy_untouched _ c), fun c' hne => destroy_conns _ hne⟩

/-- Only the connections of the map go. -/
theorem releaseConnections_spec (w : World) (entries : List (String × Nat)) :
    Ends (fun w' => Untouched w w' ∧
        ∀ c, (∀ entry ∈ entries, c ≠ entry.2) → w'.conns c = w.conns c) (fun _ => True)
      (w.releaseConnections held entries) := by
  induction entries generalizing w with
  | nil => exact ⟨⟨rfl, rfl⟩, fun _ _ => rfl⟩
  | cons entry rest ih =>
      apply (releaseConnection_spec w entry.1 entry.2).bind
      rintro w₁ ⟨h₁, hconns₁⟩
      apply (ih w₁).mono
      rintro w₂ ⟨h₂, hconns₂⟩
      refine ⟨h₁.trans h₂, ?_⟩
      intro c hc
      have hrest := hconns₂ c fun entry' hmem => hc entry' (List.mem_cons_of_mem _ hmem)
      exact hrest.trans (hconns₁ c (hc entry (List.mem_cons_self ..)))

/-- The destructor leaves every poller as it is. -/
theorem destroyServer_spec (w : World) :
    Ends (fun w' => Untouched w w' ∧
        ∀ c, (∀ entry ∈ w.server.connections.toList, c ≠ entry.2) → w'.conns c = w.conns c)
      (fun _ => True) (w.destroyServer held) := by
  apply (releaseConnections_spec w w.server.connections.toList).bind
  rintro w₁ ⟨h₁, hconns⟩
  apply ends_bind
  intro _
  exact ⟨h₁.trans ⟨rfl, rfl⟩, hconns⟩

/-- The acceptor of a listening server stays in the poller. -/
theorem Listening.refers (h : Listening w) (hdestroy : w.destroyServer held = .ok w') :
    w'.Refers 0 .acceptor := by
  obtain ⟨huntouched, -⟩ := (destroyServer_spec w).of_eq_ok hdestroy
  left
  rw [huntouched.reactors]
  exact h.registered

/-- Without pool threads and calls from other threads, a connection that goes with
the server was in `connections_`, so it stays in the poller too. -/
theorem Inv.gone_refers {owners : List ChannelRef} (h : Inv w owners)
    (hdestroy : w.destroyServer held = .ok w') {c : Nat} (hgone : Gone w w' (.conn c)) :
    w'.Refers 0 (.conn c) := by
  obtain ⟨huntouched, hconns⟩ := (destroyServer_spec w).of_eq_ok hdestroy
  have hlisted : ∃ entry ∈ w.server.connections.toList, c = entry.2 := by
    by_contra hnone
    have hsame := hconns c fun entry hmem heq => hnone ⟨entry, hmem, heq⟩
    exact hgone.1 (hsame.symm.trans hgone.2)
  obtain ⟨⟨name, _⟩, hmem, rfl⟩ := hlisted
  have hname := Std.ExtTreeMap.mem_toList_iff_getElem?_eq_some.mp hmem
  left
  rw [huntouched.reactors]
  exact ⟨_, h.wired.rep.map_of_mem (h.owned.named name c hname).1⟩

/-- Two channels with different descriptors have different slots. -/
theorem slots_apart {fd fd' : Int} (hfd : 0 ≤ fd) (hfd' : 0 ≤ fd') (hne : fd ≠ fd') {pfd : PollFd}
    (h : Poller.SlotOf fd pfd) : ¬ Poller.SlotOf fd' pfd := by
  simp only [Poller.SlotOf, Poller.ignoredFd] at h ⊢
  omega

namespace Dormant

theorem not_refers (h : Dormant w) (l : LoopId) : ¬ w.Refers l .acceptor := by
  rintro (hholds | ⟨pfd, hpfd, hslot⟩)
  · rcases (h.reactors l).holds _ hholds with heq | heq <;> cases heq
  · obtain ⟨ref, href, hslot'⟩ := (h.reactors l).slots pfd hpfd
    have hstanding : Standing 0 ref := by rcases href with rfl | rfl <;> exact Nat.le_refl 0
    exact slots_apart (h.descriptors ref hstanding) (h.descriptors .acceptor trivial)
      (h.distinct ref href) hslot' hslot

/-- No loop is handling the acceptor. -/
theorem eventsHandling (h : Dormant w) : w.eventsHandling .acceptor = false := by
  rw [World.eventsHandling, List.any_eq_false]
  intro l _
  split
  · rename_i ref callbacks active hphase
    have hrefs := (h.reactors l).refs
    rw [hphase] at hrefs
    have hne : ref ≠ .acceptor := by
      rintro rfl
      rcases hrefs _ (List.mem_cons_self ..) with heq | heq <;> cases heq
    simpa using hne
  · exact Bool.false_ne_true

theorem destroyServer (h : Dormant w) (held : Nat → Bool) : w.destroyServer held =
    .ok { w with openFds := w.openFds.erase (w.channels .acceptor).fd } := by
  have hnone : w.server.connections.toList = [] := by
    rw [h.connections]
    rfl
  rw [World.destroyServer, hnone]
  change w.destroyAcceptor = _
  rw [destroyAcceptor, destroyChannel, check_bind_of _ h.eventsHandling]
  rfl

/-- A server that was never started leaves nothing behind. -/
theorem unregisters (h : Dormant w) (held : Nat → Bool) : w.Unregisters held := by
  refine ⟨_, h.destroyServer held, ?_, ?_⟩
  · intro ref hgone l
    cases ref with
    | acceptor => exact h.not_refers l
    | timer l => exact hgone.elim
    | wakeup l => exact hgone.elim
    | conn c => exact absurd (h.conns c) hgone.1
  · intro l reported numEvents r hpoll ref href hgone
    obtain ⟨-, -, hactive⟩ := (Poller.poll_frame _ _ _ _).of_eq_ok hpoll
    have hholds := (h.reactors l).holds ref (hactive ref href)
    rcases hholds with rfl | rfl <;> exact hgone

end Dormant

/-- The destructor of a server unregisters what it destroys exactly when the server
does not listen. -/
theorem unregisters_iff_not_listenning {N : Nat} (h : Reach N (.ok w)) (held : Nat → Bool) :
    w.Unregisters held ↔ w.server.listenning = false := by
  constructor
  · rintro ⟨w', hdestroy, hrefers, -⟩
    rcases settled_of_reach h with hdormant | hlistening
    · exact hdormant.listenning
    · exact absurd (hlistening.refers hdestroy) (hrefers .acceptor trivial 0)
  · intro hlisten
    rcases settled_of_reach h with hdormant | hlistening
    · exact hdormant.unregisters held
    · rw [hlistening.listenning] at hlisten
      cases hlisten

/-- The base loop is wired and runs an iteration with an expiry of its timer. -/
def idlingRun : List Action :=
  [.wire 0, .enterLoop 0, .pollReturn 0 [1, 0] 1, .nextChannel 0,
    .callback 0 ⟨-1, 0, .received [], .error, [.addTimer 0]⟩, .endChannel 0,
    .doPendingFunctors 0, .endFunctors 0]

/-- A server that was not started, on a base loop that runs and polls two channels. -/
theorem idling_server_unregisters : ∃ w, Reach 2 (.ok w) ∧ (w.reactors 0).phase = .polling ∧
    (w.reactors 0).poller.pollFds.length = 2 ∧ w.Unregisters fun _ => false := by
  obtain ⟨s, hs, hp⟩ := Machine.exists_reach (whileRunning Kernel)
    (M := machine 2) ⟨fresh 2, rfl, initial_fresh 2⟩ idlingRun
    (fun s => match s with
      | .ok w => (w.reactors 0).phase = .polling ∧ (w.reactors 0).poller.pollFds.length = 2 ∧
          w.server.listenning = false
      | .error _ => false) (by decide +kernel)
  cases s with
  | error f => cases hp
  | ok w =>
      obtain ⟨hphase, hslots, hlisten⟩ := of_decide_eq_true hp
      exact ⟨w, hs, hphase, hslots, (unregisters_iff_not_listenning hs _).mpr hlisten⟩

/-- A server with one connection is destroyed between two iterations: the acceptor and the
connection are gone, and the poller refers to both. -/
theorem accepting_server_dangles : ∃ w w', Reach 0 (.ok w) ∧
    w.destroyServer (fun _ => false) = .ok w' ∧ Gone w w' .acceptor ∧ w'.Refers 0 .acceptor ∧
    Gone w w' (.conn 0) ∧ w'.Refers 0 (.conn 0) ∧ ¬ w.Unregisters fun _ => false := by
  obtain ⟨s, hs, hp⟩ := Machine.exists_reach (whileRunning Kernel)
    (M := machine 0) ⟨fresh 0, rfl, initial_fresh 0⟩ (closingRun.take 9)
    (fun s => match s with
      | .ok w => (w.conns 0).isSome && match w.destroyServer fun _ => false with
          | .ok w' => (w'.conns 0).isNone &&
              decide ((w'.reactors 0).poller.channelMap[(3 : Int)]? = some .acceptor) &&
              decide ((w'.reactors 0).poller.channelMap[(100 : Int)]? = some (.conn 0))
          | .error _ => false
      | .error _ => false) (by decide +kernel)
  cases s with
  | error f => cases hp
  | ok w =>
      cases hdestroy : w.destroyServer fun _ => false with
      | error f => simp [hdestroy] at hp
      | ok w' =>
          simp only [hdestroy, Bool.and_eq_true, decide_eq_true_eq, Option.isNone_iff_eq_none] at hp
          obtain ⟨hconn, ⟨hgone, hacceptor⟩, hmapped⟩ := hp
          have hrefers : w'.Refers 0 .acceptor := .inl ⟨3, hacceptor⟩
          refine ⟨w, w', hs, hdestroy, trivial, hrefers, ⟨?_, hgone⟩, .inl ⟨100, hmapped⟩, ?_⟩
          · exact Option.isSome_iff_ne_none.mp hconn
          · rintro ⟨w'', hdestroy', hclean, -⟩
            obtain rfl := Except.ok.inj (hdestroy.symm.trans hdestroy')
            exact hclean .acceptor trivial 0 hrefers

end Yatwb.World
