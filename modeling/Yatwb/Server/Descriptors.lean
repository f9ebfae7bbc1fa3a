import Yatwb.Foundation.Holdings
import Yatwb.Server.Steps

/-!
# The descriptors of a server

`accept(2)` opens a descriptor for each connection, and the destructor of its
`Socket` closes it. Along every run of a server without pool threads, the open
descriptors are those from before the run and one for each connection that is
there. A connection that is neither listed nor named by a waiting functor is
destroyed by the step that lets go of the last pointer to it.
-/

namespace Yatwb.World

open Foundation

/-- The descriptor of a connection that is there. -/
def socket (w : World) (c : Nat) : Option Int :=
  (w.conns c).map fun _ => (w.channels (.conn c)).fd

/-- The descriptors and the connections that hold them. -/
def holdings (w : World) : Holdings Nat Int := ⟨w.openFds, w.socket⟩

variable {w w' : World} {owners : List ChannelRef} {a : Action}

theorem socket_congr {c : Nat} (hconn : (w'.conns c).isSome = (w.conns c).isSome)
    (hfd : (w'.channels (.conn c)).fd = (w.channels (.conn c)).fd) :
    w'.socket c = w.socket c := by
  unfold socket
  rw [hfd]
  cases hc : w.conns c <;> cases hc' : w'.conns c <;> simp_all

theorem holdings_congr (hfds : w'.openFds = w.openFds)
    (hconns : ∀ c, (w'.conns c).isSome = (w.conns c).isSome)
    (hfd : ∀ ref, (w'.channels ref).fd = (w.channels ref).fd) : w'.holdings = w.holdings := by
  unfold holdings
  rw [hfds]
  congr 1
  funext c
  exact socket_congr (hconns c) (hfd (.conn c))

theorem Quiet.holdings (h : Quiet w w') : w'.holdings = w.holdings := by
  refine holdings_congr h.openFds (fun c => ?_) fun ref => ?_
  · cases hc : w.conns c with
    | none => rw [h.conn_none c hc]
    | some conn =>
        obtain ⟨conn', hc', -⟩ := h.conn_some c conn hc
        rw [hc']
        rfl
  · obtain ⟨events, hevents⟩ := h.channels ref
    rw [hevents]
    rfl

theorem Steady.holdings (h : Steady w w') : w'.holdings = w.holdings :=
  holdings_congr h.openFds (fun c => by rw [h.conns]) h.fd

theorem Closed.holdings {c : Nat} {name : String} (h : Closed w c name w') :
    w'.holdings = w.holdings :=
  holdings_congr h.openFds (fun c => by rw [h.conns]) fun ref => by rw [h.channels]

theorem Destroyed.holdings {c : Nat} (h : Destroyed w owners c w') :
    w'.holdings = w.holdings := by
  refine holdings_congr h.openFds (fun c' => ?_) h.fd
  by_cases heq : c' = c
  · subst heq
    obtain ⟨conn, conn', hc, hc', -⟩ := h.conn
    rw [hc, hc']
    rfl
  · cases hc : w.conns c' with
    | none => rw [h.conn_none c' hc]
    | some conn =>
        obtain ⟨conn', hc', -⟩ := h.conn_some c' conn heq hc
        rw [hc']
        rfl

theorem Established.holdings {fd : Int} (h : Established w fd w') :
    w'.holdings = w.holdings.acquire w.nextObj fd := by
  unfold World.holdings Holdings.acquire
  rw [h.openFds]
  congr 1
  funext c
  by_cases heq : c = w.nextObj
  · subst heq
    obtain ⟨conn, hc, -⟩ := h.conn
    rw [Function.update_self, socket, hc, h.fd]
    rfl
  · rw [Function.update_of_ne heq]
    exact socket_congr (by rw [h.conns c heq])
      (by rw [h.channels _ fun hconn => heq (ChannelRef.conn.inj hconn)])

/-- A connection is destroyed when nothing points to it any more. -/
theorem destroy_holdings {c : Nat} {fd : Int} (hsocket : w.socket c = some fd)
    (hfree : w.owned c = false) : (w.destroy c).holdings = w.holdings.release c fd := by
  obtain ⟨conn, hc, rfl⟩ := Option.map_eq_some_iff.mp hsocket
  unfold destroy World.holdings Holdings.release
  rw [hc]
  simp only [hfree, Bool.false_eq_true, if_false]
  congr 1
  funext c'
  by_cases heq : c' = c
  · subst heq
    rw [Function.update_self, socket, setConn_self]
    rfl
  · rw [Function.update_of_ne heq]
    exact socket_congr (congrArg Option.isSome (setConn_of_ne w heq none)) rfl

/-- The step lemma: an action opens or closes no descriptor, or the one of a connection
that appears or disappears with it. -/
theorem Effect.holdings (h : Inv w owners) (he : Effect w owners a w') :
    w.holdings.Step w'.holdings := by
  cases he with
  | stay hs hphase hwords =>
      rw [hs.holdings]
      exact .stay
  | move hs hmove =>
      rw [hs.holdings]
      exact .stay
  | @callback x ref cb callbacks active _ hphase hcalled =>
      change Holdings.Step (w.setPhase 0 (.handling ref callbacks active)).holdings _
      cases hcalled with
      | quiet hquiet =>
          rw [hquiet.holdings]
          exact .stay
      | accept hfd hfree hestablished hquiet =>
          rw [hquiet.holdings, hestablished.holdings]
          refine .acquire _ _ hfree ?_
          change w.socket w.nextObj = none
          rw [socket, h.owned.fresh _ le_rfl]
          rfl
      | conn hc hhandled =>
          cases hhandled with
          | quiet hquiet =>
              rw [hquiet.holdings]
              exact .stay
          | message hr hquiet =>
              rw [hquiet.holdings]
              exact .stay
          | close hcb hquiet hclosed =>
              rw [hclosed.holdings, hquiet.holdings]
              exact .stay
  | @functor _ f rest _ hphase hran =>
      change Holdings.Step (w.setPhase 0 (.functors rest)).holdings _
      cases hran with
      | quiet hquiet =>
          rw [hquiet.holdings]
          exact .stay
      | destroyed hdestroyed =>
          rw [hdestroyed.holdings]
          exact .stay
  | freed c =>
      cases hsocket : w.socket c with
      | none =>
          have hnone : w.conns c = none := Option.map_eq_none_iff.mp hsocket
          have hsame : w.destroy c = w := by
            unfold destroy
            rw [hnone]
          rw [hsame]
          exact .stay
      | some fd =>
          cases hfree : w.owned c with
          | true =>
              have hsame : w.destroy c = w := by
                obtain ⟨conn, hc, -⟩ := Option.map_eq_some_iff.mp hsocket
                unfold destroy
                rw [hc]
                simp only [hfree, if_true]
              rw [hsame]
              exact .stay
          | false =>
              rw [destroy_holdings hsocket hfree]
              exact .release c fd hsocket

/-- What points to a connection: its entry in `connections_`, or a waiting functor. -/
theorem Inv.pointer_of_owned (h : Inv w owners) {c : Nat} (howned : w.owned c = true) :
    (∃ name : String, w.server.connections[name]? = some c) ∨
      ∃ f ∈ w.waiting 0, f.owns c = true := by
  rw [World.owned, h.wired.home.loops, Bool.or_eq_true] at howned
  rcases howned with hlisted | hwaiting
  · left
    obtain ⟨⟨name, c'⟩, hmem, heq⟩ := List.any_eq_true.mp hlisted
    obtain rfl := beq_iff_eq.mp heq
    exact ⟨name, Std.ExtTreeMap.mem_toList_iff_getElem?_eq_some.mp hmem⟩
  · right
    obtain ⟨l, hl, hany⟩ := List.any_eq_true.mp hwaiting
    obtain rfl := List.mem_singleton.mp hl
    exact List.any_eq_true.mp hany

/-- The runs of a server from a given world. -/
def runsFrom (w₀ : World) : Machine (Except Fault World) Action := faulting (· = w₀) step

theorem balanced_of_reach {w₀ : World} (h₀ : Initial 0 w₀) {s : Except Fault World}
    (h : (runsFrom w₀).Reach (whileRunning Undisturbed) s) :
    Ends (fun w => (∃ owners, Inv w owners) ∧ w.holdings.Balanced w₀.openFds) (fun _ => True) s := by
  refine ends_of_reach ?_ ?_ h
  · rintro w rfl
    refine ⟨⟨[], Inv.init h₀⟩, Holdings.balanced_of_unheld (s := w.holdings) fun c => ?_⟩
    change w.socket c = none
    rw [socket, h₀.conns]
    rfl
  · rintro w a ⟨⟨owners, hinv⟩, hbalanced⟩ ⟨hkernel, hlocal⟩
    apply ((hinv.step hkernel hlocal).mono fun w' hw' => ?_).weaken
    · exact fun _ _ => trivial
    · exact ⟨hw'.1, hbalanced.step (hw'.2.holdings hinv)⟩

/-- The connections that are there. -/
def alive (w : World) : Finset Nat := (Finset.range w.nextObj).filter fun c => (w.conns c).isSome

theorem Inv.mem_alive (h : Inv w owners) (c : Nat) : c ∈ w.alive ↔ (w.socket c).isSome := by
  rw [alive, Finset.mem_filter, socket, Option.isSome_map]
  refine ⟨And.right, fun hsome => ⟨Finset.mem_range.mpr ?_, hsome⟩⟩
  by_contra hge
  rw [h.owned.fresh c (Nat.le_of_not_lt hge)] at hsome
  cases hsome

/-- In every run of a server without pool threads, a descriptor is open if and only if it
was open before the run or belongs to a connection that is there. Two connections have
different ones, so there are as many as before and one for each connection, and
a connection is listed, or a waiting functor points to it, or its descriptor is closed
as soon as its last owner lets go. -/
theorem descriptors_accounted {w₀ : World} (h₀ : Initial 0 w₀)
    (h : (runsFrom w₀).Reach (whileRunning Undisturbed) (.ok w)) :
    (∀ fd, fd ∈ w.openFds ↔ fd ∈ w₀.openFds ∨ ∃ c, w.socket c = some fd) ∧
      (∀ c c' fd, w.socket c = some fd → w.socket c' = some fd → c = c') ∧
      w.openFds.card = w₀.openFds.card + w.alive.card ∧
      ∀ c fd, w.socket c = some fd →
        (∃ name : String, w.server.connections[name]? = some c) ∨
        (∃ f ∈ w.waiting 0, f.owns c = true) ∨
        (w.destroy c).openFds = w.openFds.erase fd ∧ (w.destroy c).socket c = none := by
  obtain ⟨⟨owners, hinv⟩, hbalanced⟩ := balanced_of_reach h₀ h
  refine ⟨hbalanced.mem_iff, hbalanced.unique, hbalanced.card_eq hinv.mem_alive, ?_⟩
  intro c fd hsocket
  cases howned : w.owned c with
  | true => exact (hinv.pointer_of_owned howned).imp_right Or.inl
  | false =>
      have hclosed := destroy_holdings hsocket howned
      refine Or.inr (Or.inr ⟨congrArg Holdings.opened hclosed, ?_⟩)
      rw [show (w.destroy c).socket = _ from congrArg Holdings.held hclosed]
      exact Function.update_self ..

section Example

/-- The connection that was closed is destroyed, and the last pointer to it goes away; the
next connection is given its descriptor. -/
def reopeningRun : List Action :=
  closingRun ++ [.endChannel 0, .doPendingFunctors 0, .functor 0 noAnswers, .endFunctors 0,
    .destroy 0, .pollReturn 0 [1, 0, 0] 1, .nextChannel 0,
    .callback 0 { noAnswers with connfd := 100 }]

theorem descriptor_reopened : ∃ w : World, w.alive = {1} ∧ w.socket 1 = some 100 ∧
    w.openFds.card = (fresh 0).openFds.card + 1 := by
  obtain ⟨s, hs, hp⟩ := Machine.exists_reach (M := runsFrom (fresh 0)) (whileRunning Undisturbed)
    ⟨fresh 0, rfl, rfl⟩ reopeningRun
    (fun s => match s with
      | .ok w => decide (w.alive = {1} ∧ w.socket 1 = some 100)
      | .error _ => false) (by decide +kernel)
  cases s with
  | error f => cases hp
  | ok w =>
      obtain ⟨halive, hsocket⟩ := of_decide_eq_true hp
      obtain ⟨-, -, hcard, -⟩ := descriptors_accounted (initial_fresh 0) hs
      rw [halive] at hcard
      exact ⟨w, halive, hsocket, hcard⟩

end Example

end Yatwb.World
