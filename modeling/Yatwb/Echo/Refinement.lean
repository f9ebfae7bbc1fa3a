import Yatwb.Echo.CatchUp
import Yatwb.Foundation.Relay
import Yatwb.Server.Attention

/-!
# An echo server is a family of relays

Seen from one of its clients, the echo server is a relay of bytes: accepted once,
closed at most once and for good, and in between it writes back what it reads,
in order. Each action of the server is a few steps of the relay of each
connection, whatever happens on the other connections.
-/

namespace Yatwb

open Foundation

namespace World

variable {w : World} {c : Nat}

/-- `connections_` has an entry for the connection. -/
def lists (w : World) (c : Nat) : Bool :=
  w.server.connections.toList.any fun entry => entry.2 == c

theorem lists_iff : w.lists c = true ↔ w.Listed c := by
  simp [lists, Listed, Std.ExtTreeMap.mem_toList_iff_getElem?_eq_some]

end World

namespace EchoServer

open World

variable {s s' : EchoServer} {w : World} {owners owners' : List ChannelRef} {a : Action} {c : Nat}
  {conn : TcpConnection}

/-- What the client of the connection `c` sees of the server. -/
def session (s : EchoServer) (c : Nat) : Relay Byte :=
  if s.world.nextObj ≤ c then .idle
  else if s.world.lists c then
    .running (s.transmitted c) ((s.world.conns c).elim [] fun conn => conn.outputBuffer.content)
  else .stopped (s.transmitted c) ((s.received c).drop (s.transmitted c).length)

theorem session_idle (h : s.world.nextObj ≤ c) : s.session c = .idle := if_pos h

theorem session_running (hc : s.world.conns c = some conn) (hold : c < s.world.nextObj)
    (h : s.world.Listed c) :
    s.session c = .running (s.transmitted c) conn.outputBuffer.content := by
  rw [session, if_neg (Nat.not_le.mpr hold), if_pos (lists_iff.mpr h), hc]
  rfl

theorem session_stopped (hold : c < s.world.nextObj) (h : ¬ s.world.Listed c) :
    s.session c =
      .stopped (s.transmitted c) ((s.received c).drop (s.transmitted c).length) := by
  rw [session, if_neg (Nat.not_le.mpr hold), if_neg fun hlists => h (lists_iff.mp hlists)]

/-- A stopped relay is a connection that is not listed. -/
theorem session_eq_stopped {passed lost : List Byte} (h : s.session c = .stopped passed lost) :
    ¬ s.world.Listed c ∧ s.transmitted c = passed ∧
      (s.received c).drop (s.transmitted c).length = lost := by
  unfold session at h
  split at h
  · cases h
  · split at h
    · cases h
    · rename_i hlists
      obtain ⟨hpassed, hlost⟩ := Relay.stopped.inj h
      exact ⟨fun hlisted => hlists (lists_iff.mpr hlisted), hpassed, hlost⟩

/-- What has been written on a connection is a beginning of what has arrived on it. -/
theorem Account.transmitted_append (h : Account s c) :
    s.transmitted c ++ (s.received c).drop (s.transmitted c).length = s.received c := by
  apply List.prefix_iff_eq_append.mp
  cases hc : s.world.conns c with
  | none => exact h.past hc
  | some conn =>
      rw [← (h.line conn hc).bytes]
      exact List.prefix_append _ _

theorem Serves.conn_of_listed (h : Serves s owners) (hlisted : s.world.Listed c) :
    ∃ conn, s.world.conns c = some conn ∧ c < s.world.nextObj := by
  obtain ⟨conn, hc, -⟩ := h.inv.owned.conn_of_mem (mem_of_listed h.inv c hlisted)
  exact ⟨conn, hc, h.inv.owned.lt_of_conn hc⟩

/-- No byte moves on a connection that has been closed. -/
theorem Serves.silent_of_unlisted (h : Serves s owners) (hfair : Fair s a)
    (hout : ¬ s.world.Listed c) : arriving s.world a c = [] ∧ leaving s.world a c = [] := by
  cases a with
  | start | wire _ | enterLoop _ | pollReturn _ _ _ | nextChannel _ | endChannel _
  | doPendingFunctors _ | functor _ _ | endFunctors _ | send _ _ _ | shutdown _ _
  | destroy _ => exact ⟨rfl, rfl⟩
  | callback l x =>
      by_cases hphase : ∃ cb callbacks active,
          (s.world.reactors l).phase = .handling (.conn c) (cb :: callbacks) active
      · obtain ⟨cb, callbacks, active, hphase⟩ := hphase
        obtain rfl := h.inv.wired.home.eq_zero_of_phase hphase (by simp)
        have hcurrent := current_of_phase hphase
        obtain ⟨-, conn, hc, -⟩ := h.conn_of_phase hphase
        rw [leaving_self hcurrent hc]
        cases cb with
        | close | error => exact ⟨arriving_of_ne hcurrent (by simp), rfl⟩
        | write =>
            have hidle : Endpoint.isWriting ⟨conn, s.world.channels (.conn c)⟩ = false := by
              rw [Endpoint.isWriting, Channel.isWriting,
                ((h.accounts c).line conn hc).unlisted hout]
              decide
            refine ⟨arriving_of_ne hcurrent (by simp), ?_⟩
            rw [method, Endpoint.handleWrite_idle hidle]
            rfl
        | read =>
            rw [arriving_read hcurrent, method, handleRead]
            cases hread : x.read with
            | error errno => exact ⟨rfl, rfl⟩
            | received data =>
                refine absurd (h.listed_of_mayClose hphase (Or.inr ⟨rfl, ?_⟩) hfair.early) hout
                rw [hread]
                trivial
      · have hcurrent (cb : Channel.Callback) : s.world.current l ≠ some (c, cb) := by
          unfold current
          split
          · rename_i heq
            rintro ⟨⟩
            exact hphase ⟨_, _, _, heq⟩
          · simp
        refine ⟨if_neg (hcurrent .read), ?_⟩
        simp only [leaving]
        split
        · rename_i c' cb conn hcb hc
          refine if_neg ?_
          rintro rfl
          exact hcurrent cb hcb
        · rfl

/-- What an action moves on a listed connection, with what is unsent after it. -/
theorem Line.moved {received transmitted arrived left unsent : List Byte}
    (h : Line w c conn received transmitted)
    (hbytes : (transmitted ++ left) ++ unsent = received ++ arrived) :
    left ++ unsent = conn.outputBuffer.content ++ arrived := by
  rw [← h.bytes, List.append_assoc, List.append_assoc] at hbytes
  exact List.append_cancel_left hbytes

/-- One action of the server is a few steps of the relay of each connection. -/
theorem Serves.simulates (h : Serves s owners) (hfair : Fair s a)
    (h' : Serves (s.after a w) owners') (hadvances : Advances s.world w) (c : Nat) :
    Relay.Steps (s.session c) ((s.after a w).session c) := by
  have hreceived : (s.after a w).received c = s.received c ++ arriving s.world a c := rfl
  have htransmitted : (s.after a w).transmitted c = s.transmitted c ++ leaving s.world a c := rfl
  have hadvances : Advances s.world (s.after a w).world := hadvances
  have hsplit := (h'.accounts c).transmitted_append
  generalize s.after a w = s' at *
  rcases Nat.lt_or_ge c s'.world.nextObj with hnext' | hnext'
  · rcases Nat.lt_or_ge c s.world.nextObj with hnext | hnext
    · by_cases hlisted : s.world.Listed c
      · obtain ⟨conn, hc, -⟩ := h.conn_of_listed hlisted
        have hline := (h.accounts c).line conn hc
        rw [session_running hc hnext hlisted]
        by_cases hlisted' : s'.world.Listed c
        · obtain ⟨conn', hc', -⟩ := h'.conn_of_listed hlisted'
          have hbytes := ((h'.accounts c).line conn' hc').bytes
          rw [htransmitted, hreceived] at hbytes
          rw [session_running hc' hnext' hlisted', htransmitted]
          exact Relay.carries (hline.moved hbytes)
        · rw [htransmitted, hreceived] at hsplit
          rw [session_stopped hnext' hlisted', htransmitted, hreceived]
          exact (Relay.carries (hline.moved hsplit)).tail (.stop _ _)
      · have hlisted' : ¬ s'.world.Listed c := fun hl => hlisted (hadvances.listed c hnext hl)
        obtain ⟨harriving, hleaving⟩ := h.silent_of_unlisted hfair hlisted
        rw [harriving, List.append_nil] at hreceived
        rw [hleaving, List.append_nil] at htransmitted
        rw [session_stopped hnext hlisted, session_stopped hnext' hlisted', hreceived,
          htransmitted]
    · have hunlisted : ¬ s.world.Listed c := fun hl => by
        obtain ⟨-, -, hlt⟩ := h.conn_of_listed hl
        omega
      obtain ⟨harriving, hleaving⟩ := h.silent_of_unlisted hfair hunlisted
      obtain ⟨hnone, hnone'⟩ := (h.accounts c).future hnext
      rw [hnone, harriving, List.append_nil] at hreceived
      rw [hnone', hleaving, List.append_nil] at htransmitted
      have hstart : Relay.Steps (s.session c) (.running [] []) := by
        rw [session_idle hnext]
        exact .single .start
      by_cases hlisted' : s'.world.Listed c
      · obtain ⟨conn', hc', -⟩ := h'.conn_of_listed hlisted'
        have hbytes := ((h'.accounts c).line conn' hc').bytes
        rw [htransmitted, hreceived, List.nil_append] at hbytes
        rw [session_running hc' hnext' hlisted', htransmitted, hbytes]
        exact hstart
      · rw [session_stopped hnext' hlisted', htransmitted, hreceived]
        exact hstart.tail (.stop [] [])
  · rw [session_idle hnext', session_idle (hadvances.nextObj.trans hnext')]

theorem Serves.refines_step (h : Serves s owners) (hfair : Fair s a) :
    ∃ s', s.step a = .ok s' ∧ (∃ owners', Serves s' owners') ∧
      ∀ c, Relay.Steps (s.session c) (s'.session c) := by
  obtain ⟨s', hs', owners', hserves⟩ := h.step hfair
  obtain ⟨w, hw, hafter⟩ := bind_eq_ok.mp hs'
  obtain rfl := Except.ok.inj hafter
  obtain ⟨hkernel, hlocal⟩ := undisturbed_answer hfair.undisturbed
  obtain ⟨-, heffect⟩ := (h.inv.step hkernel hlocal).of_eq_ok hw
  exact ⟨_, hs', ⟨owners', hserves⟩, h.simulates hfair hserves heffect.advances⟩

/-- A state that keeps the invariant and to which every relay has come from `relays`. -/
def Refines (relays : Nat → Relay Byte) (s : EchoServer) : Prop :=
  (∃ owners, Serves s owners) ∧ ∀ c, Relay.Steps (relays c) (s.session c)

theorem Refines.step {relays : Nat → Relay Byte} (h : Refines relays s) (hfair : Fair s a) :
    ∃ s', s.step a = .ok s' ∧ Refines relays s' := by
  obtain ⟨⟨owners, hserves⟩, hsteps⟩ := h
  obtain ⟨s', hs', hserves', hnext⟩ := hserves.refines_step hfair
  exact ⟨s', hs', hserves', fun c => (hsteps c).trans (hnext c)⟩

theorem Constructed.refines (h : Constructed s) : Refines (fun _ => .idle) s := by
  refine ⟨⟨[], h.serves⟩, fun c => ?_⟩
  rw [session_idle (h.initial.nextObj ▸ Nat.zero_le c)]

theorem Continues.refines (h : Continues s s') {relays : Nat → Relay Byte}
    (hs : Refines relays s) : Refines relays s' := by
  obtain ⟨_, ⟨⟩, hrefines⟩ := faultless_from hs (fun _ _ hs₀ hfair => hs₀.step hfair) h
  exact hrefines

theorem refines_of_reach (h : Reach (.ok s)) : Refines (fun _ => .idle) s := by
  obtain ⟨_, ⟨⟩, hrefines⟩ :=
    faultless (fun _ hs => Constructed.refines hs) (fun _ _ hs hfair => hs.step hfair) h
  exact hrefines

/-- Along every fair run each connection goes through the steps of a relay, from the
start of the server to any state and from there to any later one. -/
theorem refines_relay (h : Reach (.ok s)) (h' : Continues s s') (c : Nat) :
    Relay.Steps .idle (s.session c) ∧ Relay.Steps (s.session c) (s'.session c) := by
  obtain ⟨hserves, hsteps⟩ := refines_of_reach h
  have hlater : Refines s.session s' := h'.refines ⟨hserves, fun _ => .refl⟩
  exact ⟨hsteps c, hlater.2 c⟩

/-- A connection that has been closed stays closed: it is not listed again, and no byte
is read from it or written to it. -/
theorem stays_closed (h : Reach (.ok s)) (h' : Continues s s') (hold : c < s.world.nextObj)
    (hout : ¬ s.world.Listed c) :
    ¬ s'.world.Listed c ∧ s'.received c = s.received c ∧ s'.transmitted c = s.transmitted c := by
  obtain ⟨⟨owners, hserves⟩, -⟩ := refines_of_reach h
  have hlater : Refines s.session s' := h'.refines ⟨⟨owners, hserves⟩, fun _ => .refl⟩
  obtain ⟨⟨owners', hserves'⟩, hsteps⟩ := hlater
  have hsession := hsteps c
  rw [session_stopped hold hout] at hsession
  obtain ⟨hout', hsent, hlost⟩ := session_eq_stopped (Relay.eq_of_stopped hsession)
  refine ⟨hout', ?_, hsent⟩
  rw [← (hserves'.accounts c).transmitted_append, hlost, hsent]
  exact (hserves.accounts c).transmitted_append

section Example

/-- The client of the example hangs up while the last byte waits. -/
def exampleHangUp : List Action :=
  exampleRun.drop 15 ++ [.endChannel 0, .doPendingFunctors 0, .endFunctors 0,
    .pollReturn 0 [0, 0, 0, 16] 1, .nextChannel 0, .callback 0 noAnswers]

theorem example_refines_relay : ∃ s s', Reach (.ok s) ∧ Continues s s' ∧
    Relay.Steps .idle (.running [7] [8, 9] : Relay Byte) ∧
      Relay.Steps (.running [7] [8, 9] : Relay Byte) (.stopped [7, 8] [9]) := by
  obtain ⟨x, hx, hp⟩ := Machine.exists_reach (whileRunning Fair) (M := machine)
    ⟨fresh, rfl, constructed_fresh⟩ (exampleRun.take 15)
    (fun x => match x with
      | .ok s => s.session 0 = .running [7] [8, 9] ∧
          ((machine.startingAt (.ok s)).runs (whileRunning Fair) (.ok s) exampleHangUp).any
            fun y => match y with
              | .ok s' => s'.session 0 = .stopped [7, 8] [9]
              | .error _ => false
      | .error _ => false) (by decide +kernel)
  cases x with
  | error f => cases hp
  | ok s =>
      obtain ⟨hsession, hlater⟩ := of_decide_eq_true hp
      obtain ⟨y, hy, hp'⟩ := Machine.exists_reach (whileRunning Fair)
        (M := machine.startingAt (.ok s)) rfl exampleHangUp _ hlater
      cases y with
      | error f => cases hp'
      | ok s' =>
          have hsession' : s'.session 0 = .stopped [7, 8] [9] := of_decide_eq_true hp'
          have hsteps := refines_relay hx hy 0
          rw [hsession, hsession'] at hsteps
          exact ⟨s, s', hx, hy, hsteps⟩

/-- The functor destroys the connection, and the last pointer to it goes away. -/
theorem example_stays_closed : ∃ s s', Reach (.ok s) ∧ Continues s s' ∧
    s'.world.conns 0 = none ∧ ¬ s'.world.Listed 0 ∧ s'.transmitted 0 = [7, 8] := by
  obtain ⟨x, hx, hp⟩ := Machine.exists_reach (whileRunning Fair) (M := machine)
    ⟨fresh, rfl, constructed_fresh⟩ (exampleRun.take 15 ++ exampleHangUp)
    (fun x => match x with
      | .ok s => s.session 0 = .stopped [7, 8] [9] ∧ 0 < s.world.nextObj ∧
          ((machine.startingAt (.ok s)).runs (whileRunning Fair) (.ok s) [.endChannel 0,
            .doPendingFunctors 0, .functor 0 noAnswers, .endFunctors 0, .destroy 0]).any
            fun y => match y with
              | .ok s' => (s'.world.conns 0).isNone
              | .error _ => false
      | .error _ => false) (by decide +kernel)
  cases x with
  | error f => cases hp
  | ok s =>
      obtain ⟨hsession, hold, hlater⟩ := of_decide_eq_true hp
      obtain ⟨hout, hsent, -⟩ := session_eq_stopped hsession
      obtain ⟨y, hy, hp'⟩ := Machine.exists_reach (whileRunning Fair)
        (M := machine.startingAt (.ok s)) rfl _ _ hlater
      cases y with
      | error f => cases hp'
      | ok s' =>
          obtain ⟨hout', -, hsent'⟩ := stays_closed hx hy hold hout
          exact ⟨s, s', hx, hy, Option.isNone_iff_eq_none.mp hp', hout', hsent'.trans hsent⟩

end Example

end EchoServer

end Yatwb
