import Yatwb.Connection.Session

/-!
# Write interest, half-close and write-complete

From `establishConnection` up to the first `handleClose`, the write interest
of the channel says exactly whether bytes are pending. This carries the two
decisions that the code takes from the interest bit: `shutdownInLoop` half-closes
at once only when nothing is pending, and otherwise `handleWrite` half-closes
when it has written the last byte.

`shutdownInLoop` is private and runs only because an earlier `shutdown` asked
for it, or at the end of `handleWrite`. A step of its own is therefore taken
here only while one is owed.
-/

namespace Yatwb

open Foundation

namespace Endpoint

/-- The write interest follows the output buffer. -/
def InStep (e : Endpoint) : Prop := e.isWriting = true ↔ 0 < e.outstanding

theorem inStep_writing {e : Endpoint} (hw : e.isWriting = true) (hp : e.pending ≠ [])
    (h : e.conn.outputBuffer.Inv) : e.InStep := by
  have hpos : 0 < e.outstanding := Nat.pos_of_ne_zero fun hz => hp ((pending_eq_nil_iff h).mpr hz)
  exact ⟨fun _ => hpos, fun _ => hw⟩

theorem inStep_idle {e : Endpoint} (hw : e.isWriting = false) (hz : e.outstanding = 0) :
    e.InStep := by
  simp [InStep, hw, hz]

theorem InStep.writesDirectly {e : Endpoint} (h : e.InStep) :
    e.writesDirectly = true ↔ e.outstanding = 0 := by
  rw [writesDirectly_iff]
  refine ⟨And.right, fun hz => ⟨?_, hz⟩⟩
  cases hw : e.isWriting with
  | false => rfl
  | true => exact absurd (h.mp hw) (by omega)

/-- What a step before `handleClose` does to the interest, and what it asks
for, measured against the bytes it leaves pending. -/
structure Reports (e e' : Endpoint) (asked : List Request) : Prop where
  inStep : e'.InStep
  writeCmplCb : e'.conn.writeCmplCb = e.conn.writeCmplCb
  stays : e.conn.state = .disconnecting → e'.conn.state = .disconnecting
  halfClose : .shutdownWrite ∈ asked →
    e'.outstanding = 0 ∧ e'.conn.state = .disconnecting
  drained : 0 < e.outstanding → e'.outstanding = 0 → e.conn.state = .disconnecting →
    .shutdownWrite ∈ asked
  complete : sentBytes asked ≠ [] → e'.outstanding = 0 →
    asked.count .queueWriteComplete = if e.conn.writeCmplCb then 1 else 0
  silent : 0 < e'.outstanding → .queueWriteComplete ∉ asked

/-- A step that asks for nothing and leaves the output side alone. -/
theorem Reports.quiet {e e' : Endpoint} (h : e.InStep) (hchannel : e'.channel = e.channel)
    (houtput : e'.conn.outputBuffer = e.conn.outputBuffer)
    (hcb : e'.conn.writeCmplCb = e.conn.writeCmplCb)
    (hstate : e.conn.state = .disconnecting → e'.conn.state = .disconnecting) :
    Reports e e' [] := by
  have hpending : e'.outstanding = e.outstanding := congrArg Buffer.readableBytes houtput
  have hwriting : e'.isWriting = e.isWriting := congrArg Channel.isWriting hchannel
  constructor
  · rw [InStep, hpending, hwriting]
    exact h
  · exact hcb
  · exact hstate
  · simp
  · omega
  · simp
  · simp

theorem count_complete (e : Endpoint) :
    e.complete.count .queueWriteComplete = if e.conn.writeCmplCb then 1 else 0 := by
  cases hcb : e.conn.writeCmplCb <;> simp [Endpoint.complete, hcb]

theorem shutdownWrite_not_mem_complete (e : Endpoint) : .shutdownWrite ∉ e.complete := by
  cases hcb : e.conn.writeCmplCb <;> simp [Endpoint.complete, hcb]

/-- A step that leaves bytes pending and has asked for no callback. -/
theorem Reports.pending {e e' : Endpoint} {asked : List Request} (hb : e'.conn.outputBuffer.Inv)
    (hw : e'.isWriting = true) (hp : e'.pending ≠ []) (hsame : e.SameButOutput e')
    (hcmpl : .queueWriteComplete ∉ asked) (hshut : .shutdownWrite ∉ asked) :
    Reports e e' asked := by
  have hinStep := inStep_writing hw hp hb
  have hpos := hinStep.mp hw
  constructor
  · exact hinStep
  · rw [hsame]
  · intro hst
    rw [hsame.state_eq, hst]
  · exact fun h => absurd h hshut
  · omega
  · omega
  · exact fun _ => hcmpl

theorem sendInLoop_reports {e : Endpoint} (h : e.conn.outputBuffer.Inv) (hi : e.InStep)
    {message : List Byte} {r : WriteResult} (hr : r.Within message.length) :
    ∃ e' asked, e.sendInLoop message r = .ok (e', asked) ∧ Reports e e' asked := by
  rcases sendInLoop_cases h message hr with
    ⟨hall, hs⟩ | ⟨-, ⟨rfl, hs⟩ | ⟨-, b, asked, hb, hne, -, hcmpl, hshut, hs⟩ |
      ⟨-, b, hb, -, hne, hs⟩⟩
  · have hz := hi.writesDirectly.mp (writesDirectly_of_writesAll hall)
    refine ⟨_, _, hs, hi, rfl, id, ?_, ?_, ?_, ?_⟩
    · intro hmem
      simp [shutdownWrite_not_mem_complete] at hmem
    · omega
    · intro _ _
      simp [count_complete]
    · omega
  · exact ⟨_, _, hs, Reports.quiet hi rfl rfl rfl id⟩
  · exact ⟨_, _, hs, Reports.pending hb (Channel.isWriting_enableWriting _) hne rfl hcmpl hshut⟩
  · rcases hs with ⟨hw, hs⟩ | ⟨-, hs⟩
    · exact ⟨_, _, hs, Reports.pending hb hw hne rfl (by simp) (by simp)⟩
    · exact ⟨_, _, hs, Reports.pending hb (Channel.isWriting_enableWriting _) hne rfl (by simp)
        (by simp)⟩

theorem handleWrite_reports {e : Endpoint} (h : e.conn.outputBuffer.Inv) (hi : e.InStep)
    {r : WriteResult} (hr : r.Within e.outstanding) :
    ∃ e' asked, e.handleWrite r = .ok (e', asked) ∧ Reports e e' asked := by
  rcases handleWrite_cases h hr with
    hs | ⟨hw, b, n, hb, -, hne, hs⟩ | ⟨-, b, hb, hnil, hs⟩
  · exact ⟨_, _, hs, Reports.quiet hi rfl rfl rfl id⟩
  · exact ⟨_, _, hs, Reports.pending hb hw hne rfl (by simp) (by simp)⟩
  · have hz : b.readableBytes = 0 := (Buffer.content_eq_nil_iff hb).mp hnil
    refine ⟨_, _, hs, inStep_idle (Channel.isWriting_disableWriting _) hz, rfl, id, ?_, ?_, ?_, ?_⟩
    · intro hmem
      refine ⟨hz, ?_⟩
      by_contra hst
      have hst' : e.conn.state ≠ .disconnecting := hst
      simp [hst', shutdownWrite_not_mem_complete] at hmem
    · intro _ _ hst
      simp [hst]
    · intro _ _
      by_cases hst : e.conn.state = .disconnecting <;>
        simp [hst, count_complete, List.count_append]
    · intro hpos
      exact absurd hz (Nat.ne_of_gt hpos)

theorem shutdownInLoop_reports {e : Endpoint} (hi : e.InStep)
    (hst : e.conn.state = .disconnecting) : Reports e e e.shutdownInLoop := by
  cases hw : e.isWriting with
  | true =>
      rw [shutdownInLoop, hw]
      exact Reports.quiet hi rfl rfl rfl id
  | false =>
      rw [shutdownInLoop, hw]
      have hz : e.outstanding = 0 := by
        rw [InStep, hw] at hi
        simpa using hi
      exact ⟨hi, rfl, id, fun _ => ⟨hz, hst⟩, by simp, by simp, by simp⟩

end Endpoint

namespace Session

open TcpConnection (Fault)

/-- A connection that has just been established. -/
def Established (s : Session) : Prop :=
  ∃ s₀, Fresh s₀ ∧ s₀.step .establishConnection = .ok s

/-- The steps between `establishConnection` and `handleClose`. -/
def BeforeClose (s : Session) (a : Action) : Prop :=
  Kernel s a ∧ a ≠ .establishConnection ∧ a ≠ .handleClose ∧ a ≠ .destroyConnection ∧
    a ≠ .handleRead (.received []) ∧ (a = .shutdownInLoop → 0 < s.owed)

instance (s : Session) (a : Action) : Decidable (BeforeClose s a) :=
  inferInstanceAs (Decidable (_ ∧ _ ∧ _ ∧ _ ∧ _ ∧ _))

def liveMachine : Machine (Except Fault Session) Action := faulting Established step

/-- The states of runs from `establishConnection` up to `handleClose`. -/
abbrev LiveReach (s : Except Fault Session) : Prop :=
  liveMachine.Reach (whileRunning BeforeClose) s

/-- What holds between two steps. -/
structure Live (s : Session) : Prop where
  stream : Stream s
  inStep : s.endpoint.InStep
  asked : 0 < s.owed ∨ s.shutdownRan = true → s.endpoint.conn.state = .disconnecting
  halfClosed : s.shutdownRan = true → s.endpoint.outstanding = 0 → s.halfClosed = true

/-- What the last step asked for, in view of what it left pending. -/
structure Asked (s : Session) : Prop where
  shutdownWrite : .shutdownWrite ∈ s.asked → s.endpoint.outstanding = 0
  complete : sentBytes s.asked ≠ [] → s.endpoint.outstanding = 0 →
    s.asked.count .queueWriteComplete = if s.endpoint.conn.writeCmplCb then 1 else 0
  silent : 0 < s.endpoint.outstanding → .queueWriteComplete ∉ s.asked

theorem Established.live {s : Session} (h : Established s) : Live s ∧ Asked s := by
  obtain ⟨s₀, hfresh, hs⟩ := h
  have hstream : Ends Stream StateAssert (s₀.step .establishConnection) :=
    hfresh.stream.step trivial
  rw [hs] at hstream
  obtain ⟨loop, name, sockfd, writeCmplCb, memory, rfl⟩ := hfresh
  obtain rfl := Except.ok.inj hs
  have hz : Buffer.new.readableBytes = 0 := Buffer.new_sizes.1
  refine ⟨⟨hstream, ?_, ?_, ?_⟩, ?_, ?_, ?_⟩
  · have hidle := (Channel.isWriting_enableReading (Channel.new loop sockfd memory)).trans
      (Channel.isWriting_new loop sockfd memory)
    exact Endpoint.inStep_idle hidle hz
  · rintro (h | h)
    · exact absurd h (Nat.lt_irrefl 0)
    · cases h
  · intro h
    cases h
  · exact fun _ => hz
  · intro h
    exact absurd rfl h
  · intro h
    exact absurd hz (Nat.ne_of_gt h)

/-- Each step succeeds and reports what it should. -/
theorem perform_reports {s : Session} (h : Live s) {a : Action} (hk : BeforeClose s a) :
    ∃ e asked, a.perform s.endpoint = .ok (e, asked) ∧ s.endpoint.Reports e asked := by
  obtain ⟨hkernel, hestablish, hclose, hdestroy, hread, howed⟩ := hk
  cases a with
  | establishConnection => exact absurd rfl hestablish
  | handleClose => exact absurd rfl hclose
  | destroyConnection => exact absurd rfl hdestroy
  | sendInLoop message r => exact Endpoint.sendInLoop_reports h.stream.output h.inStep hkernel
  | handleWrite r => exact Endpoint.handleWrite_reports h.stream.output h.inStep hkernel
  | handleRead r =>
      obtain ⟨b, outcome, -, hs, houtcome⟩ := Endpoint.handleRead_spec h.stream.input r
      refine ⟨{ s.endpoint with conn := { s.endpoint.conn with inputBuffer := b } }, [], ?_,
        Endpoint.Reports.quiet h.inStep rfl rfl rfl id⟩
      have hgoes : outcome ≠ .close := fun hc => hread (by rw [houtcome.mp hc])
      simp only [Action.perform, hs, bind, Except.bind, if_neg hgoes]
      rfl
  | shutdown =>
      refine ⟨_, _, rfl, ?_⟩
      unfold Endpoint.shutdown
      split
      · exact Endpoint.Reports.quiet h.inStep rfl rfl rfl fun _ => rfl
      · exact Endpoint.Reports.quiet h.inStep rfl rfl rfl id
  | shutdownInLoop =>
      exact ⟨_, _, rfl, Endpoint.shutdownInLoop_reports h.inStep (h.asked (Or.inl (howed rfl)))⟩

/-- A functor is owed because one was owed before, or by this `shutdown`. -/
theorem owes_cases {a : Action} {e : Endpoint} {owed : Nat} (h : 0 < a.owes e owed) :
    0 < owed ∨ a = .shutdown ∧ e.shutdown.1.conn.state = .disconnecting := by
  cases a with
  | shutdown =>
      by_cases hst : e.conn.state = .connected
      · right
        simp [Endpoint.shutdown, hst, Endpoint.setState]
      · left
        simpa [Action.owes, Endpoint.shutdown, hst] using h
  | shutdownInLoop => exact Or.inl (Nat.lt_of_lt_of_le h (Nat.sub_le owed 1))
  | establishConnection | sendInLoop _ _ | handleWrite _ | handleRead _ | handleClose
  | destroyConnection => exact Or.inl h

/-- `shutdownInLoop` has run because it ran before, in this step, or at the end
of this `handleWrite`. -/
theorem shutdownRan_record {s : Session} {a : Action} {e : Endpoint} {asked : List Request}
    (h : (s.record a (e, asked)).shutdownRan = true) :
    s.shutdownRan = true ∨ a = .shutdownInLoop ∨ .shutdownWrite ∈ asked := by
  simpa [record, or_assoc] using h

theorem halfClosed_record {s : Session} {a : Action} {e : Endpoint} {asked : List Request}
    (h : s.halfClosed = true ∨ .shutdownWrite ∈ asked) :
    (s.record a (e, asked)).halfClosed = true := by
  simpa [record] using h

/-- The step lemma: a step before `handleClose` succeeds and keeps everything in step. -/
theorem Live.step {s : Session} (h : Live s) {a : Action} (hk : BeforeClose s a) :
    ∃ s', s.step a = .ok s' ∧ Live s' ∧ Asked s' := by
  obtain ⟨e, asked, hs, hr⟩ := perform_reports h hk
  have hstep : s.step a = .ok (s.record a (e, asked)) := by
    simp only [Session.step, hs]
    rfl
  have hstream : Ends Stream StateAssert (s.step a) := h.stream.step hk.1
  rw [hstep] at hstream
  refine ⟨_, hstep, ⟨hstream, hr.inStep, ?_, ?_⟩, ?_, ?_, ?_⟩
  · rintro (howed | hran)
    · rcases owes_cases howed with howed | ⟨rfl, hst⟩
      · exact hr.stays (h.asked (Or.inl howed))
      · obtain ⟨rfl, -⟩ := Prod.mk.inj (Except.ok.inj hs)
        exact hst
    · rcases shutdownRan_record hran with hran | rfl | hmem
      · exact hr.stays (h.asked (Or.inr hran))
      · exact hr.stays (h.asked (Or.inl (hk.2.2.2.2.2 rfl)))
      · exact (hr.halfClose hmem).2
  · intro hran hz
    apply halfClosed_record
    rcases shutdownRan_record hran with hran | rfl | hmem
    · rcases Nat.eq_zero_or_pos s.endpoint.outstanding with hzero | hpos
      · exact Or.inl (h.halfClosed hran hzero)
      · exact Or.inr (hr.drained hpos hz (h.asked (Or.inr hran)))
    · right
      obtain ⟨rfl, rfl⟩ := Prod.mk.inj (Except.ok.inj hs)
      have hidle : s.endpoint.isWriting = false := by
        rw [Bool.eq_false_iff]
        exact fun hw => absurd hz (Nat.ne_of_gt (h.inStep.mp hw))
      simp [Endpoint.shutdownInLoop, hidle]
    · exact Or.inr hmem
  · exact fun hmem => (hr.halfClose hmem).1
  · intro hsent hz
    have hcount := hr.complete hsent hz
    rw [← hr.writeCmplCb] at hcount
    exact hcount
  · exact hr.silent

/-- In every run from `establishConnection` up to `handleClose`, no assert
fails and after every step: the channel is writing exactly while bytes are
pending; a half-close was asked for only with an empty output buffer, when
every byte given so far is transmitted; once `shutdownInLoop` has run, an
empty output buffer means a half-closed socket; the step that transmitted the
last pending byte queued the write-complete callback once, if there is one;
and a step that left bytes pending did not queue it. -/
theorem interest_follows_output {s : Except Fault Session} (h : LiveReach s) :
    ∃ r, s = .ok r ∧
      (r.endpoint.isWriting = true ↔ 0 < r.endpoint.outstanding) ∧
      (.shutdownWrite ∈ r.asked →
        r.endpoint.outstanding = 0 ∧ r.transmitted = r.given.flatten) ∧
      (r.shutdownRan = true → r.endpoint.outstanding = 0 → r.halfClosed = true) ∧
      (sentBytes r.asked ≠ [] → r.endpoint.outstanding = 0 →
        r.asked.count .queueWriteComplete = if r.endpoint.conn.writeCmplCb then 1 else 0) ∧
      (0 < r.endpoint.outstanding → .queueWriteComplete ∉ r.asked) := by
  have hruns : ∃ r, s = .ok r ∧ (Live r ∧ Asked r) :=
    faultless (fun _ => Established.live) (fun _ _ h hk => h.1.step hk) h
  obtain ⟨r, rfl, hlive, hasked⟩ := hruns
  refine ⟨r, rfl, hlive.inStep, ?_, hlive.halfClosed, hasked.complete, hasked.silent⟩
  intro hmem
  have hz := hasked.shutdownWrite hmem
  have hnil := (Endpoint.pending_eq_nil_iff hlive.stream.output).mpr hz
  refine ⟨hz, ?_⟩
  rw [← hlive.stream.bytes, hnil, List.append_nil]

section Example

/-- A message is half written, `shutdown` comes in between, and the rest is
written later. -/
def exampleSteps : List Action :=
  [.sendInLoop [1, 2, 3, 4] (.wrote 2), .shutdown, .shutdownInLoop, .handleRead (.error 11),
    .handleWrite (.wrote 2)]

theorem interest_follows_output_example :
    ∃ r : Session, LiveReach (.ok r) ∧ r.transmitted = [1, 2, 3, 4] ∧
      r.endpoint.outstanding = 0 ∧ r.halfClosed = true ∧
      r.asked.count .queueWriteComplete = 1 := by
  have hestablished : Established _ :=
    ⟨start (Endpoint.new 0 "s#1" 7 true 0), ⟨_, _, _, _, _, rfl⟩, rfl⟩
  have hinit : liveMachine.init (.ok _) := ⟨_, rfl, hestablished⟩
  obtain ⟨s, hs, hp⟩ := Machine.exists_reach (whileRunning BeforeClose) hinit exampleSteps
    (fun s => match s with
      | .ok r => r.transmitted == [1, 2, 3, 4] && r.endpoint.outstanding == 0 &&
          r.shutdownRan && sentBytes r.asked == [3, 4] && r.endpoint.conn.writeCmplCb
      | .error _ => false) (by decide +kernel)
  obtain ⟨r, rfl, -, -, hclosed, hcount, -⟩ := interest_follows_output hs
  simp only [Bool.and_eq_true, beq_iff_eq] at hp
  obtain ⟨⟨⟨⟨hbytes, hz⟩, hran⟩, hsent⟩, hcb⟩ := hp
  refine ⟨r, hs, hbytes, hz, hclosed hran hz, ?_⟩
  rw [hcount (by simp [hsent]) hz, if_pos hcb]

end Example

end Session

end Yatwb
