import Yatwb.Buffer.Refinement
import Yatwb.Connection.Model

/-!
# The two write paths

`sendInLoop` writes at once when nothing is pending and appends what is left;
`handleWrite` drains the output buffer later. For each of the two, one lemma
lists everything a call can do, whatever `write(2)` answers. What a call
transmits and leaves in the buffer is read off those lists.
-/

namespace Yatwb

open Foundation

/-- The bytes that the kernel took, in order. -/
def sentBytes : List Request → List Byte
  | [] => []
  | .write taken :: rest => taken ++ sentBytes rest
  | _ :: rest => sentBytes rest

@[simp] theorem sentBytes_nil : sentBytes [] = [] := rfl

@[simp] theorem sentBytes_write (taken : List Byte) (rest : List Request) :
    sentBytes (.write taken :: rest) = taken ++ sentBytes rest := rfl

@[simp] theorem sentBytes_update (rest : List Request) :
    sentBytes (.update :: rest) = sentBytes rest := rfl

@[simp] theorem sentBytes_queueWriteComplete (rest : List Request) :
    sentBytes (.queueWriteComplete :: rest) = sentBytes rest := rfl

@[simp] theorem sentBytes_shutdownWrite (rest : List Request) :
    sentBytes (.shutdownWrite :: rest) = sentBytes rest := rfl

namespace Endpoint

/-- `write_cmpl_cb_` is queued when it is set. -/
def complete (e : Endpoint) : List Request :=
  if e.conn.writeCmplCb then [.queueWriteComplete] else []

/-- The readable bytes of the output buffer. -/
def pending (e : Endpoint) : List Byte := e.conn.outputBuffer.content

theorem pending_eq_nil_iff {e : Endpoint} (h : e.conn.outputBuffer.Inv) :
    e.pending = [] ↔ e.outstanding = 0 := Buffer.content_eq_nil_iff h

/-- `sendInLoop` writes the whole message at once. -/
def writesAll (e : Endpoint) (message : List Byte) (r : WriteResult) : Bool :=
  e.writesDirectly && r == .wrote message.length

theorem writesDirectly_of_writesAll {e : Endpoint} {message : List Byte} {r : WriteResult}
    (h : e.writesAll message r = true) : e.writesDirectly = true :=
  (Bool.and_eq_true_iff.mp h).1

theorem writesDirectly_iff {e : Endpoint} :
    e.writesDirectly = true ↔ e.isWriting = false ∧ e.outstanding = 0 := by
  simp [writesDirectly]

@[simp] theorem isWriting_setOutput (e : Endpoint) (b : Buffer) :
    (e.setOutput b).isWriting = e.isWriting := rfl

@[simp] theorem pending_setOutput (e : Endpoint) (b : Buffer) :
    (e.setOutput b).pending = b.content := rfl

theorem ofBuffer_ok {α : Type} {x : Except Buffer.Fault α} {a : α} (h : x = .ok a) :
    ofBuffer x = .ok a := by
  rw [h]
  rfl

/-- The rest of `sendInLoop`, once the count of the immediate write is known. -/
theorem sendInLoop_of_direct {e : Endpoint} {message : List Byte} {r : WriteResult}
    {n : Nat} {asked : List Request} (hd : e.directWrite message r = (↑n, asked)) :
    e.sendInLoop message r =
      if n < message.length then do
        let output ← ofBuffer (e.conn.outputBuffer.append (message.drop n))
        if e.isWriting then return (e.setOutput output, asked)
        else return (((e.setOutput output).change .enableWriting).1, asked ++ [.update])
      else .ok (e, asked) := by
  simp only [sendInLoop, hd, check_bind_of _ (Int.natCast_nonneg n), Int.toNat_natCast]
  rfl

/-- What the immediate write left over goes to the end of the output buffer. -/
theorem sendInLoop_append {e : Endpoint} (h : e.conn.outputBuffer.Inv) {message : List Byte}
    {r : WriteResult} {n : Nat} {asked : List Request}
    (hd : e.directWrite message r = (↑n, asked)) (hn : n < message.length) :
    ∃ b, b.Inv ∧ b.content = e.pending ++ message.drop n ∧
      (e.isWriting = true ∧ e.sendInLoop message r = .ok (e.setOutput b, asked) ∨
        e.isWriting = false ∧ e.sendInLoop message r =
          .ok (((e.setOutput b).change .enableWriting).1, asked ++ [.update])) := by
  obtain ⟨b, hb, hinv, hcontent⟩ := Buffer.append_spec h (message.drop n)
  refine ⟨b, hinv, hcontent, ?_⟩
  rw [sendInLoop_of_direct hd, if_pos hn, ofBuffer_ok hb]
  cases hw : e.isWriting with
  | true => exact Or.inl ⟨rfl, rfl⟩
  | false => exact Or.inr ⟨rfl, rfl⟩

theorem directWrite_of_not {e : Endpoint} (hd : e.writesDirectly = false) (message : List Byte)
    (r : WriteResult) : e.directWrite message r = (↑(0 : Nat), []) := by
  simp [directWrite, hd]

theorem directWrite_error {e : Endpoint} (hd : e.writesDirectly = true) (message : List Byte) :
    e.directWrite message .error = (↑(0 : Nat), []) := by
  simp [directWrite, hd, WriteResult.value]

theorem directWrite_part {e : Endpoint} (hd : e.writesDirectly = true) {message : List Byte}
    {n : Nat} (hn : n < message.length) :
    e.directWrite message (.wrote n) = (↑n, [.write (message.take n)]) := by
  simp [directWrite, hd, WriteResult.value, hn]

theorem directWrite_all {e : Endpoint} (hd : e.writesDirectly = true) (message : List Byte) :
    e.directWrite message (.wrote message.length) =
      (↑message.length, .write message :: e.complete) := by
  simp only [directWrite, if_pos hd, WriteResult.value, Int.toNat_natCast, List.take_length,
    if_pos (Int.natCast_nonneg message.length), if_neg (Nat.lt_irrefl message.length), complete]
  split <;> rfl

/-- Everything `sendInLoop` can do: write the whole message, ignore an empty
one, write a part and append the rest, or append all of it. -/
theorem sendInLoop_cases {e : Endpoint} (h : e.conn.outputBuffer.Inv) (message : List Byte)
    {r : WriteResult} (hr : r.Within message.length) :
    (e.writesAll message r = true ∧
      e.sendInLoop message r = .ok (e, .write message :: e.complete)) ∨
    (e.writesAll message r = false ∧ (
      (message = [] ∧ e.sendInLoop message r = .ok (e, [])) ∨
      (e.writesDirectly = true ∧ ∃ b asked, b.Inv ∧ b.content ≠ [] ∧
        sentBytes asked ++ b.content = message ∧ .queueWriteComplete ∉ asked ∧
        .shutdownWrite ∉ asked ∧
        e.sendInLoop message r = .ok (((e.setOutput b).change .enableWriting).1, asked)) ∨
      (e.writesDirectly = false ∧ ∃ b, b.Inv ∧ b.content = e.pending ++ message ∧
        b.content ≠ [] ∧
        (e.isWriting = true ∧ e.sendInLoop message r = .ok (e.setOutput b, []) ∨
          e.isWriting = false ∧ e.sendInLoop message r =
            .ok (((e.setOutput b).change .enableWriting).1, [.update]))))) := by
  cases hd : e.writesDirectly with
  | false =>
      right
      refine ⟨by simp [writesAll, hd], ?_⟩
      have hdw := directWrite_of_not hd message r
      by_cases hm : message = []
      · left
        refine ⟨hm, ?_⟩
        rw [sendInLoop_of_direct hdw, if_neg (by simp [hm])]
      · right; right
        obtain ⟨b, hinv, hcontent, hsend⟩ :=
          sendInLoop_append h hdw (List.length_pos_iff.mpr hm)
        rw [List.drop_zero] at hcontent
        exact ⟨rfl, b, hinv, hcontent, by simp [hcontent, hm], hsend⟩
  | true =>
      obtain ⟨hw, hempty⟩ := writesDirectly_iff.mp hd
      have hpending : e.pending = [] := (pending_eq_nil_iff h).mpr hempty
      cases r with
      | error =>
          right
          refine ⟨by simp [writesAll], ?_⟩
          have hdw := directWrite_error hd message
          by_cases hm : message = []
          · left
            refine ⟨hm, ?_⟩
            rw [sendInLoop_of_direct hdw, if_neg (by simp [hm])]
          · right; left
            obtain ⟨b, hinv, hcontent, hsend⟩ :=
              sendInLoop_append h hdw (List.length_pos_iff.mpr hm)
            rw [hpending, List.drop_zero, List.nil_append] at hcontent
            rcases hsend with ⟨hw', -⟩ | ⟨-, hsend⟩
            · rw [hw] at hw'
              cases hw'
            · exact ⟨rfl, b, _, hinv, hcontent ▸ hm, by simp [hcontent], by simp, by simp, hsend⟩
      | wrote n =>
          rcases Nat.lt_or_eq_of_le hr with hn | rfl
          · right
            refine ⟨by simp [writesAll, Nat.ne_of_lt hn], ?_⟩
            right; left
            obtain ⟨b, hinv, hcontent, hsend⟩ :=
              sendInLoop_append h (directWrite_part hd hn) hn
            rw [hpending, List.nil_append] at hcontent
            rcases hsend with ⟨hw', -⟩ | ⟨-, hsend⟩
            · rw [hw] at hw'
              cases hw'
            · have hne : b.content ≠ [] := by
                rw [hcontent]
                simpa using hn
              exact ⟨rfl, b, _, hinv, hne, by simp [hcontent], by simp, by simp, hsend⟩
          · left
            refine ⟨by simp [writesAll, hd], ?_⟩
            rw [sendInLoop_of_direct (directWrite_all hd message), if_neg (Nat.lt_irrefl _)]

/-- `handleWrite` does nothing to a connection that has nothing to write. -/
theorem handleWrite_idle {e : Endpoint} (h : e.isWriting = false) (r : WriteResult) :
    e.handleWrite r = .ok (e, []) := by
  unfold handleWrite
  rw [h]
  rfl

/-- Everything `handleWrite` can do: nothing, write a part, or write the rest. -/
theorem handleWrite_cases {e : Endpoint} (h : e.conn.outputBuffer.Inv) {r : WriteResult}
    (hr : r.Within e.outstanding) :
    e.handleWrite r = .ok (e, []) ∨
    (e.isWriting = true ∧ ∃ b n, b.Inv ∧ b.content = e.pending.drop n ∧ b.content ≠ [] ∧
      e.handleWrite r = .ok (e.setOutput b, [.write (e.pending.take n)])) ∨
    (e.isWriting = true ∧ ∃ b, b.Inv ∧ b.content = [] ∧
      e.handleWrite r = .ok (((e.setOutput b).change .disableWriting).1,
        [.write e.pending, .update] ++ e.complete ++
          (if e.conn.state = .disconnecting then [.shutdownWrite] else []))) := by
  cases hw : e.isWriting with
  | false =>
      left
      simp [handleWrite, hw, pure, Except.pure]
  | true =>
      cases r with
      | error =>
          left
          simp [handleWrite, hw, WriteResult.value, pure, Except.pure]
      | wrote n =>
          rcases Nat.eq_zero_or_pos n with rfl | hpos
          · left
            simp [handleWrite, hw, WriteResult.value, pure, Except.pure]
          · right
            obtain ⟨b, hb, hinv, hcontent⟩ := Buffer.retrieve_spec h hr
            have hlead : e.handleWrite (.wrote n) =
                if (e.setOutput b).outstanding = 0 then
                  .ok (((e.setOutput b).change .disableWriting).1,
                    [.write (e.pending.take n), .update] ++ e.complete ++
                      (if e.conn.state = .disconnecting then
                        ((e.setOutput b).change .disableWriting).1.shutdownInLoop else []))
                else .ok (e.setOutput b, [.write (e.pending.take n)]) := by
              simp only [handleWrite, hw, WriteResult.value, Int.natCast_pos, hpos, if_true,
                Int.toNat_natCast, ofBuffer_ok hb]
              rfl
            have hread : (e.setOutput b).outstanding = b.readableBytes := rfl
            rw [hread] at hlead
            by_cases hz : b.readableBytes = 0
            · right
              have hnil := (Buffer.content_eq_nil_iff hinv).mpr hz
              have htake : e.pending.take n = e.pending := by
                apply List.take_of_length_le
                rw [← List.drop_eq_nil_iff, ← hnil, hcontent]
                rfl
              have hoff : ((e.setOutput b).change .disableWriting).1.isWriting = false :=
                Channel.isWriting_disableWriting _
              rw [if_pos hz, htake] at hlead
              refine ⟨rfl, b, hinv, hnil, ?_⟩
              rw [hlead, shutdownInLoop, hoff]
              rfl
            · left
              rw [if_neg hz] at hlead
              refine ⟨rfl, b, n, hinv, hcontent, ?_, hlead⟩
              rw [ne_eq, Buffer.content_eq_nil_iff hinv]
              exact hz

end Endpoint

end Yatwb
