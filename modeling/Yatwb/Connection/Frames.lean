import Yatwb.Connection.WritePaths

/-!
# What the methods of a connection leave alone

Whatever the buffers hold and whatever `write(2)` and `readv(2)` answer, the
two write paths change the output buffer and the interest of the channel, and
`handleRead` changes the input buffer. The interest is handed to the poller
after nothing but writes.
-/

namespace Yatwb.Endpoint

open Foundation

/-- A fault of the buffers or of the count of a write: no assert on `state_` is one. -/
def IoFault : TcpConnection.Fault → Prop
  | .buffer _ => True
  | .sendInLoopNwrote => True
  | _ => False

/-- The requests hold an `update`, after nothing but writes. -/
def Updates (asked post : List Request) : Prop :=
  ∃ pre, asked = pre ++ .update :: post ∧ ∀ q ∈ pre, ∃ taken, q = .write taken

/-- What a write path does, whatever the buffers hold: it writes to the output
buffer, and hands every change of the interest to the poller. -/
structure Writes (e : Endpoint) (outcome : Endpoint × List Request) : Prop where
  conn : ∃ b, outcome.1.conn = { e.conn with outputBuffer := b }
  channel : (outcome.1.channel = e.channel ∧ .update ∉ outcome.2) ∨
    ∃ i post, outcome.1.channel = e.channel.change i ∧ Updates outcome.2 post ∧ .update ∉ post

theorem ofBuffer_ends {α : Type} (x : Except Buffer.Fault α) :
    Ends (fun _ => True) IoFault (ofBuffer x) := by
  cases x with
  | error f => exact trivial
  | ok a => exact trivial

theorem directWrite_requests {e : Endpoint} {message : List Byte} {r : WriteResult}
    {nwrote : Int} {asked : List Request} (hd : e.directWrite message r = (nwrote, asked)) :
    .update ∉ asked ∧
      (nwrote.toNat < message.length → ∀ q ∈ asked, ∃ taken, q = .write taken) := by
  simp only [directWrite] at hd
  split at hd
  · split at hd
    · split at hd
      · cases hd
        simp
      · rename_i hall
        split at hd
        · cases hd
          simp [hall]
        · cases hd
          simp
    · cases hd
      simp
  · cases hd
    simp

theorem sendInLoop_writes (e : Endpoint) (message : List Byte) (r : WriteResult) :
    Ends e.Writes IoFault (e.sendInLoop message r) := by
  obtain ⟨nwrote, asked, hd⟩ : ∃ nwrote asked, e.directWrite message r = (nwrote, asked) :=
    ⟨_, _, rfl⟩
  obtain ⟨hupdate, hpart⟩ := directWrite_requests hd
  simp only [sendInLoop, hd]
  apply ends_check (fun _ => trivial)
  intro _
  split
  · rename_i hlt
    apply (ofBuffer_ends _).bind
    intro output _
    split
    · exact ⟨⟨output, rfl⟩, Or.inl ⟨rfl, hupdate⟩⟩
    · exact ⟨⟨output, rfl⟩, Or.inr ⟨.enableWriting, [], rfl, ⟨_, rfl, hpart hlt⟩, by simp⟩⟩
  · exact ⟨⟨_, rfl⟩, Or.inl ⟨rfl, hupdate⟩⟩

theorem handleWrite_writes (e : Endpoint) (r : WriteResult) :
    Ends e.Writes IoFault (e.handleWrite r) := by
  have hsame : e.Writes (e, []) := ⟨⟨_, rfl⟩, Or.inl ⟨rfl, by simp⟩⟩
  unfold handleWrite
  split
  · split
    · apply (ofBuffer_ends _).bind
      intro output _
      change Ends e.Writes IoFault (if (e.setOutput output).outstanding = 0 then _ else _)
      split
      · have hlast : .update ∉ e.complete ++
            if e.conn.state = .disconnecting then
              ((e.setOutput output).change .disableWriting).1.shutdownInLoop else [] := by
          simp only [List.mem_append, not_or, complete, shutdownInLoop]
          constructor
          · split <;> simp
          · split
            · split <;> simp
            · simp
        exact ⟨⟨output, rfl⟩,
          Or.inr ⟨.disableWriting, _, rfl, ⟨[.write _], rfl, by simp⟩, hlast⟩⟩
      · exact ⟨⟨output, rfl⟩, Or.inl ⟨rfl, by simp⟩⟩
    · exact hsame
  · exact hsame

/-- `readv(2)` did not fail. -/
def Received : Buffer.ReadResult → Prop
  | .received _ => True
  | .error _ => False

instance : ∀ r : Buffer.ReadResult, Decidable (Received r)
  | .received _ => isTrue trivial
  | .error _ => isFalse id

/-- `handleRead` writes to the input buffer only, and a read that failed is
neither a message nor a close. -/
theorem handleRead_reads (e : Endpoint) (r : Buffer.ReadResult) :
    Ends (fun outcome => (∃ b, outcome.1 = { e with conn := { e.conn with inputBuffer := b } }) ∧
        (outcome.2 = .error ∨ Received r))
      IoFault (e.handleRead r) := by
  cases r with
  | error errno => exact ⟨⟨e.conn.inputBuffer, rfl⟩, Or.inl rfl⟩
  | received data =>
      apply (ofBuffer_ends _).bind
      rintro ⟨input, n, err⟩ _
      change Ends _ IoFault (if 0 < n then _ else _)
      split
      · exact ⟨⟨input, rfl⟩, Or.inr trivial⟩
      · split <;> exact ⟨⟨input, rfl⟩, Or.inr trivial⟩

end Yatwb.Endpoint
