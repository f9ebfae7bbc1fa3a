import Yatwb.Buffer.Refinement
import Mathlib.Logic.Equiv.Basic

/-!
# Runs of buffers against runs of byte queues

A run makes any calls on a family of buffers, `swap` between two members
included. Each call is read as an operation on the queue of its buffer; only
`retrieveUntil` needs the buffer for that, since its argument is a pointer.
The run theorem compares the whole run with the run of the queue operations.
-/

namespace Yatwb

open Foundation

/-- What the operations of a buffer mean for its readable bytes. -/
inductive QueueOp
  | push (xs : List Byte)
  | pop (n : Nat)
  | clear
  | popAll
  | pushFront (xs : List Byte)
  | keep
  deriving DecidableEq, Repr

/-- The new byte list, and the bytes returned if the operation returns any. -/
def QueueOp.apply (q : List Byte) : QueueOp → List Byte × Option (List Byte)
  | .push xs => (q ++ xs, none)
  | .pop n => (q.drop n, none)
  | .clear => ([], none)
  | .popAll => ([], some q)
  | .pushFront xs => (xs ++ q, none)
  | .keep => (q, none)

namespace Buffer

/-- The calls on one buffer. `hasWritten` comes with the bytes its caller
stored at `beginWrite()` just before. -/
inductive Op
  | append (data : List Byte)
  | appendString (str : List Byte)
  | appendVoid (data : List Byte)
  | retrieve (len : Nat)
  | retrieveUntil (last : Nat)
  | retrieveAll
  | retrieveAsString
  | prepend (data : List Byte)
  | ensureWritableBytes (len : Nat)
  | hasWritten (stored : List Byte)
  deriving DecidableEq, Repr

/-- What the caller of each operation has to keep. -/
def Op.Pre (b : Buffer) : Op → Prop
  | .retrieve len => len ≤ b.readableBytes
  | .retrieveUntil last => b.peek ≤ last ∧ last ≤ b.beginWrite
  | .prepend data => data.length ≤ b.prependableBytes
  | .hasWritten stored => stored.length ≤ b.writableBytes
  | _ => True

instance (b : Buffer) : (o : Op) → Decidable (o.Pre b)
  | .retrieve len => inferInstanceAs (Decidable (len ≤ b.readableBytes))
  | .retrieveUntil last => inferInstanceAs (Decidable (b.peek ≤ last ∧ last ≤ b.beginWrite))
  | .prepend data => inferInstanceAs (Decidable (data.length ≤ b.prependableBytes))
  | .hasWritten stored => inferInstanceAs (Decidable (stored.length ≤ b.writableBytes))
  | .append _ | .appendString _ | .appendVoid _ | .retrieveAll | .retrieveAsString
  | .ensureWritableBytes _ => isTrue trivial

/-- The queue operation a call stands for. -/
def Op.meaning (b : Buffer) : Op → QueueOp
  | .append data | .appendString data | .appendVoid data | .hasWritten data => .push data
  | .retrieve len => .pop len
  | .retrieveUntil last => .pop (last - b.peek)
  | .retrieveAll => .clear
  | .retrieveAsString => .popAll
  | .prepend data => .pushFront data
  | .ensureWritableBytes _ => .keep

/-- Make one call, with the string it returns if it returns one. -/
def apply (b : Buffer) : Op → Except Fault (Buffer × Option (List Byte))
  | .append data => do return (← b.append data, none)
  | .appendString str => do return (← b.appendString str, none)
  | .appendVoid data => do return (← b.appendVoid data, none)
  | .retrieve len => do return (← b.retrieve len, none)
  | .retrieveUntil last => do return (← b.retrieveUntil last, none)
  | .retrieveAll => return (b.retrieveAll, none)
  | .retrieveAsString => do
      let (b', str) ← b.retrieveAsString
      return (b', some str)
  | .prepend data => do return (← b.prepend data, none)
  | .ensureWritableBytes len => do return (← b.ensureWritableBytes len, none)
  | .hasWritten stored => do
      let b' ← b.copyIn b.beginWrite stored
      return (b'.hasWritten stored.length, none)

/-- One call keeps the invariant, fails no check, and acts on the readable
bytes as its queue operation does. -/
theorem apply_refines {b : Buffer} (h : b.Inv) {o : Op} (hpre : o.Pre b) :
    ∃ b' out, b.apply o = .ok (b', out) ∧ b'.Inv ∧
      (b'.content, out) = (o.meaning b).apply b.content := by
  cases o with
  | append data | appendString data | appendVoid data =>
      obtain ⟨b', hb', hinv, hcontent⟩ := append_spec h data
      refine ⟨b', none, ?_, hinv, by rw [hcontent]; rfl⟩
      simp only [apply, appendString, appendVoid, hb']
      rfl
  | retrieve len =>
      obtain ⟨b', hb', hinv, hcontent⟩ := retrieve_spec h hpre
      refine ⟨b', none, ?_, hinv, by rw [hcontent]; rfl⟩
      simp only [apply, hb']
      rfl
  | retrieveUntil last =>
      obtain ⟨b', hb', hinv, hcontent⟩ := retrieveUntil_spec h hpre.1 hpre.2
      refine ⟨b', none, ?_, hinv, by rw [hcontent]; rfl⟩
      simp only [apply, hb']
      rfl
  | retrieveAll =>
      exact ⟨b.retrieveAll, none, rfl, retrieveAll_inv h, by rw [retrieveAll_content]; rfl⟩
  | retrieveAsString =>
      obtain ⟨b', hb', hinv, hcontent⟩ := retrieveAsString_spec h
      refine ⟨b', some b.content, ?_, hinv, by rw [hcontent]; rfl⟩
      simp only [apply, hb']
      rfl
  | prepend data =>
      obtain ⟨b', hb', hinv, hcontent⟩ := prepend_spec h hpre
      refine ⟨b', none, ?_, hinv, by rw [hcontent]; rfl⟩
      simp only [apply, hb']
      rfl
  | ensureWritableBytes len =>
      obtain ⟨b', hb', hinv, hcontent, -⟩ := ensureWritableBytes_spec h len
      refine ⟨b', none, ?_, hinv, by rw [hcontent]; rfl⟩
      simp only [apply, hb']
      rfl
  | hasWritten stored =>
      obtain ⟨b', hb', hinv, hcontent⟩ := store_spec h hpre
      refine ⟨b'.hasWritten stored.length, none, ?_, hinv, by rw [hcontent]; rfl⟩
      simp only [apply, hb']
      rfl

end Buffer

namespace BufferFamily

variable {ι : Type} [DecidableEq ι]

/-- A call on one member of the family, or `swap` between two members. -/
inductive Call (ι o : Type)
  | on (i : ι) (op : o)
  | swap (i j : ι)
  deriving DecidableEq, Repr

/-- Exchange two members. -/
def exchange {β : Type} (f : ι → β) (i j : ι) : ι → β := f ∘ Equiv.swap i j

/-- What the callers keep: the precondition of the call on its buffer. -/
def Pre (bs : ι → Buffer) : Call ι Buffer.Op → Prop
  | .on i op => op.Pre (bs i)
  | .swap _ _ => True

instance (bs : ι → Buffer) : (c : Call ι Buffer.Op) → Decidable (Pre bs c)
  | .on i op => inferInstanceAs (Decidable (op.Pre (bs i)))
  | .swap _ _ => isTrue trivial

def meaning (bs : ι → Buffer) : Call ι Buffer.Op → Call ι QueueOp
  | .on i op => .on i (op.meaning (bs i))
  | .swap i j => .swap i j

def step (bs : ι → Buffer) :
    Call ι Buffer.Op → Except Buffer.Fault ((ι → Buffer) × Option (List Byte))
  | .on i op => do
      let (b, out) ← (bs i).apply op
      return (Function.update bs i b, out)
  | .swap i j => return (exchange bs i j, none)

def queueStep (qs : ι → List Byte) :
    Call ι QueueOp → (ι → List Byte) × Option (List Byte)
  | .on i op =>
      let (q, out) := op.apply (qs i)
      (Function.update qs i q, out)
  | .swap i j => (exchange qs i j, none)

/-- The outcome of a run: the buffers, and what each call returned. -/
structure Outcome (ι : Type) where
  buffers : ι → Buffer
  outputs : List (Option (List Byte))

/-- Make the calls of a list in order. -/
def run (bs : ι → Buffer) : List (Call ι Buffer.Op) → Except Buffer.Fault (Outcome ι)
  | [] => return ⟨bs, []⟩
  | c :: rest => do
      let (bs', out) ← step bs c
      let tail ← run bs' rest
      return ⟨tail.buffers, out :: tail.outputs⟩

/-- The queue operations that the calls stand for, each on the buffers it finds. -/
def meanings (bs : ι → Buffer) : List (Call ι Buffer.Op) → List (Call ι QueueOp)
  | [] => []
  | c :: rest => meaning bs c ::
      match step bs c with
      | .ok (bs', _) => meanings bs' rest
      | .error _ => []

/-- The same for the queues. -/
def queueRun (qs : ι → List Byte) :
    List (Call ι QueueOp) → (ι → List Byte) × List (Option (List Byte))
  | [] => (qs, [])
  | c :: rest =>
      let (qs', out) := queueStep qs c
      let (qs'', outs) := queueRun qs' rest
      (qs'', out :: outs)

/-- Each call meets its precondition on the buffers it finds. -/
def Permitted (bs : ι → Buffer) : List (Call ι Buffer.Op) → Prop
  | [] => True
  | c :: rest => Pre bs c ∧ ∀ r, step bs c = .ok r → Permitted r.1 rest

instance decidablePermitted (bs : ι → Buffer) :
    (calls : List (Call ι Buffer.Op)) → Decidable (Permitted bs calls)
  | [] => isTrue trivial
  | c :: rest =>
      have : Decidable (∀ r, step bs c = .ok r → Permitted r.1 rest) :=
        match hs : step bs c with
        | .ok r =>
            have := decidablePermitted r.1 rest
            decidable_of_iff (Permitted r.1 rest)
              ⟨fun h r' hr' => Except.ok.inj hr' ▸ h, fun h => h r rfl⟩
        | .error _ => isTrue fun r hr => by cases hr
      inferInstanceAs (Decidable (_ ∧ _))

/-- The readable bytes of every member. -/
def contents (bs : ι → Buffer) : ι → List Byte := fun i => (bs i).content

theorem contents_update (bs : ι → Buffer) (i : ι) (b : Buffer) :
    contents (Function.update bs i b) = Function.update (contents bs) i b.content := by
  funext k
  by_cases hk : k = i
  · subst hk
    simp [contents]
  · simp [contents, hk]

theorem step_refines {bs : ι → Buffer} (h : ∀ i, (bs i).Inv) {c : Call ι Buffer.Op}
    (hpre : Pre bs c) :
    ∃ bs' out, step bs c = .ok (bs', out) ∧ (∀ i, (bs' i).Inv) ∧
      (contents bs', out) = queueStep (contents bs) (meaning bs c) := by
  cases c with
  | on i op =>
      obtain ⟨b, out, hb, hinv, hout⟩ := Buffer.apply_refines (h i) hpre
      refine ⟨Function.update bs i b, out, ?_, ?_, ?_⟩
      · simp only [step, hb]
        rfl
      · intro k
        by_cases hk : k = i
        · subst hk
          simpa using hinv
        · simpa [hk] using h k
      · rw [contents_update]
        simp only [queueStep, meaning]
        exact congrArg (fun r => (Function.update (contents bs) i r.1, r.2)) hout
  | swap i j => exact ⟨exchange bs i j, none, rfl, fun k => h _, rfl⟩

theorem meanings_cons {bs bs' : ι → Buffer} {c : Call ι Buffer.Op} {out : Option (List Byte)}
    (h : step bs c = .ok (bs', out)) (rest : List (Call ι Buffer.Op)) :
    meanings bs (c :: rest) = meaning bs c :: meanings bs' rest := by
  rw [meanings, h]

/-- From any valid family, a permitted run fails no check and agrees with the
run of its queue operations in every returned string and in the final bytes. -/
theorem run_refines (calls : List (Call ι Buffer.Op)) (bs : ι → Buffer)
    (h : ∀ i, (bs i).Inv) (hp : Permitted bs calls) :
    ∃ r, run bs calls = .ok r ∧ (∀ i, (r.buffers i).Inv) ∧
      (meanings bs calls).length = calls.length ∧
      queueRun (contents bs) (meanings bs calls) = (contents r.buffers, r.outputs) := by
  induction calls generalizing bs with
  | nil => exact ⟨⟨bs, []⟩, rfl, h, rfl, rfl⟩
  | cons c rest ih =>
      obtain ⟨bs', out, hstep, hinv, hout⟩ := step_refines h hp.1
      obtain ⟨r, hr, hrinv, hlength, hrun⟩ := ih bs' hinv (hp.2 _ hstep)
      refine ⟨⟨r.buffers, out :: r.outputs⟩, ?_, hrinv, ?_, ?_⟩
      · simp only [run, hstep, hr, bind, Except.bind]
        rfl
      · rw [meanings_cons hstep, List.length_cons, hlength, List.length_cons]
      · rw [meanings_cons hstep]
        simp only [queueRun, ← hout, hrun]

/-- A run from fresh buffers behaves as the run of the queue operations of its calls
from empty byte queues: the invariant holds after every call, no assert of the class
fails, and the readable bytes and returned strings are those of the queues. -/
theorem fresh_run_refines_queues (calls : List (Call ι Buffer.Op))
    (hp : Permitted (fun _ => Buffer.new) calls) :
    (Buffer.new.readableBytes = 0 ∧ Buffer.new.writableBytes = Buffer.initialSize ∧
      Buffer.new.prependableBytes = Buffer.cheapPrependSize) ∧
    ∃ r, run (fun _ => Buffer.new) calls = .ok r ∧
      (∀ i, (r.buffers i).readerIdx ≤ (r.buffers i).writerIdx ∧
        (r.buffers i).writerIdx ≤ (r.buffers i).buffer.length) ∧
      (meanings (fun _ => Buffer.new) calls).length = calls.length ∧
      queueRun (fun _ => []) (meanings (fun _ => Buffer.new) calls) =
        (contents r.buffers, r.outputs) := by
  refine ⟨Buffer.new_sizes, ?_⟩
  obtain ⟨r, hr, hinv, hlength, hrun⟩ := run_refines calls (fun _ => Buffer.new)
    (fun _ => Buffer.new_inv) hp
  have hfresh : contents (fun _ : ι => Buffer.new) = fun _ => [] := by
    funext i
    exact Buffer.new_content
  rw [hfresh] at hrun
  exact ⟨r, hr, fun i => ⟨(hinv i).reader_le, (hinv i).writer_le⟩, hlength, hrun⟩

/-- Two buffers, with a prepend into the reserve, a swap, a string read and a read up
to a pointer. -/
def twoBufferCalls : List (Call Bool Buffer.Op) :=
  [.on false (.append [1, 2, 3]), .on false (.retrieve 1), .on false (.prepend [9, 9, 9]),
    .swap false true, .on true .retrieveAsString, .on false (.append [4, 5]),
    .on false (.retrieveUntil 9), .on true (.hasWritten [6])]

theorem fresh_run_two_buffers :
    ∃ r, run (fun _ => Buffer.new) twoBufferCalls = .ok r ∧
      (r.buffers false).content = [5] ∧ (r.buffers true).content = [6] ∧
      r.outputs = [none, none, none, none, some [9, 9, 9, 2, 3], none, none, none] := by
  obtain ⟨-, r, hr, -, -, hrun⟩ := fresh_run_refines_queues twoBufferCalls (by decide +kernel)
  have hmeanings : meanings (fun _ => Buffer.new) twoBufferCalls =
      [.on false (.push [1, 2, 3]), .on false (.pop 1), .on false (.pushFront [9, 9, 9]),
        .swap false true, .on true .popAll, .on false (.push [4, 5]), .on false (.pop 1),
        .on true (.push [6])] := by decide +kernel
  rw [hmeanings] at hrun
  obtain ⟨hcontents, houtputs⟩ := Prod.mk.inj hrun
  exact ⟨r, hr, (congrFun hcontents false).symm, (congrFun hcontents true).symm, houtputs.symm⟩

end BufferFamily

end Yatwb
