import Yatwb.Buffer.Growth
import Yatwb.Buffer.SizeT

/-!
# Shrinking a buffer

`shrink` copies the readable bytes behind the reserve of a new vector and takes
that vector over. It leaves `reader_idx_` and `writer_idx_` where they stood
in the old one, so they are right only for a buffer whose readable bytes
already began behind the reserve.
-/

namespace Yatwb

open Foundation

namespace Buffer

/-- The buffer and `rhs` after `swap(rhs)`. -/
def swap (b rhs : Buffer) : Buffer × Buffer :=
  (⟨rhs.buffer, rhs.readerIdx, rhs.writerIdx⟩, ⟨b.buffer, b.readerIdx, b.writerIdx⟩)

/-- The buffers that the calls other than `shrink` lead to. No vector exceeds `max_size()`. -/
inductive Reachable : Buffer → Prop
  | fresh : Reachable new
  | call {b b' : Buffer} {c : Call} {out : Option (List Byte)} (h : Reachable b)
      (hc : b.call c = .ok (b', out)) (hsize : b'.buffer.length ≤ maxSize) : Reachable b'
  | swap {b rhs : Buffer} (h : Reachable b) (hrhs : Reachable rhs) : Reachable (b.swap rhs).1

/-- Make the calls of a list in order. The trace has the queue operation each of
them stood for and the string it returned. -/
def calls (b : Buffer) :
    List Call → Except Fault (Buffer × List (QueueOp × Option (List Byte)))
  | [] => return (b, [])
  | c :: rest => do
      let (b', out) ← b.call c
      let (last, trace) ← b'.calls rest
      return (last, (c.meaning b, out) :: trace)

/-- The same for a byte queue. -/
def replay (q : List Byte) : List QueueOp → List Byte × List (QueueOp × Option (List Byte))
  | [] => (q, [])
  | o :: rest =>
      let (q', out) := o.apply q
      let (last, trace) := replay q' rest
      (last, (o, out) :: trace)

/-- Later calls that stand for the same queue operations return the same strings and
leave the same readable bytes. -/
def Alike (b b' : Buffer) : Prop :=
  ∀ cs cs' last last' trace trace', b.calls cs = .ok (last, trace) →
    b'.calls cs' = .ok (last', trace') → trace.map Prod.fst = trace'.map Prod.fst →
    trace = trace' ∧ last.content = last'.content

namespace SizeT

/-- The allocation and the copy; the indices stay. -/
def shrink (grants : Nat → Bool) (b : Buffer) (reserve : Nat) : Except Stop Buffer :=
  let readable := readableBytes b
  let size := Word.add 64 (Word.add 64 cheapPrependSize readable) reserve
  if Allocates grants size then do
    check (b.peek + readable ≤ b.buffer.length) (.aborted .copyOutOfRange)
    check (cheapPrependSize + readable ≤ size) (.aborted .copyOutOfRange)
    let buf := writeAt (List.replicate size 0) cheapPrependSize
      (segment b.buffer b.peek (b.peek + readable))
    return { b with buffer := buf }
  else .error (.thrown b)

/-- What `shrink` is for. -/
def Shrinks (grants : Nat → Bool) (b : Buffer) (reserve : Nat) : Prop :=
  ∃ b', shrink grants b reserve = .ok b' ∧ b'.content = b.content ∧
    b'.readerIdx ≤ b'.writerIdx ∧ b'.writerIdx ≤ b'.buffer.length ∧
    writableBytes b' = reserve ∧ Alike b b'

end SizeT

open SizeT (Sized Stop Allocates shrink Shrinks)

variable {b b' : Buffer}

/-- A run is determined by the readable bytes at its start and its queue operations. -/
theorem calls_replay {cs : List Call} {last : Buffer}
    {trace : List (QueueOp × Option (List Byte))} (hb : b.Inv)
    (h : b.calls cs = .ok (last, trace)) :
    replay b.content (trace.map Prod.fst) = (last.content, trace) := by
  induction cs generalizing b trace with
  | nil =>
      cases h
      rfl
  | cons c rest ih =>
      obtain ⟨⟨b₁, out⟩, hb₁, h⟩ := bind_eq_ok.mp h
      obtain ⟨⟨last₁, trace₁⟩, hrest, h⟩ := bind_eq_ok.mp h
      cases h
      obtain ⟨hinv, -, hmeaning⟩ := call_spec hb hb₁
      have hreplay := ih hinv hrest
      simp only [List.map_cons, replay, ← hmeaning, hreplay]

theorem alike_of_content (hb : b.Inv) (hb' : b'.Inv) (hcontent : b'.content = b.content) :
    Alike b b' := by
  intro cs cs' last last' trace trace' h h' hmeanings
  have hreplay := calls_replay hb h
  have hreplay' := calls_replay hb' h'
  rw [hcontent, ← hmeanings, hreplay] at hreplay'
  exact ⟨congrArg Prod.snd hreplay', congrArg Prod.fst hreplay'⟩

theorem Reachable.inv (h : Reachable b) : b.Inv := by
  induction h with
  | fresh => exact new_inv
  | call _ hc _ ih => exact (call_spec ih hc).1
  | swap _ _ _ ih => exact ih

theorem Reachable.sized (h : Reachable b) : Sized b := by
  refine ⟨h.inv.ordered, ?_⟩
  induction h with
  | fresh => exact SizeT.new_sized.size_le
  | call _ _ hsize _ => exact hsize
  | swap _ _ _ ih => exact ih

/-- No call makes the vector smaller. -/
theorem size_le_calls {cs : List Call} {last : Buffer}
    {trace : List (QueueOp × Option (List Byte))} (hb : b.Inv)
    (h : b.calls cs = .ok (last, trace)) : b.buffer.length ≤ last.buffer.length := by
  induction cs generalizing b trace with
  | nil =>
      cases h
      exact Nat.le_refl _
  | cons c rest ih =>
      obtain ⟨⟨b₁, out⟩, hb₁, h⟩ := bind_eq_ok.mp h
      obtain ⟨⟨last₁, trace₁⟩, hrest, h⟩ := bind_eq_ok.mp h
      cases h
      obtain ⟨hinv, hsize, -⟩ := call_spec hb hb₁
      calc b.buffer.length ≤ b.sizeAfter c := hb.ordered.le_sizeAfter c
        _ = b₁.buffer.length := hsize.symm
        _ ≤ last.buffer.length := ih hinv hrest

/-- A run that ends within `max_size()` never left it. -/
theorem Reachable.calls {cs : List Call} {last : Buffer}
    {trace : List (QueueOp × Option (List Byte))} (hb : Reachable b)
    (h : b.calls cs = .ok (last, trace)) (hsize : last.buffer.length ≤ maxSize) :
    Reachable last := by
  induction cs generalizing b trace with
  | nil =>
      cases h
      exact hb
  | cons c rest ih =>
      obtain ⟨⟨b₁, out⟩, hb₁, h⟩ := bind_eq_ok.mp h
      obtain ⟨⟨last₁, trace₁⟩, hrest, h⟩ := bind_eq_ok.mp h
      cases h
      have hgrows := size_le_calls (call_spec hb.inv hb₁).1 hrest
      exact ih (hb.call hb₁ (Nat.le_trans hgrows hsize)) hrest

section Shrink

variable {grants : Nat → Bool} {reserve : Nat}

/-- A sum that wraps is too small for the copy. -/
theorem shrink_eq_ok (h : Sized b) (hreserve : reserve < 2 ^ 64)
    (hok : shrink grants b reserve = .ok b') :
    Allocates grants (cheapPrependSize + b.readableBytes + reserve) ∧
      b'.readerIdx = b.readerIdx ∧ b'.writerIdx = b.writerIdx ∧
      b'.buffer.length = cheapPrependSize + b.readableBytes + reserve := by
  have hlimit : cheapPrependSize + b.readableBytes < 2 ^ 64 := h.front_lt
  rw [shrink, h.readableBytes_eq, Word.add_of_lt hlimit] at hok
  split at hok
  · rename_i hallocates
    obtain ⟨-, hok⟩ := check_bind_eq_ok.mp hok
    obtain ⟨hcopy, hok⟩ := check_bind_eq_ok.mp hok
    obtain rfl := Except.ok.inj hok
    have hnowrap : cheapPrependSize + b.readableBytes + reserve < 2 ^ 64 := by
      by_contra hwraps
      rw [Word.add_of_le hlimit hreserve (Nat.not_lt.mp hwraps)] at hcopy
      omega
    rw [Word.add_of_lt hnowrap] at hallocates
    refine ⟨hallocates, rfl, rfl, ?_⟩
    rw [length_writeAt, List.length_replicate, Word.add_of_lt hnowrap]
  · cases hok

theorem of_shrinks (h : Sized b) (hreserve : reserve < 2 ^ 64)
    (hshrinks : Shrinks grants b reserve) :
    b.readerIdx = cheapPrependSize ∧
      Allocates grants (cheapPrependSize + b.readableBytes + reserve) := by
  obtain ⟨b', hok, -, hreader, hwriter, hwritable, -⟩ := hshrinks
  obtain ⟨hallocates, hreaderIdx, hwriterIdx, hsize⟩ := shrink_eq_ok h hreserve hok
  refine ⟨?_, hallocates⟩
  have hsized : Sized b' := ⟨⟨hreader, hwriter⟩, hsize ▸ hallocates.1⟩
  have hle := h.reader_le
  rw [hsized.writableBytes_eq] at hwritable
  simp only [writableBytes, readableBytes] at hwritable hsize
  omega

/-- With the readable bytes behind the reserve, the indices fit the new vector. -/
theorem shrinks_of (h : Sized b) (hinv : b.Inv) (hreader : b.readerIdx = cheapPrependSize)
    (hallocates : Allocates grants (cheapPrependSize + b.readableBytes + reserve)) :
    Shrinks grants b reserve := by
  have hlimit : cheapPrependSize + b.readableBytes < 2 ^ 64 := h.front_lt
  have hnowrap : cheapPrependSize + b.readableBytes + reserve < 2 ^ 64 := by
    have hmax := hallocates.1
    simp only [maxSize] at hmax
    omega
  have hend : b.peek + b.readableBytes = b.writerIdx := by
    have := h.reader_le
    simp only [peek, readableBytes]
    omega
  have hwriter : cheapPrependSize + b.readableBytes = b.writerIdx := hreader ▸ hend
  have hlength : b.content.length = b.readableBytes := length_content hinv
  have hroom : cheapPrependSize + b.content.length ≤
      (List.replicate (cheapPrependSize + b.readableBytes + reserve) (0 : Byte)).length := by
    rw [hlength, List.length_replicate]
    omega
  let b' : Buffer :=
    { b with
      buffer := writeAt (List.replicate (cheapPrependSize + b.readableBytes + reserve) 0)
        cheapPrependSize b.content }
  have hsize : b'.buffer.length = cheapPrependSize + b.readableBytes + reserve := by
    simp only [b', length_writeAt, List.length_replicate]
  have hinv' : b'.Inv := by
    refine ⟨h.reader_le, ?_, ?_⟩
    · rw [hsize, hwriter]
      exact Nat.le_add_right _ _
    · rw [hsize, Nat.add_assoc]
      exact Nat.le_add_right _ _
  have hsized : Sized b' := ⟨hinv'.ordered, hsize ▸ hallocates.1⟩
  have hcontent : b'.content = b.content := by
    change segment b'.buffer b.readerIdx b.writerIdx = b.content
    rw [hreader, ← hwriter, ← hlength]
    exact segment_writeAt_self _ cheapPrependSize b.content hroom
  refine ⟨b', ?_, hcontent, h.reader_le, hinv'.writer_le, ?_, alike_of_content hinv hinv' hcontent⟩
  · have hsum : Word.add 64 (Word.add 64 cheapPrependSize b.readableBytes) reserve =
        cheapPrependSize + b.readableBytes + reserve := by
      rw [Word.add_of_lt hlimit, Word.add_of_lt hnowrap]
    simp only [shrink, h.readableBytes_eq, hsum, if_pos hallocates, hend]
    rw [check_bind_of _ h.writer_le, check_bind_of _ (Nat.le_add_right _ _)]
    rfl
  · rw [hsized.writableBytes_eq, writableBytes, hsize]
    change cheapPrependSize + b.readableBytes + reserve - b.writerIdx = reserve
    omega

/-- `shrink` keeps the content, the order of the indices and the reserve exactly when
the readable bytes begin behind the reserve and the new vector can be had. -/
theorem shrinks_iff_reader_at_reserve (grants : Nat → Bool) (b : Buffer) (h : Reachable b)
    (reserve : Nat) (hreserve : reserve < 2 ^ 64) :
    Shrinks grants b reserve ↔
      b.readerIdx = cheapPrependSize ∧
        Allocates grants (cheapPrependSize + b.readableBytes + reserve) :=
  ⟨of_shrinks h.sized hreserve, fun hb => shrinks_of h.sized h.inv hb.1 hb.2⟩

/-- Two of three bytes are read and two others prepended, so the readable bytes begin
behind the reserve again. -/
theorem shrinks_after_prepend :
    ∃ b, Reachable b ∧ b.content = [7, 8, 3] ∧ Shrinks (fun _ => true) b 5 := by
  have hrun : (new.calls [.op (.append [1, 2, 3]), .op (.retrieve 2),
      .op (.prepend [7, 8])]).toOption.any (fun r => decide (r.1.buffer.length ≤ maxSize ∧
        r.1.content = [7, 8, 3] ∧ r.1.readerIdx = cheapPrependSize ∧
        Allocates (fun _ => true) (cheapPrependSize + r.1.readableBytes + 5))) = true := by
    decide +kernel
  obtain ⟨⟨b, trace⟩, hb, hfacts⟩ := (Option.any_eq_true _ _).mp hrun
  obtain ⟨hsize, hcontent, hreader, hallocates⟩ := of_decide_eq_true hfacts
  have hreach : Reachable b := Reachable.fresh.calls (toOption_eq_some.mp hb) hsize
  refine ⟨b, hreach, hcontent, ?_⟩
  rw [shrinks_iff_reader_at_reserve (fun _ => true) b hreach 5 (by decide)]
  exact ⟨hreader, hallocates⟩

/-- One of three bytes is read; afterwards `writer_idx_` is outside the vector. -/
theorem not_shrinks_after_retrieve :
    ∃ b b', Reachable b ∧ b.content = [2, 3] ∧ shrink (fun _ => true) b 0 = .ok b' ∧
      b'.buffer.length < b'.writerIdx ∧ ¬ Shrinks (fun _ => true) b 0 := by
  have hrun : (new.calls [.op (.append [1, 2, 3]), .op (.retrieve 1)]).toOption.any
      (fun r => decide (r.1.buffer.length ≤ maxSize ∧ r.1.content = [2, 3] ∧
        r.1.readerIdx = 9 ∧ (shrink (fun _ => true) r.1 0).toOption.any
          fun b' => decide (b'.buffer.length < b'.writerIdx))) = true := by
    decide +kernel
  obtain ⟨⟨b, trace⟩, hb, hfacts⟩ := (Option.any_eq_true _ _).mp hrun
  obtain ⟨hsize, hcontent, hreader, hshrunk⟩ := of_decide_eq_true hfacts
  obtain ⟨b', hb', hcut⟩ := (Option.any_eq_true _ _).mp hshrunk
  have hreach : Reachable b := Reachable.fresh.calls (toOption_eq_some.mp hb) hsize
  refine ⟨b, b', hreach, hcontent, toOption_eq_some.mp hb', of_decide_eq_true hcut, ?_⟩
  intro hshrinks
  have hreserve := (of_shrinks hreach.sized (by decide) hshrinks).1
  rw [hreader] at hreserve
  cases hreserve

end Shrink

end Buffer

end Yatwb
