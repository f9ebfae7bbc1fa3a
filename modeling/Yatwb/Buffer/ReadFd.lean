import Yatwb.Buffer.Refinement

/-!
# What `readv` leaves in memory

`readFd` hands two areas to `readv(2)`, the writable bytes of the vector and
`extrabuf`, and afterwards looks only at the returned count. Here the outcome
of the call is what it leaves in both areas, and the contract of `readv` says
how they hold the bytes received. Cells that hold none of them may hold
anything, as may the whole writable area when the call fails.
-/

namespace Yatwb

open Foundation

namespace Buffer

/-- The count that `readv` returns, `errno`, and the two areas afterwards. -/
structure Readv where
  n : Int
  errno : Int
  cells : List Byte
  extrabuf : List Byte
  deriving DecidableEq, Repr

namespace Readv

/-- `readFd` after its call of `readv`. The result is the buffer, the returned
count and the errno if it was saved. -/
def readFd (o : Readv) (b : Buffer) : Except Fault (Buffer × Int × Option Int) :=
  let writable := b.writableBytes
  let b := { b with buffer := o.cells }
  if o.n < 0 then return (b, o.n, some o.errno)
  else if o.n.toNat ≤ writable then
    return ({ b with writerIdx := b.writerIdx + o.n.toNat }, o.n, none)
  else do
    let b := { b with writerIdx := b.buffer.length }
    check (o.n.toNat - writable ≤ o.extrabuf.length) .copyOutOfRange
    let b ← b.append (o.extrabuf.take (o.n.toNat - writable))
    return (b, o.n, none)

/-- The two areas keep their sizes, and nothing before the writable bytes changes. -/
structure Scatters (b : Buffer) (o : Readv) : Prop where
  size : o.cells.length = b.buffer.length
  before : segment o.cells 0 b.writerIdx = segment b.buffer 0 b.writerIdx
  extrabuf : o.extrabuf.length = extrabufSize

/-- The contract of `readv` for a call that fails, and for one that receives bytes. -/
def Contract (b : Buffer) (o : Readv) : ReadResult → Prop
  | .error errno => Scatters b o ∧ o.n = -1 ∧ o.errno = errno
  | .received data =>
      Scatters b o ∧ o.n = data.length ∧ data.length ≤ b.writableBytes + extrabufSize ∧
        segment o.cells b.writerIdx (b.writerIdx + min data.length b.writableBytes) =
          data.take b.writableBytes ∧
        o.extrabuf.take (data.length - b.writableBytes) = data.drop b.writableBytes

variable {b : Buffer} {o : Readv}

/-- The readable bytes lie before the writable ones. -/
theorem Scatters.content (h : Scatters b o) :
    segment o.cells b.readerIdx b.writerIdx = b.content := by
  have hdrop : (segment o.cells 0 b.writerIdx).drop b.readerIdx =
      (segment b.buffer 0 b.writerIdx).drop b.readerIdx := by rw [h.before]
  simpa only [drop_segment, Nat.zero_add, Buffer.content] using hdrop

/-- What was stored in the writable area joins the readable bytes. -/
theorem Scatters.content_join (h : Scatters b o) (hb : b.Ordered) {k : Nat}
    (hk : k ≤ b.writableBytes) :
    segment o.cells b.readerIdx (b.writerIdx + k) =
      b.content ++ segment o.cells b.writerIdx (b.writerIdx + k) := by
  have hend : b.writerIdx + k ≤ o.cells.length := by
    have hle : k ≤ b.buffer.length - b.writerIdx := hk
    have := hb.writer_le
    rw [h.size]
    omega
  rw [← h.content, segment_append o.cells hb.reader_le (Nat.le_add_right _ _) hend]

theorem Contract.readFd_error {errno : Int} (hb : b.Ordered) (h : o.Contract b (.error errno)) :
    ∃ b', o.readFd b = .ok (b', -1, some errno) ∧ b'.Ordered ∧ b'.content = b.content ∧
      b'.readerIdx = b.readerIdx ∧ b'.writerIdx = b.writerIdx := by
  obtain ⟨hscatters, hn, rfl⟩ := h
  refine ⟨{ b with buffer := o.cells }, ?_, ⟨hb.reader_le, ?_⟩, hscatters.content, rfl, rfl⟩
  · simp only [readFd, hn, if_pos (show (-1 : Int) < 0 by decide)]
    rfl
  · exact hscatters.size ▸ hb.writer_le

/-- The bytes fit: `writer_idx_` moves behind them. -/
theorem Contract.readFd_fits {data : List Byte} (hb : b.Ordered)
    (h : o.Contract b (.received data)) (hfits : data.length ≤ b.writableBytes) :
    ∃ b', o.readFd b = .ok (b', data.length, none) ∧ b'.Ordered ∧
      b'.content = b.content ++ data := by
  obtain ⟨hscatters, hn, -, hstored, -⟩ := h
  rw [Nat.min_eq_left hfits, List.take_of_length_le hfits] at hstored
  refine ⟨{ b with buffer := o.cells, writerIdx := b.writerIdx + data.length }, ?_, ⟨?_, ?_⟩, ?_⟩
  · simp only [readFd, hn, if_neg (show ¬ (data.length : Int) < 0 by omega), Int.toNat_natCast,
      if_pos hfits]
    rfl
  · exact Nat.le_trans hb.reader_le (Nat.le_add_right _ _)
  · have hle : data.length ≤ b.buffer.length - b.writerIdx := hfits
    have := hb.writer_le
    simp only [hscatters.size]
    omega
  · exact (hscatters.content_join hb hfits).trans (by rw [hstored])

/-- The bytes spill over: the vector is full and the rest is appended from `extrabuf`. -/
theorem Contract.readFd_spills {data : List Byte} (hb : b.Ordered)
    (h : o.Contract b (.received data)) (hspills : b.writableBytes < data.length) :
    ∃ b', o.readFd b = .ok (b', data.length, none) ∧ b'.Ordered ∧
      b'.content = b.content ++ data := by
  obtain ⟨hscatters, hn, hbound, hstored, hextra⟩ := h
  rw [Nat.min_eq_right (Nat.le_of_lt hspills)] at hstored
  have hend : b.writerIdx + b.writableBytes = o.cells.length := by
    rw [hscatters.size, writableBytes, Nat.add_sub_cancel' hb.writer_le]
  have hfilled : Buffer.Ordered
      { buffer := o.cells, readerIdx := b.readerIdx, writerIdx := o.cells.length } :=
    ⟨hscatters.size ▸ Nat.le_trans hb.reader_le hb.writer_le, Nat.le_refl _⟩
  obtain ⟨b', hb', hordered, hcontent, -⟩ := append_ordered hfilled (data.drop b.writableBytes)
  refine ⟨b', ?_, hordered, ?_⟩
  · have hextrabuf : data.length - b.writableBytes ≤ o.extrabuf.length := by
      rw [hscatters.extrabuf]
      omega
    simp only [readFd, hn, if_neg (show ¬ (data.length : Int) < 0 by omega), Int.toNat_natCast,
      if_neg (Nat.not_le.mpr hspills), check_of _ hextrabuf, hextra, hb', bind, Except.bind]
    rfl
  · have hjoin := hscatters.content_join hb (Nat.le_refl b.writableBytes)
    rw [hstored, hend] at hjoin
    rw [hcontent, Buffer.content, hjoin, List.append_assoc, List.take_append_drop]

/-- The outcome in which cells that hold no received byte keep what they held. -/
def received (b : Buffer) (data : List Byte) : Readv where
  n := data.length
  errno := 0
  cells := writeAt b.buffer b.writerIdx (data.take b.writableBytes)
  extrabuf := resize (data.drop b.writableBytes) extrabufSize 0

variable {data : List Byte}

theorem stored_le (hb : b.Ordered) (data : List Byte) :
    b.writerIdx + (data.take b.writableBytes).length ≤ b.buffer.length := by
  have := hb.writer_le
  rw [List.length_take, writableBytes]
  omega

theorem take_extrabuf (hbound : data.length ≤ b.writableBytes + extrabufSize) :
    (received b data).extrabuf.take (data.length - b.writableBytes) =
      data.drop b.writableBytes := by
  have hlen : (data.drop b.writableBytes).length = data.length - b.writableBytes :=
    List.length_drop
  have hfits : (data.drop b.writableBytes).length ≤ extrabufSize := by omega
  rw [received, resize, List.take_of_length_le hfits, ← hlen, List.take_left]

theorem received_contract (hb : b.Ordered)
    (hbound : data.length ≤ b.writableBytes + extrabufSize) :
    (received b data).Contract b (.received data) := by
  have hroom := stored_le hb data
  refine ⟨⟨?_, ?_, ?_⟩, rfl, hbound, ?_, take_extrabuf hbound⟩
  · exact length_writeAt _ _ _
  · exact segment_writeAt_of_disjoint b.buffer b.writerIdx _ hroom (Or.inl (Nat.le_refl _))
  · exact length_resize _ _ _
  · have hstored := segment_writeAt_self b.buffer b.writerIdx _ hroom
    rwa [List.length_take, Nat.min_comm] at hstored

/-- On this outcome the code after `readv` computes what the model of `readFd` does. -/
theorem readFd_received_eq (hb : b.Ordered)
    (hbound : data.length ≤ b.writableBytes + extrabufSize) :
    (received b data).readFd b = b.readFd (.received data) := by
  have hcopy : b.copyIn b.beginWrite (data.take b.writableBytes) =
      .ok { b with buffer := (received b data).cells } :=
    check_bind_of _ (stored_le hb data) _
  have hn : ¬ ((received b data).n < 0) := by
    simp only [received]
    omega
  have hcount : (received b data).n.toNat = data.length := Int.toNat_natCast _
  by_cases hfits : data.length ≤ b.writableBytes
  · simp only [Buffer.readFd, hcopy, readFd, if_neg hn, hcount, if_pos hfits, bind, Except.bind]
    rfl
  · have hextrabuf : data.length - b.writableBytes ≤ (received b data).extrabuf.length := by
      simp only [received, length_resize]
      omega
    simp only [Buffer.readFd, hcopy, readFd, if_neg hn, hcount, if_neg hfits,
      check_of _ hextrabuf, take_extrabuf hbound, bind, Except.bind]
    rfl

/-- A failing call leaves the readable bytes and both indices and saves the errno.
Any other call appends exactly the bytes received. -/
theorem readFd_appends_received (b : Buffer) (hb : b.Ordered) (r : ReadResult) (o : Readv)
    (h : o.Contract b r) :
    ∃ b' saved, o.readFd b = .ok (b', o.n, saved) ∧
      b'.readerIdx ≤ b'.writerIdx ∧ b'.writerIdx ≤ b'.buffer.length ∧
      match r with
      | .error errno => o.n < 0 ∧ saved = some errno ∧ b'.content = b.content ∧
          b'.readerIdx = b.readerIdx ∧ b'.writerIdx = b.writerIdx
      | .received data => o.n = data.length ∧ saved = none ∧ b'.content = b.content ++ data := by
  cases r with
  | error errno =>
      obtain ⟨b', hb', hordered, hcontent, hreader, hwriter⟩ := h.readFd_error hb
      refine ⟨b', some errno, by rw [hb', h.2.1], hordered.reader_le, hordered.writer_le, ?_⟩
      exact ⟨by rw [h.2.1]; decide, rfl, hcontent, hreader, hwriter⟩
  | received data =>
      obtain ⟨b', hb', hordered, hcontent⟩ : ∃ b', o.readFd b = .ok (b', data.length, none) ∧
          b'.Ordered ∧ b'.content = b.content ++ data := by
        by_cases hfits : data.length ≤ b.writableBytes
        · exact h.readFd_fits hb hfits
        · exact h.readFd_spills hb (Nat.not_le.mp hfits)
      refine ⟨b', none, by rw [hb', h.2.1], hordered.reader_le, hordered.writer_le, ?_⟩
      exact ⟨h.2.1, rfl, hcontent⟩

/-- Five bytes arrive with one writable byte left; the append slides the readable byte down. -/
theorem readFd_appends_spilled_bytes :
    ∃ b' saved, (received ⟨List.replicate 40 7, 38, 39⟩ [1, 2, 3, 4, 5]).readFd
        ⟨List.replicate 40 7, 38, 39⟩ = .ok (b', 5, saved) ∧
      b'.content = [7, 1, 2, 3, 4, 5] := by
  obtain ⟨b', saved, hb', -, -, -, -, hcontent⟩ :=
    readFd_appends_received ⟨List.replicate 40 7, 38, 39⟩ ⟨by decide, by decide⟩
      (.received [1, 2, 3, 4, 5]) (received _ _)
      (received_contract ⟨by decide, by decide⟩ (by decide))
  exact ⟨b', saved, hb', hcontent⟩

end Readv

end Buffer

end Yatwb
