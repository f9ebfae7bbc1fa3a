import Yatwb.Buffer.Model
import Mathlib.Logic.Function.Basic

/-!
# The buffer refines a byte queue

The invariant of the class comment, `0 <= readerIndex <= writerIndex <= size`,
is kept by every operation together with the room for the prepend reserve.
Under it no check of the class fails, and the readable bytes change as a
list of bytes does. The run theorem covers any family of buffers, since
`swap` exchanges two of them.
-/

namespace Yatwb

open Foundation

namespace Buffer

/-- The representation invariant. The reserve bound is what `retrieveAll` relies on. -/
structure Inv (b : Buffer) : Prop where
  reader_le : b.readerIdx ≤ b.writerIdx
  writer_le : b.writerIdx ≤ b.buffer.length
  reserve_le : cheapPrependSize ≤ b.buffer.length

/-- The comment of the class alone. -/
structure Ordered (b : Buffer) : Prop where
  reader_le : b.readerIdx ≤ b.writerIdx
  writer_le : b.writerIdx ≤ b.buffer.length

theorem Inv.ordered {b : Buffer} (h : b.Inv) : b.Ordered := ⟨h.reader_le, h.writer_le⟩

/-- A vector that has not become smaller still has room for the reserve. -/
theorem Ordered.inv {b b' : Buffer} (h' : b'.Ordered) (h : b.Inv)
    (hsize : b.buffer.length ≤ b'.buffer.length) : b'.Inv :=
  ⟨h'.reader_le, h'.writer_le, Nat.le_trans h.reserve_le hsize⟩

/-- The free bytes at both ends are too few for `len` bytes, so `makeSpace` resizes. -/
def Crowded (b : Buffer) (len : Nat) : Prop :=
  b.writableBytes + b.prependableBytes < len + cheapPrependSize

instance (b : Buffer) (len : Nat) : Decidable (b.Crowded len) :=
  inferInstanceAs (Decidable (_ < _))

/-- The size of the vector after `ensureWritableBytes(len)`. -/
def sizeWith (b : Buffer) (len : Nat) : Nat :=
  if b.writableBytes < len ∧ b.Crowded len then b.writerIdx + len else b.buffer.length

theorem Ordered.le_sizeWith {b : Buffer} (h : b.Ordered) (len : Nat) :
    b.buffer.length ≤ b.sizeWith len := by
  have := h.writer_le
  unfold sizeWith
  split
  · rename_i hgrow
    have hlt : b.buffer.length - b.writerIdx < len := hgrow.1
    omega
  · exact Nat.le_refl _

/-- The size does not depend on the bytes. -/
theorem sizeWith_congr {b b' : Buffer} (hsize : b.buffer.length = b'.buffer.length)
    (hreader : b.readerIdx = b'.readerIdx) (hwriter : b.writerIdx = b'.writerIdx) (len : Nat) :
    b.sizeWith len = b'.sizeWith len := by
  have hgrow : b.writableBytes < len ∧ b.Crowded len ↔
      b'.writableBytes < len ∧ b'.Crowded len := by
    simp only [Crowded, writableBytes, prependableBytes, hsize, hreader, hwriter]
  exact if_congr hgrow (by rw [hwriter]) hsize

theorem new_inv : new.Inv := by
  constructor <;> simp [new]

@[simp] theorem new_content : new.content = [] := by
  simp [content, new]

/-- The three asserts of the constructor. -/
theorem new_sizes :
    new.readableBytes = 0 ∧ new.writableBytes = initialSize ∧
      new.prependableBytes = cheapPrependSize := by
  simp [new, readableBytes, writableBytes, prependableBytes]

theorem length_content {b : Buffer} (h : b.Inv) : b.content.length = b.readableBytes :=
  length_segment b.buffer b.readerIdx h.writer_le

theorem content_eq_nil_iff {b : Buffer} (h : b.Inv) : b.content = [] ↔ b.readableBytes = 0 := by
  rw [← length_content h, List.length_eq_zero_iff]

theorem retrieve_spec {b : Buffer} (h : b.Inv) {len : Nat} (hlen : len ≤ b.readableBytes) :
    ∃ b', b.retrieve len = .ok b' ∧ b'.Inv ∧ b'.content = b.content.drop len := by
  have hidx : b.readerIdx + len ≤ b.writerIdx := by
    have := h.reader_le
    simp only [readableBytes] at hlen
    omega
  refine ⟨{ b with readerIdx := b.readerIdx + len }, ?_, ⟨hidx, h.writer_le, h.reserve_le⟩, ?_⟩
  · exact check_bind_of _ hlen _
  · exact (drop_segment b.buffer b.readerIdx b.writerIdx len).symm

theorem retrieveUntil_spec {b : Buffer} (h : b.Inv) {last : Nat}
    (hpeek : b.peek ≤ last) (hlast : last ≤ b.beginWrite) :
    ∃ b', b.retrieveUntil last = .ok b' ∧ b'.Inv ∧
      b'.content = b.content.drop (last - b.peek) := by
  have hlen : last - b.peek ≤ b.readableBytes := by
    simp only [beginWrite, peek, readableBytes] at *
    omega
  obtain ⟨b', hb', hinv, hcontent⟩ := retrieve_spec h hlen
  refine ⟨b', ?_, hinv, hcontent⟩
  rw [retrieveUntil, check_bind_of _ hpeek, check_bind_of _ hlast]
  exact hb'

theorem retrieveAll_inv {b : Buffer} (h : b.Inv) : b.retrieveAll.Inv :=
  ⟨Nat.le_refl _, h.reserve_le, h.reserve_le⟩

@[simp] theorem retrieveAll_content (b : Buffer) : b.retrieveAll.content = [] := by
  simp [content, retrieveAll]

theorem retrieveAsString_spec {b : Buffer} (h : b.Inv) :
    ∃ b', b.retrieveAsString = .ok (b', b.content) ∧ b'.Inv ∧ b'.content = [] := by
  have hend : b.peek + b.readableBytes = b.writerIdx := by
    have := h.reader_le
    simp only [peek, readableBytes]
    omega
  refine ⟨b.retrieveAll, ?_, retrieveAll_inv h, retrieveAll_content b⟩
  rw [retrieveAsString, check_bind_of _ (hend ▸ h.writer_le), hend]
  rfl

/-- The readable bytes slid down to the reserve. -/
def slid (b : Buffer) : Buffer where
  buffer := copyWithin b.buffer b.readerIdx cheapPrependSize b.readableBytes
  readerIdx := cheapPrependSize
  writerIdx := cheapPrependSize + b.readableBytes

theorem Ordered.slid {b : Buffer} (h : b.Ordered) (hfront : cheapPrependSize < b.readerIdx) :
    b.slid.Ordered := by
  obtain ⟨hreader, hwriter⟩ := h
  constructor
  · exact Nat.le_add_right _ _
  · simp only [Buffer.slid, length_copyWithin, readableBytes]
    omega

/-- The copy moves down, so it reads no byte it has already written. -/
theorem Ordered.slid_content {b : Buffer} (h : b.Ordered)
    (hfront : cheapPrependSize < b.readerIdx) : b.slid.content = b.content := by
  obtain ⟨hreader, hwriter⟩ := h
  have hread : b.readerIdx + b.readableBytes = b.writerIdx := by
    simp only [readableBytes]
    omega
  have hmove := segment_copyWithin b.buffer b.readerIdx cheapPrependSize b.readableBytes
    (by omega) (by omega)
  rw [hread] at hmove
  exact hmove

theorem slid_writableBytes (b : Buffer) :
    b.slid.writableBytes = b.buffer.length - (cheapPrependSize + b.readableBytes) := by
  rw [writableBytes, slid, length_copyWithin]

theorem makeSpace_of_crowded {b : Buffer} {len : Nat} (h : b.Crowded len) :
    b.makeSpace len = .ok { b with buffer := resize b.buffer (b.writerIdx + len) 0 } := by
  rw [makeSpace, if_pos (show b.writableBytes + b.prependableBytes < len + cheapPrependSize from h)]
  rfl

/-- The sliding branch is entered only with more than the reserve in front, so its
asserts hold. -/
theorem Ordered.makeSpace_of_not_crowded {b : Buffer} (h : b.Ordered) {len : Nat}
    (hlt : b.writableBytes < len) (hroom : ¬ b.Crowded len) :
    cheapPrependSize < b.readerIdx ∧ b.makeSpace len = .ok b.slid := by
  have hroom' : ¬ b.writableBytes + b.prependableBytes < len + cheapPrependSize := hroom
  have hfront : cheapPrependSize < b.readerIdx := by
    simp only [prependableBytes] at hroom'
    omega
  have hoverlap : ¬ (b.readerIdx ≤ cheapPrependSize ∧ cheapPrependSize < b.writerIdx) := by
    omega
  refine ⟨hfront, ?_⟩
  rw [makeSpace, if_neg hroom', check_bind_of _ hfront, check_bind_of _ h.writer_le,
    check_bind_of _ hoverlap]
  exact check_bind_of _ (by simp [readableBytes]) _

/-- Both branches keep the readable bytes. -/
theorem makeSpace_ordered {b : Buffer} (h : b.Ordered) {len : Nat} (hlt : b.writableBytes < len) :
    ∃ b', b.makeSpace len = .ok b' ∧ b'.Ordered ∧ b'.content = b.content ∧
      len ≤ b'.writableBytes ∧ b'.buffer.length = b.sizeWith len := by
  have hreader := h.reader_le
  have hwriter := h.writer_le
  have hsize : b.buffer.length < b.writerIdx + len := by
    simp only [writableBytes] at hlt
    omega
  by_cases hroom : b.Crowded len
  · refine ⟨_, makeSpace_of_crowded hroom, ⟨hreader, by simp⟩, ?_, by simp [writableBytes], ?_⟩
    · exact segment_resize b.buffer _ _ hwriter (by omega)
    · rw [length_resize, sizeWith, if_pos ⟨hlt, hroom⟩]
  · obtain ⟨hfront, hslid⟩ := h.makeSpace_of_not_crowded hlt hroom
    refine ⟨b.slid, hslid, h.slid hfront, h.slid_content hfront, ?_, ?_⟩
    · rw [slid_writableBytes]
      simp only [Crowded, writableBytes, prependableBytes, readableBytes] at hroom ⊢
      omega
    · rw [slid, length_copyWithin, sizeWith, if_neg fun hgrow => hroom hgrow.2]

theorem ensureWritableBytes_ordered {b : Buffer} (h : b.Ordered) (len : Nat) :
    ∃ b', b.ensureWritableBytes len = .ok b' ∧ b'.Ordered ∧ b'.content = b.content ∧
      len ≤ b'.writableBytes ∧ b'.buffer.length = b.sizeWith len := by
  by_cases hlt : b.writableBytes < len
  · obtain ⟨b', hb', hordered, hcontent, hroom, hsize⟩ := makeSpace_ordered h hlt
    refine ⟨b', ?_, hordered, hcontent, hroom, hsize⟩
    rw [ensureWritableBytes, if_pos hlt, hb']
    exact check_bind_of _ hroom _
  · refine ⟨b, ?_, h, rfl, by omega, ?_⟩
    · rw [ensureWritableBytes, if_neg hlt]
      exact check_bind_of _ (by omega) _
    · rw [sizeWith, if_neg fun hgrow => hlt hgrow.1]

theorem ensureWritableBytes_spec {b : Buffer} (h : b.Inv) (len : Nat) :
    ∃ b', b.ensureWritableBytes len = .ok b' ∧ b'.Inv ∧ b'.content = b.content ∧
      len ≤ b'.writableBytes := by
  obtain ⟨b', hb', hordered, hcontent, hroom, hsize⟩ := ensureWritableBytes_ordered h.ordered len
  exact ⟨b', hb', hordered.inv h (hsize ▸ h.ordered.le_sizeWith len), hcontent, hroom⟩

/-- Bytes stored at `beginWrite()` and then declared written join the readable ones. -/
theorem store_ordered {b : Buffer} (h : b.Ordered) {data : List Byte}
    (hlen : data.length ≤ b.writableBytes) :
    ∃ b', b.copyIn b.beginWrite data = .ok b' ∧ (b'.hasWritten data.length).Ordered ∧
      (b'.hasWritten data.length).content = b.content ++ data ∧
      b'.buffer.length = b.buffer.length := by
  have hroom : b.writerIdx + data.length ≤ b.buffer.length := by
    have := h.writer_le
    simp only [writableBytes] at hlen
    omega
  refine ⟨{ b with buffer := writeAt b.buffer b.writerIdx data }, ?_, ?_, ?_, by simp⟩
  · exact check_bind_of _ hroom _
  · constructor
    · exact Nat.le_trans h.reader_le (Nat.le_add_right _ _)
    · simpa only [hasWritten, length_writeAt] using hroom
  · have hold := segment_writeAt_of_disjoint b.buffer b.writerIdx data
      (i := b.readerIdx) hroom (Or.inl (Nat.le_refl _))
    have hnew := segment_writeAt_self b.buffer b.writerIdx data hroom
    have hjoin := segment_append (writeAt b.buffer b.writerIdx data) h.reader_le
      (Nat.le_add_right b.writerIdx data.length) (by simpa using hroom)
    rw [hold, hnew] at hjoin
    exact hjoin.symm

theorem store_spec {b : Buffer} (h : b.Inv) {data : List Byte}
    (hlen : data.length ≤ b.writableBytes) :
    ∃ b', b.copyIn b.beginWrite data = .ok b' ∧ (b'.hasWritten data.length).Inv ∧
      (b'.hasWritten data.length).content = b.content ++ data := by
  obtain ⟨b', hb', hordered, hcontent, hsize⟩ := store_ordered h.ordered hlen
  exact ⟨b', hb', hordered.inv h (Nat.le_of_eq hsize.symm), hcontent⟩

/-- A copy into the vector changes nothing but cells. -/
theorem copyIn_eq_ok {b b' : Buffer} {pos : Nat} {data : List Byte}
    (h : b.copyIn pos data = .ok b') :
    pos + data.length ≤ b.buffer.length ∧ b' = { b with buffer := writeAt b.buffer pos data } := by
  obtain ⟨_, hroom, hb'⟩ := bind_eq_ok.mp h
  exact ⟨check_eq_ok.mp hroom, (Except.ok.inj hb').symm⟩

theorem append_ordered {b : Buffer} (h : b.Ordered) (data : List Byte) :
    ∃ b', b.append data = .ok b' ∧ b'.Ordered ∧ b'.content = b.content ++ data ∧
      b'.buffer.length = b.sizeWith data.length := by
  obtain ⟨b₁, h₁, hordered₁, hcontent₁, hroom, hsize₁⟩ := ensureWritableBytes_ordered h data.length
  obtain ⟨b₂, h₂, hordered₂, hcontent₂, hsize₂⟩ := store_ordered hordered₁ hroom
  refine ⟨b₂.hasWritten data.length, ?_, hordered₂, hcontent₁ ▸ hcontent₂, hsize₂.trans hsize₁⟩
  simp only [append, h₁, h₂, bind, Except.bind]
  rfl

theorem append_spec {b : Buffer} (h : b.Inv) (data : List Byte) :
    ∃ b', b.append data = .ok b' ∧ b'.Inv ∧ b'.content = b.content ++ data := by
  obtain ⟨b', hb', hordered, hcontent, hsize⟩ := append_ordered h.ordered data
  exact ⟨b', hb', hordered.inv h (hsize ▸ h.ordered.le_sizeWith data.length), hcontent⟩

theorem prepend_spec {b : Buffer} (h : b.Inv) {data : List Byte}
    (hlen : data.length ≤ b.prependableBytes) :
    ∃ b', b.prepend data = .ok b' ∧ b'.Inv ∧ b'.content = data ++ b.content := by
  obtain ⟨hreader, hwriter, hreserve⟩ := h
  simp only [prependableBytes] at hlen
  have hroom : b.readerIdx - data.length + data.length ≤ b.buffer.length := by omega
  refine ⟨{ b with
      buffer := writeAt b.buffer (b.readerIdx - data.length) data
      readerIdx := b.readerIdx - data.length }, ?_, ?_, ?_⟩
  · rw [prepend, check_bind_of _ (show data.length ≤ b.prependableBytes from hlen)]
    exact check_bind_of _ hroom _
  · constructor
    · simp only
      omega
    · simpa only [length_writeAt] using hwriter
    · simpa only [length_writeAt] using hreserve
  · have hnew := segment_writeAt_self b.buffer (b.readerIdx - data.length) data hroom
    have hold := segment_writeAt_of_disjoint b.buffer (b.readerIdx - data.length) data
      (i := b.readerIdx) (j := b.writerIdx) hroom (Or.inr (by omega))
    have hjoin := segment_append (writeAt b.buffer (b.readerIdx - data.length) data)
      (Nat.sub_le b.readerIdx data.length) hreader (by simpa using hwriter)
    rw [Nat.sub_add_cancel hlen] at hnew
    rw [hnew, hold] at hjoin
    exact hjoin.symm

/-- No writable byte is left. -/
def filled (b : Buffer) : Buffer := { b with writerIdx := b.buffer.length }

/-- The size of the vector after `readFd` has received `n` bytes. -/
def sizeReceiving (b : Buffer) (n : Nat) : Nat :=
  if n ≤ b.writableBytes then b.buffer.length else b.filled.sizeWith (n - b.writableBytes)

theorem Ordered.filled {b : Buffer} (h : b.Ordered) : b.filled.Ordered :=
  ⟨Nat.le_trans h.reader_le h.writer_le, Nat.le_refl _⟩

theorem Ordered.le_sizeReceiving {b : Buffer} (h : b.Ordered) (n : Nat) :
    b.buffer.length ≤ b.sizeReceiving n := by
  unfold sizeReceiving
  split
  · exact Nat.le_refl _
  · exact h.filled.le_sizeWith _

/-- What arrives is appended, whether it fits behind the readable bytes or goes
through `extrabuf`. -/
theorem readFd_ordered {b : Buffer} (h : b.Ordered) (data : List Byte) :
    ∃ b', b.readFd (.received data) = .ok (b', data.length, none) ∧ b'.Ordered ∧
      b'.content = b.content ++ data ∧ b'.buffer.length = b.sizeReceiving data.length := by
  by_cases hfits : data.length ≤ b.writableBytes
  · obtain ⟨b', hb', hordered, hcontent, hsize⟩ := store_ordered h hfits
    refine ⟨b'.hasWritten data.length, ?_, hordered, hcontent, ?_⟩
    · simp only [readFd, List.take_of_length_le hfits, hb', bind, Except.bind, if_pos hfits]
      rfl
    · rw [sizeReceiving, if_pos hfits]
      exact hsize
  · have hlen : (data.take b.writableBytes).length = b.writableBytes := by
      rw [List.length_take]
      omega
    obtain ⟨b₁, hb₁, hordered₁, hcontent₁, hsize₁⟩ := store_ordered h (Nat.le_of_eq hlen)
    obtain ⟨-, hcells⟩ := copyIn_eq_ok hb₁
    have hfull : b₁.filled = b₁.hasWritten (data.take b.writableBytes).length := by
      have hwriter : b₁.writerIdx = b.writerIdx := by rw [hcells]
      rw [hlen, filled, hasWritten, writableBytes, hsize₁, hwriter, Nat.add_sub_cancel' h.writer_le]
    obtain ⟨b₂, hb₂, hordered₂, hcontent₂, hsize₂⟩ :=
      append_ordered hordered₁ (data.drop b.writableBytes)
    refine ⟨b₂, ?_, hordered₂, ?_, ?_⟩
    · rw [← hfull, filled] at hb₂
      simp only [readFd, hb₁, bind, Except.bind, if_neg hfits, hb₂]
      rfl
    · rw [hcontent₂, hcontent₁, List.append_assoc, List.take_append_drop]
    · have hreader : b₁.readerIdx = b.readerIdx := by rw [hcells]
      rw [hsize₂, ← hfull, sizeReceiving, if_neg hfits, List.length_drop]
      exact sizeWith_congr (show b₁.filled.buffer.length = b.filled.buffer.length from hsize₁)
        hreader hsize₁ _

theorem readFd_received {b : Buffer} (h : b.Inv) (data : List Byte) :
    ∃ b', b.readFd (.received data) = .ok (b', data.length, none) ∧ b'.Inv ∧
      b'.content = b.content ++ data := by
  obtain ⟨b', hb', hordered, hcontent, hsize⟩ := readFd_ordered h.ordered data
  exact ⟨b', hb', hordered.inv h (hsize ▸ h.ordered.le_sizeReceiving data.length), hcontent⟩

end Buffer

end Yatwb
