import Yatwb.Buffer.Refinement
import Yatwb.Foundation.Word

/-!
# The buffer at the limits of `size_t`

The functions that make space, with every sum and difference taken modulo
`2 ^ 64` and with a vector that cannot become arbitrarily large. A resize
that is refused throws and leaves the vector as it was; a call that throws is
told apart from one that ends in an assert.

Two sums can wrap. `len + CheapPrependSize` makes the test of `makeSpace` pass
for a length that no vector has room for. `writer_idx_ + len` makes the resize
cut the vector below `writer_idx_`, and then `writableBytes()` wraps as well
and passes the last assert.

## Implementation notes

`grants` says which sizes up to `max_size()` the allocator provides.
-/

namespace Yatwb

open Foundation

namespace Buffer

/-- `std::vector<char>::max_size()`. -/
def maxSize : Nat := 2 ^ 63 - 1

namespace SizeT

/-- A call that does not return: the exception of a refused allocation, with the
buffer it leaves, or the end of the program. -/
inductive Stop
  | thrown (left : Buffer)
  | aborted (f : Fault)
  deriving DecidableEq, Repr

def readableBytes (b : Buffer) : Nat := Word.sub 64 b.writerIdx b.readerIdx

def writableBytes (b : Buffer) : Nat := Word.sub 64 b.buffer.length b.writerIdx

/-- The vector may be made so large. -/
def Allocates (grants : Nat → Bool) (n : Nat) : Prop := n ≤ maxSize ∧ grants n = true

instance (grants : Nat → Bool) (n : Nat) : Decidable (Allocates grants n) :=
  inferInstanceAs (Decidable (_ ∧ _))

/-- `buffer_.resize(n)`. Only a larger vector needs an allocation. -/
def resize (grants : Nat → Bool) (b : Buffer) (n : Nat) : Except Stop Buffer :=
  if n ≤ b.buffer.length ∨ Allocates grants n then
    .ok { b with buffer := Foundation.resize b.buffer n 0 }
  else .error (.thrown b)

def makeSpace (grants : Nat → Bool) (b : Buffer) (len : Nat) : Except Stop Buffer :=
  if Word.add 64 (writableBytes b) b.prependableBytes < Word.add 64 len cheapPrependSize then
    resize grants b (Word.add 64 b.writerIdx len)
  else do
    check (cheapPrependSize < b.readerIdx) (.aborted .makeSpaceReader)
    let readable := readableBytes b
    check (b.writerIdx ≤ b.buffer.length) (.aborted .copyOutOfRange)
    check (¬ (b.readerIdx ≤ cheapPrependSize ∧ cheapPrependSize < b.writerIdx))
      (.aborted .copyOverlap)
    let moved : Buffer :=
      { buffer := copyWithin b.buffer b.readerIdx cheapPrependSize (b.writerIdx - b.readerIdx)
        readerIdx := cheapPrependSize
        writerIdx := Word.add 64 cheapPrependSize readable }
    check (readable = readableBytes moved) (.aborted .makeSpaceReadable)
    return moved

def ensureWritableBytes (grants : Nat → Bool) (b : Buffer) (len : Nat) : Except Stop Buffer := do
  let b ← if writableBytes b < len then makeSpace grants b len else pure b
  check (len ≤ writableBytes b) (.aborted .ensureWritableBytesWritable)
  return b

/-- The indices are in order and inside a vector of possible size. -/
structure Sized (b : Buffer) : Prop extends Ordered b where
  size_le : b.buffer.length ≤ maxSize

variable {grants : Nat → Bool} {b : Buffer} {len : Nat}

theorem Sized.size_lt (h : Sized b) : b.buffer.length < 2 ^ 63 := by
  have hsize := h.size_le
  simp only [maxSize] at hsize
  omega

theorem Sized.readableBytes_eq (h : Sized b) : readableBytes b = b.readableBytes :=
  Word.sub_of_le h.reader_le (by have := h.size_lt; have := h.writer_le; omega)

theorem Sized.writableBytes_eq (h : Sized b) : writableBytes b = b.writableBytes :=
  Word.sub_of_le h.writer_le (by have := h.size_lt; omega)

/-- The readable bytes behind the reserve. -/
theorem Sized.front_lt (h : Sized b) : cheapPrependSize + b.readableBytes < 2 ^ 64 := by
  have := h.size_lt
  have := h.writer_le
  simp only [cheapPrependSize, Buffer.readableBytes]
  omega

/-- The free bytes at both ends are no more than the vector. -/
theorem Sized.free_le (h : Sized b) :
    b.writableBytes + b.prependableBytes ≤ b.buffer.length := by
  have := h.reader_le
  have := h.writer_le
  simp only [Buffer.writableBytes, prependableBytes]
  omega

theorem Sized.free_eq (h : Sized b) :
    Word.add 64 (writableBytes b) b.prependableBytes = b.writableBytes + b.prependableBytes := by
  rw [h.writableBytes_eq]
  exact Word.add_of_lt (by have := h.free_le; have := h.size_lt; omega)

/-- A call that finds the bytes writable returns at once. -/
theorem Sized.ensure_writable (h : Sized b) (hlen : len ≤ b.writableBytes) :
    ensureWritableBytes grants b len = .ok b := by
  have hwritable : ¬ writableBytes b < len := by
    rw [h.writableBytes_eq]
    omega
  rw [ensureWritableBytes, if_neg hwritable]
  exact check_bind_of _ (Nat.not_lt.mp hwritable) _

/-- Every other call makes space first. -/
theorem Sized.ensure_makeSpace (h : Sized b) (hlt : b.writableBytes < len) :
    ensureWritableBytes grants b len = makeSpace grants b len >>= fun b' => do
      check (len ≤ writableBytes b') (.aborted .ensureWritableBytesWritable)
      return b' := by
  rw [ensureWritableBytes, if_pos (by rw [h.writableBytes_eq]; exact hlt)]

/-- What `ensureWritableBytes` is for: it fails in the resize and leaves the buffer
as it was, or provides the bytes and keeps the readable ones. -/
def Provides (grants : Nat → Bool) (b : Buffer) (len : Nat) : Prop :=
  Ends (fun b' => b'.content = b.content ∧ b'.writerIdx ≤ b'.buffer.length ∧
      len ≤ b'.buffer.length - b'.writerIdx)
    (fun stop => stop = .thrown b) (ensureWritableBytes grants b len)

/-- Neither sum wraps, or the test of `makeSpace` refuses the length anyway. -/
def InRange (b : Buffer) (len : Nat) : Prop :=
  b.writerIdx + len < 2 ^ 64 ∧
    (len + cheapPrependSize < 2 ^ 64 ∨
      b.writableBytes + b.prependableBytes < len + cheapPrependSize - 2 ^ 64)

/-- The sliding branch of `makeSpace` once its assert holds. -/
theorem Sized.makeSpace_slid (h : Sized b)
    (hfree : ¬ Word.add 64 (writableBytes b) b.prependableBytes <
      Word.add 64 len cheapPrependSize)
    (hfront : cheapPrependSize < b.readerIdx) : makeSpace grants b len = .ok b.slid := by
  have hoverlap : ¬ (b.readerIdx ≤ cheapPrependSize ∧ cheapPrependSize < b.writerIdx) := by
    omega
  have hwriter := h.writer_le
  have hlimit := h.front_lt
  have hsum : Word.add 64 cheapPrependSize b.readableBytes =
      cheapPrependSize + b.readableBytes := Word.add_of_lt hlimit
  have hreadable : b.readableBytes = readableBytes b.slid := by
    have hslid := Word.sub_of_le (Nat.le_add_right cheapPrependSize b.readableBytes) hlimit
    rw [Nat.add_sub_cancel_left] at hslid
    exact hslid.symm
  rw [makeSpace, if_neg hfree, check_bind_of _ hfront, check_bind_of _ hwriter,
    check_bind_of _ hoverlap, h.readableBytes_eq, hsum]
  exact check_bind_of _ hreadable _

theorem Sized.slid (h : Sized b) (hfront : cheapPrependSize < b.readerIdx) : Sized b.slid :=
  ⟨h.toOrdered.slid hfront, by rw [Buffer.slid, length_copyWithin]; exact h.size_le⟩

/-- In range, `makeSpace` provides the bytes or the allocation is refused. -/
theorem Sized.makeSpace_ends (h : Sized b) (hlen : len < 2 ^ 64) (hlt : b.writableBytes < len)
    (hrange : InRange b len) :
    Ends (fun b' => Sized b' ∧ b'.content = b.content ∧ len ≤ b'.writableBytes)
      (fun stop => stop = .thrown b) (makeSpace grants b len) := by
  obtain ⟨hwriter, hprepend⟩ := hrange
  have hsize := h.size_lt
  have hwriter_le := h.writer_le
  have hfree_le := h.free_le
  have hgrows : b.buffer.length < b.writerIdx + len := by
    simp only [Buffer.writableBytes] at hlt
    omega
  by_cases hfree : Word.add 64 (writableBytes b) b.prependableBytes <
      Word.add 64 len cheapPrependSize
  · rw [makeSpace, if_pos hfree, Word.add_of_lt hwriter, resize]
    by_cases hallocates : b.writerIdx + len ≤ b.buffer.length ∨
        Allocates grants (b.writerIdx + len)
    · have hmax : b.writerIdx + len ≤ maxSize := by
        rcases hallocates with hle | hallocates
        · omega
        · exact hallocates.1
      rw [if_pos hallocates]
      refine ⟨⟨⟨h.reader_le, by simp⟩, by simpa using hmax⟩, ?_, by simp [Buffer.writableBytes]⟩
      exact segment_resize b.buffer _ _ hwriter_le (by omega)
    · rw [if_neg hallocates]
      rfl
  · have hnowrap : len + cheapPrependSize < 2 ^ 64 := by
      rcases hprepend with hnowrap | hrefused
      · exact hnowrap
      · rw [h.free_eq, Word.add_of_le hlen (by decide) (by omega)] at hfree
        exact absurd hrefused hfree
    rw [h.free_eq, Word.add_of_lt hnowrap] at hfree
    have hfront : cheapPrependSize < b.readerIdx := by
      simp only [prependableBytes] at hfree
      omega
    rw [h.makeSpace_slid (by rw [h.free_eq, Word.add_of_lt hnowrap]; exact hfree) hfront]
    refine ⟨h.slid hfront, h.toOrdered.slid_content hfront, ?_⟩
    have hreader := h.reader_le
    rw [slid_writableBytes]
    simp only [Buffer.writableBytes, prependableBytes, Buffer.readableBytes] at hfree ⊢
    omega

theorem Sized.provides (h : Sized b) (hlen : len < 2 ^ 64) (hrange : InRange b len) :
    Provides grants b len := by
  by_cases hwritable : len ≤ b.writableBytes
  · rw [Provides, h.ensure_writable hwritable]
    exact ⟨rfl, h.writer_le, hwritable⟩
  · have hlt := Nat.not_le.mp hwritable
    rw [Provides, h.ensure_makeSpace hlt]
    apply (h.makeSpace_ends hlen hlt hrange).bind
    rintro b' ⟨hsized, hcontent, hroom⟩
    rw [check_bind_of _ (by rw [hsized.writableBytes_eq]; exact hroom)]
    exact ⟨hcontent, hsized.writer_le, hroom⟩

/-- Where no sum wraps and the allocation is granted, the function on words computes
what the one on natural numbers does. -/
theorem Sized.ensureWritableBytes_eq (h : Sized b) (hwriter : b.writerIdx + len < 2 ^ 64)
    (hprepend : len + cheapPrependSize < 2 ^ 64) (hgrants : Allocates grants (b.sizeWith len)) :
    ensureWritableBytes grants b len = (b.ensureWritableBytes len).mapError .aborted := by
  by_cases hwritable : len ≤ b.writableBytes
  · have hnat : b.ensureWritableBytes len = .ok b := by
      rw [Buffer.ensureWritableBytes, if_neg (Nat.not_lt.mpr hwritable)]
      exact check_bind_of _ hwritable _
    rw [h.ensure_writable hwritable, hnat]
    rfl
  · have hlt := Nat.not_le.mp hwritable
    obtain ⟨b', hb', hordered, -, hroom, hsize⟩ := makeSpace_ordered h.toOrdered hlt
    have hsized : Sized b' := ⟨hordered, hsize ▸ hgrants.1⟩
    have hspace : makeSpace grants b len = .ok b' := by
      by_cases hcrowded : b.Crowded len
      · have hgrown : b.sizeWith len = b.writerIdx + len := if_pos ⟨hlt, hcrowded⟩
        rw [makeSpace, if_pos (by rw [h.free_eq, Word.add_of_lt hprepend]; exact hcrowded),
          Word.add_of_lt hwriter, resize, if_pos (.inr (hgrown ▸ hgrants))]
        exact congrArg _ (Except.ok.inj ((makeSpace_of_crowded hcrowded).symm.trans hb'))
      · obtain ⟨hfront, hslid⟩ := h.toOrdered.makeSpace_of_not_crowded hlt hcrowded
        rw [h.makeSpace_slid (by rw [h.free_eq, Word.add_of_lt hprepend]; exact hcrowded) hfront]
        exact congrArg _ (Except.ok.inj (hslid.symm.trans hb'))
    have hnat : b.ensureWritableBytes len = .ok b' := by
      rw [Buffer.ensureWritableBytes, if_pos hlt, hb']
      exact check_bind_of _ hroom _
    rw [h.ensure_makeSpace hlt, hspace, hnat]
    exact check_bind_of _ (by rw [hsized.writableBytes_eq]; exact hroom) _

/-- A wrapped `writer_idx_ + len` is below `writer_idx_`: the vector is cut. -/
theorem Sized.makeSpace_cut (h : Sized b) (grants : Nat → Bool) (hlen : len < 2 ^ 64)
    (hwraps : 2 ^ 64 ≤ b.writerIdx + len)
    (hfree : Word.add 64 (writableBytes b) b.prependableBytes <
      Word.add 64 len cheapPrependSize) :
    ∃ b', makeSpace grants b len = .ok b' ∧ b'.buffer.length < b'.writerIdx := by
  have hsize := h.size_lt
  have hwriter := h.writer_le
  have hcut : Word.add 64 b.writerIdx len = b.writerIdx + len - 2 ^ 64 :=
    Word.add_of_le (by omega) hlen hwraps
  refine ⟨{ b with buffer := Foundation.resize b.buffer (b.writerIdx + len - 2 ^ 64) 0 }, ?_, ?_⟩
  · rw [makeSpace, if_pos hfree, hcut, resize, if_pos (.inl (by omega))]
  · simp only [length_resize]
    omega

/-- A wrapped `len + CheapPrependSize` leads to the sliding branch, which ends in
one assert or the other. -/
theorem Sized.slide_aborts (h : Sized b) (grants : Nat → Bool) (hlen : 2 ^ 63 ≤ len)
    (hfree : ¬ Word.add 64 (writableBytes b) b.prependableBytes <
      Word.add 64 len cheapPrependSize) :
    ∃ f, ensureWritableBytes grants b len = .error (.aborted f) := by
  have hsize := h.size_lt
  have hlt : b.writableBytes < len := by
    simp only [Buffer.writableBytes]
    omega
  rw [h.ensure_makeSpace hlt]
  by_cases hfront : cheapPrependSize < b.readerIdx
  · rw [h.makeSpace_slid hfree hfront]
    refine ⟨.ensureWritableBytesWritable, check_bind_of_not _ ?_ _⟩
    rw [(h.slid hfront).writableBytes_eq, slid_writableBytes]
    omega
  · refine ⟨.makeSpaceReader, ?_⟩
    rw [makeSpace, if_neg hfree, check_bind_of_not _ hfront]
    rfl

theorem Sized.not_provides (h : Sized b) (hlen : len < 2 ^ 64) (hrange : ¬ InRange b len) :
    ¬ Provides grants b len := by
  intro hprovides
  have hsize := h.size_lt
  have hwriter := h.writer_le
  have hfree_le := h.free_le
  by_cases hfree : Word.add 64 (writableBytes b) b.prependableBytes <
      Word.add 64 len cheapPrependSize
  · have hwraps : 2 ^ 64 ≤ b.writerIdx + len := by
      by_contra hnowrap
      apply hrange
      refine ⟨by omega, ?_⟩
      by_cases hprepend : len + cheapPrependSize < 2 ^ 64
      · exact .inl hprepend
      · rw [h.free_eq, Word.add_of_le hlen (by decide) (by omega)] at hfree
        exact .inr hfree
    have hlt : b.writableBytes < len := by
      simp only [Buffer.writableBytes]
      omega
    obtain ⟨b', hb', hcut⟩ := h.makeSpace_cut grants hlen hwraps hfree
    rw [Provides, h.ensure_makeSpace hlt, hb'] at hprovides
    by_cases hpasses : len ≤ writableBytes b'
    · have hok := hprovides.of_eq_ok (check_bind_of _ hpasses _)
      omega
    · cases hprovides.of_eq_error (check_bind_of_not _ hpasses _)
  · have hlarge : 2 ^ 63 ≤ len := by
      by_contra hsmall
      have hnowrap : len + cheapPrependSize < 2 ^ 64 := by
        simp only [cheapPrependSize]
        omega
      exact hrange ⟨by omega, .inl hnowrap⟩
    obtain ⟨f, hf⟩ := h.slide_aborts grants hlarge hfree
    cases hprovides.of_eq_error hf

/-- Over all buffers and lengths, `ensureWritableBytes` does its work exactly when
`writer_idx_ + len` does not wrap, and neither does `len + CheapPrependSize`, unless
the free bytes are fewer than the wrapped sum. -/
theorem provides_iff_inRange (grants : Nat → Bool) (b : Buffer) (h : Sized b) (len : Nat)
    (hlen : len < 2 ^ 64) :
    Provides grants b len ↔
      b.writerIdx + len < 2 ^ 64 ∧
        (len + cheapPrependSize < 2 ^ 64 ∨
          b.writableBytes + b.prependableBytes < len + cheapPrependSize - 2 ^ 64) := by
  constructor
  · intro hprovides
    by_contra hrange
    exact h.not_provides hlen hrange hprovides
  · exact h.provides hlen

theorem new_sized : Sized new := by
  refine ⟨new_inv.ordered, ?_⟩
  rw [new, List.length_replicate]
  decide

/-- A buffer of one byte, which is readable. -/
def full : Buffer := ⟨[5], 0, 1⟩

theorem full_sized : Sized full := by
  refine ⟨⟨by decide, by decide⟩, ?_⟩
  simp only [full, List.length_singleton]
  decide

/-- A fresh buffer is asked for half of the address space, and a full one for so much
that the sum with the reserve wraps; both throw. -/
theorem provides_half_of_range :
    Provides (fun _ => true) new (2 ^ 63) ∧
      full.content = [5] ∧ Provides (fun _ => true) full (2 ^ 64 - 2) := by
  rw [provides_iff_inRange (fun _ => true) new new_sized (2 ^ 63) (by decide),
    provides_iff_inRange (fun _ => true) full full_sized (2 ^ 64 - 2) (by decide)]
  refine ⟨⟨by decide +kernel, ?_⟩, rfl, by decide +kernel, ?_⟩
  · left
    decide +kernel
  · right
    decide +kernel

/-- Two bytes are readable. The wrapped resize leaves one cell, below `writer_idx_`,
and every assert holds. -/
theorem wrapped_resize_not_provides :
    Sized { new with writerIdx := 10 } ∧
      ensureWritableBytes (fun _ => true) { new with writerIdx := 10 } (2 ^ 64 - 9) =
        .ok ⟨[0], 8, 10⟩ ∧
      ¬ Provides (fun _ => true) { new with writerIdx := 10 } (2 ^ 64 - 9) := by
  have hsized : Sized { new with writerIdx := 10 } :=
    ⟨⟨by decide, by decide +kernel⟩, new_sized.size_le⟩
  have hwraps : ¬ (10 + (2 ^ 64 - 9) < 2 ^ 64) := by decide
  exact ⟨hsized, by decide +kernel, hsized.not_provides (by decide) fun hrange => hwraps hrange.1⟩

end SizeT

end Buffer

end Yatwb
