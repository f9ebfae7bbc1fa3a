import Yatwb.Foundation.Cells
import Yatwb.Foundation.Check

/-!
# The application buffer

`Buffer` of `buffer.h` and `buffer.cpp`: one vector of bytes and two
indices into it. The readable bytes are those between the indices; the
bytes before them are prependable, the bytes after them writable.

## Implementation notes

Sizes and indices are natural numbers, so no sum of them wraps. A pointer
into the vector is its offset from `begin()`. Every `assert` of the class is
a check, and so are the two conditions that `std::copy` puts on its ranges:
they lie inside the vector, and a copy inside it starts outside its source.
-/

namespace Yatwb

open Foundation

/-- One `char` of the vector. -/
abbrev Byte := UInt8

structure Buffer where
  buffer : List Byte
  readerIdx : Nat
  writerIdx : Nat
  deriving DecidableEq, Repr

namespace Buffer

/-- The asserts of the class, named after the function and what they test,
and the two ways a `std::copy` can leave its contract. -/
inductive Fault
  | retrieveLen
  | retrieveUntilPeek
  | retrieveUntilBeginWrite
  | ensureWritableBytesWritable
  | prependLen
  | makeSpaceReader
  | makeSpaceReadable
  | copyOutOfRange
  | copyOverlap
  deriving DecidableEq, Repr

def cheapPrependSize : Nat := 8

def initialSize : Nat := 1024

/-- The constructor: a zero-filled vector with the indices after the reserve. -/
def new : Buffer where
  buffer := List.replicate (cheapPrependSize + initialSize) 0
  readerIdx := cheapPrependSize
  writerIdx := cheapPrependSize

def readableBytes (b : Buffer) : Nat := b.writerIdx - b.readerIdx

def writableBytes (b : Buffer) : Nat := b.buffer.length - b.writerIdx

def prependableBytes (b : Buffer) : Nat := b.readerIdx

/-- The offset of the first readable byte. -/
def peek (b : Buffer) : Nat := b.readerIdx

/-- The offset one past the last readable byte. -/
def beginWrite (b : Buffer) : Nat := b.writerIdx

/-- The readable bytes, `[peek(), beginWrite())`. -/
def content (b : Buffer) : List Byte := segment b.buffer b.readerIdx b.writerIdx

def retrieve (b : Buffer) (len : Nat) : Except Fault Buffer := do
  check (len ≤ b.readableBytes) .retrieveLen
  return { b with readerIdx := b.readerIdx + len }

def retrieveUntil (b : Buffer) (last : Nat) : Except Fault Buffer := do
  check (b.peek ≤ last) .retrieveUntilPeek
  check (last ≤ b.beginWrite) .retrieveUntilBeginWrite
  b.retrieve (last - b.peek)

def retrieveAll (b : Buffer) : Buffer :=
  { b with readerIdx := cheapPrependSize, writerIdx := cheapPrependSize }

def retrieveAsString (b : Buffer) : Except Fault (Buffer × List Byte) := do
  check (b.peek + b.readableBytes ≤ b.buffer.length) .copyOutOfRange
  let str := segment b.buffer b.peek (b.peek + b.readableBytes)
  return (b.retrieveAll, str)

/-- Resize when the free bytes at both ends are too few, else slide the
readable bytes down to the reserve. -/
def makeSpace (b : Buffer) (len : Nat) : Except Fault Buffer :=
  if b.writableBytes + b.prependableBytes < len + cheapPrependSize then
    return { b with buffer := resize b.buffer (b.writerIdx + len) 0 }
  else do
    check (cheapPrependSize < b.readerIdx) .makeSpaceReader
    let readable := b.readableBytes
    check (b.writerIdx ≤ b.buffer.length) .copyOutOfRange
    check (¬ (b.readerIdx ≤ cheapPrependSize ∧ cheapPrependSize < b.writerIdx)) .copyOverlap
    let moved : Buffer :=
      { buffer := copyWithin b.buffer b.readerIdx cheapPrependSize readable
        readerIdx := cheapPrependSize
        writerIdx := cheapPrependSize + readable }
    check (readable = moved.readableBytes) .makeSpaceReadable
    return moved

def ensureWritableBytes (b : Buffer) (len : Nat) : Except Fault Buffer := do
  let b ← if b.writableBytes < len then b.makeSpace len else pure b
  check (len ≤ b.writableBytes) .ensureWritableBytesWritable
  return b

def hasWritten (b : Buffer) (len : Nat) : Buffer := { b with writerIdx := b.writerIdx + len }

/-- `std::copy` of foreign bytes to an offset of the vector. -/
def copyIn (b : Buffer) (pos : Nat) (data : List Byte) : Except Fault Buffer := do
  check (pos + data.length ≤ b.buffer.length) .copyOutOfRange
  return { b with buffer := writeAt b.buffer pos data }

/-- `append(const char*, size_t)`. -/
def append (b : Buffer) (data : List Byte) : Except Fault Buffer := do
  let b ← b.ensureWritableBytes data.length
  let b ← b.copyIn b.beginWrite data
  return b.hasWritten data.length

/-- `append(const std::string&)`. -/
def appendString (b : Buffer) (str : List Byte) : Except Fault Buffer := b.append str

/-- `append(const void*, size_t)`. -/
def appendVoid (b : Buffer) (data : List Byte) : Except Fault Buffer := b.append data

def prepend (b : Buffer) (data : List Byte) : Except Fault Buffer := do
  check (data.length ≤ b.prependableBytes) .prependLen
  let b := { b with readerIdx := b.readerIdx - data.length }
  b.copyIn b.readerIdx data

/-- The outcome of `readv(2)`: an errno, or the bytes received. -/
inductive ReadResult
  | error (errno : Int)
  | received (data : List Byte)
  deriving DecidableEq, Repr

/-- `sizeof extrabuf`. -/
def extrabufSize : Nat := 65536

/-- `readv(2)` fills the writable bytes first and `extrabuf` with the rest.
The result is the new buffer, the returned count and the saved errno. -/
def readFd (b : Buffer) : ReadResult → Except Fault (Buffer × Int × Option Int)
  | .error errno => return (b, -1, some errno)
  | .received data => do
      let writable := b.writableBytes
      let filled ← b.copyIn b.beginWrite (data.take writable)
      if data.length ≤ writable then
        return (filled.hasWritten data.length, data.length, none)
      else
        let b := { filled with writerIdx := filled.buffer.length }
        let b ← b.append (data.drop writable)
        return (b, data.length, none)

end Buffer

end Yatwb
