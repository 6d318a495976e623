import AegisNet.Base.Bytes
import AegisNet.Lib.Search
import Mathlib.Tactic.Common

/-!
# The byte buffer

`Buffer` is the growable byte buffer of `src/tcp/Buffer.{h,cpp}`: a vector with a read and a
write index. The indices of a `Buffer` value are always in order and inside the vector, and every
store goes through `Buffer.write`, which asks for a proof that the bytes fit. What the rest of
the program sees of a buffer is the byte queue `Buffer.readable`; the lemmas below give the effect
of each operation on it.

## Main definitions

- `Buffer` — vector, indices, and the proofs that they are in range
- `Buffer.readable` — the bytes in `[peek(), beginWrite())`
- `Buffer.append`, `Buffer.retrieve`, `Buffer.findCRLF`, `Buffer.readFd` — the operations
-/

namespace AegisNet

namespace Buffer

def kCheapPrepend : ℕ := 8

def kInitialSize : ℕ := 1024

/-- The two bytes CR LF. -/
def kCRLF : Bytes := [0x0D, 0x0A]

end Buffer

/-- The vector and the two indices of the C++ class, with their order as fields. -/
structure Buffer where
  buffer : Bytes
  readIndex : ℕ
  writeIndex : ℕ
  kCheapPrepend_le : Buffer.kCheapPrepend ≤ buffer.length
  readIndex_le : readIndex ≤ writeIndex
  writeIndex_le : writeIndex ≤ buffer.length

/-- `std::copy` of `src` to offset `pos` of `dst`. -/
def copyTo (dst : Bytes) (pos : ℕ) (src : Bytes) : Bytes :=
  dst.take pos ++ src ++ dst.drop (pos + src.length)

/-- A copy that fits keeps the size of its destination. -/
theorem length_copyTo {dst src : Bytes} {pos : ℕ} (h : pos + src.length ≤ dst.length) :
    (copyTo dst pos src).length = dst.length := by
  simp only [copyTo, List.length_append, List.length_take, List.length_drop]
  omega

/-- Up to its end, a copy shows the old bytes in front of the new ones. -/
theorem take_copyTo {dst src : Bytes} {pos : ℕ} (h : pos ≤ dst.length) :
    (copyTo dst pos src).take (pos + src.length) = dst.take pos ++ src := by
  have hlen : (dst.take pos ++ src).length = pos + src.length := by
    rw [List.length_append, List.length_take, min_eq_left h]
  rw [copyTo, ← hlen, List.take_left]

namespace Buffer

/-- The constructor: `kCheapPrepend` bytes in front of `initialSize` writable ones. -/
def new (initialSize : ℕ := kInitialSize) : Buffer where
  buffer := List.replicate (kCheapPrepend + initialSize) 0
  readIndex := kCheapPrepend
  writeIndex := kCheapPrepend
  kCheapPrepend_le := by simp
  readIndex_le := le_refl _
  writeIndex_le := by simp

def readableBytes (b : Buffer) : ℕ := b.writeIndex - b.readIndex

def writableBytes (b : Buffer) : ℕ := b.buffer.length - b.writeIndex

def prependableBytes (b : Buffer) : ℕ := b.readIndex

/-- The bytes from `peek()` to `beginWrite()`. -/
def readable (b : Buffer) : Bytes := (b.buffer.take b.writeIndex).drop b.readIndex

def retrieveAll (b : Buffer) : Buffer :=
  { b with
    readIndex := kCheapPrepend
    writeIndex := kCheapPrepend
    readIndex_le := le_refl _
    writeIndex_le := b.kCheapPrepend_le }

def retrieve (b : Buffer) (len : ℕ) : Buffer :=
  if h : len < b.readableBytes then
    { b with
      readIndex := b.readIndex + len
      readIndex_le := by unfold readableBytes at h; omega }
  else b.retrieveAll

/-- `end` is given as its distance from `peek()`. -/
def retrieveUntil (b : Buffer) (endOffset : ℕ) : Buffer := b.retrieve endOffset

/-- The first CR LF of the readable bytes, as its distance from `peek()`; `none` is `nullptr`. -/
def findCRLF (b : Buffer) : Option ℕ := ListSearch.search kCRLF b.readable

/-- Store `data` at `beginWrite()` and advance `writeIndex`. No store goes outside the vector:
    the caller shows that `data` fits. -/
def write (b : Buffer) (data : Bytes) (h : data.length ≤ b.writableBytes) : Buffer :=
  have hfit : b.writeIndex + data.length ≤ b.buffer.length := by
    have := b.writeIndex_le
    unfold writableBytes at h
    omega
  { buffer := copyTo b.buffer b.writeIndex data
    readIndex := b.readIndex
    writeIndex := b.writeIndex + data.length
    kCheapPrepend_le := by rw [length_copyTo hfit]; exact b.kCheapPrepend_le
    readIndex_le := by have := b.readIndex_le; omega
    writeIndex_le := by rw [length_copyTo hfit]; exact hfit }

/-- `std::vector::resize`, which fills with zeros. -/
def resize (v : Bytes) (n : ℕ) : Bytes := v.take n ++ List.replicate (n - v.length) 0

theorem length_resize (v : Bytes) (n : ℕ) : (resize v n).length = n := by
  simp only [resize, List.length_append, List.length_take, List.length_replicate]
  omega

/-- The number of readable bytes is the distance of the indices. -/
@[simp] theorem length_readable (b : Buffer) : b.readable.length = b.readableBytes := by
  have := b.readIndex_le
  have := b.writeIndex_le
  simp only [readable, readableBytes, List.length_drop, List.length_take]
  omega

/-- Called by `append` only when the writable tail is too short: grow the vector, or move the
    readable bytes to the front. -/
def makeSpace (b : Buffer) (len : ℕ) (h : b.writableBytes < len) : Buffer :=
  if hs : b.writableBytes + b.prependableBytes < len + kCheapPrepend then
    { b with
      buffer := resize b.buffer (b.writeIndex + len)
      kCheapPrepend_le := by
        have := b.kCheapPrepend_le
        rw [length_resize]
        unfold writableBytes at h
        omega
      writeIndex_le := by rw [length_resize]; omega }
  else
    have hfit : kCheapPrepend + b.readable.length ≤ b.buffer.length := by
      have := b.readIndex_le
      have := b.writeIndex_le
      simp only [length_readable, readableBytes]
      unfold writableBytes prependableBytes at hs
      omega
    { buffer := copyTo b.buffer kCheapPrepend b.readable
      readIndex := kCheapPrepend
      writeIndex := kCheapPrepend + b.readableBytes
      kCheapPrepend_le := by rw [length_copyTo hfit]; exact b.kCheapPrepend_le
      readIndex_le := Nat.le_add_right _ _
      writeIndex_le := by
        rw [length_copyTo hfit]
        rw [length_readable] at hfit
        exact hfit }

/-- `makeSpace` makes the space it is asked for. -/
theorem makeSpace_fits (b : Buffer) (len : ℕ) (h : b.writableBytes < len) :
    len ≤ (b.makeSpace len h).writableBytes := by
  have := b.readIndex_le
  have := b.writeIndex_le
  unfold makeSpace
  split
  · simp only [writableBytes, length_resize]
    omega
  · next hs =>
    unfold writableBytes prependableBytes at hs
    simp only [writableBytes]
    rw [length_copyTo (by simp only [length_readable, readableBytes]; omega)]
    unfold readableBytes
    omega

def append (b : Buffer) (data : Bytes) : Buffer :=
  if h : b.writableBytes < data.length then
    (b.makeSpace data.length h).write data (b.makeSpace_fits data.length h)
  else b.write data (Nat.le_of_not_lt h)

/-- In front of the readable bytes; the assertion of the source is the hypothesis. -/
def prepend (b : Buffer) (data : Bytes) (h : data.length ≤ b.prependableBytes) : Buffer :=
  have hfit : b.readIndex - data.length + data.length ≤ b.buffer.length := by
    have := b.readIndex_le
    have := b.writeIndex_le
    unfold prependableBytes at h
    omega
  { buffer := copyTo b.buffer (b.readIndex - data.length) data
    readIndex := b.readIndex - data.length
    writeIndex := b.writeIndex
    kCheapPrepend_le := by rw [length_copyTo hfit]; exact b.kCheapPrepend_le
    readIndex_le := by have := b.readIndex_le; omega
    writeIndex_le := by rw [length_copyTo hfit]; exact b.writeIndex_le }

/-- The string, and the buffer after it. -/
def retrieveAsString (b : Buffer) (len : ℕ) : Bytes × Buffer :=
  ((b.buffer.drop b.readIndex).take len, b.retrieve len)

/-- `data` is what `::readv` delivers, filling the writable tail first and the stack buffer
    after it. -/
def readFd (b : Buffer) (data : Bytes) : Buffer :=
  if h : data.length ≤ b.writableBytes then b.write data h
  else
    (b.write (data.take b.writableBytes) (List.length_take_le _ _)).append
      (data.drop b.writableBytes)

/-! ## The operations on the readable bytes -/

@[simp] theorem readable_new (initialSize : ℕ) : (new initialSize).readable = [] := by
  simp [readable, new]

@[simp] theorem readable_retrieveAll (b : Buffer) : b.retrieveAll.readable = [] := by
  simp [readable, retrieveAll]

/-- Retrieving drops bytes from the front, all of them when asked for more than there are. -/
@[simp] theorem readable_retrieve (b : Buffer) (len : ℕ) :
    (b.retrieve len).readable = b.readable.drop len := by
  unfold retrieve
  split
  · simp [readable]
  · next h =>
    rw [readable_retrieveAll, List.drop_of_length_le]
    rw [length_readable]
    omega

@[simp] theorem readable_retrieveUntil (b : Buffer) (endOffset : ℕ) :
    (b.retrieveUntil endOffset).readable = b.readable.drop endOffset :=
  b.readable_retrieve endOffset

theorem readable_write (b : Buffer) (data : Bytes) (h : data.length ≤ b.writableBytes) :
    (b.write data h).readable = b.readable ++ data := by
  have hr := b.readIndex_le
  have hw := b.writeIndex_le
  simp only [readable, write]
  rw [take_copyTo hw, List.drop_append_of_le_length (by simp; omega)]

theorem readable_makeSpace (b : Buffer) (len : ℕ) (h : b.writableBytes < len) :
    (b.makeSpace len h).readable = b.readable := by
  have hr := b.readIndex_le
  have hw := b.writeIndex_le
  unfold makeSpace
  split
  · simp only [readable, resize]
    rw [List.take_append_of_le_length (by simp; omega), List.take_take, min_eq_left (by omega)]
  · have hc := b.kCheapPrepend_le
    change ((copyTo b.buffer kCheapPrepend b.readable).take
      (kCheapPrepend + b.readableBytes)).drop kCheapPrepend = b.readable
    rw [← length_readable, take_copyTo hc, List.drop_left' (by simp [hc])]

/-- Appending adds at the back. -/
@[simp] theorem readable_append (b : Buffer) (data : Bytes) :
    (b.append data).readable = b.readable ++ data := by
  unfold append
  split
  · rw [readable_write, readable_makeSpace]
  · rw [readable_write]

/-- So does reading from a descriptor. -/
@[simp] theorem readable_readFd (b : Buffer) (data : Bytes) :
    (b.readFd data).readable = b.readable ++ data := by
  unfold readFd
  split
  · rw [readable_write]
  · rw [readable_append, readable_write, List.append_assoc, List.take_append_drop]

/-- Prepending adds at the front. -/
@[simp] theorem readable_prepend (b : Buffer) (data : Bytes)
    (h : data.length ≤ b.prependableBytes) :
    (b.prepend data h).readable = data ++ b.readable := by
  have hr := b.readIndex_le
  have hw := b.writeIndex_le
  obtain ⟨p, hp⟩ : ∃ p, b.readIndex = p + data.length :=
    ⟨b.readIndex - data.length, by unfold prependableBytes at h; omega⟩
  have hfront : (b.buffer.take p).length = p := by
    rw [List.length_take]
    omega
  have hcopy : copyTo b.buffer p data = b.buffer.take p ++ (data ++ b.buffer.drop b.readIndex) := by
    rw [copyTo, List.append_assoc, hp]
  have hkept : ((b.buffer.take p ++ (data ++ b.buffer.drop b.readIndex)).take b.writeIndex).drop p =
      (data ++ b.buffer.drop b.readIndex).take (b.writeIndex - p) := by
    rw [List.drop_take, List.drop_left' hfront]
  show ((copyTo b.buffer (b.readIndex - data.length) data).take b.writeIndex).drop
    (b.readIndex - data.length) = _
  rw [show b.readIndex - data.length = p by omega, hcopy, hkept, List.take_append,
    List.take_of_length_le (by omega), show b.writeIndex - p - data.length =
      b.writeIndex - b.readIndex by omega, readable, List.drop_take]

/-- No readable byte is left exactly when the byte queue is empty. -/
theorem readableBytes_eq_zero {b : Buffer} : b.readableBytes = 0 ↔ b.readable = [] := by
  rw [← length_readable, List.length_eq_zero_iff]

end Buffer

end AegisNet
