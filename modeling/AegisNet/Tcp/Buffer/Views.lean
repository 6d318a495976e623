import AegisNet.Tcp.Buffer

/-!
# Views into the storage of a buffer

A `std::string_view` made from `Buffer::peek()` is a pointer into the vector of the buffer. What
it shows later depends on what has been stored there since, and on whether the vector has moved
to another allocation; a `StoredBuffer` keeps account of the allocation next to the buffer.

## Main definitions

- `View` — a range of bytes of one allocation
- `StoredBuffer` — a buffer with the capacity and the allocation of its vector
- `StoredBuffer.read`, `StoredBuffer.Shows` — what a view shows
- `StoredBuffer.Spares` — an append stores nothing under a view and does not move the vector

## Main results

- `StoredBuffer.Shows.append` — a view that is spared shows the same bytes after the append
-/

namespace AegisNet

open Buffer (kCheapPrepend kInitialSize)

/-- A `std::string_view`: the allocation it points into, where it starts there, and its length. -/
structure View where
  allocation : ℕ
  offset : ℕ
  length : ℕ
  deriving DecidableEq

/-- The view of the default constructor. -/
def View.empty : View := ⟨0, 0, 0⟩

/-- A buffer together with what its vector does not show. Allocations are numbered in the order
    in which the vector has used them. -/
structure StoredBuffer where
  buf : Buffer
  capacity : ℕ
  allocation : ℕ
  size_le : buf.buffer.length ≤ capacity

namespace Buffer

@[simp] theorem buffer_retrieve (b : Buffer) (len : ℕ) : (b.retrieve len).buffer = b.buffer := by
  unfold retrieve
  split
  · rfl
  · rfl

/-- The bytes of a range of the readable bytes lie in the vector behind `readIndex`. -/
theorem slice_readable (b : Buffer) {start len : ℕ} (h : start + len ≤ b.readableBytes) :
    (b.buffer.drop (b.readIndex + start)).take len = (b.readable.drop start).take len := by
  have hr := b.readIndex_le
  unfold readableBytes at h
  rw [readable, List.drop_drop, List.drop_take, List.take_take, min_eq_left (by omega)]

/-- `append` goes on in the vector as it is, without `makeSpace` moving the readable bytes. -/
def AppendsInPlace (b : Buffer) (data : Bytes) : Prop :=
  data.length ≤ b.writableBytes ∨
    b.writableBytes + b.prependableBytes < data.length + kCheapPrepend

instance (b : Buffer) (data : Bytes) : Decidable (b.AppendsInPlace data) := by
  unfold AppendsInPlace
  infer_instance

/-- The first byte of the vector that `append` stores to. -/
def storeBegin (b : Buffer) (data : Bytes) : ℕ :=
  if b.AppendsInPlace data then b.writeIndex else kCheapPrepend

/-- The end of the bytes of the vector that `append` stores to. -/
def storeEnd (b : Buffer) (data : Bytes) : ℕ :=
  if b.AppendsInPlace data then b.writeIndex + data.length
  else kCheapPrepend + b.readableBytes + data.length

end Buffer

/-- A range in front of what a copy stores, or behind it, keeps its bytes. -/
theorem slice_copyTo {dst src : Bytes} {pos start len : ℕ} (hfit : pos + src.length ≤ dst.length)
    (h : start + len ≤ pos ∨ pos + src.length ≤ start) :
    ((copyTo dst pos src).drop start).take len = (dst.drop start).take len := by
  have hpos : (dst.take pos).length = pos := by
    rw [List.length_take]
    omega
  rcases h with h | h
  · rw [copyTo, List.append_assoc, List.drop_append_of_le_length (by omega),
      List.take_append_of_le_length (by rw [List.length_drop]; omega), List.drop_take,
      List.take_take, min_eq_left (by omega)]
  · have hfront : (dst.take pos ++ src).length = pos + src.length := by
      rw [List.length_append, hpos]
    obtain ⟨k, rfl⟩ := Nat.exists_eq_add_of_le h
    rw [copyTo, ← List.drop_drop, List.drop_left' hfront, List.drop_drop]

/-- Growing a vector keeps the bytes it has. -/
theorem slice_resize {v : Bytes} {n start len : ℕ} (hn : v.length ≤ n)
    (h : start + len ≤ v.length) :
    ((Buffer.resize v n).drop start).take len = (v.drop start).take len := by
  rw [Buffer.resize, List.take_of_length_le hn, List.drop_append_of_le_length (by omega),
    List.take_append_of_le_length (by rw [List.length_drop]; omega)]

namespace Buffer

/-- **What an append stores**: outside `storeBegin` and `storeEnd` the vector keeps its bytes. -/
theorem slice_append (b : Buffer) (data : Bytes) {start len : ℕ}
    (hin : start + len ≤ b.buffer.length)
    (h : start + len ≤ b.storeBegin data ∨ b.storeEnd data ≤ start) :
    ((b.append data).buffer.drop start).take len = (b.buffer.drop start).take len := by
  have hr := b.readIndex_le
  have hw := b.writeIndex_le
  unfold storeBegin storeEnd at h
  by_cases hfit : b.writableBytes < data.length
  · by_cases hgrow : b.writableBytes + b.prependableBytes < data.length + kCheapPrepend
    · rw [if_pos (.inr hgrow), if_pos (.inr hgrow)] at h
      have happ : (b.append data).buffer =
          copyTo (resize b.buffer (b.writeIndex + data.length)) b.writeIndex data := by
        simp only [append, hfit, dite_true, write, makeSpace, hgrow]
      unfold writableBytes at hfit
      rw [happ, slice_copyTo (by rw [length_resize]) h, slice_resize (by omega) hin]
    · have hmove : ¬ b.AppendsInPlace data := by
        rintro (hle | hlt)
        · omega
        · exact hgrow hlt
      rw [if_neg hmove, if_neg hmove] at h
      have happ : (b.append data).buffer =
          copyTo (copyTo b.buffer kCheapPrepend b.readable) (kCheapPrepend + b.readableBytes)
            data := by
        simp only [append, hfit, dite_true, write, makeSpace, hgrow, dite_false]
      unfold writableBytes prependableBytes at hgrow
      have hspace : kCheapPrepend + b.readableBytes + data.length ≤ b.buffer.length := by
        unfold readableBytes
        omega
      have hread : kCheapPrepend + b.readable.length ≤ b.buffer.length := by
        rw [length_readable]
        omega
      rw [happ, slice_copyTo (by rw [length_copyTo hread]; exact hspace) (by omega),
        slice_copyTo hread (by rw [length_readable]; omega)]
  · have hle : data.length ≤ b.writableBytes := Nat.le_of_not_lt hfit
    rw [if_pos (.inl hle), if_pos (.inl hle)] at h
    have happ : (b.append data).buffer = copyTo b.buffer b.writeIndex data := by
      simp only [append, hfit, dite_false, write]
    unfold writableBytes at hle
    rw [happ, slice_copyTo (by omega) h]

end Buffer

namespace StoredBuffer

variable (grow : ℕ → ℕ → ℕ)

/-- The constructor: the vector is allocated with the size it is given. -/
def new (initialSize : ℕ := kInitialSize) : StoredBuffer where
  buf := .new initialSize
  capacity := kCheapPrepend + initialSize
  allocation := 0
  size_le := by simp [Buffer.new]

def readable (b : StoredBuffer) : Bytes := b.buf.readable

/-- `append` reallocates when the vector outgrows its capacity; `grow` is what the standard
    library makes of the old size and the new one. -/
def append (b : StoredBuffer) (data : Bytes) : StoredBuffer :=
  if h : (b.buf.append data).buffer.length ≤ b.capacity then
    { b with
      buf := b.buf.append data
      size_le := h }
  else
    { buf := b.buf.append data
      capacity := max (b.buf.append data).buffer.length
        (grow b.buf.buffer.length (b.buf.append data).buffer.length)
      allocation := b.allocation + 1
      size_le := le_max_left _ _ }

def retrieveUntil (b : StoredBuffer) (endOffset : ℕ) : StoredBuffer :=
  { b with
    buf := b.buf.retrieveUntil endOffset
    size_le := by rw [Buffer.retrieveUntil, Buffer.buffer_retrieve]; exact b.size_le }

/-- The view of `len` readable bytes from `peek() + start` on. -/
def view (b : StoredBuffer) (start len : ℕ) : View :=
  ⟨b.allocation, b.buf.readIndex + start, len⟩

/-- What a view shows; `none` when its bytes have been freed. An empty view reads no memory. -/
def read (b : StoredBuffer) (v : View) : Option Bytes :=
  if v.length = 0 then some []
  else if v.allocation = b.allocation then some ((b.buf.buffer.drop v.offset).take v.length)
  else none

/-- A view shows the bytes `x`, and all of them lie in the vector. -/
def Shows (b : StoredBuffer) (v : View) (x : Bytes) : Prop :=
  b.read v = some x ∧ x.length = v.length

/-- An append leaves a view alone: the view is empty, or the vector stays where it is and the
    bytes stored lie in front of the view or behind it. -/
def Spares (b : StoredBuffer) (data : Bytes) (v : View) : Prop :=
  v.length = 0 ∨
    (b.buf.append data).buffer.length ≤ b.capacity ∧
      (v.offset + v.length ≤ b.buf.storeBegin data ∨ b.buf.storeEnd data ≤ v.offset)

instance (b : StoredBuffer) (data : Bytes) (v : View) : Decidable (b.Spares data v) := by
  unfold Spares
  infer_instance

@[simp] theorem readable_new (initialSize : ℕ) : (new initialSize).readable = [] :=
  Buffer.readable_new initialSize

@[simp] theorem readable_append (b : StoredBuffer) (data : Bytes) :
    (b.append grow data).readable = b.readable ++ data := by
  have h : (b.append grow data).buf = b.buf.append data := by
    rw [append]
    split
    · rfl
    · rfl
  rw [readable, h, Buffer.readable_append, readable]

@[simp] theorem readable_retrieveUntil (b : StoredBuffer) (endOffset : ℕ) :
    (b.retrieveUntil endOffset).readable = b.readable.drop endOffset :=
  b.buf.readable_retrieveUntil endOffset

theorem shows_empty (b : StoredBuffer) : b.Shows View.empty [] := ⟨rfl, rfl⟩

/-- A new view shows the readable bytes it was made from. -/
theorem shows_view (b : StoredBuffer) {start len : ℕ} (h : start + len ≤ b.readable.length) :
    b.Shows (b.view start len) ((b.readable.drop start).take len) := by
  constructor
  · rw [readable, Buffer.length_readable] at h
    by_cases hz : len = 0
    · subst hz
      simp [read, view]
    · simp only [read, view, hz, if_false, if_true, b.buf.slice_readable h, readable]
  · show _ = len
    rw [List.length_take, List.length_drop]
    omega

/-- Retrieving stores nothing. -/
@[simp] theorem read_retrieveUntil (b : StoredBuffer) (endOffset : ℕ) (v : View) :
    (b.retrieveUntil endOffset).read v = b.read v := by
  simp only [read, retrieveUntil, Buffer.retrieveUntil, Buffer.buffer_retrieve]

variable {b : StoredBuffer} {v : View} {x data : Bytes}

theorem Shows.retrieveUntil (h : b.Shows v x) (endOffset : ℕ) :
    (b.retrieveUntil endOffset).Shows v x :=
  ⟨(b.read_retrieveUntil endOffset v).trans h.1, h.2⟩

/-- The bytes that a view shows lie in the vector. -/
theorem Shows.in_vector (h : b.Shows v x) (hz : v.length ≠ 0) :
    v.offset + v.length ≤ b.buf.buffer.length := by
  obtain ⟨hread, hlen⟩ := h
  simp only [read, hz, if_false, Option.ite_none_right_eq_some, Option.some.injEq] at hread
  rw [← hread.2, List.length_take, List.length_drop] at hlen
  omega

/-- **A view that is spared shows the same bytes after the append.** -/
theorem Shows.append (h : b.Shows v x) (hs : b.Spares data v) :
    (b.append grow data).Shows v x := by
  refine ⟨?_, h.2⟩
  by_cases hz : v.length = 0
  · have hread := h.1
    simp only [read, hz, if_true] at hread ⊢
    exact hread
  · obtain ⟨hcap, hapart⟩ := hs.resolve_left hz
    have happ : (b.append grow data).buf = b.buf.append data ∧
        (b.append grow data).allocation = b.allocation := by
      rw [StoredBuffer.append, dif_pos hcap]
      exact ⟨rfl, rfl⟩
    rw [← h.1]
    simp only [read, happ.1, happ.2, b.buf.slice_append data (h.in_vector hz) hapart]

end StoredBuffer

end AegisNet
