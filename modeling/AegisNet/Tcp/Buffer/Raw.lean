import AegisNet.Tcp.Buffer
import AegisNet.Lib.Run
import Mathlib.Tactic.Common

/-!
# The buffer as the C++ class has it

`RawBuffer` is `src/tcp/Buffer.{h,cpp}` with nothing promised about its members: three values, and
operations that answer `none` where the source would fail an assertion, subtract below zero, or
touch a byte outside the vector. The copies go byte by byte. Every operation on the image of a
`Buffer` value is the image of the checked operation, so that a run of the class from its
constructor never fails and shows a byte queue.

## Main definitions

- `RawBuffer` — the members of the class, and its operations as partial functions
- `BufferOp`, `RawBuffer.exec` — one call of a client, and what it answers
- `BufferOp.after`, `BufferOp.answer` — the same call on a plain list of bytes
- `Buffer.toRaw` — the abstraction the simulation goes through

## Main results

- `RawBuffer.run_byteQueue` — every run of calls is a run of the byte queue
-/

namespace AegisNet

open Buffer (kCheapPrepend kInitialSize kCRLF)

/-- The members of the C++ class. Sizes and indices are natural numbers: sums do not wrap. -/
structure RawBuffer where
  buffer : Bytes
  readIndex : ℕ
  writeIndex : ℕ
  deriving DecidableEq

/-- `std::copy` of bytes that lie elsewhere to offset `pos`, byte by byte. -/
def storeBytes (v : Bytes) (pos : ℕ) : Bytes → Option Bytes
  | [] => some v
  | x :: src => if pos < v.length then storeBytes (v.set pos x) (pos + 1) src else none

/-- `std::copy` of `n` bytes from offset `src` to offset `pos` of one vector, byte by byte from
    the front. -/
def moveBytes (v : Bytes) (src pos : ℕ) : ℕ → Option Bytes
  | 0 => some v
  | n + 1 =>
    match v[src]? with
    | none => none
    | some x => if pos < v.length then moveBytes (v.set pos x) (src + 1) (pos + 1) n else none

namespace RawBuffer

/-- The constructor. -/
def new (initialSize : ℕ := kInitialSize) : RawBuffer where
  buffer := List.replicate (kCheapPrepend + initialSize) 0
  readIndex := kCheapPrepend
  writeIndex := kCheapPrepend

/-- A difference of `size_t` values that would wrap around is no value here. -/
def readableBytes (b : RawBuffer) : Option ℕ :=
  if b.readIndex ≤ b.writeIndex then some (b.writeIndex - b.readIndex) else none

def writableBytes (b : RawBuffer) : Option ℕ :=
  if b.writeIndex ≤ b.buffer.length then some (b.buffer.length - b.writeIndex) else none

def prependableBytes (b : RawBuffer) : ℕ := b.readIndex

def retrieveAll (b : RawBuffer) : RawBuffer :=
  { b with readIndex := kCheapPrepend, writeIndex := kCheapPrepend }

def retrieve (b : RawBuffer) (len : ℕ) : Option RawBuffer := do
  let readable ← b.readableBytes
  if len < readable then some { b with readIndex := b.readIndex + len }
  else some b.retrieveAll

/-- `ptr` is the argument `end`, as an offset into the vector. -/
def retrieveUntil (b : RawBuffer) (ptr : ℕ) : Option RawBuffer :=
  if b.readIndex ≤ ptr ∧ ptr ≤ b.writeIndex then b.retrieve (ptr - b.readIndex) else none

def retrieveAsString (b : RawBuffer) (len : ℕ) : Option (Bytes × RawBuffer) :=
  if b.readIndex + len ≤ b.buffer.length then do
    let rest ← b.retrieve len
    some ((b.buffer.drop b.readIndex).take len, rest)
  else none

/-- A `std::copy` must not start inside the range it reads. -/
def makeSpace (b : RawBuffer) (len : ℕ) : Option RawBuffer := do
  let writable ← b.writableBytes
  if writable + b.prependableBytes < len + kCheapPrepend then
    some { b with buffer := Buffer.resize b.buffer (b.writeIndex + len) }
  else do
    let readable ← b.readableBytes
    if b.readIndex ≤ kCheapPrepend ∧ kCheapPrepend < b.writeIndex then none
    else do
      let moved ← moveBytes b.buffer b.readIndex kCheapPrepend readable
      some { buffer := moved, readIndex := kCheapPrepend, writeIndex := kCheapPrepend + readable }

/-- The copy of `append`, and the index after it. -/
def write (b : RawBuffer) (data : Bytes) : Option RawBuffer := do
  let stored ← storeBytes b.buffer b.writeIndex data
  some { b with buffer := stored, writeIndex := b.writeIndex + data.length }

def append (b : RawBuffer) (data : Bytes) : Option RawBuffer := do
  let writable ← b.writableBytes
  if writable < data.length then do
    let roomy ← b.makeSpace data.length
    roomy.write data
  else b.write data

def prepend (b : RawBuffer) (data : Bytes) : Option RawBuffer :=
  if data.length ≤ b.prependableBytes then do
    let stored ← storeBytes b.buffer (b.readIndex - data.length) data
    some { b with buffer := stored, readIndex := b.readIndex - data.length }
  else none

/-- The bytes from `peek()` to `beginWrite()`. -/
def readable (b : RawBuffer) : Bytes := (b.buffer.take b.writeIndex).drop b.readIndex

/-- `std::search` on `[peek(), beginWrite())`, which answers the end of the range where there is no
    match; the pointer is given as its distance from `peek()`, `nullptr` as `none`. -/
def findCRLF (b : RawBuffer) : Option (Option ℕ) :=
  if b.readIndex ≤ b.writeIndex ∧ b.writeIndex ≤ b.buffer.length then
    let crlf := b.readIndex + (ListSearch.search kCRLF b.readable).getD b.readable.length
    some (if crlf = b.writeIndex then none else some (crlf - b.readIndex))
  else none

end RawBuffer

/-! ## Calls -/

/-- A call of a client. The pointer of `retrieveUntil` is given as its distance from `peek()`. -/
inductive BufferOp
  | append (data : Bytes)
  | prepend (data : Bytes)
  | retrieve (len : ℕ)
  | retrieveAll
  | retrieveUntil (endOffset : ℕ)
  | retrieveAsString (len : ℕ)
  | findCRLF
  deriving DecidableEq

/-- What a call returns. -/
inductive BufferResult
  | void
  | string (s : Bytes)
  | pointer (p : Option ℕ)
  deriving DecidableEq

/-- What the assertions of the source and the callers of `retrieveAsString` promise. -/
def BufferOp.Allowed (b : RawBuffer) : BufferOp → Prop
  | prepend data => data.length ≤ b.prependableBytes
  | retrieveUntil endOffset => b.readIndex + endOffset ≤ b.writeIndex
  | retrieveAsString len => b.readIndex + len ≤ b.writeIndex
  | _ => True

instance (b : RawBuffer) : DecidablePred (BufferOp.Allowed b) := fun op => by
  cases op <;> unfold BufferOp.Allowed <;> infer_instance

/-- A call on the class. -/
def RawBuffer.exec (b : RawBuffer) : BufferOp → Option (BufferResult × RawBuffer)
  | .append data => (b.append data).map (.void, ·)
  | .prepend data => (b.prepend data).map (.void, ·)
  | .retrieve len => (b.retrieve len).map (.void, ·)
  | .retrieveAll => some (.void, b.retrieveAll)
  | .retrieveUntil endOffset => (b.retrieveUntil (b.readIndex + endOffset)).map (.void, ·)
  | .retrieveAsString len => (b.retrieveAsString len).map fun r => (.string r.1, r.2)
  | .findCRLF => b.findCRLF.map fun p => (.pointer p, b)

namespace BufferOp

/-- The byte queue after a call. -/
def after (q : Bytes) : BufferOp → Bytes
  | append data => q ++ data
  | prepend data => data ++ q
  | retrieve len => q.drop len
  | retrieveAll => []
  | retrieveUntil endOffset => q.drop endOffset
  | retrieveAsString len => q.drop len
  | findCRLF => q

/-- What the byte queue answers to a call. -/
def answer (q : Bytes) : BufferOp → BufferResult
  | retrieveAsString len => .string (q.take len)
  | findCRLF => .pointer (ListSearch.search kCRLF q)
  | _ => .void

def IsPrepend : BufferOp → Prop
  | prepend _ => True
  | _ => False

instance : DecidablePred IsPrepend := fun op => by
  cases op <;> unfold IsPrepend <;> infer_instance

end BufferOp

/-- An allowed call that the class carries out. -/
def RawBuffer.Call (b : RawBuffer) (op : BufferOp) (b' : RawBuffer) : Prop :=
  op.Allowed b ∧ ∃ r, b.exec op = some (r, b')

/-! ## Copies -/

/-- One byte stored, then the rest behind it. -/
theorem copyTo_set {v src : Bytes} {pos : ℕ} (x : UInt8) (h : pos < v.length) :
    copyTo (v.set pos x) (pos + 1) src = copyTo v pos (x :: src) := by
  have htake : (v.set pos x).take (pos + 1) = v.take pos ++ [x] := by
    rw [List.take_succ_eq_append_getElem (by rwa [List.length_set]), List.getElem_set_self,
      List.take_set, List.set_eq_of_length_le]
    exact List.length_take_le _ _
  have hdrop : (v.set pos x).drop (pos + 1 + src.length) = v.drop (pos + 1 + src.length) :=
    List.drop_set_of_lt (by omega)
  rw [copyTo, copyTo, htake, hdrop, List.length_cons]
  simp [Nat.add_assoc, Nat.add_comm 1]

/-- A copy that fits stores every byte inside the vector. -/
theorem storeBytes_eq {v src : Bytes} {pos : ℕ} (h : pos + src.length ≤ v.length) :
    storeBytes v pos src = some (copyTo v pos src) := by
  induction src generalizing v pos with
  | nil => simp [storeBytes, copyTo]
  | cons x src ih =>
    simp only [List.length_cons] at h
    rw [storeBytes, if_pos (by omega), ih (by rw [List.length_set]; omega),
      copyTo_set x (by omega)]

/-- Moving towards the front, no byte is overwritten before it is read. -/
theorem moveBytes_eq {v : Bytes} {src pos n : ℕ} (hlt : pos < src) (h : src + n ≤ v.length) :
    moveBytes v src pos n = some (copyTo v pos ((v.drop src).take n)) := by
  induction n generalizing v src pos with
  | zero => simp [moveBytes, copyTo]
  | succ n ih =>
    have hsrc : src < v.length := by omega
    have hkept : ((v.set pos v[src]).drop (src + 1)).take n = (v.drop (src + 1)).take n := by
      rw [List.drop_set_of_lt (by omega)]
    rw [moveBytes, List.getElem?_eq_getElem hsrc]
    show (if pos < v.length then moveBytes (v.set pos v[src]) (src + 1) (pos + 1) n else none) = _
    rw [if_pos (by omega), ih (by omega) (by rw [List.length_set]; omega), hkept,
      copyTo_set _ (by omega), List.drop_eq_getElem_cons hsrc, List.take_succ_cons]

/-! ## The checked buffer below the class -/

namespace Buffer

def toRaw (b : Buffer) : RawBuffer := ⟨b.buffer, b.readIndex, b.writeIndex⟩

@[simp] theorem toRaw_buffer (b : Buffer) : b.toRaw.buffer = b.buffer := rfl

@[simp] theorem toRaw_readIndex (b : Buffer) : b.toRaw.readIndex = b.readIndex := rfl

@[simp] theorem toRaw_writeIndex (b : Buffer) : b.toRaw.writeIndex = b.writeIndex := rfl

@[simp] theorem toRaw_prependableBytes (b : Buffer) :
    b.toRaw.prependableBytes = b.prependableBytes := rfl

@[simp] theorem toRaw_readable (b : Buffer) : b.toRaw.readable = b.readable := rfl

@[simp] theorem toRaw_readableBytes (b : Buffer) :
    b.toRaw.readableBytes = some b.readableBytes :=
  if_pos b.readIndex_le

@[simp] theorem toRaw_writableBytes (b : Buffer) :
    b.toRaw.writableBytes = some b.writableBytes :=
  if_pos b.writeIndex_le

theorem toRaw_retrieve (b : Buffer) (len : ℕ) :
    b.toRaw.retrieve len = some (b.retrieve len).toRaw := by
  simp only [RawBuffer.retrieve, toRaw_readableBytes, retrieve]
  by_cases h : len < b.readableBytes
  · simp [h, toRaw]
  · simp [h, toRaw, RawBuffer.retrieveAll, retrieveAll]

theorem toRaw_write (b : Buffer) (data : Bytes) (h : data.length ≤ b.writableBytes) :
    b.toRaw.write data = some (b.write data h).toRaw := by
  have hw := b.writeIndex_le
  have hfit : b.writeIndex + data.length ≤ b.buffer.length := by
    unfold writableBytes at h
    omega
  simp [RawBuffer.write, storeBytes_eq hfit, write, toRaw]

theorem readIndex_retrieve (b : Buffer) (len : ℕ) (h : kCheapPrepend ≤ b.readIndex) :
    kCheapPrepend ≤ (b.retrieve len).readIndex := by
  unfold retrieve
  split
  · exact h.trans (Nat.le_add_right _ _)
  · exact le_refl _

/-- The compacting path is taken only when the readable bytes move towards the front. -/
theorem toRaw_makeSpace (b : Buffer) (len : ℕ) (h : b.writableBytes < len) :
    b.toRaw.makeSpace len = some (b.makeSpace len h).toRaw := by
  have hr := b.readIndex_le
  have hw := b.writeIndex_le
  simp only [RawBuffer.makeSpace, toRaw_writableBytes, toRaw_prependableBytes, makeSpace]
  by_cases hs : b.writableBytes + b.prependableBytes < len + kCheapPrepend
  · simp [hs, toRaw]
  · have hfront : kCheapPrepend < b.readIndex := by
      unfold prependableBytes at hs
      omega
    have hmove : moveBytes b.buffer b.readIndex kCheapPrepend b.readableBytes =
        some (copyTo b.buffer kCheapPrepend b.readable) := by
      rw [moveBytes_eq hfront (by unfold readableBytes; omega), readable, List.drop_take]
      rfl
    -- the ranges may overlap, but not the wrong way round
    have hguard : ¬ (b.readIndex ≤ kCheapPrepend ∧ kCheapPrepend < b.writeIndex) := by omega
    simp [hs, hguard, hmove]
    rfl

theorem toRaw_append (b : Buffer) (data : Bytes) :
    b.toRaw.append data = some (b.append data).toRaw := by
  simp only [RawBuffer.append, toRaw_writableBytes, append]
  by_cases h : b.writableBytes < data.length
  · have hfits := b.makeSpace_fits data.length h
    simp [h, toRaw_makeSpace b data.length h, toRaw_write _ _ hfits]
  · simp [h, toRaw_write b data (Nat.le_of_not_lt h)]

theorem toRaw_prepend (b : Buffer) (data : Bytes) (h : data.length ≤ b.prependableBytes) :
    b.toRaw.prepend data = some (b.prepend data h).toRaw := by
  have hr := b.readIndex_le
  have hw := b.writeIndex_le
  have hfit : b.readIndex - data.length + data.length ≤ b.buffer.length := by
    unfold prependableBytes at h
    omega
  simp [RawBuffer.prepend, h, storeBytes_eq hfit]
  rfl

/-- An occurrence of the two bytes ends inside the range, so it is never its end. -/
theorem toRaw_findCRLF (b : Buffer) : b.toRaw.findCRLF = some b.findCRLF := by
  have hr := b.readIndex_le
  have hw := b.writeIndex_le
  have hlen := b.length_readable
  cases hs : ListSearch.search kCRLF b.readable with
  | none =>
    have hend : b.readIndex + b.readableBytes = b.writeIndex := by
      unfold readableBytes
      omega
    simp [RawBuffer.findCRLF, hr, hw, hs, hend, findCRLF]
  | some i =>
    have hi : i + 2 ≤ b.readableBytes := by
      rw [← hlen]
      exact ListSearch.search_le hs
    have hne : b.readIndex + i ≠ b.writeIndex := by
      unfold readableBytes at hi
      omega
    simp [RawBuffer.findCRLF, hr, hw, hs, hne, findCRLF]

/-- Every allowed call on the class is the call on the checked buffer, with the answer of the byte
    queue. Only `prepend` lets the read index go below the reserved area. -/
theorem exec_toRaw (b : Buffer) {op : BufferOp} (h : op.Allowed b.toRaw) :
    ∃ b' : Buffer, b.toRaw.exec op = some (op.answer b.readable, b'.toRaw) ∧
      b'.readable = op.after b.readable ∧
      (¬ op.IsPrepend → kCheapPrepend ≤ b.readIndex → kCheapPrepend ≤ b'.readIndex) := by
  have hr := b.readIndex_le
  have hw := b.writeIndex_le
  cases op with
  | append data =>
    refine ⟨b.append data, by simp [RawBuffer.exec, toRaw_append, BufferOp.answer],
      readable_append b data, fun _ hle => ?_⟩
    unfold append makeSpace
    split
    · split <;> simp only [write, hle, le_refl]
    · exact hle
  | prepend data =>
    exact ⟨b.prepend data h, by simp [RawBuffer.exec, toRaw_prepend b data h, BufferOp.answer],
      readable_prepend b data h, fun hne => absurd trivial hne⟩
  | retrieve len =>
    exact ⟨b.retrieve len, by simp [RawBuffer.exec, toRaw_retrieve, BufferOp.answer],
      readable_retrieve b len, fun _ hle => b.readIndex_retrieve len hle⟩
  | retrieveAll =>
    exact ⟨b.retrieveAll, rfl, readable_retrieveAll b, fun _ _ => le_refl _⟩
  | retrieveUntil endOffset =>
    refine ⟨b.retrieveUntil endOffset, ?_, readable_retrieveUntil b endOffset,
      fun _ hle => b.readIndex_retrieve endOffset hle⟩
    have hptr : b.readIndex + endOffset ≤ b.writeIndex := h
    simp [RawBuffer.exec, RawBuffer.retrieveUntil, hptr, toRaw_retrieve, retrieveUntil,
      BufferOp.answer]
  | retrieveAsString len =>
    refine ⟨b.retrieve len, ?_, readable_retrieve b len, fun _ hle => b.readIndex_retrieve len hle⟩
    have hlen : b.readIndex + len ≤ b.writeIndex := h
    have hstring : (b.buffer.drop b.readIndex).take len = b.readable.take len := by
      rw [readable, List.drop_take, List.take_take, min_eq_left (by omega)]
    simp [RawBuffer.exec, RawBuffer.retrieveAsString, hlen.trans hw, toRaw_retrieve, hstring,
      BufferOp.answer]
  | findCRLF =>
    exact ⟨b, by simp [RawBuffer.exec, toRaw_findCRLF, findCRLF, BufferOp.answer], rfl,
      fun _ hle => hle⟩

end Buffer

/-! ## Runs -/

namespace RawBuffer

/-- CR LF stands at offset `n` of `q`. -/
def CRLFAt (q : Bytes) (n : ℕ) : Prop := q[n]? = some 0x0D ∧ q[n + 1]? = some 0x0A

instance (q : Bytes) (n : ℕ) : Decidable (CRLFAt q n) := inferInstanceAs (Decidable (_ ∧ _))

theorem crlfAt_iff {q : Bytes} {n : ℕ} : CRLFAt q n ↔ kCRLF <+: q.drop n := by
  have h0 : q[n]? = (q.drop n)[0]? := by simp
  have h1 : q[n + 1]? = (q.drop n)[1]? := by simp
  rw [CRLFAt, h0, h1, kCRLF, ListSearch.pair_prefix_iff]

/-- Along a run from the constructor the members are those of a checked buffer that holds what the
    byte queue holds. -/
theorem run_toRaw {initialSize : ℕ} {ops : List BufferOp} {b : RawBuffer}
    (h : Run Call (new initialSize) ops b) :
    ∃ c : Buffer, b = c.toRaw ∧ c.readable = ops.foldl BufferOp.after [] ∧
      ((∀ op ∈ ops, ¬ op.IsPrepend) → kCheapPrepend ≤ c.readIndex) := by
  induction h with
  | nil => exact ⟨Buffer.new initialSize, rfl, Buffer.readable_new _, fun _ => le_refl _⟩
  | @snoc ops op t u _ hs ih =>
    obtain ⟨c, rfl, hc, hfront⟩ := ih
    obtain ⟨hallowed, r, hexec⟩ := hs
    obtain ⟨c', hc', hafter, hkeep⟩ := c.exec_toRaw hallowed
    obtain ⟨-, rfl⟩ : op.answer c.readable = r ∧ c'.toRaw = u := by
      simpa [hexec, eq_comm] using hc'.symm
    refine ⟨c', rfl, ?_, fun hne => ?_⟩
    · rw [hafter, hc, List.foldl_append]
      rfl
    · exact hkeep (hne op (by simp)) (hfront fun o ho => hne o (by simp [ho]))

/-- The buffer is a byte queue. On every run of calls from the constructor the indices stay in
    order and inside the vector, the readable bytes are those of a plain list, no allowed call
    fails or stores a byte outside the vector, each answers what the list answers, and
    `findCRLF` finds the first CR LF of the readable bytes. -/
theorem run_byteQueue {initialSize : ℕ} {ops : List BufferOp} {b : RawBuffer}
    (h : Run Call (new initialSize) ops b) :
    (b.readIndex ≤ b.writeIndex ∧ b.writeIndex ≤ b.buffer.length) ∧
    b.readable = ops.foldl BufferOp.after [] ∧
    ((∀ op ∈ ops, ¬ op.IsPrepend) → kCheapPrepend ≤ b.prependableBytes) ∧
    (∀ op : BufferOp, op.Allowed b → ∃ b', b.exec op = some (op.answer b.readable, b')) ∧
    (∀ n, b.findCRLF = some (some n) ↔
      CRLFAt b.readable n ∧ ∀ m < n, ¬ CRLFAt b.readable m) ∧
    (b.findCRLF = some none ↔ ∀ n, ¬ CRLFAt b.readable n) := by
  obtain ⟨c, rfl, hc, hfront⟩ := run_toRaw h
  refine ⟨⟨c.readIndex_le, c.writeIndex_le⟩, hc, hfront, fun op hop => ?_, fun n => ?_, ?_⟩
  · obtain ⟨c', hc', -⟩ := c.exec_toRaw hop
    exact ⟨c'.toRaw, hc'⟩
  · simp only [Buffer.toRaw_findCRLF, Option.some_inj, crlfAt_iff, Buffer.toRaw_readable]
    exact ListSearch.search_eq_some_iff
  · simp only [Buffer.toRaw_findCRLF, Option.some_inj, crlfAt_iff, Buffer.toRaw_readable]
    exact ListSearch.search_eq_none_iff

/-- A run whose third call moves the two bytes left to the front, and whose fourth one goes below
    the reserved area. -/
theorem run_byteQueue_compact :
    let b : RawBuffer :=
      ⟨[0, 0, 0, 0, 0, 0, 0, 9, 0x6C, 0x6F, 0x0D, 0x0A, 0x21, 0x21, 0x21, 0], 7, 15⟩
    (b.readIndex ≤ b.writeIndex ∧ b.writeIndex ≤ b.buffer.length) ∧
      b.findCRLF = some (some 3) := by
  intro b
  have hrun : Run Call (new 8) [.append [0x68, 0x65, 0x6C, 0x6C, 0x6F], .retrieveAsString 3,
      .append [0x0D, 0x0A, 0x21, 0x21, 0x21], .prepend [9]] b :=
    .cons ⟨trivial, _, rfl⟩ <| .cons ⟨by decide, _, rfl⟩ <| .cons ⟨trivial, _, rfl⟩ <|
      .cons ⟨by decide, _, rfl⟩ .nil
  obtain ⟨hindices, -, -, -, hfind, -⟩ := run_byteQueue hrun
  exact ⟨hindices, (hfind 3).mpr ⟨by decide, by decide⟩⟩

end RawBuffer

end AegisNet
