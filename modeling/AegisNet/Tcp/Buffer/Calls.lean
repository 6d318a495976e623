import AegisNet.Lib.ByteOrder
import AegisNet.Tcp.Buffer.Raw

/-!
# The calls on a buffer that go through other memory

`readFd` has the kernel fill the writable tail of the vector and, behind it, a buffer on the stack;
`prependInt32` and `readInt32` go through a variable in the byte order of the host. With these the
interface of `src/tcp/Buffer.{h,cpp}` is complete, and a reachable buffer is one that any calls of
it lead to.

## Main definitions

- `RawBuffer.readFd`, `RawBuffer.prependInt32`, `RawBuffer.readInt32` — the calls
- `BufferCall`, `RawBuffer.Reachable` — the whole interface, and what it leads to

## Main results

- `RawBuffer.readFd_eq_append` — reading from a descriptor is appending
- `RawBuffer.int32_roundTrip` — a length header is read back
-/

namespace AegisNet

open Buffer (kCheapPrepend)

/-- `sizeof(extrabuf)` -/
def sizeofExtrabuf : ℕ := 65536

/-- What is on the stack where `readFd` has its `extrabuf`, which nothing initializes. -/
abbrev Extrabuf := { s : Bytes // s.length = sizeofExtrabuf }

/-- What `::readv` answers: the bytes delivered, or `-1` with an error number. -/
inductive ReadvResult
  | data (bytes : Bytes)
  | error (errno : ℕ)
  deriving DecidableEq

/-- `htonl` and `ntohl` on a host with the given byte order. -/
def htonl (host : ByteOrder) (x : UInt32) : UInt32 := UInt32.ofNat (host.network 4 x.toNat)

def ntohl (host : ByteOrder) (x : UInt32) : UInt32 := UInt32.ofNat (host.network 4 x.toNat)

namespace RawBuffer

/-- The lengths of the ranges handed to `::readv`: the writable tail, and `extrabuf` only if the
    tail is smaller than it. -/
def iovLengths (writable : ℕ) : List ℕ :=
  [writable, sizeofExtrabuf].take (if writable < sizeofExtrabuf then 2 else 1)

/-- `::readv` may deliver these bytes into its ranges. -/
def Deliverable (b : RawBuffer) (bytes : Bytes) : Prop :=
  ∃ writable, b.writableBytes = some writable ∧ bytes.length ≤ (iovLengths writable).sum

/-- `::readv` fills one range after the other, and delivers no more than they hold. Besides the
    buffer: what `readFd` returns, and what it stores in `*savedErrno`. -/
def readFd (b : RawBuffer) (extrabuf : Extrabuf) :
    ReadvResult → Option (ℤ × Option ℕ × RawBuffer)
  | .error errno => some (-1, some errno, b)
  | .data bytes => do
    let writable ← b.writableBytes
    if (iovLengths writable).sum < bytes.length then none
    else do
      let stored ← storeBytes b.buffer b.writeIndex (bytes.take writable)
      let extra ← storeBytes extrabuf.1 0 (bytes.drop writable)
      if bytes.length ≤ writable then
        some (bytes.length, none,
          { b with buffer := stored, writeIndex := b.writeIndex + bytes.length })
      else do
        let b' ← { b with buffer := stored, writeIndex := stored.length : RawBuffer }.append
          (extra.take (bytes.length - writable))
        some (bytes.length, none, b')

/-- `be32` has the memory that is copied from `peek()`. -/
def peekInt32 (host : ByteOrder) (b : RawBuffer) : Option Int32 := do
  let readable ← b.readableBytes
  if 4 ≤ readable then
    let be32 := UInt32.ofNat (host.load ((b.buffer.drop b.readIndex).take 4))
    some (ntohl host be32).toInt32
  else none

def readInt32 (host : ByteOrder) (b : RawBuffer) : Option (Int32 × RawBuffer) := do
  let result ← b.peekInt32 host
  let rest ← b.retrieve 4
  some (result, rest)

/-- The memory of `be32` is prepended. -/
def prependInt32 (host : ByteOrder) (b : RawBuffer) (x : Int32) : Option RawBuffer :=
  b.prepend (host.store 4 (htonl host x.toUInt32).toNat)

def retrieveAllAsString (b : RawBuffer) : Option (Bytes × RawBuffer) := do
  let readable ← b.readableBytes
  b.retrieveAsString readable

end RawBuffer

/-- A public call. -/
inductive BufferCall
  | op (o : BufferOp)
  | retrieveAllAsString
  | readFd (extrabuf : Extrabuf) (readv : ReadvResult)
  | peekInt32
  | readInt32
  | prependInt32 (x : Int32)

namespace RawBuffer

variable (host : ByteOrder)

/-- The buffer after a call; `none` where an assertion fails, memory outside the vector or the stack
    buffer is touched, or the kernel does not answer so. -/
def after (b : RawBuffer) : BufferCall → Option RawBuffer
  | .op o => (b.exec o).map Prod.snd
  | .retrieveAllAsString => b.retrieveAllAsString.map Prod.snd
  | .readFd extrabuf readv => (b.readFd extrabuf readv).map fun r => r.2.2
  | .peekInt32 => (b.peekInt32 host).map fun _ => b
  | .readInt32 => (b.readInt32 host).map Prod.snd
  | .prependInt32 x => b.prependInt32 host x

/-- Some calls lead from a new buffer to `b`. -/
def Reachable (b : RawBuffer) : Prop :=
  ∃ (initialSize : ℕ) (calls : List BufferCall),
    Run (fun b call b' => b.after host call = some b') (new initialSize) calls b

end RawBuffer

/-! ## The calls on a checked buffer -/

namespace Buffer

variable (host : ByteOrder)

/-- Both ranges of `::readv` are used up before a byte is lost. -/
theorem length_le_of_deliverable {writable : ℕ} {bytes : Bytes}
    (h : bytes.length ≤ (RawBuffer.iovLengths writable).sum) :
    (bytes.drop writable).length ≤ sizeofExtrabuf := by
  rw [List.length_drop]
  unfold RawBuffer.iovLengths at h
  split at h
  · simp only [List.take_succ_cons, List.take_zero, List.sum_cons, List.sum_nil] at h
    omega
  · simp only [List.take_succ_cons, List.take_zero, List.sum_cons, List.sum_nil] at h
    omega

/-- What was stored at the beginning of `extrabuf` is read back from there. -/
theorem take_extrabuf (extrabuf : Extrabuf) (bytes : Bytes) :
    (copyTo extrabuf.1 0 bytes).take bytes.length = bytes := by
  have h := @take_copyTo extrabuf.1 bytes 0 (Nat.zero_le _)
  rwa [Nat.zero_add, List.take_zero, List.nil_append] at h

theorem toRaw_readFd (b : Buffer) (extrabuf : Extrabuf) {bytes : Bytes}
    (h : bytes.length ≤ (RawBuffer.iovLengths b.writableBytes).sum) :
    b.toRaw.readFd extrabuf (.data bytes) = some ((bytes.length : ℤ), none, (b.readFd bytes).toRaw) := by
  have hw := b.writeIndex_le
  have hextra := length_le_of_deliverable h
  have htake : (bytes.take b.writableBytes).length ≤ b.writableBytes := List.length_take_le _ _
  have hfit : b.writeIndex + (bytes.take b.writableBytes).length ≤ b.buffer.length := by
    unfold writableBytes at htake ⊢
    omega
  have hstored := storeBytes_eq hfit
  have hspilled : storeBytes extrabuf.1 0 (bytes.drop b.writableBytes) =
      some (copyTo extrabuf.1 0 (bytes.drop b.writableBytes)) :=
    storeBytes_eq (by rw [extrabuf.2]; omega)
  by_cases hle : bytes.length ≤ b.writableBytes
  · have hall : bytes.take b.writableBytes = bytes := List.take_of_length_le hle
    rw [hall] at hstored
    simp only [RawBuffer.readFd, toRaw_writableBytes, Option.bind_eq_bind, Option.bind_some,
      if_neg (Nat.not_lt.mpr h), toRaw_buffer, toRaw_writeIndex, toRaw_readIndex, hall, hstored,
      hspilled, if_pos hle, readFd, dif_pos hle]
    rfl
  · have hlen : (bytes.take b.writableBytes).length = b.writableBytes :=
      List.length_take_of_le (Nat.le_of_not_le hle)
    have hend : (copyTo b.buffer b.writeIndex (bytes.take b.writableBytes)).length =
        b.writeIndex + (bytes.take b.writableBytes).length := by
      rw [length_copyTo hfit, hlen, writableBytes]
      omega
    have hspill : (copyTo extrabuf.1 0 (bytes.drop b.writableBytes)).take
        (bytes.length - b.writableBytes) = bytes.drop b.writableBytes := by
      rw [← List.length_drop]
      exact take_extrabuf extrabuf _
    have happend := toRaw_append (b.write (bytes.take b.writableBytes) htake)
      (bytes.drop b.writableBytes)
    have hfull : RawBuffer.mk (copyTo b.buffer b.writeIndex (bytes.take b.writableBytes))
        b.readIndex (copyTo b.buffer b.writeIndex (bytes.take b.writableBytes)).length =
          (b.write (bytes.take b.writableBytes) htake).toRaw := by
      rw [hend]
      rfl
    simp only [RawBuffer.readFd, toRaw_writableBytes, Option.bind_eq_bind, Option.bind_some,
      if_neg (Nat.not_lt.mpr h), toRaw_buffer, toRaw_writeIndex, toRaw_readIndex, hstored, hspilled,
      if_neg hle, hspill, hfull, happend, readFd, dif_neg hle]

theorem take_readable (b : Buffer) {n : ℕ} (h : n ≤ b.readableBytes) :
    (b.buffer.drop b.readIndex).take n = b.readable.take n := by
  unfold readableBytes at h
  rw [readable, List.drop_take, List.take_take, min_eq_left h]

/-- The header in front of the readable bytes, most significant byte first. -/
theorem toRaw_peekInt32 (b : Buffer) (h : 4 ≤ b.readableBytes) :
    b.toRaw.peekInt32 host =
      some (UInt32.ofNat (ofBigEndian (b.readable.take 4))).toInt32 := by
  have hlen : (b.readable.take 4).length = 4 := by
    rw [List.length_take, length_readable, min_eq_left h]
  have hload : host.load (b.readable.take 4) < 2 ^ 32 := by
    have hlt := host.load_lt (b.readable.take 4)
    rwa [hlen] at hlt
  have hntohl : ntohl host (UInt32.ofNat (host.load (b.readable.take 4))) =
      UInt32.ofNat (ofBigEndian (b.readable.take 4)) := by
    rw [ntohl, UInt32.toNat_ofNat_of_lt' hload, ← ByteOrder.network_load host, hlen]
  simp only [RawBuffer.peekInt32, toRaw_readableBytes, Option.bind_eq_bind, Option.bind_some,
    if_pos h, toRaw_buffer, toRaw_readIndex, take_readable b h, hntohl]

theorem toRaw_readInt32 (b : Buffer) (h : 4 ≤ b.readableBytes) :
    b.toRaw.readInt32 host =
      some ((UInt32.ofNat (ofBigEndian (b.readable.take 4))).toInt32, (b.retrieve 4).toRaw) := by
  rw [RawBuffer.readInt32, toRaw_peekInt32 host b h, toRaw_retrieve]
  rfl

/-- The memory of `be32`. -/
theorem store_htonl (x : Int32) :
    host.store 4 (htonl host x.toUInt32).toNat = bigEndian 4 x.toUInt32.toNat := by
  have hwidth : (2 : ℕ) ^ 32 = 256 ^ 4 := rfl
  rw [htonl, UInt32.toNat_ofNat', hwidth, host.store_mod, host.store_network]

theorem toRaw_prependInt32 (b : Buffer) (x : Int32)
    (h : (bigEndian 4 x.toUInt32.toNat).length ≤ b.prependableBytes) :
    b.toRaw.prependInt32 host x = some (b.prepend (bigEndian 4 x.toUInt32.toNat) h).toRaw := by
  rw [RawBuffer.prependInt32, store_htonl, toRaw_prepend b _ h]

/-- A string that ends inside the vector, possibly beyond `writeIndex`. -/
theorem toRaw_retrieveAsString (b : Buffer) {len : ℕ} (h : b.readIndex + len ≤ b.buffer.length) :
    b.toRaw.retrieveAsString len =
      some ((b.buffer.drop b.readIndex).take len, (b.retrieve len).toRaw) := by
  show (if b.readIndex + len ≤ b.buffer.length then _ else none) = _
  rw [if_pos h, toRaw_retrieve]
  rfl

/-- Every call that is carried out leaves a checked buffer. -/
theorem exec_eq_toRaw (b : Buffer) {o : BufferOp} {r : BufferResult} {b' : RawBuffer}
    (h : b.toRaw.exec o = some (r, b')) : ∃ c : Buffer, b' = c.toRaw := by
  by_cases hallowed : o.Allowed b.toRaw
  · obtain ⟨c, hc, -⟩ := b.exec_toRaw hallowed
    rw [hc] at h
    exact ⟨c, (Prod.mk.inj (Option.some.inj h)).2.symm⟩
  · cases o with
    | prepend data =>
      have hlt : ¬ data.length ≤ b.prependableBytes := hallowed
      simp [RawBuffer.exec, RawBuffer.prepend, hlt] at h
    | retrieveUntil endOffset =>
      have hlt : ¬ b.readIndex + endOffset ≤ b.writeIndex := hallowed
      simp [RawBuffer.exec, RawBuffer.retrieveUntil, hlt] at h
    | retrieveAsString len =>
      by_cases hin : b.readIndex + len ≤ b.buffer.length
      · rw [RawBuffer.exec, toRaw_retrieveAsString b hin] at h
        exact ⟨b.retrieve len, (Prod.mk.inj (Option.some.inj h)).2.symm⟩
      · simp [RawBuffer.exec, RawBuffer.retrieveAsString, hin] at h
    | _ => exact absurd trivial hallowed

theorem after_eq_toRaw (b : Buffer) {call : BufferCall} {b' : RawBuffer}
    (h : b.toRaw.after host call = some b') : ∃ c : Buffer, b' = c.toRaw := by
  cases call with
  | op o =>
    obtain ⟨⟨r, d⟩, hexec, rfl⟩ := Option.map_eq_some_iff.mp h
    exact b.exec_eq_toRaw hexec
  | retrieveAllAsString =>
    have hin : b.readIndex + b.readableBytes ≤ b.buffer.length := by
      have := b.readIndex_le
      have := b.writeIndex_le
      unfold readableBytes
      omega
    refine ⟨b.retrieve b.readableBytes, ?_⟩
    have hall : b.toRaw.retrieveAllAsString = b.toRaw.retrieveAsString b.readableBytes := by
      rw [RawBuffer.retrieveAllAsString, toRaw_readableBytes]
      rfl
    rw [RawBuffer.after, hall, toRaw_retrieveAsString b hin] at h
    exact (Option.some.inj h).symm
  | readFd extrabuf readv =>
    cases readv with
    | error errno => exact ⟨b, (Option.some.inj h).symm⟩
    | data bytes =>
      by_cases hdeliver : bytes.length ≤ (RawBuffer.iovLengths b.writableBytes).sum
      · rw [RawBuffer.after, toRaw_readFd b extrabuf hdeliver] at h
        exact ⟨b.readFd bytes, (Option.some.inj h).symm⟩
      · simp [RawBuffer.after, RawBuffer.readFd, Nat.not_le.mp hdeliver] at h
  | peekInt32 =>
    obtain ⟨x, -, rfl⟩ := Option.map_eq_some_iff.mp h
    exact ⟨b, rfl⟩
  | readInt32 =>
    by_cases hread : 4 ≤ b.readableBytes
    · rw [RawBuffer.after, toRaw_readInt32 host b hread] at h
      exact ⟨b.retrieve 4, (Option.some.inj h).symm⟩
    · simp [RawBuffer.after, RawBuffer.readInt32, RawBuffer.peekInt32, hread] at h
  | prependInt32 x =>
    by_cases hfits : (bigEndian 4 x.toUInt32.toNat).length ≤ b.prependableBytes
    · rw [RawBuffer.after, toRaw_prependInt32 host b x hfits] at h
      exact ⟨_, (Option.some.inj h).symm⟩
    · have hlt : ¬ 4 ≤ b.prependableBytes := by rwa [length_bigEndian] at hfits
      simp [RawBuffer.after, RawBuffer.prependInt32, RawBuffer.prepend, hlt] at h

end Buffer

namespace RawBuffer

variable {host : ByteOrder} {b : RawBuffer}

/-- **A reachable buffer has its indices in order and inside the vector.** -/
theorem Reachable.eq_toRaw (h : b.Reachable host) : ∃ c : Buffer, b = c.toRaw := by
  obtain ⟨initialSize, calls, hrun⟩ := h
  refine hrun.invariant (P := fun b => ∃ c : Buffer, b = c.toRaw) ⟨Buffer.new initialSize, rfl⟩ ?_
  rintro _ call b' ⟨c, rfl⟩ hstep
  exact c.after_eq_toRaw host hstep

/-! ## Reading from a descriptor -/

/-- **The scatter read is an append.** On every reachable buffer, and for all bytes that the kernel
    may deliver into its two ranges, `readFd` stores no byte outside the vector and the stack
    buffer, leaves the readable bytes that `append` leaves, and keeps the indices in order. A failed
    read leaves the buffer as it is. -/
theorem readFd_eq_append (h : b.Reachable host) (extrabuf : Extrabuf) :
    (∀ bytes : Bytes, b.Deliverable bytes →
      ∃ b' b'' : RawBuffer, b.readFd extrabuf (.data bytes) = some ((bytes.length : ℤ), none, b') ∧
        b'.readable = b.readable ++ bytes ∧
        b.append bytes = some b'' ∧ b''.readable = b'.readable ∧
        b'.readIndex ≤ b'.writeIndex ∧ b'.writeIndex ≤ b'.buffer.length) ∧
    ∀ errno, b.readFd extrabuf (.error errno) = some (-1, some errno, b) := by
  obtain ⟨c, rfl⟩ := h.eq_toRaw
  refine ⟨?_, fun errno => rfl⟩
  rintro bytes ⟨writable, hw, hlen⟩
  obtain rfl : c.writableBytes = writable := by
    rw [Buffer.toRaw_writableBytes] at hw
    exact Option.some.inj hw
  refine ⟨(c.readFd bytes).toRaw, (c.append bytes).toRaw, c.toRaw_readFd extrabuf hlen,
    c.readable_readFd bytes, c.toRaw_append bytes, ?_, (c.readFd bytes).readIndex_le,
    (c.readFd bytes).writeIndex_le⟩
  rw [Buffer.toRaw_readable, Buffer.toRaw_readable, Buffer.readable_append, Buffer.readable_readFd]

/-- Four bytes fit the tail, and two more spill. -/
theorem readFd_eq_append_spill :
    let extrabuf : Extrabuf := ⟨List.replicate sizeofExtrabuf 0, List.length_replicate⟩
    ∃ b' : RawBuffer, (new 4).readFd extrabuf (.data [1, 2, 3, 4, 5, 6]) = some (6, none, b') ∧
      b'.readable = [1, 2, 3, 4, 5, 6] := by
  intro extrabuf
  have hnew : (new 4).Reachable .little := ⟨4, [], .nil⟩
  obtain ⟨b', -, hread, hreadable, -⟩ :=
    (readFd_eq_append hnew extrabuf).1 [1, 2, 3, 4, 5, 6] ⟨4, by decide, by decide⟩
  exact ⟨b', hread, hreadable⟩

/-! ## Length headers -/

/-- Two's complement. -/
theorem toNat_toUInt32 (x : Int32) : x.toUInt32.toNat = (x.toInt % 2 ^ 32).toNat := by
  have hlt : x.toUInt32.toNat < 2 ^ 32 := x.toUInt32.toNat_lt
  have hint : x.toInt = if 2 * x.toUInt32.toNat < 2 ^ 32 then (x.toUInt32.toNat : ℤ)
      else (x.toUInt32.toNat : ℤ) - (2 ^ 32 : ℕ) := BitVec.toInt_eq_toNat_cond x.toBitVec
  split at hint <;> omega

/-- The calls of a sender: append one piece of the payload after the other. -/
def appendAll (b : RawBuffer) (pieces : List Bytes) : Option RawBuffer :=
  pieces.foldlM append b

/-- Appending keeps what is in front. -/
theorem appendAll_toRaw (c : Buffer) (pieces : List Bytes) :
    ∃ d : Buffer, c.toRaw.appendAll pieces = some d.toRaw ∧
      d.readable = c.readable ++ pieces.flatten := by
  induction pieces generalizing c with
  | nil => exact ⟨c, rfl, by simp⟩
  | cons piece pieces ih =>
    obtain ⟨d, hd, hreadable⟩ := ih (c.append piece)
    refine ⟨d, ?_, ?_⟩
    · rw [appendAll, List.foldlM_cons, Buffer.toRaw_append]
      exact hd
    · rw [hreadable, Buffer.readable_append, List.flatten_cons, List.append_assoc]

theorem ofBigEndian_int32 (x : Int32) :
    (UInt32.ofNat (ofBigEndian (bigEndian 4 x.toUInt32.toNat))).toInt32 = x := by
  have hlt : x.toUInt32.toNat < 256 ^ 4 := x.toUInt32.toNat_lt
  rw [ofBigEndian_bigEndian, Nat.mod_eq_of_lt hlt, UInt32.ofNat_toNat, Int32.toInt32_toUInt32]

/-- **A length header is read back.** On every reachable buffer with four bytes in front, on a host
    of either byte order: `prependInt32 x` and any appends after it make the first four readable
    bytes the two's complement of `x`, most significant byte first, `peekInt32` and `readInt32`
    return `x`, and what is readable then is what was before, followed by what was appended. -/
theorem int32_roundTrip (h : b.Reachable host) (hspace : 4 ≤ b.prependableBytes) (x : Int32)
    (pieces : List Bytes) :
    ∃ b₁ b₂ b₃ : RawBuffer, b.prependInt32 host x = some b₁ ∧ b₁.appendAll pieces = some b₂ ∧
      b₂.readable.take 4 = bigEndian 4 (x.toInt % 2 ^ 32).toNat ∧
      b₂.peekInt32 host = some x ∧ b₂.readInt32 host = some (x, b₃) ∧
      b₃.readable = b.readable ++ pieces.flatten := by
  obtain ⟨c, rfl⟩ := h.eq_toRaw
  have hfits : (bigEndian 4 x.toUInt32.toNat).length ≤ c.prependableBytes := by
    rwa [length_bigEndian]
  obtain ⟨d, happend, hreadable⟩ :=
    appendAll_toRaw (c.prepend (bigEndian 4 x.toUInt32.toNat) hfits) pieces
  rw [Buffer.readable_prepend, List.append_assoc] at hreadable
  have hfirst : d.readable.take 4 = bigEndian 4 x.toUInt32.toNat := by
    rw [hreadable, List.take_left' (length_bigEndian _ _)]
  have hlen : 4 ≤ d.readableBytes := by
    rw [← Buffer.length_readable, hreadable, List.length_append, length_bigEndian]
    exact Nat.le_add_right _ _
  have hpeek := d.toRaw_peekInt32 host hlen
  have hread := d.toRaw_readInt32 host hlen
  rw [hfirst, ofBigEndian_int32] at hpeek hread
  refine ⟨_, _, _, c.toRaw_prependInt32 host x hfits, happend, ?_, hpeek, hread, ?_⟩
  · rw [← toNat_toUInt32]
    exact hfirst
  · rw [Buffer.toRaw_readable, Buffer.readable_retrieve, hreadable,
      List.drop_left' (length_bigEndian _ _)]
    rfl

/-- The header `-2` of an empty payload, on a buffer that then grows. -/
theorem int32_roundTrip_negative :
    ∃ b₁ b₂ b₃ : RawBuffer, (new 2).prependInt32 .little (-2) = some b₁ ∧
      b₁.appendAll [[], [7, 8, 9]] = some b₂ ∧ b₂.readable.take 4 = [255, 255, 255, 254] ∧
      b₂.readInt32 .little = some (-2, b₃) ∧ b₃.readable = [7, 8, 9] := by
  have hnew : (new 2).Reachable .little := ⟨2, [], .nil⟩
  obtain ⟨b₁, b₂, b₃, hprepend, happend, hfirst, -, hread, hrest⟩ :=
    int32_roundTrip hnew (by decide) (-2) [[], [7, 8, 9]]
  exact ⟨b₁, b₂, b₃, hprepend, happend, hfirst, hread, hrest⟩

end RawBuffer

end AegisNet
