import AegisNet.Base.Bytes
import Mathlib.Tactic.Common

/-!
# The log stream

`src/base/LogStream.h`: a buffer of fixed size that drops what does not fit, and the insertions into
a stream, each of which appends one text to such a buffer.

## Main definitions

- `FixedBuffer` — the bytes of a buffer, with their bound as a field
- `Insertion`, `LogStream.insert` — the overloads of `operator<<`
-/

namespace AegisNet

def kSmallBuffer : ℕ := 4000

def kLargeBuffer : ℕ := 4000 * 1000

/-- The bytes up to `cur_`. -/
structure FixedBuffer (SIZE : ℕ) where
  data : List UInt8 := []
  length_le : data.length ≤ SIZE := by exact Nat.zero_le _
  deriving DecidableEq

namespace FixedBuffer

variable {SIZE : ℕ}

def length (b : FixedBuffer SIZE) : ℕ := b.data.length

def avail (b : FixedBuffer SIZE) : ℕ := SIZE - b.data.length

/-- What does not fit is dropped without a sign. -/
def append (b : FixedBuffer SIZE) (buf : List UInt8) : FixedBuffer SIZE :=
  if h : buf.length < b.avail then
    { data := b.data ++ buf
      length_le := by
        unfold avail at h
        rw [List.length_append]
        omega }
  else b

def reset (_ : FixedBuffer SIZE) : FixedBuffer SIZE := {}

theorem data_append {b : FixedBuffer SIZE} {buf : List UInt8} (h : buf.length < b.avail) :
    (b.append buf).data = b.data ++ buf := by
  rw [append, dif_pos h]

end FixedBuffer

/-- `std::to_string` of an integer. -/
def formatInteger (v : ℤ) : Bytes :=
  if v < 0 then text "-" ++ toDecimal v.natAbs else toDecimal v.natAbs

/-- The argument of an `operator<<`. The overloads for the integer types differ in nothing else. -/
inductive Insertion
  | bool (v : Bool)
  /-- a `const char*`: null, or the bytes from there on -/
  | cString (str : Option Bytes)
  | string (v : Bytes)
  | integer (v : ℤ)
  /-- what `std::to_string` makes of a `double` -/
  | double (str : Bytes)
  | char (v : UInt8)
  | stringView (v : Bytes)
  deriving DecidableEq

/-- The bytes that are appended. A `const char*` ends at its first NUL. -/
def Insertion.bytes : Insertion → Bytes
  | bool v => if v then text "1" else text "0"
  | cString none => text "(null)"
  | cString (some str) => str.takeWhile (· ≠ 0)
  | string v => v
  | integer v => formatInteger v
  | double str => str
  | char v => [v]
  | stringView v => v

structure LogStream where
  buffer : FixedBuffer kSmallBuffer := {}
  deriving DecidableEq

namespace LogStream

/-- `operator<<` -/
def insert (s : LogStream) (v : Insertion) : LogStream := { buffer := s.buffer.append v.bytes }

end LogStream

end AegisNet
