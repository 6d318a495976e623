import Mathlib.Data.List.Basic
import Mathlib.Tactic.Common

/-!
# Internet addresses

The part of `src/net/InetAddress.{h,cpp}` that names connections: the text of an address.

## Main definitions

- `InetAddress` — an IPv4 address and a port
- `InetAddress.toIpPort` — its text, of at most 21 characters
-/

namespace AegisNet

/-- `sockaddr_in`: the four bytes of `sin_addr`, and `sin_port` in host order. -/
structure InetAddress where
  sin_addr : UInt8 × UInt8 × UInt8 × UInt8
  sin_port : UInt16
  deriving DecidableEq, Repr

namespace InetAddress

/-- `::inet_ntop(AF_INET, …)`, which writes the bytes in decimal, with dots. -/
def inet_ntop (a : UInt8 × UInt8 × UInt8 × UInt8) : String :=
  a.1.toNat.repr ++ "." ++ a.2.1.toNat.repr ++ "." ++ a.2.2.1.toNat.repr ++ "." ++
    a.2.2.2.toNat.repr

def toIpPort (addr : InetAddress) : String :=
  inet_ntop addr.sin_addr ++ ":" ++ addr.sin_port.toNat.repr

theorem length_repr_uint8 (b : UInt8) : b.toNat.repr.length ≤ 3 := by
  have hb := b.toNat_lt
  exact (Nat.length_repr_le_iff (by omega)).mpr (by omega)

theorem length_repr_uint16 (p : UInt16) : p.toNat.repr.length ≤ 5 := by
  have hp := p.toNat_lt
  exact (Nat.length_repr_le_iff (by omega)).mpr (by omega)

theorem length_toIpPort (addr : InetAddress) : addr.toIpPort.length ≤ 21 := by
  have h₁ := length_repr_uint8 addr.sin_addr.1
  have h₂ := length_repr_uint8 addr.sin_addr.2.1
  have h₃ := length_repr_uint8 addr.sin_addr.2.2.1
  have h₄ := length_repr_uint8 addr.sin_addr.2.2.2
  have h₅ := length_repr_uint16 addr.sin_port
  have hdot : ".".length = 1 := rfl
  have hcolon : ":".length = 1 := rfl
  simp only [toIpPort, inet_ntop, String.length_append, hdot, hcolon]
  omega

end InetAddress

end AegisNet
