import Mathlib.Data.Nat.Digits.Defs

/-!
# Strings of bytes

## Main definitions

- `Bytes` — a C++ string
- `text` — the bytes of a literal
- `toDecimal` — a number as it is printed
-/

namespace AegisNet

/-- A C++ `std::string` or byte range. -/
abbrev Bytes := List UInt8

/-- The bytes of a text, as UTF-8. -/
def text (s : String) : Bytes := s.toUTF8.data.toList

/-- `std::to_string` of a number that is not negative. -/
def toDecimal (n : ℕ) : Bytes :=
  if n = 0 then [0x30] else (Nat.digits 10 n).reverse.map fun digit => UInt8.ofNat (0x30 + digit)

end AegisNet
