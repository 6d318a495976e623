import Mathlib.Algebra.Order.Ring.Nat
import Mathlib.Tactic.Common

/-!
# Numbers as bytes

A number below `256 ^ w` as `w` bytes, least or most significant first, and the conversion between
the order of a host and the order of the network. Storing a converted number on a host puts its
bytes into memory most significant first, whatever the order of the host is.

## Main definitions

- `littleEndian`, `bigEndian`, `ofLittleEndian`, `ofBigEndian` — numbers and bytes
- `ByteOrder.store`, `ByteOrder.load` — a number in the memory of a host
- `ByteOrder.network` — the conversion to and from network order
-/

/-- The `w` low bytes of `n`, least significant first. -/
def littleEndian : ℕ → ℕ → List UInt8
  | 0, _ => []
  | w + 1, n => UInt8.ofNat n :: littleEndian w (n / 256)

/-- The `w` low bytes of `n`, most significant first. -/
def bigEndian (w n : ℕ) : List UInt8 := (littleEndian w n).reverse

/-- The number with these bytes, least significant first. -/
def ofLittleEndian : List UInt8 → ℕ
  | [] => 0
  | x :: xs => x.toNat + 256 * ofLittleEndian xs

/-- The number with these bytes, most significant first. -/
def ofBigEndian (xs : List UInt8) : ℕ := ofLittleEndian xs.reverse

@[simp] theorem length_littleEndian (w n : ℕ) : (littleEndian w n).length = w := by
  induction w generalizing n with
  | zero => rfl
  | succ w ih => rw [littleEndian, List.length_cons, ih]

@[simp] theorem length_bigEndian (w n : ℕ) : (bigEndian w n).length = w := by
  rw [bigEndian, List.length_reverse, length_littleEndian]

/-- The bytes determine the number up to their width. -/
theorem ofLittleEndian_littleEndian (w n : ℕ) : ofLittleEndian (littleEndian w n) = n % 256 ^ w := by
  induction w generalizing n with
  | zero => rw [pow_zero, Nat.mod_one, littleEndian, ofLittleEndian]
  | succ w ih =>
    have hbyte : (UInt8.ofNat n).toNat = n % 256 := UInt8.toNat_ofNat'
    rw [littleEndian, ofLittleEndian, ih, hbyte, pow_succ', Nat.mod_mul]

theorem ofBigEndian_bigEndian (w n : ℕ) : ofBigEndian (bigEndian w n) = n % 256 ^ w := by
  rw [ofBigEndian, bigEndian, List.reverse_reverse, ofLittleEndian_littleEndian]

/-- The number determines the bytes. -/
theorem littleEndian_ofLittleEndian (xs : List UInt8) :
    littleEndian xs.length (ofLittleEndian xs) = xs := by
  induction xs with
  | nil => rfl
  | cons x xs ih =>
    have hx : x.toNat < 256 := x.toNat_lt
    have hhead : UInt8.ofNat (x.toNat + 256 * ofLittleEndian xs) = x := by
      apply UInt8.toNat_inj.mp
      rw [UInt8.toNat_ofNat']
      omega
    have htail : (x.toNat + 256 * ofLittleEndian xs) / 256 = ofLittleEndian xs := by omega
    rw [List.length_cons, ofLittleEndian, littleEndian, hhead, htail, ih]

theorem ofLittleEndian_lt (xs : List UInt8) : ofLittleEndian xs < 256 ^ xs.length := by
  rw [← littleEndian_ofLittleEndian xs, ofLittleEndian_littleEndian, length_littleEndian]
  exact Nat.mod_lt _ (Nat.pow_pos (by omega))

/-- The order in which a host keeps the bytes of a number. -/
inductive ByteOrder
  | little
  | big
  deriving DecidableEq, Repr

namespace ByteOrder

/-- The memory of a `w` byte variable with the value `n`. -/
def store : ByteOrder → ℕ → ℕ → List UInt8
  | little => littleEndian
  | big => bigEndian

/-- The value of a variable with this memory. -/
def load : ByteOrder → List UInt8 → ℕ
  | little => ofLittleEndian
  | big => ofBigEndian

/-- From host to network order, and back: the bytes of a `w` byte value are reversed where the host
    keeps them the other way round. -/
def network : ByteOrder → ℕ → ℕ → ℕ
  | little, w, n => ofLittleEndian (bigEndian w n)
  | big, w, n => n % 256 ^ w

@[simp] theorem length_store (o : ByteOrder) (w n : ℕ) : (o.store w n).length = w := by
  cases o with
  | little => exact length_littleEndian w n
  | big => exact length_bigEndian w n

theorem load_lt (o : ByteOrder) (xs : List UInt8) : o.load xs < 256 ^ xs.length := by
  cases o with
  | little => exact ofLittleEndian_lt xs
  | big =>
    rw [← List.length_reverse]
    exact ofLittleEndian_lt xs.reverse

/-- Higher bytes are not stored. -/
theorem store_mod (o : ByteOrder) (w n : ℕ) : o.store w (n % 256 ^ w) = o.store w n := by
  have hlittle : littleEndian w (n % 256 ^ w) = littleEndian w n := by
    have h := littleEndian_ofLittleEndian (littleEndian w n)
    rwa [length_littleEndian, ofLittleEndian_littleEndian] at h
  cases o with
  | little => exact hlittle
  | big => exact congrArg List.reverse hlittle

/-- **A number in network order is stored most significant byte first.** -/
theorem store_network (o : ByteOrder) (w n : ℕ) : o.store w (o.network w n) = bigEndian w n := by
  cases o with
  | little =>
    have h := littleEndian_ofLittleEndian (bigEndian w n)
    rwa [length_bigEndian] at h
  | big => exact store_mod .big w n

/-- **Loading and converting reads the bytes most significant first.** -/
theorem network_load (o : ByteOrder) (xs : List UInt8) :
    o.network xs.length (o.load xs) = ofBigEndian xs := by
  cases o with
  | little =>
    show ofLittleEndian (littleEndian xs.length (ofLittleEndian xs)).reverse = _
    rw [littleEndian_ofLittleEndian]
    rfl
  | big =>
    have hround : bigEndian xs.length (ofBigEndian xs) = xs := by
      have h := littleEndian_ofLittleEndian xs.reverse
      rw [List.length_reverse] at h
      rw [bigEndian, ofBigEndian, h, List.reverse_reverse]
    show ofBigEndian xs % 256 ^ xs.length = ofBigEndian xs
    rw [← ofBigEndian_bigEndian, hround]

end ByteOrder
