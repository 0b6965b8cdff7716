/-!
# Bits and octets

A compressed stream is a list of bits.  Octets hold eight of them each, the one
of least weight first, and the last octet is filled up with zeros.

Main definitions:

- `bitsOf`, `valueOf`: bits of a number and the number of bits.
- `pack`, `unpack`: octets of bits and bits of octets.
-/

namespace JavaAtlas.Deflate

/-- So many bits of a number, the one of least weight first. -/
def bitsOf : Nat → Nat → List Bool
  | 0, _ => []
  | k + 1, n => (n % 2 == 1) :: bitsOf k (n / 2)

/-- The number of bits. -/
def valueOf : List Bool → Nat
  | [] => 0
  | b :: bs => (if b then 1 else 0) + 2 * valueOf bs

/-- The octets of bits, eight at a time. -/
def pack : List Bool → List UInt8
  | b0 :: b1 :: b2 :: b3 :: b4 :: b5 :: b6 :: b7 :: rest =>
    UInt8.ofNat (valueOf [b0, b1, b2, b3, b4, b5, b6, b7]) :: pack rest
  | [] => []
  | bs => [UInt8.ofNat (valueOf bs)]

/-- The bits of octets. -/
def unpack (bs : List UInt8) : List Bool :=
  bs.flatMap fun b => bitsOf 8 b.toNat

/-- Takes a number of so many bits from the front. -/
def takeNumber (k : Nat) (bits : List Bool) : Option (Nat × List Bool) :=
  let taken := bits.take k
  if taken.length = k then some (valueOf taken, bits.drop k) else none

end JavaAtlas.Deflate
