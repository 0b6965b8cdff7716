import JavaAtlas.Text.Utf8
import JavaAtlas.Deflate.Compress
import JavaAtlas.Deflate.Inflate

/-!
# Texts inside web addresses

A diagram travels inside an address as its compressed octets, three of them in
four letters of an alphabet of sixty-four.  Missing octets at the end count as
zeros.

Main definitions:

- `letters`, `octets?`: octets in letters and back.
- `encode`, `decode?`: a text as it stands in an address.
-/

namespace JavaAtlas.Image

open Text.Utf8 (Bytes)

/-- The letters, in the order of their values. -/
def alphabet : List Char :=
  "0123456789ABCDEFGHIJKLMNOPQRSTUVWXYZabcdefghijklmnopqrstuvwxyz-_".toList

/-- The six lowest bits of a number. -/
def sextet (n : Int) : Nat :=
  (n % 64).toNat

/-- The letter of the six lowest bits of a number. -/
def letterOf (n : Int) : Char :=
  alphabet.getD (sextet n) '0'

/-- Four letters for three numbers, which are meant to be octets: the bits of a
greater number run over into the letter before. -/
def fourLetters (a b c : Int) : List Char :=
  let second := (a % 4 * 16).toNat ||| sextet (b / 16)
  let third := (b % 16 * 4).toNat ||| sextet (c / 64)
  [letterOf (a / 4), letterOf second, letterOf third, letterOf c]

/-- The letters of octets, three at a time. -/
def letters : Bytes → List Char
  | a :: b :: c :: rest => fourLetters a.toNat b.toNat c.toNat ++ letters rest
  | [a, b] => fourLetters a.toNat b.toNat 0
  | [a] => fourLetters a.toNat 0 0
  | [] => []

/-- A text as it stands in an address. -/
def encode (text : String) : String :=
  String.ofList (letters (Deflate.bare (Deflate.stream (Text.Utf8.encode text))))

/-! ## Reading -/

/-- The value of a letter. -/
def valueOf? (c : Char) : Option Nat :=
  alphabet.idxOf? c

/-- Three octets of four values. -/
def threeOctets (p q r s : Nat) : Bytes :=
  [UInt8.ofNat (p * 4 + q / 16), UInt8.ofNat (q % 16 * 16 + r / 4), UInt8.ofNat (r % 4 * 64 + s)]

/-- The octets of values, four at a time. -/
def octetsOf : List Nat → Option Bytes
  | p :: q :: r :: s :: rest => (octetsOf rest).map (threeOctets p q r s ++ ·)
  | [] => some []
  | _ => none

/-- The octets of letters, with the zeros that were added. -/
def octets? (cs : List Char) : Option Bytes := do
  octetsOf (← cs.mapM valueOf?)

/-- The text of an address: its letters give a compressed stream. -/
def decode? (address : String) : Option String := do
  let octets ← octets? address.toList
  let (data, _) ← Deflate.inflate (Deflate.unpack octets)
  (Text.Utf8.decodeStrict data.toList).toOption

end JavaAtlas.Image
