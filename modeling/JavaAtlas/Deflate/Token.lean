/-!
# Tokens of compressed data

Data is described by tokens: an octet as it is, or a copy of octets that were
written before.  A copy may reach into what it writes itself.

Main definitions:

- `Token`, `expand`: tokens and the octets they describe.
- `lengthClass`, `distanceClass`: symbols for lengths and distances, each with
  extra bits for the rest.
-/

namespace JavaAtlas.Deflate

/-- An octet, or a copy of earlier octets. -/
inductive Token where
  | literal (octet : UInt8)
  | copy (length distance : Nat)
  deriving DecidableEq, Repr, Inhabited

/-- Number of octets that a token describes. -/
def Token.span : Token → Nat
  | literal _ => 1
  | copy length _ => length

/-- Copies octets one by one from a distance back; nothing lies before the start. -/
def copyBack (distance : Nat) : Nat → Array UInt8 → Option (Array UInt8)
  | 0, out => some out
  | k + 1, out =>
    if distance = 0 then none
    else if distance ≤ out.size then
      match out[out.size - distance]? with
      | some b => copyBack distance k (out.push b)
      | none => none
    else none

/-- The octets so far with those of one more token. -/
def Token.onto (out : Array UInt8) : Token → Option (Array UInt8)
  | literal b => some (out.push b)
  | copy length distance => copyBack distance length out

/-- The octets that tokens describe. -/
def expand (ts : List Token) : Option (Array UInt8) :=
  ts.foldlM Token.onto #[]

/-! ## Symbols -/

/-- A symbol, with a number of extra bits and their value. -/
structure Coded where
  symbol : Nat
  extraBits : Nat
  extra : Nat
  deriving DecidableEq, Repr, Inhabited

/-- Least value and number of extra bits for each of a row of symbols. -/
abbrev Classes := List (Nat × Nat)

/-- The classes of lengths; the greatest length has one of its own. -/
def lengthClasses : Classes :=
  [ (3, 0), (4, 0), (5, 0), (6, 0), (7, 0), (8, 0), (9, 0), (10, 0),
    (11, 1), (13, 1), (15, 1), (17, 1), (19, 2), (23, 2), (27, 2), (31, 2),
    (35, 3), (43, 3), (51, 3), (59, 3), (67, 4), (83, 4), (99, 4), (115, 4),
    (131, 5), (163, 5), (195, 5), (227, 5), (258, 0) ]

/-- The classes of distances. -/
def distanceClasses : Classes :=
  [ (1, 0), (2, 0), (3, 0), (4, 0), (5, 1), (7, 1), (9, 2), (13, 2),
    (17, 3), (25, 3), (33, 4), (49, 4), (65, 5), (97, 5), (129, 6), (193, 6),
    (257, 7), (385, 7), (513, 8), (769, 8), (1025, 9), (1537, 9), (2049, 10), (3073, 10),
    (4097, 11), (6145, 11), (8193, 12), (12289, 12), (16385, 13), (24577, 13) ]

/-- The last class that begins at the value or below it. -/
def classOf (first : Nat) (value : Nat) : Classes → Coded → Coded
  | [], found => found
  | (least, bits) :: rest, found =>
    if least ≤ value then classOf (first + 1) value rest ⟨first, bits, value - least⟩ else found

/-- Symbol of the first class of lengths; literals and the end mark come before. -/
def firstLength : Nat := 257

/-- The end of a block. -/
def endMark : Nat := 256

/-- Symbol of a length. -/
def lengthClass (length : Nat) : Coded :=
  classOf firstLength length lengthClasses default

/-- Symbol of a distance. -/
def distanceClass (distance : Nat) : Coded :=
  classOf 0 distance distanceClasses default

/-- Number of extra bits of a symbol of the first alphabet. -/
def lengthExtra (symbol : Nat) : Nat :=
  if symbol < firstLength then 0 else ((lengthClasses[symbol - firstLength]?).map Prod.snd).getD 0

/-- Number of extra bits of a distance symbol. -/
def distanceExtra (symbol : Nat) : Nat :=
  ((distanceClasses[symbol]?).map Prod.snd).getD 0

end JavaAtlas.Deflate
