import JavaAtlas.Deflate.Block
import JavaAtlas.Deflate.Matching

/-!
# Compression

Data is cut into tokens, and the tokens are written in blocks of a bounded number.

Main definitions:

- `compress`: the octets of the compressed stream.
- `stream`, `bare`: the compressed stream with its head and its checksum, and without them.
-/

namespace JavaAtlas.Deflate

/-- Number of tokens that fill a block. -/
def blockTokens : Nat := 16383

/-- Tokens in groups of a full block, the last one shorter.  A group that a copy
fills is written before it is known that no tokens follow, and then an empty group
comes last. -/
def groupsOf : Nat → List Token → List (List Token)
  | 0, ts => [ts]
  | fuel + 1, ts =>
    if ts.length < blockTokens then [ts]
    else
      let group := ts.take blockTokens
      match ts.drop blockTokens, group.getLast? with
      | [], some (.literal _) => [group]
      | rest, _ => group :: groupsOf fuel rest

/-- Number of octets that tokens describe. -/
def spanOf (ts : List Token) : Nat :=
  ts.foldr (fun t n => t.span + n) 0

/-- Writes groups as blocks behind so many bits; the last one is final. -/
def writeBlocks : Nat → List UInt8 → List (List Token) → List Bool
  | _, _, [] => []
  | before, octets, group :: rest =>
    let n := spanOf group
    let bits := blockBits before rest.isEmpty (octets.take n) group
    bits ++ writeBlocks (before + bits.length) (octets.drop n) rest

/-- The compressed bits of data. -/
def compressBits (octets : List UInt8) : List Bool :=
  let ts := tokens octets.toArray
  writeBlocks 0 octets (groupsOf ts.length ts)

/-- The octets of the compressed stream of data. -/
def compress (octets : List UInt8) : List UInt8 :=
  pack (compressBits octets)

/-! ## Head and checksum -/

/-- What stands before a compressed stream: its method and its level. -/
def streamHead : List UInt8 := [0x78, 0x9C]

/-- The greatest prime number of sixteen bits. -/
def checkModulus : Nat := 65521

/-- The sum of octets, and the sum of all sums on the way. -/
def checkSums (octets : List UInt8) : Nat × Nat :=
  octets.foldl
    (fun sums b =>
      let low := (sums.1 + b.toNat) % checkModulus
      (low, (sums.2 + low) % checkModulus))
    (1, 0)

/-- The checksum of data, its octets of most weight first. -/
def checksum (octets : List UInt8) : List UInt8 :=
  let (low, high) := checkSums octets
  [high / 256, high, low / 256, low].map UInt8.ofNat

/-- The compressed stream of data between its head and the checksum. -/
def stream (octets : List UInt8) : List UInt8 :=
  streamHead ++ compress octets ++ checksum octets

/-- A stream without the two octets before it and the four behind it. -/
def bare (octets : List UInt8) : List UInt8 :=
  (octets.drop 2).take (octets.length - 6)

/-- Cutting head and checksum off leaves the compressed stream alone. -/
theorem bare_stream (octets : List UInt8) : bare (stream octets) = compress octets := by
  simp [bare, stream, streamHead, checksum]

end JavaAtlas.Deflate
