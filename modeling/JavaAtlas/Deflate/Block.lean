import JavaAtlas.Deflate.Token
import JavaAtlas.Deflate.Code
import JavaAtlas.Deflate.Lengths

/-!
# Blocks of compressed data

Tokens are written in blocks.  A block holds its octets as they are, or its tokens
in a fixed code, or in a code of its own that is written before them; the
shortest of the three forms is taken.

Main definitions:

- `runs`: how the lengths of codewords are written.
- `blockBits`: the bits of a block.
-/

namespace JavaAtlas.Deflate

/-! ## Lengths of codewords in runs -/

/-- Repeats the length before. -/
def repeatBefore : Nat := 16

/-- Repeats length zero a few times. -/
def fewZeros : Nat := 17

/-- Repeats length zero many times. -/
def manyZeros : Nat := 18

/-- How a run of equal lengths is written, given the length before it. -/
def runSymbols (before : Option Nat) (length count : Nat) : List Coded :=
  let plain (k : Nat) := List.replicate k (⟨length, 0, 0⟩ : Coded)
  if length = 0 then
    if count < 3 then plain count
    else if count ≤ 10 then [⟨fewZeros, 3, count - 3⟩]
    else [⟨manyZeros, 7, count - 11⟩]
  else if before = some length then
    if count < 3 then plain count else [⟨repeatBefore, 2, count - 3⟩]
  else if count < 4 then plain count
  else plain 1 ++ [⟨repeatBefore, 2, count - 4⟩]

/-- Greatest number of equal lengths in one run. -/
def runLimit (before : Option Nat) (length : Nat) : Nat :=
  if length = 0 then 138 else if before = some length then 6 else 7

/-- Writes lengths as runs.  `count` equal lengths have been met already, and
`before` is the length before them. -/
def runsFrom (before : Option Nat) : Nat → List Nat → List Coded
  | _, [] => []
  | count, length :: rest =>
    let here := count + 1
    match rest with
    | next :: _ =>
      if next = length ∧ here < runLimit before length then runsFrom before here rest
      else runSymbols before length here ++ runsFrom (some length) 0 rest
    | [] => runSymbols before length here

/-- Lengths of codewords as runs. -/
def runs (lengths : List Nat) : List Coded :=
  runsFrom none 0 lengths

/-! ## Counting -/

/-- Numbers of symbols in both alphabets. -/
structure Tally where
  symbols : Array Nat
  distances : Array Nat

/-- The tally of tokens, with the end mark. -/
def tally (ts : List Token) : Tally :=
  let start : Tally :=
    ⟨(Array.replicate 286 0).setIfInBounds endMark 1, Array.replicate 30 0⟩
  ts.foldl (fun t token =>
    match token with
    | .literal b => { t with symbols := t.symbols.modify b.toNat (· + 1) }
    | .copy length distance =>
      ⟨t.symbols.modify (lengthClass length).symbol (· + 1),
        t.distances.modify (distanceClass distance).symbol (· + 1)⟩) start

/-- Number of bits that symbols take, with their extra bits. -/
def weight (counts lengths : Array Nat) (extra : Nat → Nat) : Nat :=
  (List.range counts.size).foldl
    (fun n s => n + counts.getD s 0 * (lengths.getD s 0 + extra s)) 0

/-- Lengths of the codewords of both alphabets. -/
structure Codes where
  symbols : Array Nat
  distances : Array Nat

/-- The fixed codes. -/
def Codes.fixed : Codes := ⟨fixedLengths, fixedDistances⟩

/-- Number of bits of the tokens of a tally in a code. -/
def Tally.bits (t : Tally) (c : Codes) : Nat :=
  weight t.symbols c.symbols lengthExtra + weight t.distances c.distances distanceExtra

/-- The codes that suit a tally best. -/
def Tally.ownCodes (t : Tally) : Codes :=
  ⟨codeLengths longestCodeword t.symbols, codeLengths longestCodeword t.distances⟩

/-! ## Writing -/

/-- Order in which the lengths of the code for lengths are written. -/
def lengthOrder : List Nat :=
  [16, 17, 18, 0, 8, 7, 9, 6, 10, 5, 11, 4, 12, 3, 13, 2, 14, 1, 15]

/-- The lengths without zeros at the end, but so many at least. -/
def upToLast (least : Nat) (lengths : Array Nat) : List Nat :=
  let used := (lengths.toList.reverse.dropWhile (· == 0)).length
  lengths.toList.take (max least used)

/-- The bits of a symbol in a code, with its extra bits. -/
def codedBits (words : Array (List Bool)) (c : Coded) : List Bool :=
  words.getD c.symbol [] ++ bitsOf c.extraBits c.extra

/-- Bits of a token. -/
def tokenBits (symbols distances : Array (List Bool)) : Token → List Bool
  | .literal b => symbols.getD b.toNat []
  | .copy length distance =>
    codedBits symbols (lengthClass length) ++ codedBits distances (distanceClass distance)

/-- Bits of tokens in a code, with the end mark. -/
def bodyBits (c : Codes) (ts : List Token) : List Bool :=
  let symbols := codewords c.symbols
  let distances := codewords c.distances
  ts.flatMap (tokenBits symbols distances) ++ symbols.getD endMark []

/-- The description of codes: the runs, their own code, and how many lengths of
that code are written. -/
structure Description where
  symbolCount : Nat
  distanceCount : Nat
  runs : List Coded
  lengths : Array Nat
  written : Nat

/-- Describes codes. -/
def describe (c : Codes) : Description :=
  let symbols := upToLast 257 c.symbols
  let distances := upToLast 1 c.distances
  let rs := runs symbols ++ runs distances
  let counts := rs.foldl (fun a r => a.modify r.symbol (· + 1)) (Array.replicate 19 0)
  let lengths := codeLengths 7 counts
  let trailing := (lengthOrder.reverse.takeWhile fun s => lengths.getD s 0 == 0).length
  ⟨symbols.length, distances.length, rs, lengths, max 4 (19 - trailing)⟩

/-- Bits of a description. -/
def Description.bits (d : Description) : List Bool :=
  let words := codewords d.lengths
  bitsOf 5 (d.symbolCount - 257) ++ bitsOf 5 (d.distanceCount - 1) ++ bitsOf 4 (d.written - 4) ++
    (lengthOrder.take d.written).flatMap (fun s => bitsOf 3 (d.lengths.getD s 0)) ++
    d.runs.flatMap (codedBits words)

/-- Number of octets that so many bits need behind the head of a block. -/
def octetsFor (bits : Nat) : Nat :=
  (bits + 3 + 7) / 8

/-- Bits that fill up an octet of which so many bits are used. -/
def filling (used : Nat) : List Bool :=
  List.replicate ((8 - used % 8) % 8) false

/-- A block that holds octets as they are.  It begins on the given number of bits. -/
def plainBits (before : Nat) (final : Bool) (octets : List UInt8) : List Bool :=
  [final, false, false] ++ filling (before + 3) ++ bitsOf 16 octets.length ++
    bitsOf 16 (65535 - octets.length) ++ unpack octets

/-- The bits of a block in its shortest form.  Of two forms of the same length, the
octets as they are come first, then the fixed codes. -/
def blockBits (before : Nat) (final : Bool) (octets : List UInt8) (ts : List Token) :
    List Bool :=
  let t := tally ts
  let own := t.ownCodes
  let d := describe own
  let ownBits := d.bits
  let ownOctets := octetsFor (ownBits.length + t.bits own)
  let fixedOctets := octetsFor (t.bits .fixed)
  if octets.length + 4 ≤ min ownOctets fixedOctets then plainBits before final octets
  else if fixedOctets ≤ ownOctets then [final, true, false] ++ bodyBits .fixed ts
  else [final, false, true] ++ ownBits ++ bodyBits own ts

end JavaAtlas.Deflate
