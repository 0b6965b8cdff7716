import JavaAtlas.Deflate.Block

/-!
# Reading compressed data

Blocks are read up to the final one; bits that follow it are left alone.  Copies
may reach back into earlier blocks.

Main definitions:

- `inflate`: the octets of a compressed stream, and the bits behind it.
-/

namespace JavaAtlas.Deflate

/-- The value of a class with extra bits. -/
def takeClass (classes : Classes) (index : Nat) (bits : List Bool) : Option (Nat × List Bool) := do
  let (least, extra) ← classes[index]?
  let (n, rest) ← takeNumber extra bits
  return (least + n, rest)

/-- Reads what follows the symbol of a length, and copies. -/
def readCopy (distances : CodeTree) (symbol : Nat) (out : Array UInt8) (bits : List Bool) :
    Option (Array UInt8 × List Bool) := do
  let (length, bits) ← takeClass lengthClasses (symbol - firstLength) bits
  let (d, bits) ← distances.read bits
  let (distance, bits) ← takeClass distanceClasses d bits
  let out ← copyBack distance length out
  return (out, bits)

/-- Reads symbols and copies up to the end mark, at most so many. -/
def readBody (symbols distances : CodeTree) :
    Nat → Array UInt8 → List Bool → Option (Array UInt8 × List Bool)
  | 0, _, _ => none
  | fuel + 1, out, bits => do
    let (s, bits) ← symbols.read bits
    if s < endMark then readBody symbols distances fuel (out.push (UInt8.ofNat s)) bits
    else if s = endMark then return (out, bits)
    else
      let (out, bits) ← readCopy distances s out bits
      readBody symbols distances fuel out bits

/-- Reads what follows the symbol of a run.  The newest length comes first. -/
def readRun (s : Nat) (lengths : List Nat) (bits : List Bool) : Option (List Nat × List Bool) :=
  let repeated (length extra least : Nat) := do
    let (n, bits) ← takeNumber extra bits
    return (List.replicate (least + n) length ++ lengths, bits)
  if s < repeatBefore then some (s :: lengths, bits)
  else if s = repeatBefore then
    match lengths with
    | [] => none
    | length :: _ => repeated length 2 3
  else if s = fewZeros then repeated 0 3 3
  else repeated 0 7 11

/-- Reads runs up to so many lengths. -/
def readRuns (code : CodeTree) (total : Nat) :
    Nat → List Nat → List Bool → Option (List Nat × List Bool)
  | 0, _, _ => none
  | fuel + 1, lengths, bits =>
    if total ≤ lengths.length then
      if lengths.length = total then some (lengths.reverse, bits) else none
    else do
      let (s, bits) ← code.read bits
      let (lengths, bits) ← readRun s lengths bits
      readRuns code total fuel lengths bits

/-- Reads the lengths of the code for lengths, in their order. -/
def readLengthLengths : List Nat → Array Nat → List Bool → Option (Array Nat × List Bool)
  | [], lengths, bits => some (lengths, bits)
  | s :: rest, lengths, bits => do
    let (n, bits) ← takeNumber 3 bits
    readLengthLengths rest (lengths.setIfInBounds s n) bits

/-- Reads the description of codes. -/
def readCodes (bits : List Bool) : Option (Codes × List Bool) := do
  let (symbolCount, bits) ← takeNumber 5 bits
  let (distanceCount, bits) ← takeNumber 5 bits
  let (written, bits) ← takeNumber 4 bits
  let (lengths, bits) ←
    readLengthLengths (lengthOrder.take (written + 4)) (Array.replicate 19 0) bits
  let total := symbolCount + 257 + (distanceCount + 1)
  let (all, bits) ← readRuns (.ofLengths lengths) total (total + 1) [] bits
  return (⟨(all.take (symbolCount + 257)).toArray, (all.drop (symbolCount + 257)).toArray⟩, bits)

/-- Reads octets as they are. -/
def readPlain (used : Nat) (out : Array UInt8) (bits : List Bool) :
    Option (Array UInt8 × List Bool) := do
  let bits := bits.drop (filling used).length
  let (length, bits) ← takeNumber 16 bits
  let (check, bits) ← takeNumber 16 bits
  if length + check ≠ 65535 ∨ bits.length < 8 * length then none
  else return (out ++ (pack (bits.take (8 * length))).toArray, bits.drop (8 * length))

/-- Reads the body of a block in the form that two bits tell.  `total` is the number
of bits of the stream. -/
def readBlock (total : Nat) (low high : Bool) (out : Array UInt8) (bits : List Bool) :
    Option (Array UInt8 × List Bool) :=
  match low, high with
  | false, false => readPlain (total - bits.length) out bits
  | true, false =>
    readBody (.ofLengths fixedLengths) (.ofLengths fixedDistances) (bits.length + 1) out bits
  | false, true => do
    let (c, bits) ← readCodes bits
    readBody (.ofLengths c.symbols) (.ofLengths c.distances) (bits.length + 1) out bits
  | true, true => none

/-- Reads blocks up to the final one. -/
def readBlocks (total : Nat) : Nat → Array UInt8 → List Bool → Option (Array UInt8 × List Bool)
  | 0, _, _ => none
  | fuel + 1, out, final :: low :: high :: bits => do
    let (out, bits) ← readBlock total low high out bits
    if final then return (out, bits) else readBlocks total fuel out bits
  | _ + 1, _, _ => none

/-- The octets of a compressed stream, and the bits behind it. -/
def inflate (bits : List Bool) : Option (Array UInt8 × List Bool) :=
  readBlocks bits.length (bits.length + 1) #[] bits

end JavaAtlas.Deflate
