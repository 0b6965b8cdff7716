import JavaAtlas.Deflate.Bits

/-!
# Prefix codes

The lengths of the codewords fix the code: shorter codewords come first, and
those of one length follow each other in the order of their symbols.

Main definitions:

- `codewords`: the codeword of each symbol.
- `CodeTree`: a code as a tree that bits are followed through.
-/

namespace JavaAtlas.Deflate

/-- Greatest length of a codeword. -/
def longestCodeword : Nat := 15

/-- The first codeword of each length, as a number. -/
def firstCodes (lengths : Array Nat) : Array Nat :=
  let counts := lengths.foldl (fun c l => if l = 0 then c else c.modify l (· + 1))
    (Array.replicate (longestCodeword + 1) 0)
  (List.range longestCodeword).foldl
    (fun firsts l => firsts.push (2 * (firsts.getD l 0 + counts.getD l 0))) #[0]

/-- The codeword of each symbol, first bit first; symbols without length have none. -/
def codewords (lengths : Array Nat) : Array (List Bool) :=
  (lengths.foldl
    (fun (acc : Array (List Bool) × Array Nat) l =>
      if l = 0 then (acc.1.push [], acc.2)
      else (acc.1.push (bitsOf l (acc.2.getD l 0)).reverse, acc.2.modify l (· + 1)))
    (#[], firstCodes lengths)).1

/-- A code as a tree.  A symbol stands where its codeword ends. -/
inductive CodeTree where
  | empty
  | symbol (s : Nat)
  | fork (zero one : CodeTree)
  deriving Repr, Inhabited

namespace CodeTree

/-- The tree with one more codeword. -/
def insert (s : Nat) : List Bool → CodeTree → CodeTree
  | [], _ => symbol s
  | b :: bs, t =>
    let (zero, one) := match t with
      | fork z o => (z, o)
      | _ => (empty, empty)
    if b then fork zero (insert s bs one) else fork (insert s bs zero) one

/-- The tree of the codewords of symbols. -/
def ofCodewords (words : Array (List Bool)) : CodeTree :=
  (words.toList.zipIdx).foldl (fun t w => if w.1.isEmpty then t else t.insert w.2 w.1) empty

/-- The tree of a code given by lengths. -/
def ofLengths (lengths : Array Nat) : CodeTree :=
  ofCodewords (codewords lengths)

/-- Follows bits to a symbol. -/
def read : CodeTree → List Bool → Option (Nat × List Bool)
  | symbol s, bits => some (s, bits)
  | fork zero one, b :: bits => if b then read one bits else read zero bits
  | _, _ => none

end CodeTree

/-! ## The fixed codes -/

/-- Lengths of the fixed code of literals and lengths. -/
def fixedLengths : Array Nat :=
  Array.replicate 144 8 ++ Array.replicate 112 9 ++ Array.replicate 24 7 ++ Array.replicate 8 8

/-- Lengths of the fixed code of distances. -/
def fixedDistances : Array Nat :=
  Array.replicate 30 5

end JavaAtlas.Deflate
