import JavaAtlas.Deflate.Token

/-!
# Search for repetitions

Data is cut into tokens by looking for octets that were seen before.  Places are
chained by a hash of three octets, newest first, and a bounded number of them is
tried.  A repetition is used one octet late: it gives way if the next place has
a longer one.

Main definitions:

- `tokens`: the tokens of data.
-/

namespace JavaAtlas.Deflate

/-- Shortest repetition. -/
def leastMatch : Nat := 3

/-- Longest repetition. -/
def greatestMatch : Nat := 258

/-- Greatest distance of a repetition. -/
def reach : Nat := 32768 - (greatestMatch + leastMatch + 1)

/-- A repetition of the least length is not worth a greater distance. -/
def farForLeast : Nat := 4096

/-- A repetition of this length gives way to no other. -/
def lazyLength : Nat := 16

/-- After a repetition of this length only a quarter of the places is tried. -/
def goodLength : Nat := 8

/-- A repetition of this length ends the search. -/
def niceLength : Nat := 128

/-- Number of places that are tried. -/
def chainLength : Nat := 128

/-- Number of different hashes. -/
def hashCount : Nat := 32768

/-- Hash of the three octets at a place. -/
def hashAt (data : Array UInt8) (i : Nat) : Nat :=
  let at' (k : Nat) : Nat := (data.getD k 0).toNat
  ((at' i * 1024) ^^^ (at' (i + 1) * 32) ^^^ at' (i + 2)) % hashCount

/-- Places of the octets seen so far: the newest place of each hash, and for each
place the one before it with the same hash.  Place zero stands for none. -/
structure Chains where
  newest : Array Nat
  older : Array Nat

namespace Chains

/-- No places. -/
def empty : Chains := ⟨Array.replicate hashCount 0, #[]⟩

/-- The newest place with the hash of a place. -/
def candidate (c : Chains) (data : Array UInt8) (i : Nat) : Nat :=
  c.newest.getD (hashAt data i) 0

/-- The chains with one more place. -/
def add (c : Chains) (data : Array UInt8) (i : Nat) : Chains :=
  match c with
  | ⟨newest, older⟩ =>
    let h := hashAt data i
    let before := newest.getD h 0
    ⟨newest.setIfInBounds h i, older.push before⟩

/-- The chains with so many more places, as far as three octets are left. -/
def addAll (data : Array UInt8) : Nat → Nat → Chains → Chains
  | 0, _, c => c
  | k + 1, i, c =>
    addAll data k (i + 1) (if i + leastMatch ≤ data.size then c.add data i else c)

end Chains

/-- Number of equal octets at two places, at most the given one. -/
def commonLength (data : Array UInt8) (i j : Nat) : Nat → Nat
  | 0 => 0
  | k + 1 =>
    if data.getD i 0 = data.getD j 0 then 1 + commonLength data (i + 1) (j + 1) k else 0

/-- A repetition: its length and where the octets stood before. -/
structure Found where
  length : Nat
  place : Nat
  deriving Repr, Inhabited

/-- Tries places of a chain and keeps the first of the longest repetitions. -/
def search (c : Chains) (data : Array UInt8) (i : Nat) : Nat → Nat → Found → Found
  | 0, _, best => best
  | k + 1, j, best =>
    let room := min greatestMatch (data.size - i)
    let length :=
      if data.getD (j + best.length) 0 = data.getD (i + best.length) 0 then
        commonLength data j i room
      else 0
    let better := if best.length < length then ⟨length, j⟩ else best
    if best.length < length && min niceLength room ≤ length then better
    else
      let next := c.older.getD j 0
      if i - reach < next then search c data i k next better else better

/-- The longest repetition at a place that beats the one at the place before. -/
def longest (c : Chains) (data : Array UInt8) (i j previous : Nat) : Found :=
  let tries := if goodLength ≤ previous then chainLength / 4 else chainLength
  let found := search c data i tries j ⟨previous, 0⟩
  ⟨min found.length (data.size - i), found.place⟩

/-- The repetition at a place, or one of length two if there is none worth using. -/
def repetition (c : Chains) (data : Array UInt8) (i previous : Nat) : Found :=
  let none' : Found := ⟨leastMatch - 1, 0⟩
  if i + leastMatch ≤ data.size then
    let j := c.candidate data i
    if j != 0 && previous < lazyLength && i - j ≤ reach then
      let found := longest c data i j previous
      if found.length = leastMatch && farForLeast < i - found.place then none' else found
    else none'
  else none'

/-- What is known of the place before the current one. -/
structure Pending where
  /-- The repetition that begins there. -/
  found : Found
  /-- Its octet has not been written yet. -/
  waiting : Bool

/-- Cuts the data into tokens from a place on; the newest token comes first. -/
def cutFrom (data : Array UInt8) : Nat → Nat → Chains → Pending → List Token → List Token
  | 0, _, _, _, done => done
  | k + 1, i, c, before, done =>
    if i < data.size then
      let found := repetition c data i before.found.length
      let c := Chains.addAll data 1 i c
      if leastMatch ≤ before.found.length && found.length ≤ before.found.length then
        let length := before.found.length
        let rest := length - 2
        cutFrom data k (i + rest + 1) (Chains.addAll data rest (i + 1) c)
          ⟨⟨leastMatch - 1, 0⟩, false⟩ (.copy length (i - 1 - before.found.place) :: done)
      else
        let done := if before.waiting then .literal (data.getD (i - 1) 0) :: done else done
        cutFrom data k (i + 1) c ⟨found, true⟩ done
    else if before.waiting then .literal (data.getD (i - 1) 0) :: done
    else done

/-- The tokens of data. -/
def tokens (data : Array UInt8) : List Token :=
  (cutFrom data (data.size + 1) 0 .empty ⟨⟨leastMatch - 1, 0⟩, false⟩ []).reverse

end JavaAtlas.Deflate
