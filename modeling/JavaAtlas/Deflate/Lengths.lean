/-!
# Lengths of codewords

Symbols that occur often get short codewords.  The two rarest symbols are joined
again and again into a tree, and the depth of a symbol in the tree is the length
of its codeword.  Which of two equally rare ones comes first depends on their
depth and on their place in a heap, so the heap is part of the rule.  Codewords
that come out too long are shortened at the expense of others.

Main definitions:

- `Heap`: nodes in heap order.
- `codeLengths`: the length of the codeword of each symbol.
-/

namespace JavaAtlas.Deflate

/-- Nodes with how often they occur and how deep they are. -/
structure Forest where
  count : Array Nat
  depth : Array Nat
  parent : Array Nat
  deriving Inhabited

namespace Forest

/-- A node comes before another one: it is rarer, or as rare and not deeper. -/
def precedes (f : Forest) (a b : Nat) : Bool :=
  let ca := f.count.getD a 0
  let cb := f.count.getD b 0
  ca < cb || (ca == cb && f.depth.getD a 0 ≤ f.depth.getD b 0)

/-- The forest with a new node over two others, and its number. -/
def join (f : Forest) (a b : Nat) : Forest × Nat :=
  let node := f.count.size
  ( { count := f.count.push (f.count.getD a 0 + f.count.getD b 0)
      depth := f.depth.push (max (f.depth.getD a 0) (f.depth.getD b 0) + 1)
      parent := ((f.parent.push 0).setIfInBounds a node).setIfInBounds b node },
    node )

end Forest

/-- Nodes in heap order: the children of place `k` are at `2k` and `2k + 1`.  The
first place is number one; place zero is not used. -/
abbrev Heap := Array Nat

namespace Heap

/-- The last place that is used. -/
def last (h : Heap) : Nat := h.size - 1

/-- The node at a place. -/
def at' (h : Heap) (k : Nat) : Nat := h.getD k 0

/-- Moves a node down from a place until both children come after it. -/
def sink (f : Forest) (node : Nat) : Nat → Nat → Heap → Heap
  | 0, k, h => h.setIfInBounds k node
  | fuel + 1, k, h =>
    let left := 2 * k
    if left ≤ h.last then
      let child := if left < h.last && f.precedes (h.at' (left + 1)) (h.at' left) then left + 1
        else left
      if f.precedes node (h.at' child) then h.setIfInBounds k node
      else sink f node fuel child (h.setIfInBounds k (h.at' child))
    else h.setIfInBounds k node

/-- Puts the node at a place where it belongs. -/
def settle (f : Forest) (k : Nat) (h : Heap) : Heap :=
  sink f (h.at' k) h.size k h

/-- Brings all nodes into heap order, from a place back to the first one. -/
def order (f : Forest) : Nat → Heap → Heap
  | 0, h => h
  | k + 1, h => order f k (settle f (k + 1) h)

/-- The first node, and the heap without it. -/
def takeFirst (f : Forest) (h : Heap) : Nat × Heap :=
  (h.at' 1, settle f 1 ((h.setIfInBounds 1 (h.at' h.last)).pop))

end Heap

/-- Joins the two first nodes until one is left.  The nodes are collected in the
order of their removal, the last one first. -/
def joinAll : Nat → Forest → Heap → List Nat → Forest × List Nat
  | 0, f, h, removed => (f, h.at' 1 :: removed)
  | fuel + 1, f, h, removed =>
    if h.last < 2 then (f, h.at' 1 :: removed)
    else
      let (a, h) := h.takeFirst f
      let b := h.at' 1
      let (f, node) := f.join a b
      joinAll fuel f (Heap.settle f 1 (h.setIfInBounds 1 node)) (b :: a :: removed)

/-- Depth of each node below the root, at most the limit.  Nodes come before those
below them. -/
def depths (f : Forest) (limit : Nat) : List Nat → Array Nat → Array Nat
  | [], ds => ds
  | n :: ns, ds =>
    let above := ds.getD (f.parent.getD n 0) 0
    depths f limit ns (ds.setIfInBounds n (min limit (above + 1)))

/-- Number of nodes that the limit keeps from going deeper. -/
def overflow (f : Forest) (limit : Nat) (nodes : List Nat) (ds : Array Nat) : Nat :=
  (nodes.filter fun n => limit ≤ ds.getD (f.parent.getD n 0) 0).length

/-- The greatest length below the given one that some codeword has. -/
def longestUsed (counts : Array Nat) : Nat → Nat
  | 0 => 0
  | k + 1 => if counts.getD (k + 1) 0 = 0 then longestUsed counts k else k + 1

/-- Numbers of codewords of each length after some were shortened: a shorter
codeword is made longer, and two of the longest hang below it. -/
def shorten (limit : Nat) : Nat → Nat → Array Nat → Array Nat
  | 0, _, counts => counts
  | fuel + 1, excess, counts =>
    if excess = 0 then counts
    else
      let k := longestUsed counts (limit - 1)
      let less (i : Nat) (c : Array Nat) := c.modify i (· - 1)
      shorten limit fuel (excess - 2) (less limit ((less k counts).modify (k + 1) (· + 2)))

/-- Gives out lengths to symbols, the longest length first. -/
def distribute (counts : Array Nat) : Nat → List Nat → Array Nat → Array Nat
  | 0, _, lengths => lengths
  | k + 1, symbols, lengths =>
    let n := counts.getD (k + 1) 0
    distribute counts k (symbols.drop n)
      ((symbols.take n).foldl (fun l s => l.setIfInBounds s (k + 1)) lengths)

/-- Symbols that occur; at least two are needed, and the first ones that do not
occur are taken where fewer do. -/
def usedSymbols (counts : Array Nat) : List Nat :=
  let used := (List.range counts.size).filter fun s => counts.getD s 0 != 0
  match used with
  | [] => [0, 1]
  | [s] => if s < 2 then [s, s + 1] else [s, 0]
  | _ => used

/-- The length of the codeword of each symbol, at most the limit; symbols without
codeword have length zero. -/
def codeLengths (limit : Nat) (counts : Array Nat) : Array Nat :=
  let used := usedSymbols counts
  let size := counts.size
  let counts := used.foldl (fun c s => c.modify s (max 1)) counts
  let forest : Forest := ⟨counts, Array.replicate size 0, Array.replicate size 0⟩
  let heap : Heap := #[0] ++ used.toArray
  let (forest, nodes) := joinAll size forest (Heap.order forest (heap.last / 2) heap) []
  match nodes with
  | [] => Array.replicate size 0
  | _ :: below =>
    let ds := depths forest limit below (Array.replicate forest.count.size 0)
    let leaves := below.filter (· < size)
    let lengths := leaves.foldl (fun l s => l.setIfInBounds s (ds.getD s 0))
      (Array.replicate size 0)
    let excess := overflow forest limit below ds
    if excess = 0 then lengths
    else
      let perLength := leaves.foldl (fun c s => c.modify (ds.getD s 0) (· + 1))
        (Array.replicate (limit + 1) 0)
      distribute (shorten limit excess excess perLength) limit leaves.reverse lengths

end JavaAtlas.Deflate
