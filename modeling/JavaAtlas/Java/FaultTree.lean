/-!
# Trees with faults

The tree of a text that does not follow the grammar.  Tokens that could not be
read stand in an error node, and a token that had to be supplied is a missing
node.  Every node is flagged when it is a fault or holds one, so the first fault
is found by following flags, without looking back.

Main definitions:

- `firstFaultLine`: the line of the first fault, reached by following the flags.
- `FlagsExact`: the flags say what they should.
-/

namespace JavaAtlas.Java

/-- Whether a node is a fault. -/
inductive FaultKind where
  | none
  | error
  | missing
  deriving DecidableEq, Repr

/-- A node of a tree with faults. -/
inductive FaultTree where
  | node (fault : FaultKind) (flagged : Bool) (row : Nat) (children : List FaultTree)
  deriving Repr

namespace FaultTree

/-- The node itself is a fault. -/
def isFault : FaultTree → Bool
  | node k _ _ _ => k != .none

/-- The flag of the node. -/
def isFlagged : FaultTree → Bool
  | node _ f _ _ => f

mutual

/-- The line of the node where following the flags ends, counted from one. -/
def firstFaultLine : FaultTree → Nat
  | node k _ row cs => if k != .none then row + 1 else firstFaultLineOf row cs

/-- Follows the first child that is flagged or missing; without one the search
ends at the node, whose row is given. -/
def firstFaultLineOf (row : Nat) : List FaultTree → Nat
  | [] => row + 1
  | node k f r cs :: rest =>
    if f || k == .missing then firstFaultLine (node k f r cs) else firstFaultLineOf row rest

end

mutual

/-- Rows of all faults, each node before its children. -/
def faultRows : FaultTree → List Nat
  | node k _ row cs => (if k != .none then [row] else []) ++ faultRowsOf cs

/-- Rows of all faults of trees in a row. -/
def faultRowsOf : List FaultTree → List Nat
  | [] => []
  | t :: ts => faultRows t ++ faultRowsOf ts

end

mutual

/-- Every node is flagged exactly when it is a fault or holds one. -/
def FlagsExact : FaultTree → Prop
  | node k f _ cs => (f = true ↔ k ≠ .none ∨ faultRowsOf cs ≠ []) ∧ FlagsExactAll cs

/-- The flags of all the trees are exact. -/
def FlagsExactAll : List FaultTree → Prop
  | [] => True
  | t :: ts => FlagsExact t ∧ FlagsExactAll ts

end

end FaultTree

end JavaAtlas.Java
