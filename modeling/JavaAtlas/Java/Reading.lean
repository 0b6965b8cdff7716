import JavaAtlas.Java.Lexing
import JavaAtlas.Java.Grammar
import JavaAtlas.Java.FaultTree

/-!
# Reading a source text

A text is scanned and read by the grammar.  Where that fails, the first fault
has a place: a closing mark that is missing belongs to the line of the token
before the gap, a header that the end of the text cuts off belongs to the line on
which it begins, and any other unexpected token to its own line.
-/

namespace JavaAtlas.Java

/-- Row on which a token ends. -/
def Token.lastRow (t : Token) : Nat :=
  t.line + lineEnds t.text.toList

/-- Marks that close something and are supplied where they are missing. -/
def closingMarks : List String :=
  [";", "]", ")", ">"]

/-- The fault is a closing mark that is not there.  A closing brace is supplied
only at the end of the text. -/
def Fault.isGap (f : Fault) : Bool :=
  match f.wanted, f.rest with
  | some (.mark "\x7d"), [] => true
  | some (.mark m), [] => closingMarks.contains m
  | some (.mark m), t :: _ => closingMarks.contains m && t.shape != .stray
  | _, _ => false

/-- The node of a fault in the tree of the tokens. -/
def Fault.node (f : Fault) (ts : List Token) : FaultTree :=
  let before := (ts.take (ts.length - f.rest.length)).getLast?
  if f.isGap then .node .missing true (before.elim 0 Token.lastRow) []
  else
    match f.rest with
    | t :: _ => .node .error true t.line []
    | [] => .node .error true ((f.opened.or before).elim 0 Token.line) []

/-- The tree of tokens with a fault. -/
def Fault.tree (f : Fault) (ts : List Token) : FaultTree :=
  .node .none true 0 [f.node ts]

/-- Reads a source text. -/
def read (source : String) : Except FaultTree Tree :=
  let ts := scan source
  match parse Grammar.table .program .program ts with
  | .ok t => .ok t
  | .error f => .error (f.tree ts)

end JavaAtlas.Java
