import JavaAtlas.Java.Token

/-!
# Syntax trees

A syntax tree has tokens as leaves.  Its nodes are the parts of a source that a
reader of declarations cares about; expressions stay flat inside the node that
holds them.  The text of a node runs from its first token to its last one, with
all filler between them.  A comment belongs to the innermost node that has
begun before it and ends after it.
-/

namespace JavaAtlas.Java

/-- Kind of an inner node. -/
inductive Kind where
  | program
  | packageDeclaration
  | importDeclaration
  | moduleDeclaration
  | name
  | classDeclaration
  | interfaceDeclaration
  | enumDeclaration
  | recordDeclaration
  | annotationTypeDeclaration
  | superclass
  | superInterfaces
  | extendsInterfaces
  | permits
  | typeList
  | typeParameters
  | typeArguments
  | type
  | primitiveType
  | dimensions
  | classBody
  | interfaceBody
  | enumBody
  | enumConstant
  | annotationTypeBody
  | annotationElement
  | fieldDeclaration
  | variableDeclarator
  | methodDeclaration
  | constructorDeclaration
  | initializer
  | formalParameters
  | formalParameter
  | spreadParameter
  | receiverParameter
  | modifiers
  | annotationMark
  | block
  | statement
  deriving DecidableEq, Repr, Inhabited

/-- A token or a node over trees. -/
inductive Tree where
  | leaf (token : Token)
  | node (kind : Kind) (children : List Tree)
  deriving Repr, Inhabited

namespace Tree

/-- The children of a tree; a leaf has none. -/
def children : Tree → List Tree
  | leaf _ => []
  | node _ cs => cs

/-- The tree is a node of the kind. -/
def isNode (k : Kind) : Tree → Bool
  | leaf _ => false
  | node k' _ => k' == k

/-- The tree is a leaf with the spelling. -/
def isLeaf (text : String) : Tree → Bool
  | leaf t => t.text == text
  | node _ _ => false

mutual

/-- The tokens of a tree, in order. -/
def tokens : Tree → List Token
  | leaf t => [t]
  | node _ cs => tokensOfAll cs

/-- The tokens of trees in a row. -/
def tokensOfAll : List Tree → List Token
  | [] => []
  | t :: ts => tokens t ++ tokensOfAll ts

end

mutual

/-- The first token of a tree, if it has any. -/
def firstToken? : Tree → Option Token
  | leaf t => some t
  | node _ cs => firstTokenOfAll? cs

/-- The first token of trees in a row. -/
def firstTokenOfAll? : List Tree → Option Token
  | [] => none
  | t :: ts =>
    match firstToken? t with
    | some tok => some tok
    | none => firstTokenOfAll? ts

end

mutual

/-- Number of nodes and leaves of a tree. -/
def size : Tree → Nat
  | leaf _ => 1
  | node _ cs => 1 + sizeOfAll cs

/-- Number of nodes and leaves of trees in a row. -/
def sizeOfAll : List Tree → Nat
  | [] => 0
  | t :: ts => size t + sizeOfAll ts

end

/-- Text of tokens in a row: everything from the first to the last of them. -/
def textOfTokens : List Token → String
  | [] => ""
  | t :: ts => String.join (t.text :: ts.map fun u => u.gap ++ u.text)

/-- Text of a tree: its tokens with the filler between them. -/
def text (t : Tree) : String :=
  textOfTokens t.tokens

/-! ## Comments among the children -/

/-- A child of a node as a reader meets it: a tree, or a comment between trees. -/
inductive Part where
  | comment (text : String)
  | tree (t : Tree)
  deriving Repr

/-- Children after the first one, each behind the comments before it. -/
def laterParts : List Tree → List Part
  | [] => []
  | t :: ts =>
    ((firstToken? t).elim [] Token.comments).map Part.comment ++ Part.tree t :: laterParts ts

/-- The children of a node with the comments between them.  Comments before the
first child stand outside the node. -/
def parts (t : Tree) : List Part :=
  match t.children with
  | [] => []
  | c :: cs => Part.tree c :: laterParts cs

end Tree

end JavaAtlas.Java
