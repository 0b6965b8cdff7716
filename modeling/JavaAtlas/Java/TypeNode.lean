import JavaAtlas.Java.Tree

/-!
# Nodes of types

The grammar reads a type as a row: annotations, identifiers with dots between, type
arguments and brackets.  The syntax nests it.  What was read before a dot qualifies the
identifier behind it, type arguments and brackets take in what was read before them, and
annotations at the beginning take in the whole.

Main definitions:

- `TypeNode`: the nodes of a type.
- `TypeNode.className`: the name by which a type is looked up.
- `typeNode`: the node of a type that was read as a row.
-/

namespace JavaAtlas.Java

/-- Kind of a node of a type that has children. -/
inductive TypeNodeKind where
  | scopedTypeIdentifier
  | genericType
  | annotatedType
  | arrayType
  deriving DecidableEq, Repr

/-- A node of a type, or a child of one. -/
inductive TypeNode where
  | typeIdentifier (token : Token)
  | node (kind : TypeNodeKind) (children : List TypeNode)
  /-- A node of another kind: a primitive type, an annotation, type arguments or
  brackets. -/
  | other (t : Tree)
  | comment (text : String)
  /-- A token that is no node. -/
  | sign (token : Token)
  deriving Repr, Inhabited

namespace TypeNode

/-- The child is a node and no mere sign; comments are nodes. -/
def isNamed : TypeNode → Bool
  | sign _ => false
  | _ => true

/-- The token of an identifier. -/
def identifier? : TypeNode → Option Token
  | typeIdentifier tok => some tok
  | _ => none

/-- The node is a name without type arguments of its own. -/
def isPlainName : TypeNode → Bool
  | typeIdentifier _ => true
  | node .scopedTypeIdentifier _ => true
  | _ => false

mutual

/-- The name by which a type is looked up.  Behind dots it is the last identifier, before
type arguments the name of the first child that is a name, and behind annotations that of the
last child.  Other types have none. -/
def className : TypeNode → Option String
  | typeIdentifier tok => some tok.text
  | node .scopedTypeIdentifier cs => (cs.filterMap identifier?).getLast?.map Token.text
  | node .genericType cs => firstClassName cs
  | node .annotatedType cs => lastClassName cs
  | node .arrayType _ => none
  | other _ => none
  | comment _ => none
  | sign _ => none

/-- The name of the first child that is a name. -/
def firstClassName : List TypeNode → Option String
  | [] => none
  | c :: cs => if c.isPlainName then className c else firstClassName cs

/-- The name of the last child that is a node. -/
def lastClassName : List TypeNode → Option String
  | [] => none
  | c :: cs =>
    if cs.any isNamed then lastClassName cs
    else if c.isNamed then className c
    else none

end

/-! ## Nesting -/

/-- A child behind the comments that stand before its tree. -/
def behindComments (t : Tree) (child : TypeNode) : List TypeNode :=
  (t.firstToken?.elim [] Token.comments).map comment ++ [child]

/-- The node with more children, if it is a name that goes on behind a dot. -/
def extend (n : TypeNode) (more : List TypeNode) : TypeNode :=
  match n with
  | node .scopedTypeIdentifier cs => node .scopedTypeIdentifier (cs ++ more)
  | n => n

/-- The node of what was read before, with the next child of the row. -/
def grow (n : TypeNode) (t : Tree) : TypeNode :=
  match t with
  | .leaf tok =>
    if tok.shape = .word then n.extend (behindComments t (typeIdentifier tok))
    else node .scopedTypeIdentifier (n :: behindComments t (sign tok))
  | .node .typeArguments _ => node .genericType (n :: behindComments t (other t))
  | .node .dimensions _ => node .arrayType (n :: behindComments t (other t))
  | .node _ _ => n.extend (behindComments t (other t))

/-- The node of the first child behind the annotations of a row. -/
def start (t : Tree) : TypeNode :=
  match t with
  | .leaf tok => if tok.shape = .word then typeIdentifier tok else other t
  | .node _ _ => other t

/-- A type behind annotations; `t` is the tree with which the type begins. -/
def annotated (annotations : List Tree) (t : Tree) (type : TypeNode) : TypeNode :=
  match annotations with
  | [] => type
  | a :: as =>
    node .annotatedType
      (other a :: as.flatMap (fun b => behindComments b (other b)) ++ behindComments t type)

end TypeNode

/-- The node of a type that was read as a row. -/
def typeNode (t : Tree) : TypeNode :=
  match t with
  | .node .type row =>
    match row.dropWhile (Tree.isNode .annotationMark) with
    | [] => .other t
    | c :: cs =>
      .annotated (row.takeWhile (Tree.isNode .annotationMark)) c (cs.foldl .grow (.start c))
  | _ => .other t

end JavaAtlas.Java
