import JavaAtlas.Java.Tree
import JavaAtlas.Java.TypeNode
import JavaAtlas.Java.TypeText
import JavaAtlas.Java.Declaration

/-!
# From trees to declarations

Every class and every interface of a tree yields a declaration, wherever it
stands: at the top, inside another type, in a block or in an expression.  Only
the fields and methods that stand directly in its body are its members.

Main definitions:

- `typeDeclarationNodes`: the nodes of all classes and interfaces, in the order of the source.
- `declarationOf`: the declaration of one such node.
- `packageName`, `imports`, `declarations`: what a whole tree yields.
-/

namespace JavaAtlas.Java

namespace Tree

/-- The first child that is a node of the kind. -/
def child? (t : Tree) (k : Kind) : Option Tree :=
  t.children.find? (isNode k)

/-- Spelling of the first child that is a token. -/
def firstWord? (t : Tree) : Option String :=
  t.children.findSome? fun
    | leaf tok => some tok.text
    | node _ _ => none

/-- The tree is a node of any kind. -/
def isInner : Tree → Bool
  | leaf _ => false
  | node _ _ => true

/-- The brackets right behind the first token among the children.  Brackets further back
belong to something else, such as an initial value. -/
def bracketsAfterWord? (t : Tree) : Option Tree :=
  match t.children.dropWhile isInner with
  | _ :: c :: _ => if isNode .dimensions c then some c else none
  | _ => none

/-- Spelling of the first word after the keyword among the children. -/
def wordAfter? (keyword : String) (t : Tree) : Option String :=
  match t.children.dropWhile (fun c => !isLeaf keyword c) with
  | _ :: leaf tok :: _ => some tok.text
  | _ => none

end Tree

open JavaAtlas.Java.Tree

/-! ## Types -/

/-- The name by which the type of a node is looked up. -/
def simpleName (t : Tree) : Option String :=
  (typeNode t).className

/-- The type of a node as written. -/
def typeUse (t : Tree) : TypeUse :=
  ⟨TypeText.canonical t.text, simpleName t⟩

/-- A comment where a type is listed counts as a type without name. -/
def commentUse (comment : String) : TypeUse :=
  ⟨TypeText.canonical comment, none⟩

/-- The type of a variable, with the brackets after the name of the variable. -/
def variableType (type : Tree) (brackets : Option Tree) : TypeUse :=
  match brackets with
  | some b => ⟨TypeText.canonical (type.text ++ b.text), none⟩
  | none => typeUse type

/-- Types among the parts of a clause. -/
def partUse : Part → Option TypeUse
  | .comment c => some (commentUse c)
  | .tree (.leaf _) => none
  | .tree t => some (typeUse t)

/-- The types named by a clause, in order. -/
def clauseTypes (clause : Tree) : List TypeUse :=
  clause.parts.flatMap fun p =>
    match p with
    | .tree (.node .typeList cs) => (Tree.node .typeList cs).parts.filterMap partUse
    | p => (partUse p).toList

/-! ## Members -/

/-- The visibility among the modifiers of a member; the first one counts. -/
def visibilityOf (member : Tree) : Visibility :=
  let modifiers := (member.child? .modifiers).elim [] children
  (modifiers.findSome? fun
    | leaf tok => Visibility.ofModifier? tok.text
    | node _ _ => none).getD .package

/-- The variables of a field declaration. -/
def fieldDeclarationOf (field : Tree) : FieldDeclaration :=
  match field.child? .type with
  | none => []
  | some type =>
    (field.children.filter (isNode .variableDeclarator)).filterMap fun d =>
      d.firstWord?.map fun name =>
        ⟨visibilityOf field, variableType type d.bracketsAfterWord?, name⟩

/-- The type of a parameter that takes any number of arguments: the first part
behind the modifiers. -/
def spreadType? (p : Tree) : Option TypeUse :=
  p.parts.findSome? fun
    | .comment c => some (commentUse c)
    | .tree (.leaf _) => none
    | .tree t =>
      if isNode .modifiers t || isNode .variableDeclarator t then none
      else some (typeUse t)

/-- The parameter of a node; the one that stands for the object itself is none. -/
def parameterOf? (p : Tree) : Option Parameter :=
  match p with
  | .node .formalParameter _ =>
    match p.child? .type, p.firstWord? with
    | some type, some name => some ⟨name, variableType type p.bracketsAfterWord?⟩
    | _, _ => none
  | .node .spreadParameter _ =>
    match spreadType? p, (p.child? .variableDeclarator).bind firstWord? with
    | some type, some name => some ⟨name, type⟩
    | _, _ => none
  | _ => none

/-- The method of a node. -/
def methodOf? (m : Tree) : Option Method :=
  match m.firstWord?, m.child? .type with
  | some name, some type =>
    let parameters := (m.child? .formalParameters).elim [] children
    some ⟨visibilityOf m, typeUse type, name, parameters.filterMap parameterOf?⟩
  | _, _ => none

/-- The field declarations of a body that declare a variable. -/
def fieldDeclarationsOf (body : Tree) : List FieldDeclaration :=
  ((body.children.filter (isNode .fieldDeclaration)).map fieldDeclarationOf).filter (!·.isEmpty)

/-- The methods of a body. -/
def methodsOf (body : Tree) : List Method :=
  (body.children.filter (isNode .methodDeclaration)).filterMap methodOf?

/-! ## Declarations -/

/-- The types of the clauses of one kind. -/
def clausesOf (t : Tree) (k : Kind) : List TypeUse :=
  (t.children.filter (isNode k)).flatMap clauseTypes

/-- Assembles the declaration of a node. -/
def declarationWith (package : String) (kind : TypeKind) (t : Tree) (body : Kind)
    («extends» implements : List TypeUse) : Option Declaration :=
  (t.wordAfter? kind.keyword).map fun name =>
    let members := t.child? body
    ⟨name, qualified package name, kind, members.elim [] fieldDeclarationsOf,
      members.elim [] methodsOf, «extends», implements⟩

/-- The declaration of a class or an interface. -/
def declarationOf (package : String) (t : Tree) : Option Declaration :=
  match t with
  | .node .classDeclaration _ =>
    declarationWith package .class t .classBody (clausesOf t .superclass)
      (clausesOf t .superInterfaces)
  | .node .interfaceDeclaration _ =>
    declarationWith package .interface t .interfaceBody (clausesOf t .extendsInterfaces) []
  | _ => none

/-- A node that declares a class or an interface. -/
def isTypeNode (t : Tree) : Bool :=
  t.isNode .classDeclaration || t.isNode .interfaceDeclaration

/-- Visits the trees of a stack, each before its children, and collects the
nodes that declare a type.  The number bounds the visits. -/
def visit : Nat → List Tree → List Tree
  | 0, _ => []
  | _ + 1, [] => []
  | n + 1, t :: stack =>
    let later := visit n (t.children ++ stack)
    if isTypeNode t then t :: later else later

/-- The nodes of all classes and interfaces below a root, in the order of the source. -/
def typeDeclarationNodes (root : Tree) : List Tree :=
  visit root.size root.children

/-- The package that a tree declares first, or the empty name. -/
def packageName (root : Tree) : String :=
  match root.child? .packageDeclaration with
  | some p => (p.child? .name).elim "" text
  | none => ""

/-- The import of a node. -/
def importOf (t : Tree) : Option Import :=
  (t.child? .name).map fun name =>
    ⟨name.text, t.children.any (isLeaf "static"), t.children.any (isLeaf "*")⟩

/-- The imports at the top of a tree. -/
def imports (root : Tree) : List Import :=
  (root.children.filter (isNode .importDeclaration)).filterMap importOf

/-- The declarations of a tree, in the order of the source. -/
def declarations (package : String) (root : Tree) : List Declaration :=
  (typeDeclarationNodes root).filterMap (declarationOf package)

end JavaAtlas.Java
