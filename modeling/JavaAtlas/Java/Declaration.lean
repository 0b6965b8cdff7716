/-!
# Declarations

What a reader learns from a source file about its types: classes and interfaces
with their fields, methods and clauses.  Types of members are kept as written,
together with the name by which they can be looked up.
-/

namespace JavaAtlas.Java

/-- Who may use a member, as declared by a modifier. -/
inductive Visibility where
  | «public»
  | «private»
  | «protected»
  /-- No modifier: visible in the package. -/
  | package
  deriving DecidableEq, Repr, Inhabited

/-- A class or an interface. -/
inductive TypeKind where
  | «class»
  | interface
  deriving DecidableEq, Repr, Inhabited

namespace TypeKind

/-- The keyword of the kind. -/
def keyword : TypeKind → String
  | «class» => "class"
  | interface => "interface"

/-- The kind with the keyword. -/
def ofKeyword? : String → Option TypeKind
  | "class" => some «class»
  | "interface" => some interface
  | _ => none

end TypeKind

namespace Visibility

/-- The word for the visibility. -/
def word : Visibility → String
  | «public» => "public"
  | «private» => "private"
  | «protected» => "protected"
  | package => "package"

/-- The visibility with the word. -/
def ofWord? : String → Option Visibility
  | "public" => some «public»
  | "private" => some «private»
  | "protected" => some «protected»
  | "package" => some package
  | _ => none

/-- The visibility that a modifier declares. -/
def ofModifier? (modifier : String) : Option Visibility :=
  match ofWord? modifier with
  | some .package => none
  | v => v

end Visibility

/-- A type as written in a source.  Primitive types and arrays have no simple name. -/
structure TypeUse where
  /-- Canonical spelling. -/
  text : String
  /-- Last identifier of the name of a class or an interface. -/
  simpleName : Option String
  deriving DecidableEq, Repr, Inhabited

/-- An import of one name, or of everything below it. -/
structure Import where
  name : String
  isStatic : Bool
  isAsterisk : Bool
  deriving DecidableEq, Repr, Inhabited

namespace Import

/-- Splits a name at its last dot. -/
def splitLast (name : String) : Option String × String :=
  let backwards := name.toList.reverse
  let last := backwards.takeWhile (· != '.')
  match backwards.drop last.length with
  | [] => (none, name)
  | _ :: front => (some (String.ofList front.reverse), String.ofList last.reverse)

/-- What follows the last dot of the name. -/
def identifier (i : Import) : String :=
  (splitLast i.name).2

/-- What stands before the last dot of the name. -/
def qualifier (i : Import) : Option String :=
  (splitLast i.name).1

end Import

/-- A variable of a field declaration. -/
structure Field where
  visibility : Visibility
  type : TypeUse
  name : String
  deriving DecidableEq, Repr, Inhabited

/-- One field declaration; it may declare several variables. -/
abbrev FieldDeclaration := List Field

/-- A parameter of a method. -/
structure Parameter where
  name : String
  type : TypeUse
  deriving DecidableEq, Repr, Inhabited

/-- A method of a class or an interface. -/
structure Method where
  visibility : Visibility
  returnType : TypeUse
  name : String
  parameters : List Parameter
  deriving DecidableEq, Repr, Inhabited

/-- A name behind the name of a package; the package without a name adds nothing. -/
def qualified (package name : String) : String :=
  if package = "" then name else package ++ "." ++ name

/-- A class or an interface with its members and clauses. -/
structure Declaration where
  name : String
  /-- The name behind that of the package. -/
  qualifiedName : String
  kind : TypeKind
  fieldDeclarations : List FieldDeclaration
  methods : List Method
  «extends» : List TypeUse
  implements : List TypeUse
  deriving DecidableEq, Repr, Inhabited

/-- All variables of all fields. -/
def Declaration.fields (d : Declaration) : List Field :=
  d.fieldDeclarations.flatten

end JavaAtlas.Java
