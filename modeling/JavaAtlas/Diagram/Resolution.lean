import JavaAtlas.Java.Declaration
import JavaAtlas.Diagram.Registry

/-!
# Resolution of type names

A simple name in a file stands for a type of the tree.  An import of that name
from the package of the file comes first, then a type of the same package, and
last the bare name.

Main definitions:

- `resolve`: the qualified name that a simple name stands for.
- `Scope.target?`: the known type that a reference names, if there is one.
-/

namespace JavaAtlas.Diagram

open Java

/-- The import brings exactly the name from the package. -/
def brings (package name : String) (i : Import) : Bool :=
  !i.isAsterisk && i.identifier == name && i.qualifier == some package

/-- The qualified name that a simple name stands for. -/
def resolve (name package : String) (imports : List Import) (known : Registry) : String :=
  match imports.find? (brings package name) with
  | some i => i.name
  | none => if qualified package name ∈ known then qualified package name else name

/-- What decides the meaning of the names in a file. -/
structure Scope where
  package : String
  imports : List Import
  known : Registry
  deriving Repr

/-- The known type that a reference names. -/
def Scope.target? (s : Scope) (type : TypeUse) : Option String :=
  match type.simpleName with
  | none => none
  | some name =>
    if name = "" then none
    else
      let resolved := resolve name s.package s.imports s.known
      if resolved ∈ s.known then some resolved else none

end JavaAtlas.Diagram
