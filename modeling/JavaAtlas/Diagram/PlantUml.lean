import JavaAtlas.Java.Declaration
import JavaAtlas.Diagram.Edge

/-!
# Class diagrams as PlantUML text

A diagram is written line by line: a marker, one block for every declaration,
one line for every edge and a closing marker.  A field declaration of several
variables is listed by its first one.  Inheritance and realization share one
arrow.

Main definitions:

- `lines?`: the lines of a diagram.
- `write?`: its text.
-/

namespace JavaAtlas.Diagram.PlantUml

open Java

/-- The sign of a visibility. -/
def sign : Visibility → String
  | .public => "+"
  | .private => "-"
  | .protected => "#"
  | .package => "~"

/-- The arrow of an edge. -/
def arrow : EdgeKind → String
  | .association => "-->"
  | .dependency => "..>"
  | .inheritance => "<|.."
  | .realization => "<|.."

/-- The line of a variable. -/
def fieldLine (f : Field) : String :=
  s!"{sign f.visibility} {f.name} : {f.type.text}"

/-- A parameter in the list of a method. -/
def parameterText (p : Parameter) : String :=
  s!"{p.name}: {p.type.text}"

/-- The line of a method. -/
def methodLine (m : Method) : String :=
  let parameters := ", ".intercalate (m.parameters.map parameterText)
  s!"{sign m.visibility} {m.name}({parameters}) : {m.returnType.text}"

/-- The label behind an edge: only associations that have a name carry one. -/
def labelText (e : Edge) : String :=
  match e.kind, e.label with
  | .association, some label => if label = "" then "" else " : " ++ label
  | _, _ => ""

/-- The line of an edge. -/
def edgeLine (e : Edge) : String :=
  s!"{e.source} {arrow e.kind} {e.target}" ++ labelText e

/-- The first line of a block. -/
def header (d : Declaration) : String :=
  d.kind.keyword ++ " " ++ d.qualifiedName ++ " \x7b"

/-- A line inside a block. -/
def inside (line : String) : String :=
  "  " ++ line

/-- The line of a field declaration; one without variables has none. -/
def fieldDeclarationLine? (g : FieldDeclaration) : Option String :=
  g.head?.map fun f => inside (fieldLine f)

/-- The block of a declaration, unless a field declaration is empty. -/
def blockLines? (d : Declaration) : Option (List String) := do
  let fields ← d.fieldDeclarations.mapM fieldDeclarationLine?
  return header d :: fields ++ (d.methods.map fun m => inside (methodLine m)) ++ ["\x7d"]

/-- The first line of a diagram. -/
def startMarker : String := "@startuml"

/-- The last line of a diagram. -/
def endMarker : String := "@enduml"

/-- The lines of a diagram, unless a field declaration is empty. -/
def lines? (declarations : List Declaration) (edges : List Edge) : Option (List String) := do
  let blocks ← declarations.mapM blockLines?
  return startMarker :: blocks.flatten ++ edges.map edgeLine ++ [endMarker]

/-- The text of a diagram, each line with its end. -/
def write? (declarations : List Declaration) (edges : List Edge) : Option String :=
  (lines? declarations edges).map fun ls => String.join (ls.map (· ++ "\n"))

end JavaAtlas.Diagram.PlantUml
