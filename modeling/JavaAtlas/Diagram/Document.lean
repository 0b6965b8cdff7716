import JavaAtlas.Source.Reader
import JavaAtlas.Diagram.PlantUml

/-!
# Diagrams of source trees

The files of a tree are read twice: once to learn which types it declares, and
once to collect the declarations and their edges to those types.  A file that
cannot be used is left out of both and leaves a warning.

Main definitions:

- `contribution`: what a file adds, or the warning that it leaves.
- `registryOf`: the types that files declare.
- `Extract`, `extract`: declarations, edges and warnings of files.
- `Document`, `document?`: a diagram with its text.
-/

namespace JavaAtlas.Diagram

open Java Source Storage

/-- Why a file was left out. -/
inductive Omission where
  | problems (causes : List Cause)
  /-- Reading broke down. -/
  | breakdown (text : String)
  deriving DecidableEq, Repr

/-- The reason in words. -/
def Omission.message : Omission → String
  | problems causes => "; ".intercalate (causes.map Cause.message)
  | breakdown text => text

/-- A file that was left out. -/
structure Warning where
  path : Path
  omission : Omission
  deriving DecidableEq, Repr

/-- What a file adds, or the warning that it leaves. -/
def contribution (reader : Reader) (p : Path) : Except Warning CompilationUnit :=
  match reader p with
  | .error text => .error ⟨p, .breakdown text⟩
  | .ok u =>
    if u.isValid then .ok u else .error ⟨p, .problems (u.problems.map Problem.cause)⟩

/-- The qualified names that a file declares. -/
def declaredNames (reader : Reader) (p : Path) : List String :=
  match contribution reader p with
  | .ok u => u.declarations.map Declaration.qualifiedName
  | .error _ => []

/-- The registry of all types that files declare. -/
def registryOf (reader : Reader) (files : List Path) : Registry :=
  .ofList (files.flatMap (declaredNames reader))

/-- Declarations and edges of files, and the files that were left out. -/
structure Extract where
  declarations : List Declaration
  edges : List Edge
  warnings : List Warning
  deriving DecidableEq, Repr

namespace Extract

/-- Nothing. -/
def empty : Extract := ⟨[], [], []⟩

/-- One extract behind another. -/
def append (a b : Extract) : Extract :=
  ⟨a.declarations ++ b.declarations, a.edges ++ b.edges, a.warnings ++ b.warnings⟩

instance : Append Extract := ⟨append⟩

end Extract

/-- The names in a unit mean what its package, its imports and the registry say. -/
def scopeOf (known : Registry) (u : CompilationUnit) : Scope :=
  ⟨u.package, u.imports, known⟩

/-- The extract of a unit. -/
def extractOfUnit (known : Registry) (u : CompilationUnit) : Extract :=
  ⟨u.declarations, u.declarations.flatMap (edgesOf (scopeOf known u)), []⟩

/-- The extract of a file. -/
def extractOfFile (reader : Reader) (known : Registry) (p : Path) : Extract :=
  match contribution reader p with
  | .ok u => extractOfUnit known u
  | .error w => ⟨[], [], [w]⟩

/-- The extract of files, in their order. -/
def extract (reader : Reader) (known : Registry) (files : List Path) : Extract :=
  (files.map (extractOfFile reader known)).foldr (· ++ ·) .empty

/-- A diagram: an extract with its text. -/
structure Document extends Extract where
  text : String
  deriving DecidableEq, Repr

/-- The diagram of files.  There is none if a field declaration without variables
is to be written. -/
def document? (reader : Reader) (known : Registry) (files : List Path) : Option Document :=
  let e := extract reader known files
  (PlantUml.write? e.declarations e.edges).map (Document.mk e)

end JavaAtlas.Diagram
