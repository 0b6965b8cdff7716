import JavaAtlas.Diagram.Resolution

/-!
# Edges

The relationships of a declaration to the known types.  Fields give
associations, parameters and return types give dependencies, and the clauses
give inheritance and realization.  A reference that names no known type gives
no edge.

Main definitions:

- `edgesOf`: the edges of a declaration.
- `references`: all references of a declaration, in the order of its edges.

Main results:

- Theorem `edgesOf_eq`: the edges are those of the references that name known types.
-/

namespace JavaAtlas.Diagram

open Java

/-- Kind of a relationship. -/
inductive EdgeKind where
  | association
  | dependency
  | inheritance
  | realization
  deriving DecidableEq, Repr, Inhabited

namespace EdgeKind

/-- The word for the kind. -/
def word : EdgeKind → String
  | association => "association"
  | dependency => "dependency"
  | inheritance => "inheritance"
  | realization => "realization"

/-- The kind with the word. -/
def ofWord? : String → Option EdgeKind
  | "association" => some association
  | "dependency" => some dependency
  | "inheritance" => some inheritance
  | "realization" => some realization
  | _ => none

end EdgeKind

/-- A relationship of one type to another. -/
structure Edge where
  source : String
  target : String
  kind : EdgeKind
  label : Option String
  deriving DecidableEq, Repr, Inhabited

/-! ## Edges of a declaration -/

/-- Puts the edge to a type behind the others, if the type is known. -/
def withEdge (scope : Scope) (source : String) (kind : EdgeKind) (label : Option String)
    (edges : List Edge) (type : TypeUse) : List Edge :=
  match scope.target? type with
  | some target => edges ++ [⟨source, target, kind, label⟩]
  | none => edges

/-- Puts the edges of a method behind the others: its parameters, then what it returns. -/
def withMethodEdges (scope : Scope) (source : String) (edges : List Edge) (m : Method) :
    List Edge :=
  let edges := m.parameters.foldl
    (fun edges p => withEdge scope source .dependency none edges p.type) edges
  withEdge scope source .dependency none edges m.returnType

/-- The edges of a declaration: fields, methods, then the clauses. -/
def edgesOf (scope : Scope) (d : Declaration) : List Edge :=
  let source := d.qualifiedName
  let edges := d.fields.foldl
    (fun edges f => withEdge scope source .association (some f.name) edges f.type) []
  let edges := d.methods.foldl (withMethodEdges scope source) edges
  let edges := d.extends.foldl (withEdge scope source .inheritance none) edges
  d.implements.foldl (withEdge scope source .realization none) edges

/-! ## References -/

/-- A place where a declaration names a type. -/
structure Reference where
  kind : EdgeKind
  type : TypeUse
  label : Option String
  deriving DecidableEq, Repr, Inhabited

/-- The references of a method: its parameters, then what it returns. -/
def methodReferences (m : Method) : List Reference :=
  (m.parameters.map fun p => ⟨.dependency, p.type, none⟩) ++ [⟨.dependency, m.returnType, none⟩]

/-- All references of a declaration: fields, methods, then the clauses. -/
def references (d : Declaration) : List Reference :=
  (d.fields.map fun f => ⟨.association, f.type, some f.name⟩) ++
    d.methods.flatMap methodReferences ++
    (d.extends.map fun t => ⟨.inheritance, t, none⟩) ++
    d.implements.map fun t => ⟨.realization, t, none⟩

/-- The edge of a reference that names a known type. -/
def edgeOf? (scope : Scope) (source : String) (r : Reference) : Option Edge :=
  (scope.target? r.type).map fun target => ⟨source, target, r.kind, r.label⟩

theorem withEdge_eq (scope : Scope) (source : String) (edges : List Edge) (r : Reference) :
    withEdge scope source r.kind r.label edges r.type =
      edges ++ (edgeOf? scope source r).toList := by
  unfold withEdge edgeOf?
  cases scope.target? r.type <;> simp

/-- Going through references gives the edges of those that name known types. -/
theorem foldl_withEdge (scope : Scope) (source : String) (rs : List Reference)
    (edges : List Edge) :
    rs.foldl (fun edges r => withEdge scope source r.kind r.label edges r.type) edges =
      edges ++ rs.filterMap (edgeOf? scope source) := by
  induction rs generalizing edges with
  | nil => simp
  | cons r rs ih =>
      rw [List.foldl_cons, ih, withEdge_eq, List.filterMap_cons]
      cases edgeOf? scope source r <;> simp

/-- The edges are those of the references that name known types, in their order. -/
theorem edgesOf_eq (scope : Scope) (d : Declaration) :
    edgesOf scope d = (references d).filterMap (edgeOf? scope d.qualifiedName) := by
  rw [← List.nil_append (List.filterMap _ _), ← foldl_withEdge]
  simp only [references, methodReferences, List.foldl_append, List.foldl_map, List.foldl_flatMap,
    List.foldl_cons, List.foldl_nil]
  rfl

/-- Every edge belongs to a reference. -/
theorem exists_of_mem_edgesOf {scope : Scope} {d : Declaration} {e : Edge}
    (h : e ∈ edgesOf scope d) :
    ∃ r ∈ references d, edgeOf? scope d.qualifiedName r = some e := by
  rw [edgesOf_eq] at h
  exact List.mem_filterMap.mp h

end JavaAtlas.Diagram
