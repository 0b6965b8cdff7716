import JavaAtlas.Proofs.Diagram.Growth
import JavaAtlas.Proofs.Diagram.Isolation
import JavaAtlas.Proofs.Source.Characters

/-!
# Edges and references

Every place in which a declaration names a type is a reference: each variable of each field
declaration, for each method its parameters and then what it returns, and the types of the
clauses.  A reference gives one edge if it is resolved to a known type, and none otherwise.
So the edges of a declaration are numbered by the places of its resolved references, in
their order, and those of a tree are the edges of its declarations one after the other.

Main definitions:

- `Reference.LeadsTo`: a reference is resolved to a known type.
- `IsNumbered`: a list belongs to places of another one, in their order.
- `declared`: the declarations of files, each with its unit.

Main results:

- Theorem `references_eq`: the references of a declaration, spelled out.
- Theorem `exists_isNumbered_filterMap`: what a partial function gives on a list.
- Theorem `edges_exact`: edges against references, in a declaration and in a tree.
-/

namespace JavaAtlas.Diagram

open Java Source Storage FileSystem
open Text.Utf8 (encode)

/-! ## Places in a list -/

/-- The members of `ys` belong to the members of `xs` at the places, one to each: the places
are all those at which a member of `xs` has a partner, in their order. -/
structure IsNumbered {α β : Type} (r : α → β → Prop) (xs : List α) (ys : List β)
    (places : List Nat) : Prop where
  increasing : places.Pairwise (· < ·)
  mem_iff : ∀ i, i ∈ places ↔ ∃ x, xs[i]? = some x ∧ ∃ y, r x y
  forall₂ : List.Forall₂ (fun i y => ∃ x, xs[i]? = some x ∧ r x y) places ys

namespace IsNumbered

variable {α β : Type} {r : α → β → Prop} {x : α} {y : β} {xs : List α} {ys : List β}
  {places : List Nat}

theorem nil : IsNumbered r ([] : List α) ([] : List β) [] :=
  ⟨.nil, by simp, .nil⟩

private theorem pairwise_shifted (h : places.Pairwise (· < ·)) :
    (places.map (· + 1)).Pairwise (· < ·) := by
  rw [List.pairwise_map]
  exact h.imp Nat.succ_lt_succ

private theorem forall₂_shifted (h : IsNumbered r xs ys places) :
    List.Forall₂ (fun i y => ∃ z, (x :: xs)[i]? = some z ∧ r z y) (places.map (· + 1)) ys := by
  rw [List.forall₂_map_left_iff]
  refine h.forall₂.imp fun i y => ?_
  rintro ⟨z, hz, hr⟩
  exact ⟨z, by rwa [List.getElem?_cons_succ], hr⟩

/-- A member in front that has no partner moves the places on. -/
theorem cons_none (h : IsNumbered r xs ys places) (hx : ∀ y, ¬ r x y) :
    IsNumbered r (x :: xs) ys (places.map (· + 1)) := by
  refine ⟨pairwise_shifted h.increasing, ?_, forall₂_shifted h⟩
  intro i
  cases i with
  | zero => simp [hx]
  | succ i => simp [h.mem_iff]

/-- A member in front that has a partner adds the first place. -/
theorem cons_some (h : IsNumbered r xs ys places) (hx : r x y) :
    IsNumbered r (x :: xs) (y :: ys) (0 :: places.map (· + 1)) := by
  refine ⟨?_, ?_, ?_⟩
  · refine List.pairwise_cons.mpr ⟨?_, pairwise_shifted h.increasing⟩
    intro i hi
    obtain ⟨j, -, rfl⟩ := List.mem_map.mp hi
    exact Nat.succ_pos j
  · intro i
    cases i with
    | zero => simpa using ⟨y, hx⟩
    | succ i => simp [h.mem_iff]
  · exact .cons ⟨x, rfl, hx⟩ (forall₂_shifted h)

end IsNumbered

/-- What a partial function gives on a list belongs to the places where it is defined. -/
theorem exists_isNumbered_filterMap {α β : Type} (f : α → Option β) (xs : List α) :
    ∃ places, IsNumbered (fun x y => f x = some y) xs (xs.filterMap f) places := by
  induction xs with
  | nil => exact ⟨[], .nil⟩
  | cons x xs ih =>
      obtain ⟨places, hplaces⟩ := ih
      cases hx : f x with
      | none =>
          rw [List.filterMap_cons_none hx]
          exact ⟨_, hplaces.cons_none (by simp [hx])⟩
      | some y =>
          rw [List.filterMap_cons_some hx]
          exact ⟨_, hplaces.cons_some hx⟩

/-! ## Edges of a declaration -/

/-- The references of a declaration: every variable of every field declaration, then for
every method its parameters and what it returns, then the types of the clauses. -/
theorem references_eq (d : Declaration) :
    references d =
      (d.fieldDeclarations.flatMap fun group =>
        group.map fun f => ⟨.association, f.type, some f.name⟩) ++
      (d.methods.flatMap fun m =>
        (m.parameters.map fun p => ⟨.dependency, p.type, none⟩) ++
          [⟨.dependency, m.returnType, none⟩]) ++
      (d.extends.map fun t => ⟨.inheritance, t, none⟩) ++
      (d.implements.map fun t => ⟨.realization, t, none⟩) := by
  rw [references, Declaration.fields, List.map_flatten, ← List.flatMap_def]
  rfl

/-- In a unit the reference has a name to look up, and that is resolved to a known type. -/
def Reference.LeadsTo (u : CompilationUnit) (known : Registry) (r : Reference)
    (target : String) : Prop :=
  ∃ name, r.type.simpleName = some name ∧ name ≠ "" ∧
    resolve name u.package u.imports known = target ∧ target ∈ known

/-- A reference gives the edge to the known type to which it leads. -/
theorem edgeOf?_eq_some_iff {u : CompilationUnit} {known : Registry} {source : String}
    {r : Reference} {e : Edge} :
    edgeOf? (scopeOf known u) source r = some e ↔
      ∃ target, r.LeadsTo u known target ∧ e = ⟨source, target, r.kind, r.label⟩ := by
  rw [edgeOf?, Option.map_eq_some_iff]
  refine exists_congr fun target => and_congr Scope.target?_eq_some_iff ?_
  exact eq_comm

/-- Only associations have a label. -/
theorem label_of_kind_ne {scope : Scope} {d : Declaration} {e : Edge}
    (h : e ∈ edgesOf scope d) (hkind : e.kind ≠ .association) : e.label = none := by
  obtain ⟨r, hr, hedge⟩ := exists_of_mem_edgesOf h
  obtain ⟨target, -, rfl⟩ := Option.map_eq_some_iff.mp hedge
  simp only [references, methodReferences, List.mem_append, List.mem_map, List.mem_flatMap,
    List.mem_singleton] at hr
  rcases hr with ((⟨f, -, rfl⟩ | ⟨m, -, ⟨p, -, rfl⟩ | rfl⟩) | ⟨t, -, rfl⟩) | ⟨t, -, rfl⟩
  · exact absurd rfl hkind
  all_goals rfl

/-! ## Edges of a tree -/

/-- The declarations that files contribute, each with the unit in which it stands. -/
def declared (reader : Reader) (files : List Path) : List (CompilationUnit × Declaration) :=
  (unitsOf reader files).flatMap fun u => u.declarations.map fun d => (u, d)

section Trees

variable {reader : Reader} {known : Registry} {files : List Path}

theorem declarations_extract_declared :
    (extract reader known files).declarations = (declared reader files).map Prod.snd := by
  rw [declarations_extract_units, declared, List.map_flatMap]
  simp only [List.map_map, Function.comp_def, List.map_id']

theorem edges_extract_declared :
    (extract reader known files).edges =
      (declared reader files).flatMap fun x => edgesOf (scopeOf known x.1) x.2 := by
  rw [edges_extract_units, declared, List.flatMap_assoc]
  simp only [List.flatMap_map]

end Trees

/-- In the block of a declaration stands the first variable of each field declaration. -/
theorem block_eq (d : Declaration) :
    PlantUml.block d =
      PlantUml.header d ::
        (d.fieldDeclarations.filterMap List.head?).map
          (fun f => PlantUml.inside (PlantUml.fieldLine f)) ++
        (d.methods.map fun m => PlantUml.inside (PlantUml.methodLine m)) ++ ["\x7d"] := by
  rw [List.map_filterMap]
  rfl

/-- Edges are exact.  The edges of a declaration belong to those of its references that lead
to a known type, one to each and in their order: each variable of each field declaration as
an association with the name of the variable as label, for each method its parameters and
then what it returns as dependencies, the extended types as inheritance and the implemented
ones as realization.  No other edge has a label.  Source files always have a document.  Its
edges are those of its declarations, one declaration after the other, though the block of a
declaration lists only the first variable of a field declaration. -/
theorem edges_exact :
    (∀ (u : CompilationUnit) (known : Registry) (d : Declaration),
      (references d =
        (d.fieldDeclarations.flatMap fun group =>
          group.map fun f => ⟨.association, f.type, some f.name⟩) ++
        (d.methods.flatMap fun m =>
          (m.parameters.map fun p => ⟨.dependency, p.type, none⟩) ++
            [⟨.dependency, m.returnType, none⟩]) ++
        (d.extends.map fun t => ⟨.inheritance, t, none⟩) ++
        (d.implements.map fun t => ⟨.realization, t, none⟩)) ∧
      (∃ places, IsNumbered
        (fun r e => ∃ target, r.LeadsTo u known target ∧
          e = ⟨d.qualifiedName, target, r.kind, r.label⟩)
        (references d) (edgesOf (scopeOf known u) d) places) ∧
      ∀ e ∈ edgesOf (scopeOf known u) d, e.kind ≠ .association → e.label = none) ∧
    ∀ (fs : FileSystem) (hindrances : Hindrances) (known : Registry) (files : List Path),
      let reader := hinderedReader fs hindrances
      ∃ document, document? reader known files = some document ∧
        document.declarations = (declared reader files).map Prod.snd ∧
        document.edges = ((declared reader files).flatMap fun x =>
          edgesOf (scopeOf known x.1) x.2) ∧
        ∀ d ∈ document.declarations, PlantUml.blockLines? d =
          some (PlantUml.header d ::
            (d.fieldDeclarations.filterMap List.head?).map
              (fun f => PlantUml.inside (PlantUml.fieldLine f)) ++
            (d.methods.map fun m => PlantUml.inside (PlantUml.methodLine m)) ++ ["\x7d"]) := by
  refine ⟨fun u known d => ⟨references_eq d, ?_, fun e he => label_of_kind_ne he⟩, ?_⟩
  · obtain ⟨places, hplaces⟩ :=
      exists_isNumbered_filterMap (edgeOf? (scopeOf known u) d.qualifiedName) (references d)
    simp only [edgeOf?_eq_some_iff, ← edgesOf_eq] at hplaces
    exact ⟨places, hplaces⟩
  · intro fs hindrances known files reader
    have hcomplete : ReadsCompletely reader := readsCompletely_hinderedReader fs hindrances
    refine ⟨_, hcomplete.document?_eq_some known files, declarations_extract_declared,
      edges_extract_declared, ?_⟩
    intro d hd
    rw [PlantUml.blockLines?_eq_some (hcomplete.isWritable d hd), block_eq]

/-! ## A class that names types in every place -/

/-- A class whose fields, methods and clauses name known types and others. -/
def everyPlace : FileSystem where
  entries :=
    [(["A.java"], .file (encode ("package p; class A extends B implements I, Runnable \x7b " ++
      "B b, c; int n; B f(B x, String s) \x7b return x; \x7d void g(I i, B... y) \x7b\x7d \x7d"))
      420),
      (["B.java"], .file (encode "package p; class B \x7b\x7d interface I \x7b\x7d") 420)]
  workingDirectory := []

set_option maxRecDepth 4096 in
/-- Both variables of one field declaration give an edge, and so do the same types named
again; the unknown ones give none, and no other edge than that of a field has a label. -/
theorem edges_exact_everyPlace :
    let reader := hinderedReader everyPlace {}
    let files := [pathOf ["A.java"], pathOf ["B.java"]]
    let known := registryOf reader files
    (∃ document, document? reader known files = some document ∧
      document.declarations.map Declaration.qualifiedName = ["p.A", "p.B", "p.I"] ∧
      document.edges =
        [⟨"p.A", "p.B", .association, some "b"⟩, ⟨"p.A", "p.B", .association, some "c"⟩,
          ⟨"p.A", "p.B", .dependency, none⟩, ⟨"p.A", "p.B", .dependency, none⟩,
          ⟨"p.A", "p.I", .dependency, none⟩, ⟨"p.A", "p.B", .dependency, none⟩,
          ⟨"p.A", "p.B", .inheritance, none⟩, ⟨"p.A", "p.I", .realization, none⟩]) ∧
      ∀ x ∈ declared reader files,
        (∃ places, IsNumbered
          (fun r e => ∃ target, r.LeadsTo x.1 known target ∧
            e = ⟨x.2.qualifiedName, target, r.kind, r.label⟩)
          (references x.2) (edgesOf (scopeOf known x.1) x.2) places) ∧
        ∀ e ∈ edgesOf (scopeOf known x.1) x.2, e.kind ≠ .association → e.label = none := by
  intro reader files known
  refine ⟨?_, fun x _ => (edges_exact.1 x.1 known x.2).2⟩
  obtain ⟨document, hdocument, hdeclarations, hedges, -⟩ :=
    edges_exact.2 everyPlace {} known files
  have hsecond : HoldsTexts everyPlace [(pathOf ["B.java"], _)] := .cons rfl rfl (by decide) .nil
  have htexts : HoldsTexts everyPlace ((pathOf ["A.java"], _) :: _) :=
    .cons rfl (append_eq_ofList rfl rfl) (by decide) hsecond
  have hextract : extract reader known files = extract (charactersReader _) known files :=
    extract_congr htexts.hinderedReader_eq
  have hknown : known = registryOf (charactersReader _) files :=
    registryOf_congr htexts.hinderedReader_eq
  refine ⟨document, hdocument, ?_⟩
  rw [hdeclarations, hedges, ← declarations_extract_declared, ← edges_extract_declared, hextract,
    hknown]
  decide +kernel

end JavaAtlas.Diagram
