import JavaAtlas.Proofs.Diagram.Layout
import JavaAtlas.Proofs.Diagram.Validation

/-!
# What an extract holds

The registry and the extract of a source tree are made in separate passes over
its files.  Both see the same units, so membership in either is described by the
units that files contribute.  A unit that is contributed comes from a text that
was read completely.

Main results:

- Theorem `mem_registryOf`: the registry knows the names that units declare.
- Theorem `mem_declarations_extract`, theorem `mem_edges_extract`: the extract
  has the declarations of the units and their edges.
- Theorem `target_mem_of_mem_edgesOf`: an edge leads to a known type.
- Theorem `readsCompletely_hinderedReader`: whatever keeps files from being read, a
  contributed unit has the declarations of a parsed text.
- Theorem `ReadsCompletely.diagramBelow_eq_ok`: the source files below a location have a
  diagram, which is their extract with its layout as text.
-/

namespace JavaAtlas.Diagram

open Java Source Storage

/-! ## Edges of a declaration -/

/-- Whatever a reference is resolved to is a known type. -/
theorem Scope.target?_mem {s : Scope} {type : TypeUse} {name : String}
    (h : s.target? type = some name) : name ∈ s.known := by
  unfold Scope.target? at h
  split at h
  · cases h
  · split at h
    · cases h
    · dsimp only at h
      split at h
      case isTrue hknown =>
        cases h
        exact hknown
      case isFalse => cases h

theorem source_of_mem_edgesOf {scope : Scope} {d : Declaration} {e : Edge}
    (h : e ∈ edgesOf scope d) : e.source = d.qualifiedName := by
  obtain ⟨r, -, hr⟩ := exists_of_mem_edgesOf h
  obtain ⟨target, -, rfl⟩ := Option.map_eq_some_iff.mp hr
  rfl

theorem target_mem_of_mem_edgesOf {scope : Scope} {d : Declaration} {e : Edge}
    (h : e ∈ edgesOf scope d) : e.target ∈ scope.known := by
  obtain ⟨r, -, hr⟩ := exists_of_mem_edgesOf h
  obtain ⟨target, htarget, rfl⟩ := Option.map_eq_some_iff.mp hr
  exact Scope.target?_mem htarget

/-- Only fields give a label, which is their name. -/
theorem label_of_mem_references {d : Declaration} {r : Reference} {label : String}
    (h : r ∈ references d) (hlabel : r.label = some label) : ∃ f ∈ d.fields, f.name = label := by
  simp only [references, methodReferences, List.mem_append, List.mem_map, List.mem_flatMap,
    List.mem_singleton] at h
  rcases h with ((⟨f, hf, rfl⟩ | ⟨m, -, ⟨p, -, rfl⟩ | rfl⟩) | ⟨t, -, rfl⟩) | ⟨t, -, rfl⟩
  · exact ⟨f, hf, Option.some.inj hlabel⟩
  all_goals cases hlabel

theorem label_of_mem_edgesOf {scope : Scope} {d : Declaration} {e : Edge} {label : String}
    (h : e ∈ edgesOf scope d) (hlabel : e.label = some label) :
    ∃ f ∈ d.fields, f.name = label := by
  obtain ⟨r, hmem, hr⟩ := exists_of_mem_edgesOf h
  obtain ⟨target, -, rfl⟩ := Option.map_eq_some_iff.mp hr
  exact label_of_mem_references hmem hlabel

/-! ## Passes over files -/

section Passes

variable {reader : Reader} {known : Registry} {files : List Path}

/-- The registry knows exactly the names that the units of the files declare. -/
theorem mem_registryOf {name : String} :
    name ∈ registryOf reader files ↔
      ∃ p ∈ files, ∃ u, contribution reader p = .ok u ∧
        ∃ d ∈ u.declarations, d.qualifiedName = name := by
  simp only [registryOf, Registry.mem_ofList, List.mem_flatMap]
  refine exists_congr fun p => and_congr_right fun _ => ?_
  unfold declaredNames
  cases contribution reader p with
  | ok u => simp
  | error w => simp

/-- A part of the extract of files stands in the order of the files. -/
private theorem part_extract {α : Type} {part : Extract → List α}
    (hempty : part Extract.empty = []) (happend : ∀ a b, part (a ++ b) = part a ++ part b) :
    part (extract reader known files) =
      files.flatMap fun p => part (extractOfFile reader known p) := by
  unfold extract
  induction files with
  | nil => exact hempty
  | cons p files ih => rw [List.map_cons, List.foldr_cons, happend, ih, List.flatMap_cons]

/-- A part of the extract of files comes from the units that they contribute, if
files that are left out have none of it. -/
private theorem mem_part_extract {α : Type} {part : Extract → List α} {x : α}
    (hempty : part Extract.empty = []) (happend : ∀ a b, part (a ++ b) = part a ++ part b)
    (homitted : ∀ w, part ⟨[], [], [w]⟩ = []) :
    x ∈ part (extract reader known files) ↔
      ∃ p ∈ files, ∃ u, contribution reader p = .ok u ∧ x ∈ part (extractOfUnit known u) := by
  rw [part_extract hempty happend, List.mem_flatMap]
  refine exists_congr fun p => and_congr_right fun _ => ?_
  unfold extractOfFile
  cases contribution reader p with
  | ok u => simp
  | error w => simp [homitted]

/-- The declarations of an extract stand in the order of the files. -/
theorem declarations_extract : (extract reader known files).declarations =
    files.flatMap fun p => (extractOfFile reader known p).declarations :=
  part_extract rfl fun _ _ => rfl

/-- The edges of an extract stand in the order of the files. -/
theorem edges_extract : (extract reader known files).edges =
    files.flatMap fun p => (extractOfFile reader known p).edges :=
  part_extract rfl fun _ _ => rfl

/-- The warnings of an extract stand in the order of the files. -/
theorem warnings_extract : (extract reader known files).warnings =
    files.flatMap fun p => (extractOfFile reader known p).warnings :=
  part_extract rfl fun _ _ => rfl

/-- The extract has exactly the declarations of the units of the files. -/
theorem mem_declarations_extract {d : Declaration} :
    d ∈ (extract reader known files).declarations ↔
      ∃ p ∈ files, ∃ u, contribution reader p = .ok u ∧ d ∈ u.declarations :=
  mem_part_extract rfl (fun _ _ => rfl) fun _ => rfl

/-- The extract has exactly the edges of those declarations. -/
theorem mem_edges_extract {e : Edge} :
    e ∈ (extract reader known files).edges ↔
      ∃ p ∈ files, ∃ u, contribution reader p = .ok u ∧
        ∃ d ∈ u.declarations, e ∈ edgesOf (scopeOf known u) d := by
  rw [mem_part_extract rfl (fun _ _ => rfl) fun _ => rfl]
  simp only [extractOfUnit, List.mem_flatMap]

/-- Every edge of an extract begins at one of its declarations. -/
theorem exists_source_of_mem_edges_extract {e : Edge}
    (h : e ∈ (extract reader known files).edges) :
    ∃ d ∈ (extract reader known files).declarations, d.qualifiedName = e.source := by
  obtain ⟨p, hp, u, hu, d, hd, he⟩ := mem_edges_extract.mp h
  exact ⟨d, mem_declarations_extract.mpr ⟨p, hp, u, hu, hd⟩, (source_of_mem_edgesOf he).symm⟩

/-- Every edge of an extract leads to a known type. -/
theorem target_mem_of_mem_edges_extract {e : Edge}
    (h : e ∈ (extract reader known files).edges) : e.target ∈ known := by
  obtain ⟨p, hp, u, hu, d, hd, he⟩ := mem_edges_extract.mp h
  exact target_mem_of_mem_edgesOf he

/-- The registry of files knows what their extract declares, whatever the names of
the extract were resolved against. -/
theorem mem_registryOf_iff_declared {name : String} :
    name ∈ registryOf reader files ↔
      ∃ d ∈ (extract reader known files).declarations, d.qualifiedName = name := by
  rw [mem_registryOf]
  constructor
  · rintro ⟨p, hp, u, hu, d, hd, hname⟩
    exact ⟨d, mem_declarations_extract.mpr ⟨p, hp, u, hu, hd⟩, hname⟩
  · rintro ⟨d, hd, hname⟩
    obtain ⟨p, hp, u, hu, hd⟩ := mem_declarations_extract.mp hd
    exact ⟨p, hp, u, hu, d, hd, hname⟩

end Passes

/-! ## Units of texts -/

/-- The declarations of the unit are those of a text that was read completely. -/
def IsReadUnit (u : CompilationUnit) : Prop :=
  ∃ source root, read source = .ok root ∧ u.declarations = declarations u.package root

/-- A unit of a text that is left valid was read completely. -/
theorem isReadUnit_ofText {language : Language} {path text : String}
    (h : (CompilationUnit.ofText language path text).isValid = true) :
    IsReadUnit (CompilationUnit.ofText language path text) := by
  unfold CompilationUnit.ofText at h ⊢
  dsimp only at h ⊢
  split at h
  case h_1 root hread =>
    exact ⟨text, root, hread, rfl⟩
  case h_2 => cases h

theorem isReadUnit_unitOfFile {fs : FileSystem} {language : Language} {root : String}
    {path : Path} (h : (unitOfFile fs language root path).isValid = true) :
    IsReadUnit (unitOfFile fs language root path) := by
  unfold unitOfFile at h ⊢
  dsimp only at h ⊢
  split at h
  case h_1 => cases h
  case h_2 => exact isReadUnit_ofText h

/-- Whatever a file contributes through the reader was read completely. -/
def ReadsCompletely (reader : Reader) : Prop :=
  ∀ p u, contribution reader p = .ok u → IsReadUnit u

theorem readsCompletely_frailReader (fs : FileSystem) (breakdowns : Breakdowns) :
    ReadsCompletely (frailReader fs breakdowns) := by
  intro p u h
  unfold contribution frailReader plainReader at h
  split at h
  case h_1 => cases h
  case h_2 u' hu =>
    split at hu
    · cases hu
    · cases hu
      split at h
      case isTrue hvalid =>
        cases h
        exact isReadUnit_unitOfFile hvalid
      case isFalse => cases h

/-- A file that refuses to be opened contributes nothing. -/
theorem contribution_of_refused (fs : FileSystem) {h : Hindrances} {p : Path} {e : FileError}
    (hrefused : h.refused p = some e) :
    ∃ omission, contribution (hinderedReader fs h) p = .error ⟨p, omission⟩ := by
  simp only [contribution, hinderedReader, hrefused]
  cases h.breakdowns p (.error ⟨e, p.text⟩) with
  | some text => exact ⟨.breakdown text, rfl⟩
  | none => exact ⟨.problems [.unreadable (FileFault.mk e p.text).message], rfl⟩

theorem readsCompletely_hinderedReader (fs : FileSystem) (h : Hindrances) :
    ReadsCompletely (hinderedReader fs h) := by
  intro p u hu
  cases hrefused : h.refused p with
  | some e =>
      obtain ⟨omission, homitted⟩ := contribution_of_refused fs hrefused
      cases homitted.symm.trans hu
  | none =>
      have hsame : hinderedReader fs h p = frailReader fs h.breakdowns p := by
        rw [hinderedReader, hrefused]
      refine readsCompletely_frailReader fs h.breakdowns p u ?_
      rwa [contribution, ← hsame]

theorem readsCompletely_plainReader (fs : FileSystem) : ReadsCompletely (plainReader fs) :=
  hinderedReader_none fs ▸ readsCompletely_hinderedReader fs {}

theorem IsReadUnit.spelled {u : CompilationUnit} (h : IsReadUnit u) :
    ∀ d ∈ u.declarations, d.Spelled u.package := by
  obtain ⟨source, root, hread, hdecls⟩ := h
  rw [hdecls]
  exact spelled_of_mem_declarations hread

theorem IsReadUnit.unbroken {u : CompilationUnit} (h : IsReadUnit u) :
    ∀ d ∈ u.declarations, d.Unbroken u.package :=
  fun d hd => (h.spelled d hd).unbroken

theorem IsReadUnit.isWritable {u : CompilationUnit} (h : IsReadUnit u) :
    ∀ d ∈ u.declarations, PlantUml.IsWritable d := by
  obtain ⟨source, root, hread, hdecls⟩ := h
  rw [hdecls]
  exact ne_nil_of_mem_fieldDeclarations

namespace ReadsCompletely

variable {reader : Reader} {known : Registry} {files : List Path}

/-- Every declaration of an extract can be written. -/
theorem isWritable (h : ReadsCompletely reader) :
    ∀ d ∈ (extract reader known files).declarations, PlantUml.IsWritable d := by
  intro d hd
  obtain ⟨p, -, u, hu, hd⟩ := mem_declarations_extract.mp hd
  exact (h p u hu).isWritable d hd

/-- Every declaration of an extract is unbroken in the package of its unit. -/
theorem exists_unbroken (h : ReadsCompletely reader) {d : Declaration}
    (hd : d ∈ (extract reader known files).declarations) :
    ∃ p ∈ files, ∃ u, contribution reader p = .ok u ∧ d ∈ u.declarations ∧
      d.Unbroken u.package := by
  obtain ⟨p, hp, u, hu, hd⟩ := mem_declarations_extract.mp hd
  exact ⟨p, hp, u, hu, hd, (h p u hu).unbroken d hd⟩

/-- No label of an extract holds a line end. -/
theorem breaks_label (h : ReadsCompletely reader) {e : Edge} {label : String}
    (he : e ∈ (extract reader known files).edges) (hlabel : e.label = some label) :
    Text.breaks label = 0 := by
  obtain ⟨p, -, u, hu, d, hd, he⟩ := mem_edges_extract.mp he
  obtain ⟨f, hf, rfl⟩ := label_of_mem_edgesOf he hlabel
  exact (((h p u hu).unbroken d hd).fields f hf).name

end ReadsCompletely

/-! ## Documents -/

/-- The extract of the source files below a location against their own registry. -/
def extractBelow (fs : FileSystem) (reader : Reader) (s : Config.DiagramSettings)
    (l : Location) : Extract :=
  extract reader (registryBelow fs reader s l) (requestedFiles fs s l)

namespace ReadsCompletely

variable {reader : Reader}

/-- Files always have a diagram: their extract, with its layout as text. -/
theorem document?_eq_some (h : ReadsCompletely reader) (known : Registry) (files : List Path) :
    let e := extract reader known files
    document? reader known files =
      some ⟨e, Text.ended (PlantUml.layout e.declarations e.edges)⟩ := by
  intro e
  simp [document?, e, PlantUml.write?_eq_some h.isWritable]

/-- The source files below a location have a diagram: their extract, with its layout
as text. -/
theorem diagramBelow_eq_ok (h : ReadsCompletely reader) (fs : FileSystem)
    (s : Config.DiagramSettings) (l : Location) :
    let e := extractBelow fs reader s l
    diagramBelow fs reader s l =
      .ok ⟨e, Text.ended (PlantUml.layout e.declarations e.edges)⟩ := by
  intro e
  simp only [diagramBelow, h.document?_eq_some]
  rfl

end ReadsCompletely

end JavaAtlas.Diagram
