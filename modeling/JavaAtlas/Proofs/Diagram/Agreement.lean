import JavaAtlas.Proofs.Diagram.Answering

/-!
# Agreement of the two passes

The registry comes from one pass over the files and the declarations and edges
from another.  Both leave out the same files, so the registry holds exactly the
names that are declared in the document, and no edge of the document dangles,
whatever keeps files from being read.

Main results:

- Theorem `hasBlock_layout`: every declaration has a block among the lines.
- Theorem `registry_agrees_with_document`: an accepted request is answered unless its
  walk breaks off; its registry is the set of names that the answer declares, both ends
  of every edge are among them, and both have a block in the text.
-/

namespace JavaAtlas.Diagram

open Java Source Storage
open FileSystem (pathOf child_pathOf)

/-! ## Blocks -/

/-- A block for the type stands among the lines: its header as a class or as an
interface, lines set inside, and the closing brace. -/
def HasBlock (ls : List String) (name : String) : Prop :=
  ∃ (kind : TypeKind) (members : List String),
    (kind.keyword ++ " " ++ name ++ " \x7b") :: members.map PlantUml.inside ++ ["\x7d"] <:+: ls

/-- The lines between the header and the closing brace are set inside. -/
theorem exists_block_eq (d : Declaration) :
    ∃ members : List String, PlantUml.block d =
      PlantUml.header d :: members.map PlantUml.inside ++ ["\x7d"] := by
  have hfields : ∀ groups : List FieldDeclaration,
      groups.filterMap PlantUml.fieldDeclarationLine? =
        (groups.filterMap List.head?).map fun f => PlantUml.inside (PlantUml.fieldLine f) := by
    intro groups
    rw [List.map_filterMap]
    rfl
  refine ⟨(d.fieldDeclarations.filterMap List.head?).map PlantUml.fieldLine ++
    d.methods.map PlantUml.methodLine, ?_⟩
  simp [PlantUml.block, hfields, List.map_map, Function.comp_def]

/-- Every declaration has a block among the lines of a layout. -/
theorem hasBlock_layout {ds : List Declaration} {es : List Edge} {d : Declaration}
    (h : d ∈ ds) : HasBlock (PlantUml.layout ds es) d.qualifiedName := by
  obtain ⟨members, hblock⟩ := exists_block_eq d
  have hinfix : PlantUml.block d <:+: ds.flatMap PlantUml.block := by
    rw [List.flatMap_def]
    exact List.infix_of_mem_flatten (List.mem_map_of_mem h)
  refine ⟨d.kind, members, ?_⟩
  change PlantUml.header d :: _ ++ _ <:+: _
  rw [← hblock]
  refine hinfix.trans ⟨[PlantUml.startMarker], es.map PlantUml.edgeLine ++ [PlantUml.endMarker], ?_⟩
  simp [PlantUml.layout]

/-! ## Agreement -/

/-- An accepted request is answered exactly if its walk does not break off.  Its
registry holds exactly the names that the answer declares, and both ends of every edge.
So both ends of every line of an edge have a block in the text. -/
theorem registry_agrees_with_document {fs : FileSystem} (hindrances : Hindrances)
    {s : Config.DiagramSettings} {directory : String} {l : Location}
    (h : validate fs s directory = .ok l) :
    let reader := hinderedReader fs hindrances
    let known := registryBelow fs reader s l
    ((∃ d, answerWith fs reader s directory = .ok d) ↔
      walkFault? fs (pathOf l) s.sourceExtension = none) ∧
    ∀ d, answerWith fs reader s directory = .ok d →
      d.toExtract = extractBelow fs reader s l ∧
      (∀ name, name ∈ known ↔ ∃ decl ∈ d.declarations, decl.qualifiedName = name) ∧
      (∀ e ∈ d.edges, e.source ∈ known ∧ e.target ∈ known) ∧
      d.text = Text.ended (PlantUml.layout d.declarations d.edges) ∧
      ∀ e ∈ d.edges, HasBlock (PlantUml.layout d.declarations d.edges) e.source ∧
        HasBlock (PlantUml.layout d.declarations d.edges) e.target := by
  intro reader known
  have hreader : ReadsCompletely reader := readsCompletely_hinderedReader fs hindrances
  refine ⟨answered_iff hreader h, fun d hd => ?_⟩
  obtain ⟨hextract, htext⟩ := eq_of_answerWith_eq_ok hreader h hd
  have hdeclared : ∀ name, name ∈ known ↔ ∃ decl ∈ d.declarations, decl.qualifiedName = name := by
    intro name
    rw [hextract]
    exact mem_registryOf_iff_declared
  have hends : ∀ e ∈ d.edges, e.source ∈ known ∧ e.target ∈ known := by
    intro e he
    rw [hextract] at he
    exact ⟨mem_registryOf_iff_declared.mpr (exists_source_of_mem_edges_extract he),
      target_mem_of_mem_edges_extract he⟩
  have hblock : ∀ name ∈ known, HasBlock (PlantUml.layout d.declarations d.edges) name := by
    intro name hname
    obtain ⟨decl, hdecl, rfl⟩ := (hdeclared name).mp hname
    exact hasBlock_layout hdecl
  exact ⟨hextract, hdeclared, hends, htext, fun e he =>
    ⟨hblock _ (hends e he).1, hblock _ (hends e he).2⟩⟩

/-- A class with a field of a type in a later file, a file that breaks the grammar, and
one that is shut. -/
def forwardReference : FileSystem where
  entries :=
    [(["src"], .directory),
      (["src", "A.java"],
        .file (Text.Utf8.encode "class A \x7b B b; C c; Shut s; \x7d") 420),
      (["src", "C.java"], .file (Text.Utf8.encode "interface C \x7b\x7d class D \x7b") 420),
      (["src", "Shut.java"], .file (Text.Utf8.encode "class Shut \x7b\x7d") 420),
      (["src", "sub"], .directory),
      (["src", "sub", "B.java"], .file (Text.Utf8.encode "interface B \x7b\x7d") 420)]
  workingDirectory := []

private theorem sound_forwardReference : forwardReference.Sound := by
  refine FileSystem.sound_of_entries rfl ?_
  simp [forwardReference, FileSystem.node?, List.lookup_cons, FileSystem.IsEntryName, Path.isName]
  decide

private theorem linksShort_forwardReference : forwardReference.LinksShort := by
  refine FileSystem.linksShort_of_entries ?_
  simp [forwardReference]

/-- The shut file refuses to be opened. -/
def shutFile : Hindrances where
  refused p := if p = pathOf ["src", "Shut.java"] then some .permissionDenied else none

private theorem requestedFiles_forwardReference :
    requestedFiles forwardReference {} ["src"] =
      [pathOf ["src", "A.java"], pathOf ["src", "C.java"], pathOf ["src", "Shut.java"],
        pathOf ["src", "sub", "B.java"]] := by
  have hnames : listedNames forwardReference ["src"] =
      ["A.java", "C.java", "Shut.java", "sub"] :=
    listedNames_eq rfl rfl (by decide)
  have hnames' : listedNames forwardReference ["src", "sub"] = ["B.java"] :=
    listedNames_eq rfl rfl (by decide)
  have hbelow : filesBelow forwardReference ".java" 3 (pathOf ["src", "sub"]) ["src", "sub"] =
      [pathOf ["src", "sub", "B.java"]] :=
    filesBelow_succ_eq ["B.java"] [] hnames' rfl rfl
  have hnormal : (pathOf ["src"]).normal = pathOf ["src"] := rfl
  have hdepth : depthBound forwardReference = 4 := rfl
  rw [requestedFiles, sourceFiles_pathOf sound_forwardReference (by decide) rfl, hdepth,
    filesBelow_succ_eq ["A.java", "C.java", "Shut.java"] ["sub"] hnames rfl rfl]
  simp [hbelow, child_pathOf, hnormal]

private theorem edges_forwardReference :
    (extractBelow forwardReference (hinderedReader forwardReference shutFile) {}
        ["src"]).edges =
      [⟨"A", "B", .association, some "b"⟩] := by
  rw [extractBelow, registryBelow, requestedFiles_forwardReference]
  decide +kernel

/-- The forward reference gives an edge, the files that are left out give none. -/
theorem registry_agrees_forwardReference :
    validate forwardReference {} "/src" = .ok ["src"] ∧
      ∃ d, answerWith forwardReference (hinderedReader forwardReference shutFile) {} "/src" =
          .ok d ∧
        d.edges = [⟨"A", "B", .association, some "b"⟩] ∧
        ∀ e ∈ d.edges, HasBlock (PlantUml.layout d.declarations d.edges) e.source ∧
          HasBlock (PlantUml.layout d.declarations d.edges) e.target := by
  have hvalid : validate forwardReference {} "/src" = .ok ["src"] := by rfl
  obtain ⟨hanswered, hdocument⟩ := registry_agrees_with_document shutFile hvalid
  obtain ⟨d, hd⟩ := hanswered.mpr
    (walkFault?_pathOf_eq_none sound_forwardReference rfl linksShort_forwardReference (by decide))
  obtain ⟨hextract, -, -, -, hblocks⟩ := hdocument d hd
  exact ⟨hvalid, d, hd, hextract ▸ edges_forwardReference, hblocks⟩

end JavaAtlas.Diagram
