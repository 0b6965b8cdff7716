import JavaAtlas.Proofs.Diagram.Reading

/-!
# The text of a diagram is faithful

Where names are made of identifiers and types keep to their lines, a diagram can be read
back from its text: the lines are read one by one, and put together from the end, where
the members that were met belong to the next header.  So two diagrams with the same text
show the same declarations and edges.

Main definitions:

- `shownDeclaration`: what a block shows of a declaration.
- `readText`: the declarations and edges that a text shows.

Main results:

- Theorem `read_ended_layout`: reading undoes writing.
- Theorem `text_faithful`: two diagrams have one text if and only if they show the same.
-/

namespace JavaAtlas.Diagram.PlantUml

open Java Text

/-! ## Blocks -/

/-- A field declaration is shown by its first variable. -/
def shownGroup? (g : FieldDeclaration) : Option Field :=
  g.head?.map shownField

/-- A declaration is shown by its kind, its qualified name and its members. -/
def shownDeclaration (d : Declaration) : Declaration where
  name := ""
  qualifiedName := d.qualifiedName
  kind := d.kind
  fieldDeclarations := (d.fieldDeclarations.filterMap shownGroup?).map ([·])
  methods := d.methods.map shownMethod
  «extends» := []
  implements := []

/-- The parts of a declaration are legible, and every field declaration has a variable. -/
structure LegibleDeclaration (d : Declaration) : Prop where
  qualifiedName : IsName d.qualifiedName
  writable : IsWritable d
  fields : ∀ f ∈ d.fields, LegibleField f
  methods : ∀ m ∈ d.methods, LegibleMethod m

instance (d : Declaration) : Decidable (LegibleDeclaration d) :=
  decidable_of_iff
    (IsName d.qualifiedName ∧ (∀ group ∈ d.fieldDeclarations, group ≠ []) ∧
      (∀ f ∈ d.fields, LegibleField f) ∧ ∀ m ∈ d.methods, LegibleMethod m)
    ⟨fun h => ⟨h.1, h.2.1, h.2.2.1, h.2.2.2⟩, fun h => ⟨h.1, h.2, h.3, h.4⟩⟩

/-- What the lines of a block show. -/
def shownLines (d : Declaration) : List Line :=
  .header d.kind d.qualifiedName ::
    ((d.fieldDeclarations.filterMap shownGroup?).map .field ++
      d.methods.map fun m => .method (shownMethod m))

theorem LegibleDeclaration.legibleField_of_head? {d : Declaration} (h : LegibleDeclaration d)
    {g : FieldDeclaration} (hg : g ∈ d.fieldDeclarations) {f : Field} (hf : g.head? = some f) :
    LegibleField f :=
  h.fields f (List.mem_flatten.mpr ⟨g, hg, List.mem_of_mem_head? hf⟩)

/-- The lines of a block are read back. -/
theorem filterMap_readLine?_block {d : Declaration} (h : LegibleDeclaration d) :
    ((block d).map String.toList).filterMap readLine? = shownLines d := by
  have hfields : ((d.fieldDeclarations.filterMap fieldDeclarationLine?).map String.toList).filterMap
      readLine? = (d.fieldDeclarations.filterMap shownGroup?).map .field := by
    rw [List.filterMap_map, List.filterMap_filterMap, List.map_filterMap]
    refine List.filterMap_congr fun g hg => ?_
    cases hhead : g.head? with
    | none => simp [fieldDeclarationLine?, shownGroup?, hhead]
    | some f =>
        have hline := readLine?_fieldLine (h.legibleField_of_head? hg hhead)
        simp [fieldDeclarationLine?, shownGroup?, hhead, hline]
  have hmethods : ((d.methods.map fun m => inside (methodLine m)).map String.toList).filterMap
      readLine? = d.methods.map fun m => .method (shownMethod m) := by
    rw [List.filterMap_map, List.filterMap_map, ← List.filterMap_eq_map]
    exact List.filterMap_congr fun m hm => readLine?_methodLine (h.methods m hm)
  have hbrace : readLine? "\x7d".toList = none := readLine?_eq_none (by decide)
  simp only [block, List.map_append, List.map_cons, List.map_nil, List.filterMap_append,
    List.filterMap_cons, List.filterMap_nil, readLine?_header h.qualifiedName, hfields, hmethods,
    hbrace, List.append_nil, List.cons_append, shownLines]

/-- The lines of a layout are read back. -/
theorem filterMap_readLine?_layout {ds : List Declaration} {es : List Edge}
    (hds : ∀ d ∈ ds, LegibleDeclaration d) (hes : ∀ e ∈ es, LegibleEdge e) :
    ((layout ds es).map String.toList).filterMap readLine? =
      ds.flatMap shownLines ++ es.map fun e => .edge (shownEdge e) := by
  have hblocks : ((ds.flatMap block).map String.toList).filterMap readLine? =
      ds.flatMap shownLines := by
    rw [List.map_flatMap, List.filterMap_flatMap]
    exact congrArg List.flatten <| List.map_congr_left fun d hd =>
      filterMap_readLine?_block (hds d hd)
  have hedges : ((es.map edgeLine).map String.toList).filterMap readLine? =
      es.map fun e => .edge (shownEdge e) := by
    rw [List.filterMap_map, List.filterMap_map, ← List.filterMap_eq_map]
    exact List.filterMap_congr fun e he => readLine?_edgeLine (hes e he)
  have hstart : readLine? startMarker.toList = none := readLine?_eq_none (by decide)
  have hend : readLine? endMarker.toList = none := readLine?_eq_none (by decide)
  simp only [layout, List.map_append, List.map_cons, List.map_nil, List.filterMap_append,
    List.filterMap_cons, List.filterMap_nil, hblocks, hedges, hstart, hend, List.append_nil,
    List.cons_append]

/-! ## What is shown decides the text -/

theorem methodLine_shownMethod (m : Method) : methodLine (shownMethod m) = methodLine m := by
  have hparameters : (m.parameters.map shownParameter).map parameterText =
      m.parameters.map parameterText := by
    rw [List.map_map]
    rfl
  simp only [methodLine, shownMethod, shownType, hparameters]

theorem edgeLine_shownEdge (e : Edge) : edgeLine (shownEdge e) = edgeLine e := by
  obtain ⟨source, target, kind, label⟩ := e
  cases kind <;> rfl

/-- The block of a declaration is that of what it shows. -/
theorem block_shownDeclaration (d : Declaration) : block (shownDeclaration d) = block d := by
  have hfields : (shownDeclaration d).fieldDeclarations.filterMap fieldDeclarationLine? =
      d.fieldDeclarations.filterMap fieldDeclarationLine? := by
    rw [shownDeclaration, List.filterMap_map, List.filterMap_filterMap]
    refine List.filterMap_congr fun g _ => ?_
    cases g <;> rfl
  have hmethods : ((shownDeclaration d).methods.map fun m => inside (methodLine m)) =
      d.methods.map fun m => inside (methodLine m) := by
    rw [shownDeclaration, List.map_map]
    exact List.map_congr_left fun m _ => congrArg inside (methodLine_shownMethod m)
  rw [block, block, hfields, hmethods]
  rfl

/-- The layout of a diagram is that of what it shows. -/
theorem layout_shown (ds : List Declaration) (es : List Edge) :
    layout (ds.map shownDeclaration) (es.map shownEdge) = layout ds es := by
  have hblocks : (ds.map shownDeclaration).flatMap block = ds.flatMap block := by
    rw [List.flatMap_map]
    exact congrArg List.flatten (List.map_congr_left fun d _ => block_shownDeclaration d)
  have hedges : (es.map shownEdge).map edgeLine = es.map edgeLine := by
    rw [List.map_map]
    exact List.map_congr_left fun e _ => edgeLine_shownEdge e
  rw [layout, layout, hblocks, hedges]

/-! ## Drafts -/

/-- What the lines of a diagram show, from some line on: the members before the first header
belong to a block that began earlier. -/
structure Draft where
  fields : List Field
  methods : List Method
  declarations : List Declaration
  edges : List Edge

namespace Draft

/-- The end of a diagram shows nothing. -/
def empty : Draft := ⟨[], [], [], []⟩

/-- The draft with one line before it; a header takes the members behind it. -/
def add : Line → Draft → Draft
  | .field f, draft => { draft with fields := f :: draft.fields }
  | .method m, draft => { draft with methods := m :: draft.methods }
  | .edge e, draft => { draft with edges := e :: draft.edges }
  | .header kind qualifiedName, draft =>
    let d : Declaration :=
      { name := "", qualifiedName, kind, fieldDeclarations := draft.fields.map ([·]),
        methods := draft.methods, «extends» := [], implements := [] }
    { fields := [], methods := [], declarations := d :: draft.declarations, edges := draft.edges }

theorem foldr_fields (fs : List Field) (draft : Draft) :
    (fs.map Line.field).foldr add draft = { draft with fields := fs ++ draft.fields } := by
  induction fs with
  | nil => rfl
  | cons f fs ih => rw [List.map_cons, List.foldr_cons, ih]; rfl

theorem foldr_methods (ms : List Method) (draft : Draft) :
    (ms.map fun m => Line.method (shownMethod m)).foldr add draft =
      { draft with methods := ms.map shownMethod ++ draft.methods } := by
  induction ms with
  | nil => rfl
  | cons m ms ih => rw [List.map_cons, List.foldr_cons, ih]; rfl

theorem foldr_edges (es : List Edge) :
    (es.map fun e => Line.edge (shownEdge e)).foldr add empty =
      ⟨[], [], [], es.map shownEdge⟩ := by
  induction es with
  | nil => rfl
  | cons e es ih => rw [List.map_cons, List.foldr_cons, ih]; rfl

/-- The lines of a block before a draft in which no members wait add the declaration. -/
theorem foldr_shownLines (d : Declaration) (ds : List Declaration) (es : List Edge) :
    (shownLines d).foldr add ⟨[], [], ds, es⟩ = ⟨[], [], shownDeclaration d :: ds, es⟩ := by
  rw [shownLines, List.foldr_cons, List.foldr_append, foldr_methods, foldr_fields]
  simp [add, shownDeclaration]

/-- The lines of declarations and edges are put together again. -/
theorem foldr_lines (ds : List Declaration) (es : List Edge) :
    (ds.flatMap shownLines ++ es.map fun e => Line.edge (shownEdge e)).foldr add empty =
      ⟨[], [], ds.map shownDeclaration, es.map shownEdge⟩ := by
  induction ds with
  | nil => exact foldr_edges es
  | cons d ds ih =>
      rw [List.flatMap_cons, List.append_assoc, List.foldr_append, ih, foldr_shownLines]
      rfl

end Draft

/-! ## Reader of diagrams -/

/-- The declarations and edges that a text shows. -/
def readText (text : String) : List Declaration × List Edge :=
  let draft := ((pieces '\n' text.toList).filterMap readLine?).foldr Draft.add .empty
  (draft.declarations, draft.edges)

theorem IsName.breaks_eq_zero {name : String} (h : IsName name) : breaks name = 0 :=
  Text.breaks_eq_zero.mpr (h.2 '\n' (by decide))

theorem IsLegibleType.breaks_eq_zero {t : TypeUse} (h : IsLegibleType t) : breaks t.text = 0 :=
  Text.breaks_eq_zero.mpr (h '\n' (by decide))

theorem LegibleField.unbroken {f : Field} (h : LegibleField f) : f.Unbroken :=
  ⟨h.name.breaks_eq_zero, h.type.breaks_eq_zero⟩

theorem LegibleMethod.unbroken {m : Method} (h : LegibleMethod m) : m.Unbroken where
  name := h.name.breaks_eq_zero
  returnType := h.returnType.breaks_eq_zero
  parameters p hp :=
    ⟨(h.parameters p hp).name.breaks_eq_zero, (h.parameters p hp).type.breaks_eq_zero⟩

/-- No line of a legible declaration holds a line end. -/
theorem LegibleDeclaration.breaks_of_mem_block {d : Declaration} (h : LegibleDeclaration d)
    {line : String} (hline : line ∈ block d) : breaks line = 0 := by
  simp only [block, List.mem_append, List.mem_cons, List.not_mem_nil, or_false] at hline
  rcases hline with ((rfl | hfield) | hmethod) | rfl
  · rw [breaks_header, h.qualifiedName.breaks_eq_zero]
  · obtain ⟨g, hg, hmap⟩ := List.mem_filterMap.mp hfield
    obtain ⟨f, hf, rfl⟩ := Option.map_eq_some_iff.mp hmap
    exact breaks_fieldLine (h.legibleField_of_head? hg hf).unbroken
  · obtain ⟨m, hm, rfl⟩ := List.mem_map.mp hmethod
    exact breaks_methodLine (h.methods m hm).unbroken
  · decide

/-- The line of a legible edge holds no line end. -/
theorem LegibleEdge.breaks_edgeLine {e : Edge} (h : LegibleEdge e) : breaks (edgeLine e) = 0 := by
  have hlabel : ∀ label, (shownEdge e).label = some label → breaks label = 0 := by
    intro label hshown
    by_cases hkind : e.kind = .association
    case pos =>
      rw [shownEdge, if_pos hkind] at hshown
      exact Text.breaks_eq_zero.mpr (h.label hkind label hshown).2
    case neg =>
      rw [shownEdge, if_neg hkind] at hshown
      cases hshown
  rw [← edgeLine_shownEdge, PlantUml.breaks_edgeLine hlabel]
  simp [shownEdge, h.source.breaks_eq_zero, h.target.breaks_eq_zero]

/-- No line of a legible layout holds a line end. -/
theorem breaks_of_mem_layout {ds : List Declaration} {es : List Edge}
    (hds : ∀ d ∈ ds, LegibleDeclaration d) (hes : ∀ e ∈ es, LegibleEdge e) {line : String}
    (hline : line ∈ layout ds es) : breaks line = 0 := by
  simp only [layout, List.mem_append, List.mem_cons, List.not_mem_nil, or_false] at hline
  rcases hline with ((rfl | hblock) | hedge) | rfl
  · decide
  · obtain ⟨d, hd, hmem⟩ := List.mem_flatMap.mp hblock
    exact (hds d hd).breaks_of_mem_block hmem
  · obtain ⟨e, he, rfl⟩ := List.mem_map.mp hedge
    exact (hes e he).breaks_edgeLine
  · decide

/-- Reading undoes writing, as far as declarations and edges are shown. -/
theorem read_ended_layout {ds : List Declaration} {es : List Edge}
    (hds : ∀ d ∈ ds, LegibleDeclaration d) (hes : ∀ e ∈ es, LegibleEdge e) :
    readText (ended (layout ds es)) = (ds.map shownDeclaration, es.map shownEdge) := by
  have hlast : readLine? [] = none := readLine?_eq_none List.not_mem_nil
  rw [readText, pieces_ended fun line hline => breaks_of_mem_layout hds hes hline,
    List.filterMap_append, filterMap_readLine?_layout hds hes, List.filterMap_cons, hlast,
    List.filterMap_nil, List.append_nil, Draft.foldr_lines]

/-! ## Diagrams -/

/-- All parts of a diagram are legible. -/
structure Legible (ds : List Declaration) (es : List Edge) : Prop where
  declarations : ∀ d ∈ ds, LegibleDeclaration d
  edges : ∀ e ∈ es, LegibleEdge e

theorem Legible.write?_eq_some {ds : List Declaration} {es : List Edge} (h : Legible ds es) :
    write? ds es = some (ended (layout ds es)) :=
  PlantUml.write?_eq_some fun d hd => (h.declarations d hd).writable

/-- A legible diagram has a text, what it shows comes back from the text, and two such
diagrams have one text if and only if they show the same: in order, the kinds and qualified
names of declarations, the first variables of their fields, their methods, and the edges up
to the labels of other edges than associations and the difference between inheritance and
realization. -/
theorem text_faithful {ds ds' : List Declaration} {es es' : List Edge}
    (h : Legible ds es) (h' : Legible ds' es') :
    (∃ text, write? ds es = some text ∧
      readText text = (ds.map shownDeclaration, es.map shownEdge)) ∧
      (write? ds es = write? ds' es' ↔
        ds.map shownDeclaration = ds'.map shownDeclaration ∧
          es.map shownEdge = es'.map shownEdge) := by
  have hread := read_ended_layout h.declarations h.edges
  have hread' := read_ended_layout h'.declarations h'.edges
  refine ⟨⟨_, h.write?_eq_some, hread⟩, ?_, ?_⟩
  · intro heq
    rw [h.write?_eq_some, h'.write?_eq_some, Option.some.injEq] at heq
    rw [heq, hread'] at hread
    exact Prod.mk.inj hread.symm
  · rintro ⟨hds, hes⟩
    rw [h.write?_eq_some, h'.write?_eq_some, ← layout_shown ds, hds, hes, layout_shown]

/-! ## Diagrams that show the same -/

/-- A class with a field of two variables and a method, and an interface that it implements. -/
def storeDeclarations : List Declaration :=
  [{ name := "Store", qualifiedName := "p.Store", kind := .class
     fieldDeclarations :=
      [[⟨.private, ⟨"Map<K, List<V>>", some "Map"⟩, "m"⟩, ⟨.private, ⟨"int", none⟩, "n"⟩]]
     methods :=
      [⟨.public, ⟨"void", none⟩, "put",
        [⟨"k", ⟨"Pair<K, V>", some "Pair"⟩⟩, ⟨"v", ⟨"? super V", none⟩⟩]⟩]
     «extends» := []
     implements := [⟨"Base", some "Base"⟩] },
    { name := "Base", qualifiedName := "p.Base", kind := .interface, fieldDeclarations := []
      methods := [], «extends» := [], implements := [] }]

/-- The edges of the class. -/
def storeEdges : List Edge :=
  [⟨"p.Store", "p.Base", .association, some "m"⟩, ⟨"p.Store", "p.Base", .realization, none⟩]

/-- The same edges, except that the class extends the interface. -/
def inheritingEdges : List Edge :=
  [⟨"p.Store", "p.Base", .association, some "m"⟩, ⟨"p.Store", "p.Base", .inheritance, some "x"⟩]

/-- The class is read back from its text with its first variable and both parameters; with
inheritance in place of realization the text is the same, without the edges it is not. -/
theorem text_faithful_store :
    (∃ text, write? storeDeclarations storeEdges = some text ∧
      readText text = (storeDeclarations.map shownDeclaration, storeEdges.map shownEdge)) ∧
      write? storeDeclarations storeEdges =
        write? (storeDeclarations.map shownDeclaration) inheritingEdges ∧
      write? storeDeclarations storeEdges ≠ write? storeDeclarations [] := by
  have hstore : Legible storeDeclarations storeEdges := ⟨by decide, by decide⟩
  have hshown : Legible (storeDeclarations.map shownDeclaration) inheritingEdges :=
    ⟨by decide, by decide⟩
  have hbare : Legible storeDeclarations [] := ⟨by decide, by decide⟩
  refine ⟨(text_faithful hstore hshown).1,
    (text_faithful hstore hshown).2.mpr ⟨by decide, by decide⟩, fun heq => ?_⟩
  have hedges := ((text_faithful hstore hbare).2.mp heq).2
  cases hedges

end JavaAtlas.Diagram.PlantUml
