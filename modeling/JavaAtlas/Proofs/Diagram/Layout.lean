import Mathlib.Data.List.Basic
import JavaAtlas.Diagram.PlantUml
import JavaAtlas.Proofs.Java.Unbroken

/-!
# Lines of a diagram

Where every field declaration has a variable, a diagram can be written, and its
lines are known: the two markers, the blocks of the declarations and one line for
every edge.  A line holds the line ends of the names in it, so only the names of
types and of the ends of edges can break one.

Main results:

- Theorem `write?_eq_some`: the text of writable declarations is their layout,
  each line with its end.
- Theorem `length_layout`: the number of lines of a layout.
- Theorem `sum_breaks_layout`: the line ends inside the lines of a layout are those
  of the qualified names in it.
-/

namespace JavaAtlas.Diagram.PlantUml

open Java Text

/-! ## Layout -/

/-- Every field declaration has a variable by which it can be listed. -/
def IsWritable (d : Declaration) : Prop :=
  ∀ group ∈ d.fieldDeclarations, group ≠ []

/-- The lines of a declaration. -/
def block (d : Declaration) : List String :=
  header d :: d.fieldDeclarations.filterMap fieldDeclarationLine? ++
    (d.methods.map fun m => inside (methodLine m)) ++ ["\x7d"]

/-- The lines of a diagram. -/
def layout (declarations : List Declaration) (edges : List Edge) : List String :=
  startMarker :: declarations.flatMap block ++ edges.map edgeLine ++ [endMarker]

private theorem mapM_eq_some_filterMap {α β : Type} {f : α → Option β} {xs : List α}
    (h : ∀ x ∈ xs, ∃ y, f x = some y) : xs.mapM f = some (xs.filterMap f) := by
  induction xs with
  | nil => rfl
  | cons x xs ih =>
      obtain ⟨y, hy⟩ := h x List.mem_cons_self
      have hrest := ih fun z hz => h z (List.mem_cons_of_mem x hz)
      simp [List.mapM_cons, hy, hrest]

theorem exists_fieldDeclarationLine {group : FieldDeclaration} (h : group ≠ []) :
    ∃ line, fieldDeclarationLine? group = some line := by
  cases group with
  | nil => exact absurd rfl h
  | cons f fs => exact ⟨_, rfl⟩

theorem blockLines?_eq_some {d : Declaration} (h : IsWritable d) :
    blockLines? d = some (block d) := by
  have hfields := mapM_eq_some_filterMap fun group hgroup =>
    exists_fieldDeclarationLine (h group hgroup)
  simp [blockLines?, block, hfields]

/-- Writable declarations have lines, and these are their layout. -/
theorem lines?_eq_some {ds : List Declaration} {es : List Edge} (h : ∀ d ∈ ds, IsWritable d) :
    lines? ds es = some (layout ds es) := by
  have hblocks := mapM_eq_some_filterMap (f := blockLines?) fun d hd =>
    ⟨block d, blockLines?_eq_some (h d hd)⟩
  have hmap : ds.filterMap blockLines? = ds.map block := by
    rw [← List.filterMap_eq_map]
    exact List.filterMap_congr fun d hd => blockLines?_eq_some (h d hd)
  simp [lines?, layout, hblocks, hmap, List.flatMap_def]

/-- The text of writable declarations is their layout, each line with its end. -/
theorem write?_eq_some {ds : List Declaration} {es : List Edge} (h : ∀ d ∈ ds, IsWritable d) :
    write? ds es = some (ended (layout ds es)) := by
  simp [write?, lines?_eq_some h, ended]

/-! ## Number of lines -/

/-- The lines that a declaration takes: its header, one for every field declaration,
one for every method, and the closing brace. -/
def lineBudget (d : Declaration) : Nat :=
  2 + d.fieldDeclarations.length + d.methods.length

theorem length_filterMap_fieldDeclarationLine {groups : List FieldDeclaration}
    (h : ∀ group ∈ groups, group ≠ []) :
    (groups.filterMap fieldDeclarationLine?).length = groups.length := by
  rw [List.length_filterMap_eq_countP, List.countP_eq_length]
  intro group hgroup
  obtain ⟨line, hline⟩ := exists_fieldDeclarationLine (h group hgroup)
  simp [hline]

theorem length_block {d : Declaration} (h : IsWritable d) : (block d).length = lineBudget d := by
  simp only [block, lineBudget, List.length_append, List.length_cons, List.length_map,
    List.length_nil, length_filterMap_fieldDeclarationLine h]
  omega

/-- A layout has the two markers, the lines of its declarations and one line for
every edge. -/
theorem length_layout {ds : List Declaration} {es : List Edge} (h : ∀ d ∈ ds, IsWritable d) :
    (layout ds es).length = 2 + (ds.map lineBudget).sum + es.length := by
  have hblocks : (ds.map fun d => (block d).length) = ds.map lineBudget :=
    List.map_congr_left fun d hd => length_block (h d hd)
  simp only [layout, List.length_append, List.length_cons, List.length_flatMap, List.length_map,
    List.length_nil, hblocks]
  omega

/-! ## Line ends inside lines -/

theorem breaks_sign (v : Visibility) : breaks (sign v) = 0 := by
  cases v <;> decide

theorem breaks_arrow (k : EdgeKind) : breaks (arrow k) = 0 := by
  cases k <;> decide

theorem breaks_keyword (k : TypeKind) : breaks k.keyword = 0 := by
  cases k <;> decide

theorem breaks_fieldLine {f : Field} (h : f.Unbroken) : breaks (inside (fieldLine f)) = 0 := by
  simp only [inside, fieldLine, toString, breaks_append, breaks_sign, h.name, h.type]
  decide

theorem breaks_parameterText {p : Parameter} (h : p.Unbroken) : breaks (parameterText p) = 0 := by
  simp only [parameterText, toString, breaks_append, h.name, h.type]
  decide

theorem breaks_methodLine {m : Method} (h : m.Unbroken) : breaks (inside (methodLine m)) = 0 := by
  have hparameters : breaks (", ".intercalate (m.parameters.map parameterText)) = 0 := by
    refine breaks_intercalate (by decide) fun line hline => ?_
    obtain ⟨p, hp, rfl⟩ := List.mem_map.mp hline
    exact breaks_parameterText (h.parameters p hp)
  simp only [inside, methodLine, toString, breaks_append, breaks_sign, h.name, h.returnType,
    hparameters]
  decide

/-- A header holds the line ends of the name of its type. -/
theorem breaks_header (d : Declaration) : breaks (header d) = breaks d.qualifiedName := by
  have hkeyword : breaks " " = 0 ∧ breaks " \x7b" = 0 := by decide
  simp [header, breaks_keyword, hkeyword]

/-- The lines of an unbroken declaration hold the line ends of its qualified name. -/
theorem sum_breaks_block {package : String} {d : Declaration} (h : d.Unbroken package) :
    ((block d).map breaks).sum = breaks d.qualifiedName := by
  have hfields : ∀ line ∈ d.fieldDeclarations.filterMap fieldDeclarationLine?,
      breaks line = 0 := by
    intro line hline
    obtain ⟨group, hgroup, hmap⟩ := List.mem_filterMap.mp hline
    obtain ⟨f, hf, rfl⟩ := Option.map_eq_some_iff.mp hmap
    have hmem : f ∈ d.fields := List.mem_flatten.mpr ⟨group, hgroup, List.mem_of_mem_head? hf⟩
    exact breaks_fieldLine (h.fields f hmem)
  have hmethods : ∀ line ∈ d.methods.map fun m => inside (methodLine m), breaks line = 0 := by
    intro line hline
    obtain ⟨m, hm, rfl⟩ := List.mem_map.mp hline
    exact breaks_methodLine (h.methods m hm)
  have hbrace : breaks "\x7d" = 0 := by decide
  simp only [block, List.map_append, List.map_cons, List.map_nil, List.sum_append, List.sum_cons,
    List.sum_nil, breaks_header, sum_breaks_eq_zero.mpr hfields, sum_breaks_eq_zero.mpr hmethods,
    hbrace, Nat.add_zero]

/-- A label holds the line ends of the name that it shows. -/
theorem breaks_labelText {e : Edge} (h : ∀ label, e.label = some label → breaks label = 0) :
    breaks (labelText e) = 0 := by
  unfold labelText
  split
  · rename_i label _ hlabel
    have hcolon : breaks " : " = 0 := by decide
    split
    · rfl
    · simp [hcolon, h label hlabel]
  · rfl

/-- The line of an edge holds the line ends of the names at its ends. -/
theorem breaks_edgeLine {e : Edge} (h : ∀ label, e.label = some label → breaks label = 0) :
    breaks (edgeLine e) = breaks e.source + breaks e.target := by
  have hspace : breaks " " = 0 := by decide
  simp [edgeLine, toString, breaks_arrow, breaks_labelText h, hspace]

/-- The line ends inside the lines of a layout are those of the qualified names in it,
if nothing else in its declarations and labels holds one. -/
theorem sum_breaks_layout {ds : List Declaration} {es : List Edge}
    (hds : ∀ d ∈ ds, ∃ package, d.Unbroken package)
    (hes : ∀ e ∈ es, ∀ label, e.label = some label → breaks label = 0) :
    ((layout ds es).map breaks).sum =
      (ds.map fun d => breaks d.qualifiedName).sum +
        (es.map fun e => breaks e.source + breaks e.target).sum := by
  have hblocks : ((ds.flatMap block).map breaks).sum =
      (ds.map fun d => breaks d.qualifiedName).sum := by
    induction ds with
    | nil => rfl
    | cons d ds ih =>
        obtain ⟨package, hd⟩ := hds d List.mem_cons_self
        have hrest := ih fun c hc => hds c (List.mem_cons_of_mem d hc)
        simp only [List.flatMap_cons, List.map_append, List.sum_append, sum_breaks_block hd,
          hrest, List.map_cons, List.sum_cons]
  have hedges : (es.map edgeLine).map breaks =
      es.map fun e => breaks e.source + breaks e.target := by
    rw [List.map_map]
    exact List.map_congr_left fun e he => breaks_edgeLine (hes e he)
  have hmarkers : breaks startMarker = 0 ∧ breaks endMarker = 0 := by decide
  simp only [layout, List.map_append, List.map_cons, List.map_nil, List.sum_append,
    List.sum_cons, List.sum_nil, hblocks, hedges, hmarkers]
  omega

end JavaAtlas.Diagram.PlantUml
