import Mathlib.Data.List.Sort
import JavaAtlas.Proofs.Diagram.Isolation

/-!
# Placement of files

What a source tree adds to a diagram is told by the contents of its files, not by their
names or by the directories in which they stand.  Trees whose files hold the same
contents have the same registry, and their extracts are put together from the same
groups of declarations and edges, one group for each file, in the order of each walk.

Main results:

- Theorem `unplaced_unitsOf`: the units of files come from their contents.
- Theorem `Registry.eq_of_mem_iff`: a registry is told by the names that it knows.
- Theorem `placement_immaterial`: trees with the same contents in other places.
- Theorem `closedTree_warns`: a file that cannot be opened leaves a warning more.
-/

namespace JavaAtlas.Diagram

open Config Java Source Storage FileSystem
open Text.Utf8 (Bytes encode)

/-! ## Contents -/

/-- The content of a file, if it can be opened. -/
def opened? (fs : FileSystem) (refused : Path → Option FileError) (p : Path) : Option Bytes :=
  match refused p with
  | some _ => none
  | none => (fs.read p).toOption

/-- The contents of the files that can be opened, in the order of the files. -/
def openedContents (fs : FileSystem) (refused : Path → Option FileError) (files : List Path) :
    List Bytes :=
  files.filterMap (opened? fs refused)

/-- Reading breaks down on contents, wherever they stand. -/
def breakdownsOn (broken : Bytes → Option String) : Breakdowns := fun _ content =>
  match content with
  | .ok octets => broken octets
  | .error _ => none

/-- Reads every file that can be opened and whose content does not break reading down. -/
def contentReader (fs : FileSystem) (refused : Path → Option FileError)
    (broken : Bytes → Option String) : Reader :=
  hinderedReader fs { refused, breakdowns := breakdownsOn broken }

/-- The unit without its path. -/
def unplaced (u : CompilationUnit) : CompilationUnit :=
  { u with path := "" }

/-- The unit that a content adds, without a path. -/
def unitOfContent? (broken : Bytes → Option String) (content : Bytes) : Option CompilationUnit :=
  let u := CompilationUnit.ofText .java "" (textOfFile content)
  if (broken content).isNone && u.isValid then some u else none

/-- The path plays no part in whether a text gives a valid unit. -/
theorem isValid_ofText (language : Language) (path text : String) :
    (CompilationUnit.ofText language path text).isValid =
      (CompilationUnit.ofText language "" text).isValid := by
  unfold CompilationUnit.ofText
  dsimp only
  cases Java.read text with
  | ok tree => rfl
  | error fault => rfl

/-- The path is all of a valid unit that is told by the path. -/
theorem unplaced_ofText {language : Language} {path text : String}
    (h : (CompilationUnit.ofText language path text).isValid = true) :
    unplaced (CompilationUnit.ofText language path text) =
      CompilationUnit.ofText language "" text := by
  obtain ⟨tree, hread⟩ := CompilationUnit.exists_read_of_isValid h
  rw [CompilationUnit.ofText_of_read hread, CompilationUnit.ofText_of_read hread]
  rfl

section Reading

variable {fs : FileSystem} {refused : Path → Option FileError}
  {broken : Bytes → Option String} {files : List Path}

/-- What a file contributes comes from its content. -/
theorem unplaced_contribution (p : Path) :
    (contribution (contentReader fs refused broken) p).toOption.map unplaced =
      (opened? fs refused p).bind (unitOfContent? broken) := by
  cases hrefused : refused p with
  | some e =>
      obtain ⟨omission, homitted⟩ := contribution_of_refused fs
        (h := { refused, breakdowns := breakdownsOn broken }) hrefused
      rw [contentReader, homitted, opened?, hrefused]
      rfl
  | none =>
      have hreader : contentReader fs refused broken p =
          frailReader fs (breakdownsOn broken) p := by
        simp only [contentReader, hinderedReader, hrefused]
      have hopened : opened? fs refused p = (fs.read p).toOption := by
        rw [opened?, hrefused]
      rw [contribution, hreader, hopened, frailReader, plainReader, unitOfFile]
      cases hread : fs.read p with
      | error fault => rfl
      | ok content =>
          simp only [breakdownsOn, Except.toOption, Option.bind_some, unitOfContent?]
          cases broken content with
          | some text => rfl
          | none =>
              rw [← isValid_ofText .java (shownPath "" p.text)]
              by_cases hvalid : (CompilationUnit.ofText .java (shownPath "" p.text)
                  (textOfFile content)).isValid = true
              case pos => simp [hvalid, unplaced_ofText hvalid]
              case neg => simp [hvalid]

/-- The units of files come from the contents of those that can be opened. -/
theorem unplaced_unitsOf :
    (unitsOf (contentReader fs refused broken) files).map unplaced =
      (openedContents fs refused files).filterMap (unitOfContent? broken) := by
  rw [unitsOf, List.map_filterMap, openedContents, List.filterMap_filterMap]
  exact List.filterMap_congr fun p _ => unplaced_contribution p

theorem isOmitted_contentReader (p : Path) :
    isOmitted (contentReader fs refused broken) p =
      ((opened? fs refused p).bind (unitOfContent? broken)).isNone := by
  rw [isOmitted, ← unplaced_contribution, Option.isNone_map]

end Reading

/-! ## Registries -/

/-- A registry is told by the names that it knows. -/
theorem Registry.eq_of_mem_iff {r r' : Registry} (h : ∀ name, name ∈ r ↔ name ∈ r') : r = r' := by
  have hnames : r.names = r'.names := by
    have hperm : r.names.Perm r'.names := by
      refine (List.perm_ext_iff_of_nodup ?_ ?_).mpr h
      · exact r.increasing.imp String.ne_of_lt
      · exact r'.increasing.imp String.ne_of_lt
    refine hperm.eq_of_pairwise (fun a b _ _ hab hba => ?_) r.increasing r'.increasing
    exact absurd (String.lt_trans hab hba) (String.lt_irrefl a)
  cases r
  cases r'
  cases hnames
  rfl

/-! ## Groups -/

/-- The lines of the declarations of a unit. -/
def blocksOf (u : CompilationUnit) : List String :=
  u.declarations.flatMap PlantUml.block

/-- The edges of the declarations of a unit. -/
def edgesOfUnit (known : Registry) (u : CompilationUnit) : List Edge :=
  u.declarations.flatMap (edgesOf (scopeOf known u))

/-- The document is put together from the units: the declarations of each, then the edges
of each, in the order of the units, and in the text the lines of these. -/
structure Document.IsMadeOf (d : Document) (known : Registry) (units : List CompilationUnit) :
    Prop where
  declarations : d.declarations = units.flatMap CompilationUnit.declarations
  edges : d.edges = units.flatMap (edgesOfUnit known)
  text : d.text = Text.ended (PlantUml.startMarker :: units.flatMap blocksOf ++
    units.flatMap (fun u => (edgesOfUnit known u).map PlantUml.edgeLine) ++ [PlantUml.endMarker])

section Groups

variable {fs : FileSystem} {refused : Path → Option FileError}
  {broken : Bytes → Option String} {files : List Path} {known : Registry}

/-- Declarations come from the units of contents. -/
theorem declarations_extract_contents :
    (extract (contentReader fs refused broken) known files).declarations =
      ((openedContents fs refused files).filterMap (unitOfContent? broken)).flatMap
        CompilationUnit.declarations := by
  rw [declarations_extract_units, ← unplaced_unitsOf, List.flatMap_map]
  rfl

/-- Edges come from the units of contents. -/
theorem edges_extract_contents :
    (extract (contentReader fs refused broken) known files).edges =
      ((openedContents fs refused files).filterMap (unitOfContent? broken)).flatMap
        (edgesOfUnit known) := by
  rw [edges_extract_units, ← unplaced_unitsOf, List.flatMap_map]
  rfl

/-- Files have a document, and it is put together from the units of their contents. -/
theorem exists_document_isMadeOf (fs : FileSystem) (refused : Path → Option FileError)
    (broken : Bytes → Option String) (known : Registry) (files : List Path) :
    ∃ d, document? (contentReader fs refused broken) known files = some d ∧
      d.toExtract = extract (contentReader fs refused broken) known files ∧
      d.IsMadeOf known ((openedContents fs refused files).filterMap (unitOfContent? broken)) := by
  have hcomplete : ReadsCompletely (contentReader fs refused broken) :=
    readsCompletely_hinderedReader fs _
  refine ⟨_, hcomplete.document?_eq_some known files, rfl, declarations_extract_contents,
    edges_extract_contents, ?_⟩
  simp only [declarations_extract_contents, edges_extract_contents, PlantUml.layout,
    List.flatMap_assoc, List.map_flatMap]
  rfl

/-! ## Warnings -/

/-- The number of files that cannot be opened. -/
def closedCount (fs : FileSystem) (refused : Path → Option FileError) (files : List Path) : Nat :=
  files.countP fun p => (opened? fs refused p).isNone

/-- The warnings of files that can be opened. -/
def openedWarnings (fs : FileSystem) (refused : Path → Option FileError) (e : Extract) :
    List Warning :=
  e.warnings.filter fun w => (opened? fs refused w.path).isSome

/-- The warnings of an extract are counted by the files that leave them. -/
theorem countP_warnings_extract {reader : Reader} {known : Registry} (select : Path → Bool) :
    (extract reader known files).warnings.countP (fun w => select w.path) =
      files.countP fun p => select p && isOmitted reader p := by
  have hmap : (extract reader known files).warnings.countP (fun w => select w.path) =
      ((extract reader known files).warnings.map Warning.path).countP select := by
    rw [List.countP_map]
    rfl
  rw [hmap, path_warnings_extract, List.countP_filter]

/-- A file that can be opened leaves a warning if its content adds no unit. -/
theorem length_openedWarnings :
    (openedWarnings fs refused (extract (contentReader fs refused broken) known files)).length =
      (openedContents fs refused files).countP fun content =>
        (unitOfContent? broken content).isNone := by
  rw [openedWarnings, ← List.countP_eq_length_filter,
    countP_warnings_extract fun p => (opened? fs refused p).isSome, openedContents,
    List.countP_filterMap]
  refine List.countP_congr fun p _ => ?_
  rw [isOmitted_contentReader]
  cases opened? fs refused p <;> simp

/-- Every file that cannot be opened leaves a warning. -/
theorem length_warnings :
    (extract (contentReader fs refused broken) known files).warnings.length =
      (openedWarnings fs refused (extract (contentReader fs refused broken) known files)).length +
        closedCount fs refused files := by
  have hclosed : closedCount fs refused files =
      (extract (contentReader fs refused broken) known files).warnings.countP fun w =>
        (opened? fs refused w.path).isNone := by
    rw [countP_warnings_extract fun p => (opened? fs refused p).isNone]
    refine List.countP_congr fun p _ => ?_
    rw [isOmitted_contentReader]
    cases opened? fs refused p <;> simp
  rw [openedWarnings, ← List.countP_eq_length_filter, hclosed,
    List.length_eq_countP_add_countP fun w => (opened? fs refused w.path).isSome]
  congr 1
  exact List.countP_congr fun w _ => by simp

end Groups

/-! ## Trees -/

/-- A tree of source files, some of which may refuse to be opened. -/
structure SourceTree where
  fs : FileSystem
  root : Path
  extension : String := ".java"
  refused : Path → Option FileError := fun _ => none

namespace SourceTree

variable (t : SourceTree) (broken : Bytes → Option String)

/-- The files that a walk of the tree finds. -/
def files : List Path :=
  sourceFiles t.fs t.root t.extension

/-- The contents of these files, where they can be opened. -/
def contents : List Bytes :=
  openedContents t.fs t.refused t.files

/-- Reads the files of the tree. -/
def reader : Reader :=
  contentReader t.fs t.refused broken

/-- The types that the tree declares. -/
def registry : Registry :=
  registryOf (t.reader broken) t.files

/-- The extract of the tree. -/
def extract : Extract :=
  Diagram.extract (t.reader broken) (t.registry broken) t.files

/-- The diagram of the tree. -/
def document? : Option Document :=
  Diagram.document? (t.reader broken) (t.registry broken) t.files

/-- The units of the contents of the tree. -/
def units : List CompilationUnit :=
  t.contents.filterMap (unitOfContent? broken)

/-- No file of the tree refuses to be opened. -/
structure IsOpen (t : SourceTree) : Prop where
  hidden : t.fs.restrictions.hidden = []
  refused : ∀ p ∈ t.files, t.refused p = none

/-- The number of files of the tree that cannot be opened. -/
def closedCount : Nat :=
  Diagram.closedCount t.fs t.refused t.files

/-- The warnings of files of the tree that can be opened. -/
def openedWarnings : List Warning :=
  Diagram.openedWarnings t.fs t.refused (t.extract broken)

variable {t broken}

/-- The walk finds only files, so one that does not refuse itself can be opened. -/
theorem closedCount_eq_zero (h : t.IsOpen) : t.closedCount = 0 := by
  refine List.countP_eq_zero.mpr fun p hp => ?_
  have hhidden : ∀ l, t.fs.isHidden l = false := fun l => by simp [isHidden, h.hidden]
  obtain ⟨content, hread⟩ := exists_read_of_isFile hhidden (isFile_of_mem_sourceFiles hp)
  simp [opened?, h.refused p hp, hread, Except.toOption]

/-- The declarations are those of the units of the contents. -/
theorem declarations_extract :
    (t.extract broken).declarations = (t.units broken).flatMap CompilationUnit.declarations :=
  declarations_extract_contents

/-- The edges are those of the declarations of these units. -/
theorem edges_extract :
    (t.extract broken).edges = (t.units broken).flatMap (edgesOfUnit (t.registry broken)) :=
  edges_extract_contents

/-- The tree has a diagram, and it is put together from the units of the contents. -/
theorem exists_document (t : SourceTree) (broken : Bytes → Option String) :
    ∃ d, t.document? broken = some d ∧ d.toExtract = t.extract broken ∧
      d.IsMadeOf (t.registry broken) (t.units broken) :=
  exists_document_isMadeOf t.fs t.refused broken (t.registry broken) t.files

/-- A tree leaves as many warnings as contents without a unit and closed files. -/
theorem length_warnings_extract :
    (t.extract broken).warnings.length = (t.openedWarnings broken).length + t.closedCount :=
  length_warnings

/-- The registry knows what the units of the contents declare. -/
theorem mem_registry_iff {name : String} :
    name ∈ t.registry broken ↔
      ∃ d ∈ (t.units broken).flatMap CompilationUnit.declarations, d.qualifiedName = name := by
  rw [← declarations_extract]
  exact mem_registryOf_iff_declared

variable {t₁ t₂ : SourceTree}

/-- The same contents give the same units. -/
theorem units_perm (h : t₁.contents.Perm t₂.contents) :
    (t₁.units broken).Perm (t₂.units broken) :=
  h.filterMap _

/-- The same contents give the same declarations. -/
theorem declarations_perm (h : t₁.contents.Perm t₂.contents) :
    (t₁.extract broken).declarations.Perm (t₂.extract broken).declarations := by
  rw [declarations_extract, declarations_extract]
  exact (units_perm h).flatMap_right _

/-- The same contents declare the same types. -/
theorem registry_eq (h : t₁.contents.Perm t₂.contents) :
    t₁.registry broken = t₂.registry broken := by
  refine Registry.eq_of_mem_iff fun name => ?_
  simp only [mem_registry_iff, ← declarations_extract, (declarations_perm h).mem_iff]

/-- The same contents give the same edges. -/
theorem edges_perm (h : t₁.contents.Perm t₂.contents) :
    (t₁.extract broken).edges.Perm (t₂.extract broken).edges := by
  rw [edges_extract, edges_extract, registry_eq h]
  exact (units_perm h).flatMap_right _

/-- The same contents leave as many warnings. -/
theorem length_openedWarnings_eq (h : t₁.contents.Perm t₂.contents) :
    (t₁.openedWarnings broken).length = (t₂.openedWarnings broken).length := by
  calc (t₁.openedWarnings broken).length
      = t₁.contents.countP fun content => (unitOfContent? broken content).isNone :=
        length_openedWarnings
    _ = t₂.contents.countP fun content => (unitOfContent? broken content).isNone :=
        h.countP_eq _
    _ = (t₂.openedWarnings broken).length := length_openedWarnings.symm

end SourceTree

/-- Trees whose files hold the same contents, whatever the names of the files and the
directories in which they stand, have the same registry.  Their extracts have the same
declarations and edges up to their order, and as many warnings of files that could be
opened; of all files, as many exactly if as many could not be opened, as when none
refuses itself.  The diagrams are made of the same units up to the order of the units. -/
theorem placement_immaterial (broken : Bytes → Option String) {t₁ t₂ : SourceTree}
    (h : t₁.contents.Perm t₂.contents) :
    let known := t₁.registry broken
    let e₁ := t₁.extract broken
    let e₂ := t₂.extract broken
    t₂.registry broken = known ∧
      e₁.declarations.Perm e₂.declarations ∧ e₁.edges.Perm e₂.edges ∧
      (t₁.openedWarnings broken).length = (t₂.openedWarnings broken).length ∧
      (e₁.warnings.length = e₂.warnings.length ↔ t₁.closedCount = t₂.closedCount) ∧
      (t₁.IsOpen → t₂.IsOpen → e₁.warnings.length = e₂.warnings.length) ∧
      (t₁.units broken).Perm (t₂.units broken) ∧
      ∃ d₁ d₂, t₁.document? broken = some d₁ ∧ t₂.document? broken = some d₂ ∧
        d₁.toExtract = e₁ ∧ d₂.toExtract = e₂ ∧
        d₁.IsMadeOf known (t₁.units broken) ∧ d₂.IsMadeOf known (t₂.units broken) := by
  intro known e₁ e₂
  have hopened : (t₁.openedWarnings broken).length = (t₂.openedWarnings broken).length :=
    SourceTree.length_openedWarnings_eq h
  have hwarnings : e₁.warnings.length = e₂.warnings.length ↔ t₁.closedCount = t₂.closedCount := by
    simp only [e₁, e₂, SourceTree.length_warnings_extract, hopened]
    omega
  have hknown : t₁.registry broken = t₂.registry broken := SourceTree.registry_eq h
  obtain ⟨d₁, hdocument₁, hextract₁, hmade₁⟩ := t₁.exists_document broken
  obtain ⟨d₂, hdocument₂, hextract₂, hmade₂⟩ := t₂.exists_document broken
  rw [← hknown] at hmade₂
  refine ⟨hknown.symm, SourceTree.declarations_perm h, SourceTree.edges_perm h, hopened,
    hwarnings, fun hopen₁ hopen₂ => hwarnings.mpr ?_, SourceTree.units_perm h,
    d₁, d₂, hdocument₁, hdocument₂, hextract₁, hextract₂, hmade₁, hmade₂⟩
  rw [SourceTree.closedCount_eq_zero hopen₁, SourceTree.closedCount_eq_zero hopen₂]

/-! ## The same files elsewhere -/

/-- A class that refers to the class of the next file, and a file without a unit. -/
def flatTree : SourceTree where
  fs :=
    { entries :=
        [(["src"], .directory),
          (["src", "A.java"], .file (encode "package p; class A \x7b B b; \x7d") 420),
          (["src", "B.java"], .file (encode "package p; class B \x7b\x7d") 420),
          (["src", "C.java"], .file (encode "class \x7b") 420)]
      workingDirectory := [] }
  root := pathOf ["src"]

/-- The same contents under other names, one of them in a directory of its own. -/
def deepTree : SourceTree where
  fs :=
    { entries :=
        [(["lib"], .directory),
          (["lib", "b.java"], .file (encode "class \x7b") 420),
          (["lib", "c.java"], .file (encode "package p; class B \x7b\x7d") 420),
          (["lib", "deep"], .directory),
          (["lib", "deep", "z.java"], .file (encode "package p; class A \x7b B b; \x7d") 420)]
      workingDirectory := [] }
  root := pathOf ["lib"]

private theorem sound_flatTree : flatTree.fs.Sound := by
  refine sound_of_entries rfl ?_
  simp [flatTree, node?, List.lookup_cons, IsEntryName, Path.isName]
  decide

private theorem sound_deepTree : deepTree.fs.Sound := by
  refine sound_of_entries rfl ?_
  simp [deepTree, node?, List.lookup_cons, IsEntryName, Path.isName]
  decide

private theorem files_flatTree :
    flatTree.files =
      [pathOf ["src", "A.java"], pathOf ["src", "B.java"], pathOf ["src", "C.java"]] := by
  have hnames : listedNames flatTree.fs ["src"] = ["A.java", "B.java", "C.java"] :=
    listedNames_eq rfl rfl (by decide)
  have hdepth : depthBound flatTree.fs = 3 := rfl
  have hroot : flatTree.root = pathOf ["src"] := rfl
  rw [SourceTree.files, hroot, sourceFiles_pathOf sound_flatTree (by decide) rfl, hdepth,
    filesBelow_succ_eq ["A.java", "B.java", "C.java"] [] hnames rfl rfl]
  rfl

private theorem files_deepTree :
    deepTree.files =
      [pathOf ["lib", "b.java"], pathOf ["lib", "c.java"], pathOf ["lib", "deep", "z.java"]] := by
  have hnames : listedNames deepTree.fs ["lib"] = ["b.java", "c.java", "deep"] :=
    listedNames_eq rfl rfl (by decide)
  have hnames' : listedNames deepTree.fs ["lib", "deep"] = ["z.java"] :=
    listedNames_eq rfl rfl (by decide)
  have hbelow : filesBelow deepTree.fs deepTree.extension 3 (pathOf ["lib", "deep"])
      ["lib", "deep"] = [pathOf ["lib", "deep", "z.java"]] :=
    filesBelow_succ_eq ["z.java"] [] hnames' rfl rfl
  have hnormal : (pathOf ["lib"]).normal = pathOf ["lib"] := rfl
  have hdepth : depthBound deepTree.fs = 4 := rfl
  have hroot : deepTree.root = pathOf ["lib"] := rfl
  rw [SourceTree.files, hroot, sourceFiles_pathOf sound_deepTree (by decide) rfl, hdepth,
    filesBelow_succ_eq ["b.java", "c.java"] ["deep"] hnames rfl rfl]
  simp [hbelow, child_pathOf, hnormal]

private theorem contents_perm_deepTree : flatTree.contents.Perm deepTree.contents := by
  have hreverse : deepTree.contents = flatTree.contents.reverse := by
    rw [SourceTree.contents, SourceTree.contents, files_flatTree, files_deepTree]
    rfl
  rw [hreverse]
  exact (List.reverse_perm _).symm

/-- In both trees the class is known to refer to the other one, and one file is left out. -/
theorem placement_immaterial_deepTree :
    let intact : Bytes → Option String := fun _ => none
    (flatTree.extract intact).edges = [⟨"p.A", "p.B", .association, some "b"⟩] ∧
      (deepTree.extract intact).edges = [⟨"p.A", "p.B", .association, some "b"⟩] ∧
      ((flatTree.extract intact).declarations.map Declaration.qualifiedName = ["p.A", "p.B"]) ∧
      ((deepTree.extract intact).declarations.map Declaration.qualifiedName = ["p.B", "p.A"]) ∧
      (flatTree.extract intact).declarations.Perm (deepTree.extract intact).declarations ∧
      (flatTree.extract intact).warnings.length = (deepTree.extract intact).warnings.length := by
  intro intact
  obtain ⟨-, hdeclarations, -, -, -, hwarnings, -⟩ :=
    placement_immaterial intact contents_perm_deepTree
  refine ⟨?_, ?_, ?_, ?_, hdeclarations, hwarnings ⟨rfl, fun _ _ => rfl⟩ ⟨rfl, fun _ _ => rfl⟩⟩
  all_goals
    simp only [SourceTree.extract, SourceTree.registry, files_flatTree, files_deepTree]
    decide +kernel

/-! ## A file that cannot be opened -/

/-- The first tree with a file more that refuses to be opened. -/
def closedTree : SourceTree where
  fs :=
    { flatTree.fs with
      entries := flatTree.fs.entries ++
        [(["src", "D.java"], .file (encode "class D \x7b\x7d") 0)] }
  root := pathOf ["src"]
  refused := fun p => if p = pathOf ["src", "D.java"] then some .permissionDenied else none

private theorem sound_closedTree : closedTree.fs.Sound := by
  refine sound_of_entries rfl ?_
  simp [closedTree, flatTree, node?, List.lookup_cons, IsEntryName, Path.isName]
  decide

private theorem files_closedTree :
    closedTree.files = flatTree.files ++ [pathOf ["src", "D.java"]] := by
  have hnames : listedNames closedTree.fs ["src"] = ["A.java", "B.java", "C.java", "D.java"] :=
    listedNames_eq rfl rfl (by decide)
  have hdepth : depthBound closedTree.fs = 3 := rfl
  have hroot : closedTree.root = pathOf ["src"] := rfl
  rw [SourceTree.files, hroot, sourceFiles_pathOf sound_closedTree (by decide) rfl, hdepth,
    filesBelow_succ_eq ["A.java", "B.java", "C.java", "D.java"] [] hnames rfl rfl,
    files_flatTree]
  rfl

/-- The files that can be opened hold the same contents in both trees, and still one of
them has a warning more: the file that cannot be opened leaves it. -/
theorem closedTree_warns :
    let intact : Bytes → Option String := fun _ => none
    flatTree.contents.Perm closedTree.contents ∧
      (flatTree.extract intact).warnings.length ≠ (closedTree.extract intact).warnings.length := by
  intro intact
  have hcontents : closedTree.contents = flatTree.contents := by
    rw [SourceTree.contents, SourceTree.contents, files_closedTree, files_flatTree]
    rfl
  refine ⟨.of_eq hcontents.symm, ?_⟩
  rw [SourceTree.length_warnings_extract, SourceTree.length_warnings_extract,
    SourceTree.length_openedWarnings_eq (.of_eq hcontents.symm)]
  simp only [SourceTree.closedCount, files_closedTree, files_flatTree]
  have hopen : Diagram.closedCount flatTree.fs flatTree.refused
      [pathOf ["src", "A.java"], pathOf ["src", "B.java"], pathOf ["src", "C.java"]] = 0 := rfl
  have hclosed : Diagram.closedCount closedTree.fs closedTree.refused
      ([pathOf ["src", "A.java"], pathOf ["src", "B.java"], pathOf ["src", "C.java"]] ++
        [pathOf ["src", "D.java"]]) = 1 := rfl
  omega

end JavaAtlas.Diagram
