import JavaAtlas.Proofs.Diagram.Answering
import JavaAtlas.Proofs.Diagram.Influence
import JavaAtlas.Proofs.Source.Removal

/-!
# Files that cannot be used

Every file of a walk adds either its unit or one warning.  A file that leaves a
warning leaves nothing else: without it the registry, the declarations, the edges and
the text are the same, and the warnings are the same but for its own.  Removing it
must not take other files of the walk away, as it does if they are links to it.

Main results:

- Theorem `path_warnings_extract`: the warnings are those of the files that add no unit.
- Theorem `registryOf_insert`, theorem `declarations_extract_insert`,
  theorem `edges_extract_insert`, theorem `warnings_extract_insert`: what one unusable
  file adds to the others.
- Theorem `unusable_file_isolated`: a tree with such a file and the tree without it.
- Theorem `unusable_file_taken_with_link`: a link to the file goes with it.
-/

namespace JavaAtlas.Diagram

open Config Java Source Storage FileSystem
open Text.Utf8 (encode)

/-! ## Units and warnings -/

section Passes

variable {reader : Reader} {known : Registry} {files before after : List Path} {p : Path}
  {w : Warning}

/-- The file adds no unit. -/
def isOmitted (reader : Reader) (p : Path) : Bool :=
  (contribution reader p).toOption.isNone

/-- The units that files add, in their order. -/
def unitsOf (reader : Reader) (files : List Path) : List CompilationUnit :=
  files.filterMap fun p => (contribution reader p).toOption

/-- A warning carries the path of its file. -/
theorem path_of_contribution (h : contribution reader p = .error w) : w.path = p := by
  unfold contribution at h
  split at h
  case h_1 =>
    cases h
    rfl
  case h_2 u _ =>
    by_cases hvalid : u.isValid = true
    · rw [if_pos hvalid] at h
      cases h
    · rw [if_neg hvalid] at h
      cases h
      rfl

theorem extractOfFile_of_ok {u : CompilationUnit} (h : contribution reader p = .ok u) :
    extractOfFile reader known p = extractOfUnit known u := by
  rw [extractOfFile, h]

theorem extractOfFile_of_error (h : contribution reader p = .error w) :
    extractOfFile reader known p = ⟨[], [], [w]⟩ := by
  rw [extractOfFile, h]

/-- A part of an extract comes from the units, if files that add none have none of it. -/
private theorem flatMap_extractOfFile {α : Type} {part : Extract → List α}
    (homitted : ∀ w, part ⟨[], [], [w]⟩ = []) :
    (files.flatMap fun p => part (extractOfFile reader known p)) =
      (unitsOf reader files).flatMap fun u => part (extractOfUnit known u) := by
  unfold unitsOf
  induction files with
  | nil => rfl
  | cons p files ih =>
      rw [List.flatMap_cons, ih]
      cases h : contribution reader p with
      | ok u => simp [extractOfFile_of_ok h, h, Except.toOption]
      | error w => simp [extractOfFile_of_error h, homitted, h, Except.toOption]

/-- The declarations are those of the units. -/
theorem declarations_extract_units :
    (extract reader known files).declarations =
      (unitsOf reader files).flatMap CompilationUnit.declarations := by
  rw [declarations_extract, flatMap_extractOfFile fun _ => rfl]
  rfl

/-- The edges are those of the declarations of the units. -/
theorem edges_extract_units :
    (extract reader known files).edges =
      (unitsOf reader files).flatMap fun u =>
        u.declarations.flatMap (edgesOf (scopeOf known u)) := by
  rw [edges_extract, flatMap_extractOfFile fun _ => rfl]
  rfl

/-- The warnings are those of the files that add no unit, one of each. -/
theorem path_warnings_extract :
    (extract reader known files).warnings.map Warning.path =
      files.filter (isOmitted reader) := by
  rw [warnings_extract]
  induction files with
  | nil => rfl
  | cons p files ih =>
      rw [List.flatMap_cons, List.map_append, ih, List.filter_cons]
      cases h : contribution reader p with
      | ok u => simp [extractOfFile_of_ok h, extractOfUnit, isOmitted, h, Except.toOption]
      | error w =>
          simp [extractOfFile_of_error h, path_of_contribution h, isOmitted, h, Except.toOption]

/-! ## One file among others -/

theorem registryOf_insert (h : contribution reader p = .error w) :
    registryOf reader (before ++ p :: after) = registryOf reader (before ++ after) := by
  simp [registryOf, declaredNames, h]

theorem declarations_extract_insert (h : contribution reader p = .error w) :
    (extract reader known (before ++ p :: after)).declarations =
      (extract reader known (before ++ after)).declarations := by
  simp [declarations_extract, extractOfFile_of_error h]

theorem edges_extract_insert (h : contribution reader p = .error w) :
    (extract reader known (before ++ p :: after)).edges =
      (extract reader known (before ++ after)).edges := by
  simp [edges_extract, extractOfFile_of_error h]

theorem warnings_extract_insert (h : contribution reader p = .error w) :
    (extract reader known (before ++ p :: after)).warnings =
      (extract reader known before).warnings ++ w :: (extract reader known after).warnings := by
  simp [warnings_extract, extractOfFile_of_error h]

theorem warnings_extract_append :
    (extract reader known (before ++ after)).warnings =
      (extract reader known before).warnings ++ (extract reader known after).warnings := by
  simp [warnings_extract]

end Passes

/-! ## Trees with and without the file -/

section Trees

variable {fs : FileSystem} {s : DiagramSettings} {l r : Location}

/-- The entry of a file is no directory. -/
theorem isLeaf_of_mem_requestedFiles (hs : fs.Sound) (hl : fs.node? l = some .directory)
    (h : pathOf r ∈ requestedFiles fs s l) : fs.IsLeaf r := by
  have hfile := isFile_of_mem_sourceFiles h
  rw [requestedFiles, sourceFiles_eq_filter] at h
  obtain ⟨m, rest, hr, hnode⟩ := exists_of_mem_candidates hs hl (List.mem_filter.mp h).1
  obtain rfl : r = l ++ m :: rest := pathOf_inj.mp hr
  obtain ⟨node, hnode⟩ := Option.ne_none_iff_exists'.mp hnode
  refine ⟨node, hnode, ?_⟩
  rintro rfl
  obtain ⟨content, mode, hstatus⟩ := isFile_iff.mp hfile
  have hsame := hs.nodeAt_pathOf hnode (not_isLink_of_directory hnode)
  cases hsame.symm.trans (status_eq_ok_iff.mp hstatus).2

/-- The files that remain are read like before. -/
theorem hinderedReader_drop {hindrances : Hindrances} {p : Path}
    (h : (fs.drop r).isFile p = true) :
    hinderedReader (fs.drop r) hindrances p = hinderedReader fs hindrances p :=
  hinderedReader_congr ((isPart_drop fs r).read_eq h)

/-- Every file of a walk adds its unit or one warning with its path, and all of them do
so in the order of the walk.  A file below a directory that leaves a warning leaves
nothing else, if it stands alone: the tree without it has the same files but for that
one, the same registry, declarations, edges and text, and the same warnings but for its
own, which stands at the place of the file. -/
theorem unusable_file_isolated (fs : FileSystem) (hindrances : Hindrances)
    (s : DiagramSettings) (l : Location) :
    let reader := hinderedReader fs hindrances
    let files := requestedFiles fs s l
    let known := registryBelow fs reader s l
    let e := extractBelow fs reader s l
    (e.declarations = (unitsOf reader files).flatMap CompilationUnit.declarations ∧
      e.edges = ((unitsOf reader files).flatMap fun u =>
        u.declarations.flatMap (edgesOf (scopeOf known u))) ∧
      e.warnings.map Warning.path = files.filter (isOmitted reader)) ∧
    (fs.Sound → fs.node? l = some .directory → ∀ r w, pathOf r ∈ files →
      contribution reader (pathOf r) = .error w → StandsAlone fs r files →
      let rest := fs.drop r
      let reader' := hinderedReader rest hindrances
      let e' := extractBelow rest reader' s l
      w.path = pathOf r ∧ registryBelow rest reader' s l = known ∧
        e'.declarations = e.declarations ∧ e'.edges = e.edges ∧
        (∃ before after,
          files = before ++ pathOf r :: after ∧ requestedFiles rest s l = before ++ after ∧
          ∃ w₁ w₂, w₁.map Warning.path = before.filter (isOmitted reader) ∧
            w₂.map Warning.path = after.filter (isOmitted reader) ∧
            e.warnings = w₁ ++ w :: w₂ ∧ e'.warnings = w₁ ++ w₂) ∧
        ∀ directory d, validate fs s directory = .ok l → validate rest s directory = .ok l →
          answerWith fs reader s directory = .ok d →
          ∃ d', answerWith rest reader' s directory = .ok d' ∧
            d.toExtract = e ∧ d'.toExtract = e' ∧ d'.text = d.text) := by
  intro reader files known e
  refine ⟨⟨declarations_extract_units, edges_extract_units, path_warnings_extract⟩, ?_⟩
  intro hs hl r w hr hw halone rest reader' e'
  have hleaf : fs.IsLeaf r := isLeaf_of_mem_requestedFiles hs hl hr
  obtain ⟨before, after, hfiles, hrest⟩ := halone.exists_sourceFiles_eq hs hleaf hl hr
  have hfiles : files = before ++ pathOf r :: after := hfiles
  have hrest : requestedFiles rest s l = before ++ after := hrest
  have hreaders : ∀ p ∈ before ++ after, reader' p = reader p := by
    intro p hp
    rw [← hrest] at hp
    exact hinderedReader_drop (isFile_of_mem_sourceFiles hp)
  have hknown : registryBelow rest reader' s l = known := by
    simp only [known, registryBelow]
    rw [hrest, registryOf_congr hreaders, show requestedFiles fs s l = _ from hfiles,
      registryOf_insert hw]
  have he : e = extract reader known (before ++ pathOf r :: after) :=
    congrArg (extract reader known) hfiles
  have he' : e' = extract reader known (before ++ after) := by
    simp only [e', extractBelow, hknown]
    rw [hrest, extract_congr hreaders]
  have hdeclarations : e'.declarations = e.declarations := by
    rw [he, he', declarations_extract_insert hw]
  have hedges : e'.edges = e.edges := by
    rw [he, he', edges_extract_insert hw]
  refine ⟨path_of_contribution hw, hknown, hdeclarations, hedges, ?_, ?_⟩
  · refine ⟨before, after, hfiles, hrest, (extract reader known before).warnings,
      (extract reader known after).warnings, path_warnings_extract, path_warnings_extract, ?_, ?_⟩
    · rw [he, warnings_extract_insert hw]
    · rw [he', warnings_extract_append]
  · intro directory d hvalid hvalid' hd
    have hcomplete : ReadsCompletely reader := readsCompletely_hinderedReader fs hindrances
    have hcomplete' : ReadsCompletely reader' := readsCompletely_hinderedReader rest hindrances
    have hwalk := (answered_iff hcomplete hvalid).mp ⟨d, hd⟩
    obtain rfl := Except.ok.inj ((answerWith_eq_ok hcomplete hvalid hwalk).symm.trans hd)
    have hwalk' := walkFault?_drop_eq_none hs hleaf hl hwalk
    refine ⟨_, answerWith_eq_ok hcomplete' hvalid' hwalk', rfl, rfl, ?_⟩
    change Text.ended (PlantUml.layout e'.declarations e'.edges) =
      Text.ended (PlantUml.layout e.declarations e.edges)
    rw [hdeclarations, hedges]

end Trees

/-- A class with a field of a type in another directory, a file that breaks the grammar,
and a link to the other directory. -/
def brokenBesideLink : FileSystem where
  entries :=
    [(["src"], .directory),
      (["src", "A.java"], .file (encode "class A \x7b B b; \x7d") 420),
      (["src", "Bad.java"], .file (encode "class B \x7b \x7d class A \x7b") 420),
      (["src", "Link.java"], .link "sub/B.java"),
      (["src", "sub"], .directory),
      (["src", "sub", "B.java"], .file (encode "class B \x7b\x7d") 420)]
  workingDirectory := []

private theorem sound_brokenBesideLink : brokenBesideLink.Sound := by
  refine sound_of_entries rfl ?_
  simp [brokenBesideLink, node?, List.lookup_cons, IsEntryName, Path.isName]
  decide

private theorem requestedFiles_brokenBesideLink :
    requestedFiles brokenBesideLink {} ["src"] =
      [pathOf ["src", "A.java"], pathOf ["src", "Bad.java"], pathOf ["src", "Link.java"],
        pathOf ["src", "sub", "B.java"]] := by
  have hnames : listedNames brokenBesideLink ["src"] =
      ["A.java", "Bad.java", "Link.java", "sub"] :=
    listedNames_eq rfl rfl (by decide)
  have hnames' : listedNames brokenBesideLink ["src", "sub"] = ["B.java"] :=
    listedNames_eq rfl rfl (by decide)
  have hbelow : filesBelow brokenBesideLink ".java" 3 (pathOf ["src", "sub"]) ["src", "sub"] =
      [pathOf ["src", "sub", "B.java"]] :=
    filesBelow_succ_eq ["B.java"] [] hnames' rfl rfl
  have hnormal : (pathOf ["src"]).normal = pathOf ["src"] := rfl
  have hdepth : depthBound brokenBesideLink = 4 := rfl
  rw [requestedFiles, sourceFiles_pathOf sound_brokenBesideLink (by decide) rfl, hdepth,
    filesBelow_succ_eq ["A.java", "Bad.java", "Link.java"] ["sub"] hnames rfl rfl]
  simp [hbelow, child_pathOf, hnormal]

/-- Beside a link to a file that can be used, the one that cannot leaves its warning
alone. -/
theorem isolated_brokenBesideLink :
    let fs := brokenBesideLink
    let rest := fs.drop ["src", "Bad.java"]
    let e := extractBelow fs (hinderedReader fs {}) {} ["src"]
    let e' := extractBelow rest (hinderedReader rest {}) {} ["src"]
    StandsAlone fs ["src", "Bad.java"] (requestedFiles fs {} ["src"]) ∧
      e'.edges = e.edges ∧ e.edges = [⟨"A", "B", .association, some "b"⟩] ∧
      e'.warnings = [] ∧ e.warnings.map Warning.path = [pathOf ["src", "Bad.java"]] := by
  intro fs rest e e'
  have halone : StandsAlone fs ["src", "Bad.java"] (requestedFiles fs {} ["src"]) := by
    unfold StandsAlone
    rw [requestedFiles_brokenBesideLink]
    decide +kernel
  have hmem : pathOf ["src", "Bad.java"] ∈ requestedFiles fs {} ["src"] := by
    rw [requestedFiles_brokenBesideLink]
    decide
  obtain ⟨w, hw⟩ : ∃ w, contribution (hinderedReader fs {}) (pathOf ["src", "Bad.java"]) =
      .error w :=
    ⟨⟨pathOf ["src", "Bad.java"], .problems [.syntaxFault 1]⟩, by decide +kernel⟩
  obtain ⟨⟨-, -, hpaths⟩, hisolated⟩ := unusable_file_isolated fs {} {} ["src"]
  obtain ⟨-, -, -, hedges, ⟨-, -, -, -, w₁, w₂, -, -, hwarnings, hwarnings'⟩, -⟩ :=
    hisolated sound_brokenBesideLink rfl _ w hmem hw halone
  have homitted : (requestedFiles fs {} ["src"]).filter (isOmitted (hinderedReader fs {})) =
      [pathOf ["src", "Bad.java"]] := by
    rw [requestedFiles_brokenBesideLink]
    decide +kernel
  have hedge : e.edges = [⟨"A", "B", .association, some "b"⟩] := by
    simp only [e, extractBelow, registryBelow, fs, requestedFiles_brokenBesideLink]
    decide +kernel
  rw [homitted] at hpaths
  refine ⟨halone, hedges, hedge, ?_, hpaths⟩
  have hnone : w₁ = [] ∧ w₂ = [] := by
    rw [hwarnings] at hpaths
    have hlength := congrArg List.length hpaths
    simp only [List.map_append, List.map_cons, List.length_append, List.length_cons,
      List.length_map, List.length_nil] at hlength
    exact ⟨List.length_eq_zero_iff.mp (by omega), List.length_eq_zero_iff.mp (by omega)⟩
  rw [hwarnings', hnone.1, hnone.2]
  rfl

/-! ## Links to the file -/

/-- A file that breaks the grammar and a link to it. -/
def brokenWithLink : FileSystem where
  entries :=
    [(["src"], .directory),
      (["src", "Bad.java"], .file (encode "class \x7b") 420),
      (["src", "Copy.java"], .link "Bad.java")]
  workingDirectory := []

/-- When the file is removed the link leads nowhere: two warnings are gone, not one. -/
theorem unusable_file_taken_with_link :
    let fs := brokenWithLink
    let rest := fs.drop ["src", "Bad.java"]
    (extractBelow fs (plainReader fs) {} ["src"]).warnings.map Warning.path =
        [pathOf ["src", "Bad.java"], pathOf ["src", "Copy.java"]] ∧
      extractBelow rest (plainReader rest) {} ["src"] = ⟨[], [], []⟩ := by
  intro fs rest
  have hnames : listedNames fs ["src"] = ["Bad.java", "Copy.java"] :=
    listedNames_eq rfl rfl (by decide)
  have hnames' : listedNames rest ["src"] = ["Copy.java"] :=
    listedNames_eq rfl rfl (by decide)
  have hreach : fs.reach true (pathOf ["src"]) = .ok ["src"] := rfl
  have hreach' : rest.reach true (pathOf ["src"]) = .ok ["src"] := rfl
  have hdepth : depthBound fs = 3 := rfl
  have hdepth' : depthBound rest = 3 := rfl
  have hrequested : requestedFiles fs {} ["src"] =
      [pathOf ["src", "Bad.java"], pathOf ["src", "Copy.java"]] := by
    rw [requestedFiles, sourceFiles, hreach, hdepth]
    exact filesBelow_succ_eq ["Bad.java", "Copy.java"] [] hnames rfl rfl
  have hrequested' : requestedFiles rest {} ["src"] = [] := by
    rw [requestedFiles, sourceFiles, hreach', hdepth']
    exact filesBelow_succ_eq [] [] hnames' rfl rfl
  constructor
  · rw [extractBelow, path_warnings_extract, hrequested]
    decide +kernel
  · rw [extractBelow, hrequested']
    rfl

end JavaAtlas.Diagram
