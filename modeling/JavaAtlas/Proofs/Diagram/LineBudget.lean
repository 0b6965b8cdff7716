import JavaAtlas.Proofs.Diagram.Answering

/-!
# The number of lines of a document

A document has a line for every marker, header, field declaration, method,
closing brace and edge.  Its text has more lines than that exactly if the package
of a declaration is written over several lines: no other text that comes out of a
source file can break a line of the document, whatever keeps other files from being read.

Main results:

- Theorem `sum_breaks_extract_eq_zero`: the lines of an extract are unbroken if and
  only if the packages of its files are.
- Theorem `lineCount_eq_budget_iff`: the text of a document has the lines that were
  laid out for it, and no more, if and only if those packages are unbroken.
- Theorem `lineCount_brokenPackage`: a package over two lines adds a line.
-/

namespace JavaAtlas.Diagram

open Java Source Storage
open FileSystem (pathOf)

/-- No file that declares a type writes the name of its package over several lines. -/
def PackagesUnbroken (reader : Reader) (files : List Path) : Prop :=
  ∀ p ∈ files, ∀ u, contribution reader p = .ok u → u.declarations ≠ [] →
    '\n' ∉ u.package.toList

/-- The lines that a document takes. -/
def Extract.lineBudget (e : Extract) : Nat :=
  2 + (e.declarations.map PlantUml.lineBudget).sum + e.edges.length

namespace ReadsCompletely

variable {reader : Reader} {files : List Path}

/-- The line ends inside the lines of an extract stand in the names of its types. -/
theorem sum_breaks_extract (h : ReadsCompletely reader) {known : Registry} :
    let e := extract reader known files
    ((PlantUml.layout e.declarations e.edges).map Text.breaks).sum =
      (e.declarations.map fun d => Text.breaks d.qualifiedName).sum +
        (e.edges.map fun edge => Text.breaks edge.source + Text.breaks edge.target).sum := by
  intro e
  refine PlantUml.sum_breaks_layout (fun d hd => ?_) fun edge hedge label hlabel => ?_
  · obtain ⟨p, -, u, -, -, hunbroken⟩ := h.exists_unbroken hd
    exact ⟨u.package, hunbroken⟩
  · exact h.breaks_label hedge hlabel

/-- The names of all declared types are unbroken if and only if the packages are. -/
theorem breaks_qualifiedName_eq_zero_iff (h : ReadsCompletely reader) {known : Registry} :
    (∀ d ∈ (extract reader known files).declarations, Text.breaks d.qualifiedName = 0) ↔
      PackagesUnbroken reader files := by
  constructor
  · intro hnames p hp u hu hne
    obtain ⟨d, hd⟩ := List.exists_mem_of_ne_nil _ hne
    have hunbroken := (h p u hu).unbroken d hd
    rw [← Text.breaks_eq_zero, ← hunbroken.breaks_qualifiedName]
    exact hnames d (mem_declarations_extract.mpr ⟨p, hp, u, hu, hd⟩)
  · intro hpackages d hd
    obtain ⟨p, hp, u, hu, hd, hunbroken⟩ := h.exists_unbroken hd
    rw [hunbroken.breaks_qualifiedName, Text.breaks_eq_zero]
    exact hpackages p hp u hu (List.ne_nil_of_mem hd)

/-- The lines of the extract of files against their own registry are unbroken if and
only if the packages of the files are. -/
theorem sum_breaks_extract_eq_zero (h : ReadsCompletely reader) :
    let e := extract reader (registryOf reader files) files
    ((PlantUml.layout e.declarations e.edges).map Text.breaks).sum = 0 ↔
      PackagesUnbroken reader files := by
  intro e
  rw [h.sum_breaks_extract, ← h.breaks_qualifiedName_eq_zero_iff]
  constructor
  · intro hsum d hd
    have hnames := (Nat.add_eq_zero_iff.mp hsum).1
    rw [List.sum_eq_zero_iff_forall_eq_nat] at hnames
    exact hnames _ (List.mem_map_of_mem hd)
  · intro hnames
    -- both ends of an edge are names of declared types
    have hdeclared : ∀ name ∈ registryOf reader files, Text.breaks name = 0 := by
      intro name hname
      obtain ⟨d, hd, rfl⟩ := mem_registryOf_iff_declared.mp hname
      exact hnames d hd
    rw [Nat.add_eq_zero_iff, List.sum_eq_zero_iff_forall_eq_nat,
      List.sum_eq_zero_iff_forall_eq_nat]
    refine ⟨fun n hn => ?_, fun n hn => ?_⟩
    · obtain ⟨d, hd, rfl⟩ := List.mem_map.mp hn
      exact hnames d hd
    · obtain ⟨edge, hedge, rfl⟩ := List.mem_map.mp hn
      obtain ⟨d, hd, hsource⟩ := exists_source_of_mem_edges_extract hedge
      rw [← hsource, hnames d hd, hdeclared _ (target_mem_of_mem_edges_extract hedge)]

end ReadsCompletely

/-- An accepted request is answered exactly if its walk does not break off.  The answer is
a text of the lines that are laid out for its declarations and edges, each with its end.
The text has exactly so many lines, and its lines are exactly those, if and only if no
package is written over several lines; all other texts of the declarations are unbroken in
any case. -/
theorem lineCount_eq_budget_iff {fs : FileSystem} (hindrances : Hindrances)
    {s : Config.DiagramSettings} {directory : String} {l : Location}
    (h : validate fs s directory = .ok l) :
    let reader := hinderedReader fs hindrances
    ((∃ d, answerWith fs reader s directory = .ok d) ↔
      walkFault? fs (pathOf l) s.sourceExtension = none) ∧
    ∀ d, answerWith fs reader s directory = .ok d →
      d.text = Text.ended (PlantUml.layout d.declarations d.edges) ∧
      (PlantUml.layout d.declarations d.edges).length = d.lineBudget ∧
      (∀ decl ∈ d.declarations, ∃ package, decl.Unbroken package) ∧
      (∀ e ∈ d.edges, ∀ label, e.label = some label → '\n' ∉ label.toList) ∧
      (Text.lineCount d.text = d.lineBudget ↔
        PackagesUnbroken reader (requestedFiles fs s l)) ∧
      ((∀ line ∈ PlantUml.layout d.declarations d.edges, '\n' ∉ line.toList) ↔
        PackagesUnbroken reader (requestedFiles fs s l)) := by
  intro reader
  have hreader : ReadsCompletely reader := readsCompletely_hinderedReader fs hindrances
  refine ⟨answered_iff hreader h, fun d hd => ?_⟩
  obtain ⟨hextract, htext⟩ := eq_of_answerWith_eq_ok hreader h hd
  have hwritable : ∀ decl ∈ d.declarations, PlantUml.IsWritable decl := by
    rw [hextract]
    exact hreader.isWritable
  have hlength : (PlantUml.layout d.declarations d.edges).length = d.lineBudget :=
    PlantUml.length_layout hwritable
  have hpackages : ((PlantUml.layout d.declarations d.edges).map Text.breaks).sum = 0 ↔
      PackagesUnbroken reader (requestedFiles fs s l) := by
    rw [hextract]
    exact hreader.sum_breaks_extract_eq_zero
  refine ⟨htext, hlength, ?_, ?_, ?_, ?_⟩
  · intro decl hdecl
    rw [hextract] at hdecl
    obtain ⟨p, -, u, -, -, hunbroken⟩ := hreader.exists_unbroken hdecl
    exact ⟨u.package, hunbroken⟩
  · intro e he label hlabel
    rw [hextract] at he
    exact Text.breaks_eq_zero.mp (hreader.breaks_label he hlabel)
  · rw [← hpackages, htext, Text.lineCount_ended, hlength]
    omega
  · rw [← hpackages, Text.sum_breaks_eq_zero]
    simp only [Text.breaks_eq_zero]

/-- A source tree of one file. -/
def oneFile (text : String) : FileSystem where
  entries := [(["src"], .directory), (["src", "C.java"], .file (Text.Utf8.encode text) 420)]
  workingDirectory := []

private theorem sound_oneFile (text : String) : (oneFile text).Sound := by
  refine FileSystem.sound_of_entries rfl ?_
  simp [oneFile, FileSystem.node?, List.lookup_cons, FileSystem.IsEntryName, Path.isName]
  decide

private theorem linksShort_oneFile (text : String) : (oneFile text).LinksShort := by
  refine FileSystem.linksShort_of_entries ?_
  simp [oneFile]

/-- A type over two lines and a comment between words break no line. -/
theorem lineCount_eq_budget_splitType :
    let fs := oneFile "package a.b;\nclass /* the\nclass */ C \x7b Map<String,\n C> m; \x7d"
    validate fs {} "/src" = .ok ["src"] ∧
      ∃ d, answer fs {} "/src" = .ok d ∧
        d.lineBudget = 5 ∧ Text.lineCount d.text = 5 ∧
        PackagesUnbroken (plainReader fs) (requestedFiles fs {} ["src"]) := by
  intro fs
  have hvalid : validate fs {} "/src" = .ok ["src"] := by rfl
  have hcounts : (answer fs {} "/src").toOption.map
      (fun d => (d.lineBudget, Text.lineCount d.text)) = some (5, 5) := by
    decide +kernel
  obtain ⟨hanswered, hdocument⟩ := lineCount_eq_budget_iff {} hvalid
  rw [hinderedReader_none] at hanswered hdocument
  obtain ⟨d, hd⟩ := hanswered.mpr
    (walkFault?_pathOf_eq_none (sound_oneFile _) rfl (linksShort_oneFile _) (by decide))
  obtain ⟨-, -, -, -, hcount, -⟩ := hdocument d hd
  rw [answer, hd] at hcounts
  obtain ⟨hbudget, hlines⟩ := Prod.mk.inj (Option.some.inj hcounts)
  exact ⟨hvalid, d, hd, hbudget, hlines, hcount.mp (hlines.trans hbudget.symm)⟩

/-- A package over two lines adds a line to the text. -/
theorem lineCount_brokenPackage :
    (answer (oneFile "package a\n.b;\nclass C \x7b\x7d\n") {} "/src").toOption.map
      (fun d => (d.lineBudget, Text.lineCount d.text)) = some (4, 5) := by
  decide +kernel

end JavaAtlas.Diagram
