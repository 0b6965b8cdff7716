import JavaAtlas.Proofs.Diagram.Extraction
import JavaAtlas.Proofs.Source.Walk
import JavaAtlas.Proofs.Text.Utf8

/-!
# Which requests are answered

An accepted request is answered with a document, whatever its files hold and
whatever keeps them from being read, unless the walk over them breaks off.  It does
so at an entry that is named like a source file, if it cannot be told what that entry
leads to: its path may be too long, or a name on the way of a link, or a directory is
closed.

Main results:

- Theorem `answered_iff`: a request is answered exactly if its walk does not break off.
- Theorem `eq_of_answerWith_eq_ok`: an answer is the extract of the files with its layout
  as text.
- Theorem `answered_iff_told`: a request is answered exactly if it can be told of those
  entries what they lead to.
- Theorem `unanswered_longLink`: a link to a name of 256 octets leaves a request
  unanswered.
-/

namespace JavaAtlas.Diagram

open Config Java Source Storage FileSystem
open Text.Utf8 (decodeStrict encode)

section Requests

variable {fs : FileSystem} {s : DiagramSettings} {directory : String} {l : Location}

theorem exists_of_isDirectory {p : Path} (h : fs.isDirectory p = true) :
    fs.exists? p = true := by
  rw [exists?, isDirectory_iff.mp h]
  rfl

/-! ## Answers -/

/-- The answer to an accepted request. -/
theorem answerWith_eq (reader : Reader) (h : validate fs s directory = .ok l) :
    answerWith fs reader s directory =
      match walkFault? fs (pathOf l) s.sourceExtension with
      | some fault => .error (.walk fault)
      | none => diagramBelow fs reader s l := by
  rw [answerWith, h]
  rfl

/-- An accepted request whose walk does not break off is answered with the extract of
its files and their layout as text. -/
theorem answerWith_eq_ok {reader : Reader} (hreader : ReadsCompletely reader)
    (h : validate fs s directory = .ok l)
    (hwalk : walkFault? fs (pathOf l) s.sourceExtension = none) :
    let e := extractBelow fs reader s l
    answerWith fs reader s directory =
      .ok ⟨e, Text.ended (PlantUml.layout e.declarations e.edges)⟩ := by
  intro e
  rw [answerWith_eq reader h, hwalk]
  exact hreader.diagramBelow_eq_ok fs s l

/-- An accepted request is answered exactly if its walk does not break off. -/
theorem answered_iff {reader : Reader} (hreader : ReadsCompletely reader)
    (h : validate fs s directory = .ok l) :
    (∃ d, answerWith fs reader s directory = .ok d) ↔
      walkFault? fs (pathOf l) s.sourceExtension = none := by
  constructor
  · rintro ⟨d, hd⟩
    rw [answerWith_eq reader h] at hd
    split at hd
    case h_1 => cases hd
    case h_2 hwalk => exact hwalk
  · intro hwalk
    exact ⟨_, answerWith_eq_ok hreader h hwalk⟩

/-- The answer to an accepted request is the extract of its files, with its layout as
text. -/
theorem eq_of_answerWith_eq_ok {reader : Reader} (hreader : ReadsCompletely reader)
    (h : validate fs s directory = .ok l) {d : Document}
    (hd : answerWith fs reader s directory = .ok d) :
    d.toExtract = extractBelow fs reader s l ∧
      d.text = Text.ended (PlantUml.layout d.declarations d.edges) := by
  have hwalk := (answered_iff hreader h).mp ⟨d, hd⟩
  obtain rfl := Except.ok.inj ((answerWith_eq_ok hreader h hwalk).symm.trans hd)
  exact ⟨rfl, rfl⟩

/-- An accepted request finds the directory there in both passes.  It is answered if
and only if it can be told of all entries that are named like source files what they lead
to; otherwise such an entry is the answer.  Whatever keeps files from being read, an answer
is the extract of the files with their layout, no field declaration in it is empty, and
every text that is read can be written again.  Where everything is allowed, paths are
short and no link leads over a name that is too long, every accepted request is
answered. -/
theorem answered_iff_told (hindrances : Hindrances)
    (h : validate fs s directory = .ok l) :
    let reader := hinderedReader fs hindrances
    let named := candidates fs (pathOf l) s.sourceExtension
    (fs.exists? (pathOf l) = true ∧ fs.isDirectory (pathOf l) = true) ∧
      ((∃ d, answerWith fs reader s directory = .ok d) ↔
        ∀ p ∈ named, fs.Tells p) ∧
      (∀ e, answerWith fs reader s directory = .error e →
        ∃ p ∈ named, ∃ cause, fs.status p = .error cause ∧ cause.isAbsence = false ∧
          e = .walk ⟨cause, p.text⟩) ∧
      (∀ d, answerWith fs reader s directory = .ok d →
        d.toExtract = extractBelow fs reader s l ∧
          d.text = Text.ended (PlantUml.layout d.declarations d.edges) ∧
          ∀ decl ∈ d.declarations, ∀ group ∈ decl.fieldDeclarations, group ≠ []) ∧
      (fs.Sound → fs.LinksShort → (∀ p ∈ named, isOverlongPath p = false) →
        ∃ d, answerWith fs reader s directory = .ok d) ∧
      ∀ content, decodeStrict (encode (textOfFile content)) = .ok (textOfFile content) := by
  intro reader named
  have hreader : ReadsCompletely reader := readsCompletely_hinderedReader fs hindrances
  have hdirectory := isDirectory_of_validate h
  refine ⟨⟨exists_of_isDirectory hdirectory, hdirectory⟩, ?_, ?_, ?_, ?_, ?_⟩
  · rw [← walkFault?_eq_none_iff]
    exact answered_iff hreader h
  · intro e he
    cases hwalk : walkFault? fs (pathOf l) s.sourceExtension with
    | none => cases (answerWith_eq_ok hreader h hwalk).symm.trans he
    | some fault =>
        rw [answerWith_eq reader h, hwalk] at he
        obtain ⟨p, hp, cause, hstatus, hopen, rfl⟩ := exists_of_walkFault? hwalk
        exact ⟨p, hp, cause, hstatus, hopen, (Except.error.inj he).symm⟩
  · intro d hd
    obtain ⟨hextract, htext⟩ := eq_of_answerWith_eq_ok hreader h hd
    refine ⟨hextract, htext, ?_⟩
    rw [hextract]
    exact hreader.isWritable
  · intro hs hlinks hshort
    have hwalk := walkFault?_eq_none_of_linksShort hs hlinks hshort
    exact ⟨_, answerWith_eq_ok hreader h hwalk⟩
  · intro content
    exact Text.Utf8.decodeStrict_encode _

end Requests

/-! ## A tree in which nothing can be relied on -/

/-- Octets that are no text, a file that breaks the grammar, an empty one, a link to
nowhere, a link to itself and two files that are kept from being read. -/
def troubledTree : FileSystem where
  entries :=
    [(["src"], .directory),
      (["src", "A.java"], .file (encode "class A \x7b B b; \x7d // " ++ [0xFF]) 420),
      (["src", "B.java"], .file (encode "class B \x7b\x7d") 420),
      (["src", "Bad.java"], .file (encode "class Bad \x7b") 420),
      (["src", "Empty.java"], .file [] 420),
      (["src", "Gone.java"], .link "nowhere.java"),
      (["src", "Loop.java"], .link "Loop.java"),
      (["src", "Odd.java"], .file (encode "class Odd \x7b\x7d") 420),
      (["src", "Shut.java"], .file (encode "class Shut \x7b\x7d") 420)]
  workingDirectory := []

/-- One file refuses to be opened, and reading breaks down on another. -/
def troubles : Hindrances where
  refused p := if p = pathOf ["src", "Shut.java"] then some .permissionDenied else none
  breakdowns p _ := if p = pathOf ["src", "Odd.java"] then some "RuntimeError: odd" else none

private theorem sound_troubledTree : troubledTree.Sound := by
  refine sound_of_entries rfl ?_
  simp [troubledTree, node?, List.lookup_cons, IsEntryName, Path.isName]
  decide

private theorem linksShort_troubledTree : troubledTree.LinksShort := by
  refine linksShort_of_entries ?_
  simp [troubledTree]
  decide

private theorem requestedFiles_troubledTree :
    requestedFiles troubledTree {} ["src"] =
      [pathOf ["src", "A.java"], pathOf ["src", "B.java"], pathOf ["src", "Bad.java"],
        pathOf ["src", "Empty.java"], pathOf ["src", "Odd.java"],
        pathOf ["src", "Shut.java"]] := by
  have hnames : listedNames troubledTree ["src"] =
      ["A.java", "B.java", "Bad.java", "Empty.java", "Gone.java", "Loop.java", "Odd.java",
        "Shut.java"] :=
    listedNames_eq rfl rfl (by decide)
  have hdepth : depthBound troubledTree = 3 := rfl
  rw [requestedFiles, sourceFiles_pathOf sound_troubledTree (by decide) rfl, hdepth,
    filesBelow_succ_eq ["A.java", "B.java", "Bad.java", "Empty.java", "Odd.java", "Shut.java"] []
      hnames rfl rfl]
  rfl

private theorem extractBelow_troubledTree :
    let e := extractBelow troubledTree (hinderedReader troubledTree troubles) {} ["src"]
    e.edges = [⟨"A", "B", .association, some "b"⟩] ∧
      e.warnings.map Warning.path =
        [pathOf ["src", "Bad.java"], pathOf ["src", "Odd.java"], pathOf ["src", "Shut.java"]] := by
  simp only [extractBelow, registryBelow, requestedFiles_troubledTree]
  decide +kernel

/-- With all of these troubles a request is answered: the rest of the files gives an
edge, and every file that could not be used gives a warning. -/
theorem answered_troubledTree :
    validate troubledTree {} "/src" = .ok ["src"] ∧
      ∃ d, answerWith troubledTree (hinderedReader troubledTree troubles) {} "/src" = .ok d ∧
        d.edges = [⟨"A", "B", .association, some "b"⟩] ∧
        d.warnings.map Warning.path =
          [pathOf ["src", "Bad.java"], pathOf ["src", "Odd.java"],
            pathOf ["src", "Shut.java"]] := by
  have hvalid : validate troubledTree {} "/src" = .ok ["src"] := by rfl
  obtain ⟨-, -, -, hextract, hanswered, -⟩ := answered_iff_told troubles hvalid
  obtain ⟨d, hd⟩ := hanswered sound_troubledTree linksShort_troubledTree fun p hp =>
    isOverlongPath_eq_false_of_mem_candidates sound_troubledTree rfl (by decide) hp
  obtain ⟨hextract, -, -⟩ := hextract d hd
  obtain ⟨hedges, hwarnings⟩ := extractBelow_troubledTree
  exact ⟨hvalid, d, hd, hextract ▸ hedges, hextract ▸ hwarnings⟩

/-! ## A link to a long name -/

/-- A source file beside a link. -/
def linkBeside (target : String) : FileSystem where
  entries :=
    [(["src"], .directory),
      (["src", "A.java"], .file (encode "class A \x7b\x7d") 420),
      (["src", "L.java"], .link target)]
  workingDirectory := []

private theorem candidates_linkBeside (target : String) :
    candidates (linkBeside target) (pathOf ["src"]) ".java" =
      [pathOf ["src", "A.java"], pathOf ["src", "L.java"]] := by
  have hnames : listedNames (linkBeside target) ["src"] = ["A.java", "L.java"] :=
    listedNames_eq rfl rfl (by decide)
  have hreach : (linkBeside target).reach true (pathOf ["src"]) = .ok ["src"] := rfl
  have hdepth : depthBound (linkBeside target) = 3 := rfl
  rw [candidates, hreach, hdepth]
  exact candidatesBelow_succ_eq ["A.java", "L.java"] [] hnames rfl rfl

/-- A link to a name that is too long breaks a walk off. -/
theorem walkFault?_linkBeside {name : String} (hlong : isOverlong name = true)
    (hname : Path.asWritten name = ⟨.here, [name]⟩) :
    walkFault? (linkBeside name) (pathOf ["src"]) ".java" =
      some ⟨.nameTooLong, "/src/L.java"⟩ := by
  have hne : ∀ short : String, isOverlong short = false → name ≠ short := by
    rintro _ hshort rfl
    cases hshort.symm.trans hlong
  have hnames : name ≠ "" ∧ name ≠ "." ∧ name ≠ ".." :=
    ⟨hne "" (by decide), hne "." (by decide), hne ".." (by decide)⟩
  have hshort : isOverlong "src" = false ∧ isOverlong "L.java" = false := by decide
  have hfile : (linkBeside name).status (pathOf ["src", "A.java"]) =
      .ok (.file (encode "class A \x7b\x7d") 420) := by
    rfl
  have hlink : (linkBeside name).status (pathOf ["src", "L.java"]) = .error .nameTooLong := by
    rw [status_of_short (by decide)]
    simp [nodeAt, locate, follow, linkLimit, enter, node?, linkBeside, pathOf, start, startFrom,
      isClosed, List.lookup_cons, Path.isName, bind, Except.bind, hlong, hname, hnames, hshort]
  rw [walkFault?, candidates_linkBeside]
  simp only [List.findSome?_cons, statusFault?, hfile, hlink, FileError.isAbsence]
  rfl

/-- A link to a name that is too long leaves an accepted request unanswered. -/
theorem answer_linkBeside {name : String} (hlong : isOverlong name = true)
    (hname : Path.asWritten name = ⟨.here, [name]⟩) :
    validate (linkBeside name) {} "/src" = .ok ["src"] ∧
      answer (linkBeside name) {} "/src" = .error (.walk ⟨.nameTooLong, "/src/L.java"⟩) := by
  have hvalid : validate (linkBeside name) {} "/src" = .ok ["src"] := by rfl
  refine ⟨hvalid, ?_⟩
  rw [answer, answerWith_eq _ hvalid]
  have hwalk := walkFault?_linkBeside hlong hname
  simp only [hwalk]

/-- A link to a name of 256 octets leaves an accepted request unanswered. -/
theorem unanswered_longLink :
    validate (linkBeside (nameOfLength 256)) {} "/src" = .ok ["src"] ∧
      answer (linkBeside (nameOfLength 256)) {} "/src" =
        .error (.walk ⟨.nameTooLong, "/src/L.java"⟩) := by
  exact answer_linkBeside isOverlong_nameOfLength (asWritten_nameOfLength 256)

end JavaAtlas.Diagram
