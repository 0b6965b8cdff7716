import JavaAtlas.Proofs.Diagram.Answering
import JavaAtlas.Proofs.Source.Order

/-!
# What a walk of any file system finds

A walk comes to an end whatever links there are.  If it does not break off, it finds the
source files below its root, each once and in an order that the names alone decide.  It
breaks off at an entry whose path is too long, at an entry in a closed directory, and at a
link of which it cannot be told what it leads to.

Main results:

- Theorem `walk_exact`: when a walk breaks off, and what it finds in which order.
- Theorem `survey_longLink`: a link to a name of 256 octets leaves a tree without a listing.
-/

namespace JavaAtlas.Diagram

open Java Source Storage FileSystem
open Text.Utf8 (encode)

variable {fs : FileSystem} {reader : Reader} {directory extension : String}
  {other : Option Registry}

/-! ## Surveys -/

/-- A survey is refused where the walk breaks off. -/
theorem survey_of_walkFault? {fault : FileFault} (hnull : holdsNull directory = false)
    (h : walkFault? fs (Path.asWritten directory) extension = some fault) :
    survey fs reader directory extension other = .error (.walk fault) := by
  rw [survey, hnull, h]
  rfl

/-- A survey lists the files of a walk that does not break off. -/
theorem files_of_survey {s : Survey}
    (h : survey fs reader directory extension other = .ok s) :
    walkFault? fs (Path.asWritten directory) extension = none ∧
      s.files = sourceFiles fs (Path.asWritten directory) extension := by
  have hnull : holdsNull directory = false := by
    cases hnull : holdsNull directory with
    | false => rfl
    | true =>
        rw [survey, hnull] at h
        cases h
  cases hfault : walkFault? fs (Path.asWritten directory) extension with
  | some fault => cases (survey_of_walkFault? hnull hfault).symm.trans h
  | none =>
      refine ⟨rfl, ?_⟩
      simp only [survey, hnull, hfault, bind, Except.bind, pure, Except.pure,
        Bool.false_eq_true, if_false] at h
      split at h
      case h_1 => cases h
      case h_2 =>
        split at h
        case h_1 =>
          cases h
          rfl
        case h_2 => cases h

/-! ## Walks -/

/-- Walks are exact.  A walk breaks off exactly if it meets an entry whose path is too long,
which stands in a closed directory, or which is a link that leads nobody knows where; and a
survey is answered only if it does not.  Otherwise it finds the paths of those entries to
which directories lead that are no links, have other names than those of version control,
and may be listed and entered under short paths; whose own names end as asked for, and which
are files or links to files.  In each directory the files come first in the order of their
names, then what lies in its subdirectories in the order of theirs, and nothing is found
twice.  Entries that are listed in another order give the same files. -/
theorem walk_exact (hs : fs.Formed) (root : Path) (extension : String) :
    (walkFault? fs root extension = none ↔
      ∀ above name q, IsMet fs root extension above name q →
        isOverlongPath (root.normal.join ⟨.here, above ++ [name]⟩) = false ∧
          fs.isClosed q.dropLast = false ∧
          (fs.IsLink q → fs.Tells (root.normal.join ⟨.here, above ++ [name]⟩))) ∧
    (∀ directory reader other s, root = Path.asWritten directory →
      survey fs reader directory extension other = .ok s →
        walkFault? fs root extension = none ∧ s.files = sourceFiles fs root extension) ∧
    (∃ found : List (List String),
      sourceFiles fs root extension = (found.map fun ns => root.normal.join ⟨.here, ns⟩) ∧
        found.Pairwise Before ∧
        (walkFault? fs root extension = none →
          ∀ ns, ns ∈ found ↔ ∃ above name q, ns = above ++ [name] ∧
            IsMet fs root extension above name q ∧
            ((∃ content mode, fs.node? q = some (.file content mode)) ∨
              fs.IsLink q ∧ fs.isFile (root.normal.join ⟨.here, ns⟩) = true))) ∧
    (sourceFiles fs root extension).Nodup ∧
    ∀ fs' : FileSystem, fs'.entries.Perm fs.entries → (fs.entries.map Prod.fst).Nodup →
      fs'.workingDirectory = fs.workingDirectory → fs'.restrictions = fs.restrictions →
        sourceFiles fs' root extension = sourceFiles fs root extension ∧
          walkFault? fs' root extension = walkFault? fs root extension := by
  refine ⟨walkFault?_eq_none_iff_met hs, ?_, ?_, nodup_sourceFiles hs root extension, ?_⟩
  · rintro directory reader other s rfl hsurvey
    exact files_of_survey hsurvey
  · refine ⟨_, sourceFiles_eq_map hs, (pairwise_namesMet fs root extension).filter _, ?_⟩
    intro hwalk ns
    have htells : ∀ above name q, IsMet fs root extension above name q →
        fs.Tells (root.normal.join ⟨.here, above ++ [name]⟩) := fun above name q hmet =>
      (hmet.tells_iff hs).mpr ((walkFault?_eq_none_iff_met hs).mp hwalk above name q hmet)
    rw [List.mem_filter, mem_namesMet_iff]
    constructor
    · rintro ⟨⟨above, name, q, rfl, hmet⟩, hfile⟩
      exact ⟨above, name, q, rfl, hmet, (hmet.isFile_iff hs (htells _ _ _ hmet)).mp hfile⟩
    · rintro ⟨above, name, q, rfl, hmet, hkind⟩
      exact ⟨⟨above, name, q, rfl, hmet⟩,
        (hmet.isFile_iff hs (htells _ _ _ hmet)).mpr hkind⟩
  · intro fs' hperm hkeys hworking hrestrictions
    exact sourceFiles_perm hperm hkeys hworking hrestrictions

/-! ## A tree of links -/

/-- Directories and links under names of source files, a loop, a link to nowhere, and a
directory with records of version control; a link leads to the tree. -/
def knottedTree : FileSystem where
  entries :=
    [(["src"], .directory),
      (["src", "b.java"], .file (encode "class b \x7b\x7d") 420),
      (["src", "a"], .directory),
      (["src", "a", "C.java"], .file (encode "class C \x7b\x7d") 420),
      (["src", "Dir.java"], .directory),
      (["src", "Dir.java", "In.java"], .file (encode "class In \x7b\x7d") 420),
      (["src", ".git"], .directory),
      (["src", ".git", "G.java"], .file (encode "class G \x7b\x7d") 420),
      (["src", "Z.java"], .link "../lib/E.java"),
      (["src", "Loop.java"], .link "Loop.java"),
      (["src", "Gone.java"], .link "nowhere.java"),
      (["src", "D.java"], .link "../lib"),
      (["src", "linked"], .link "../lib"),
      (["lib"], .directory),
      (["lib", "E.java"], .file (encode "class E \x7b\x7d") 420),
      (["here"], .link "src")]
  workingDirectory := []

private theorem formed_knottedTree : knottedTree.Formed := by
  refine formed_of_entries rfl ?_
  simp [knottedTree, node?, List.lookup_cons, IsEntryName, Path.isName]
  decide

private theorem candidates_knottedTree :
    candidates knottedTree (Path.asWritten "here/.") ".java" =
      [⟨.here, ["here", "D.java"]⟩, ⟨.here, ["here", "Gone.java"]⟩,
        ⟨.here, ["here", "Loop.java"]⟩, ⟨.here, ["here", "Z.java"]⟩,
        ⟨.here, ["here", "b.java"]⟩, ⟨.here, ["here", "Dir.java", "In.java"]⟩,
        ⟨.here, ["here", "a", "C.java"]⟩] := by
  have hroot : knottedTree.reach true (Path.asWritten "here/.") = .ok ["src"] := rfl
  have hdepth : depthBound knottedTree = 4 := rfl
  have hnames : listedNames knottedTree ["src"] =
      [".git", "D.java", "Dir.java", "Gone.java", "Loop.java", "Z.java", "a", "b.java",
        "linked"] :=
    listedNames_eq_of_perm rfl (by decide) (by decide)
  have hnamesDir : listedNames knottedTree ["src", "Dir.java"] = ["In.java"] :=
    listedNames_eq_of_perm rfl (by decide) (by decide)
  have hnamesA : listedNames knottedTree ["src", "a"] = ["C.java"] :=
    listedNames_eq_of_perm rfl (by decide) (by decide)
  have hbelowDir : candidatesBelow knottedTree ".java" 3 ⟨.here, ["here", ".", "Dir.java"]⟩
      ["src", "Dir.java"] = [⟨.here, ["here", "Dir.java", "In.java"]⟩] :=
    candidatesBelow_succ_eq ["In.java"] [] hnamesDir rfl rfl
  have hbelowA : candidatesBelow knottedTree ".java" 3 ⟨.here, ["here", ".", "a"]⟩ ["src", "a"] =
      [⟨.here, ["here", "a", "C.java"]⟩] :=
    candidatesBelow_succ_eq ["C.java"] [] hnamesA rfl rfl
  rw [candidates, hroot, hdepth]
  dsimp only
  rw [candidatesBelow_succ_eq ["D.java", "Gone.java", "Loop.java", "Z.java", "b.java"]
    ["Dir.java", "a"] hnames rfl rfl, List.flatMap_cons, List.flatMap_singleton]
  exact congrArg₂ _ rfl (congrArg₂ _ hbelowDir hbelowA)

private theorem sourceFiles_knottedTree :
    sourceFiles knottedTree (Path.asWritten "here/.") ".java" =
      [⟨.here, ["here", "Z.java"]⟩, ⟨.here, ["here", "b.java"]⟩,
        ⟨.here, ["here", "Dir.java", "In.java"]⟩, ⟨.here, ["here", "a", "C.java"]⟩] := by
  rw [sourceFiles_eq_filter, candidates_knottedTree]
  rfl

private theorem walkFault?_knottedTree :
    walkFault? knottedTree (Path.asWritten "here/.") ".java" = none := by
  rw [walkFault?, candidates_knottedTree]
  rfl

/-- The tree is walked through the link that leads to it.  Links to files are found and links
to directories are not entered, whatever they are named, and capitals come first.  Listed
the other way round, the entries give the same files. -/
theorem walk_exact_knottedTree :
    let root := Path.asWritten "here/."
    let turned : FileSystem := { knottedTree with entries := knottedTree.entries.reverse }
    knottedTree.Formed ∧ walkFault? knottedTree root ".java" = none ∧
      ∃ found : List (List String),
        found = [["Z.java"], ["b.java"], ["Dir.java", "In.java"], ["a", "C.java"]] ∧
        found.Pairwise Before ∧
        (∀ ns, ns ∈ found ↔ ∃ above name q, ns = above ++ [name] ∧
          IsMet knottedTree root ".java" above name q ∧
          ((∃ content mode, knottedTree.node? q = some (.file content mode)) ∨
            knottedTree.IsLink q ∧
              knottedTree.isFile (root.normal.join ⟨.here, ns⟩) = true)) ∧
        sourceFiles turned root ".java" = [⟨.here, ["here", "Z.java"]⟩, ⟨.here, ["here", "b.java"]⟩,
          ⟨.here, ["here", "Dir.java", "In.java"]⟩, ⟨.here, ["here", "a", "C.java"]⟩] := by
  intro root turned
  obtain ⟨-, -, ⟨found, hfiles, hbefore, hmem⟩, -, hturned⟩ :=
    walk_exact formed_knottedTree root ".java"
  refine ⟨formed_knottedTree, walkFault?_knottedTree, found, ?_, hbefore,
    hmem walkFault?_knottedTree, ?_⟩
  · -- the names are read off the paths of the files
    have hnormal : root.normal = ⟨.here, ["here"]⟩ := rfl
    have hnames := congrArg (List.map fun p : Path => p.names.drop 1) hfiles
    rw [sourceFiles_knottedTree, List.map_map, hnormal] at hnames
    simpa [Function.comp_def, Path.join, Path.isAbsolute] using hnames.symm
  · rw [(hturned turned (List.reverse_perm _) (by decide) rfl rfl).1, sourceFiles_knottedTree]

/-! ## A link to a long name -/

/-- A link to a name of 256 octets leaves a tree without a listing, though only one source
file and that link stand there. -/
theorem survey_longLink :
    let fs := linkBeside (nameOfLength 256)
    fs.entries = [(["src"], .directory),
      (["src", "A.java"], .file (encode "class A \x7b\x7d") 420),
      (["src", "L.java"], .link (nameOfLength 256))] ∧
    ∀ reader other, survey fs reader "/src" ".java" other =
      .error (.walk ⟨.nameTooLong, "/src/L.java"⟩) := by
  have hroot : Path.asWritten "/src" = pathOf ["src"] := rfl
  refine ⟨rfl, fun reader other => survey_of_walkFault? (by decide) ?_⟩
  rw [hroot]
  exact walkFault?_linkBeside isOverlong_nameOfLength (asWritten_nameOfLength 256)

end JavaAtlas.Diagram
