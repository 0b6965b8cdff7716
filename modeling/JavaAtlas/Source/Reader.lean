import JavaAtlas.Source.CompilationUnit
import JavaAtlas.Source.Walk

/-!
# Reading source files

A source file is read as UTF-8, with replacement characters for what is no
character and with line feeds for all line ends.  The unit shows the path of the
file as seen from the root of a project.

Main definitions:

- `unitOfFile`: the unit of a file.
- `Reader`: how files are read when a reader may break down.
- `plainReader`, `frailReader`: readers without breakdowns and with some.
- `hinderedReader`: a reader to which, besides, files may refuse to be opened.
-/

namespace JavaAtlas.Source

open Storage

/-- A path as seen from the root of a project: what follows the text of the root,
without slashes at the front. -/
def shownPath (root path : String) : String :=
  if root != "" && root.toList.isPrefixOf path.toList then
    String.ofList ((path.toList.drop root.length).dropWhile (· == '/'))
  else path

/-- The text of the octets of a file. -/
def textOfFile (content : Text.Utf8.Bytes) : String :=
  Text.withLineFeeds (Text.Utf8.decode content)

/-- The unit of a file; one that cannot be opened gives the problem it met. -/
def unitOfFile (fs : FileSystem) (language : Language) (root : String) (path : Path) :
    CompilationUnit :=
  let shown := shownPath root path.text
  match fs.read path with
  | .error fault => .broken language shown 0 (.unreadable fault.message)
  | .ok content => .ofText language shown (textOfFile content)

/-- Why a path has no unit. -/
inductive PathError where
  | language (e : LanguageError)
  /-- The path holds a null character. -/
  | nullCharacter
  deriving DecidableEq, Repr

/-- The unit of a file in the language that its path tells. -/
def unitOfPath (fs : FileSystem) (root path : String) : Except PathError CompilationUnit := do
  let language ← (Language.choose path none).mapError .language
  if holdsNull path then throw .nullCharacter
  return unitOfFile fs language root (Path.asWritten path)

/-- How files are read.  A reader may break down on a file, with a text that says how. -/
abbrev Reader := Path → Except String CompilationUnit

/-- Reads every file, and never breaks down. -/
def plainReader (fs : FileSystem) : Reader := fun p =>
  .ok (unitOfFile fs .java "" p)

/-- On which files reading breaks down, and how: it depends on the path and on what
opening the file gave. -/
abbrev Breakdowns := Path → Except FileFault Text.Utf8.Bytes → Option String

/-- Reads every file on which it does not break down. -/
def frailReader (fs : FileSystem) (breakdowns : Breakdowns) : Reader := fun p =>
  match breakdowns p (fs.read p) with
  | some text => .error text
  | none => plainReader fs p

/-- What keeps files from being read although they are there: opening them is refused,
or reading them breaks down. -/
structure Hindrances where
  refused : Path → Option FileError := fun _ => none
  breakdowns : Breakdowns := fun _ _ => none

/-- The unit of a file that refused to be opened. -/
def refusedUnit (p : Path) (e : FileError) : CompilationUnit :=
  .broken .java (shownPath "" p.text) 0 (.unreadable (FileFault.mk e p.text).message)

/-- Reads every file that nothing keeps from being read. -/
def hinderedReader (fs : FileSystem) (h : Hindrances) : Reader := fun p =>
  match h.refused p with
  | none => frailReader fs h.breakdowns p
  | some e =>
    match h.breakdowns p (.error ⟨e, p.text⟩) with
    | some text => .error text
    | none => .ok (refusedUnit p e)

/-- Without hindrances a reader is the plain one. -/
theorem hinderedReader_none (fs : FileSystem) : hinderedReader fs {} = plainReader fs := rfl

end JavaAtlas.Source
