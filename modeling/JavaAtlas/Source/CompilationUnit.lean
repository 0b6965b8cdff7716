import JavaAtlas.Text.Lines
import JavaAtlas.Java.Reading
import JavaAtlas.Java.Extraction
import JavaAtlas.Source.Language

/-!
# Compilation units

A compilation unit is what one file contributes: its package, its imports and its
declarations, or the problem that kept them from being read.  A text that does
not follow the grammar contributes nothing but that problem.

Main definitions:

- `CompilationUnit`: the contribution of a file.
- `CompilationUnit.ofText`: the unit of a text.
-/

namespace JavaAtlas.Source

open Java

/-- Why a file could not be read completely. -/
inductive Cause where
  /-- The text breaks the grammar near the line. -/
  | syntaxFault (line : Nat)
  /-- The file could not be opened, for the reason given. -/
  | unreadable (reason : String)
  deriving DecidableEq, Repr

/-- The line of the cause; a file that was not opened has none. -/
def Cause.line : Cause → Nat
  | syntaxFault line => line
  | unreadable _ => 0

/-- The cause in words. -/
def Cause.message : Cause → String
  | syntaxFault line => s!"Syntax error near line {line}"
  | unreadable reason => reason

/-- A cause with the file that it belongs to. -/
structure Problem where
  path : String
  cause : Cause
  deriving DecidableEq, Repr

/-- How grave a problem is: every problem keeps the file from being used. -/
def Problem.severity (_ : Problem) : String := "error"

/-- What a file contributes. -/
structure CompilationUnit where
  path : String
  language : Language
  package : String
  imports : List Import
  declarations : List Declaration
  lineCount : Nat
  problems : List Problem
  deriving DecidableEq, Repr

namespace CompilationUnit

/-- Nothing kept the file from being read completely. -/
def isValid (u : CompilationUnit) : Bool :=
  u.problems.isEmpty

/-- The unit of a file that contributes nothing. -/
def broken (language : Language) (path : String) (lines : Nat) (cause : Cause) : CompilationUnit :=
  ⟨path, language, "", [], [], lines, [⟨path, cause⟩]⟩

/-- The unit of a tree. -/
def ofTree (language : Language) (path : String) (lines : Nat) (tree : Tree) : CompilationUnit :=
  let package := Java.packageName tree
  ⟨path, language, package, Java.imports tree, Java.declarations package tree, lines, []⟩

/-- The unit of a text. -/
def ofText (language : Language) (path text : String) : CompilationUnit :=
  let lines := Text.lineCount text
  match Java.read text with
  | .ok tree => ofTree language path lines tree
  | .error fault => broken language path lines (.syntaxFault fault.firstFaultLine)

/-- The unit of a text that is read completely is that of its tree. -/
theorem ofText_of_read {language : Language} {path text : String} {tree : Tree}
    (h : Java.read text = .ok tree) :
    ofText language path text = ofTree language path (Text.lineCount text) tree := by
  unfold ofText
  dsimp only
  rw [h]

/-- Only a text that is read completely has a valid unit. -/
theorem exists_read_of_isValid {language : Language} {path text : String}
    (h : (ofText language path text).isValid = true) : ∃ tree, Java.read text = .ok tree := by
  unfold ofText at h
  dsimp only at h
  split at h
  case h_1 tree hread => exact ⟨tree, hread⟩
  case h_2 => cases h

end CompilationUnit

end JavaAtlas.Source
