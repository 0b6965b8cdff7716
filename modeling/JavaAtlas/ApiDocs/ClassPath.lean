import JavaAtlas.Text.Blank
import JavaAtlas.Text.Pieces
import JavaAtlas.Text.Substring

/-!
# Class paths

A class path is a list of entries, written with colons between them.  Blanks around
the whole text and empty entries say nothing.

Main definitions:

- `ClassPath.entries`, `ClassPath.text`: reading and writing a class path.
- `ClassPath.merged`: the entries of two class paths, each once.
- `ClassPath.processorOf?`: the archive that holds the annotation processor.
-/

namespace JavaAtlas.ApiDocs.ClassPath

/-- What stands between two entries. -/
def separator : Char := ':'

/-- The entries of a class path. -/
def entries (text : String) : List String :=
  ((Text.pieces separator (Text.trim text.toList)).filter fun p => !p.isEmpty).map String.ofList

/-- Entries as a class path. -/
def text (es : List String) : String :=
  (String.singleton separator).intercalate es

/-- The entries of both, each where it first occurs. -/
def merged (first second : List String) : List String :=
  (first ++ second).eraseDups

/-- The last name of an entry. -/
def baseName (entry : String) : List Char :=
  (Text.pieces '/' entry.toList).getLastD []

/-- What the name of an archive with the annotation processor contains. -/
def processorName : String := "lombok"

/-- What the name of an archive ends with. -/
def archiveEnding : String := ".jar"

/-- The entry is an archive with the annotation processor. -/
def isProcessor (entry : String) : Bool :=
  Text.occursIn processorName.toList (baseName entry) && entry.endsWith archiveEnding

/-- The first archive with the annotation processor. -/
def processorOf? (classPath : String) : Option String :=
  (entries classPath).find? isProcessor

theorem mem_entries_of_processorOf? {classPath entry : String}
    (h : processorOf? classPath = some entry) : entry ∈ entries classPath :=
  List.mem_of_find?_eq_some h

end JavaAtlas.ApiDocs.ClassPath
