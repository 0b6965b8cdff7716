import JavaAtlas.Storage.FileSystem

/-!
# Walking a source tree

The source files below a directory: in each directory its files in the order of
their names, then what lies in its subdirectories in the order of theirs.  Links
to files count as files, links to directories are not entered, and neither are
the directories of version control.

A directory whose names may not be listed, that may not be entered or whose path is too
long to be looked up is taken for empty.  But a walk asks of every entry that is named
like a source file whether it leads to a file, and breaks off where that cannot be told.

Main definitions:

- `sourceFiles`: the paths of all source files below a directory.
- `walkFault?`: the fault at which a walk breaks off.
-/

namespace JavaAtlas.Source

open Storage

/-- Names of directories that hold the records of version control. -/
def passedOver : List String := [".git", ".svn", ".hg"]

/-- A directory of this name is not entered. -/
def isPassedOver (name : String) : Bool :=
  passedOver.contains name

/-- The name of an entry that stands directly below a location. -/
def nameBelow? (l : Location) (e : Location) : Option String :=
  match e.reverse with
  | [] => none
  | n :: above => if above.reverse = l then some n else none

/-- Names of all entries of a directory, in order and each once. -/
def childNames (fs : FileSystem) (l : Location) : List String :=
  ((fs.entries.map Prod.fst).filterMap (nameBelow? l)).eraseDups.mergeSort (· ≤ ·)

/-- The entry is a directory that is no link. -/
def isPlainDirectory (fs : FileSystem) (l : Location) : Bool :=
  match fs.node? l with
  | some .directory => true
  | _ => false

/-- The names that a directory gives when they are listed. -/
def listedNames (fs : FileSystem) (l : Location) : List String :=
  if fs.isHidden l then [] else childNames fs l

/-- The names in a directory that a walk asks about: those that end as asked for and are no
directories. -/
def namesAsked (fs : FileSystem) (extension : String) (l : Location) : List String :=
  (listedNames fs l).filter fun n => n.endsWith extension && !isPlainDirectory fs (l ++ [n])

/-- The names of the source files of a directory, given by the path that the walk has for
it and as a location. -/
def fileNames (fs : FileSystem) (extension : String) (top : Path) (l : Location) :
    List String :=
  (namesAsked fs extension l).filter fun n => fs.isFile (top.normal.child n)

/-- The subdirectories that are entered. -/
def directoryNames (fs : FileSystem) (top : Path) (l : Location) : List String :=
  (listedNames fs l).filter fun n =>
    !isPassedOver n && isPlainDirectory fs (l ++ [n]) &&
      !fs.isClosed l && !FileSystem.isOverlongPath (top.child n)

/-- Source files of a directory and of those below it, as deep as the number says. -/
def filesBelow (fs : FileSystem) (extension : String) : Nat → Path → Location → List Path
  | 0, _, _ => []
  | n + 1, top, l =>
    (fileNames fs extension top l).map top.normal.child ++
      (directoryNames fs top l).flatMap fun d =>
        filesBelow fs extension n (top.child d) (l ++ [d])

/-- A depth that no entry exceeds. -/
def depthBound (fs : FileSystem) : Nat :=
  (fs.entries.map fun e => e.1.length).foldl max 0 + 1

/-- The source files below a directory; without a directory there are none. -/
def sourceFiles (fs : FileSystem) (root : Path) (extension : String) : List Path :=
  match fs.reach true root with
  | .error _ => []
  | .ok l => filesBelow fs extension (depthBound fs) root.stem l

/-! ## Walks that break off -/

/-- Entries that a walk asks about, in a directory and in those below it, as deep as the
number says. -/
def candidatesBelow (fs : FileSystem) (extension : String) : Nat → Path → Location → List Path
  | 0, _, _ => []
  | n + 1, top, l =>
    (namesAsked fs extension l).map top.normal.child ++
      (directoryNames fs top l).flatMap fun d =>
        candidatesBelow fs extension n (top.child d) (l ++ [d])

/-- Entries below a directory that a walk asks about. -/
def candidates (fs : FileSystem) (root : Path) (extension : String) : List Path :=
  match fs.reach true root with
  | .error _ => []
  | .ok l => candidatesBelow fs extension (depthBound fs) root.stem l

/-- The fault at which a walk breaks off: the first entry of which it cannot be told
whether it leads to a file. -/
def walkFault? (fs : FileSystem) (root : Path) (extension : String) : Option FileFault :=
  (candidates fs root extension).findSome? fs.statusFault?

end JavaAtlas.Source
