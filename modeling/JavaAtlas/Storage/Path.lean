import JavaAtlas.Text.Pieces

/-!
# Paths

A path is written as names with slashes between.  In its normal form there are
no empty names and no dots, but names that lead to the parent stay, because what
they mean depends on links.  A path as written may have such names; they say that
what stands before them is a directory.

Main definitions:

- `Path.asWritten`, `Path.ofText`: a path as written and in normal form.
- `Path.text`: how a path is written.
- `Path.join`: a path seen from another one.
- `Path.stem`: the path behind which names are written.
-/

namespace JavaAtlas.Storage

/-- Where a path begins. -/
inductive Anchor where
  /-- At the working directory. -/
  | here
  | root
  /-- At the root, written with two slashes. -/
  | doubleRoot
  deriving DecidableEq, Repr, Inhabited

/-- How the beginning is written. -/
def Anchor.text : Anchor → String
  | here => ""
  | root => "/"
  | doubleRoot => "//"

/-- The beginning of a text and what follows it: exactly two slashes stay two. -/
def Anchor.split : List Char → Anchor × List Char
  | '/' :: '/' :: '/' :: cs => (root, '/' :: '/' :: cs)
  | '/' :: '/' :: cs => (doubleRoot, cs)
  | '/' :: cs => (root, cs)
  | cs => (here, cs)

/-- A path: where it begins and the names that lead on. -/
structure Path where
  anchor : Anchor
  names : List String
  deriving DecidableEq, Repr, Inhabited

/-- The text holds a null character, which no path can hold. -/
def holdsNull (text : String) : Bool :=
  text.toList.contains '\x00'

namespace Path

/-- The name says something: it is neither empty nor a single dot. -/
def isName (n : String) : Bool :=
  n != "" && n != "."

/-- The path as written, with empty names and dots. -/
def asWritten (text : String) : Path :=
  let (anchor, rest) := Anchor.split text.toList
  ⟨anchor, (Text.pieces '/' rest).map String.ofList⟩

/-- The path without empty names and dots. -/
def normal (p : Path) : Path :=
  ⟨p.anchor, p.names.filter isName⟩

/-- The normal form of a path as written. -/
def ofText (text : String) : Path :=
  (asWritten text).normal

/-- How the path is written; the working directory is a dot. -/
def text (p : Path) : String :=
  match p.anchor, p.names with
  | .here, [] => "."
  | a, ns => a.text ++ "/".intercalate ns

/-- The path begins at the root. -/
def isAbsolute (p : Path) : Bool :=
  p.anchor != .here

/-- A path seen from another one; one that begins at the root stays as it is. -/
def join (p q : Path) : Path :=
  if q.isAbsolute then q else ⟨p.anchor, p.names ++ q.names⟩

/-- The path of a name below. -/
def child (p : Path) (name : String) : Path :=
  ⟨p.anchor, p.names ++ [name]⟩

/-- The path without its last name. -/
def parent (p : Path) : Path :=
  ⟨p.anchor, p.names.dropLast⟩

/-- The path of the parent, told from names alone: above the working directory names lead
to the parent, and the root is its own. -/
def up (p : Path) : Path :=
  match p.names.getLast? with
  | none => if p.anchor = .here then p.child ".." else p
  | some n => if n = ".." then p.child ".." else p.parent

/-- The path with the rest of another one appended as text.  A rest that begins with a
slash is a path of its own. -/
def followedBy (p : Path) (rest : List String) : Path :=
  p.join (asWritten ("/".intercalate rest))

/-- The path behind which names are written: the working directory is written as a dot, and
a slash at the end is not written twice. -/
def stem (p : Path) : Path :=
  if p = ⟨.here, []⟩ then ⟨.here, ["."]⟩
  else if p.names.getLast? = some "" then p.parent
  else p

end Path

end JavaAtlas.Storage
