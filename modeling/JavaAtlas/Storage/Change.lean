import JavaAtlas.Storage.FileSystem

/-!
# Changes of a file system

Writing and removing files, links and directories.  A change either succeeds and
gives the new file system, or names the fault and leaves everything as it was.  Only making
several directories can stop half way.

Main definitions:

- `write`, `makeDirectories`, `makeLink`, `unlink`, `removeAll`.
- `triedDirectories`: what is left of an attempt to make directories.
-/

namespace JavaAtlas.Storage.FileSystem

open Text.Utf8 (Bytes)

/-- Stores a node at a location, in place of what was there. -/
def put (fs : FileSystem) (l : Location) (n : Node) : FileSystem :=
  { fs with entries := (l, n) :: fs.entries.filter fun e => e.1 != l }

/-- The location is the root, or it does not stand at another one or below it. -/
def isBeside (l q : Location) : Bool :=
  q.isEmpty || !l.isPrefixOf q

/-- The restrictions without those at a location and below it. -/
def restrictionsBeside (fs : FileSystem) (l : Location) : Restrictions where
  closed := fs.restrictions.closed.filter (isBeside l)
  hidden := fs.restrictions.hidden.filter (isBeside l)
  fixed := fs.restrictions.fixed.filter (isBeside l)

/-- Removes a location with everything below it.  What is stored there later begins without
restrictions. -/
def drop (fs : FileSystem) (l : Location) : FileSystem :=
  { fs with
    entries := fs.entries.filter fun e => !l.isPrefixOf e.1
    restrictions := fs.restrictionsBeside l }

/-- Permission bits of a new file. -/
def newMode : Nat := 0o644

/-- Writes a file.  A file that exists keeps its mode. -/
def write (fs : FileSystem) (p : Path) (content : Bytes) : Except FileFault FileSystem :=
  match fs.reach true p with
  | .error e => .error ⟨e, p.text⟩
  | .ok l =>
    match fs.node? l with
    | some .directory => .error ⟨.isADirectory, p.text⟩
    | some (.file _ mode) =>
      if fs.isFixed l then .error ⟨.permissionDenied, p.text⟩
      else .ok (fs.put l (.file content mode))
    | _ =>
      if fs.isFixed l.dropLast then .error ⟨.permissionDenied, p.text⟩
      else .ok (fs.put l (.file content newMode))

/-- Sets the mode of the file at a path. -/
def setMode (fs : FileSystem) (p : Path) (mode : Nat) : FileSystem :=
  match fs.locate true p with
  | .error _ => fs
  | .ok l =>
    match fs.node? l with
    | some (.file content _) => fs.put l (.file content mode)
    | _ => fs

/-- Stores a node where nothing is yet. -/
def create (fs : FileSystem) (p : Path) (n : Node) : Except FileError FileSystem := do
  let l ← fs.reach false p
  match fs.node? l with
  | some _ => .error .alreadyExists
  | none => if fs.isFixed l.dropLast then .error .permissionDenied else .ok (fs.put l n)

/-- Makes a link to a path that need not exist. -/
def makeLink (fs : FileSystem) (p : Path) (target : String) : Except FileFault FileSystem :=
  match fs.create p (.link target) with
  | .ok fs' => .ok fs'
  | .error e => .error ⟨e, p.text⟩

/-- Makes a directory, unless the path leads to one already. -/
def makeDirectory (fs : FileSystem) (p : Path) : Except FileError FileSystem :=
  match fs.create p .directory with
  | .ok fs' => .ok fs'
  | .error e => if fs.isDirectory p then .ok fs else .error e

/-- Makes a directory and, as far as they are missing, at most so many of those
above it. -/
def makeDirectoriesWithin : Nat → FileSystem → Path → Except FileFault FileSystem
  | 0, fs, p =>
    match fs.makeDirectory p with
    | .ok fs' => .ok fs'
    | .error e => .error ⟨e, p.text⟩
  | n + 1, fs, p =>
    match fs.makeDirectory p with
    | .ok fs' => .ok fs'
    | .error .notFound => do
      let above ← makeDirectoriesWithin n fs p.parent
      match above.makeDirectory p with
      | .ok fs' => .ok fs'
      | .error e => .error ⟨e, p.text⟩
    | .error e => .error ⟨e, p.text⟩

/-- Makes a directory with all those above it. -/
def makeDirectories (fs : FileSystem) (p : Path) : Except FileFault FileSystem :=
  makeDirectoriesWithin p.names.length fs p

/-- What is there after the attempt to make a directory and at most so many of those above
it: where the attempt fails, the directories stay that it has made. -/
def triedWithin : Nat → FileSystem → Path → FileSystem
  | 0, fs, p =>
    match fs.makeDirectory p with
    | .ok fs' => fs'
    | .error _ => fs
  | n + 1, fs, p =>
    match fs.makeDirectory p with
    | .ok fs' => fs'
    | .error .notFound =>
      let above := triedWithin n fs p.parent
      match above.makeDirectory p with
      | .ok fs' => fs'
      | .error _ => above
    | .error _ => fs

/-- What is there after the attempt to make a directory with all those above it. -/
def triedDirectories (fs : FileSystem) (p : Path) : FileSystem :=
  triedWithin p.names.length fs p

/-- Removes a file or a link. -/
def unlink (fs : FileSystem) (p : Path) : Except FileFault FileSystem :=
  match fs.reach false p with
  | .error e => .error ⟨e, p.text⟩
  | .ok l =>
    match fs.node? l with
    | none => .error ⟨.notFound, p.text⟩
    | some n =>
      if fs.isFixed l.dropLast then .error ⟨.permissionDenied, p.text⟩
      else if n.isDirectory then .error ⟨.isADirectory, p.text⟩
      else .ok (fs.drop l)

/-- Removes a file, a link or a directory with everything in it. -/
def removeAll (fs : FileSystem) (p : Path) : FileSystem :=
  match fs.locate false p with
  | .error _ => fs
  | .ok l => fs.drop l

end JavaAtlas.Storage.FileSystem
