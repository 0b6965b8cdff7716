import JavaAtlas.Text.Utf8
import JavaAtlas.Storage.Path

/-!
# File systems

A file system assigns a node to locations: a file, a directory or a link to
another path.  A location is the list of names that leads to it from the root,
and the root is always a directory.  Paths are followed to locations in two ways.
Access follows them strictly: every name on the way must be a directory in which
names may be looked up.  Resolution looks up one path after the other, follows the
links that it finds and goes on by names alone where it finds nothing.

Main definitions:

- `FileSystem`, `Node`, `Restrictions`: what is stored where, and what may not be done
  with it.
- `FileSystem.locate`, `FileSystem.reach`: strict access to a path.
- `FileSystem.ask`: what a path leads to, or why that cannot be told.
- `FileSystem.resolve`: the location that a path names, whether it exists or not.
-/

namespace JavaAtlas.Storage

open Text.Utf8 (Bytes)

/-- Names that lead from the root to a place. -/
abbrev Location := List String

/-- What is stored at a place. -/
inductive Node where
  /-- A file, with the permission bits of its mode. -/
  | file (content : Bytes) (mode : Nat)
  | directory
  | link (target : String)
  deriving DecidableEq, Repr, Inhabited

namespace Node

/-- The node is a file. -/
def isFile : Node → Bool
  | file _ _ => true
  | _ => false

/-- The node is a directory. -/
def isDirectory : Node → Bool
  | directory => true
  | _ => false

end Node

/-- Why a path cannot be used. -/
inductive FileError where
  | notFound
  | permissionDenied
  | alreadyExists
  | notADirectory
  | isADirectory
  | nameTooLong
  | tooManyLinks
  deriving DecidableEq, Repr, Inhabited

namespace FileError

/-- Number of the error. -/
def number : FileError → Nat
  | notFound => 2
  | permissionDenied => 13
  | alreadyExists => 17
  | notADirectory => 20
  | isADirectory => 21
  | nameTooLong => 36
  | tooManyLinks => 40

/-- The error in words. -/
def text : FileError → String
  | notFound => "No such file or directory"
  | permissionDenied => "Permission denied"
  | alreadyExists => "File exists"
  | notADirectory => "Not a directory"
  | isADirectory => "Is a directory"
  | nameTooLong => "File name too long"
  | tooManyLinks => "Too many levels of symbolic links"

/-- The error says that a path leads nowhere.  After any other error it stays open
where the path leads. -/
def isAbsence : FileError → Bool
  | notFound | notADirectory | tooManyLinks => true
  | permissionDenied | alreadyExists | isADirectory | nameTooLong => false

end FileError

/-- An error with the path that met it. -/
structure FileFault where
  error : FileError
  path : String
  deriving DecidableEq, Repr, Inhabited

/-- The fault in words. -/
def FileFault.message (f : FileFault) : String :=
  s!"[Errno {f.error.number}] {f.error.text}: {Text.Quoted.text f.path}"

/-- What may not be done with what is stored. -/
structure Restrictions where
  /-- Directories in which no name may be looked up. -/
  closed : List Location := []
  /-- Files that may not be read, and directories whose names may not be listed. -/
  hidden : List Location := []
  /-- Files that may not be written, and directories in which nothing may be made or
  removed. -/
  fixed : List Location := []
  deriving DecidableEq, Repr, Inhabited

/-- Nodes at locations, the directory where relative paths begin, and what is not
allowed. -/
structure FileSystem where
  entries : List (Location × Node)
  workingDirectory : Location
  restrictions : Restrictions := {}
  deriving Repr, Inhabited

namespace FileSystem

/-- The node at a location; the root is a directory. -/
def node? (fs : FileSystem) (l : Location) : Option Node :=
  if l = [] then some .directory else fs.entries.lookup l

/-- No name may be looked up in the directory.  Whoever stands in a working directory may
do so there. -/
def isClosed (fs : FileSystem) (l : Location) : Bool :=
  l != fs.workingDirectory && fs.restrictions.closed.contains l

/-- The file may not be read, or the names in the directory may not be listed. -/
def isHidden (fs : FileSystem) (l : Location) : Bool :=
  fs.restrictions.hidden.contains l

/-- The file may not be written, or nothing may be made or removed in the directory. -/
def isFixed (fs : FileSystem) (l : Location) : Bool :=
  fs.restrictions.fixed.contains l

/-- The location where a path begins that is read at another location. -/
def startFrom (l : Location) : Anchor → Location
  | .here => l
  | _ => []

/-- The location where a path begins. -/
def start (fs : FileSystem) (a : Anchor) : Location :=
  startFrom fs.workingDirectory a

/-! ## Strict access -/

/-- Greatest number of octets in a name that can be looked up. -/
def nameLimit : Nat := 255

/-- The name has too many octets to be looked up. -/
def isOverlong (n : String) : Bool :=
  nameLimit < n.utf8ByteSize

/-- Follows names from a location.  Every name is looked up in a directory, and
`jump` goes on at the target of a link.  The last name is not followed if it is
a link and `last` is not set. -/
def enter (fs : FileSystem) (last : Bool)
    (jump : Location → List String → Except FileError Location) :
    Location → List String → Except FileError Location
  | l, [] => .ok l
  | l, n :: rest =>
    match fs.node? l with
    | none => .error .notFound
    | some .directory =>
      -- an empty name only says that a directory stands here, and looks nothing up
      if n != "" && fs.isClosed l then .error .permissionDenied
      else if Path.isName n then
        if n = ".." then fs.enter last jump l.dropLast rest
        else if isOverlong n then .error .nameTooLong
        else
          match fs.node? (l ++ [n]) with
          | some (.link target) =>
            if rest.isEmpty && !last then .ok (l ++ [n])
            else
              let t := Path.asWritten target
              jump (startFrom l t.anchor) (t.names ++ rest)
          | _ => fs.enter last jump (l ++ [n]) rest
      else fs.enter last jump l rest
    | some _ => .error .notADirectory

/-- Follows names from a location over less than so many links. -/
def follow (fs : FileSystem) (last : Bool) :
    Nat → Location → List String → Except FileError Location
  | 0, _, _ => .error .tooManyLinks
  | n + 1, l, names => fs.enter last (fs.follow last n) l names

/-- Greatest number of links on the way of a path. -/
def linkLimit : Nat := 40

/-- The location of a path.  Its directory exists; the place itself may be free. -/
def locate (fs : FileSystem) (last : Bool) (p : Path) : Except FileError Location :=
  if p = ⟨.here, [""]⟩ then .error .notFound
  else fs.follow last (linkLimit + 1) (fs.start p.anchor) p.names

/-- The node of a path, links followed. -/
def nodeAt (fs : FileSystem) (p : Path) : Except FileError Node := do
  let l ← fs.locate true p
  match fs.node? l with
  | some n => .ok n
  | none => .error .notFound

/-- Number of octets from which on a path cannot be looked up. -/
def pathLimit : Nat := 4096

/-- The path has too many octets to be looked up. -/
def isOverlongPath (p : Path) : Bool :=
  pathLimit ≤ p.text.utf8ByteSize

/-- The location of a path that can be looked up. -/
def reach (fs : FileSystem) (last : Bool) (p : Path) : Except FileError Location :=
  if isOverlongPath p then .error .nameTooLong else fs.locate last p

/-- The node of a path that can be looked up. -/
def status (fs : FileSystem) (p : Path) : Except FileError Node :=
  if isOverlongPath p then .error .nameTooLong else fs.nodeAt p

/-! ## Questions -/

/-- Something is stored at the path. -/
def exists? (fs : FileSystem) (p : Path) : Bool :=
  (fs.status p).toOption.isSome

/-- The path leads to a file. -/
def isFile (fs : FileSystem) (p : Path) : Bool :=
  match fs.status p with
  | .ok (.file _ _) => true
  | _ => false

/-- Why it cannot be told whether the path leads to a file, if that is so. -/
def statusFault? (fs : FileSystem) (p : Path) : Option FileFault :=
  match fs.status p with
  | .ok _ => none
  | .error e => if e.isAbsence then none else some ⟨e, p.text⟩

/-- The path leads to a directory. -/
def isDirectory (fs : FileSystem) (p : Path) : Bool :=
  match fs.status p with
  | .ok .directory => true
  | _ => false

/-- The path leads to a directory that may be entered, or to a file that somebody may
execute. -/
def isExecutable (fs : FileSystem) (p : Path) : Bool :=
  match fs.reach true p with
  | .error _ => false
  | .ok l =>
    match fs.node? l with
    | some (.file _ mode) => mode &&& 0o111 != 0
    | some .directory => !fs.isClosed l
    | _ => false

/-- The content of the file at a path. -/
def read (fs : FileSystem) (p : Path) : Except FileFault Bytes :=
  match fs.reach true p with
  | .error e => .error ⟨e, p.text⟩
  | .ok l =>
    match fs.node? l with
    | none => .error ⟨.notFound, p.text⟩
    | some n =>
      if fs.isHidden l then .error ⟨.permissionDenied, p.text⟩
      else
        match n with
        | .file content _ => .ok content
        | _ => .error ⟨.isADirectory, p.text⟩

/-- Whether the path leads to a node of a kind, or why that cannot be told. -/
def ask (fs : FileSystem) (kind : Node → Bool) (p : Path) : Except FileFault Bool :=
  match fs.status p with
  | .ok n => .ok (kind n)
  | .error e => if e.isAbsence then .ok false else .error ⟨e, p.text⟩

/-- Whether the path leads to a file, or why that cannot be told. -/
def askFile (fs : FileSystem) : Path → Except FileFault Bool :=
  fs.ask Node.isFile

/-- Whether the path leads to a directory, or why that cannot be told. -/
def askDirectory (fs : FileSystem) : Path → Except FileFault Bool :=
  fs.ask Node.isDirectory

/-! ## Resolution -/

/-- The target of the link at a path; there is none where nothing is found, and an error
where nothing may be looked up. -/
def linkAt? (fs : FileSystem) (p : Path) : Except FileError (Option String) :=
  match fs.reach false p with
  | .error e => if e.isAbsence then .ok none else .error e
  | .ok l =>
    match fs.node? l with
    | some (.link target) => .ok (some target)
    | _ => .ok none

/-- Where resolution ends. -/
inductive Ending where
  | place (p : Path)
  /-- In a loop of links.  The rest of the path is appended as text. -/
  | loop (p : Path)
  /-- With more links inside each other than can be followed. -/
  | deep
  deriving DecidableEq, Repr, Inhabited

/-- The way of a resolution.  It is blind if a name on it could not be looked up and was
taken for no link. -/
@[ext]
structure Resolved where
  ending : Ending
  blind : Bool := false
  deriving DecidableEq, Repr, Inhabited

namespace Resolved

/-- The way after a name that could not be looked up. -/
def blindly (r : Resolved) : Resolved :=
  { r with blind := true }

/-- The way over the target of a link and on from where it ends, with the rest of the names
behind the link. -/
def andThen (r : Resolved) (rest : List String) (next : Path → Resolved) : Resolved :=
  match r.ending with
  | .place q => if r.blind then (next q).blindly else next q
  | .loop q => { r with ending := .loop (q.followedBy rest) }
  | .deep => r

end Resolved

/-- The path where names go on: at another path, or at the root. -/
def goOn (p : Path) : Anchor → Path
  | .here => p
  | _ => ⟨.root, []⟩

/-- Resolves names behind a path.  `inside` resolves the names of the target of a link,
given the path of the link and the one where the target begins. -/
def resolveNames (fs : FileSystem) (inside : Path → Path → List String → Resolved) :
    Path → List String → Resolved
  | p, [] => { ending := .place p }
  | p, n :: rest =>
    if Path.isName n then
      if n = ".." then fs.resolveNames inside p.up rest
      else
        match fs.linkAt? (p.child n) with
        | .error _ => (fs.resolveNames inside (p.child n) rest).blindly
        | .ok none => fs.resolveNames inside (p.child n) rest
        | .ok (some target) =>
          let t := Path.asWritten target
          (inside (p.child n) (goOn p t.anchor) t.names).andThen rest fun q =>
            fs.resolveNames inside q rest
    else fs.resolveNames inside p rest

/-- Resolves names while the links at the given paths are being resolved already.  Meeting
one of these paths again is a loop.  The number bounds the links inside each other. -/
def resolveAmid (fs : FileSystem) : Nat → List Path → Path → List String → Resolved
  | 0, _, _, _ => { ending := .deep }
  | n + 1, active, p, names =>
    fs.resolveNames
      (fun link begin target =>
        if active.contains link then { ending := .loop link }
        else fs.resolveAmid n (link :: active) begin target)
      p names

/-- How many links inside each other can be followed, before the calls for them take up
the stack. -/
def nestingLimit : Nat := 960

/-- The path with all links resolved that are found, followed by names alone where nothing
is stored. -/
def resolved (fs : FileSystem) (p : Path) : Resolved :=
  fs.resolveAmid nestingLimit [] (goOn ⟨.here, []⟩ p.anchor) p.names

/-- Follows names without asking what is stored. -/
def byNames : Location → List String → Location
  | l, [] => l
  | l, n :: rest =>
    if Path.isName n then byNames (if n = ".." then l.dropLast else l ++ [n]) rest
    else byNames l rest

/-- The location of a path that is followed by names alone.  Two slashes at the beginning
stay, as an empty name. -/
def spot (fs : FileSystem) (p : Path) : Location :=
  match p.anchor with
  | .doubleRoot => "" :: byNames [] p.names
  | a => byNames (fs.start a) p.names

/-- The path of a location. -/
def pathOf (l : Location) : Path :=
  ⟨.root, l⟩

/-- Why a path cannot be resolved. -/
inductive Unresolved where
  /-- Access to the location that was found meets a loop of links. -/
  | loop (l : Location)
  /-- Too many links stand inside each other. -/
  | deep
  deriving DecidableEq, Repr

/-- The location that a path names, whether it exists or not.  A loop of links names a
location too, unless access to that one meets the loop again. -/
def resolve (fs : FileSystem) (p : Path) : Except Unresolved Location :=
  match (fs.resolved p).ending with
  | .deep => .error .deep
  | .place q | .loop q =>
    let l := fs.spot q
    match fs.status (pathOf l) with
    | .error .tooManyLinks => .error (.loop l)
    | _ => .ok l

end FileSystem

end JavaAtlas.Storage
