import JavaAtlas.Config.Settings
import JavaAtlas.Diagram.Document

/-!
# Requests for diagrams

A request names a directory.  It is accepted if it leads to a directory that
lies inside the allowed base, when there is one; the diagram is then made of the
source files below it, unless the walk over them breaks off.

Main definitions:

- `validate`: the location of an accepted directory.
- `diagramBelow`: the diagram of the source files below a location.
- `answerWith`, `answer`: the answer to a request.
- `survey`: files, registry and diagram of a directory that needs no permission.
-/

namespace JavaAtlas.Diagram

open Config Source Storage

/-- Why a directory is not accepted. -/
inductive InputError where
  | blank
  /-- The directory lies outside the allowed base. -/
  | outside (base : Location)
  /-- The text names no directory. -/
  | unusable (directory : String)
  /-- Nothing exists at the path. -/
  | missing (directory : String)
  /-- Something else than a directory exists at the path. -/
  | noDirectory (directory : String)
  deriving DecidableEq, Repr

/-- The error in words. -/
def InputError.message : InputError → String
  | blank => "Directory path is required"
  | outside base =>
    s!"Invalid directory path: must be within {(FileSystem.pathOf base).text}"
  | unusable directory => s!"Invalid directory path: {directory}"
  | missing directory => s!"Directory does not exist: {directory}"
  | noDirectory directory => s!"Not a directory: {directory}"

/-- Why a request gives no diagram. -/
inductive RequestError where
  | input (e : InputError)
  /-- A path could not be resolved. -/
  | unresolved (e : FileSystem.Unresolved)
  /-- A path holds a null character, which no name can hold. -/
  | nullCharacter
  /-- It cannot be told what a path leads to. -/
  | status (fault : FileFault)
  /-- The walk over the source files broke off. -/
  | walk (fault : FileFault)
  /-- A field declaration without variables was to be written. -/
  | emptyField
  deriving DecidableEq, Repr

/-- The location that a path names, unless it cannot be one. -/
def resolving (fs : FileSystem) (p : Path) : Except RequestError Location :=
  if p.names.any holdsNull then .error .nullCharacter else (fs.resolve p).mapError .unresolved

/-- The location of the allowed base; an empty text allows everything. -/
def allowedBase? (fs : FileSystem) (s : DiagramSettings) : Except RequestError (Option Location) :=
  match s.allowedBase with
  | none => .ok none
  | some "" => .ok none
  | some base => some <$> resolving fs (Path.ofText base)

/-- The location lies at the base or below it. -/
def isWithin (base : Option Location) (l : Location) : Bool :=
  match base with
  | none => true
  | some b => b.isPrefixOf l

/-- The location, if a directory is there. -/
def accept (fs : FileSystem) (directory : String) (l : Location) :
    Except RequestError Location :=
  match fs.askDirectory (FileSystem.pathOf l) with
  | .ok true => .ok l
  | .ok false => .error (.input (.unusable directory))
  | .error fault => .error (.status fault)

/-- The location of a directory that may be used. -/
def validate (fs : FileSystem) (s : DiagramSettings) (directory : String) :
    Except RequestError Location := do
  if Text.isBlankText directory then throw (.input .blank)
  let l ← resolving fs (Path.ofText directory)
  let base ← allowedBase? fs s
  match base with
  | some b => unless isWithin base l do throw (.input (.outside b))
  | none => pure ()
  accept fs directory l

/-- The source files below a location. -/
def requestedFiles (fs : FileSystem) (s : DiagramSettings) (l : Location) : List Path :=
  sourceFiles fs (FileSystem.pathOf l) s.sourceExtension

/-- The registry of the source files below a location. -/
def registryBelow (fs : FileSystem) (reader : Reader) (s : DiagramSettings) (l : Location) :
    Registry :=
  registryOf reader (requestedFiles fs s l)

/-- The diagram of the source files below a location. -/
def diagramBelow (fs : FileSystem) (reader : Reader) (s : DiagramSettings) (l : Location) :
    Except RequestError Document :=
  match document? reader (registryBelow fs reader s l) (requestedFiles fs s l) with
  | some d => .ok d
  | none => .error .emptyField

/-- The answer to a request whose files the reader reads. -/
def answerWith (fs : FileSystem) (reader : Reader) (s : DiagramSettings) (directory : String) :
    Except RequestError Document := do
  let l ← validate fs s directory
  match walkFault? fs (FileSystem.pathOf l) s.sourceExtension with
  | some fault => throw (.walk fault)
  | none => diagramBelow fs reader s l

/-- The answer to a request. -/
def answer (fs : FileSystem) (s : DiagramSettings) (directory : String) :
    Except RequestError Document :=
  answerWith fs (plainReader fs) s directory

/-! ## Surveys -/

/-- What a source tree holds. -/
structure Survey where
  files : List Path
  registry : Registry
  document : Document
  deriving Repr

/-- The path as given leads to a directory. -/
def checkDirectory (fs : FileSystem) (directory : String) : Except RequestError Unit :=
  let p := Path.ofText directory
  match fs.status p with
  | .ok n => if n.isDirectory then .ok () else .error (.input (.noDirectory directory))
  | .error e =>
    if e.isAbsence then .error (.input (.missing directory)) else .error (.status ⟨e, p.text⟩)

/-- The files of a directory as written, its registry, and the diagram against that
registry or another one. -/
def survey (fs : FileSystem) (reader : Reader) (directory extension : String)
    (other : Option Registry) : Except RequestError Survey := do
  if holdsNull directory then throw .nullCharacter
  if let some fault := walkFault? fs (Path.asWritten directory) extension then
    throw (.walk fault)
  let walked := sourceFiles fs (Path.asWritten directory) extension
  checkDirectory fs directory
  let files := sourceFiles fs (Path.ofText directory) extension
  let registry := registryOf reader files
  match document? reader (other.getD registry) files with
  | some d => return ⟨walked, registry, d⟩
  | none => throw .emptyField

end JavaAtlas.Diagram
