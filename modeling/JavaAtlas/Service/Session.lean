import JavaAtlas.ApiDocs.Generate
import JavaAtlas.Config.Load
import JavaAtlas.Diagram.Request
import JavaAtlas.Image.Render

/-!
# Services

The services of the program: the diagram of a directory, its image, and the
documentation of a directory.  They work on the files of a session, call other
programs, and leave the session for the next request.

Main definitions:

- `Session`: what one request leaves to the next.
- `Answer`: a result or a failure, with the calls and the session afterwards.
- `Session.diagram`, `Session.image`, `Session.docs`: the services.
- `Session.drawConfigured`: the image of a text with the settings of the configuration.
-/

namespace JavaAtlas.Service

open Config Storage
open Text.Utf8 (Bytes)

/-! ## Sessions -/

/-- What one request leaves to the next. -/
structure Session where
  files : FileSystem
  /-- Programs that can be called by name. -/
  tools : List String
  /-- What was found out about local tools. -/
  memory : Image.Memory
  /-- Number of names that were used for new directories. -/
  namesUsed : Nat

/-- A session that nothing happened in. -/
def Session.ofFiles (files : FileSystem) : Session :=
  ⟨files, [], .empty, 0⟩

/-- The other programs, and the names for new directories in their order. -/
structure Partners where
  images : Image.Partners
  docs : ApiDocs.Partners
  names : Nat → String

/-- A call of another program. -/
inductive Call where
  | image (call : Image.Call)
  | helper (helper : ApiDocs.Helper) (call : Tool.Call)
  deriving DecidableEq, Repr

/-- Why a service gives nothing. -/
inductive Failure where
  | diagram (e : Diagram.RequestError)
  | image (e : Image.RenderError)
  /-- It cannot be told whether the local renderer is there. -/
  | renderer (fault : FileFault)
  /-- A program that was asked for an image broke off. -/
  | partner (reason : String)
  | docs (e : ApiDocs.DocsError)
  deriving DecidableEq, Repr

/-- The failure of a service whose image was not rendered. -/
def Failure.ofRendering : Image.RenderFailure → Failure
  | .error e => image e
  | .status fault => renderer fault
  | .partner reason => partner reason

/-- A result or a failure, with the calls and the session afterwards. -/
structure Answer (α : Type) where
  result : Except Failure α
  calls : List Call
  session : Session

namespace Answer

/-- Applies a function to the result. -/
def map {α β : Type} (f : α → β) (a : Answer α) : Answer β :=
  { a with result := f <$> a.result }

end Answer

namespace Session

/-- What local rendering depends on. -/
def surroundings (s : Session) : Image.Surroundings :=
  ⟨s.files, s.tools⟩

/-- Whether the local renderer at a path can be used, and the session that knows it. -/
def askJar (s : Session) (path : Option String) : Except FileFault Bool × Session :=
  let (available, memory) := s.memory.tryJar s.surroundings path
  (available, { s with memory })

/-- The layout engine that local rendering has, and the session that knows it. -/
def askEngine (s : Session) : Bool × Session :=
  let (engine, memory) := s.memory.askEngine s.surroundings
  (engine, { s with memory })

/-! ## Services -/

/-- The diagram of a directory. -/
def diagram (s : Session) (settings : DiagramSettings) (directory : String) :
    Answer Diagram.Document :=
  ⟨(Diagram.answer s.files settings directory).mapError .diagram, [], s⟩

/-- The image of a text. -/
def draw (s : Session) (settings : ImageSettings) (partners : Image.Partners)
    (format text : String) : Answer Bytes :=
  let (r, memory) := Image.answer settings partners s.surroundings format text s.memory
  ⟨r.result.mapError .ofRendering, r.calls.map .image, { s with memory }⟩

/-- The image of a text with the settings of the configuration, which is loaded only for a
format that is known. -/
def drawConfigured (s : Session) (w : World) (kept : Kept) (partners : Image.Partners)
    (format text : String) : Except LoadFailure (Answer Bytes) × Kept :=
  match Image.Format.ofName? format with
  | none => (.ok (s.draw {} partners format text), kept)
  | some _ =>
    match load w kept with
    | (.error e, kept) => (.error e, kept)
    | (.ok l, kept) => (.ok (s.draw l.settings.renderer partners format text), kept)

/-- The image of the diagram of a directory. -/
def image (s : Session) (settings : Settings) (partners : Image.Partners)
    (directory format : String) : Answer Bytes :=
  match Diagram.answer s.files settings.diagrams directory with
  | .error e => ⟨.error (.diagram e), [], s⟩
  | .ok d => s.draw settings.renderer partners format d.text

/-- The documentation of a directory. -/
def docs (s : Session) (settings : DocsSettings) (partners : Partners) (directory : String)
    (classPath : Option String) : Answer ApiDocs.Docs :=
  let run := ApiDocs.generate partners.docs settings s.files (partners.names s.namesUsed)
    directory classPath
  let namesUsed := if run.nameUsed then s.namesUsed + 1 else s.namesUsed
  ⟨run.result.mapError .docs, run.calls.map fun c => .helper c.1 c.2,
    { s with files := run.files, namesUsed }⟩

end Session

end JavaAtlas.Service
