import JavaAtlas.CommandLine.Invocation
import JavaAtlas.Config.Load
import JavaAtlas.Service.Session

/-!
# Running command lines

A command line is read, the configuration is loaded and the task is carried out.  The
run shows a text, leaves files and ends with a number, or it breaks off at a failure that
no number stands for.

Main definitions:

- `Run`: what a run shows and leaves.
- `run`: the run of a command line.
-/

namespace JavaAtlas.CommandLine

open Config (Settings LoadFailure World)
open Service (Session Partners Call Failure)
open Storage

/-! ## Runs -/

/-- How the server is asked to run. -/
structure Serving where
  host : String
  port : Int
  logLevel : LogLevel
  deriving DecidableEq, Repr

/-- Why a run breaks off. -/
inductive Breakdown where
  | config (e : LoadFailure)
  | service (e : Failure)
  /-- The result cannot be written. -/
  | file (f : FileFault)
  deriving DecidableEq, Repr

/-- What a run shows and leaves. -/
structure Run where
  /-- The number of the exit, or why the run broke off. -/
  exit : Except Breakdown Nat
  shown : String
  calls : List Call
  serving : Option Serving
  files : FileSystem

/-- The exit of a run that was refused. -/
def refusedExit : Nat := 2

/-- The exit of a run that failed. -/
def failedExit : Nat := 1

/-- Failures of the configuration that have a number. -/
def configExit? (e : LoadFailure) : Option Nat :=
  if e.isReported then some failedExit else none

/-- Failures of services that have a number. -/
def serviceExit? : Failure → Option Nat
  | .diagram (.input _) => some failedExit
  | .image _ => some failedExit
  | .docs (.noDirectory _) => some failedExit
  | .docs (.tool _ _) => some failedExit
  | _ => none

/-- The exit at a failure: its number, if it has one. -/
def exitAt (number : Option Nat) (b : Breakdown) : Except Breakdown Nat :=
  match number with
  | some n => .ok n
  | none => .error b

namespace Run

/-- A run without any effect. -/
def quiet (files : FileSystem) (exit : Except Breakdown Nat) : Run :=
  ⟨exit, "", [], none, files⟩

/-- A run that ends with the answer of a service. -/
def ofAnswer {α : Type} (a : Service.Answer α) (finish : α → Run) : Run :=
  match a.result with
  | .ok r => { finish r with calls := a.calls }
  | .error e =>
    { quiet a.session.files (exitAt (serviceExit? e) (.service e)) with calls := a.calls }

/-- A run that shows a text. -/
def showing (files : FileSystem) (text : String) : Run :=
  { quiet files (.ok 0) with shown := text }

/-- A run that writes a file. -/
def writing (files : FileSystem) (p : Path) (content : Text.Utf8.Bytes) : Run :=
  match files.write p content with
  | .ok files => quiet files (.ok 0)
  | .error f => quiet files (.error (.file f))

end Run

/-! ## Tasks -/

/-- What the server shows when it starts. -/
def servingText (port : Int) : String :=
  s!"\n  docloom is running at: http://localhost:{port}\n" ++
    s!"  API docs at: http://localhost:{port}/docs\n\n"

/-- Runs the server; an empty host and port zero count as not given. -/
def serve (settings : Settings) (files : FileSystem) (level : LogLevel) (host : Option String)
    (port : Option Int) : Run :=
  let host := (host.filter (· != "")).getD settings.server.host
  let port := (port.filter (· != 0)).getD settings.server.port
  { Run.showing files (servingText port) with serving := some ⟨host, port, level⟩ }

/-- The name of the file of an image if none is given. -/
def usualOutput (f : Image.Format) : String :=
  "diagram." ++ f.name

/-- Makes a diagram; an empty output counts as not given. -/
def makeDiagram (settings : Settings) (partners : Partners) (s : Session) (directory : String)
    (form : DiagramForm) (output : Option String) : Run :=
  let output := output.filter (· != "")
  match form with
  | .source =>
    .ofAnswer (s.diagram settings.diagrams directory) fun d =>
      match output with
      | none => .showing s.files d.text
      | some o => .writing s.files (.ofText o) (Text.Utf8.encode d.text)
  | .image f =>
    .ofAnswer (s.image settings partners.images directory f.name) fun image =>
      .writing s.files (.ofText (output.getD (usualOutput f))) image

/-- Documents a directory. -/
def makeDocs (settings : Settings) (partners : Partners) (s : Session) (directory : String)
    (classPath : Option String) : Run :=
  let a := s.docs settings.docs partners directory classPath
  .ofAnswer a fun d => .showing a.session.files (d.message ++ "\n")

/-- Carries out an invocation. -/
def carryOut (settings : Settings) (partners : Partners) (s : Session) (i : Invocation) : Run :=
  match i.task with
  | .serve host port => serve settings s.files i.logLevel host port
  | .diagram directory form output => makeDiagram settings partners s directory form output
  | .docs directory classPath => makeDocs settings partners s directory classPath

/-- The run of a command line. -/
def run (w : World) (partners : Partners) (words : List String) : Run :=
  match Invocation.ofWords words with
  | .error .help => .quiet w.files (.ok 0)
  | .error .refused => .quiet w.files (.ok refusedExit)
  | .ok i =>
    match w.evaluate with
    | .error e => .quiet w.files (exitAt (configExit? e) (.config e))
    | .ok settings => carryOut settings partners (.ofFiles w.files) i

end JavaAtlas.CommandLine
