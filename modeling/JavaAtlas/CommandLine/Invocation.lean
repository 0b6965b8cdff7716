import JavaAtlas.CommandLine.Options
import JavaAtlas.Image.Format

/-!
# Invocations

A command line asks for one of three things: to run the server, to make the diagram of a
directory, or to document a directory.  Without a command the server is run.

Main definitions:

- `Invocation`: what a command line asks for.
- `Invocation.ofWords`: reading a command line.
-/

namespace JavaAtlas.CommandLine

open Image (Format)

/-- How much is logged. -/
inductive LogLevel where
  | debug
  | info
  | warning
  | error
  deriving DecidableEq, Repr, Inhabited

namespace LogLevel

/-- All levels. -/
def all : List LogLevel := [debug, info, warning, error]

/-- The level as it is given. -/
def word : LogLevel → String
  | debug => "DEBUG"
  | info => "INFO"
  | warning => "WARNING"
  | error => "ERROR"

/-- The name of the level. -/
def name : LogLevel → String
  | debug => "debug"
  | info => "info"
  | warning => "warning"
  | error => "error"

/-- The level of a word. -/
def ofWord? (w : String) : Option LogLevel :=
  all.find? fun l => l.word == w

end LogLevel

/-- In which form a diagram is made. -/
inductive DiagramForm where
  | source
  | image (f : Format)
  deriving DecidableEq, Repr, Inhabited

/-- The form of a word. -/
def DiagramForm.ofWord? (w : String) : Option DiagramForm :=
  if w = "puml" then some .source else (Format.ofName? w).map .image

/-- What is asked for. -/
inductive Task where
  /-- Run the server, at a host and port if they are given. -/
  | serve (host : Option String) (port : Option Int)
  /-- Make the diagram of a directory. -/
  | diagram (directory : String) (form : DiagramForm) (output : Option String)
  /-- Document a directory. -/
  | docs (directory : String) (classPath : Option String)
  deriving DecidableEq, Repr

/-- What a command line asks for. -/
structure Invocation where
  logLevel : LogLevel
  task : Task
  deriving DecidableEq, Repr

/-! ## Options -/

/-- Help. -/
def helpOption : Opt := ⟨"help", ["-h", "--help"], none⟩

/-- An option that takes any value. -/
def textOption (key : String) (spellings : List String) : Opt :=
  ⟨key, spellings, some fun _ => true⟩

/-- The words for what is asked for. -/
def taskNames : List String := ["serve", "uml", "javadoc"]

/-- The command line as a whole. -/
def mainShape : Shape :=
  { opts := [helpOption, ⟨"level", ["--log-level"], some fun v => (LogLevel.ofWord? v).isSome⟩]
    places := [.command taskNames] }

/-- Running the server. -/
def serveShape : Shape :=
  { opts := [helpOption, textOption "host" ["--host"],
      ⟨"port", ["--port"], some fun v => (Text.integer? v).isSome⟩]
    places := [] }

/-- Making a diagram. -/
def diagramShape : Shape :=
  { opts := [helpOption, ⟨"form", ["--format"], some fun v => (DiagramForm.ofWord? v).isSome⟩,
      textOption "output" ["-o", "--output"]]
    places := [.one "directory"] }

/-- Documenting. -/
def docsShape : Shape :=
  { opts := [helpOption, textOption "classPath" ["--classpath"]]
    places := [.one "directory"] }

/-! ## Reading -/

/-- Running the server with the given values. -/
def serveTask (p : Parsed) : Task :=
  .serve (p.value? "host") ((p.value? "port").bind Text.integer?)

/-- Making a diagram with the given values. -/
def diagramTask (p : Parsed) : Task :=
  .diagram ((p.value? "directory").getD "")
    (((p.value? "form").bind DiagramForm.ofWord?).getD .source) (p.value? "output")

/-- Documenting with the given values. -/
def docsTask (p : Parsed) : Task :=
  .docs ((p.value? "directory").getD "") (p.value? "classPath")

/-- The task of a name with the words behind it, and words that have no meaning. -/
def taskOf (name : String) (words : List String) : Except Stop (Task × List String) :=
  match name with
  | "serve" => (fun p => (serveTask p, p.extras)) <$> parse serveShape words
  | "uml" => (fun p => (diagramTask p, p.extras)) <$> parse diagramShape words
  | _ => (fun p => (docsTask p, p.extras)) <$> parse docsShape words

/-- What the words of a command line ask for. -/
def Invocation.ofWords (words : List String) : Except Stop Invocation := do
  let p ← parse mainShape words
  let logLevel := ((p.value? "level").bind LogLevel.ofWord?).getD .info
  let (task, extras) ← match p.command with
    | none => pure (Task.serve none none, [])
    | some (name, words) => taskOf name words
  if (p.extras ++ extras).isEmpty then return ⟨logLevel, task⟩ else throw .refused

end JavaAtlas.CommandLine
