import JavaAtlas.ApiDocs.ClassPath
import JavaAtlas.Config.Settings
import JavaAtlas.Storage.Change
import JavaAtlas.Text.Lines
import JavaAtlas.Tool.Trace

/-!
# Dependencies of a project

A project with a build description can tell the class path of what it depends on: its
build tool is asked to write it to a file, which is read and removed again.  Whatever
goes wrong with the build tool, the class path that was asked for stays.

Main definitions:

- `buildProgram`: the build tool of a project.
- `Helper`, `Reply`: the tools that are asked, and what they leave.
- `fullClassPath`: the class path that holds for a project.
-/

namespace JavaAtlas.ApiDocs

open Config (DocsSettings)
open Storage
open Text.Utf8 (Bytes Malformed)
open Tool (Breach Call Outcome)

/-! ## Helpers -/

/-- The tools that help. -/
inductive Helper where
  | buildTool
  | docsTool
  deriving DecidableEq, Repr

/-- What a tool leaves. -/
structure Reply where
  /-- Its outcome, unless the call broke off. -/
  ending : Except Breach Outcome
  /-- What it wrote to the file that was asked for. -/
  written : Option Bytes
  deriving Repr, Inhabited

/-- The tools as they answer calls, given the files. -/
structure Partners where
  buildTool : FileSystem → Call → Reply
  docsTool : FileSystem → Call → Reply

/-- Stores what a tool wrote. -/
def Reply.store (r : Reply) (fs : FileSystem) (file : Path) : Except FileFault FileSystem :=
  match r.written with
  | none => .ok fs
  | some content => fs.write file content

/-- Why a step of the work fails. -/
inductive StepError where
  | file (f : FileFault)
  /-- A file is no text. -/
  | noText (cause : Malformed)
  /-- A path could not be resolved. -/
  | unresolved (e : FileSystem.Unresolved)
  /-- The call of a tool broke off. -/
  | breach (b : Breach)
  deriving DecidableEq, Repr

/-! ## The build tool -/

/-- The programs of a project that stand in for the build tool, the best one first. -/
def wrapperNames : List String := ["mvnw.cmd", "mvnw"]

/-- The first of some programs that can be used. -/
def firstUsable? (fs : FileSystem) : List Path → Except FileFault (Option Path)
  | [] => .ok none
  | p :: ps =>
    match fs.askFile p with
    | .error f => .error f
    | .ok isFile => if isFile && fs.isExecutable p then .ok (some p) else firstUsable? fs ps

/-- The wrapper of a project that can be used. -/
def wrapper? (fs : FileSystem) (root : Path) : Except FileFault (Option Path) :=
  firstUsable? fs (wrapperNames.map root.child)

/-- The name of a program: where its wrapper is, if there is one, or else the usual one. -/
def programName (fs : FileSystem) (usual : String) : Option Path → Except StepError String
  | none => .ok usual
  | some p =>
    match fs.resolve p with
    | .ok l => .ok (FileSystem.pathOf l).text
    | .error e => .error (.unresolved e)

/-- The build tool of a project: its wrapper, or else the usual one. -/
def buildProgram (fs : FileSystem) (root : Path) (usual : String) : Except StepError String :=
  match wrapper? fs root with
  | .error f => .error (.file f)
  | .ok wrapper => programName fs usual wrapper

/-- The build description of a project. -/
def descriptionOf (root : Path) : Path :=
  root.child "pom.xml"

/-- The file that the class path is written to. -/
def listOf (root : Path) : Path :=
  root.child "javadoc_classpath.txt"

/-- The call that asks for the class path. -/
def dependencyCall (program : String) (root : Path) (timeout : Int) : Call :=
  { command :=
      [ program, "dependency:build-classpath",
        "-Dmdep.outputFile=" ++ (listOf root).text, "-DincludeScope=compile" ]
    directory := root.text
    timeout }

/-- The entries in the file that the class path was written to. -/
def readList (fs : FileSystem) (list : Path) : Except StepError (List String) :=
  match fs.askFile list with
  | .error f => .error (.file f)
  | .ok false => .ok []
  | .ok true =>
    match fs.read list with
    | .error f => .error (.file f)
    | .ok content =>
      match Text.Utf8.decodeStrict content with
      | .error cause => .error (.noText cause)
      | .ok text => .ok (ClassPath.entries (Text.withLineFeeds text))

/-- The files without the given one, which may be missing. -/
def withoutFile (fs : FileSystem) (p : Path) : Except FileFault FileSystem :=
  match fs.unlink p with
  | .ok fs' => .ok fs'
  | .error f => if f.error = .notFound then .ok fs else .error f

/-! ## Class path of a project -/

/-- A result or an error, with the calls that were made and the files afterwards. -/
structure Work (α : Type) where
  result : Except StepError α
  calls : List (Helper × Call)
  files : FileSystem

/-- Reads what the build tool left and removes it again. -/
def collectList (fs : FileSystem) (list : Path) (o : Outcome) (calls : List (Helper × Call)) :
    Work (List String) :=
  let read := if o.isOk then readList fs list else .ok []
  match withoutFile fs list with
  | .error f => ⟨.error (.file f), calls, fs⟩
  | .ok fs => ⟨read, calls, fs⟩

/-- The entries that the build tool knows, with the list removed again unless the call broke
off. -/
def dependencies (partners : Partners) (fs : FileSystem) (root : Path) (program : String)
    (timeout : Int) : Work (List String) :=
  let call := dependencyCall program root timeout
  let calls := [(Helper.buildTool, call)]
  let reply := partners.buildTool fs call
  match reply.store fs (listOf root) with
  | .error f => ⟨.error (.file f), calls, fs⟩
  | .ok fs =>
    match reply.ending with
    | .error b => ⟨.error (.breach b), calls, fs⟩
    | .ok o => collectList fs (listOf root) o calls

/-- The class path that holds for a project: the given entries and those that it depends
on. -/
def fullClassPath (partners : Partners) (fs : FileSystem) (root : Path)
    (given : Option String) (usual : String) (timeout : Int) : Work String :=
  let own := ClassPath.entries (given.getD "")
  match fs.askFile (descriptionOf root) with
  | .error f => ⟨.error (.file f), [], fs⟩
  | .ok false => ⟨.ok (ClassPath.text (ClassPath.merged own [])), [], fs⟩
  | .ok true =>
    match buildProgram fs root usual with
    | .error e => ⟨.error e, [], fs⟩
    | .ok program =>
      let work := dependencies partners fs root program timeout
      { work with
        result := (fun more => ClassPath.text (ClassPath.merged own more)) <$> work.result }

end JavaAtlas.ApiDocs
