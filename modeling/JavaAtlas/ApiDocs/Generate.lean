import JavaAtlas.ApiDocs.Dependencies
import JavaAtlas.Source.Walk

/-!
# Generating documentation

The documentation of all source files below a directory is written by a tool to a new
directory.  The tool is called once, with the class path that holds for the directory;
its outcome decides whether there is documentation.

Main definitions:

- `docsCommand`: how the tool is called.
- `generate`: the documentation of a directory, or why there is none.
-/

namespace JavaAtlas.ApiDocs

open Config (DocsSettings)
open Storage
open Text.Utf8 (Malformed)
open Tool (Breach Call Outcome)

/-! ## The command -/

/-- The program that processes annotations. -/
def annotationProcessor : String :=
  "lombok.launch.AnnotationProcessorHider$AnnotationProcessor"

/-- The part of the command that gives the class path. -/
def classPathOptions (classPath : String) : List String :=
  if classPath = "" then []
  else
    ["-classpath", classPath] ++
      match ClassPath.processorOf? classPath with
      | none => []
      | some archive => ["-processorpath", archive, "-processor", annotationProcessor]

/-- The part of the command that gives encodings. -/
def encodingOptions : List String :=
  ["-encoding", "UTF-8", "-docencoding", "UTF-8", "-charset", "UTF-8"]

/-- The command of the tool for files, ending with them. -/
def docsCommand (s : DocsSettings) (source output : Path) (files : List Path)
    (classPath : String) : List String :=
  [s.command, "-d", output.text, "-sourcepath", source.text] ++ classPathOptions classPath ++
    encodingOptions ++ (if s.disableDoclint then ["-Xdoclint:none"] else []) ++
    files.map Path.text

/-! ## Results and errors -/

/-- What generation gives. -/
inductive Docs where
  /-- There is nothing to document in the directory. -/
  | nothing (directory : String)
  /-- Documentation of so many files was written to a location. -/
  | written (output : Location) (hasIndex : Bool) (toolOutput : String) (fileCount : Nat)
  deriving DecidableEq, Repr

namespace Docs

/-- The result in words. -/
def message : Docs → String
  | nothing directory => s!"No .java files found in {directory}. No Javadoc generated."
  | written output true _ _ =>
    let place := (FileSystem.pathOf output).text
    s!"Javadoc generated successfully at: {place}"
  | written output false _ _ =>
    let place := (FileSystem.pathOf output).text
    "Javadoc process completed, but main index file might be missing. " ++
      s!"Check logs and output at: {place}"

/-- Where the documentation is. -/
def output? : Docs → Option Location
  | nothing _ => none
  | written output _ _ _ => some output

/-- What the tool said. -/
def toolOutput : Docs → String
  | nothing _ => ""
  | written _ _ text _ => text

/-- Number of documented files. -/
def fileCount : Docs → Nat
  | nothing _ => 0
  | written _ _ _ n => n

end Docs

/-- Why there is no documentation. -/
inductive DocsError where
  /-- The text does not lead to a directory. -/
  | noDirectory (directory : String)
  /-- A path could not be resolved. -/
  | unresolved (e : FileSystem.Unresolved)
  | step (e : StepError)
  /-- The tool was no success within so many seconds. -/
  | tool (timeout : Int) (outcome : Outcome)
  deriving DecidableEq, Repr

/-- Why the tool was no success, in words. -/
def toolReason (timeout : Int) (o : Outcome) : String :=
  if o.timedOut then s!"timed out after {timeout}s"
  else
    match o.exit with
    | none => "could not be started"
    | some n => s!"failed with exit code {n}"

/-- Why the text leads to no directory, in words. -/
def noDirectoryMessage (directory : String) : String :=
  s!"Source directory does not exist or is not a directory: {directory}"

/-- The failure of the tool in words. -/
def toolMessage (timeout : Int) (o : Outcome) : String :=
  let reason := toolReason timeout o
  s!"Javadoc generation {reason}. Check logs for details."

/-! ## Generation -/

/-- A result or an error, with the calls that were made, the files afterwards, and
whether the name for a new directory was used. -/
structure Run where
  result : Except DocsError Docs
  calls : List (Helper × Call)
  files : FileSystem
  nameUsed : Bool

/-- The ending of the names of files that are documented. -/
def sourceExtension : String := ".java"

/-- The main page of documentation. -/
def indexOf (output : Location) : Path :=
  (FileSystem.pathOf output).child "index.html"

/-- What is made of the outcome of the tool. -/
def docsOf (fs : FileSystem) (timeout : Int) (output : Location) (fileCount : Nat) (o : Outcome) :
    Except DocsError Docs :=
  if o.isOk then
    match fs.askFile (indexOf output) with
    | .error f => .error (.step (.file f))
    | .ok hasIndex => .ok (.written output hasIndex o.output fileCount)
  else .error (.tool timeout o)

/-- What is made of how the call of the tool ended. -/
def docsAfter (fs : FileSystem) (timeout : Int) (output : Location) (fileCount : Nat) :
    Except Breach Outcome → Except DocsError Docs
  | .error b => .error (.step (.breach b))
  | .ok o => docsOf fs timeout output fileCount o

/-- The call of the tool. -/
def docsCall (s : DocsSettings) (source output : Location) (files : List Path)
    (classPath : String) : Call :=
  let sourcePath := FileSystem.pathOf source
  { command := docsCommand s sourcePath (FileSystem.pathOf output) files classPath
    directory := sourcePath.text
    timeout := s.timeout }

/-- Calls the tool, after other calls. -/
def callTool (partners : Partners) (s : DocsSettings) (fs : FileSystem) (source output : Location)
    (files : List Path) (classPath : String) (before : List (Helper × Call)) : Run :=
  let call := docsCall s source output files classPath
  let calls := before ++ [(Helper.docsTool, call)]
  let reply := partners.docsTool fs call
  match reply.store fs (indexOf output) with
  | .error f => ⟨.error (.step (.file f)), calls, fs, true⟩
  | .ok fs => ⟨docsAfter fs s.timeout output files.length reply.ending, calls, fs, true⟩

/-- Documents files in a new directory of the given name. -/
def documentFiles (partners : Partners) (s : DocsSettings) (fs : FileSystem) (source : Location)
    (files : List Path) (name : String) (classPath : Option String) : Run :=
  match fs.resolve ((Path.ofText s.outputBase).child name) with
  | .error e => ⟨.error (.unresolved e), [], fs, true⟩
  | .ok output =>
    match fs.makeDirectories (FileSystem.pathOf output) with
    | .error f =>
      ⟨.error (.step (.file f)), [], fs.triedDirectories (FileSystem.pathOf output), true⟩
    | .ok fs =>
      let work := fullClassPath partners fs (FileSystem.pathOf source) classPath
        s.mavenCommand s.mavenTimeout
      match work.result with
      | .error e => ⟨.error (.step e), work.calls, work.files, true⟩
      | .ok effective =>
        callTool partners s work.files source output files effective work.calls

/-- Name of a new directory. -/
def outputName (id : String) : String :=
  "docs-" ++ id

/-- A run that ends before anything is done. -/
def Run.idle (fs : FileSystem) (result : Except DocsError Docs) : Run :=
  ⟨result, [], fs, false⟩

/-- Documents all source files below a location that a text leads to. -/
def documentBelow (partners : Partners) (s : DocsSettings) (fs : FileSystem) (id directory : String)
    (source : Location) (classPath : Option String) : Run :=
  match Source.walkFault? fs (FileSystem.pathOf source) sourceExtension with
  | some fault => .idle fs (.error (.step (.file fault)))
  | none =>
    let files := Source.sourceFiles fs (FileSystem.pathOf source) sourceExtension
    if files.isEmpty then .idle fs (.ok (.nothing directory))
    else documentFiles partners s fs source files (outputName id) classPath

/-- Documents all source files below a directory. -/
def generate (partners : Partners) (s : DocsSettings) (fs : FileSystem) (id directory : String)
    (classPath : Option String) : Run :=
  if directory = "" then .idle fs (.error (.noDirectory directory))
  else
    match fs.askDirectory (Path.ofText directory) with
    | .error f => .idle fs (.error (.step (.file f)))
    | .ok false => .idle fs (.error (.noDirectory directory))
    | .ok true =>
      match fs.resolve (Path.ofText directory) with
      | .error e => .idle fs (.error (.unresolved e))
      | .ok source => documentBelow partners s fs id directory source classPath

end JavaAtlas.ApiDocs
