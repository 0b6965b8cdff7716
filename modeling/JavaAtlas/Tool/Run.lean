import JavaAtlas.Tool.Program

/-!
# Running tools

Starting a tool may fail: its directory or its file may be missing or of the wrong
kind.  A tool that starts has the outcome of its run.  A call breaks off if it holds a
null character, or if its tool starts and nobody can wait for it so long.

Main definitions:

- `start`: what a started tool does, or why it does not start.
- `run`: the outcome of a call.
-/

namespace JavaAtlas.Tool

open Storage

/-- Why a tool does not start. -/
inductive StartError where
  /-- There is no such tool, or no such directory. -/
  | missing
  /-- The tool or the directory cannot be used. -/
  | fault (f : FileFault)
  /-- The file is not one that can be run. -/
  | badFormat (file : String)
  deriving DecidableEq, Repr

/-- The error in words, for a tool of the given name. -/
def StartError.message (name : String) : StartError → String
  | missing => s!"Command not found: {name}"
  | fault f => f.message
  | badFormat file => s!"[Errno 8] Exec format error: {Text.Quoted.text file}"

/-- The directories where tools are looked for. -/
def toolDirectories : List (List String) :=
  [["bin"], ["usr", "bin"]]

/-- The command with the tool named without its directory, if it is one of those where
tools are looked for. -/
def withoutDirectory (command : List String) : List String :=
  match command with
  | [] => []
  | name :: args =>
    let p := Path.ofText name
    if p.isAbsolute && toolDirectories.contains p.names.dropLast then
      p.names.getLastD "" :: args
    else command

/-- The words in the first line of a script that say what runs it. -/
def runnerOf? (content : List Char) : Option (List String) :=
  match content with
  | '#' :: '!' :: rest =>
    let line := (rest.takeWhile (· != '\n')).dropWhile (· == ' ')
    let runner := line.takeWhile (· != ' ')
    let argument := (line.drop runner.length).dropWhile (· == ' ')
    some (String.ofList runner :: if argument.isEmpty then [] else [String.ofList argument])
  | _ => none

/-- What the file of a tool does. -/
def startFile (fs : FileSystem) (name : String) (args : List String) :
    Except StartError Trace :=
  match fs.status (Path.asWritten name) with
  | .error .notFound => .error .missing
  | .error e => .error (.fault ⟨e, name⟩)
  | .ok (.file content mode) =>
    if mode &&& 0o111 = 0 then .error (.fault ⟨.permissionDenied, name⟩)
    else
      match runnerOf? (Text.Utf8.decode content).toList with
      | none => .error (.badFormat name)
      | some runner =>
        match program? fs scriptLimit false (withoutDirectory runner ++ name :: args) with
        | some t => .ok t
        | none => .error .missing
  | .ok _ => .error (.fault ⟨.permissionDenied, name⟩)

/-- What a command does that is called from the working directory. -/
def startHere (fs : FileSystem) (command : List String) : Except StartError Trace :=
  match program? fs scriptLimit false (withoutDirectory command) with
  | some t => .ok t
  | none =>
    match command with
    | [] => .error .missing
    | name :: args =>
      if name = "" then .error (.fault ⟨.permissionDenied, name⟩)
      else if name.toList.contains '/' then startFile fs name args
      else .error .missing

/-- What a command does that is called from a directory. -/
def start (fs : FileSystem) (command : List String) (directory : Option String) :
    Except StartError Trace :=
  match directory with
  | none => startHere fs command
  | some d =>
    match fs.reach true (Path.asWritten d) with
    | .error .notFound => .error .missing
    | .error e => .error (.fault ⟨e, d⟩)
    | .ok l =>
      match fs.node? l with
      | none => .error .missing
      | some .directory =>
        if fs.isClosed l then .error (.fault ⟨.permissionDenied, d⟩)
        else startHere { fs with workingDirectory := l } command
      | some _ => .error (.fault ⟨.notADirectory, d⟩)

/-- The outcome of a command that may take so many microseconds. -/
def run (fs : FileSystem) (command : List String) (directory : Option String) (limit : Nat) :
    Except Breach Outcome :=
  if (command ++ directory.toList).any holdsNull then .error .nullCharacter
  else
    match start fs command directory with
    | .error e => .ok (.notStarted (e.message (command.headD "")))
    | .ok t =>
      if limit ≤ Breach.waitLimit then .ok (t.outcome limit) else .error (.overlongTime limit)

/-- The outcome of a call. -/
def Call.run (fs : FileSystem) (c : Call) : Except Breach Outcome :=
  Tool.run fs c.command (some c.directory) (c.timeout.toNat * 1000000)

end JavaAtlas.Tool
