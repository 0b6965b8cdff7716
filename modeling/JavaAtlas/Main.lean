import JavaAtlas.CommandLine.Run
import JavaAtlas.Tool.Run

/-!
# The program

Reads the directories that the command line names into a file system, runs the command
line on it, and writes the files that are new or changed.  Everything that is decided is
decided by `CommandLine.run`.  No renderer and no server can be reached from here, so
images and documentation end with the error for that.
-/

namespace JavaAtlas

open Storage

/-- Reads a directory with everything below it; what cannot be read is left out. -/
partial def readDirectory (entries : List (Location × Node)) (l : Location) :
    IO (List (Location × Node)) := do
  let directory ← IO.FS.realPath (FileSystem.pathOf l).text
  let mut entries := (l, Node.directory) :: entries
  for entry in ← directory.readDir do
    let place := l ++ [entry.fileName]
    try
      match (← entry.path.symlinkMetadata).type with
      | .dir => entries ← readDirectory entries place
      | .symlink => entries := (place, .link (← IO.FS.realPath entry.path).toString) :: entries
      | .file =>
        let content ← IO.FS.readBinFile entry.path
        entries := (place, .file content.toList 0o755) :: entries
      | .other => pure ()
    catch _ => pure ()
  return entries

/-- The directories above a location. -/
def directoriesAbove (l : Location) : List (Location × Node) :=
  (List.range l.length).map fun n => (l.take n, .directory)

/-- Reads a directory that the file system does not hold yet, if it is one. -/
def withDirectory (fs : FileSystem) (name : String) : IO FileSystem := do
  if fs.isDirectory (.ofText name) then return fs
  try
    let l := (Path.ofText (← IO.FS.realPath name).toString).names
    return { fs with entries := ← readDirectory (directoriesAbove l ++ fs.entries) l }
  catch _ => return fs

/-- The variables of the environment that count. -/
def readEnvironment : IO Config.Environment := do
  let names := Config.directoryVariable :: Config.overrides.map (·.variableName)
  let read ← names.mapM fun name => return (← IO.getEnv name).map fun value => (name, value)
  return read.filterMap id

/-- The programs that work together with this one, none of which can be reached. -/
def noPartners : Service.Partners where
  images := ⟨.notStarted "no renderer", .failed "no server"⟩
  docs := ⟨fun fs call => ⟨call.run fs, none⟩, fun fs call => ⟨call.run fs, none⟩⟩
  names n := toString (n + 1)

/-- Writes the files and directories that are new or changed. -/
def writeChanges (before after : FileSystem) : IO Unit := do
  for (l, node) in after.entries.reverse do
    if before.node? l != some node then
      match node with
      | .directory => IO.FS.createDirAll (FileSystem.pathOf l).text
      | .file content _ =>
        IO.FS.writeBinFile (FileSystem.pathOf l).text (ByteArray.mk content.toArray)
      | .link _ => pure ()

end JavaAtlas

open JavaAtlas in
/-- Runs the command line. -/
def main (words : List String) : IO UInt32 := do
  let here := (Storage.Path.ofText (← IO.currentDir).toString).names
  let environment ← readEnvironment
  let usual := Storage.Path.ofText "config"
  let world : Config.World :=
    { files := { entries := [], workingDirectory := here }, environment, usualDirectory := usual }
  let files ← (["."] ++ [world.directory.text] ++ words).foldlM withDirectory world.files
  let run := CommandLine.run { world with files } noPartners words
  writeChanges files run.files
  IO.print run.shown
  match run.exit with
  | .ok n => return n.toUInt32
  | .error _ => return CommandLine.failedExit.toUInt32
