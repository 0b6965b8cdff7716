import JavaAtlas.Config.Settings
import JavaAtlas.Image.Alphabet
import JavaAtlas.Image.Availability
import JavaAtlas.Image.Format
import JavaAtlas.Image.Layout

/-!
# Rendering

A diagram becomes an image in one of two ways: by the local renderer, if it can be
used, and otherwise by a server.  Whatever looks like an image of the format is
taken, whether the renderer says that it succeeded or not.

Main definitions:

- `Call`, `Partners`: what is asked of others, and what they answer.
- `renderAs`: the image in a format or why there is none, with all calls that were made.
- `answer`: the same for the name of a format, unless it cannot be told whether the local
  renderer is there.
-/

namespace JavaAtlas.Image

open Config (ImageSettings)
open Number (Binary64)
open Storage (FileFault)
open Text.Utf8 (Bytes)

/-- A request to another program. -/
inductive Call where
  /-- The local renderer with its command, its input and its time in seconds. -/
  | local (command : List String) (input : String) (timeout : Int)
  /-- The server with an address and its time in seconds. -/
  | server (url : String) (timeout : Binary64)
  deriving DecidableEq, Repr

/-- How the local renderer ends. -/
inductive LocalOutcome where
  | finished (exit : Int) (output errors : Bytes)
  | timedOut
  | notStarted (reason : String)
  /-- Asking for it breaks off in another way: for its time or its command. -/
  | brokeOff (reason : String)
  deriving DecidableEq, Repr, Inhabited

/-- How a request to the server ends. -/
inductive ServerOutcome where
  | response (status : Int) (body : Bytes)
  | failed (reason : String)
  /-- The request breaks off in another way: its address is none that can be asked. -/
  | brokeOff (reason : String)
  deriving DecidableEq, Repr, Inhabited

/-- What the other programs would answer. -/
structure Partners where
  «local» : LocalOutcome
  server : ServerOutcome
  deriving Repr, Inhabited

/-- Why there is no image. -/
inductive RenderError where
  | unsupported (format : String)
  | requestFailed (reason : String)
  | badStatus (status : Int) (format : Format)
  | unexpected (body : Bytes)
  deriving DecidableEq, Repr

/-- Number of octets of an unexpected body that are shown. -/
def shownOctets : Nat := 200

/-- The error in words. -/
def RenderError.message : RenderError → String
  | unsupported format =>
    let known := ", ".intercalate (Format.all.map fun f => Text.Quoted.text f.name)
    s!"Unsupported image format: {format}. Supported: [{known}]"
  | requestFailed reason => s!"PlantUML server request failed: {reason}"
  | badStatus status format =>
    s!"PlantUML server returned {status} with non-{format.name} body"
  | unexpected body =>
    s!"PlantUML server returned unexpected content: {Text.Quoted.octets (body.take shownOctets)}"

/-- Why rendering ends without an image. -/
inductive RenderFailure where
  | error (e : RenderError)
  /-- It cannot be told whether the local renderer is there. -/
  | status (fault : FileFault)
  /-- A partner broke off. -/
  | partner (reason : String)
  deriving DecidableEq, Repr

/-- An image or why there is none, with the calls that were made. -/
structure Rendering where
  result : Except RenderFailure Bytes
  calls : List Call

/-! ## The local renderer -/

/-- The command of the local renderer. -/
def localCommand (jar : String) (f : Format) : List String :=
  [runner, "-Djava.awt.headless=true", "-jar", jar, "-t" ++ f.name, "-pipe"]

/-- The image among the output of the local renderer, unless that broke off. -/
def localImage (f : Format) : LocalOutcome → Except RenderFailure (Option Bytes)
  | .finished _ output _ => .ok (if f.resembles output then some output else none)
  | .timedOut | .notStarted _ => .ok none
  | .brokeOff reason => .error (.partner reason)

/-! ## The server -/

/-- The address of a server without slashes at its end. -/
def serverRoot (url : String) : String :=
  String.ofList (url.toList.reverse.dropWhile (· == '/')).reverse

/-- The address of the image of a text. -/
def imageUrl (server text : String) (f : Format) : String :=
  serverRoot server ++ "/" ++ f.name ++ "/" ++ encode text

/-- The image in the answer of the server. -/
def serverImage (f : Format) : ServerOutcome → Except RenderFailure Bytes
  | .failed reason => .error (.error (.requestFailed reason))
  | .brokeOff reason => .error (.partner reason)
  | .response status body =>
    if f.resembles body then .ok body
    else if status = 200 then .error (.error (.unexpected body))
    else .error (.error (.badStatus status f))

/-- Asks the server, after the given calls. -/
def viaServer (settings : ImageSettings) (partners : Partners) (f : Format) (text : String)
    (before : List Call) : Rendering :=
  let call := Call.server (imageUrl settings.serverUrl text f) settings.httpTimeout
  ⟨serverImage f partners.server, before ++ [call]⟩

/-! ## Both ways -/

/-- Renders a text in a format. -/
def renderAs (settings : ImageSettings) (partners : Partners) (s : Surroundings)
    (f : Format) (text : String) (m : Memory) : Rendering × Memory :=
  let (available, m) := m.askJar s settings.jarPath
  if available then
    let (engine, m) := m.askEngine s
    let jar := settings.jarPath.getD ""
    let call := Call.local (localCommand jar f) (withLayout engine text) settings.jarTimeout
    match localImage f partners.local with
    | .error failure => (⟨.error failure, [call]⟩, m)
    | .ok (some image) => (⟨.ok image, [call]⟩, m)
    | .ok none => (viaServer settings partners f text [call], m)
  else (viaServer settings partners f text [], m)

/-- Renders a text in the format of a name.  Only for a format that is known it is asked
whether the local renderer can be used. -/
def answer (settings : ImageSettings) (partners : Partners) (s : Surroundings)
    (format text : String) (m : Memory) : Rendering × Memory :=
  match Format.ofName? format with
  | none => (⟨.error (.error (.unsupported format)), []⟩, m)
  | some f =>
    match m.jarFault? s settings.jarPath with
    | some fault => (⟨.error (.status fault), []⟩, m)
    | none => renderAs settings partners s f text m

end JavaAtlas.Image
