import JavaAtlas.Config.Override
import JavaAtlas.Storage.FileSystem
import JavaAtlas.Text.Lines
import JavaAtlas.Text.Utf8

/-!
# Loading the configuration

The configuration is read from one file of the configuration directory; without
the file the usual settings hold.  A configuration that was loaded is kept until it
is asked to be forgotten, whatever happens to the file and the environment.

Main definitions:

- `evaluate`: the settings of the current file and environment.
- `Kept`, `load`: the settings that were kept, or else evaluated afresh.
-/

namespace JavaAtlas.Config

open Storage
open Text.Utf8 (Malformed)
open Yaml (Value LoadError)

/-- Why there are no settings. -/
inductive LoadFailure where
  /-- It cannot be told whether there is a file. -/
  | unreachable (fault : FileFault)
  /-- The file cannot be opened or holds no document. -/
  | unreadable (file : Path)
  /-- The document is no mapping. -/
  | noMapping (file : Path)
  /-- Settings cannot be read from their values. -/
  | invalid (file : Path) (complaints : List Complaint)
  /-- The file is no text. -/
  | noText (cause : Malformed)
  /-- A scalar is not written as its tag asks, or an escape has no character. -/
  | badScalar (cause : LoadError)
  /-- Reading the document takes more of the stack than there is. -/
  | exhausted
  /-- A section cannot take an override. -/
  | noSection (kind : PlainKind)
  deriving DecidableEq, Repr

/-- How a value that cannot take an override is called. -/
def PlainKind.name : PlainKind → String
  | truth => "bool"
  | integer => "int"
  | number => "float"
  | text => "str"
  | octets => "bytes"
  | date => "datetime.date"
  | dateAndTime => "datetime.datetime"
  | list => "list"
  | set => "set"

/-- Why an override cannot be carried out, in words. -/
def PlainKind.message (k : PlainKind) : String :=
  match k with
  | list => "list indices must be integers or slices, not str"
  | k => s!"{Text.Quoted.text k.name} object does not support item assignment"

/-- Greatest code that is told apart from others. -/
def greatestNumber : Nat := 0x7FFFFFFF

/-- Why a document has no value, in words. -/
def loadMessage : LoadError → String
  | .malformed => "malformed document"
  | .badCode code =>
    if code ≤ greatestNumber then "chr() arg not in range(0x110000)"
    else "Python int too large to convert to C int"
  | .badInteger text base =>
    s!"invalid literal for int() with base {base}: {Text.Quoted.text text}"
  | .longInteger digits =>
    s!"Exceeds the limit ({Text.digitLimit} digits) for integer string conversion: value has " ++
      s!"{digits} digits; use sys.set_int_max_str_digits() to increase the limit"
  | .badFloat text => s!"could not convert string to float: {Text.Quoted.text text}"
  | .badBool text => Text.Quoted.text text
  | .emptyNumber => "string index out of range"
  | .overlongNumber => "int too large to convert to float"
  | .badMoment => "'NoneType' object has no attribute 'groupdict'"
  | .momentOfMapping => "expected string or bytes-like object, got 'list'"
  | .impossibleMoment reason => reason

/-- The error in words. -/
def LoadFailure.message : LoadFailure → String
  | unreachable fault => fault.message
  | unreadable file => s!"Cannot read {file.text}"
  | noMapping file => s!"{file.text} must contain a mapping at the top level"
  | invalid file _ => s!"Invalid configuration in {file.text}"
  | noText cause => cause.message
  | badScalar cause => loadMessage cause
  | exhausted => "maximum recursion depth exceeded"
  | noSection kind => kind.message

/-- The failure is reported as one of the configuration.  Any other one breaks off
whatever asked for the settings. -/
def LoadFailure.isReported : LoadFailure → Bool
  | unreadable _ | noMapping _ | invalid _ _ => true
  | unreachable _ | noText _ | badScalar _ | exhausted | noSection _ => false

/-! ## Evaluation -/

/-- Name of the file that holds the configuration. -/
def fileName : String := "docloom.yaml"

/-- The variable that names the configuration directory. -/
def directoryVariable : String := "DOCLOOM_CONFIG_DIR"

/-- What stops the reading of a file before its end is seen. -/
inductive Obstacle where
  /-- The stack is exhausted. -/
  | stack
  /-- A fault of the document. -/
  | fault (e : LoadError)
  deriving DecidableEq, Repr

/-- What evaluation depends on. -/
structure World where
  files : FileSystem
  environment : Environment
  /-- The configuration directory where none is named. -/
  usualDirectory : Path
  /-- What stops the reading of octets, as far as they do not tell it themselves: how deep
  a document may be, and how much of a long file is read before it is looked at. -/
  stops : Text.Utf8.Bytes → Option Obstacle := fun _ => none

/-- The configuration directory. -/
def World.directory (w : World) : Path :=
  match w.environment.get? directoryVariable with
  | none => w.usualDirectory
  | some "" => w.usualDirectory
  | some d => Path.ofText d

/-- The configuration file. -/
def World.file (w : World) : Path :=
  w.directory.child fileName

/-- The value of a document that counts for nothing is an empty mapping. -/
def pairsOfDocument (file : Path) (v : Value) : Except LoadFailure Pairs :=
  match v with
  | .mapping ps => .ok ps
  | v => if isEmptyValue v then .ok [] else .error (.noMapping file)

/-- The octets are a text of characters that may stand in a document. -/
def isClean (content : Text.Utf8.Bytes) : Bool :=
  match Text.Utf8.decodeStream content with
  | .ok text => (Text.withLineFeeds text).toList.all Yaml.isAllowed
  | .error _ => false

/-- What stops the reading of octets before they tell it themselves.  Of clean ones every
fault is told; others are found out at once, unless there are more than are read at once. -/
def World.obstacle? (w : World) (content : Text.Utf8.Bytes) : Option Obstacle :=
  if isClean content then (w.stops content).filter (· = .stack)
  else if content.length ≤ Text.Utf8.pieceSize then none
  else w.stops content

/-- The failure that a document without a value leads to. -/
def LoadFailure.ofLoadError (file : Path) : LoadError → LoadFailure
  | .malformed => .unreadable file
  | cause => .badScalar cause

/-- The pairs of the document that octets hold, if all of them are read. -/
def pairsOfContent (file : Path) (content : Text.Utf8.Bytes) : Except LoadFailure Pairs :=
  match Text.Utf8.decodeStream content with
  | .error cause => .error (.noText cause)
  | .ok text =>
    match Value.load (Text.withLineFeeds text) with
    | .error e => .error (.ofLoadError file e)
    | .ok v => pairsOfDocument file v

/-- The pairs of the document that a file holds. -/
def World.pairsOfFile (w : World) (content : Text.Utf8.Bytes) : Except LoadFailure Pairs :=
  match w.obstacle? content with
  | some .stack => .error .exhausted
  | some (.fault e) => .error (.ofLoadError w.file e)
  | none => pairsOfContent w.file content

/-- The pairs of the configuration file; without a file there are none. -/
def World.document (w : World) : Except LoadFailure Pairs :=
  match w.files.askFile w.file with
  | .error fault => .error (.unreachable fault)
  | .ok false => .ok []
  | .ok true =>
    match w.files.read w.file with
    | .error _ => .error (.unreadable w.file)
    | .ok content => w.pairsOfFile content

/-- The settings of the current file and environment. -/
def World.evaluate (w : World) : Except LoadFailure Settings := do
  let document ← w.document
  let document ← (override w.environment document).mapError .noSection
  match settingsOf document with
  | .fine s => return s
  | .refused complaints => throw (.invalid w.file complaints)

/-! ## Keeping -/

/-- The settings that were loaded last, until they are forgotten. -/
abbrev Kept := Option Settings

/-- Loaded settings, and whether they had been kept. -/
structure Loaded where
  settings : Settings
  wasKept : Bool
  deriving Repr

/-- The settings that were kept, or else those of the current file and environment. -/
def load (w : World) (kept : Kept) : Except LoadFailure Loaded × Kept :=
  match kept with
  | some s => (.ok ⟨s, true⟩, kept)
  | none =>
    match w.evaluate with
    | .ok s => (.ok ⟨s, false⟩, some s)
    | .error e => (.error e, none)

/-- Forgets what was kept. -/
def forget : Kept → Kept :=
  fun _ => none

end JavaAtlas.Config
