import JavaAtlas.Config.Settings
import JavaAtlas.Text.Blank
import JavaAtlas.Yaml.Value

/-!
# Settings of a document

Every setting is read from the value that a document gives for it.  A value of
another kind is converted where nothing is lost; otherwise there is a complaint
that says where it stands and what is wrong.  All complaints are collected.

Main definitions:

- `Complaint`, `Checked`: complaints, and results that may have some instead.
- `settingsOf`: the settings of a mapping.
-/

namespace JavaAtlas.Config

open Number (Binary64)
open Yaml (Value)

/-! ## Complaints -/

/-- What is wrong with a value. -/
inductive Fault where
  | notMapping
  | notText
  | badText
  | notInteger
  | badInteger
  | longInteger
  | fractional
  | notFinite
  | notNumber
  | badNumber
  | notTruth
  | badTruth
  | notList
  deriving DecidableEq, Repr, Inhabited

/-- The word for a fault. -/
def Fault.word : Fault → String
  | notMapping => "model_type"
  | notText => "string_type"
  | badText => "string_unicode"
  | notInteger => "int_type"
  | badInteger => "int_parsing"
  | longInteger => "int_parsing_size"
  | fractional => "int_from_float"
  | notFinite => "finite_number"
  | notNumber => "float_type"
  | badNumber => "float_parsing"
  | notTruth => "bool_type"
  | badTruth => "bool_parsing"
  | notList => "list_type"

/-- A step to a place inside a document. -/
inductive Step where
  | field (name : String)
  | index (i : Nat)
  deriving DecidableEq, Repr, Inhabited

/-- A fault and the way to its place. -/
structure Complaint where
  place : List Step
  fault : Fault
  deriving DecidableEq, Repr, Inhabited

/-- A result, or complaints instead. -/
inductive Checked (α : Type) where
  | fine (a : α)
  | refused (complaints : List Complaint)
  deriving Repr

namespace Checked

/-- The complaints of a result. -/
def complaints {α : Type} : Checked α → List Complaint
  | fine _ => []
  | refused cs => cs

/-- Applies a function; complaints of both sides are collected. -/
def apply {α β : Type} (f : Checked (α → β)) (a : Checked α) : Checked β :=
  match f, a with
  | fine g, fine b => fine (g b)
  | f, a => refused (f.complaints ++ a.complaints)

instance : Applicative Checked where
  pure := fine
  seq f a := apply f (a ())

/-- The complaints seen from outside. -/
def within {α : Type} (s : Step) : Checked α → Checked α
  | fine a => fine a
  | refused cs => refused (cs.map fun c => { c with place := s :: c.place })

/-- A single complaint about the value itself. -/
def refuse {α : Type} (f : Fault) : Checked α :=
  refused [⟨[], f⟩]

/-- All results of a list, or all complaints, each with the place of its entry. -/
def all {α : Type} : Nat → List (Checked α) → Checked (List α)
  | _, [] => fine []
  | i, c :: cs => List.cons <$> c.within (.index i) <*> all (i + 1) cs

end Checked

/-! ## Single values -/

/-- White space around a number. -/
def isNumberSpace (c : Char) : Bool :=
  Text.isBlank c && !(28 ≤ c.toNat && c.toNat ≤ 31)

/-- Characters without white space at both ends. -/
def trimNumber (cs : List Char) : List Char :=
  ((cs.dropWhile isNumberSpace).reverse.dropWhile isNumberSpace).reverse

/-- Digits with single underscores between them. -/
def gappedDigits : List Char → Bool
  | [] => false
  | [c] => c.isDigit
  | c :: '_' :: rest => c.isDigit && gappedDigits rest
  | c :: rest => c.isDigit && gappedDigits rest

/-- Splits a sign off. -/
def signed : List Char → Bool × List Char
  | '-' :: cs => (true, cs)
  | '+' :: cs => (false, cs)
  | cs => (false, cs)

/-- Nothing follows the digits of an integer, or zeros behind a point. -/
def isWhole : List Char → Bool
  | [] => true
  | _ :: zeros => !zeros.isEmpty && zeros.all (· == '0')

/-- The integer of a text: digits with a sign.  Zeros in front do not count for its size. -/
def integerOf (text : String) : Checked Int :=
  let (negative, body) := signed (trimNumber text.toList)
  let written := body.takeWhile (· != '.')
  let digits := Yaml.Construct.withoutGaps written
  if !(gappedDigits written && isWhole (body.drop written.length)) then .refuse .badInteger
  else if Text.digitLimit < (digits.dropWhile (· == '0')).length then .refuse .longInteger
  else
    match Yaml.Construct.natural? 10 digits with
    | none => .refuse .badInteger
    | some n => .fine (if negative then -(n : Int) else (n : Int))

/-- The number of digits, with a point and an exponent. -/
def plainNumber? (negative : Bool) (body : List Char) : Option Binary64 :=
  (Yaml.Construct.decimal? body).map fun d => .ofDecimal negative d.1 d.2

/-- The number of a text. -/
def numberOf? (text : String) : Option Binary64 :=
  let cs := trimNumber text.toList
  let (negative, body) := signed cs
  let word := (String.ofList body).toLower
  if word = "inf" || word = "infinity" then some (.infinite negative)
  else if word = "nan" then some .notANumber
  else
    (plainNumber? negative body).or
      (if gappedNumber cs then plainNumber? negative (Yaml.Construct.withoutGaps body) else none)
where
  /-- Underscores stand inside, and no two side by side. -/
  gappedNumber (cs : List Char) : Bool :=
    cs.head? != some '_' && cs.getLast? != some '_' && cs.contains '_' &&
      !(cs.zip cs.tail).contains ('_', '_')

/-- The text that octets hold, or the given fault. -/
def heldBy (bs : List UInt8) (otherwise : Fault) : Checked String :=
  match String.fromUTF8? ⟨bs.toArray⟩ with
  | some s => .fine s
  | none => .refuse otherwise

/-- Goes on with a result, unless there are complaints. -/
def Checked.andThen {α β : Type} (c : Checked α) (f : α → Checked β) : Checked β :=
  match c with
  | .fine a => f a
  | .refused complaints => .refused complaints

/-- A text. -/
def textOf : Value → Checked String
  | .text s => .fine s
  | .brokenText => .refuse .badText
  | .octets bs => heldBy bs .badText
  | _ => .refuse .notText

/-- A text, or nothing. -/
def optionalTextOf : Value → Checked (Option String)
  | .null => .fine none
  | v => some <$> textOf v

/-- Numbers that are not below it are too great for an integer. -/
def wholeLimit : Nat := Nat.pow 2 63

/-- An integer; whole numbers and texts of digits count too. -/
def intOf : Value → Checked Int
  | .int i => .fine i
  | .bool b => .fine (if b then 1 else 0)
  | .float x =>
    if x.isFinite then
      match x.toInt? with
      | some i => if i.natAbs < wholeLimit then .fine i else .refuse .longInteger
      | none => .refuse .fractional
    else .refuse .notFinite
  | .text s => integerOf s
  | .brokenText => .refuse .badText
  | .octets bs => (heldBy bs .badInteger).andThen integerOf
  | _ => .refuse .notInteger

/-- A number that is written out. -/
def writtenNumber (s : String) : Checked Binary64 :=
  match numberOf? s with
  | some x => .fine x
  | none => .refuse .badNumber

/-- A number; integers and texts of numbers count too. -/
def numberOf : Value → Checked Binary64
  | .float x => .fine x
  | .bool b => .fine (.ofInt (if b then 1 else 0))
  | .int i =>
    let x := Binary64.ofInt i
    if x.isFinite then .fine x else .refuse .notNumber
  | .text s => writtenNumber s
  | .brokenText => .refuse .badText
  | .octets bs => (heldBy bs .badNumber).andThen writtenNumber
  | _ => .refuse .notNumber

/-- The truth value of an integer. -/
def truthOfInt? (i : Int) : Option Bool :=
  if i = 0 then some false else if i = 1 then some true else none

/-- A word for a truth value. -/
def wordOfTruth (s : String) : Checked Bool :=
  let word := s.toLower
  if ["true", "yes", "on", "y", "t", "1"].contains word then .fine true
  else if ["false", "no", "off", "n", "f", "0"].contains word then .fine false
  else .refuse .badTruth

/-- A truth value; words for it and the numbers zero and one count too. -/
def truthOf : Value → Checked Bool
  | .bool b => .fine b
  | .int i =>
    match truthOfInt? i with
    | some b => .fine b
    | none => .refuse .badTruth
  | .float x =>
    match x.toInt?.bind truthOfInt? with
    | some b => .fine b
    | none => .refuse .notTruth
  | .text s => wordOfTruth s
  | .brokenText => .refuse .badText
  | .octets bs => (heldBy bs .badTruth).andThen wordOfTruth
  | _ => .refuse .notTruth

/-- The integer that a key counts as. -/
def wholeOf? : Value → Option Int
  | .bool b => some (if b then 1 else 0)
  | .int i => some i
  | .float x => x.toInt?
  | _ => none

/-- Two keys of a set count as one. -/
def isSameKey (v w : Value) : Bool :=
  match v, w with
  | .null, .null => true
  | .text s, .text t => s == t
  | .octets bs, .octets cs => bs == cs
  | .moment m, .moment n => m == n
  | v, w => (wholeOf? v).isSome && wholeOf? v == wholeOf? w

/-- The keys of a set, each where it was written first. -/
def keysOf (vs : List Value) : List Value :=
  vs.foldl (fun kept v => if kept.any (isSameKey v) then kept else kept ++ [v]) []

/-- A list of texts.  A set counts as the list of its keys, which has no order of its own;
here it is the one in which they are written. -/
def textsOf : Value → Checked (List String)
  | .list vs => Checked.all 0 (vs.map textOf)
  | .set vs => Checked.all 0 ((keysOf vs).map textOf)
  | _ => .refuse .notList

/-! ## Sections -/

/-- The pairs of a mapping. -/
abbrev Pairs := List (Value × Value)

/-- The key is a text. -/
def isKey (name : String) : Value → Bool
  | .text s => s == name
  | _ => false

/-- The value of a key; the last pair counts. -/
def valueAt? (ps : Pairs) (name : String) : Option Value :=
  (ps.reverse.find? fun p => isKey name p.1).map Prod.snd

/-- A setting of a section, or its usual value. -/
def setting {α : Type} (ps : Pairs) (name : String) (usual : α) (read : Value → Checked α) :
    Checked α :=
  match valueAt? ps name with
  | none => .fine usual
  | some v => (read v).within (.field name)

/-- A section of a document, or the usual one. -/
def sectionOf {α : Type} (read : Pairs → Checked α) : Value → Checked α
  | .mapping ps => read ps
  | _ => .refuse .notMapping

/-- Settings of class diagrams. -/
def diagramSettingsOf (ps : Pairs) : Checked DiagramSettings :=
  let usual : DiagramSettings := {}
  DiagramSettings.mk
    <$> setting ps "allowed_base_directory" usual.allowedBase optionalTextOf
    <*> setting ps "source_extension" usual.sourceExtension textOf

/-- Settings of the documentation tool. -/
def docsSettingsOf (ps : Pairs) : Checked DocsSettings :=
  let usual : DocsSettings := {}
  DocsSettings.mk
    <$> setting ps "output_base_dir" usual.outputBase textOf
    <*> setting ps "command" usual.command textOf
    <*> setting ps "maven_command" usual.mavenCommand textOf
    <*> setting ps "timeout_seconds" usual.timeout intOf
    <*> setting ps "maven_timeout_seconds" usual.mavenTimeout intOf
    <*> setting ps "disable_doclint" usual.disableDoclint truthOf

/-- Settings of the renderer. -/
def imageSettingsOf (ps : Pairs) : Checked ImageSettings :=
  let usual : ImageSettings := {}
  ImageSettings.mk
    <$> setting ps "jar_path" usual.jarPath optionalTextOf
    <*> setting ps "server_url" usual.serverUrl textOf
    <*> setting ps "jar_timeout_seconds" usual.jarTimeout intOf
    <*> setting ps "http_timeout_seconds" usual.httpTimeout numberOf

/-- Settings of the web server. -/
def hostSettingsOf (ps : Pairs) : Checked HostSettings :=
  let usual : HostSettings := {}
  HostSettings.mk
    <$> setting ps "host" usual.host textOf
    <*> setting ps "port" usual.port intOf
    <*> setting ps "cors_origins" usual.corsOrigins textsOf

/-- The settings of a mapping. -/
def settingsOf (ps : Pairs) : Checked Settings :=
  let usual : Settings := {}
  Settings.mk
    <$> setting ps "uml" usual.diagrams (sectionOf diagramSettingsOf)
    <*> setting ps "javadoc" usual.docs (sectionOf docsSettingsOf)
    <*> setting ps "renderer" usual.renderer (sectionOf imageSettingsOf)
    <*> setting ps "server" usual.server (sectionOf hostSettingsOf)

end JavaAtlas.Config
