import JavaAtlas.Config.Decode

/-!
# Overrides from the environment

A few settings may be given by variables of the environment, which count more than
the document.  Empty variables count for nothing.  A section that is missing or
empty is made for an override; a section that is something else than a mapping
cannot take one.

Main definitions:

- `Environment`: the variables.
- `overrides`: which variable sets what.
- `override`: a document with all overrides carried out.
-/

namespace JavaAtlas.Config

open Yaml (Value)

/-- Variables and their values. -/
abbrev Environment := List (String × String)

/-- The value of a variable. -/
def Environment.get? (env : Environment) (name : String) : Option String :=
  env.lookup name

/-- A variable and the setting that it gives. -/
structure Override where
  variableName : String
  sectionName : String
  settingName : String
  deriving DecidableEq, Repr

/-- All overrides, in the order in which they are carried out. -/
def overrides : List Override :=
  [ ⟨"DOCLOOM_ALLOWED_BASE_DIR", "uml", "allowed_base_directory"⟩,
    ⟨"JAVADOC_OUTPUT_DIR", "javadoc", "output_base_dir"⟩,
    ⟨"JAVADOC_COMMAND", "javadoc", "command"⟩,
    ⟨"MAVEN_COMMAND", "javadoc", "maven_command"⟩,
    ⟨"PLANTUML_JAR_PATH", "renderer", "jar_path"⟩,
    ⟨"PLANTUML_SERVER_URL", "renderer", "server_url"⟩ ]

/-- Kind of a value that is no mapping. -/
inductive PlainKind where
  | truth
  | integer
  | number
  | text
  | octets
  | date
  | dateAndTime
  | list
  | set
  deriving DecidableEq, Repr, Inhabited

/-- The value counts for nothing. -/
def isEmptyValue : Value → Bool
  | .null => true
  | .bool b => !b
  | .int i => i == 0
  | .float x => x.toInt? == some 0
  | .text s => s == ""
  | .brokenText => false
  | .octets bs => bs.isEmpty
  | .moment _ => false
  | .list vs => vs.isEmpty
  | .set vs => vs.isEmpty
  | .mapping ps => ps.isEmpty

/-- The pairs of a section that takes an override, or the kind of a value that cannot. -/
def pairsForOverride : Value → Except PlainKind Pairs
  | .mapping ps => .ok ps
  | v => if isEmptyValue v then .ok [] else .error (kindOf v)
where
  /-- The kind of a value. -/
  kindOf : Value → PlainKind
    | .bool _ => .truth
    | .int _ => .integer
    | .float _ => .number
    | .octets _ => .octets
    | .moment m => if m.time.isSome then .dateAndTime else .date
    | .list _ => .list
    | .set _ => .set
    | _ => .text

/-- Carries one override out. -/
def applyOverride (env : Environment) (document : Pairs) (o : Override) : Except PlainKind Pairs :=
  match env.get? o.variableName with
  | none => .ok document
  | some value =>
    if value = "" then .ok document
    else do
      let pairs ← pairsForOverride ((valueAt? document o.sectionName).getD .null)
      return document ++
        [(.text o.sectionName, .mapping (pairs ++ [(.text o.settingName, .text value)]))]

/-- Carries all overrides out. -/
def override (env : Environment) (document : Pairs) : Except PlainKind Pairs :=
  overrides.foldlM (applyOverride env) document

end JavaAtlas.Config
