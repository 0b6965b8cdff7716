/-!
# Languages of source files

A file is read in the language that its extension names.  The extension is what
follows the last dot of the last component of a path; dots at the front of the
component begin no extension.
-/

namespace JavaAtlas.Source

/-- A language that can be read. -/
inductive Language where
  | java
  deriving DecidableEq, Repr, Inhabited

namespace Language

/-- Name of the language. -/
def name : Language → String
  | java => "java"

/-- Extension of its files. -/
def extension : Language → String
  | java => ".java"

/-- All languages. -/
def all : List Language := [java]

end Language

/-- The last component of a path. -/
def lastComponent (path : List Char) : List Char :=
  (path.reverse.takeWhile (· != '/')).reverse

/-- The extension of a path with its dot, or nothing. -/
def extensionOf (path : String) : String :=
  let stem := (lastComponent path.toList).dropWhile (· == '.')
  let last := stem.reverse.takeWhile (· != '.')
  if last.length < stem.length then String.ofList ('.' :: last.reverse) else ""

/-- The language of a path, by its extension in small letters. -/
def Language.ofPath? (path : String) : Option Language :=
  let ext := (extensionOf path).toLower
  all.find? fun l => l.extension == ext

/-- Why a source has no language. -/
inductive LanguageError where
  /-- The path does not tell the language. -/
  | undetected (path : String)
  /-- No language has the name. -/
  | unsupported (name : String)
  deriving DecidableEq, Repr

/-- The error in words. -/
def LanguageError.message : LanguageError → String
  | undetected path => s!"Unsupported source file: {path}"
  | unsupported name =>
    let known := ", ".intercalate (Language.all.map fun l => "'" ++ l.name ++ "'")
    s!"Unsupported language: {name}. Supported: [{known}]"

/-- The language with a name. -/
def Language.ofName (name : String) : Except LanguageError Language :=
  match all.find? fun l => l.name == name with
  | some l => .ok l
  | none => .error (.unsupported name)

/-- The language of a path, or the one that is asked for by name.  An empty
name asks for nothing that could be found. -/
def Language.choose (path : String) (asked : Option String) : Except LanguageError Language :=
  match asked with
  | none => ((ofPath? path).map Except.ok).getD (.error (.undetected path))
  | some name => if name = "" then .error (.undetected path) else ofName name

end JavaAtlas.Source
