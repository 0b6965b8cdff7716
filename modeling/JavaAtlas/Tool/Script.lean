/-!
# Scripts

A script of the command language is a sequence of commands.  Each one is a list of
words, and a command may depend on how the one before it ended.  Words may be quoted
and may name parameters.  Only this part of the language is modelled: there are no
loops, conditionals or assignments.

Main definitions:

- `Script.ofText`: the commands of a text.
- `Word.expand`: a word with its parameters filled in.
-/

namespace JavaAtlas.Tool

/-! ## Words -/

/-- A part of a word. -/
inductive Part where
  | char (c : Char)
  | parameter (name : String)
  deriving DecidableEq, Repr

/-- A word of a command. -/
abbrev Word := List Part

/-- What the parameters stand for: the name of the script, its arguments, and how the
last command ended. -/
structure Parameters where
  name : String
  arguments : List String
  status : Nat
  deriving Repr

/-- The number that stands for the process itself. -/
def selfNumber : Nat := 4242

/-- The value of a parameter; an unknown one is empty. -/
def Parameters.value (p : Parameters) (name : String) : String :=
  match name with
  | "0" => p.name
  | "$" => toString selfNumber
  | "?" => toString p.status
  | "#" => toString p.arguments.length
  | "@" => " ".intercalate p.arguments
  | "*" => " ".intercalate p.arguments
  | _ =>
    match name.toNat? with
    | some n => p.arguments.getD (n - 1) ""
    | none => ""

/-- The text of a word. -/
def Word.expand (p : Parameters) (w : Word) : String :=
  String.join (w.map fun
    | .char c => String.singleton c
    | .parameter name => p.value name)

/-! ## Reading -/

/-- How characters are quoted. -/
inductive Quoting where
  | bare
  | single
  | double
  deriving DecidableEq, Repr

/-- A character of a name. -/
def isNameChar (c : Char) : Bool :=
  c.isAlphanum || c == '_'

/-- The name of a parameter and what follows it. -/
def parameterName? : List Char → Option (String × List Char)
  | [] => none
  | c :: cs =>
    if c = '{' then
      let name := cs.takeWhile (· != '}')
      some (String.ofList name, (cs.drop name.length).drop 1)
    else if c.isDigit || ['$', '?', '#', '@', '*'].contains c then some (String.singleton c, cs)
    else if isNameChar c then
      let name := (c :: cs).takeWhile isNameChar
      some (String.ofList name, (c :: cs).drop name.length)
    else none

/-- A character that ends a word. -/
def endsWord (c : Char) : Bool :=
  [' ', '\t', '\n', ';', '&', '|', '<', '>', '(', ')'].contains c

/-- The parts of a word and what follows it.  The number bounds the characters. -/
def wordParts : Nat → Quoting → List Char → Word × List Char
  | 0, _, cs => ([], cs)
  | _ + 1, _, [] => ([], [])
  | n + 1, .single, c :: cs =>
    if c = '\'' then wordParts n .bare cs else put n .single c cs
  | n + 1, .double, c :: cs =>
    if c = '"' then wordParts n .bare cs
    else if c = '$' then parameter n .double cs
    else if c = '\\' then
      match cs with
      | d :: rest =>
        if d = '\n' then wordParts n .double rest
        else if ['$', '"', '\\', '`'].contains d then put n .double d rest
        else put n .double c cs
      | [] => put n .double c cs
    else put n .double c cs
  | n + 1, .bare, c :: cs =>
    if endsWord c then ([], c :: cs)
    else if c = '\'' then wordParts n .single cs
    else if c = '"' then wordParts n .double cs
    else if c = '$' then parameter n .bare cs
    else if c = '\\' then
      match cs with
      | d :: rest => if d = '\n' then wordParts n .bare rest else put n .bare d rest
      | [] => put n .bare c cs
    else put n .bare c cs
where
  /-- A character and the parts behind it. -/
  put (n : Nat) (q : Quoting) (c : Char) (cs : List Char) : Word × List Char :=
    let (w, rest) := wordParts n q cs
    (.char c :: w, rest)
  /-- A parameter and the parts behind it; a lone dollar sign is a character. -/
  parameter (n : Nat) (q : Quoting) (cs : List Char) : Word × List Char :=
    match parameterName? cs with
    | some (name, rest) =>
      let (w, rest) := wordParts n q rest
      (.parameter name :: w, rest)
    | none => put n q '$' cs

/-- A sign or word of a script. -/
inductive Lexeme where
  | word (w : Word)
  /-- Output goes elsewhere: to a file, or where other output goes. -/
  | redirection (target : Option Word)
  | separator
  | newLine
  | andThen
  | orElse
  deriving DecidableEq, Repr

/-- A redirection from behind its arrow on. -/
def redirection (n : Nat) (cs : List Char) : Lexeme × List Char :=
  match cs with
  | '&' :: _ :: rest => (.redirection none, rest)
  | _ =>
    let cs := if cs.head? == some '>' then cs.drop 1 else cs
    let (w, rest) := wordParts n .bare (cs.dropWhile (· == ' '))
    (.redirection (some w), rest)

/-- The lexemes of a script.  The number bounds the characters. -/
def lexemes : Nat → List Char → List Lexeme
  | 0, _ => []
  | n + 1, cs =>
    match cs with
    | [] => []
    | '\n' :: rest => .newLine :: lexemes n rest
    | ';' :: rest => .separator :: lexemes n rest
    | '&' :: '&' :: rest => .andThen :: lexemes n rest
    | '|' :: '|' :: rest => .orElse :: lexemes n rest
    | '#' :: rest => lexemes n (rest.dropWhile (· != '\n'))
    | '1' :: '>' :: rest => redirected n rest
    | '2' :: '>' :: rest => redirected n rest
    | '>' :: rest => redirected n rest
    | c :: rest =>
      if endsWord c then lexemes n rest
      else
        let (w, rest) := wordParts (n + 1) .bare cs
        .word w :: lexemes n rest
where
  /-- A redirection and the lexemes behind it. -/
  redirected (n : Nat) (cs : List Char) : List Lexeme :=
    let (l, rest) := redirection n cs
    l :: lexemes n rest

/-! ## Commands -/

/-- When a command is carried out. -/
inductive Joint where
  | always
  /-- If the command before it was a success. -/
  | ifOk
  /-- If the command before it was none. -/
  | ifFailed
  deriving DecidableEq, Repr

/-- The command is carried out behind one that ended so. -/
def Joint.holds : Joint → Nat → Bool
  | always, _ => true
  | ifOk, status => status == 0
  | ifFailed, status => status != 0

/-- A command of a script. -/
structure Command where
  joint : Joint
  words : List Word
  /-- The output is thrown away. -/
  isSilent : Bool
  /-- The line where it stands. -/
  line : Nat
  deriving Repr

/-- The commands of a script. -/
abbrev Script := List Command

namespace Script

/-- The target of a redirection throws output away. -/
def isNowhere (w : Word) : Bool :=
  w == "/dev/null".toList.map Part.char

/-- Commands from their lexemes, given the one that has begun. -/
def ofLexemes : Command → List Lexeme → Script
  | c, [] => finished c []
  | c, .word w :: ls => ofLexemes { c with words := c.words ++ [w] } ls
  | c, .redirection target :: ls =>
    ofLexemes { c with isSilent := c.isSilent || (target.map isNowhere).getD false } ls
  | c, .separator :: ls => finished c (ofLexemes ⟨.always, [], false, c.line⟩ ls)
  | c, .newLine :: ls =>
    let next := if c.words.isEmpty then c.joint else .always
    finished c (ofLexemes ⟨next, [], false, c.line + 1⟩ ls)
  | c, .andThen :: ls => finished c (ofLexemes ⟨.ifOk, [], false, c.line⟩ ls)
  | c, .orElse :: ls => finished c (ofLexemes ⟨.ifFailed, [], false, c.line⟩ ls)
where
  /-- A command without words is none. -/
  finished (c : Command) (rest : Script) : Script :=
    if c.words.isEmpty then rest else c :: rest

/-- The commands of a text. -/
def ofText (text : String) : Script :=
  let cs := text.toList
  ofLexemes ⟨.always, [], false, 1⟩ (lexemes (cs.length + 1) cs)

end Script

end JavaAtlas.Tool
