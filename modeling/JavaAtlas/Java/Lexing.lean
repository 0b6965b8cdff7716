import JavaAtlas.Text.IdentifierChar
import JavaAtlas.Java.Token
import JavaAtlas.Java.Munch

/-!
# From characters to tokens

Scanning cuts a source text into tokens and the filler between them.  A text in
quotes may be interrupted by an interpolation, written with a backslash and an
opening brace; its tokens are scanned like any others and the text goes on
after the matching closing brace.

Main definitions:

- `scan`: the tokens of a source text.
-/

namespace JavaAtlas.Java

open Text

/-! ## Filler -/

/-- A blank or a line end. -/
def isLayout (c : Char) : Bool :=
  c == ' ' || ('\t' ≤ c && c ≤ '\r')

/-- Splits the end of a block comment off: the characters up to the closing
delimiter and those after it. -/
def splitBlockComment : List Char → List Char → Option (List Char × List Char)
  | _, [] => none
  | taken, '*' :: '/' :: rest => some (('/' :: '*' :: taken).reverse, rest)
  | taken, c :: rest => splitBlockComment (c :: taken) rest

/-- One blank run or comment at the front of the characters. -/
def splitFiller (cs : List Char) : Option (Filler × List Char) :=
  match cs with
  | '/' :: '/' :: rest =>
    let (inside, after) := rest.span (· != '\n')
    some (.comment (String.ofList ('/' :: '/' :: inside)), after)
  | '/' :: '*' :: rest =>
    match splitBlockComment [] rest with
    | some (inside, after) => some (.comment (String.ofList ('/' :: '*' :: inside)), after)
    | none => none
  | c :: _ =>
    if isLayout c then
      let (inside, after) := cs.span isLayout
      some (.blank (String.ofList inside), after)
    else none
  | [] => none

/-- All filler at the front of the characters, at most `fuel` pieces of it. -/
def splitFillers : Nat → List Filler → List Char → List Filler × List Char
  | 0, taken, cs => (taken.reverse, cs)
  | fuel + 1, taken, cs =>
    match splitFiller cs with
    | some (f, rest) => splitFillers fuel (f :: taken) rest
    | none => (taken.reverse, cs)

/-! ## Texts in quotes -/

/-- How a piece of quoted text ends. -/
inductive TextEnd where
  | closed
  | interpolation
  deriving DecidableEq, Repr

/-- Digits after a backslash and the letter u: four of them, or any number in braces. -/
def unicodeEscape : Munch :=
  let hex := Munch.one Munch.isHexadecimal
  Munch.longest
    [ Munch.inRow [hex, hex, hex, hex],
      fun cs =>
        match cs with
        | '{' :: rest =>
          let inside := rest.takeWhile Munch.isHexadecimal
          match rest.drop inside.length with
          | '}' :: _ => if inside.isEmpty then none else some (inside.length + 2)
          | _ => none
        | _ => none ]

/-- The rest of a quoted text: its length with the closing delimiter, and how it
ends.  A text block ends at three quotes, any other text at one. -/
def textRest (block : Bool) : Nat → Nat → List Char → Option (Nat × TextEnd)
  | 0, _, _ => none
  | _ + 1, _, [] => none
  | fuel + 1, taken, c :: cs =>
    if c = '"' then
      if block then
        match cs with
        | '"' :: '"' :: _ => some (taken + 3, .closed)
        | _ => textRest block fuel (taken + 1) cs
      else some (taken + 1, .closed)
    else if c = '\\' then
      match cs with
      | [] => none
      | '{' :: _ => some (taken + 2, .interpolation)
      | 'u' :: rest =>
        match unicodeEscape rest with
        | some n => textRest block fuel (taken + 2 + n) (rest.drop n)
        | none => if block then textRest block fuel (taken + 2) rest else none
      | _ :: rest => textRest block fuel (taken + 2) rest
    else textRest block fuel (taken + 1) cs

/-! ## Marks -/

/-- Marks, with every mark before those that begin it.  A greater-than sign
stands alone, because it may close a list of type arguments. -/
def marks : List String :=
  [ "@interface", "...", "<<=", "<<", "<=", "<", "==", "=", "&&", "&=", "&", "||", "|=", "|",
    "^=", "^", "++", "+=", "+", "--", "-=", "->", "-", "*=", "*", "/=", "/", "%=", "%", "!=", "!",
    "~", "?", "::", ":", ";", ",", ".", "(", ")", "[", "]", "\x7b", "\x7d", "@", ">" ]

/-- The mark at the front. -/
def markAt (cs : List Char) : Option String :=
  marks.find? fun m => m.toList.isPrefixOf cs

/-! ## Tokens of a text -/

/-- An interpolation that has begun: whether the text around it is a block, and
how many braces are open inside. -/
structure Interpolation where
  block : Bool
  depth : Nat
  deriving DecidableEq, Repr

/-- One token at the front: its kind, its length and the interpolations that
are open after it. -/
structure Cut where
  shape : Shape
  length : Nat
  inside : List Interpolation
  deriving Repr

/-- A quoted text from its opening delimiter of the given length on. -/
def cutText (block : Bool) (opening : Nat) (whole broken : Shape)
    (inside : List Interpolation) (cs : List Char) : Cut :=
  match textRest block (cs.length + 1) opening (cs.drop opening) with
  | some (n, .closed) => ⟨whole, n, inside⟩
  | some (n, .interpolation) => ⟨broken, n, ⟨block, 0⟩ :: inside⟩
  | none => ⟨.stray, 1, inside⟩

/-- A mark, which may open or close a brace of an interpolation. -/
def cutMark (inside : List Interpolation) (cs : List Char) : Cut :=
  match markAt cs with
  | none => ⟨.stray, 1, inside⟩
  | some m =>
    match inside with
    | [] => ⟨.mark, m.length, []⟩
    | i :: outer =>
      if m = "\x7b" then ⟨.mark, 1, ⟨i.block, i.depth + 1⟩ :: outer⟩
      else if m = "\x7d" then
        if i.depth = 0 then cutText i.block 1 .textTail .textMiddle outer cs
        else ⟨.mark, 1, ⟨i.block, i.depth - 1⟩ :: outer⟩
      else ⟨.mark, m.length, inside⟩

/-- The token at the front of characters that begin with no filler. -/
def cut (inside : List Interpolation) (cs : List Char) : Cut :=
  match cs with
  | [] => ⟨.stray, 0, inside⟩
  | c :: rest =>
    if IdentifierChar.isStart c then
      ⟨.word, 1 + (rest.takeWhile IdentifierChar.isContinue).length, inside⟩
    else if c = '"' then
      if ['"', '"'].isPrefixOf rest then cutText true 3 .text .textHead inside cs
      else cutText false 1 .text .textHead inside cs
    else if c = '\'' then
      match Munch.character cs with
      | some n => ⟨.character, n, inside⟩
      | none => ⟨.stray, 1, inside⟩
    else
      match Munch.number cs with
      | some n => ⟨.number, n, inside⟩
      | none => cutMark inside cs

/-- Line ends in a list of characters. -/
def lineEnds (cs : List Char) : Nat :=
  cs.count '\n'

/-- Tokens of the characters, of which at most `fuel` are taken. -/
def scanFrom : Nat → List Interpolation → Nat → List Token → List Char → List Token
  | 0, _, _, done, _ => done.reverse
  | fuel + 1, inside, line, done, cs =>
    let (before, rest) := splitFillers (cs.length + 1) [] cs
    match rest with
    | [] => done.reverse
    | _ :: _ =>
      let start := before.foldl (fun l f => l + lineEnds f.text.toList) line
      let found := cut inside rest
      let lexeme := rest.take found.length
      scanFrom fuel found.inside (start + lineEnds lexeme)
        (⟨found.shape, String.ofList lexeme, before, start⟩ :: done) (rest.drop found.length)

/-- Tokens of a source text.  A byte order mark at the very front is no part of it. -/
def scan (source : String) : List Token :=
  let cs := match source.toList with
    | '\uFEFF' :: rest => rest
    | all => all
  scanFrom (cs.length + 1) [] 0 [] cs

end JavaAtlas.Java
