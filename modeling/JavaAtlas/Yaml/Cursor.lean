import JavaAtlas.Text.Digits

/-!
# Reading characters of a document

A cursor stands before the characters that are still to be read and knows its
place.  The document ends where no character is left.

Main definitions:

- `ScanFault`: why a document cannot be read.
- `Cursor`, `Scan`: a place in a document, and steps that read from it and may fail.
- `isBreak`, `endsWord`: classes of characters.
-/

namespace JavaAtlas.Yaml

/-- A character that ends a line. -/
def isBreak (c : Char) : Bool :=
  c == '\n' || c == '\r' || c == '\u0085' || c == '\u2028' || c == '\u2029'

/-- A line ends here, or the document does. -/
def endsLine : Option Char → Bool
  | none => true
  | some c => isBreak c

/-- A word ends here: at a blank, a tab, a line end or the end. -/
def endsWord : Option Char → Bool
  | none => true
  | some c => c == ' ' || c == '\t' || isBreak c

/-- A blank, a line end or the end. -/
def endsField : Option Char → Bool
  | none => true
  | some c => c == ' ' || isBreak c

/-- A character that may stand in a document at all. -/
def isAllowed (c : Char) : Bool :=
  let n := c.toNat
  n == 9 || n == 10 || n == 13 || (0x20 ≤ n && n ≤ 0x7E) || n == 0x85 ||
    (0xA0 ≤ n && n ≤ 0xD7FF) || (0xE000 ≤ n && n ≤ 0xFFFD) || 0x10000 ≤ n

/-- A letter, a digit, a dash or an underscore. -/
def isWordChar (c : Char) : Bool :=
  c.isAlphanum || c == '-' || c == '_'

/-- The code from which on there are no characters. -/
def codeLimit : Nat := 0x110000

/-- Why a document cannot be read. -/
inductive ScanFault where
  /-- It breaks the rules of the format. -/
  | malformed
  /-- An escape has a code for which there is no character. -/
  | badCode (code : Nat) (h : codeLimit ≤ code)
  /-- A number of a directive has too many digits. -/
  | longNumber (digits : Nat) (h : Text.digitLimit < digits)
  deriving DecidableEq, Repr, Inhabited

/-- A place in a document. -/
structure Cursor where
  rest : List Char
  index : Nat
  line : Nat
  column : Nat
  deriving Repr, Inhabited

/-- A step that reads from a document and may fail. -/
abbrev Scan := StateT Cursor (Except ScanFault)

namespace Cursor

/-- The place behind one more character. -/
def next (c : Cursor) : Cursor :=
  match c.rest with
  | [] => c
  | ch :: rest =>
    let inside := ch == '\r' && rest.head? == some '\n'
    if isBreak ch && !inside then ⟨rest, c.index + 1, c.line + 1, 0⟩
    else ⟨rest, c.index + 1, c.line, if ch = '\uFEFF' then c.column else c.column + 1⟩

/-- The place behind so many characters. -/
def skip : Nat → Cursor → Cursor
  | 0, c => c
  | n + 1, c => skip n c.next

end Cursor

namespace Scan

/-- Fails for the given reason. -/
def fail {α : Type} (fault : ScanFault) : Scan α :=
  fun _ => .error fault

/-- Fails, as the rules of the format are broken. -/
def reject {α : Type} : Scan α :=
  fail .malformed

/-- Goes on only if the condition holds. -/
def require (condition : Bool) : Scan Unit :=
  if condition then pure () else reject

/-- The characters that are left. -/
def rest : Scan (List Char) :=
  return (← get).rest

/-- The character so many places on. -/
def peek (k : Nat) : Scan (Option Char) :=
  return (← get).rest[k]?

/-- The current column. -/
def column : Scan Nat :=
  return (← get).column

/-- Passes over so many characters. -/
def skip (n : Nat) : Scan Unit :=
  modify (Cursor.skip n)

/-- Takes so many characters. -/
def take (n : Nat) : Scan (List Char) := do
  let taken := (← rest).take n
  skip n
  return taken

/-- Takes all characters of a class. -/
def takeWhile (p : Char → Bool) : Scan (List Char) := do
  let taken := (← rest).takeWhile p
  skip taken.length
  return taken

/-- Passes over blanks. -/
def skipBlanks : Scan Unit := do
  discard (takeWhile (· == ' '))

/-- Takes a line end, if one is here.  All but two kinds of line end become a line feed. -/
def lineBreak : Scan (List Char) := do
  match ← rest with
  | '\r' :: '\n' :: _ => skip 2; return ['\n']
  | c :: _ =>
    if c == '\n' || c == '\r' || c == '\u0085' then skip 1; return ['\n']
    else if isBreak c then skip 1; return [c]
    else return []
  | [] => return []

/-- Passes over a comment that begins here. -/
def skipComment : Scan Unit := do
  if (← peek 0) = some '#' then discard (takeWhile fun c => !isBreak c)

/-- Passes over blanks and a comment to the end of the line, and over the line end. -/
def skipLineEnd : Scan Unit := do
  skipBlanks
  skipComment
  require (endsLine (← peek 0))
  discard lineBreak

/-- A mark that begins or ends a document stands here. -/
def atDocumentMark : Scan Bool := do
  let cs ← rest
  let head := cs.take 3
  return (head == ['-', '-', '-'] || head == ['.', '.', '.']) && endsWord cs[3]?

/-- A number of so many bounded steps, as many as characters are left. -/
def bound : Scan Nat :=
  return (← rest).length + 1

end Scan

end JavaAtlas.Yaml
