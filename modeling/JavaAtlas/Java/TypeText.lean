import JavaAtlas.Text.Blank

/-!
# Canonical spelling of types

A type keeps its words and its punctuation and loses its layout: punctuation
stands without blanks around it, a comma is followed by one space, and two words
are kept apart by one space.

Main definitions:

- `canonical`: the canonical spelling, written in one pass over the characters.
- `pieces`: the words and punctuation marks of a spelling.
-/

namespace JavaAtlas.Java.TypeText

open Text

/-- Punctuation that takes no blanks around it. -/
def isTight (c : Char) : Bool :=
  c == '<' || c == '>' || c == '[' || c == ']' || c == '.' || c == '&'

/-- Punctuation of types. -/
def isPunctuation (c : Char) : Bool :=
  isTight c || c == ','

/-- What the characters written so far end in. -/
inductive Ending where
  /-- Nothing, or punctuation: a word may follow at once. -/
  | open
  /-- A word that goes on. -/
  | word
  /-- A word with blanks after it. -/
  | gap
  deriving DecidableEq, Repr

/-- Canonical spelling of the characters that follow the given ending. -/
def canonicalFrom : Ending → List Char → List Char
  | _, [] => []
  | e, c :: cs =>
    if isBlank c then canonicalFrom (if e = .open then .open else .gap) cs
    else if c = ',' then ',' :: ' ' :: canonicalFrom .open cs
    else if isTight c then c :: canonicalFrom .open cs
    else if e = .gap then ' ' :: c :: canonicalFrom .word cs
    else c :: canonicalFrom .word cs

/-- Canonical spelling of a type as written. -/
def canonical (text : String) : String :=
  String.ofList (canonicalFrom .open text.toList)

/-! ## Pieces -/

/-- A word, or a punctuation mark. -/
inductive Piece where
  | word (letters : List Char)
  | mark (c : Char)
  deriving DecidableEq, Repr

/-- The word read so far, if it has begun. -/
def closed : List Char → List Piece
  | [] => []
  | letters => [.word letters.reverse]

/-- Pieces of the characters that follow the letters of a word, last letter first. -/
def piecesFrom : List Char → List Char → List Piece
  | letters, [] => closed letters
  | letters, c :: cs =>
    if isBlank c then closed letters ++ piecesFrom [] cs
    else if isPunctuation c then closed letters ++ .mark c :: piecesFrom [] cs
    else piecesFrom (c :: letters) cs

/-- The words and punctuation marks of a spelling, in order. -/
def pieces (text : String) : List Piece :=
  piecesFrom [] text.toList

end JavaAtlas.Java.TypeText
