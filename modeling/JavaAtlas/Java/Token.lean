/-!
# Tokens of Java source

A source text is a sequence of tokens.  Before each token stands its *filler*:
the blanks and comments that separate it from the token before.  Layout lives
in the filler alone, so two sources with the same bare tokens differ in layout
only.
-/

namespace JavaAtlas.Java

/-- What separates two tokens. -/
inductive Filler where
  /-- A run of blanks and line ends. -/
  | blank (text : String)
  /-- A comment, with its delimiters. -/
  | comment (text : String)
  deriving DecidableEq, Repr, Inhabited

/-- The characters of a filler. -/
def Filler.text : Filler → String
  | .blank t => t
  | .comment t => t

/-- Kind of a token.  A string with interpolations is cut at them into a head,
middles and a tail, with the tokens of the interpolated expressions between. -/
inductive Shape where
  | word
  | number
  | character
  | text
  | textHead
  | textMiddle
  | textTail
  | mark
  /-- A character that begins no token. -/
  | stray
  deriving DecidableEq, Repr, Inhabited

/-- A token with the filler before it and the line on which it begins. -/
structure Token where
  shape : Shape
  text : String
  before : List Filler
  /-- Line of the first character, counted from zero. -/
  line : Nat
  deriving DecidableEq, Repr, Inhabited

namespace Token

/-- What a token is without its place in the source. -/
def bare (t : Token) : Shape × String :=
  (t.shape, t.text)

/-- The token follows the one before it without anything between. -/
def touching (t : Token) : Bool :=
  t.before.isEmpty

/-- The comments before the token, in order. -/
def comments (t : Token) : List String :=
  t.before.filterMap fun
    | .comment c => some c
    | .blank _ => none

/-- The characters between the token before and this one. -/
def gap (t : Token) : String :=
  String.join (t.before.map Filler.text)

end Token

end JavaAtlas.Java
