/-!
# Longest pieces

Small matchers that say how many characters at the front of a text belong to a
token.  They describe the literals of Java: each matcher takes as much as it
can, and among several the longest piece wins.
-/

namespace JavaAtlas.Java

/-- Number of characters taken from the front, if the piece is there at all. -/
abbrev Munch := List Char → Option Nat

namespace Munch

/-- One character of a class. -/
def one (p : Char → Bool) : Munch
  | c :: _ => if p c then some 1 else none
  | [] => none

/-- A piece followed by another one. -/
def andThen (a b : Munch) : Munch := fun cs =>
  match a cs with
  | none => none
  | some n =>
    match b (cs.drop n) with
    | none => none
    | some m => some (n + m)

/-- All pieces in a row. -/
def inRow : List Munch → Munch
  | [] => fun _ => some 0
  | m :: ms => andThen m (inRow ms)

/-- A piece or nothing. -/
def optional (m : Munch) : Munch := fun cs =>
  some ((m cs).getD 0)

/-- The longest of the pieces that are there. -/
def longest : List Munch → Munch
  | [] => fun _ => none
  | m :: ms => fun cs =>
    match m cs, longest ms cs with
    | some a, some b => some (max a b)
    | some a, none => some a
    | none, b => b

/-- The text stands at the front. -/
def exactly (text : String) : Munch := fun cs =>
  let t := text.toList
  if t.isPrefixOf cs then some t.length else none

/-- Digits of a class, single underscores between them. -/
def digits (p : Char → Bool) : Munch
  | [] => none
  | c :: cs => if p c then some (1 + more cs) else none
where
  /-- Length of what continues a run of digits. -/
  more : List Char → Nat
    | '_' :: c :: cs => if p c then 2 + more cs else 0
    | c :: cs => if p c then 1 + more cs else 0
    | [] => 0

/-- A decimal digit. -/
def isDecimal (c : Char) : Bool :=
  '0' ≤ c && c ≤ '9'

/-- A hexadecimal digit. -/
def isHexadecimal (c : Char) : Bool :=
  isDecimal c || ('a' ≤ c && c ≤ 'f') || ('A' ≤ c && c ≤ 'F')

/-- A character of the given ones. -/
def oneOf (s : String) : Munch :=
  one fun c => s.toList.contains c

/-- A decimal number without superfluous zeros at the front. -/
def plainDecimal : Munch := fun cs =>
  match cs with
  | '0' :: _ => some 1
  | _ => digits isDecimal cs

/-- Exponent of a number: its letter, a sign and digits. -/
def exponent (letters : String) (digits : Munch) : Munch :=
  inRow [oneOf letters, optional (oneOf "+-"), digits]

/-- Integer literals of the four bases. -/
def integer : Munch :=
  longest
    [ inRow [plainDecimal, suffix],
      inRow [longest [exactly "0x", exactly "0X"], digits isHexadecimal, suffix],
      inRow [longest [exactly "0o", exactly "0O", exactly "0"],
        digits fun c => '0' ≤ c && c ≤ '7', suffix],
      inRow [longest [exactly "0b", exactly "0B"], digits fun c => c == '0' || c == '1', suffix] ]
where
  /-- The mark of a long integer. -/
  suffix : Munch := optional (oneOf "lL")

/-- Floating-point literals of both bases. -/
def floating : Munch :=
  let run := digits isDecimal
  let suffix := oneOf "fFdD"
  let power := exponent "eE" run
  longest
    [ inRow [run, exactly ".", optional run, optional power, optional suffix],
      inRow [exactly ".", run, optional power, optional suffix],
      inRow [plainDecimal, power, optional suffix],
      inRow [plainDecimal, optional power, suffix],
      inRow [longest [exactly "0x", exactly "0X"],
        longest
          [ inRow [hex, optional (exactly ".")],
            inRow [optional hex, exactly ".", hex] ],
        optional (inRow [exponent "pP" plainDecimal, optional suffix])] ]
where
  /-- Hexadecimal digits. -/
  hex : Munch := digits isHexadecimal

/-- A number of any kind. -/
def number : Munch :=
  longest [integer, floating]

/-- The rest of a character literal, after its opening quote. -/
def characterRest : Nat → List Char → Option Nat
  | 0, _ => none
  | _ + 1, [] => none
  | n + 1, c :: cs =>
    if c = '\'' then some 1
    else if c = '\n' then none
    else if c = '\\' then
      match cs with
      | [] => none
      | _ :: rest => (characterRest n rest).map (· + 2)
    else (characterRest n cs).map (· + 1)

/-- A character literal holds at least one character. -/
def character : Munch
  | '\'' :: '\'' :: _ => none
  | '\'' :: cs => (characterRest (cs.length + 1) cs).map (· + 1)
  | _ => none

end Munch

end JavaAtlas.Java
