import JavaAtlas.Text.Printable

/-!
# Quoted texts

How texts and octets are shown inside messages: between quotes, with escapes for
whatever cannot be shown.  Single quotes are used unless the text has single
quotes and no double ones.
-/

namespace JavaAtlas.Text.Quoted

/-- A hexadecimal digit in small letters. -/
def hexDigit (n : Nat) : Char :=
  Char.ofNat (if n < 10 then 48 + n else 87 + n)

/-- So many hexadecimal digits of a number, the last ones. -/
def hexDigits : Nat → Nat → List Char
  | 0, _ => []
  | k + 1, n => hexDigits k (n / 16) ++ [hexDigit (n % 16)]

/-- The quote for a text: a double one only if it has single ones alone. -/
def quoteFor (cs : List Char) : Char :=
  if cs.contains '\'' && !cs.contains '"' then '"' else '\''

/-- Escapes that have a letter, and those of the backslash and the quote. -/
def shortEscape? (quote c : Char) : Option (List Char) :=
  if c = quote || c = '\\' then some ['\\', c]
  else if c = '\t' then some ['\\', 't']
  else if c = '\n' then some ['\\', 'n']
  else if c = '\r' then some ['\\', 'r']
  else none

/-- A character that is shown by its number. -/
def numbered (n : Nat) : List Char :=
  if n < 0x100 then '\\' :: 'x' :: hexDigits 2 n
  else if n < 0x10000 then '\\' :: 'u' :: hexDigits 4 n
  else '\\' :: 'U' :: hexDigits 8 n

/-- A character between quotes. -/
def escaped (quote c : Char) : List Char :=
  (shortEscape? quote c).getD (if isPrintable c then [c] else numbered c.toNat)

/-- A text between quotes. -/
def text (s : String) : String :=
  let cs := s.toList
  let q := quoteFor cs
  String.ofList (q :: cs.flatMap (escaped q) ++ [q])

/-- An octet between quotes. -/
def escapedOctet (quote : Char) (b : UInt8) : List Char :=
  let c := Char.ofNat b.toNat
  (shortEscape? quote c).getD
    (if 0x20 ≤ b.toNat && b.toNat < 0x7F then [c] else numbered b.toNat)

/-- Octets between quotes, behind the letter that marks them. -/
def octets (bs : List UInt8) : String :=
  let q := quoteFor (bs.map fun b => Char.ofNat b.toNat)
  String.ofList ('b' :: q :: bs.flatMap (escapedOctet q) ++ [q])

end JavaAtlas.Text.Quoted
