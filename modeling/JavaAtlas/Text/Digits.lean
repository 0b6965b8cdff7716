import JavaAtlas.Text.Blank

/-!
# Decimal digits

The characters with the property of a decimal digit come in runs of ten, from zero to
nine.  Integers may be written with the digits of any script, with single underscores
between digits and with blanks around.

Main definitions:

- `digitValue?`: the value of a digit of any script.
- `integer?`: the integer of a text.
-/

namespace JavaAtlas.Text

/-- The zeros of all scripts. -/
def zeros : List Nat :=
  [0x30, 0x660, 0x6F0, 0x7C0, 0x966, 0x9E6, 0xA66, 0xAE6, 0xB66, 0xBE6, 0xC66, 0xCE6, 0xD66,
    0xDE6, 0xE50, 0xED0, 0xF20, 0x1040, 0x1090, 0x17E0, 0x1810, 0x1946, 0x19D0, 0x1A80, 0x1A90,
    0x1B50, 0x1BB0, 0x1C40, 0x1C50, 0xA620, 0xA8D0, 0xA900, 0xA9D0, 0xA9F0, 0xAA50, 0xABF0,
    0xFF10, 0x104A0, 0x10D30, 0x11066, 0x110F0, 0x11136, 0x111D0, 0x112F0, 0x11450, 0x114D0,
    0x11650, 0x116C0, 0x11730, 0x118E0, 0x11950, 0x11C50, 0x11D50, 0x11DA0, 0x16A60, 0x16AC0,
    0x16B50, 0x1D7CE, 0x1D7D8, 0x1D7E2, 0x1D7EC, 0x1D7F6, 0x1E140, 0x1E2F0, 0x1E950, 0x1FBF0]

/-- The value of a digit. -/
def digitValue? (c : Char) : Option Nat :=
  (zeros.find? fun z => z ≤ c.toNat && c.toNat < z + 10).map (c.toNat - ·)

/-- The character is a digit. -/
def isDigit (c : Char) : Bool :=
  (digitValue? c).isSome

/-- The values of digits with single underscores between them. -/
def gappedDigits? : List Char → Option (List Nat)
  | [] => none
  | [c] => (digitValue? c).map ([·])
  | c :: '_' :: cs => do return (← digitValue? c) :: (← gappedDigits? cs)
  | c :: cs => do return (← digitValue? c) :: (← gappedDigits? cs)

/-- Greatest number of digits of an integer. -/
def digitLimit : Nat := 4300

/-- The number of digits. -/
def numberOfDigits (ds : List Nat) : Nat :=
  ds.foldl (fun n d => n * 10 + d) 0

/-- The integer of a text. -/
def integer? (text : String) : Option Int :=
  match trim text.toList with
  | '-' :: cs => (magnitude? cs).map fun n => -(n : Int)
  | '+' :: cs => (magnitude? cs).map Int.ofNat
  | cs => (magnitude? cs).map Int.ofNat
where
  /-- The number without a sign. -/
  magnitude? (cs : List Char) : Option Nat :=
    ((gappedDigits? cs).filter fun ds => ds.length ≤ digitLimit).map numberOfDigits

end JavaAtlas.Text
