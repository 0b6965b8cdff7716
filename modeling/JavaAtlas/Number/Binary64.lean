/-!
# Numbers with 53 binary digits

The numbers of the usual 64-bit format, with exact arithmetic on their digits: the
one that is nearest to a fraction, the integer that one is equal to, and their
text with a fixed number of decimals.

Main definitions:

- `Binary64.nearest`: the number nearest to a fraction; a tie goes to the even one.
- `Binary64.fixed`: the text with three decimals.
-/

namespace JavaAtlas.Number

/-- A number of the format.  A finite one is its digits times a power of two. -/
inductive Binary64 where
  | finite (negative : Bool) (digits : Nat) (exponent : Int)
  | infinite (negative : Bool)
  | notANumber
  deriving DecidableEq, Repr, Inhabited

/-- The quotient rounded to the nearest integer; a tie goes to the even one. -/
def roundedQuotient (n d : Nat) : Nat :=
  let q := n / d
  let twice := 2 * (n % d)
  if twice < d then q
  else if d < twice then q + 1
  else if q % 2 = 0 then q else q + 1

namespace Binary64

/-- Least exponent of the digits. -/
def leastExponent : Int := -1074

/-- Greatest exponent of the digits. -/
def greatestExponent : Int := 971

/-- The exponent at which the fraction has 53 digits before the point, or the
least one. -/
def exponentFor (n d : Nat) : Int :=
  let guess : Int := (n.log2 : Int) - d.log2 - 52
  let tooBig : Bool :=
    if 0 ≤ guess then n < d <<< (52 + guess.toNat)
    else n <<< (-guess).toNat < d <<< 52
  max leastExponent (if tooBig then guess - 1 else guess)

/-- The digits of a fraction at an exponent, rounded. -/
def digitsAt (n d : Nat) (e : Int) : Nat :=
  if 0 ≤ e then roundedQuotient n (d <<< e.toNat)
  else roundedQuotient (n <<< (-e).toNat) d

/-- The number nearest to a positive or negative fraction. -/
def nearest (negative : Bool) (n d : Nat) : Binary64 :=
  if n = 0 then finite negative 0 0
  else
    let e := exponentFor n d
    let m := digitsAt n d e
    let (m, e) := if m = 1 <<< 53 then (1 <<< 52, e + 1) else (m, e)
    if greatestExponent < e then infinite negative else finite negative m e

/-- The number nearest to an integer. -/
def ofInt (i : Int) : Binary64 :=
  nearest (i < 0) i.natAbs 1

/-- The number nearest to digits times a power of ten. -/
def ofDecimal (negative : Bool) (digits : Nat) (power : Int) : Binary64 :=
  if digits = 0 then finite negative 0 0
  else if 400 < power then infinite negative
  else if power < -(400 + (digits.log2 : Int)) then finite negative 0 0
  else if 0 ≤ power then nearest negative (digits * Nat.pow 10 power.toNat) 1
  else nearest negative digits (Nat.pow 10 (-power).toNat)

/-- The integer that a number is equal to. -/
def toInt? : Binary64 → Option Int
  | finite negative m e =>
    let signed (k : Nat) : Int := if negative then -k else k
    if 0 ≤ e then some (signed (m <<< e.toNat))
    else if (m >>> (-e).toNat) <<< (-e).toNat = m then some (signed (m >>> (-e).toNat))
    else none
  | _ => none

/-- The number is neither infinite nor missing. -/
def isFinite : Binary64 → Bool
  | finite _ _ _ => true
  | _ => false

/-- A number of thousandths as text with a point. -/
def thousandths (k : Nat) : String :=
  let fraction := toString (k % 1000)
  toString (k / 1000) ++ "." ++ String.ofList (List.replicate (3 - fraction.length) '0') ++
    fraction

/-- The text with three decimals; a tie goes to the even digit. -/
def fixed : Binary64 → String
  | finite negative m e =>
    let k :=
      if 0 ≤ e then (m <<< e.toNat) * 1000
      else roundedQuotient (m * 1000) (1 <<< (-e).toNat)
    (if negative then "-" else "") ++ thousandths k
  | infinite negative => if negative then "-inf" else "inf"
  | notANumber => "nan"

end Binary64

end JavaAtlas.Number
