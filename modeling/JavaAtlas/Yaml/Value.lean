import JavaAtlas.Number.Binary64
import JavaAtlas.Text.Digits
import JavaAtlas.Text.Pieces
import JavaAtlas.Text.Quoted
import JavaAtlas.Yaml.Node

/-!
# Values of a document

The tags of nodes say which values they are.  Keys that are given twice count the
last time, and a merge key brings in the pairs of other mappings, which count less
than the pairs that stand there.  Values are made level by level: the scalars of a
collection before anything inside its collections, and the first one that has no value
is reported.

Main definitions:

- `Value`: the values.
- `Construct.problem?`: the first reason why a node has no value.
- `Value.ofNode`: the value of a node, or why it has none.
- `Value.load`: the value of a text.
-/

namespace JavaAtlas.Yaml

open Number (Binary64)

/-- A value of a document. -/
inductive Value where
  | null
  | bool (b : Bool)
  | int (i : Int)
  | float (x : Binary64)
  | text (s : String)
  /-- A text with codes that stand for half of a character. -/
  | brokenText
  | octets (bs : List UInt8)
  | moment (m : Moment)
  | list (items : List Value)
  /-- A set of keys. -/
  | set (keys : List Value)
  | mapping (pairs : List (Value × Value))
  deriving Repr, Inhabited

/-- Why a text has no value. -/
inductive LoadError where
  /-- The text breaks the rules of the format, or uses a tag that means nothing. -/
  | malformed
  /-- An escape has a code for which there is no character. -/
  | badCode (code : Nat)
  /-- A number is not written like one. -/
  | badInteger (text : String) (base : Nat)
  /-- A decimal number has too many digits. -/
  | longInteger (digits : Nat)
  | badFloat (text : String)
  /-- A truth value is not written like one. -/
  | badBool (text : String)
  /-- A number without digits. -/
  | emptyNumber
  /-- A number has too many groups of sixty. -/
  | overlongNumber
  /-- A moment is not written like one. -/
  | badMoment
  /-- A mapping with a default value stands for a moment. -/
  | momentOfMapping
  /-- A part of a moment lies outside its range. -/
  | impossibleMoment (reason : String)
  deriving DecidableEq, Repr, Inhabited

/-- What a fault is for whoever asked for a value. -/
def ScanFault.toError : ScanFault → LoadError
  | malformed => .malformed
  | badCode code _ => .badCode code
  | longNumber digits _ => .longInteger digits

/-! ## Scalars -/

namespace Construct

/-- The digits without the underscores between them. -/
def withoutGaps (cs : List Char) : List Char :=
  cs.filter (· != '_')

/-- The value of a digit in a base. -/
def digitIn? (base : Nat) (c : Char) : Option Nat :=
  let value :=
    if c.isDigit then some (c.toNat - 48)
    else if 'a' ≤ c && c ≤ 'z' then some (c.toNat - 87)
    else if 'A' ≤ c && c ≤ 'Z' then some (c.toNat - 55)
    else none
  value.filter (· < base)

/-- The number of digits in a base; there must be some. -/
def natural? (base : Nat) (cs : List Char) : Option Nat :=
  if cs.isEmpty then none
  else cs.foldlM (fun n c => (digitIn? base c).map (n * base + ·)) 0

/-- A digit of any script as a plain one, and any blank as a space. -/
def plainChar (c : Char) : Char :=
  match Text.digitValue? c with
  | some d => Char.ofNat (48 + d)
  | none => if Text.isBlank c then ' ' else c

/-- White space around a number. -/
def isNumberBlank (c : Char) : Bool :=
  c == ' ' || (9 ≤ c.toNat && c.toNat ≤ 13)

/-- The characters of a number with plain digits and without blanks around. -/
def bareNumber (cs : List Char) : List Char :=
  let plain := if cs.all fun c => c.toNat < 128 then cs else cs.map plainChar
  ((plain.dropWhile isNumberBlank).reverse.dropWhile isNumberBlank).reverse

/-- The letter that marks digits of a base. -/
def baseMark? : Nat → Option (Char × Char)
  | 2 => some ('b', 'B')
  | 8 => some ('o', 'O')
  | 16 => some ('x', 'X')
  | _ => none

/-- The digits behind the mark of their base, which need not be there. -/
def withoutMark (base : Nat) (cs : List Char) : List Char :=
  match baseMark? base, cs with
  | some (small, capital), '0' :: m :: ds => if m = small || m = capital then ds else cs
  | _, _ => cs

/-- The number of digits in a base, with a sign and blanks around, or an error that
shows them. -/
def integerIn (base : Nat) (cs : List Char) : Except LoadError Int :=
  let bare := bareNumber cs
  let digits := withoutMark base (Form.unsigned bare)
  let leading := digits.takeWhile Char.isDigit
  if base = 10 && Text.digitLimit < leading.length then .error (.longInteger leading.length)
  else
    match natural? base digits with
    | some n => .ok (if bare.head? == some '-' then -(n : Int) else n)
    | none => .error (.badInteger (String.ofList cs) base)

/-- The number of groups of sixty. -/
def groupsOfSixty (cs : List Char) : Except LoadError Int :=
  (Text.pieces ':' cs).foldlM (fun n p => (n * 60 + ·) <$> integerIn 10 p) 0

/-- An integer as written. -/
def int (text : String) : Except LoadError Value := do
  let cs := withoutGaps text.toList
  if cs.isEmpty then throw .emptyNumber
  let negative := cs.head? == some '-'
  let body := Form.unsigned cs
  let n ← match body with
    | ['0'] => pure 0
    | '0' :: 'b' :: ds => integerIn 2 ds
    | '0' :: 'x' :: ds => integerIn 16 ds
    | [] => throw .emptyNumber
    | '0' :: _ => integerIn 8 body
    | _ => if body.contains ':' then groupsOfSixty body else integerIn 10 body
  return .int (if negative then -n else n)

/-- A decimal number with an optional point and exponent: its digits and the power of
ten they are multiplied by. -/
def decimal? (cs : List Char) : Option (Nat × Int) := do
  let whole := cs.takeWhile Char.isDigit
  let rest := cs.drop whole.length
  let (fraction, rest) := match rest with
    | '.' :: more => (more.takeWhile Char.isDigit, more.dropWhile Char.isDigit)
    | _ => ([], rest)
  let digits ← natural? 10 (whole ++ fraction)
  let power ← match rest with
    | [] => some (0 : Int)
    | e :: more =>
      if e = 'e' || e = 'E' then
        (natural? 10 (Form.unsigned more)).map fun (n : Nat) =>
          if more.head? == some '-' then -(n : Int) else (n : Int)
      else none
  return (digits, power - fraction.length)

/-- Seconds of groups of sixty, the last of which may have a fraction.  The weight of the
first group must be a number of the format. -/
def sixtieths (negative : Bool) (cs : List Char) : Except LoadError Binary64 := do
  let parts ← (Text.pieces ':' cs).mapM fun p =>
    match decimal? p with
    | some d => pure d
    | none => throw (.badFloat (String.ofList p))
  if !(Binary64.ofInt (Int.ofNat (Nat.pow 60 (parts.length - 1)))).isFinite then
    throw .overlongNumber
  let least := parts.foldl (fun m p => min m p.2) 0
  let total := parts.foldl (fun n p => n * 60 + p.1 * Nat.pow 10 (p.2 - least).toNat) 0
  return .ofDecimal negative total least

/-- A number in the usual notation, with a sign and blanks around; the sign may be turned. -/
def usualNumber? (turned : Bool) (cs : List Char) : Option Binary64 :=
  let bare := bareNumber cs
  let negative := turned != (bare.head? == some '-')
  let body := Form.unsigned bare
  let word := String.ofList body
  if word == "inf" || word == "infinity" then some (.infinite negative)
  else if word == "nan" then some .notANumber
  else (decimal? body).map fun d => .ofDecimal negative d.1 d.2

/-- A number with a point as written. -/
def float (text : String) : Except LoadError Value := do
  let cs := (withoutGaps text.toList).map Char.toLower
  if cs.isEmpty then throw .emptyNumber
  let negative := cs.head? == some '-'
  let body := Form.unsigned cs
  if body = ".inf".toList then return .float (.infinite negative)
  else if body = ".nan".toList then return .float .notANumber
  else if body.contains ':' then return .float (← sixtieths negative body)
  else
    match usualNumber? negative body with
    | some x => return .float x
    | none => throw (.badFloat (String.ofList body))

/-- A truth value as written. -/
def bool (text : String) : Except LoadError Value :=
  let word := text.toLower
  if ["yes", "true", "on"].contains word then .ok (.bool true)
  else if ["no", "false", "off"].contains word then .ok (.bool false)
  else .error (.badBool word)

/-- Number of days of a month. -/
def daysIn (year month : Nat) : Nat :=
  if month = 2 then
    if year % 4 = 0 && (year % 100 != 0 || year % 400 = 0) then 29 else 28
  else if [4, 6, 9, 11].contains month then 30
  else 31

/-- Minutes of a day. -/
def minutesOfDay : Nat := 24 * 60

/-- A time zone lies too far off, in words. -/
def zoneReason (offset : Int) : String :=
  let days := offset.fdiv minutesOfDay
  let seconds := offset.fmod minutesOfDay * 60
  let parts := (if days = 0 then [] else [s!"days={days}"]) ++
    (if seconds = 0 then [] else [s!"seconds={seconds}"])
  "offset must be a timedelta strictly between -timedelta(hours=24) and timedelta(hours=24), " ++
    "not datetime.timedelta(" ++ ", ".intercalate parts ++ ")."

/-- A moment as written, which must exist. -/
def moment (text : String) : Except LoadError Value :=
  match Form.moment? text.toList with
  | none => .error .badMoment
  | some m =>
    let impossible (reason : String) : Except LoadError Value := .error (.impossibleMoment reason)
    if minutesOfDay ≤ m.offset.natAbs then impossible (zoneReason m.offset)
    else if m.year = 0 then impossible "year 0 is out of range"
    else if m.month < 1 || 12 < m.month then impossible "month must be in 1..12"
    else if m.day < 1 || daysIn m.year m.month < m.day then
      impossible "day is out of range for month"
    else
      match m.time with
      | none => .ok (.moment m)
      | some (hour, minute, second) =>
        if 23 < hour then impossible "hour must be in 0..23"
        else if 59 < minute then impossible "minute must be in 0..59"
        else if 59 < second then impossible "second must be in 0..59"
        else .ok (.moment m)

/-- Value of a character of octets in base 64. -/
def sextet? (c : Char) : Option Nat :=
  if 'A' ≤ c && c ≤ 'Z' then some (c.toNat - 65)
  else if 'a' ≤ c && c ≤ 'z' then some (c.toNat - 71)
  else if c.isDigit then some (c.toNat + 4)
  else if c = '+' then some 62
  else if c = '/' then some 63
  else none

/-- What is known while octets are read from characters in base 64. -/
structure Quad where
  /-- Number of characters of the current group of four. -/
  place : Nat
  /-- Bits that are left over. -/
  bits : Nat
  /-- Number of padding signs in a row. -/
  pads : Nat

/-- Octets in base 64.  The padding of a group ends them, an open group spoils them, and
other characters are passed over. -/
def octetsFrom : List Char → Quad → Option (List UInt8)
  | [], q => if q.place = 0 then some [] else none
  | '=' :: cs, q =>
    if 2 ≤ q.place then
      if 4 ≤ q.place + q.pads + 1 then some [] else octetsFrom cs { q with pads := q.pads + 1 }
    else octetsFrom cs q
  | c :: cs, q =>
    match sextet? c with
    | none => octetsFrom cs q
    | some v =>
      match q.place with
      | 0 => octetsFrom cs ⟨1, v, 0⟩
      | 1 => (octetsFrom cs ⟨2, v % 16, 0⟩).map (UInt8.ofNat (q.bits * 4 + v / 16) :: ·)
      | 2 => (octetsFrom cs ⟨3, v % 4, 0⟩).map (UInt8.ofNat (q.bits * 16 + v / 4) :: ·)
      | _ => (octetsFrom cs ⟨0, 0, 0⟩).map (UInt8.ofNat (q.bits * 64 + v) :: ·)

/-- Octets in base 64, which are written with plain characters only. -/
def binary (text : String) : Except LoadError Value :=
  let cs := text.toList
  match if cs.all fun c => c.toNat < 128 then octetsFrom cs ⟨0, 0, 0⟩ else none with
  | some bs => .ok (.octets bs)
  | none => .error .malformed

/-- The value of a scalar. -/
def scalar (tag : Tag) (text : String) : Except LoadError Value :=
  match tag with
  | .null => .ok .null
  | .bool => bool text
  | .int => int text
  | .float => float text
  | .binary => binary text
  | .timestamp => moment text
  | .text => .ok (.text text)
  | .brokenText => .ok .brokenText
  | _ => .error .malformed

end Construct

/-! ## Collections -/

/-- The tag is one of a collection. -/
def Tag.isCollection : Tag → Bool
  | .sequence | .mapping | .set | .orderedMap | .pairs => true
  | _ => false

namespace Node

/-- The tag of a node. -/
def tag : Node → Tag
  | scalar t _ => t
  | sequence t _ => t
  | mapping t _ => t

/-- The text of a node.  A mapping has the text of its default value. -/
def text? : Node → Option String
  | scalar _ text => some text
  | sequence _ _ => none
  | mapping _ pairs => defaultText? pairs
where
  /-- The text of the first default value. -/
  defaultText? : List (Node × Node) → Option String
    | [] => none
    | (k, v) :: rest => if k.tag = .default then text? v else defaultText? rest

/-- A key that asks for a merge. -/
def isMerge (n : Node) : Bool :=
  n.tag = .merge

/-- Pairs with merges carried out: a mapping brings its pairs, and of a sequence of
mappings the first one counts most.  The number bounds merges inside merges. -/
def flattened : Nat → List (Node × Node) → Option (List (Node × Node))
  | 0, pairs => some pairs
  | fuel + 1, pairs => do
    let brought ← (pairs.filter fun p => p.1.isMerge).mapM fun p =>
      match p.2 with
      | scalar _ _ => none
      | mapping _ inner => flattened fuel inner
      | sequence _ items => do
        let each ← items.mapM fun
          | mapping _ inner => flattened fuel inner
          | _ => none
        return each.reverse.flatten
    return brought.flatten ++ pairs.filter fun p => !p.1.isMerge

/-- The key of a default value counts as a text. -/
def asKey : Node → Node
  | scalar .default text => scalar .text text
  | n => n

mutual

/-- Number of nodes below a node. -/
def size : Node → Nat
  | scalar _ _ => 1
  | sequence _ items => 1 + sizeOfItems items
  | mapping _ pairs => 1 + sizeOfPairs pairs

/-- Number of nodes below the items of a sequence. -/
def sizeOfItems : List Node → Nat
  | [] => 0
  | n :: ns => size n + sizeOfItems ns

/-- Number of nodes below the pairs of a mapping. -/
def sizeOfPairs : List (Node × Node) → Nat
  | [] => 0
  | p :: ps => size p.1 + size p.2 + sizeOfPairs ps

end

end Node

namespace Construct

/-- The value of a node whose tag is none of a collection. -/
def simple (n : Node) : Except LoadError Value :=
  match n.text? with
  | none => .error .malformed
  | some text =>
    match n with
    | .scalar tag _ => scalar tag text
    | n => if n.tag = .timestamp then .error .momentOfMapping else scalar n.tag text

/-! ### The first problem -/

/-- What is made for a collection, one after the other. -/
inductive Part where
  | item (n : Node)
  /-- A key, which may be no collection. -/
  | key (n : Node)
  /-- The collection is not written as its tag asks. -/
  | misfit

/-- The parts of a mapping of one pair. -/
def partsOfSingle : Node → List Part
  | .mapping _ [(k, v)] => [.item k, .item v]
  | _ => [.misfit]

/-- The parts of pairs with merges carried out. -/
def partsOfPairs (pairs : List (Node × Node)) : List Part :=
  match Node.flattened (Node.sizeOfPairs pairs) pairs with
  | none => [.misfit]
  | some pairs => pairs.flatMap fun p => [.key p.1.asKey, .item p.2]

/-- The parts of a node whose tag is one of a collection. -/
def partsOf : Node → List Part
  | .sequence .sequence items => items.map .item
  | .sequence .orderedMap items => items.flatMap partsOfSingle
  | .sequence .pairs items => items.flatMap partsOfSingle
  | .mapping .mapping pairs => partsOfPairs pairs
  | .mapping .set pairs => partsOfPairs pairs
  | _ => [.misfit]

/-- Makes a part; a collection is left for the next level. -/
def left : Part → Except LoadError (List Node)
  | .misfit => .error .malformed
  | .item n => if n.tag.isCollection then .ok [n] else (fun _ => []) <$> simple n
  | .key n => if n.tag.isCollection then .error .malformed else (fun _ => []) <$> simple n

/-- The first problem of collections and of those inside them, as deep as the number
says. -/
def problemWithin : Nat → List Node → Option LoadError
  | 0, _ => none
  | fuel + 1, level =>
    match (level.flatMap partsOf).mapM left with
    | .error e => some e
    | .ok next => problemWithin fuel next.flatten

/-- The first reason why a node has no value. -/
def problem? (n : Node) : Option LoadError :=
  match left (.item n) with
  | .error e => some e
  | .ok level => problemWithin (n.size + 1) level

/-! ### The value -/

/-- The pairs of a mapping with merges carried out, by the values of nodes. -/
def entries? (valueOf : Node → Option Value) (pairs : List (Node × Node)) :
    Option (List (Value × Value)) := do
  let pairs ← Node.flattened (Node.sizeOfPairs pairs) pairs
  pairs.mapM fun p => do return (← valueOf p.1.asKey, ← valueOf p.2)

/-- A mapping of one pair, as a list of key and value. -/
def single? (valueOf : Node → Option Value) : Node → Option Value
  | .mapping _ [(k, v)] => do return .list [← valueOf k, ← valueOf v]
  | _ => none

/-- The value of a node that has no problem, as deep as the number says. -/
def value? : Nat → Node → Option Value
  | 0, _ => none
  | fuel + 1, n =>
    match n with
    | .sequence .sequence items => .list <$> items.mapM (value? fuel)
    | .sequence .orderedMap items => .list <$> items.mapM (single? (value? fuel))
    | .sequence .pairs items => .list <$> items.mapM (single? (value? fuel))
    | .mapping .mapping pairs => .mapping <$> entries? (value? fuel) pairs
    | .mapping .set pairs => (fun ps => .set (ps.map Prod.fst)) <$> entries? (value? fuel) pairs
    | n => (simple n).toOption

end Construct

/-- The value of a node. -/
def Value.ofNode (n : Node) : Except LoadError Value :=
  match Construct.problem? n with
  | some e => .error e
  | none => (Construct.value? (n.size + 1) n).elim (.error .malformed) .ok

/-- The value of a text; a text without a document has none. -/
def Value.load (text : String) : Except LoadError Value :=
  match Node.scan text.toList with
  | .error fault => .error fault.toError
  | .ok none => .ok .null
  | .ok (some n) => Value.ofNode n

end JavaAtlas.Yaml
