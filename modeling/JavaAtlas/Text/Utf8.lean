import JavaAtlas.Text.Quoted

/-!
# UTF-8

Octets and characters.  Writing is the standard encoding.  Reading comes in two
forms: the lenient one puts one replacement character for every maximal run of
octets that begins a character and does not complete it, the strict one reports
the first such run with its place and cause.

Both run one small machine over the octets, whose state is the part of a
character read so far.
-/

namespace JavaAtlas.Text.Utf8

/-- Octets of a file or of a stream. -/
abbrev Bytes := List UInt8

/-- Octets of a text. -/
def encode (s : String) : Bytes :=
  s.toList.flatMap String.utf8EncodeChar

/-- What stands for octets that are no character. -/
def replacement : Char := '\uFFFD'

/-- A character of which some octets are still to come. -/
structure Pending where
  /-- Octets that must still follow. -/
  missing : Nat
  /-- Least value allowed for the next octet. -/
  low : Nat
  /-- Greatest value allowed for the next octet. -/
  high : Nat
  /-- Bits collected so far. -/
  value : Nat
  deriving DecidableEq, Repr

/-- What an octet means where a character begins. -/
inductive Lead where
  | single (c : Char)
  | opening (p : Pending)
  | invalid
  deriving Repr

/-- Reads an octet where a character begins.  The ranges for the second octet
exclude overlong forms, surrogates and numbers beyond the last character. -/
def lead (b : UInt8) : Lead :=
  let n := b.toNat
  if n < 0x80 then .single (Char.ofNat n)
  else if n < 0xC2 then .invalid
  else if n < 0xE0 then .opening ⟨1, 0x80, 0xBF, n - 0xC0⟩
  else if n == 0xE0 then .opening ⟨2, 0xA0, 0xBF, 0⟩
  else if n == 0xED then .opening ⟨2, 0x80, 0x9F, 13⟩
  else if n < 0xF0 then .opening ⟨2, 0x80, 0xBF, n - 0xE0⟩
  else if n == 0xF0 then .opening ⟨3, 0x90, 0xBF, 0⟩
  else if n < 0xF4 then .opening ⟨3, 0x80, 0xBF, n - 0xF0⟩
  else if n == 0xF4 then .opening ⟨3, 0x80, 0x8F, 4⟩
  else .invalid

/-- The octet may continue the pending character. -/
def Pending.accepts (p : Pending) (b : UInt8) : Bool :=
  p.low ≤ b.toNat && b.toNat ≤ p.high

/-- Bits with one more octet. -/
def Pending.extended (p : Pending) (b : UInt8) : Nat :=
  p.value * 64 + (b.toNat - 0x80)

/-- State after one octet, with the characters that it settles. -/
def step (state : Option Pending) (b : UInt8) : List Char × Option Pending :=
  match state with
  | none => fresh []
  | some p =>
    if p.accepts b then
      if p.missing ≤ 1 then ([Char.ofNat (p.extended b)], none)
      else ([], some ⟨p.missing - 1, 0x80, 0xBF, p.extended b⟩)
    else fresh [replacement]
where
  /-- Reads the octet as the beginning of a character. -/
  fresh (settled : List Char) : List Char × Option Pending :=
    match lead b with
    | .single c => (settled ++ [c], none)
    | .opening p => (settled, some p)
    | .invalid => (settled ++ [replacement], none)

/-- Characters read from a state on; a character cut off by the end counts as
one replacement. -/
def decodeFrom : Option Pending → Bytes → List Char
  | none, [] => []
  | some _, [] => [replacement]
  | state, b :: bs =>
    let (settled, next) := step state b
    settled ++ decodeFrom next bs

/-- Reads any octets, with replacement characters for what is no character. -/
def decode (bs : Bytes) : String :=
  String.ofList (decodeFrom none bs)

/-! ## Strict reading -/

/-- Why octets are no character. -/
inductive Cause where
  | invalidStart
  | invalidContinuation
  | unexpectedEnd
  deriving DecidableEq, Repr

/-- Cause in words. -/
def Cause.text : Cause → String
  | .invalidStart => "invalid start byte"
  | .invalidContinuation => "invalid continuation byte"
  | .unexpectedEnd => "unexpected end of data"

/-- The first run of octets that is no character: its place, its octets and the cause. -/
structure Malformed where
  position : Nat
  octets : Bytes
  cause : Cause
  deriving DecidableEq, Repr

/-- Message for octets that cannot be read: a single octet is shown, of several
only the places are. -/
def Malformed.message (m : Malformed) : String :=
  let digits (b : UInt8) := String.ofList (Quoted.hexDigits 2 b.toNat)
  let place := match m.octets with
    | [b] => s!"byte 0x{digits b} in position {m.position}"
    | bs => s!"bytes in position {m.position}-{m.position + bs.length - 1}"
  s!"'utf-8' codec can't decode {place}: {m.cause.text}"

/-- Strict reading from a state on: `run` holds the octets of the pending
character in reverse and `start` its place. -/
def decodeStrictFrom (start : Nat) (state : Option Pending) (run : Bytes) :
    Bytes → Except Malformed (List Char)
  | [] =>
    match state with
    | none => .ok []
    | some _ => .error ⟨start, run.reverse, .unexpectedEnd⟩
  | b :: bs =>
    match state with
    | none =>
      match lead b with
      | .single c => (c :: ·) <$> decodeStrictFrom (start + 1) none [] bs
      | .opening p => decodeStrictFrom start (some p) [b] bs
      | .invalid => .error ⟨start, [b], .invalidStart⟩
    | some p =>
      if p.accepts b then
        if p.missing ≤ 1 then
          (Char.ofNat (p.extended b) :: ·) <$>
            decodeStrictFrom (start + run.length + 1) none [] bs
        else
          decodeStrictFrom start (some ⟨p.missing - 1, 0x80, 0xBF, p.extended b⟩) (b :: run) bs
      else .error ⟨start, run.reverse, .invalidContinuation⟩

/-- Reads octets that must all be characters. -/
def decodeStrict (bs : Bytes) : Except Malformed String :=
  String.ofList <$> decodeStrictFrom 0 none [] bs

/-- Strict reading of a stream that comes in pieces.  A character may begin in one
piece and end in the next; places are counted from the octets that are left over
from the piece before. -/
def decodePieces (left : Bytes) : List Bytes → Except Malformed (List Char)
  | [] => if left.isEmpty then .ok [] else .error ⟨0, left, .unexpectedEnd⟩
  | piece :: rest =>
    let octets := left ++ piece
    match decodeStrictFrom 0 none [] octets with
    | .ok cs => (cs ++ ·) <$> decodePieces [] rest
    | .error m =>
      if m.cause = .unexpectedEnd then
        match decodeStrictFrom 0 none [] (octets.take m.position) with
        | .ok cs => (cs ++ ·) <$> decodePieces m.octets rest
        | .error e => .error e
      else .error m

/-- Octets in pieces of at most the given number. -/
def piecesOf (size : Nat) : Nat → Bytes → List Bytes
  | 0, _ => []
  | fuel + 1, bs => if bs.isEmpty then [] else bs.take size :: piecesOf size fuel (bs.drop size)

/-- Number of octets that are read from a stream at once. -/
def pieceSize : Nat := 8192

/-- Strict reading of a stream. -/
def decodeStream (bs : Bytes) : Except Malformed String :=
  String.ofList <$> decodePieces [] (piecesOf pieceSize bs.length bs)

end JavaAtlas.Text.Utf8
