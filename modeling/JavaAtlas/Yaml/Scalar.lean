import JavaAtlas.Yaml.Cursor

/-!
# Scalars of a document

A scalar is a text in one of five styles: without quotes, in single or double
quotes, or as a block whose lines are kept or folded.  This module reads each
style from its first character on.

Main definitions:

- `plainScalar`, `quotedScalar`, `blockScalar`.
-/

namespace JavaAtlas.Yaml

open Scan

/-! ## Quoted scalars -/

/-- The character that an escape letter stands for. -/
def escapeOf? : Char → Option Char
  | '0' => some '\x00'
  | 'a' => some '\x07'
  | 'b' => some '\x08'
  | 't' => some '\t'
  | '\t' => some '\t'
  | 'n' => some '\n'
  | 'v' => some '\x0b'
  | 'f' => some '\x0c'
  | 'r' => some '\r'
  | 'e' => some '\x1b'
  | ' ' => some ' '
  | '"' => some '"'
  | '\\' => some '\\'
  | '/' => some '/'
  | 'N' => some '\u0085'
  | '_' => some '\u00a0'
  | 'L' => some '\u2028'
  | 'P' => some '\u2029'
  | _ => none

/-- Number of digits behind an escape letter for a code point. -/
def codeDigits? : Char → Option Nat
  | 'x' => some 2
  | 'u' => some 4
  | 'U' => some 8
  | _ => none

/-- Value of a hexadecimal digit. -/
def hexValue? (c : Char) : Option Nat :=
  if '0' ≤ c && c ≤ '9' then some (c.toNat - 48)
  else if 'a' ≤ c && c ≤ 'f' then some (c.toNat - 87)
  else if 'A' ≤ c && c ≤ 'F' then some (c.toNat - 55)
  else none

/-- Value of hexadecimal digits. -/
def hexNumber? (cs : List Char) : Option Nat :=
  cs.foldlM (fun n c => (hexValue? c).map (n * 16 + ·)) 0

/-- Characters, and gaps for codes that stand for half of one. -/
abbrev Pieces := List (Option Char)

/-- The character of a code, unless that stands for half of one. -/
def charOf? (code : Nat) : Option Char :=
  if code.isValidChar then some (Char.ofNat code) else none

/-- Line ends inside a quoted scalar, with the blanks around them left out. -/
def quotedBreaks : Nat → Scan (List Char)
  | 0 => reject
  | fuel + 1 => do
    require (!(← atDocumentMark))
    discard (takeWhile fun c => c == ' ' || c == '\t')
    if ((← peek 0).map isBreak).getD false then
      let b ← lineBreak
      return b ++ (← quotedBreaks fuel)
    else return []

/-- Line ends folded: one alone is a blank, of several the first is left out. -/
def folded (first : List Char) (others : List Char) : List Char :=
  (if first ≠ ['\n'] then first else if others.isEmpty then [' '] else []) ++ others

/-- A character that needs attention inside quotes. -/
def isQuotedSpecial (c : Char) : Bool :=
  c == '\'' || c == '"' || c == '\\' || c == ' ' || c == '\t' || isBreak c

/-- An escape in double quotes, from the character behind the backslash on. -/
def escape : Scan Pieces := do
  match ← peek 0 with
  | none => reject
  | some c =>
    match escapeOf? c, codeDigits? c with
    | some e, _ => skip 1; return [some e]
    | none, some n =>
      skip 1
      let digits ← take n
      require (digits.length == n)
      match hexNumber? digits with
      | none => reject
      | some code => if h : codeLimit ≤ code then fail (.badCode code h) else return [charOf? code]
    | none, none =>
      require (isBreak c)
      discard lineBreak
      return (← quotedBreaks (← bound)).map some

/-- Characters inside quotes up to a blank, a line end or the closing quote. -/
def quotedWords (double : Bool) : Nat → Scan Pieces
  | 0 => reject
  | fuel + 1 => do
    let run ← takeWhile fun c => !isQuotedSpecial c
    let pieces : Pieces := run.map some
    match ← peek 0, ← peek 1 with
    | some '\'', some '\'' =>
      if double then skip 1; return pieces ++ some '\'' :: (← quotedWords double fuel)
      else skip 2; return pieces ++ some '\'' :: (← quotedWords double fuel)
    | some '\'', _ =>
      if double then skip 1; return pieces ++ some '\'' :: (← quotedWords double fuel)
      else return pieces
    | some '"', _ =>
      if double then return pieces
      else skip 1; return pieces ++ some '"' :: (← quotedWords double fuel)
    | some '\\', _ =>
      skip 1
      if double then
        let e ← escape
        return pieces ++ e ++ (← quotedWords double fuel)
      else return pieces ++ some '\\' :: (← quotedWords double fuel)
    | _, _ => return pieces

/-- Blanks and line ends inside quotes. -/
def quotedSpaces : Scan (List Char) := do
  let blanks ← takeWhile fun c => c == ' ' || c == '\t'
  match ← peek 0 with
  | none => reject
  | some c =>
    if isBreak c then
      let first ← lineBreak
      return folded first (← quotedBreaks (← bound))
    else return blanks

/-- The rest of a quoted scalar with its closing quote. -/
def quotedRest (double : Bool) (quote : Char) : Nat → Scan Pieces
  | 0 => reject
  | fuel + 1 => do
    let words ← quotedWords double (← bound)
    if (← peek 0) = some quote then skip 1; return words
    else
      let spaces ← quotedSpaces
      return words ++ spaces.map some ++ (← quotedRest double quote fuel)

/-- The character that stands for half of one where a text is shown. -/
def halfMark : Char := '\uFFFD'

/-- A scalar in quotes, and whether all its codes stand for characters. -/
def quotedScalar (quote : Char) : Scan (String × Bool) := do
  skip 1
  let pieces ← quotedRest (quote == '"') quote (← bound)
  return (String.ofList (pieces.map fun c => c.getD halfMark), pieces.all Option.isSome)

/-! ## Plain scalars -/

/-- Line ends and blanks behind a line end inside a plain scalar; none before a mark
of a document. -/
def plainBreaks : Nat → Scan (Option (List Char))
  | 0 => reject
  | fuel + 1 => do
    if ← atDocumentMark then return none
    let breaks ← blanksAndBreak
    match breaks with
    | none => return some []
    | some b => return (← plainBreaks fuel).map (b ++ ·)
where
  /-- Passes over blanks and takes one line end, if one follows. -/
  blanksAndBreak : Scan (Option (List Char)) := do
    skipBlanks
    if ((← peek 0).map isBreak).getD false then return some (← lineBreak) else return none

/-- What separates the words of a plain scalar, and whether lines were crossed. -/
def plainSpaces : Scan (List Char × Bool) := do
  let blanks ← takeWhile (· == ' ')
  if ((← peek 0).map isBreak).getD false then
    let first ← lineBreak
    match ← plainBreaks (← bound) with
    | none => return ([], true)
    | some others => return (folded first others, true)
  else return (blanks, false)

/-- Length of a word of a plain scalar. -/
def plainWord (inFlow : Bool) : List Char → Nat
  | [] => 0
  | c :: cs =>
    let flowMark (c : Char) := c == ',' || c == '[' || c == ']' || c == '{' || c == '}'
    let ends := endsWord (some c) ||
      (c == ':' && (endsWord cs.head? || (inFlow && (cs.head?.map flowMark).getD false))) ||
      (inFlow && (flowMark c || c == '?'))
    if ends then 0 else 1 + plainWord inFlow cs

/-- The words of a plain scalar that stand at the least column or behind it, and
whether the last thing read crossed a line. -/
def plainWords (inFlow : Bool) (indent : Int) : Nat → List Char → Bool → Scan (List Char × Bool)
  | 0, _, _ => reject
  | fuel + 1, spaces, crossed => do
    let length := plainWord inFlow (← rest)
    if (← peek 0) = some '#' || length = 0 then return ([], crossed)
    let word ← take length
    let (after, crossedNow) ← plainSpaces
    let outside := !inFlow && ((← column) : Int) < indent
    let ends := after.isEmpty || (← peek 0) = some '#' || outside
    if ends then return (spaces ++ word, crossedNow)
    else
      let (more, last) ← plainWords inFlow indent fuel after crossedNow
      return (spaces ++ word ++ more, last)

/-- A plain scalar, and whether a line was crossed behind it. -/
def plainScalar (inFlow : Bool) (indent : Int) : Scan (String × Bool) := do
  let (cs, crossed) ← plainWords inFlow indent (← bound) [] false
  return (String.ofList cs, crossed)

/-! ## Block scalars -/

/-- What happens to the line ends at the end of a block. -/
inductive Chomping where
  /-- One is kept. -/
  | clip
  /-- None is kept. -/
  | strip
  /-- All are kept. -/
  | keep
  deriving DecidableEq, Repr

/-- The sign that asks for a treatment of line ends. -/
def chompingOf? : Option Char → Option Chomping
  | some '+' => some .keep
  | some '-' => some .strip
  | _ => none

/-- The indentation that a digit asks for; zero is none. -/
def incrementOf? : Option Char → Option Nat
  | some c => if '0' ≤ c && c ≤ '9' then some (c.toNat - 48) else none
  | none => none

/-- The signs in the first line of a block: treatment of line ends and indentation. -/
def blockHead : Scan (Chomping × Option Nat) := do
  match chompingOf? (← peek 0) with
  | some chomping =>
    skip 1
    let increment := incrementOf? (← peek 0)
    if increment.isSome then skip 1
    finish chomping increment
  | none =>
    let increment := incrementOf? (← peek 0)
    if increment.isSome then skip 1
    match increment, chompingOf? (← peek 0) with
    | some _, some chomping => skip 1; finish chomping increment
    | _, _ => finish .clip increment
where
  /-- Checks the indentation and what follows. -/
  finish (chomping : Chomping) (increment : Option Nat) : Scan (Chomping × Option Nat) := do
    require (increment != some 0)
    require (endsField (← peek 0))
    return (chomping, increment)

/-- Empty lines at the start of a block, and the greatest column that was reached. -/
def blockIndentation : Nat → List Char → Nat → Scan (List Char × Nat)
  | 0, _, _ => reject
  | fuel + 1, breaks, deepest => do
    match ← peek 0 with
    | some c =>
      if c = ' ' then
        skip 1
        blockIndentation fuel breaks (max deepest (← column))
      else if isBreak c then
        let b ← lineBreak
        blockIndentation fuel (breaks ++ b) deepest
      else return (breaks, deepest)
    | none => return (breaks, deepest)

/-- Passes over blanks up to a column. -/
def indentTo (indent : Nat) : Nat → Scan Unit
  | 0 => return
  | fuel + 1 => do
    if (← column) < indent && (← peek 0) = some ' ' then
      skip 1
      indentTo indent fuel

/-- Empty lines of a block with the given indentation. -/
def blockBreaks (indent : Nat) : Nat → Scan (List Char)
  | 0 => reject
  | fuel + 1 => do
    indentTo indent indent
    if ((← peek 0).map isBreak).getD false then
      let b ← lineBreak
      return b ++ (← blockBreaks indent fuel)
    else return []

/-- The character begins an indented line. -/
def isSpaced (c : Option Char) : Bool :=
  c == some ' ' || c == some '\t'

/-- Lines of a block.  The result has the text, the last line end and the empty lines
behind it. -/
def blockLines (fold : Bool) (indent : Nat) :
    Nat → List Char → Scan (List Char × List Char × List Char)
  | 0, _ => reject
  | fuel + 1, breaks => do
    let spaced := isSpaced (← peek 0)
    let line ← takeWhile fun c => !isBreak c
    let ending ← lineBreak
    let after ← blockBreaks indent (← bound)
    if (← column) = indent && (← peek 0).isSome then
      let joined :=
        if fold && ending == ['\n'] && !spaced && !isSpaced (← peek 0) then
          if after.isEmpty then [' '] else []
        else ending
      let (text, last, trailing) ← blockLines fold indent fuel after
      return (breaks ++ line ++ joined ++ text, last, trailing)
    else return (breaks ++ line, ending, after)

/-- A block scalar below the given indentation. -/
def blockScalar (fold : Bool) (indent : Int) : Scan String := do
  skip 1
  let (chomping, increment) ← blockHead
  skipLineEnd
  let least := (max (indent + 1) 1).toNat
  let (breaks, depth) ← match increment with
    | none => do
      let (breaks, deepest) ← blockIndentation (← bound) [] 0
      pure (breaks, max least deepest)
    | some n => do
      let depth := least + n - 1
      pure (← blockBreaks depth (← bound), depth)
  let (text, last, trailing) ←
    if (← column) = depth && (← peek 0).isSome then blockLines fold depth (← bound) breaks
    else pure ([], [], breaks)
  return String.ofList
    (match chomping with
      | .strip => text
      | .clip => text ++ last
      | .keep => text ++ last ++ trailing)

end JavaAtlas.Yaml
