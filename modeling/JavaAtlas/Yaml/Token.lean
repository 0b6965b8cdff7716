import JavaAtlas.Yaml.Scalar

/-!
# Tokens of a document

A document is cut into tokens.  Indentation is turned into tokens of its own that
begin and end collections.  A key without a mark is only known to be one when its
colon is met; then a mark is put where the key began.

Main definitions:

- `Token`: the tokens.
- `Token.scan`: the tokens of a text, up to where it cannot be read.
-/

namespace JavaAtlas.Yaml

/-- The name of a tag: a handle, if there is one, and what follows it. -/
structure TagName where
  handle : Option String
  suffix : String
  deriving DecidableEq, Repr, Inhabited

/-- A piece of a document. -/
inductive Token where
  /-- A version of the format, or an instruction that means nothing. -/
  | version (major : Nat)
  | otherDirective
  | tagDirective (handle uriPrefix : String)
  | documentStart
  | documentEnd
  | streamEnd
  | sequenceStart
  | mappingStart
  | blockEnd
  | flowSequenceStart
  | flowSequenceEnd
  | flowMappingStart
  | flowMappingEnd
  | blockEntry
  | flowEntry
  | key
  | value
  | alias (name : String)
  | anchor (name : String)
  | tag (name : TagName)
  /-- A scalar without quotes or with, whose codes all stand for characters or not. -/
  | scalar (text : String) (plain whole : Bool)
  deriving DecidableEq, Repr, Inhabited

/-- A place where a key without a mark may have begun. -/
structure PossibleKey where
  /-- Number of tokens before it. -/
  place : Nat
  /-- Nothing but a key may stand there. -/
  required : Bool
  index : Nat
  line : Nat
  column : Nat
  deriving Repr, Inhabited

namespace PossibleKey

/-- Number of characters within which the colon of a key must stand. -/
def reach : Nat := 1024

/-- The key lies on another line than the cursor, or too far back. -/
def isStale (k : PossibleKey) (c : Cursor) : Bool :=
  k.line != c.line || reach < c.index - k.index

end PossibleKey

/-- What is known while tokens are cut. -/
structure Layout where
  /-- The tokens so far, the last one first. -/
  done : List Token
  /-- Column of the innermost block; before any block it is less than every column. -/
  indent : Int
  /-- Columns of the blocks around it. -/
  outer : List Int
  /-- A key without a mark may begin here. -/
  keyAllowed : Bool
  /-- The possible key of each open flow collection, the innermost first, and last
  that of the blocks. -/
  keys : List (Option PossibleKey)
  /-- The document has ended. -/
  finished : Bool
  deriving Repr, Inhabited

/-- A step that cuts tokens. -/
abbrev Cut := StateT Layout Scan

namespace Cut

/-- Fails. -/
def reject {α : Type} : Cut α :=
  fun _ => Scan.reject

/-- Goes on only if the condition holds. -/
def require (condition : Bool) : Cut Unit :=
  if condition then pure () else reject

/-- Adds a token. -/
def emit (t : Token) : Cut Unit :=
  modify fun s => { s with done := t :: s.done }

/-- Adds a token before others that came later. -/
def emitAt (place : Nat) (t : Token) : Cut Unit :=
  modify fun s =>
    let later := s.done.length - place
    { s with done := s.done.take later ++ t :: s.done.drop later }

/-- Says whether a key without a mark may follow. -/
def allowKey (b : Bool) : Cut Unit :=
  modify fun s => { s with keyAllowed := b }

/-- Number of open flow collections. -/
def inFlow : Cut Bool :=
  return (← get).keys.length > 1

/-- Ends all blocks that stand behind the column. -/
def unwind (column : Int) : Cut Unit := do
  if !(← inFlow) then
    modify fun s => go s.outer.length s
where
  /-- Ends one block after another. -/
  go : Nat → Layout → Layout
    | 0, s => s
    | n + 1, s =>
      if column < s.indent then
        go n { s with
          done := .blockEnd :: s.done, indent := s.outer.headD (-1), outer := s.outer.tail }
      else s

/-- Begins a block at a column that lies behind the current one. -/
def addIndent (column : Int) : Cut Bool := do
  let s ← get
  if s.indent < column then
    set { s with indent := column, outer := s.indent :: s.outer }
    return true
  else return false

/-- Gives up the possible key of the current collection. -/
def dropKey : Cut Unit := do
  match (← get).keys with
  | some k :: rest =>
    require (!k.required)
    modify fun s => { s with keys := none :: rest }
  | _ => return

/-- Notes that a key may begin here. -/
def noteKey : Cut Unit := do
  let s ← get
  let c ← (getThe Cursor : Scan Cursor)
  if s.keyAllowed then
    dropKey
    let required := !(← inFlow) && s.indent == (c.column : Int)
    let k : PossibleKey := ⟨s.done.length, required, c.index, c.line, c.column⟩
    modify fun s => { s with keys := some k :: s.keys.tail }

/-- Gives up possible keys that lie on another line or too far back. -/
def dropStaleKeys : Cut Unit := do
  let c ← (getThe Cursor : Scan Cursor)
  let keys := (← get).keys
  require (!keys.any fun k => (k.map fun k => k.isStale c && k.required).getD false)
  modify fun s => { s with keys := keys.map fun k => k.filter fun k => !k.isStale c }

/-! ## Blanks between tokens -/

/-- Passes over blanks, comments and line ends. -/
def skipToToken : Nat → Cut Unit
  | 0 => reject
  | fuel + 1 => do
    Scan.skipBlanks
    Scan.skipComment
    if (← Scan.lineBreak).isEmpty then return
    else
      if !(← inFlow) then allowKey true
      skipToToken fuel

/-! ## Single tokens -/

/-- Ends all blocks before a token that stands outside of them. -/
def leaveBlocks : Cut Unit := do
  unwind (-1)
  dropKey
  allowKey false

/-- A number in a directive. -/
def directiveNumber : Cut Nat := do
  let digits ← Scan.takeWhile Char.isDigit
  require (!digits.isEmpty)
  if h : Text.digitLimit < digits.length then Scan.fail (.longNumber digits.length h)
  return digits.foldl (fun n c => n * 10 + (c.toNat - 48)) 0

/-- A handle of a tag: a word between exclamation marks, or one such mark.  In a
directive the closing mark is needed unless a blank follows the first one. -/
def tagHandle : Cut String := do
  require ((← Scan.peek 0) = some '!')
  if (← Scan.peek 1) = some ' ' then
    Scan.skip 1
    return "!"
  else
    let word := ((← Scan.rest).drop 1).takeWhile isWordChar
    let closed := (← Scan.peek (1 + word.length)) = some '!'
    require (closed)
    Scan.skip (word.length + 2)
    return String.ofList ('!' :: word ++ ['!'])

/-- Octets written with percent signs. -/
def escapedOctets : Nat → Cut (List UInt8)
  | 0 => reject
  | fuel + 1 => do
    if (← Scan.peek 0) = some '%' then
      Scan.skip 1
      let digits ← Scan.take 2
      require (digits.length == 2)
      match hexNumber? digits with
      | none => reject
      | some n => return UInt8.ofNat n :: (← escapedOctets fuel)
    else return []

/-- The characters of octets, if they are UTF-8. -/
def charsOf (octets : List UInt8) : Cut (List Char) :=
  match String.fromUTF8? ⟨octets.toArray⟩ with
  | some s => return s.toList
  | none => reject

/-- A character of an address. -/
def isUriChar (c : Char) : Bool :=
  c.isAlphanum || "-;/?:@&=+$,_.!~*'()[]%".toList.contains c

/-- The characters of an address. -/
def uriChars : Nat → Cut (List Char)
  | 0 => reject
  | fuel + 1 => do
    match ← Scan.peek 0 with
    | none => return []
    | some c =>
      if c = '%' then
        let cs ← charsOf (← escapedOctets (← Scan.bound))
        return cs ++ (← uriChars fuel)
      else if isUriChar c then
        Scan.skip 1
        return c :: (← uriChars fuel)
      else return []

/-- An address, which is not empty. -/
def uri : Cut String := do
  let cs ← uriChars (← Scan.bound)
  require (!cs.isEmpty)
  return String.ofList cs

/-- A directive from its percent sign on. -/
def directive : Cut Unit := do
  leaveBlocks
  Scan.skip 1
  let name ← Scan.takeWhile isWordChar
  require (!name.isEmpty && endsField (← Scan.peek 0))
  let token ←
    if name = "YAML".toList then do
      Scan.skipBlanks
      let major ← directiveNumber
      require ((← Scan.peek 0) = some '.')
      Scan.skip 1
      discard directiveNumber
      require (endsField (← Scan.peek 0))
      pure (Token.version major)
    else if name = "TAG".toList then do
      Scan.skipBlanks
      let handle ← tagHandle
      require ((← Scan.peek 0) = some ' ')
      Scan.skipBlanks
      let uriPrefix ← uri
      require (endsField (← Scan.peek 0))
      pure (Token.tagDirective handle uriPrefix)
    else do
      discard (Scan.takeWhile fun c => !isBreak c)
      pure Token.otherDirective
  Scan.skipLineEnd
  emit token

/-- A mark that begins or ends a document. -/
def documentMark (t : Token) : Cut Unit := do
  leaveBlocks
  Scan.skip 3
  emit t

/-- The beginning of a collection in brackets. -/
def flowStart (t : Token) : Cut Unit := do
  noteKey
  modify fun s => { s with keys := none :: s.keys, keyAllowed := true }
  Scan.skip 1
  emit t

/-- The end of a collection in brackets. -/
def flowEnd (t : Token) : Cut Unit := do
  require (← inFlow)
  dropKey
  modify fun s => { s with keys := s.keys.tail, keyAllowed := false }
  Scan.skip 1
  emit t

/-- A comma between entries in brackets. -/
def flowEntry : Cut Unit := do
  allowKey true
  dropKey
  Scan.skip 1
  emit .flowEntry

/-- Begins a block collection at the current column, where one may begin. -/
def openBlock (t : Token) : Cut Unit := do
  if !(← inFlow) then
    require (← get).keyAllowed
    if ← addIndent (← Scan.column) then emit t

/-- A dash before an entry. -/
def blockEntry : Cut Unit := do
  openBlock .sequenceStart
  allowKey true
  dropKey
  Scan.skip 1
  emit .blockEntry

/-- A mark before a key. -/
def keyMark : Cut Unit := do
  openBlock .mappingStart
  allowKey (!(← inFlow))
  dropKey
  Scan.skip 1
  emit .key

/-- A colon before a value.  A possible key before it becomes a key. -/
def valueMark : Cut Unit := do
  match (← get).keys with
  | some k :: rest =>
    modify fun s => { s with keys := none :: rest }
    emitAt k.place .key
    if !(← inFlow) then
      if ← addIndent k.column then emitAt k.place .mappingStart
    allowKey false
  | _ =>
    openBlock .mappingStart
    allowKey (!(← inFlow))
    dropKey
  Scan.skip 1
  emit .value

/-- What may follow the name of an anchor. -/
def endsName (c : Option Char) : Bool :=
  endsWord c || (c.map fun c => "?:,]\x7d%@`".toList.contains c).getD false

/-- The name of an anchor behind its sign. -/
def anchorName : Cut String := do
  noteKey
  allowKey false
  Scan.skip 1
  let name ← Scan.takeWhile isWordChar
  require (!name.isEmpty && endsName (← Scan.peek 0))
  return String.ofList name

/-- The word behind the sign of a tag has another such sign. -/
def hasHandle : List Char → Bool
  | [] => false
  | c :: cs => if c == ' ' || isBreak c then false else c == '!' || hasHandle cs

/-- A tag. -/
def tag : Cut Unit := do
  noteKey
  allowKey false
  let second ← Scan.peek 1
  let name : TagName ←
    if second = some '<' then do
      Scan.skip 2
      let suffix ← uri
      require ((← Scan.peek 0) = some '>')
      Scan.skip 1
      pure ⟨none, suffix⟩
    else if endsWord second then do
      Scan.skip 1
      pure ⟨none, "!"⟩
    else do
      let handle ←
        if hasHandle ((← Scan.rest).drop 1) then tagHandle
        else do
          Scan.skip 1
          pure "!"
      pure ⟨some handle, ← uri⟩
  require (endsField (← Scan.peek 0))
  emit (.tag name)

/-- A block scalar. -/
def block (fold : Bool) : Cut Unit := do
  allowKey true
  dropKey
  let text ← blockScalar fold (← get).indent
  emit (.scalar text false true)

/-- A scalar in quotes. -/
def quoted (quote : Char) : Cut Unit := do
  noteKey
  allowKey false
  let (text, whole) ← quotedScalar quote
  emit (.scalar text false whole)

/-- A plain scalar. -/
def plain : Cut Unit := do
  noteKey
  allowKey false
  let s ← get
  let (text, crossed) ← plainScalar (← inFlow) (s.indent + 1)
  if crossed then allowKey true
  emit (.scalar text true true)

/-- The end of the stream. -/
def streamEnd : Cut Unit := do
  leaveBlocks
  modify fun s => { s with keys := s.keys.map fun _ => none, finished := true }
  emit .streamEnd

/-- Signs that no plain scalar begins with. -/
def indicators : List Char :=
  "-?:,[]\x7b\x7d#&*!|>'\"%@`".toList

/-- A plain scalar may begin with the character. -/
def beginsPlain (flow : Bool) (c : Char) (following : Option Char) : Bool :=
  !(endsWord (some c) || indicators.contains c) ||
    (!endsWord following && (c == '-' || (!flow && (c == '?' || c == ':'))))

/-- The next token, with those that indentation puts before it. -/
def nextToken : Cut Unit := do
  skipToToken (← Scan.bound)
  dropStaleKeys
  let column ← Scan.column
  unwind column
  let flow ← inFlow
  let following ← Scan.peek 1
  let atMark ← Scan.atDocumentMark
  match ← Scan.peek 0 with
  | none => streamEnd
  | some c =>
    if c = '%' && column = 0 then directive
    else if c = '-' && column = 0 && atMark then documentMark .documentStart
    else if c = '.' && column = 0 && atMark then documentMark .documentEnd
    else if c = '[' then flowStart .flowSequenceStart
    else if c = '\x7b' then flowStart .flowMappingStart
    else if c = ']' then flowEnd .flowSequenceEnd
    else if c = '\x7d' then flowEnd .flowMappingEnd
    else if c = ',' then flowEntry
    else if c = '-' && endsWord following then blockEntry
    else if c = '?' && (flow || endsWord following) then keyMark
    else if c = ':' && (flow || endsWord following) then valueMark
    else if c = '*' then do
      let name ← anchorName
      emit (.alias name)
    else if c = '&' then do
      let name ← anchorName
      emit (.anchor name)
    else if c = '!' then tag
    else if c = '|' && !flow then block false
    else if c = '>' && !flow then block true
    else if c = '\'' || c = '"' then quoted c
    else if beginsPlain flow c following then plain
    else reject

end Cut

/-! ## All tokens -/

/-- The tokens that can be told of a text, and what is met behind them if that is not its end. -/
structure Tokens where
  told : List Token
  fault : Option ScanFault
  deriving Repr, Inhabited

/-- The tokens that can be told at a place.  A key may still be put before those that
follow a possible key. -/
def Layout.told (s : Layout) (c : Cursor) : List Token :=
  let open? := s.keys.filterMap fun k => k.filter fun k => !k.isStale c
  let known := (open?.map PossibleKey.place).foldl min s.done.length
  s.done.reverse.take known

/-- The tokens from a place on, at most so many. -/
def Token.scanFrom : Nat → Layout → Cursor → Tokens
  | 0, _, _ => ⟨[], some .malformed⟩
  | fuel + 1, s, c =>
    match Cut.nextToken.run s c with
    | .error fault => ⟨s.told c, some fault⟩
    | .ok (((), s), c) => if s.finished then ⟨s.done.reverse, none⟩ else scanFrom fuel s c

/-- The tokens of a text. -/
def Token.scan (text : List Char) : Tokens :=
  if !text.all isAllowed then ⟨[], some .malformed⟩
  else
    let start := match text with
      | '\uFEFF' :: rest => rest
      | all => all
    scanFrom (start.length + 2) ⟨[], -1, [], true, [none], false⟩ ⟨start, 0, 0, 0⟩

end JavaAtlas.Yaml
