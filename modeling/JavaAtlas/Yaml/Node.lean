import JavaAtlas.Yaml.Token

/-!
# Nodes of a document

The tokens of a document form one node: a scalar, a sequence or a mapping, each
with a tag that says what it means.  Scalars without quotes get their tag by their
form.  An alias stands for the node of its anchor.  Inside a collection its own anchor
stands for the whole of it; nodes are trees, so there the collection is written out
again as deep as anybody looks.

Main definitions:

- `Node`: the nodes.
- `Node.scan`: the node of a text that holds one document or none.
-/

namespace JavaAtlas.Yaml

/-- What a tag means. -/
inductive Tag where
  | null
  | bool
  | int
  | float
  | binary
  | timestamp
  | orderedMap
  | pairs
  | set
  | text
  /-- A text with codes that stand for half of a character. -/
  | brokenText
  | sequence
  | mapping
  /-- Merges other mappings into one. -/
  | merge
  /-- Stands for a default value. -/
  | default
  /-- Stands for the collection that the node is in. -/
  | enclosing
  | unknown
  deriving DecidableEq, Repr, Inhabited

/-- What the standard tags begin with. -/
def standardPrefix : String := "tag:yaml.org,2002:"

/-- The names of the standard tags. -/
def standardTags : List (String × Tag) :=
  [ ("null", .null), ("bool", .bool), ("int", .int), ("float", .float), ("binary", .binary),
    ("timestamp", .timestamp), ("omap", .orderedMap), ("pairs", .pairs), ("set", .set),
    ("str", .text), ("seq", .sequence), ("map", .mapping), ("merge", .merge),
    ("value", .default) ]

/-- The meaning of the full name of a tag. -/
def Tag.ofName (name : String) : Tag :=
  ((standardTags.find? fun t => standardPrefix ++ t.1 == name).map Prod.snd).getD .unknown

/-! ## Forms of plain scalars -/

namespace Form

/-- The rest behind one character of a class. -/
def one (p : Char → Bool) : List Char → Option (List Char)
  | c :: cs => if p c then some cs else none
  | [] => none

/-- An optional sign. -/
def unsigned : List Char → List Char
  | '+' :: cs => cs
  | '-' :: cs => cs
  | cs => cs

/-- A digit or an underscore. -/
def isDigitOrGap (c : Char) : Bool := c.isDigit || c == '_'

/-- A hexadecimal digit or an underscore. -/
def isHexOrGap (c : Char) : Bool := (hexValue? c).isSome || c == '_'

/-- At least one character, all of a class. -/
def someOf (p : Char → Bool) (cs : List Char) : Bool :=
  !cs.isEmpty && cs.all p

/-- Groups of one or two digits up to 59, each behind a colon, and what follows. -/
def sixties : Nat → List Char → List Char
  | 0, cs => cs
  | fuel + 1, cs =>
    match cs with
    | ':' :: a :: b :: rest =>
      if '0' ≤ a && a ≤ '5' && b.isDigit then sixties fuel rest
      else if a.isDigit then sixties fuel (b :: rest)
      else cs
    | [':', a] => if a.isDigit then [] else cs
    | _ => cs

/-- Digits and underscores after a first digit, then groups behind colons; gives what
follows if there is a group. -/
def sexagesimal (first : Char → Bool) (cs : List Char) : Option (List Char) :=
  match cs with
  | c :: rest =>
    if first c then
      let after := rest.dropWhile isDigitOrGap
      let left := sixties after.length after
      if left.length < after.length then some left else none
    else none
  | [] => none

/-- A decimal digit but zero. -/
def isPositiveDigit (c : Char) : Bool := '1' ≤ c && c ≤ '9'

/-- The form of an integer. -/
def isInt (cs : List Char) : Bool :=
  match unsigned cs with
  | '0' :: 'b' :: ds => someOf (fun c => c == '0' || c == '1' || c == '_') ds
  | '0' :: 'x' :: ds => someOf isHexOrGap ds
  | ['0'] => true
  | '0' :: ds => someOf (fun c => ('0' ≤ c && c ≤ '7') || c == '_') ds
  | d :: ds =>
    isPositiveDigit d &&
      (ds.all isDigitOrGap || sexagesimal isPositiveDigit (d :: ds) == some [])
  | [] => false

/-- An optional exponent, which needs a sign. -/
def isExponent : List Char → Bool
  | [] => true
  | e :: s :: ds => (e == 'e' || e == 'E') && (s == '+' || s == '-') && someOf Char.isDigit ds
  | _ => false

/-- The form of a number with a point. -/
def isFloat (cs : List Char) : Bool :=
  let body := unsigned cs
  let signed := body.length < cs.length
  let word := String.ofList body
  if word == ".inf" || word == ".Inf" || word == ".INF" then true
  else if !signed && (word == ".nan" || word == ".NaN" || word == ".NAN") then true
  else
    match body with
    | '.' :: d :: ds => !signed && d.isDigit && isExponent (ds.dropWhile isDigitOrGap)
    | d :: ds =>
      if d.isDigit then
        match ds.dropWhile isDigitOrGap with
        | '.' :: rest => isExponent (rest.dropWhile isDigitOrGap)
        | _ =>
          match sexagesimal Char.isDigit body with
          | some ('.' :: rest) => rest.all isDigitOrGap
          | _ => false
      else false
    | [] => false

/-- The form of a truth value. -/
def isBool (s : String) : Bool :=
  [ "yes", "Yes", "YES", "no", "No", "NO", "true", "True", "TRUE", "false", "False", "FALSE",
    "on", "On", "ON", "off", "Off", "OFF" ].contains s

/-- The form of nothing. -/
def isNull (s : String) : Bool :=
  ["~", "null", "Null", "NULL", ""].contains s

/-- Exactly so many digits; gives their value and what follows. -/
def digits (n : Nat) (cs : List Char) : Option (Nat × List Char) :=
  let ds := cs.take n
  if ds.length = n && ds.all Char.isDigit then
    some (ds.foldl (fun v c => v * 10 + (c.toNat - 48)) 0, cs.drop n)
  else none

/-- One or two digits; gives their value and what follows. -/
def oneOrTwo (cs : List Char) : Option (Nat × List Char) :=
  (digits 2 cs).or (digits 1 cs)

end Form

/-- A date with a time, if there is one. -/
structure Moment where
  year : Nat
  month : Nat
  day : Nat
  /-- Hour, minute and second. -/
  time : Option (Nat × Nat × Nat)
  /-- Minutes by which the time zone lies off. -/
  offset : Int
  deriving DecidableEq, Repr, Inhabited

namespace Form

/-- Minutes of the time zone at the end of a moment. -/
def zone? (cs : List Char) : Option Int :=
  match cs.dropWhile fun c => c == ' ' || c == '\t' with
  | [] => if cs.isEmpty then some 0 else none
  | ['Z'] => some 0
  | s :: rest =>
    if s == '+' || s == '-' then
      (minutes? rest).map fun m => if s == '-' then -(m : Int) else (m : Int)
    else none
where
  /-- Minutes of hours, or of hours and minutes. -/
  minutes? (cs : List Char) : Option Nat :=
    match oneOrTwo cs with
    | none => none
    | some (hours, []) => some (hours * 60)
    | some (hours, ':' :: rest) =>
      match digits 2 rest with
      | some (minutes, []) => some (hours * 60 + minutes)
      | _ => none
    | some _ => none

/-- The time of a moment, from the hour on, and minutes of its time zone. -/
def time? (cs : List Char) : Option ((Nat × Nat × Nat) × Int) := do
  let (hour, cs) ← oneOrTwo cs
  let cs ← one (· == ':') cs
  let (minute, cs) ← digits 2 cs
  let cs ← one (· == ':') cs
  let (second, cs) ← digits 2 cs
  let zone := match cs with
    | '.' :: rest => rest.dropWhile Char.isDigit
    | _ => cs
  return ((hour, minute, second), ← zone? zone)

/-- A moment: a date alone with all its digits, or a date and a time. -/
def moment? (cs : List Char) : Option Moment := do
  let (year, rest) ← digits 4 cs
  let rest ← one (· == '-') rest
  match digits 2 rest with
  | some (month, '-' :: days) =>
    match digits 2 days with
    | some (day, []) => return ⟨year, month, day, none, 0⟩
    | _ => timed year rest
  | _ => timed year rest
where
  /-- A date behind its year, with a time. -/
  timed (year : Nat) (rest : List Char) : Option Moment := do
    let (month, rest) ← oneOrTwo rest
    let rest ← one (· == '-') rest
    let (day, rest) ← oneOrTwo rest
    let isGap (c : Char) := c == ' ' || c == '\t'
    let clock ← match rest with
      | 'T' :: cs => some cs
      | 't' :: cs => some cs
      | c :: cs => if isGap c then some (cs.dropWhile isGap) else none
      | [] => none
    let (time, offset) ← time? clock
    return ⟨year, month, day, some time, offset⟩

end Form

/-- The tag of a plain scalar. -/
def Tag.ofPlain (text : String) : Tag :=
  let cs := text.toList
  if Form.isNull text then .null
  else if Form.isBool text then .bool
  else if Form.isFloat cs then .float
  else if Form.isInt cs then .int
  else if text = "<<" then .merge
  else if (Form.moment? cs).isSome then .timestamp
  else if text = "=" then .default
  else .text

/-! ## Nodes -/

/-- A scalar, a sequence or a mapping. -/
inductive Node where
  | scalar (tag : Tag) (text : String)
  | sequence (tag : Tag) (items : List Node)
  | mapping (tag : Tag) (pairs : List (Node × Node))
  deriving Repr, Inhabited

/-- The scalar that stands where nothing is written. -/
def Node.nothing : Node := .scalar .null ""

namespace Node

mutual

/-- The node with another one in all places that stand for the named collection. -/
def replaced (name : String) (whole : Node) : Node → Node
  | scalar tag text => if tag = .enclosing ∧ text = name then whole else scalar tag text
  | sequence tag items => sequence tag (replacedItems name whole items)
  | mapping tag pairs => mapping tag (replacedPairs name whole pairs)

/-- Items with another node in all places that stand for the named collection. -/
def replacedItems (name : String) (whole : Node) : List Node → List Node
  | [] => []
  | n :: ns => replaced name whole n :: replacedItems name whole ns

/-- Pairs with another node in all places that stand for the named collection. -/
def replacedPairs (name : String) (whole : Node) : List (Node × Node) → List (Node × Node)
  | [] => []
  | p :: ps =>
    (replaced name whole p.1, replaced name whole p.2) :: replacedPairs name whole ps

end

/-- The collection without what is in it. -/
def emptied : Node → Node
  | scalar tag text => scalar tag text
  | sequence tag _ => sequence tag []
  | mapping tag _ => mapping tag []

/-- How often a collection is written out inside itself.  Settings stand in sections of
the document, and the deepest are items of lists. -/
def depth : Nat := 4

/-- The named collection, written out in the places that stand for it. -/
def closed (name : String) (n : Node) : Node :=
  Nat.repeat (fun whole => replaced name whole n) depth n.emptied

end Node

/-- What is known while nodes are read. -/
structure Reading where
  tokens : List Token
  /-- What is met behind the tokens. -/
  fault : Option ScanFault
  anchors : List (String × Node)
  /-- The anchors of collections that stand inside themselves. -/
  recurring : List String
  /-- The handles of tags and what they stand for. -/
  handles : List (String × String)
  deriving Repr, Inhabited

/-- A step that reads nodes and may fail. -/
abbrev Read := StateT Reading (Except ScanFault)

namespace Read

/-- Fails for the given reason. -/
def fail {α : Type} (fault : ScanFault) : Read α :=
  fun _ => .error fault

/-- Fails, as the rules of the format are broken. -/
def reject {α : Type} : Read α :=
  fail .malformed

/-- Goes on only if the condition holds. -/
def require (condition : Bool) : Read Unit :=
  if condition then pure () else reject

/-- The next token. -/
def peek : Read Token := do
  let s ← get
  match s.tokens, s.fault with
  | t :: _, _ => return t
  | [], some fault => fail fault
  | [], none => return .streamEnd

/-- Passes over the next token. -/
def advance : Read Unit :=
  modify fun s => { s with tokens := s.tokens.tail }

/-- Anchor and tag before a node, in either order. -/
structure Properties where
  anchor : Option String
  tag : Option TagName

/-- Reads an anchor, if one is next. -/
def anchor? : Read (Option String) := do
  match ← peek with
  | .anchor name => advance; return some name
  | _ => return none

/-- Reads a tag, if one is next. -/
def tag? : Read (Option TagName) := do
  match ← peek with
  | .tag name => advance; return some name
  | _ => return none

/-- Reads the properties of a node. -/
def properties : Read Properties := do
  match ← anchor? with
  | some a => return ⟨some a, ← tag?⟩
  | none =>
    match ← tag? with
    | some t => return ⟨← anchor?, some t⟩
    | none => return ⟨none, none⟩

/-- The full name of a tag. -/
def fullName (t : TagName) : Read String := do
  match t.handle with
  | none => return t.suffix
  | some h =>
    match (← get).handles.lookup h with
    | none => reject
    | some start => return start ++ t.suffix

/-- The tag that says nothing. -/
def isOpen (name : Option String) : Bool :=
  name == none || name == some "!"

/-- The tag of a scalar. -/
def scalarTag (name : Option String) (text : String) (isPlain isWhole : Bool) : Tag :=
  let tag : Tag :=
    match name with
    | some "!" => .ofPlain text
    | some n => .ofName n
    | none => if isPlain then .ofPlain text else .text
  if tag = .text && !isWhole then .brokenText else tag

/-- The tag of a collection. -/
def collectionTag (name : Option String) (usual : Tag) : Tag :=
  match name with
  | some "!" => usual
  | some n => .ofName n
  | none => usual

/-- Notes that the node of an anchor has begun. -/
def enter (anchor : Option String) : Read Unit :=
  match anchor with
  | none => pure ()
  | some a => modify fun s => { s with anchors := (a, .scalar .enclosing a) :: s.anchors }

/-- Notes the node of an anchor.  If the node stands inside itself, those that are known by
now may hold it as well. -/
def leave (anchor : Option String) (n : Node) : Read Node := do
  match anchor with
  | none => return n
  | some a =>
    if (← get).recurring.contains a then
      let whole := n.closed a
      modify fun s => { s with
        anchors := (a, whole) :: s.anchors.map fun b => (b.1, Node.replaced a whole b.2) }
      return whole
    else
      modify fun s => { s with anchors := (a, n) :: s.anchors }
      return n

/-- The node of an alias. -/
def aliased (name : String) : Read Node := do
  match (← get).anchors.lookup name with
  | none => reject
  | some n =>
    if let .scalar .enclosing a := n then
      modify fun s => { s with recurring := a :: s.recurring }
    return n

/-- The next token is one of those. -/
def isNext (ts : List Token) : Read Bool :=
  return ts.contains (← peek)

/-- What a node begins with. -/
inductive Opening where
  | entries
  | text (text : String) (isPlain isWhole : Bool)
  | flowSequence
  | flowMapping
  | blockSequence
  | blockMapping
  | nothing

/-- What begins with a token.  Blocks begin only where they may stand. -/
def opening (block indentless : Bool) : Token → Opening
  | .blockEntry => if indentless then .entries else .nothing
  | .scalar text isPlain isWhole => .text text isPlain isWhole
  | .flowSequenceStart => .flowSequence
  | .flowMappingStart => .flowMapping
  | .sequenceStart => if block then .blockSequence else .nothing
  | .mappingStart => if block then .blockMapping else .nothing
  | _ => .nothing

mutual

/-- A node.  Outside brackets it may be a block; behind a key a sequence may stand
without indentation. -/
def node : Nat → Bool → Bool → Read Node
  | 0, _, _ => reject
  | fuel + 1, block, indentless => do
    match ← peek with
    | .alias name => advance; aliased name
    | _ =>
      let p ← properties
      let name ← match p.tag with
        | none => pure none
        | some t => some <$> fullName t
      -- what the node begins with is looked at before its anchor is checked
      let first := opening block indentless (← peek)
      match p.anchor with
      | some a => require (!((← get).anchors.lookup a).isSome)
      | none => pure ()
      let sequenceTag := collectionTag name .sequence
      let mappingTag := collectionTag name .mapping
      let done ← match first with
        | .entries =>
          enter p.anchor
          Node.sequence sequenceTag <$> indentlessEntries fuel
        | .text text isPlain isWhole =>
          advance
          pure (.scalar (scalarTag name text isPlain isWhole) text)
        | .flowSequence =>
          advance
          enter p.anchor
          Node.sequence sequenceTag <$> flowEntries fuel true
        | .flowMapping =>
          advance
          enter p.anchor
          Node.mapping mappingTag <$> flowPairs fuel true
        | .blockSequence =>
          advance
          enter p.anchor
          Node.sequence sequenceTag <$> blockEntries fuel
        | .blockMapping =>
          advance
          enter p.anchor
          Node.mapping mappingTag <$> blockPairs fuel
        | .nothing =>
          require (p.anchor.isSome || p.tag.isSome)
          pure (.scalar (scalarTag name "" (isOpen name) true) "")
      leave p.anchor done

/-- A node, or nothing where one of the tokens follows. -/
def nodeUnless : Nat → List Token → Bool → Bool → Read Node
  | 0, _, _, _ => reject
  | fuel + 1, ends, block, indentless => do
    if ← isNext ends then return .nothing else node fuel block indentless

/-- Entries of a block sequence and its end. -/
def blockEntries : Nat → Read (List Node)
  | 0 => reject
  | fuel + 1 => do
    if ← isNext [.blockEntry] then
      advance
      let n ← nodeUnless fuel [.blockEntry, .blockEnd] true false
      return n :: (← blockEntries fuel)
    else
      require (← isNext [.blockEnd])
      advance
      return []

/-- Entries of a sequence without indentation. -/
def indentlessEntries : Nat → Read (List Node)
  | 0 => reject
  | fuel + 1 => do
    if ← isNext [.blockEntry] then
      advance
      let n ← nodeUnless fuel [.blockEntry, .key, .value, .blockEnd] true false
      return n :: (← indentlessEntries fuel)
    else return []

/-- Pairs of a block mapping and its end. -/
def blockPairs : Nat → Read (List (Node × Node))
  | 0 => reject
  | fuel + 1 => do
    if ← isNext [.key] then
      advance
      let k ← nodeUnless fuel [.key, .value, .blockEnd] true true
      let v ←
        if ← isNext [.value] then do
          advance
          nodeUnless fuel [.key, .value, .blockEnd] true true
        else pure .nothing
      return (k, v) :: (← blockPairs fuel)
    else
      require (← isNext [.blockEnd])
      advance
      return []

/-- Entries of a sequence in brackets and its end.  A pair may stand as an entry. -/
def flowEntries : Nat → Bool → Read (List Node)
  | 0, _ => reject
  | fuel + 1, first => do
    if ← isNext [.flowSequenceEnd] then
      advance
      return []
    else
      if !first then
        require (← isNext [.flowEntry])
        advance
      if ← isNext [.flowSequenceEnd] then
        advance
        return []
      else
        let n ←
          if ← isNext [.key] then do
            advance
            let k ← nodeUnless fuel [.value, .flowEntry, .flowSequenceEnd] false false
            let v ←
              if ← isNext [.value] then do
                advance
                nodeUnless fuel [.flowEntry, .flowSequenceEnd] false false
              else pure .nothing
            pure (.mapping .mapping [(k, v)])
          else node fuel false false
        return n :: (← flowEntries fuel false)

/-- Pairs of a mapping in brackets and its end. -/
def flowPairs : Nat → Bool → Read (List (Node × Node))
  | 0, _ => reject
  | fuel + 1, first => do
    if ← isNext [.flowMappingEnd] then
      advance
      return []
    else
      if !first then
        require (← isNext [.flowEntry])
        advance
      if ← isNext [.flowMappingEnd] then
        advance
        return []
      else
        let pair ←
          if ← isNext [.key] then do
            advance
            let k ← nodeUnless fuel [.value, .flowEntry, .flowMappingEnd] false false
            let v ←
              if ← isNext [.value] then do
                advance
                nodeUnless fuel [.flowEntry, .flowMappingEnd] false false
              else pure .nothing
            pure (k, v)
          else do
            let k ← node fuel false false
            pure (k, .nothing)
        return pair :: (← flowPairs fuel false)

end

/-! ## Documents -/

/-- The handles that need no directive. -/
def usualHandles : List (String × String) :=
  [("!", "!"), ("!!", standardPrefix)]

/-- Directives before a document: at most one version, which must be known, and each
handle once. -/
def directives : Nat → Bool → List (String × String) → Read (List (String × String))
  | 0, _, _ => reject
  | fuel + 1, versioned, handles => do
    match ← peek with
    | .version major =>
      require (!versioned && major == 1)
      advance
      directives fuel true handles
    | .tagDirective handle start =>
      require (!(handles.lookup handle).isSome)
      advance
      directives fuel versioned ((handle, start) :: handles)
    | .otherDirective => advance; directives fuel versioned handles
    | _ => return handles

/-- Passes over marks that end a document. -/
def skipEnds : Nat → Read Unit
  | 0 => return
  | fuel + 1 => do
    if ← isNext [.documentEnd] then
      advance
      skipEnds fuel

/-- A directive or the mark that begins a document. -/
def beginsExplicitly : Token → Bool
  | .version _ => true
  | .otherDirective => true
  | .tagDirective _ _ => true
  | .documentStart => true
  | _ => false

/-- The document of a stream that holds one, or none. -/
def stream (fuel : Nat) : Read (Option Node) := do
  let t ← peek
  if t = .streamEnd then return none
  let root ←
    if beginsExplicitly t then do
      let handles ← directives fuel false []
      modify fun s => { s with handles := handles ++ usualHandles }
      require (← isNext [.documentStart])
      advance
      let t ← peek
      if beginsExplicitly t || t = .documentEnd || t = .streamEnd then pure .nothing
      else node fuel true false
    else node fuel true false
  skipEnds fuel
  require (← isNext [.streamEnd])
  return some root

end Read

/-- The node of a text that holds one document or none. -/
def Node.scan (text : List Char) : Except ScanFault (Option Node) :=
  let ts := Token.scan text
  Prod.fst <$>
    (Read.stream (3 * ts.told.length + 3)).run ⟨ts.told, ts.fault, [], [], Read.usualHandles⟩

end JavaAtlas.Yaml
