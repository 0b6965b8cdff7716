import JavaAtlas.Text.Digits

/-!
# Options and arguments

The words of a command line are options, which begin with a dash, or arguments.  An
option may be given by any beginning of its long name that no other one shares, and its
value may stand in the same word or in the next one.  Two dashes alone make arguments of
all words behind them.

Main definitions:

- `Shape`: the options and the places for arguments of a command.
- `roleOf`: what a word is.
- `parse`: the values of a command line.
-/

namespace JavaAtlas.CommandLine

/-! ## Shapes -/

/-- An option of a command. -/
structure Opt where
  key : String
  spellings : List String
  /-- The values that it takes.  An option without values asks for help. -/
  accepts : Option (String → Bool)

/-- A place for arguments. -/
inductive Place where
  /-- One argument. -/
  | one (key : String)
  /-- The name of a command out of some, with everything that follows. -/
  | command (names : List String)
  deriving DecidableEq, Repr

/-- The options of a command, and its places for arguments. -/
structure Shape where
  opts : List Opt
  places : List Place

/-- Why a command line is not carried out. -/
inductive Stop where
  /-- Help was asked for. -/
  | help
  | refused
  deriving DecidableEq, Repr

/-! ## Roles of words -/

/-- An option as it stands in a word. -/
structure Use where
  opt : Opt
  spelling : String
  /-- The value that stands in the same word, and whether behind an equals sign. -/
  inWord : Option (List Char × Bool)

/-- What a word is. -/
inductive Role where
  | argument
  /-- The mark that only arguments follow. -/
  | mark
  | option (use : Use)
  | unknownOption

/-- All spellings with their options. -/
def Shape.spellings (s : Shape) : List (String × Opt) :=
  s.opts.flatMap fun o => o.spellings.map fun t => (t, o)

/-- The option of a spelling. -/
def Shape.opt? (s : Shape) (spelling : String) : Option Opt :=
  s.spellings.lookup spelling

/-- The characters before the first equals sign, and those behind it if there is one. -/
def splitValue : List Char → List Char × Option (List Char)
  | [] => ([], none)
  | c :: cs =>
    if c = '=' then ([], some cs)
    else
      let (name, value) := splitValue cs
      (c :: name, value)

/-- Possible uses of a word with two dashes. -/
def Shape.longUses (s : Shape) (word : List Char) : List Use :=
  let (name, value) := splitValue word
  (s.spellings.filter fun t => name.isPrefixOf t.1.toList).map fun t =>
    ⟨t.2, t.1, value.map fun v => (v, true)⟩

/-- Possible uses of a word with one dash. -/
def Shape.shortUses (s : Shape) (word : List Char) : List Use :=
  s.spellings.filterMap fun t =>
    if t.1.toList = word.take 2 then some ⟨t.2, t.1, some (word.drop 2, false)⟩
    else if word.isPrefixOf t.1.toList then some ⟨t.2, t.1, none⟩
    else none

/-- The word is a negative number. -/
def isNegativeNumber (word : List Char) : Bool :=
  match word with
  | '-' :: cs =>
    let whole := cs.takeWhile Text.isDigit
    match cs.drop whole.length with
    | [] => !whole.isEmpty
    | '.' :: fraction => !fraction.isEmpty && fraction.all Text.isDigit
    | _ => false
  | _ => false

/-- What a word is that is no exact spelling. -/
def Shape.roleOfOther (s : Shape) (word : List Char) : Except Stop Role :=
  let uses := match word with
    | '-' :: '-' :: _ => s.longUses word
    | _ => s.shortUses word
  match uses with
  | [use] => .ok (.option use)
  | _ :: _ => .error .refused
  | [] =>
    if isNegativeNumber word || word.contains ' ' then .ok .argument else .ok .unknownOption

/-- What a word is. -/
def Shape.roleOf (s : Shape) (word : String) : Except Stop Role :=
  match word.toList with
  | '-' :: cs =>
    match s.opt? word with
    | some o => .ok (.option ⟨o, word, none⟩)
    | none =>
      if cs.isEmpty then .ok .argument
      else
        let (name, value) := splitValue ('-' :: cs)
        match value, s.opt? (String.ofList name) with
        | some v, some o => .ok (.option ⟨o, String.ofList name, some (v, true)⟩)
        | _, _ => s.roleOfOther ('-' :: cs)
  | _ => .ok .argument

/-- All words with what they are. -/
def Shape.roles (s : Shape) : List String → Except Stop (List (String × Role))
  | [] => .ok []
  | word :: words =>
    if word = "--" then .ok ((word, .mark) :: words.map fun w => (w, .argument))
    else do
      let role ← s.roleOf word
      return (word, role) :: (← s.roles words)

/-! ## Values -/

/-- What was read from a command line. -/
structure Parsed where
  /-- Options and places with their values; the latest one stands first. -/
  values : List (String × String)
  /-- The command with the words that follow its name. -/
  command : Option (String × List String)
  /-- Words that have no meaning. -/
  extras : List String
  deriving Repr

namespace Parsed

/-- Nothing was read. -/
def empty : Parsed := ⟨[], none, []⟩

/-- The value of a key. -/
def value? (p : Parsed) (key : String) : Option String :=
  p.values.lookup key

/-- Adds words that have no meaning. -/
def withExtras (p : Parsed) (words : List String) : Parsed :=
  { p with extras := p.extras ++ words }

end Parsed

/-- The option is used, with its value if it takes one. -/
def take (p : Parsed) (o : Opt) (value : String) : Except Stop Parsed :=
  match o.accepts with
  | none => .error .help
  | some ok =>
    if ok value then .ok { p with values := (o.key, value) :: p.values } else .error .refused

/-- Options asked for help; that is granted once the whole word was read. -/
def granted {α : Type} (helped : Bool) (a : α) : Except Stop α :=
  if helped then .error .help else .ok a

/-- The option of a word is used, with the value in the word or in the next one.  Letters
behind one dash may be several options.  The number bounds the letters. -/
def useOption (s : Shape) (helped : Bool) (p : Parsed) (rest : List (String × Role)) :
    Nat → Use → Except Stop (Parsed × List (String × Role))
  | 0, _ => .error .refused
  | n + 1, use =>
    match use.inWord, use.opt.accepts with
    | none, none => .error .help
    | none, some _ =>
      match rest with
      | (word, .argument) :: rest => do
        granted helped ()
        return (← take p use.opt word, rest)
      | _ => .error .refused
    | some (value, _), some _ => do
      granted helped ()
      return (← take p use.opt (String.ofList value), rest)
    | some (value, behindSign), none =>
      match use.spelling.toList, value with
      | '-' :: c :: _, d :: ds =>
        if c = '-' || behindSign || d = '-' then .error .refused
        else
          match s.opt? (String.ofList ['-', d]) with
          | none => .error .help
          | some o =>
            useOption s true p rest n
              ⟨o, String.ofList ['-', d], match ds with
                | [] => none
                | '=' :: es => some (es, true)
                | es => some (es, false)⟩
      | _, _ => .error .refused

/-- The role is that of an option. -/
def Role.isOption : Role → Bool
  | option _ => true
  | unknownOption => true
  | _ => false

/-- Marks at the front are passed over. -/
def dropMarks : List (String × Role) → List (String × Role)
  | (_, .mark) :: ws => dropMarks ws
  | ws => ws

/-- Fills the next place with what stands at the front, if it fits. -/
def fillPlace? (place : Place) (p : Parsed) (ws : List (String × Role)) :
    Option (Except Stop Parsed × List (String × Role)) :=
  match dropMarks ws with
  | (word, .argument) :: rest =>
    match place with
    | .one key => some (.ok { p with values := (key, word) :: p.values }, dropMarks rest)
    | .command names =>
      match ws.map Prod.fst with
      | name :: words =>
        some (if names.contains name then .ok { p with command := some (name, words) }
          else .error .refused, [])
      | [] => none
  | _ => none

/-- Fills places as long as something fits. -/
def fillPlaces : List Place → Parsed → List (String × Role) →
    Except Stop (List Place × Parsed × List (String × Role))
  | [], p, ws => .ok ([], p, ws)
  | place :: places, p, ws =>
    match fillPlace? place p ws with
    | none => .ok (place :: places, p, ws)
    | some (.error e, _) => .error e
    | some (.ok p, rest) => fillPlaces places p rest

/-- Reads words with their roles.  The number bounds the words. -/
def consume (s : Shape) : Nat → List Place → Parsed → List (String × Role) →
    Except Stop (List Place × Parsed)
  | 0, places, p, ws => .ok (places, p.withExtras (ws.map Prod.fst))
  | n + 1, places, p, ws =>
    if ws.any fun w => w.2.isOption then
      match ws with
      | (_, .option use) :: rest => do
        let letters := (use.inWord.map fun v => v.1.length).getD 0
        let (p, rest) ← useOption s false p rest (letters + 1) use
        consume s n places p rest
      | (word, .unknownOption) :: rest => consume s n places (p.withExtras [word]) rest
      | _ => do
        let (left, p, rest) ← fillPlaces places p ws
        if rest.length < ws.length then consume s n left p rest
        else
          let front := ws.takeWhile fun w => !w.2.isOption
          consume s n left (p.withExtras (front.map Prod.fst)) (ws.drop front.length)
    else do
      let (left, p, rest) ← fillPlaces places p ws
      return (left, p.withExtras (rest.map Prod.fst))

/-- The place must be filled. -/
def Place.isRequired : Place → Bool
  | one _ => true
  | command _ => false

/-- The values of a command line. -/
def parse (s : Shape) (words : List String) : Except Stop Parsed := do
  let ws ← s.roles words
  let (left, p) ← consume s (ws.length + 1) s.places .empty ws
  if left.any Place.isRequired then throw .refused
  return p

end JavaAtlas.CommandLine
