import JavaAtlas.Java.Tree

/-!
# Rules and their evaluation

A grammar is a table of rules, one for every symbol.  A rule is data; one
function, `run`, reads tokens by it and builds the trees.  Reading is
predictive: of two alternatives the second one is tried only where the first
one takes no token, unless the first one is an attempt.

Main definitions:

- `Rule`, `Terminal`: the language of rules.
- `run`: evaluation of a rule against tokens.
- `parse`: evaluation of a whole text by the rule of a start symbol.
-/

namespace JavaAtlas.Java

/-- What a rule asks of one token. -/
inductive Terminal where
  /-- A word with this spelling. -/
  | word (spelling : String)
  /-- A word that is none of the reserved ones. -/
  | name (reserved : List String)
  | mark (spelling : String)
  /-- A mark or word that touches the token before it. -/
  | touching (spelling : String)
  | shape (s : Shape)
  /-- Any token that is none of these marks and words. -/
  | other (spellings : List String)
  deriving DecidableEq, Repr

/-- The token is what the terminal asks for. -/
def Terminal.accepts (t : Token) : Terminal → Bool
  | .word w => t.shape == .word && t.text == w
  | .name reserved => t.shape == .word && !reserved.contains t.text
  | .mark m => t.shape == .mark && t.text == m
  | .touching m => (t.shape == .mark || t.shape == .word) && t.text == m && t.touching
  | .shape s => t.shape == s
  | .other spellings =>
    match t.shape with
    | .mark => !spellings.contains t.text
    | .word => !spellings.contains t.text
    | .stray => false
    | _ => true

/-- A rule over symbols of type `σ`. -/
inductive Rule (σ : Type) where
  /-- Takes nothing. -/
  | nothing
  /-- Takes one token. -/
  | token (t : Terminal)
  | both (a b : Rule σ)
  | either (a b : Rule σ)
  /-- As often as possible. -/
  | many (a : Rule σ)
  /-- Wraps the trees of a rule into a node. -/
  | node (k : Kind) (a : Rule σ)
  | symbol (s : σ)
  /-- Takes nothing when the rule fails half-way. -/
  | attempt (a : Rule σ)
  /-- Takes nothing, and goes on only where the rule would succeed. -/
  | ahead (a : Rule σ)
  /-- Takes nothing, and goes on only where the rule would fail. -/
  | notAhead (a : Rule σ)
  deriving DecidableEq, Repr

namespace Rule

variable {σ : Type}

instance : AndThen (Rule σ) := ⟨fun a b => .both a (b ())⟩

instance : OrElse (Rule σ) := ⟨fun a b => .either a (b ())⟩

/-- The rule or nothing. -/
def maybe (a : Rule σ) : Rule σ :=
  a <|> nothing

/-- At least once, and as often as possible. -/
def some1 (a : Rule σ) : Rule σ :=
  a >> many a

/-- At least once, with a separator between. -/
def separated (a sep : Rule σ) : Rule σ :=
  a >> many (sep >> a)

/-- The first alternative that begins with the next token. -/
def oneOf : List (Rule σ) → Rule σ
  | [] => notAhead nothing
  | [a] => a
  | a :: as => a <|> oneOf as

/-- The rule where the condition holds. -/
def onlyIf (condition a : Rule σ) : Rule σ :=
  ahead condition >> a

end Rule

/-! ## Evaluation -/

/-- Where reading stopped. -/
structure Fault where
  /-- The tokens from the unexpected one on. -/
  rest : List Token
  /-- The terminal that was asked for in its place. -/
  wanted : Option Terminal
  /-- First token of the innermost node that was being read. -/
  opened : Option Token
  deriving Repr

/-- What a rule makes of the tokens. -/
inductive Outcome where
  /-- The trees built so far, last one first, and the tokens that are left.
  The flag says whether a token was taken. -/
  | matched (moved : Bool) (built : List Tree) (rest : List Token)
  /-- No token was taken and the rule does not apply. -/
  | declined (fault : Fault)
  /-- Tokens were taken and the rule could not be completed. -/
  | broken (fault : Fault)
  deriving Repr

namespace Outcome

/-- A rule that does not apply, after tokens were taken or not. -/
def refused (moved : Bool) (f : Fault) : Outcome :=
  if moved then .broken f else .declined f

/-- Names the node that was being read, unless an inner one is named already. -/
def within (ts : List Token) : Outcome → Outcome
  | .broken f => .broken { f with opened := f.opened <|> ts.head? }
  | o => o

end Outcome

/-- Evaluates a rule with the table `g` of symbols.  `moved` says whether the
rule around it has taken a token, and `built` holds the trees before it.  The
number bounds the depth of the evaluation. -/
def run {σ : Type} (g : σ → Rule σ) :
    Nat → Rule σ → Bool → List Tree → List Token → Outcome
  | 0, _, _, _, ts => .broken ⟨ts, none, none⟩
  | _ + 1, .nothing, moved, built, ts => .matched moved built ts
  | _ + 1, .token t, moved, built, ts =>
    match ts with
    | [] => Outcome.refused moved ⟨[], some t, none⟩
    | tok :: rest =>
      if t.accepts tok then .matched true (.leaf tok :: built) rest
      else Outcome.refused moved ⟨ts, some t, none⟩
  | n + 1, .both a b, moved, built, ts =>
    match run g n a moved built ts with
    | .matched moved' built' rest => run g n b moved' built' rest
    | o => o
  | n + 1, .either a b, moved, built, ts =>
    match run g n a false built ts with
    | .matched moved' built' rest => .matched (moved || moved') built' rest
    | .broken f => .broken f
    | .declined _ => run g n b moved built ts
  | n + 1, .many a, moved, built, ts =>
    match run g n a false built ts with
    | .matched true built' rest => run g n (.many a) true built' rest
    | .matched false _ _ => .matched moved built ts
    | .broken f => .broken f
    | .declined _ => .matched moved built ts
  | n + 1, .node k a, moved, built, ts =>
    match run g n a moved [] ts with
    | .matched moved' inside rest => .matched moved' (.node k inside.reverse :: built) rest
    | o => o.within ts
  | n + 1, .symbol s, moved, built, ts => run g n (g s) moved built ts
  | n + 1, .attempt a, moved, built, ts =>
    match run g n a false built ts with
    | .matched moved' built' rest => .matched (moved || moved') built' rest
    | .broken f => Outcome.refused moved f
    | .declined f => Outcome.refused moved f
  | n + 1, .ahead a, moved, built, ts =>
    match run g n a false [] ts with
    | .matched _ _ _ => .matched moved built ts
    | _ => Outcome.refused moved ⟨ts, none, none⟩
  | n + 1, .notAhead a, moved, built, ts =>
    match run g n a false [] ts with
    | .matched _ _ _ => Outcome.refused moved ⟨ts, none, none⟩
    | _ => .matched moved built ts

/-- Depth that suffices for so many tokens. -/
def depthFor (tokens : Nat) : Nat :=
  1000 * (tokens + 2)

/-- Reads all tokens as one node of the given kind. -/
def parse {σ : Type} (g : σ → Rule σ) (kind : Kind) (start : σ) (ts : List Token) :
    Except Fault Tree :=
  match run g (depthFor ts.length) (.symbol start) false [] ts with
  | .matched _ built [] => .ok (.node kind built.reverse)
  | .matched _ _ rest => .error ⟨rest, none, none⟩
  | .declined f => .error f
  | .broken f => .error f

end JavaAtlas.Java
