import JavaAtlas.Java.Extraction
import JavaAtlas.Java.Reading
import JavaAtlas.Proofs.Java.Derivation
import JavaAtlas.Proofs.Java.Spelling

/-!
# Shapes of parsed trees

In the tree of a source text that was read completely, every node of a kind was
derived by the rule for that kind, and every leaf is a token of the text.  So the
children of the nodes that declarations are taken from are known well enough to
say that names are words.

Main results:

- Theorem `every_isShaped_of_read`: the nodes of a parsed tree have the shape of
  their rules, and their words are spelled.
- Theorem `namedBehind_of_derives`: the name of a type follows its keyword.
- Theorem `IsShaped.beginsWithWord`: the first word of a node is a word of the
  text, for the kinds whose rule begins with one.
-/

namespace JavaAtlas.Java

open JavaAtlas.Java.Tree JavaAtlas.Text

/-! ## Tokens of a tree -/

theorem mem_tokensOfAll {tok : Token} {ts : List Tree} :
    tok ∈ tokensOfAll ts ↔ ∃ t ∈ ts, tok ∈ t.tokens := by
  induction ts with
  | nil => simp [tokensOfAll]
  | cons t ts ih => simp [tokensOfAll, ih]

/-- What holds of all tokens of a tree holds of the leaves below each of its nodes. -/
theorem every_leaf_of_tokens {p : Token → Prop} :
    ∀ t : Tree, (∀ tok ∈ t.tokens, p tok) →
      t.Every fun _ cs => ∀ tok, .leaf tok ∈ cs → p tok
  | .leaf tok, _ => .leaf tok
  | .node k cs, h => by
      have hcs : ∀ c ∈ cs, ∀ tok ∈ c.tokens, p tok := fun c hc tok htok =>
        h tok (mem_tokensOfAll.mpr ⟨c, hc, htok⟩)
      refine .node (fun tok hmem => ?_) fun c hc => every_leaf_of_tokens c (hcs c hc)
      exact hcs _ hmem tok (by simp [tokens])

theorem Tree.Every.and {p q : Kind → List Tree → Prop} {t : Tree} (hp : t.Every p)
    (hq : t.Every q) : t.Every fun k cs => p k cs ∧ q k cs := by
  induction hp with
  | leaf tok => exact .leaf tok
  | node h _ ih => exact .node ⟨h, hq.here⟩ fun c hc => ih c hc (hq.children c hc)

/-! ## Rules for kinds -/

/-- What the node rules of the grammar establish holds of every node of a parsed tree. -/
theorem every_of_read {source : String} {root : Tree} {p : Kind → List Tree → Prop}
    (h : read source = .ok root) (hprogram : ∀ xs, p .program xs)
    (hnodes : ∀ s, ∀ n ∈ (Grammar.table s).nodes, ∀ xs, Derives Grammar.table n.2 xs → p n.1 xs) :
    root.Every p := by
  unfold read at h
  dsimp only at h
  split at h
  case h_2 => cases h
  case h_1 t hparse =>
    cases h
    obtain ⟨xs, rfl, hxs, -⟩ := derives_of_parse hparse
    exact .node (hprogram xs) (every_of_derives hnodes hxs (by simp [Rule.nodes]))

/-- A parsed tree has the tokens of the text. -/
theorem tokens_of_read {source : String} {root : Tree} (h : read source = .ok root) :
    root.tokens = scan source := by
  unfold read at h
  dsimp only at h
  split at h
  case h_2 => cases h
  case h_1 t hparse =>
    cases h
    obtain ⟨xs, rfl, -, htokens⟩ := derives_of_parse hparse
    rw [tokens, ← htokens]

namespace Grammar

/-- The only rule that builds nodes of the kind, for the kinds whose children carry
names. -/
def ruleOf? : Kind → Option Part
  | .classDeclaration => some classDeclaration
  | .interfaceDeclaration => some interfaceDeclaration
  | .variableDeclarator => some (table .variableDeclarator)
  | .methodDeclaration => some methodDeclaration
  | .formalParameter => some formalParameter
  | _ => none

/-- All rules of the grammar that build nodes of such a kind are that rule. -/
private theorem ruleOf?_eq_of_mem_nodes (s : Symbol) :
    ∀ n ∈ (table s).nodes, ∀ r, ruleOf? n.1 = some r → r = .node n.1 n.2 := by
  cases s <;> decide +kernel

end Grammar

/-- A node has the shape of the rule for its kind, and its words are spelled. -/
def IsShaped (k : Kind) (cs : List Tree) : Prop :=
  (∀ r, Grammar.ruleOf? k = some r → Derives Grammar.table r [.node k cs]) ∧
    ∀ tok, .leaf tok ∈ cs → tok.IsSpelled

/-- The nodes of a parsed tree have the shape of their rules. -/
theorem every_isShaped_of_read {source : String} {root : Tree} (h : read source = .ok root) :
    root.Every IsShaped := by
  have hrules : root.Every fun k cs =>
      ∀ r, Grammar.ruleOf? k = some r → Derives Grammar.table r [.node k cs] := by
    refine every_of_read h (by simp [Grammar.ruleOf?]) fun s n hn ys hys r hr => ?_
    rw [Grammar.ruleOf?_eq_of_mem_nodes s n hn r hr]
    exact .node n.1 hys
  refine hrules.and (every_leaf_of_tokens _ fun tok htok => ?_)
  rw [tokens_of_read h] at htok
  exact isContinue_of_mem_scan htok

/-- Visiting meets only what stands in the trees of the stack. -/
theorem every_of_mem_visit {p : Kind → List Tree → Prop} {n : Nat} {stack : List Tree}
    (h : ∀ t ∈ stack, t.Every p) : ∀ t ∈ visit n stack, t.Every p := by
  induction n generalizing stack with
  | zero => simp [visit]
  | succ n ih =>
      cases stack with
      | nil => simp [visit]
      | cons t stack =>
          have ht := h t List.mem_cons_self
          have hrest : ∀ s ∈ t.children ++ stack, s.Every p :=
            List.forall_mem_append.mpr
              ⟨ht.children, fun s hs => h s (List.mem_cons_of_mem t hs)⟩
          intro s hs
          simp only [visit] at hs
          split at hs
          · rcases List.mem_cons.mp hs with rfl | hs
            · exact ht
            · exact ih hrest s hs
          · exact ih hrest s hs

/-- Visiting collects nodes that declare a type. -/
theorem isTypeNode_of_mem_visit {n : Nat} {stack : List Tree} {t : Tree}
    (h : t ∈ visit n stack) : isTypeNode t = true := by
  induction n generalizing stack with
  | zero => cases h
  | succ n ih =>
      cases stack with
      | nil => cases h
      | cons s stack =>
          simp only [visit] at h
          split at h
          case isTrue hs =>
            rcases List.mem_cons.mp h with rfl | h
            · exact hs
            · exact ih h
          case isFalse => exact ih h

theorem every_of_mem_typeDeclarationNodes {p : Kind → List Tree → Prop} {root : Tree}
    (h : root.Every p) : ∀ t ∈ typeDeclarationNodes root, t.Every p :=
  every_of_mem_visit h.children

theorem Tree.Every.of_child? {p : Kind → List Tree → Prop} {t c : Tree} {k : Kind}
    (h : t.Every p) (hc : t.child? k = some c) : c.Every p :=
  h.children c (List.mem_of_find?_eq_some hc)

/-! ## Names among the children -/

/-- A tree that is no leaf. -/
def Tree.IsInner (t : Tree) : Prop :=
  ∃ k cs, t = .node k cs

/-- The children are nodes up to a word, which is the first leaf. -/
structure LedByWord (cs : List Tree) (tok : Token) : Prop where
  isWord : tok.shape = .word
  behind : ∃ ns rest, cs = ns ++ .leaf tok :: rest ∧ ∀ n ∈ ns, n.IsInner

/-- The children are nodes up to the keyword, and a word follows it. -/
structure NamedBehind (keyword : String) (cs : List Tree) (tok : Token) : Prop where
  isWord : tok.shape = .word
  behind : ∃ ns key rest, cs = ns ++ .leaf key :: .leaf tok :: rest ∧ key.text = keyword ∧
    ∀ n ∈ ns, n.IsInner

theorem LedByWord.mem {cs : List Tree} {tok : Token} (h : LedByWord cs tok) :
    .leaf tok ∈ cs := by
  obtain ⟨ns, rest, rfl, -⟩ := h.behind
  simp

theorem NamedBehind.mem {keyword : String} {cs : List Tree} {tok : Token}
    (h : NamedBehind keyword cs tok) : .leaf tok ∈ cs := by
  obtain ⟨ns, key, rest, rfl, -, -⟩ := h.behind
  simp

private theorem firstWord?_append {k : Kind} {ns rest : List Tree} {tok : Token}
    (hns : ∀ n ∈ ns, n.IsInner) :
    firstWord? (.node k (ns ++ .leaf tok :: rest)) = some tok.text := by
  induction ns with
  | nil => rfl
  | cons n ns ih =>
      obtain ⟨k', xs, rfl⟩ := hns n List.mem_cons_self
      exact ih fun m hm => hns m (List.mem_cons_of_mem _ hm)

theorem LedByWord.firstWord? {k : Kind} {cs : List Tree} {tok : Token} (h : LedByWord cs tok) :
    firstWord? (.node k cs) = some tok.text := by
  obtain ⟨ns, rest, rfl, hns⟩ := h.behind
  exact firstWord?_append hns

private theorem wordAfter?_append {keyword : String} {k : Kind} {ns rest : List Tree}
    {key tok : Token} (hkey : key.text = keyword) (hns : ∀ n ∈ ns, n.IsInner) :
    wordAfter? keyword (.node k (ns ++ .leaf key :: .leaf tok :: rest)) = some tok.text := by
  induction ns with
  | nil => simp [wordAfter?, children, isLeaf, hkey]
  | cons n ns ih =>
      obtain ⟨k', xs, rfl⟩ := hns n List.mem_cons_self
      exact ih fun m hm => hns m (List.mem_cons_of_mem _ hm)

theorem NamedBehind.wordAfter? {keyword : String} {k : Kind} {cs : List Tree} {tok : Token}
    (h : NamedBehind keyword cs tok) : wordAfter? keyword (.node k cs) = some tok.text := by
  obtain ⟨ns, key, rest, rfl, hkey, hns⟩ := h.behind
  exact wordAfter?_append hkey hns

namespace Grammar

/-- The rule builds nodes alone. -/
def BuildsNodes (r : Part) : Prop :=
  ∀ xs, Derives table r xs → ∀ x ∈ xs, x.IsInner

/-- Whatever the rule builds has a word as its first leaf, with nodes before it. -/
def BeginsWithWord (r : Part) : Prop :=
  ∀ xs, Derives table r xs → ∃ tok, LedByWord xs tok

theorem buildsNodes_symbol {s : Symbol} {k : Kind} {a : Part} (hs : table s = .node k a) :
    BuildsNodes (.symbol s) := by
  intro xs h x hx
  rw [derives_symbol, hs, derives_node] at h
  obtain ⟨ys, -, rfl⟩ := h
  exact ⟨k, ys, List.mem_singleton.mp hx⟩

theorem BuildsNodes.maybe {r : Part} (h : BuildsNodes r) : BuildsNodes r.maybe := by
  intro xs hxs
  rcases derives_maybe.mp hxs with hxs | rfl
  · exact h xs hxs
  · simp

theorem BuildsNodes.many {r : Part} (h : BuildsNodes r) : BuildsNodes (.many r) :=
  fun _ hxs => every_mem_of_derives_many h hxs

theorem BuildsNodes.andThen {a b : Part} (ha : BuildsNodes a) (hb : BuildsNodes b) :
    BuildsNodes (a >> b) := by
  intro xs hxs
  obtain ⟨ys, zs, hys, hzs, rfl⟩ := derives_andThen.mp hxs
  exact List.forall_mem_append.mpr ⟨ha ys hys, hb zs hzs⟩

theorem derives_word {xs : List Tree} :
    Derives table word xs ↔ ∃ tok, tok.shape = .word ∧ xs = [.leaf tok] := by
  simp [word, Terminal.accepts]

theorem derives_keyword {w : String} {xs : List Tree} :
    Derives table (keyword w) xs ↔
      ∃ tok, (tok.shape = .word ∧ tok.text = w) ∧ xs = [.leaf tok] := by
  simp [keyword, Terminal.accepts]

theorem beginsWithWord_word : BeginsWithWord word := by
  intro xs h
  obtain ⟨tok, hword, rfl⟩ := derives_word.mp h
  exact ⟨tok, hword, [], [], rfl, by simp⟩

/-- What follows the word is of no matter. -/
theorem BeginsWithWord.andThen {a b : Part} (ha : BeginsWithWord a) : BeginsWithWord (a >> b) := by
  intro xs h
  obtain ⟨ys, zs, hys, -, rfl⟩ := derives_andThen.mp h
  obtain ⟨tok, hword, ns, rest, rfl, hns⟩ := ha ys hys
  exact ⟨tok, hword, ns, rest ++ zs, by simp, hns⟩

/-- Nodes may stand before the word. -/
theorem BeginsWithWord.behind {a b : Part} (ha : BuildsNodes a) (hb : BeginsWithWord b) :
    BeginsWithWord (a >> b) := by
  intro xs h
  obtain ⟨ys, zs, hys, hzs, rfl⟩ := derives_andThen.mp h
  obtain ⟨tok, hword, ns, rest, rfl, hns⟩ := hb zs hzs
  exact ⟨tok, hword, ys ++ ns, rest, by simp, List.forall_mem_append.mpr ⟨ha ys hys, hns⟩⟩

theorem beginsWithWord_variableDeclarator {rest : Part} :
    BeginsWithWord (variableName >> rest) :=
  (beginsWithWord_word.andThen).andThen

theorem beginsWithWord_formalParameter :
    BeginsWithWord (Rule.maybe (.symbol .modifiers) >> .symbol .type >> variableName) :=
  .behind (buildsNodes_symbol rfl).maybe <|
    .behind (buildsNodes_symbol rfl) beginsWithWord_word.andThen

theorem beginsWithWord_methodDeclaration {rest : Part} :
    BeginsWithWord
      (Rule.maybe (.symbol .modifiers) >>
        Rule.maybe (.symbol .typeParameters >> .many (.symbol .annotationMark)) >>
        .symbol .type >> word >> rest) :=
  .behind (buildsNodes_symbol rfl).maybe <|
    .behind ((buildsNodes_symbol rfl).andThen (buildsNodes_symbol rfl).many).maybe <|
    .behind (buildsNodes_symbol rfl) beginsWithWord_word.andThen

/-- The name of a type follows its keyword, with at most modifiers before. -/
theorem namedBehind_of_derives {w : String} {rest : Part} {xs : List Tree}
    (h : Derives table (Rule.maybe (.symbol .modifiers) >> keyword w >> word >> rest) xs) :
    ∃ tok, NamedBehind w xs tok := by
  simp only [derives_andThen, derives_keyword, derives_word] at h
  obtain ⟨ns, _, hns, ⟨_, _, ⟨key, ⟨-, hkey⟩, rfl⟩, hname, rfl⟩, rfl⟩ := h
  obtain ⟨_, zs, ⟨tok, hword, rfl⟩, -, rfl⟩ := hname
  refine ⟨tok, hword, ns, key, zs, rfl, hkey, ?_⟩
  exact (buildsNodes_symbol rfl).maybe ns hns

end Grammar

/-! ## Names in a parsed tree -/

theorem IsShaped.beginsWithWord {k : Kind} {a : Grammar.Part} {cs : List Tree}
    (h : IsShaped k cs) (hrule : Grammar.ruleOf? k = some (.node k a))
    (ha : Grammar.BeginsWithWord a) :
    ∃ name, firstWord? (.node k cs) = some name ∧ IsWordText name := by
  have hderives := h.1 _ hrule
  simp only [derives_node] at hderives
  obtain ⟨ys, hys, heq⟩ := hderives
  cases heq
  obtain ⟨tok, hled⟩ := ha cs hys
  exact ⟨tok.text, hled.firstWord?, h.2 tok hled.mem hled.isWord⟩

/-- The name behind the keyword of a type is a word of the text. -/
theorem IsShaped.isWordText_wordAfter {k : Kind} {w : String} {rest : Grammar.Part}
    {cs : List Tree} (h : IsShaped k cs)
    (hrule : Grammar.ruleOf? k =
      some (.node k (Rule.maybe (.symbol .modifiers) >> Grammar.keyword w >> Grammar.word >> rest)))
    {name : String} (hname : wordAfter? w (.node k cs) = some name) : IsWordText name := by
  have hderives := h.1 _ hrule
  rw [derives_node] at hderives
  obtain ⟨ys, hys, heq⟩ := hderives
  cases heq
  obtain ⟨tok, hnamed⟩ := Grammar.namedBehind_of_derives hys
  obtain rfl : tok.text = name := Option.some.inj (hnamed.wordAfter?.symm.trans hname)
  exact h.2 tok hnamed.mem hnamed.isWord

end JavaAtlas.Java
