import JavaAtlas.Proofs.Java.Canonical
import JavaAtlas.Proofs.Java.TypeNodes

/-!
# Brackets of types

In a parsed tree a type either ends in brackets, or in a word or the closing mark of its
type arguments.  So the text of a type tells whether it is that of an array, and so it
does when the brackets stand behind the name of a variable.

Main results:

- Theorem `every_isBracketed_of_read`: the types and brackets of a parsed tree are built
  by their rules, from tokens that were cut from the text.
- Theorem `isArray_variableType`: a variable that is declared with brackets has the type
  of an array, whose text ends in them.
- Theorem `isArray_typeUse_iff`: a type is that of an array exactly if it has brackets of
  its own.
-/

namespace JavaAtlas.Java

open JavaAtlas.Java.Tree JavaAtlas.Text

/-! ## Texts of tokens in a row -/

theorem textOfTokens_append {ts us : List Token} {u : Token} (h : ts ≠ []) :
    textOfTokens (ts ++ u :: us) = textOfTokens ts ++ u.gap ++ textOfTokens (u :: us) := by
  cases ts with
  | nil => exact absurd rfl h
  | cons t ts =>
      simp only [List.cons_append, textOfTokens, String.join_cons, List.map_append,
        List.map_cons, String.join_append, String.append_assoc]

/-- The trees end in a token with the property. -/
def EndIn (p : Token → Prop) (xs : List Tree) : Prop :=
  ∃ front tok, tokensOfAll xs = front ++ [tok] ∧ p tok

theorem EndIn.append {p : Token → Prop} {xs ys : List Tree} (h : EndIn p ys) :
    EndIn p (xs ++ ys) := by
  obtain ⟨front, tok, htokens, hp⟩ := h
  exact ⟨tokensOfAll xs ++ front, tok, by rw [tokensOfAll_append, htokens, List.append_assoc], hp⟩

theorem EndIn.node {p : Token → Prop} {k : Kind} {xs : List Tree} (h : EndIn p xs) :
    EndIn p [.node k xs] := by
  obtain ⟨front, tok, htokens, hp⟩ := h
  exact ⟨front, tok, by simp [tokensOfAll, tokens, htokens], hp⟩

/-- A text ends in the last token. -/
theorem EndIn.exists_text {p : Token → Prop} {k : Kind} {xs : List Tree} (h : EndIn p xs) :
    ∃ front tok, p tok ∧ tok ∈ tokensOfAll xs ∧ (Tree.node k xs).text = front ++ tok.text := by
  obtain ⟨front, tok, htokens, hp⟩ := h
  have hlast : textOfTokens [tok] = tok.text := by
    simp [textOfTokens, String.join_cons]
  cases front with
  | nil => exact ⟨"", tok, hp, by simp [htokens], by simp [text, tokens, htokens, hlast]⟩
  | cons t ts =>
      refine ⟨textOfTokens (t :: ts) ++ tok.gap, tok, hp, by simp [htokens], ?_⟩
      rw [text, tokens, htokens, textOfTokens_append (by simp), hlast]

/-- The text of trees in a row ends in the text of the last one. -/
theorem exists_text_append {p q : Token → Prop} (k k' : Kind) {xs ys : List Tree}
    (hxs : EndIn p xs) (hys : EndIn q ys) :
    ∃ front, (Tree.node k (xs ++ [.node k' ys])).text = front ++ (Tree.node k' ys).text := by
  obtain ⟨front, tok, hfront, -⟩ := hxs
  obtain ⟨back, last, hback, -⟩ := hys
  cases htokens : tokensOfAll ys with
  | nil => simp [htokens] at hback
  | cons u us =>
      refine ⟨textOfTokens (tokensOfAll xs) ++ u.gap, ?_⟩
      simp only [text, tokens, tokensOfAll_append, tokensOfAll, htokens, List.append_nil]
      exact textOfTokens_append (by simp [hfront])

/-! ## Rules that end in certain tokens -/

namespace Grammar

/-- Whatever the rule builds ends in a token with the property. -/
def Ends (p : Token → Prop) (r : Part) : Prop :=
  ∀ xs, Derives table r xs → EndIn p xs

/-- Whatever the rule builds, unless that is nothing, ends in such a token. -/
def EndsIfAny (p : Token → Prop) (r : Part) : Prop :=
  ∀ xs, Derives table r xs → xs = [] ∨ EndIn p xs

/-- All trees that the rule builds have the property. -/
def Yields (q : Tree → Prop) (r : Part) : Prop :=
  ∀ xs, Derives table r xs → ∀ x ∈ xs, q x

section Ends

variable {p : Token → Prop} {q : Tree → Prop} {a b : Part}

theorem ends_token {t : Terminal} (h : ∀ tok, t.accepts tok = true → p tok) :
    Ends p (.token t) := by
  intro xs hxs
  obtain ⟨tok, haccepts, rfl⟩ := derives_token.mp hxs
  exact ⟨[], tok, by simp [tokensOfAll, tokens], h tok haccepts⟩

theorem Ends.behind (hb : Ends p b) : Ends p (a >> b) := by
  intro xs hxs
  obtain ⟨ys, zs, -, hzs, rfl⟩ := derives_andThen.mp hxs
  exact (hb zs hzs).append

theorem Ends.followed (ha : Ends p a) (hb : EndsIfAny p b) : Ends p (a >> b) := by
  intro xs hxs
  obtain ⟨ys, zs, hys, hzs, rfl⟩ := derives_andThen.mp hxs
  rcases hb zs hzs with rfl | hend
  · rw [List.append_nil]
    exact ha ys hys
  · exact hend.append

theorem Ends.either (ha : Ends p a) (hb : Ends p b) : Ends p (a <|> b) := by
  intro xs hxs
  rcases derives_orElse.mp hxs with hxs | hxs
  · exact ha xs hxs
  · exact hb xs hxs

theorem Ends.node {k : Kind} (ha : Ends p a) : Ends p (.node k a) := by
  intro xs hxs
  obtain ⟨ys, hys, rfl⟩ := derives_node.mp hxs
  exact (ha ys hys).node

theorem Ends.symbol {s : Symbol} (ha : Ends p (table s)) : Ends p (.symbol s) :=
  fun xs hxs => ha xs (derives_symbol.mp hxs)

theorem Ends.attempt (ha : Ends p a) : Ends p (.attempt a) :=
  fun xs hxs => ha xs (derives_attempt.mp hxs)

theorem Ends.oneOf {r : Part} {rs : List Part} (h : ∀ a ∈ r :: rs, Ends p a) :
    Ends p (Rule.oneOf (r :: rs)) := by
  induction rs generalizing r with
  | nil => exact h r List.mem_cons_self
  | cons r' rs ih =>
      have hr := h r List.mem_cons_self
      exact hr.either (ih fun a ha => h a (List.mem_cons_of_mem r ha))

theorem Ends.maybe (ha : Ends p a) : EndsIfAny p a.maybe := by
  intro xs hxs
  rcases derives_maybe.mp hxs with hxs | rfl
  · exact .inr (ha xs hxs)
  · exact .inl rfl

theorem Ends.many (ha : Ends p a) : EndsIfAny p (.many a) := by
  intro xs hxs
  generalize hr : Rule.many a = r at hxs
  induction hxs with
  | none => exact .inl rfl
  | more hx _ _ ih =>
      cases hr
      rcases ih rfl with rfl | hend
      · rw [List.append_nil]
        exact .inr (ha _ hx)
      · exact .inr hend.append
  | _ => cases hr

theorem EndsIfAny.followed (ha : EndsIfAny p a) (hb : EndsIfAny p b) :
    EndsIfAny p (a >> b) := by
  intro xs hxs
  obtain ⟨ys, zs, hys, hzs, rfl⟩ := derives_andThen.mp hxs
  rcases hb zs hzs with rfl | hend
  · rw [List.append_nil]
    exact ha ys hys
  · exact .inr hend.append

theorem yields_token {t : Terminal} (h : ∀ tok, q (.leaf tok)) : Yields q (.token t) := by
  intro xs hxs x hx
  obtain ⟨tok, -, rfl⟩ := derives_token.mp hxs
  rw [List.mem_singleton.mp hx]
  exact h tok

theorem yields_node {k : Kind} (h : ∀ cs, q (.node k cs)) : Yields q (.node k a) := by
  intro xs hxs x hx
  obtain ⟨ys, -, rfl⟩ := derives_node.mp hxs
  rw [List.mem_singleton.mp hx]
  exact h ys

theorem Yields.symbol {s : Symbol} (h : Yields q (table s)) : Yields q (.symbol s) :=
  fun xs hxs => h xs (derives_symbol.mp hxs)

theorem Yields.andThen (ha : Yields q a) (hb : Yields q b) : Yields q (a >> b) := by
  intro xs hxs
  obtain ⟨ys, zs, hys, hzs, rfl⟩ := derives_andThen.mp hxs
  exact List.forall_mem_append.mpr ⟨ha ys hys, hb zs hzs⟩

theorem Yields.either (ha : Yields q a) (hb : Yields q b) : Yields q (a <|> b) := by
  intro xs hxs
  rcases derives_orElse.mp hxs with hxs | hxs
  · exact ha xs hxs
  · exact hb xs hxs

theorem Yields.maybe (ha : Yields q a) : Yields q a.maybe := by
  intro xs hxs
  rcases derives_maybe.mp hxs with hxs | rfl
  · exact ha xs hxs
  · simp

theorem Yields.many (ha : Yields q a) : Yields q (.many a) :=
  fun _ hxs => every_mem_of_derives_many ha hxs

theorem Yields.attempt (ha : Yields q a) : Yields q (.attempt a) :=
  fun xs hxs => ha xs (derives_attempt.mp hxs)

end Ends

/-! ## Types -/

/-- A word, or the closing mark of type arguments. -/
def IsNameEnd (tok : Token) : Prop :=
  tok.shape = .word ∨ tok.text = ">"

/-- Brackets without the node around them. -/
def bracketPairs : Part :=
  Rule.some1 (.many (.symbol .annotationMark) >> mark "[" >> mark "]")

/-- A type with the annotations before it, without the node around it. -/
def typeInside : Part :=
  .many (.symbol .annotationMark) >> typeCore >> Rule.maybe dimensions

theorem ends_bracketPairs : Ends (fun tok => tok.text = "]") bracketPairs := by
  have hclose : Ends (fun tok => tok.text = "]") (mark "]") :=
    ends_token fun tok h => by
      simp only [Terminal.accepts, Bool.and_eq_true, beq_iff_eq] at h
      exact h.2
  have hpair : Ends (fun tok => tok.text = "]")
      (.many (.symbol .annotationMark) >> mark "[" >> mark "]") :=
    hclose.behind.behind
  exact hpair.followed hpair.many

theorem ends_typeCore : Ends IsNameEnd typeCore := by
  have hkeywords : Ends IsNameEnd (keywords primitiveWords) := by
    refine Ends.oneOf fun a ha => ?_
    obtain ⟨w, -, rfl⟩ := List.mem_map.mp (show a ∈ primitiveWords.map keyword from ha)
    refine ends_token fun tok h => .inl ?_
    simp only [Terminal.accepts, Bool.and_eq_true, beq_iff_eq] at h
    exact h.1
  have hword : ∀ reserved, Ends IsNameEnd (wordExcept reserved) := fun reserved =>
    ends_token fun tok h => by
      simp only [Terminal.accepts, Bool.and_eq_true, beq_iff_eq] at h
      exact .inl h.1
  have hclose : Ends IsNameEnd (mark ">") :=
    ends_token fun tok h => by
      simp only [Terminal.accepts, Bool.and_eq_true, beq_iff_eq] at h
      exact .inr h.2
  have harguments : Ends IsNameEnd (.symbol .typeArguments) :=
    Ends.symbol (Ends.node hclose.behind.behind)
  have hdotted : Ends IsNameEnd dotted := Ends.attempt (hword _).behind.behind
  exact (Ends.node hkeywords).either
    ((hword _).followed (harguments.maybe.followed (hdotted.followed harguments.maybe).many))

/-- The name of a class or an interface is made of words, marks, annotations and type
arguments. -/
theorem yields_className {q : Tree → Prop} (hleaf : ∀ tok, q (.leaf tok))
    (hmark : ∀ cs, q (.node .annotationMark cs)) (harguments : ∀ cs, q (.node .typeArguments cs)) :
    Yields q
      (wordExcept primitiveWords >> Rule.maybe (.symbol .typeArguments) >>
        .many (dotted >> Rule.maybe (.symbol .typeArguments))) := by
  have htoken : ∀ t, Yields q (.token t) := fun t => yields_token hleaf
  have hnote : Yields q (.symbol .annotationMark) := Yields.symbol (yields_node hmark)
  have hinside : Yields q (.symbol .typeArguments) := Yields.symbol (yields_node harguments)
  have hdotted : Yields q dotted :=
    ((htoken _).andThen (hnote.many.andThen (htoken _))).attempt
  exact (htoken _).andThen (hinside.maybe.andThen (hdotted.andThen hinside.maybe).many)

/-- What stands in a type before its brackets is no brackets. -/
theorem yields_typeCore :
    Yields (fun x => x.isNode .dimensions = false)
      (.many (.symbol .annotationMark) >> typeCore) := by
  have hmark : Yields (fun x => x.isNode .dimensions = false)
      (.symbol .annotationMark) := Yields.symbol (yields_node fun _ => rfl)
  have hcore : Yields (fun x => x.isNode .dimensions = false) typeCore :=
    Yields.either (yields_node fun _ => rfl)
      (yields_className (fun _ => rfl) (fun _ => rfl) fun _ => rfl)
  exact hmark.many.andThen hcore

/-- A type is a name, with brackets behind it or without. -/
theorem derives_typeInside {cs : List Tree} (h : Derives table typeInside cs) :
    ∃ core, EndIn IsNameEnd core ∧ (∀ x ∈ core, x.isNode .dimensions = false) ∧
      (cs = core ∨ ∃ pairs, EndIn (fun tok => tok.text = "]") pairs ∧
        cs = core ++ [.node .dimensions pairs]) := by
  obtain ⟨annotations, _, hmarks, hrest, rfl⟩ := derives_andThen.mp h
  obtain ⟨name, brackets, hname, hbrackets, rfl⟩ := derives_andThen.mp hrest
  have hcore : Derives table (.many (.symbol .annotationMark) >> typeCore)
      (annotations ++ name) := derives_andThen.mpr ⟨_, _, hmarks, hname, rfl⟩
  refine ⟨annotations ++ name, (ends_typeCore name hname).append, yields_typeCore _ hcore, ?_⟩
  rcases derives_maybe.mp hbrackets with hbrackets | rfl
  · obtain ⟨pairs, hpairs, rfl⟩ := derives_node.mp hbrackets
    exact .inr ⟨pairs, ends_bracketPairs pairs hpairs, by rw [List.append_assoc]⟩
  · exact .inl (by rw [List.append_nil])

/-- What is inside the nodes of the kind, for the kinds that have to do with brackets. -/
def insideOf? : Kind → Option Part
  | .type => some typeInside
  | .dimensions => some bracketPairs
  | .fieldDeclaration =>
    some (Rule.maybe (.symbol .modifiers) >> .symbol .type >> declarators >> mark ";")
  | _ => none

/-- A type may lack annotations and brackets; all else is inside just so. -/
private theorem insideOf?_of_mem_nodes (s : Symbol) :
    ∀ n ∈ (table s).nodes, ∀ r, insideOf? n.1 = some r →
      n.2 = r ∨ r = typeInside ∧ (n.2 = typeCore ∨ n.2 = typeCore >> Rule.maybe dimensions) := by
  cases s <;> decide +kernel

private theorem derives_insideOf? {s : Symbol} {n : Kind × Part} (hn : n ∈ (table s).nodes)
    {cs : List Tree} (h : Derives table n.2 cs) {r : Part} (hr : insideOf? n.1 = some r) :
    Derives table r cs := by
  have hnone : Derives table (.many (.symbol .annotationMark)) [] := .none
  rcases insideOf?_of_mem_nodes s n hn r hr with heq | ⟨rfl, heq | heq⟩
  · rwa [← heq]
  · rw [heq] at h
    have hbrackets : Derives table (Rule.maybe dimensions) [] := derives_maybe.mpr (.inr rfl)
    exact derives_andThen.mpr ⟨[], cs, hnone,
      derives_andThen.mpr ⟨cs, [], h, hbrackets, (List.append_nil cs).symm⟩, rfl⟩
  · rw [heq] at h
    exact derives_andThen.mpr ⟨[], cs, hnone, h, rfl⟩

end Grammar

/-! ## Types and brackets of a parsed tree -/

/-- A node is built by its rule, if it has to do with brackets, and its leaves were cut
from the text. -/
def IsBracketed (k : Kind) (cs : List Tree) : Prop :=
  (∀ r, Grammar.insideOf? k = some r → Derives Grammar.table r cs) ∧
    ∀ tok, .leaf tok ∈ cs → tok.IsCut

theorem every_isBracketed_of_read {source : String} {root : Tree} (h : read source = .ok root) :
    root.Every IsBracketed := by
  have hrules : root.Every fun k cs =>
      ∀ r, Grammar.insideOf? k = some r → Derives Grammar.table r cs :=
    every_of_read h (by simp [Grammar.insideOf?]) fun s n hn ys hys r hr =>
      Grammar.derives_insideOf? hn hys hr
  refine hrules.and (every_leaf_of_tokens _ fun tok htok => ?_)
  rw [tokens_of_read h] at htok
  exact isCut_of_mem_scan htok

/-- The tokens below a node were cut from the text. -/
theorem Tree.Every.isCut_of_mem_tokens {t : Tree} (h : t.Every IsBracketed) :
    ∀ tok ∈ t.tokens, t = .leaf tok ∨ tok.IsCut := by
  induction h with
  | leaf u =>
      intro tok htok
      left
      rw [List.mem_singleton.mp htok]
  | node h _ ih =>
      intro tok htok
      right
      obtain ⟨c, hc, hmem⟩ := mem_tokensOfAll.mp htok
      rcases ih c hc tok hmem with rfl | hcut
      · exact h.2 tok hc
      · exact hcut

/-- The node holds pairs of brackets. -/
def IsBrackets (b : Tree) : Prop :=
  ∃ pairs, b = .node .dimensions pairs ∧ EndIn (fun tok => tok.text = "]") pairs

/-- Nodes of brackets hold such pairs. -/
theorem Tree.Every.isBrackets {b : Tree} (h : b.Every IsBracketed)
    (hkind : b.isNode .dimensions = true) : IsBrackets b := by
  cases b with
  | leaf tok => cases hkind
  | node k pairs =>
      obtain rfl : k = .dimensions := by simpa [isNode] using hkind
      exact ⟨pairs, rfl, Grammar.ends_bracketPairs pairs (h.here.1 _ rfl)⟩

theorem mem_of_bracketsAfterWord? {t b : Tree} (h : t.bracketsAfterWord? = some b) :
    b ∈ t.children ∧ b.isNode .dimensions = true := by
  unfold bracketsAfterWord? at h
  split at h
  case h_1 first c rest hdrop =>
    split at h
    case isTrue hkind =>
      cases h
      have hsuffix := List.dropWhile_suffix isInner (l := t.children)
      rw [hdrop] at hsuffix
      exact ⟨hsuffix.subset (by simp), hkind⟩
    case isFalse => cases h
  case h_2 => cases h

theorem Tree.Every.isBrackets_of_bracketsAfterWord? {t b : Tree} (h : t.Every IsBracketed)
    (hb : t.bracketsAfterWord? = some b) : IsBrackets b := by
  obtain ⟨hmem, hkind⟩ := mem_of_bracketsAfterWord? hb
  exact (h.children b hmem).isBrackets hkind

/-! ## Types of arrays -/

/-- The brackets with which a variable of the type is declared: those after its name, or
those of the type. -/
def bracketsOf? (type : Tree) (after : Option Tree) : Option Tree :=
  after <|> type.child? .dimensions

namespace TypeUse

/-- The type of an array: there is no name to look up, and the text ends in a bracket. -/
def IsArray (u : TypeUse) : Prop :=
  u.simpleName = none ∧ u.text.toList.getLast? = some ']'

/-- The text ends in the brackets as they are spelled. -/
def EndsInBrackets (u : TypeUse) (b : Tree) : Prop :=
  (TypeText.canonical b.text).toList <:+ u.text.toList

end TypeUse

theorem getLast?_canonical_bracket (front : String) :
    (TypeText.canonical (front ++ "]")).toList.getLast? = some ']' := by
  have hlist : (front ++ "]").toList = front.toList ++ [']'] := by
    rw [String.toList_append]
    rfl
  rw [TypeText.canonical, String.toList_ofList, hlist]
  exact TypeText.getLast?_canonicalFrom (by decide) (by decide)

/-- A text that ends in brackets is spelled with them at its end. -/
theorem IsBrackets.spelled {b : Tree} (h : IsBrackets b) (front : String) :
    (TypeText.canonical b.text).toList <:+ (TypeText.canonical (front ++ b.text)).toList ∧
      (TypeText.canonical (front ++ b.text)).toList.getLast? = some ']' := by
  obtain ⟨pairs, rfl, hend⟩ := h
  obtain ⟨middle, tok, hclose, -, htext⟩ := hend.exists_text (k := .dimensions)
  refine ⟨TypeText.canonical_suffix _ _, ?_⟩
  rw [htext, hclose, ← String.append_assoc]
  exact getLast?_canonical_bracket _

/-- A name of a type is spelled without a bracket at its end. -/
theorem getLast?_canonical_ne_bracket {front : String} {tok : Token}
    (hname : Grammar.IsNameEnd tok) (hcut : tok.IsCut) :
    (TypeText.canonical (front ++ tok.text)).toList.getLast? ≠ some ']' := by
  have hlast : ∃ inner c, tok.text.toList = inner ++ [c] ∧ isBlank c = false ∧ c ≠ ',' ∧
      c ≠ ']' := by
    rcases hname with hword | hclose
    · obtain ⟨c, cs, htext, -, -⟩ := hcut.exists_word hword
      have hne : tok.text.toList ≠ [] := by
        rw [htext, String.toList_ofList]
        simp
      have hcontinue := hcut.isSpelled hword _ (List.getLast_mem hne)
      refine ⟨_, _, (List.dropLast_concat_getLast hne).symm, isBlank_of_isContinue hcontinue,
        ?_, ?_⟩
      all_goals
        intro hc
        rw [hc] at hcontinue
        exact absurd hcontinue (by decide)
    · exact ⟨[], '>', by rw [hclose]; rfl, by decide, by decide, by decide⟩
  obtain ⟨inner, c, hchars, hblank, hcomma, hbracket⟩ := hlast
  rw [TypeText.canonical, String.toList_ofList, String.toList_append, hchars,
    ← List.append_assoc, TypeText.getLast?_canonicalFrom hblank hcomma]
  simpa using hbracket

section Types

variable {type : Tree} {after : Option Tree} {b : Tree}

/-- A type has brackets at its end, or none and a name there. -/
theorem Tree.Every.type_cases (h : type.Every IsBracketed) (hkind : type.isNode .type = true) :
    (type.child? .dimensions = none ∧
        ∃ front tok, Grammar.IsNameEnd tok ∧ tok.IsCut ∧ type.text = front ++ tok.text) ∨
      ∃ b front, type.child? .dimensions = some b ∧ IsBrackets b ∧
        type.text = front ++ b.text := by
  cases type with
  | leaf tok => cases hkind
  | node k cs =>
      obtain rfl : k = .type := by simpa [isNode] using hkind
      obtain ⟨core, hend, hcore, rfl | ⟨pairs, hpairs, rfl⟩⟩ :=
        Grammar.derives_typeInside (h.here.1 _ rfl)
      · left
        refine ⟨List.find?_eq_none.mpr fun x hx => by simp [hcore x hx], ?_⟩
        obtain ⟨front, tok, hname, hmem, htext⟩ := hend.exists_text (k := .type)
        refine ⟨front, tok, hname, ?_, htext⟩
        rcases h.isCut_of_mem_tokens tok hmem with hleaf | hcut
        · cases hleaf
        · exact hcut
      · right
        obtain ⟨front, htext⟩ := exists_text_append .type .dimensions hend hpairs
        refine ⟨.node .dimensions pairs, front, ?_, ⟨pairs, rfl, hpairs⟩, htext⟩
        rw [Tree.child?, Tree.children, List.find?_append,
          List.find?_eq_none.mpr fun x hx => by simp [hcore x hx]]
        rfl

/-- A type with brackets of its own has no name to look up. -/
theorem Tree.Every.simpleName_eq_none (h : type.Every IsBracketed)
    (hkind : type.isNode .type = true) (hb : type.child? .dimensions = some b) :
    simpleName type = none := by
  cases type with
  | leaf tok => cases hkind
  | node k cs =>
      obtain rfl : k = .type := by simpa [isNode] using hkind
      obtain ⟨core, -, hcore, rfl | ⟨pairs, -, rfl⟩⟩ :=
        Grammar.derives_typeInside (h.here.1 _ rfl)
      · have hmem : b ∈ cs := List.mem_of_find?_eq_some hb
        cases (List.find?_some hb).symm.trans (hcore b hmem)
      · rw [simpleName_type, nameOfRow_brackets]

/-- A variable that is declared with brackets has the type of an array, whose text ends
in them. -/
theorem isArray_variableType (htype : type.Every IsBracketed)
    (hkind : type.isNode .type = true) (hafter : ∀ b, after = some b → IsBrackets b)
    (hb : bracketsOf? type after = some b) :
    (variableType type after).IsArray ∧ (variableType type after).EndsInBrackets b := by
  cases after with
  | some b' =>
      obtain rfl : b' = b := Option.some.inj hb
      obtain ⟨hsuffix, hlast⟩ := (hafter b' rfl).spelled type.text
      exact ⟨⟨rfl, hlast⟩, hsuffix⟩
  | none =>
      have hown : type.child? .dimensions = some b := hb
      rcases htype.type_cases hkind with ⟨hnone, -⟩ | ⟨b', front, hb', hbrackets, htext⟩
      · cases hnone.symm.trans hown
      · obtain rfl : b' = b := Option.some.inj (hb'.symm.trans hown)
        obtain ⟨hsuffix, hlast⟩ := hbrackets.spelled front
        rw [← htext] at hsuffix hlast
        exact ⟨⟨htype.simpleName_eq_none hkind hown, hlast⟩, hsuffix⟩

/-- A type is that of an array exactly if it has brackets of its own. -/
theorem isArray_typeUse_iff (htype : type.Every IsBracketed)
    (hkind : type.isNode .type = true) :
    (typeUse type).IsArray ↔ (type.child? .dimensions).isSome = true := by
  rw [Option.isSome_iff_exists]
  constructor
  · rintro ⟨-, hlast⟩
    rcases htype.type_cases hkind with ⟨-, front, tok, hname, hcut, htext⟩ | ⟨b, -, hb, -, -⟩
    · rw [typeUse, htext] at hlast
      exact absurd hlast (getLast?_canonical_ne_bracket hname hcut)
    · exact ⟨b, hb⟩
  · rintro ⟨b, hb⟩
    have hafter : ∀ b, (none : Option Tree) = some b → IsBrackets b := nofun
    exact (isArray_variableType htype hkind hafter hb).1

end Types

end JavaAtlas.Java
