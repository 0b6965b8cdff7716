import JavaAtlas.Proofs.Java.Shape

/-!
# Names of types in a row

A type is looked up by a name that is found inside of nested nodes.  What the nodes are
nested from is a row, and the name can be told from the row as it is read: an identifier is
the name until a dot follows and another identifier takes its place, type arguments keep it,
and brackets take it away.

Main definitions:

- `Outline`: what has to be known of a node to tell the name of those that it grows into.
- `nameOfRow`: the name of a type, told from its row.

Main results:

- Theorem `tokens_typeNode`: the nested nodes hold the tokens of the row in their order.
- Theorem `simpleName_type`: the name in the nested nodes is the one that the row tells.
- Theorem `exists_word_of_nameOfRow`: the name is a word of the row.
- Theorem `nameOfRow_brackets`: with brackets at the end there is none.
-/

namespace JavaAtlas.Java

open JavaAtlas.Java.Tree

/-! ## Outlines -/

/-- Forms of nodes that grow in different ways. -/
inductive TypeNode.Form where
  | identifier
  | scoped
  | other
  deriving DecidableEq

namespace TypeNode

/-- The form of a node. -/
def form : TypeNode → Form
  | typeIdentifier _ => .identifier
  | node .scopedTypeIdentifier _ => .scoped
  | _ => .other

end TypeNode

/-- The form of a node and its name. -/
@[ext]
structure Outline where
  form : TypeNode.Form
  name : Option String

namespace Outline

/-- The outline with the next child of a row. -/
def after (o : Outline) (t : Tree) : Outline :=
  match t with
  | .leaf tok =>
    if tok.shape = .word then if o.form = .scoped then ⟨.scoped, some tok.text⟩ else o
    else ⟨.scoped, if o.form = .identifier then o.name else none⟩
  | .node .typeArguments _ => ⟨.other, if o.form = .other then none else o.name⟩
  | .node .dimensions _ => ⟨.other, none⟩
  | .node _ _ => o

/-- The outline of the first child behind the annotations of a row. -/
def start (t : Tree) : Outline :=
  match t with
  | .leaf tok => if tok.shape = .word then ⟨.identifier, some tok.text⟩ else ⟨.other, none⟩
  | .node _ _ => ⟨.other, none⟩

end Outline

/-- The name of a type that is read as a row. -/
def nameOfRow (row : List Tree) : Option String :=
  match row.dropWhile (isNode .annotationMark) with
  | [] => none
  | c :: cs => (cs.foldl Outline.after (.start c)).name

namespace TypeNode

/-- The outline of a node. -/
def outline (n : TypeNode) : Outline :=
  ⟨n.form, n.className⟩

theorem filterMap_identifier?_behindComments (t : Tree) (child : TypeNode) :
    (behindComments t child).filterMap identifier? = child.identifier?.toList := by
  have hcomments : ∀ comments : List String,
      (comments.map comment).filterMap identifier? = [] := fun comments => by
    induction comments with
    | nil => rfl
    | cons c comments ih => exact ih
  rw [behindComments, List.filterMap_append, hcomments, List.nil_append]
  cases child <;> rfl

/-- An identifier behind a dot takes the place of the name. -/
theorem outline_extend_typeIdentifier (n : TypeNode) (t : Tree) (tok : Token) :
    (n.extend (behindComments t (typeIdentifier tok))).outline =
      if n.form = .scoped then ⟨.scoped, some tok.text⟩ else n.outline := by
  cases n with
  | node kind cs =>
      cases kind with
      | scopedTypeIdentifier =>
          simp [extend, outline, form, className, filterMap_identifier?_behindComments,
            identifier?]
      | _ => rfl
  | _ => rfl

/-- What is no identifier leaves the name as it is. -/
theorem outline_extend_other (n : TypeNode) (t : Tree) :
    (n.extend (behindComments t (other t))).outline = n.outline := by
  cases n with
  | node kind cs =>
      cases kind with
      | scopedTypeIdentifier =>
          simp [extend, outline, form, className, filterMap_identifier?_behindComments,
            identifier?]
      | _ => rfl
  | _ => rfl

/-- Behind a dot only what is an identifier itself gives the name as yet. -/
theorem outline_scoped (n : TypeNode) (t : Tree) (tok : Token) :
    (node .scopedTypeIdentifier (n :: behindComments t (sign tok))).outline =
      ⟨.scoped, if n.form = .identifier then n.className else none⟩ := by
  have hname : (node .scopedTypeIdentifier (n :: behindComments t (sign tok))).className =
      n.identifier?.map Token.text := by
    rw [className, List.filterMap_cons, filterMap_identifier?_behindComments]
    cases n.identifier? <;> rfl
  rw [outline, hname]
  cases n with
  | node kind cs => cases kind <;> rfl
  | _ => rfl

theorem firstClassName_behindComments (t u : Tree) :
    firstClassName (behindComments t (other u)) = none := by
  unfold behindComments
  induction t.firstToken?.elim [] Token.comments with
  | nil => rfl
  | cons c comments ih => exact ih

/-- Type arguments keep the name. -/
theorem outline_generic (n : TypeNode) (t : Tree) :
    (node .genericType (n :: behindComments t (other t))).outline =
      ⟨.other, if n.form = .other then none else n.className⟩ := by
  have hrest := firstClassName_behindComments t t
  cases n with
  | node kind cs =>
      cases kind <;> simp [outline, form, className, firstClassName, isPlainName, hrest]
  | _ => simp [outline, form, className, firstClassName, isPlainName, hrest]

/-- The outline of a node tells those of the nodes that it grows into. -/
theorem outline_grow (n : TypeNode) (t : Tree) : (n.grow t).outline = n.outline.after t := by
  cases t with
  | leaf tok =>
      by_cases hword : tok.shape = .word
      case pos =>
        simp only [grow, Outline.after, if_pos hword, outline_extend_typeIdentifier]
        rfl
      case neg =>
        simp only [grow, Outline.after, if_neg hword, outline_scoped]
        rfl
  | node k cs =>
      cases k with
      | typeArguments => exact outline_generic n _
      | dimensions => rfl
      | _ => exact outline_extend_other n _

theorem outline_start (t : Tree) : (start t).outline = .start t := by
  cases t with
  | leaf tok =>
      by_cases hword : tok.shape = .word
      case pos =>
        simp only [start, Outline.start, if_pos hword]
        rfl
      case neg =>
        simp only [start, Outline.start, if_neg hword]
        rfl
  | node k cs => rfl

theorem outline_foldl_grow (n : TypeNode) (row : List Tree) :
    (row.foldl grow n).outline = row.foldl Outline.after n.outline := by
  induction row generalizing n with
  | nil => rfl
  | cons t row ih => rw [List.foldl_cons, List.foldl_cons, ih, outline_grow]

/-! ## Annotations -/

theorem isNamed_extend (n : TypeNode) (more : List TypeNode) :
    (n.extend more).isNamed = n.isNamed := by
  cases n with
  | node kind cs => cases kind <;> rfl
  | _ => rfl

theorem isNamed_grow {n : TypeNode} (h : n.isNamed = true) (t : Tree) :
    (n.grow t).isNamed = true := by
  unfold grow
  split
  · split
    · rwa [isNamed_extend]
    · rfl
  · rfl
  · rfl
  · rwa [isNamed_extend]

theorem isNamed_start (t : Tree) : (start t).isNamed = true := by
  unfold start
  split
  · split <;> rfl
  · rfl

theorem isNamed_foldl_grow {n : TypeNode} (h : n.isNamed = true) (row : List Tree) :
    (row.foldl grow n).isNamed = true := by
  induction row generalizing n with
  | nil => exact h
  | cons t row ih => exact ih (isNamed_grow h t)

theorem lastClassName_append {n : TypeNode} (h : n.isNamed = true) (cs : List TypeNode) :
    lastClassName (cs ++ [n]) = n.className := by
  induction cs with
  | nil => simp [lastClassName, h]
  | cons c cs ih =>
      have hnamed : (cs ++ [n]).any isNamed = true := by simp [h]
      rw [List.cons_append, lastClassName, if_pos hnamed, ih]

/-- Annotations before a type make no difference to its name. -/
theorem className_annotated {n : TypeNode} (h : n.isNamed = true) (annotations : List Tree)
    (t : Tree) : (annotated annotations t n).className = n.className := by
  cases annotations with
  | nil => rfl
  | cons a as =>
      simp only [annotated, className, behindComments, ← List.append_assoc]
      exact lastClassName_append h _

end TypeNode

/-! ## The tokens of a row -/

mutual

/-- The tokens of a node, in order. -/
def TypeNode.tokens : TypeNode → List Token
  | .typeIdentifier tok => [tok]
  | .node _ cs => tokensOfNodes cs
  | .other t => t.tokens
  | .comment _ => []
  | .sign tok => [tok]

/-- The tokens of nodes in a row. -/
def TypeNode.tokensOfNodes : List TypeNode → List Token
  | [] => []
  | n :: ns => TypeNode.tokens n ++ tokensOfNodes ns

end

/-- A node of the outline takes the next child of a row in. -/
def Outline.Takes (o : Outline) : Tree → Prop
  | .leaf tok => tok.shape = .word → o.form = .scoped
  | .node .typeArguments _ => True
  | .node .dimensions _ => True
  | .node _ _ => o.form = .scoped

/-- A node of the outline takes all children of a row in. -/
def Outline.TakesAll (o : Outline) : List Tree → Prop
  | [] => True
  | t :: row => o.Takes t ∧ (o.after t).TakesAll row

theorem Outline.takesAll_append {o : Outline} {row row' : List Tree} :
    o.TakesAll (row ++ row') ↔ o.TakesAll row ∧ (row.foldl after o).TakesAll row' := by
  induction row generalizing o with
  | nil => simp [TakesAll]
  | cons t row ih => simp [TakesAll, ih, and_assoc]

namespace TypeNode

theorem tokensOfNodes_append (ns ms : List TypeNode) :
    tokensOfNodes (ns ++ ms) = tokensOfNodes ns ++ tokensOfNodes ms := by
  induction ns with
  | nil => rfl
  | cons n ns ih => simp [tokensOfNodes, ih]

/-- Comments are no tokens. -/
theorem tokensOfNodes_behindComments (t : Tree) (child : TypeNode) :
    tokensOfNodes (behindComments t child) = child.tokens := by
  have hcomments : ∀ comments : List String, tokensOfNodes (comments.map comment) = [] :=
    fun comments => by
      induction comments with
      | nil => rfl
      | cons c comments ih => exact ih
  simp [behindComments, tokensOfNodes_append, hcomments, tokensOfNodes]

theorem tokens_extend {n : TypeNode} (h : n.form = .scoped) (t : Tree) (child : TypeNode) :
    (n.extend (behindComments t child)).tokens = n.tokens ++ child.tokens := by
  cases n with
  | node kind cs =>
      cases kind with
      | scopedTypeIdentifier =>
          simp [extend, tokens, tokensOfNodes_append, tokensOfNodes_behindComments]
      | _ => cases h
  | _ => cases h

theorem tokens_node (kind : TypeNodeKind) (n : TypeNode) (t : Tree) (child : TypeNode) :
    (node kind (n :: behindComments t child)).tokens = n.tokens ++ child.tokens := by
  simp [tokens, tokensOfNodes, tokensOfNodes_behindComments]

theorem tokens_grow {n : TypeNode} {t : Tree} (h : n.outline.Takes t) :
    (n.grow t).tokens = n.tokens ++ t.tokens := by
  cases t with
  | leaf tok =>
      by_cases hword : tok.shape = .word
      case pos =>
        rw [grow, if_pos hword]
        exact tokens_extend (h hword) _ _
      case neg =>
        rw [grow, if_neg hword]
        exact tokens_node _ _ _ _
  | node k cs =>
      cases k with
      | typeArguments => exact tokens_node _ _ _ _
      | dimensions => exact tokens_node _ _ _ _
      | _ => exact tokens_extend h _ _

theorem tokens_foldl_grow {n : TypeNode} {row : List Tree} (h : n.outline.TakesAll row) :
    (row.foldl grow n).tokens = n.tokens ++ tokensOfAll row := by
  induction row generalizing n with
  | nil => simp [tokensOfAll]
  | cons t row ih =>
      have hrest : (n.grow t).outline.TakesAll row := by
        rw [outline_grow]
        exact h.2
      rw [List.foldl_cons, ih hrest, tokens_grow h.1, tokensOfAll, List.append_assoc]

theorem tokens_start (t : Tree) : (start t).tokens = t.tokens := by
  unfold start
  split
  · split <;> rfl
  · rfl

theorem tokens_annotated (annotations : List Tree) (t : Tree) (n : TypeNode) :
    (annotated annotations t n).tokens = tokensOfAll annotations ++ n.tokens := by
  have hflat : ∀ as : List Tree,
      tokensOfNodes (as.flatMap fun b => behindComments b (other b)) = tokensOfAll as :=
    fun as => by
      induction as with
      | nil => rfl
      | cons b as ih =>
          rw [List.flatMap_cons, tokensOfNodes_append, ih, tokensOfNodes_behindComments]
          rfl
  cases annotations with
  | nil => rfl
  | cons a as =>
      simp [annotated, tokens, tokensOfNodes, tokensOfNodes_append,
        tokensOfNodes_behindComments, hflat, tokensOfAll]

end TypeNode

/-- The nodes of a type hold the tokens of its row in their order. -/
theorem tokens_typeNode {row cs : List Tree} {c : Tree}
    (hrow : row.dropWhile (isNode .annotationMark) = c :: cs)
    (htakes : (Outline.start c).TakesAll cs) :
    (typeNode (.node .type row)).tokens = tokensOfAll row := by
  have hsplit : row.takeWhile (isNode .annotationMark) ++ c :: cs = row :=
    hrow ▸ List.takeWhile_append_dropWhile
  have hgrown := TypeNode.tokens_foldl_grow ((TypeNode.outline_start c).symm ▸ htakes)
  calc (typeNode (.node .type row)).tokens
      = tokensOfAll (row.takeWhile (isNode .annotationMark)) ++ (c.tokens ++ tokensOfAll cs) := by
        simp only [typeNode, hrow, TypeNode.tokens_annotated, hgrown, TypeNode.tokens_start]
    _ = tokensOfAll (row.takeWhile (isNode .annotationMark) ++ c :: cs) := by
        rw [tokensOfAll_append, tokensOfAll]
    _ = tokensOfAll row := by rw [hsplit]

/-! ## The name of a row -/

/-- The name by which a type is looked up is the one that its row tells. -/
theorem simpleName_type (row : List Tree) : simpleName (.node .type row) = nameOfRow row := by
  unfold simpleName typeNode nameOfRow
  dsimp only
  cases row.dropWhile (isNode .annotationMark) with
  | nil => rfl
  | cons c cs =>
      dsimp only
      rw [TypeNode.className_annotated (TypeNode.isNamed_foldl_grow (TypeNode.isNamed_start c) cs),
        ← TypeNode.outline_start c, ← TypeNode.outline_foldl_grow]
      rfl

/-- Only types have a name. -/
theorem simpleName_of_not_isNode {t : Tree} (h : t.isNode .type = false) :
    simpleName t = none := by
  unfold simpleName typeNode
  split
  · cases h
  · rfl

section Words

variable {p : String → Prop}

theorem Outline.after_name {o : Outline} {t : Tree} (ho : ∀ name, o.name = some name → p name)
    (ht : ∀ tok, t = .leaf tok → tok.shape = .word → p tok.text) :
    ∀ name, (o.after t).name = some name → p name := by
  intro name hname
  unfold Outline.after at hname
  split at hname
  case h_1 tok =>
    split at hname
    case isTrue hword =>
      split at hname
      case isTrue =>
        cases hname
        exact ht tok rfl hword
      case isFalse => exact ho name hname
    case isFalse =>
      dsimp only at hname
      split at hname
      · exact ho name hname
      · cases hname
  case h_2 =>
    dsimp only at hname
    split at hname
    · cases hname
    · exact ho name hname
  case h_3 => cases hname
  case h_4 => exact ho name hname

theorem Outline.foldl_after_name {row : List Tree} {o : Outline}
    (ho : ∀ name, o.name = some name → p name)
    (hrow : ∀ tok, .leaf tok ∈ row → tok.shape = .word → p tok.text) :
    ∀ name, (row.foldl Outline.after o).name = some name → p name := by
  induction row generalizing o with
  | nil => exact ho
  | cons t row ih =>
      refine ih (Outline.after_name ho ?_) fun tok htok => hrow tok (List.mem_cons_of_mem t htok)
      rintro tok rfl
      exact hrow tok List.mem_cons_self

/-- What is looked up is a word of the row. -/
theorem exists_word_of_nameOfRow {row : List Tree} {name : String}
    (h : nameOfRow row = some name) :
    ∃ tok, .leaf tok ∈ row ∧ tok.shape = .word ∧ tok.text = name := by
  unfold nameOfRow at h
  have hmem : ∀ t ∈ row.dropWhile (isNode .annotationMark), t ∈ row := fun t ht =>
    (List.dropWhile_sublist _).mem ht
  cases hrow : row.dropWhile (isNode .annotationMark) with
  | nil =>
      rw [hrow] at h
      cases h
  | cons c cs =>
      rw [hrow] at h hmem
      have hall : ∀ tok, .leaf tok ∈ c :: cs → tok.shape = .word →
          ∃ tok', .leaf tok' ∈ row ∧ tok'.shape = .word ∧ tok'.text = tok.text :=
        fun tok htok hword => ⟨tok, hmem _ htok, hword, rfl⟩
      refine Outline.foldl_after_name
        (p := fun name => ∃ tok, .leaf tok ∈ row ∧ tok.shape = .word ∧ tok.text = name) ?_
        (fun tok htok => hall tok (List.mem_cons_of_mem c htok)) name h
      intro name hname
      unfold Outline.start at hname
      split at hname
      case h_1 tok =>
        split at hname
        case isTrue hword =>
          cases hname
          exact hall tok List.mem_cons_self hword
        case isFalse => cases hname
      case h_2 => cases hname

end Words

/-- With brackets at the end there is no name. -/
theorem nameOfRow_brackets (core pairs : List Tree) :
    nameOfRow (core ++ [.node .dimensions pairs]) = none := by
  unfold nameOfRow
  rw [List.dropWhile_append]
  cases core.dropWhile (isNode .annotationMark) with
  | nil => rfl
  | cons c cs =>
      simp only [List.isEmpty_cons, Bool.false_eq_true, if_false, List.cons_append,
        List.foldl_append, List.foldl_cons, List.foldl_nil]
      rfl

end JavaAtlas.Java
