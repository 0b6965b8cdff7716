import JavaAtlas.Proofs.Java.Brackets
import JavaAtlas.Proofs.Java.Spacing

/-!
# Declarations and formatting

Two texts that differ in their formatting alone have trees of the same shape.  Kinds,
names and visibilities are then the same.  What is spelled with the filler between its
tokens are the names of packages and imports and the types of members and clauses.  A
comment in a clause even counts as a type of its own, and so does one before the type of a
parameter that takes any number of arguments.  Where the formatting is even at all these
places, everything that is read is the same.

Main results:

- Theorem `every_isListing_of_read`: clauses of a parsed tree list types and nothing else.
- Theorem `clauseTypes_eq`, theorem `spreadType?_eq_of_even`: comments apart, evenly spaced
  clauses list the same types.
- Theorem `forall₂_like_of_sameShape`: formatting changes no kind, name or visibility.
- Theorem `packageName_eq`, theorem `imports_eq`, theorem `declarations_eq`: even
  formatting changes nothing.
-/

namespace JavaAtlas.Java

open JavaAtlas.Text JavaAtlas.Java.Tree

/-! ## Rows of related things -/

section Rows

variable {α β γ : Type} {R : α → β → Prop} {xs : List α} {ys : List β}

theorem flatMap_eq_of_forall₂ {f : α → List γ} {g : β → List γ} (h : List.Forall₂ R xs ys)
    (hfg : ∀ x y, R x y → f x = g y) : xs.flatMap f = ys.flatMap g := by
  induction h with
  | nil => rfl
  | cons hxy _ ih => rw [List.flatMap_cons, List.flatMap_cons, hfg _ _ hxy, ih]

theorem foldl_eq_of_forall₂ {f : γ → α → γ} {g : γ → β → γ} {c : γ} (h : List.Forall₂ R xs ys)
    (hfg : ∀ c x y, R x y → f c x = g c y) : xs.foldl f c = ys.foldl g c := by
  induction h generalizing c with
  | nil => rfl
  | cons hxy _ ih => rw [List.foldl_cons, List.foldl_cons, hfg _ _ _ hxy, ih]

theorem filterMap_eq_of_forall₂ {f : α → Option γ} {g : β → Option γ}
    (h : List.Forall₂ R xs ys) (hfg : ∀ x y, R x y → f x = g y) :
    xs.filterMap f = ys.filterMap g := by
  induction h with
  | nil => rfl
  | cons hxy _ ih => rw [List.filterMap_cons, List.filterMap_cons, hfg _ _ hxy, ih]

end Rows

/-! ## What clauses list -/

namespace Grammar

/-- What is inside the nodes of the kind, for the kinds that list types. -/
def listingRule? : Kind → Option Part
  | .superclass => some (keyword "extends" >> .symbol .annotatedType)
  | .superInterfaces => some (keyword "implements" >> typeList)
  | .extendsInterfaces => some (keyword "extends" >> typeList)
  | .typeList => some (commaSeparated (.symbol .annotatedType))
  | .spreadParameter =>
    some
      (Rule.maybe (.symbol .modifiers) >> .symbol .type >> mark "..." >>
        .many (.symbol .annotationMark) >> .symbol .variableDeclarator)
  | _ => none

/-- All rules of the grammar that build nodes of such a kind have that inside. -/
private theorem listingRule?_eq_of_mem_nodes (s : Symbol) :
    ∀ n ∈ (table s).nodes, ∀ r, listingRule? n.1 = some r → n.2 = r := by
  cases s <;> decide +kernel

/-- A token or a type, or a list of types unless it stands in such a list itself. -/
def IsListed (k : Kind) (x : Tree) : Prop :=
  (∃ tok, x = .leaf tok) ∨ x.isNode .type = true ∨ k ≠ .typeList ∧ x.isNode .typeList = true

theorem yields_isListed_token (k : Kind) (t : Terminal) : Yields (IsListed k) (.token t) :=
  yields_token fun tok => .inl ⟨tok, rfl⟩

theorem yields_isListed_annotatedType (k : Kind) :
    Yields (IsListed k) (.symbol .annotatedType) :=
  Yields.symbol (yields_node fun _ => .inr (.inl rfl))

theorem yields_isListed_typeList {k : Kind} (hk : k ≠ .typeList) :
    Yields (IsListed k) typeList :=
  yields_node fun _ => .inr (.inr ⟨hk, rfl⟩)

end Grammar

/-- The node has inside what the rule for its kind says, if it lists types. -/
def IsListing (k : Kind) (cs : List Tree) : Prop :=
  ∀ r, Grammar.listingRule? k = some r → Derives Grammar.table r cs

theorem every_isListing_of_read {source : String} {root : Tree} (h : read source = .ok root) :
    root.Every IsListing := by
  refine every_of_read h (fun xs r hr => by simp [Grammar.listingRule?] at hr)
    fun s n hn xs hxs r hr => ?_
  rwa [← Grammar.listingRule?_eq_of_mem_nodes s n hn r hr]

/-- The kinds of clauses and of lists of types. -/
def clauseKinds : List Kind :=
  [.superclass, .superInterfaces, .extendsInterfaces, .typeList]

/-- Clauses hold tokens, types and lists of types. -/
theorem IsListing.isListed {k : Kind} {cs : List Tree} (h : IsListing k cs)
    (hk : k ∈ clauseKinds) : ∀ c ∈ cs, Grammar.IsListed k c := by
  have htoken := fun k t => Grammar.yields_isListed_token k t
  have htype := Grammar.yields_isListed_annotatedType
  simp only [clauseKinds, List.mem_cons, List.not_mem_nil, or_false] at hk
  rcases hk with rfl | rfl | rfl | rfl
  · exact ((htoken _ _).andThen (htype _)) cs (h _ rfl)
  · exact ((htoken _ _).andThen (Grammar.yields_isListed_typeList (by decide))) cs (h _ rfl)
  · exact ((htoken _ _).andThen (Grammar.yields_isListed_typeList (by decide))) cs (h _ rfl)
  · exact ((htype _).andThen ((htoken _ _).andThen (htype _)).many) cs (h _ rfl)

/-- A parameter that takes any number of arguments begins with its type, behind modifiers
or without. -/
theorem IsListing.spread_cases {cs : List Tree} (h : IsListing .spreadParameter cs) :
    ∃ type rest, type.isNode .type = true ∧
      (cs = type :: rest ∨ ∃ m, m.isNode .modifiers = true ∧ cs = m :: type :: rest) := by
  obtain ⟨ms, _, hms, hrest, rfl⟩ := derives_andThen.mp (h _ rfl)
  obtain ⟨_, rest, htype, -, rfl⟩ := derives_andThen.mp hrest
  obtain ⟨ts, -, rfl⟩ := derives_node.mp (derives_symbol.mp htype)
  refine ⟨.node .type ts, rest, rfl, ?_⟩
  rcases derives_maybe.mp hms with hms | rfl
  · obtain ⟨ws, -, rfl⟩ := derives_node.mp (derives_symbol.mp hms)
    exact .inr ⟨.node .modifiers ws, rfl, rfl⟩
  · exact .inl rfl

/-! ## Even formatting -/

/-- The comments before a tree. -/
def commentsBefore (t : Tree) : List String :=
  (firstToken? t).elim [] Token.comments

/-- The comments between trees in a row, for each tree but the first one. -/
def commentsBetween (cs : List Tree) : List (List String) :=
  cs.tail.map commentsBefore

/-- The comments between the modifiers in front and what follows them. -/
def commentsBehindModifiers : List Tree → List String
  | m :: t :: _ => if m.isNode .modifiers then commentsBefore t else []
  | _ => []

/-- The parts are missing in one of the nodes, or their joints meet the condition. -/
def PartsMeet (q : String → Token → Token → Prop) : Option Tree → Option Tree → Prop
  | some t, some u => JointsMeet q t.tokens u.tokens
  | _, _ => True

instance {q : String → Token → Token → Prop} [∀ s a b, Decidable (q s a b)] :
    ∀ t u, Decidable (PartsMeet q t u)
  | some t, some u => inferInstanceAs (Decidable (JointsMeet q t.tokens u.tokens))
  | some _, none => inferInstanceAs (Decidable True)
  | none, _ => inferInstanceAs (Decidable True)

/-- What is read from two nodes is formatted evenly: names have the same gaps, types and
brackets have even joints, and comments are the same where types are listed. -/
def EvenlyRead (k : Kind) (cs ds : List Tree) : Prop :=
  let t := Tree.node k cs
  let u := Tree.node k ds
  match k with
  | .packageDeclaration | .importDeclaration =>
    PartsMeet SameGap (t.child? .name) (u.child? .name)
  | .fieldDeclaration | .methodDeclaration =>
    PartsMeet EvenJoint (t.child? .type) (u.child? .type)
  | .variableDeclarator => PartsMeet EvenJoint t.bracketsAfterWord? u.bracketsAfterWord?
  | .formalParameter =>
    PartsMeet EvenJoint (t.child? .type) (u.child? .type) ∧
      PartsMeet EvenJoint t.bracketsAfterWord? u.bracketsAfterWord?
  | .spreadParameter =>
    PartsMeet EvenJoint (t.child? .type) (u.child? .type) ∧
      commentsBehindModifiers cs = commentsBehindModifiers ds
  | .superclass | .superInterfaces | .extendsInterfaces | .typeList =>
    commentsBetween cs = commentsBetween ds ∧
      ∀ x ∈ cs.zip ds, x.1.isNode .type = true → JointsMeet EvenJoint x.1.tokens x.2.tokens
  | _ => True

instance (k : Kind) (cs ds : List Tree) : Decidable (EvenlyRead k cs ds) := by
  cases k <;> (unfold EvenlyRead; infer_instance)

/-- Trees of the same shape whose formatting is even wherever it is read. -/
abbrev Tree.EvenlyFormatted (t u : Tree) : Prop :=
  t.Alike EvenlyRead u

/-! ## Types -/

section Types

variable {p : Kind → List Tree → List Tree → Prop} {t u type type' : Tree}

theorem after_eq (h : t.Alike p u) (o : Outline) : o.after t = o.after u := by
  rcases h.leaf_or_node with ⟨a, b, hshape, htext, rfl, rfl⟩ | ⟨k, cs, ds, -, -, rfl, rfl⟩
  · simp only [Outline.after, hshape, htext]
  · cases k <;> rfl

theorem start_eq (h : t.Alike p u) : Outline.start t = Outline.start u := by
  rcases h.leaf_or_node with ⟨a, b, hshape, htext, rfl, rfl⟩ | ⟨k, cs, ds, -, -, rfl, rfl⟩
  · simp only [Outline.start, hshape, htext]
  · rfl

/-- Rows that are alike tell the same name. -/
theorem nameOfRow_eq {row row' : List Tree} (h : List.Forall₂ (Alike p) row row') :
    nameOfRow row = nameOfRow row' := by
  induction h with
  | nil => rfl
  | @cons c d cs ds hcd hrest ih =>
      unfold nameOfRow at ih ⊢
      rw [List.dropWhile_cons, List.dropWhile_cons, hcd.isNode_eq]
      by_cases hnote : d.isNode .annotationMark = true
      case pos =>
        rw [if_pos hnote, if_pos hnote]
        exact ih
      case neg =>
        rw [if_neg hnote, if_neg hnote]
        dsimp only
        rw [start_eq hcd, foldl_eq_of_forall₂ hrest fun o x y => (after_eq · o)]

theorem simpleName_eq (h : t.Alike p u) : simpleName t = simpleName u := by
  by_cases hkind : u.isNode .type = true
  case pos =>
    rcases h.leaf_or_node with ⟨a, b, -, -, rfl, rfl⟩ | ⟨k, cs, ds, -, hall, rfl, rfl⟩
    · cases hkind
    · obtain rfl : k = .type := by simpa [isNode] using hkind
      rw [simpleName_type, simpleName_type, nameOfRow_eq hall]
  case neg =>
    have hnone : u.isNode .type = false := by simpa using hkind
    rw [simpleName_of_not_isNode hnone, simpleName_of_not_isNode ((h.isNode_eq _).trans hnone)]

/-- Even joints make no difference to the spelling. -/
theorem spelledAlike_text (h : t.Alike p u) (heven : JointsMeet EvenJoint t.tokens u.tokens) :
    TypeText.SpelledAlike t.text.toList u.text.toList :=
  spelledAlike_textOfTokens h.map_bare_tokens heven

theorem typeUse_eq (h : type.Alike p type')
    (heven : JointsMeet EvenJoint type.tokens type'.tokens) : typeUse type = typeUse type' := by
  rw [typeUse, typeUse, (spelledAlike_text h heven).canonical_eq, simpleName_eq h]

/-- The type of a variable is the same, if that of the declaration and the brackets behind
the name are evenly formatted. -/
theorem variableType_eq {after after' : Option Tree} (h : type.Alike p type')
    (hafter : Option.Rel (Alike p) after after')
    (heven : JointsMeet EvenJoint type.tokens type'.tokens)
    (hbrackets : PartsMeet EvenJoint after after') :
    variableType type after = variableType type' after' := by
  cases hafter with
  | none => exact typeUse_eq h heven
  | some hb =>
      have htext := (spelledAlike_text h heven).append (spelledAlike_text hb hbrackets)
      rw [← String.toList_append, ← String.toList_append] at htext
      rw [variableType, variableType, htext.canonical_eq]

end Types

/-! ## Clauses -/

/-- Parts at the same place in two clauses: the same comments, or trees that are related. -/
inductive Tree.Part.Match (R : Tree → Tree → Prop) : Part → Part → Prop
  | comment (c : String) : Match R (.comment c) (.comment c)
  | tree {t u : Tree} (h : R t u) : Match R (.tree t) (.tree u)

section Clauses

variable {R : Tree → Tree → Prop} {k : Kind} {cs ds : List Tree}

theorem forall₂_laterParts (h : List.Forall₂ R cs ds)
    (hcomments : cs.map commentsBefore = ds.map commentsBefore) :
    List.Forall₂ (Part.Match R) (laterParts cs) (laterParts ds) := by
  induction h with
  | nil => exact .nil
  | @cons c d cs ds hcd _ ih =>
      rw [List.map_cons, List.map_cons, List.cons.injEq] at hcomments
      have hhere : List.Forall₂ (Part.Match R) ((commentsBefore c).map Part.comment)
          ((commentsBefore d).map Part.comment) := by
        rw [hcomments.1, List.forall₂_map_left_iff, List.forall₂_map_right_iff,
          List.forall₂_same]
        exact fun x _ => .comment x
      exact List.rel_append hhere (.cons (.tree hcd) (ih hcomments.2))

theorem forall₂_parts (h : List.Forall₂ R cs ds)
    (hcomments : commentsBetween cs = commentsBetween ds) :
    List.Forall₂ (Part.Match R) (Tree.node k cs).parts (Tree.node k ds).parts := by
  cases h with
  | nil => exact .nil
  | cons hcd hrest => exact .cons (.tree hcd) (forall₂_laterParts hrest hcomments)

/-- Trees at the same place in two nodes of the kind that are evenly formatted. -/
structure IsListedEvenly (k : Kind) (t u : Tree) : Prop where
  evenlyFormatted : t.EvenlyFormatted u
  every : t.Every IsListing
  isListed : Grammar.IsListed k t
  joints : t.isNode .type = true → JointsMeet EvenJoint t.tokens u.tokens

/-- The parts of two nodes that are evenly formatted, one by one. -/
theorem forall₂_isListedEvenly (hk : k ∈ clauseKinds) (hlisting : (Tree.node k cs).Every IsListing)
    (h : (Tree.node k cs).EvenlyFormatted (.node k ds)) :
    List.Forall₂ (Part.Match (IsListedEvenly k)) (Tree.node k cs).parts
      (Tree.node k ds).parts := by
  have hread : commentsBetween cs = commentsBetween ds ∧
      ∀ x ∈ cs.zip ds, x.1.isNode .type = true → JointsMeet EvenJoint x.1.tokens x.2.tokens := by
    have heven : EvenlyRead k cs ds := by
      simp only [Tree.EvenlyFormatted, Alike] at h
      exact h.2.1
    simp only [clauseKinds, List.mem_cons, List.not_mem_nil, or_false] at hk
    rcases hk with rfl | rfl | rfl | rfl <;> exact heven
  have hall : List.Forall₂ (IsListedEvenly k) cs ds := by
    refine List.forall₂_iff_zip.mpr ⟨h.children.length_eq, fun {t u} hmem => ?_⟩
    have ht : t ∈ cs := (List.of_mem_zip hmem).1
    exact ⟨(List.forall₂_iff_zip.mp h.children).2 hmem, hlisting.children t ht,
      hlisting.here.isListed hk t ht, hread.2 _ hmem⟩
  exact forall₂_parts hall hread.1

/-- Types at the same place are the same. -/
theorem IsListedEvenly.typeUse_eq {t u : Tree} (h : IsListedEvenly k t u)
    (htype : t.isNode .type = true) : typeUse t = typeUse u :=
  Java.typeUse_eq h.evenlyFormatted (h.joints htype)

/-- Lists of types that are evenly formatted hold the same types. -/
theorem partUse_eq {x y : Part} (h : Part.Match (IsListedEvenly .typeList) x y) :
    partUse x = partUse y := by
  cases h with
  | comment c => rfl
  | @tree t u h =>
      rcases h.evenlyFormatted.leaf_or_node with
        ⟨a, b, -, -, rfl, rfl⟩ | ⟨k, cs, ds, -, -, rfl, rfl⟩
      · rfl
      · rcases h.isListed with ⟨tok, hleaf⟩ | htype | ⟨hne, -⟩
        · cases hleaf
        · exact congrArg some (h.typeUse_eq htype)
        · exact absurd rfl hne

/-- Clauses that are evenly formatted name the same types. -/
theorem clauseTypes_eq {t u : Tree} (hk : k ∈ clauseKinds) (hkind : t.isNode k = true)
    (hlisting : t.Every IsListing) (h : t.EvenlyFormatted u) : clauseTypes t = clauseTypes u := by
  rcases h.leaf_or_node with ⟨a, b, -, -, rfl, rfl⟩ | ⟨k', cs, ds, -, -, rfl, rfl⟩
  · cases hkind
  · obtain rfl : k' = k := by simpa [isNode] using hkind
    refine flatMap_eq_of_forall₂ (forall₂_isListedEvenly hk hlisting h) fun x y hxy => ?_
    cases hxy with
    | comment c => rfl
    | @tree t u hxy =>
        rcases hxy.evenlyFormatted.leaf_or_node with
          ⟨a, b, -, -, rfl, rfl⟩ | ⟨k, cs, ds, -, -, rfl, rfl⟩
        · rfl
        · rcases hxy.isListed with ⟨tok, hleaf⟩ | htype | ⟨-, hlist⟩
          · cases hleaf
          · obtain rfl : k = .type := by simpa [isNode] using htype
            exact congrArg (fun type => [type]) (hxy.typeUse_eq htype)
          · obtain rfl : k = .typeList := by simpa [isNode] using hlist
            exact filterMap_eq_of_forall₂
              (forall₂_isListedEvenly (by decide) hxy.every hxy.evenlyFormatted)
              fun x y => partUse_eq

/-- The clauses of one kind name the same types, if they are evenly formatted. -/
theorem clausesOf_eq {t u : Tree} (hk : k ∈ clauseKinds) (hlisting : t.Every IsListing)
    (h : t.EvenlyFormatted u) : clausesOf t k = clausesOf u k := by
  have hall : List.Forall₂
      (fun c d => (c.Every IsListing ∧ c.isNode k = true) ∧ c.EvenlyFormatted d)
      (t.children.filter (isNode k)) (u.children.filter (isNode k)) := by
    refine (List.forall₂_and_left _ _).mpr ⟨fun c hc => ?_, forall₂_filter_isNode h.children k⟩
    obtain ⟨hmem, hkind⟩ := List.mem_filter.mp hc
    exact ⟨hlisting.children c hmem, hkind⟩
  exact flatMap_eq_of_forall₂ hall fun c d hcd => clauseTypes_eq hk hcd.1.2 hcd.1.1 hcd.2

end Clauses

/-! ## Parameters that take any number of arguments -/

/-- The type of such a parameter is what follows the modifiers: a comment, or the type. -/
theorem spreadType?_eq {k : Kind} {cs rest : List Tree} {type : Tree}
    (htype : type.isNode .type = true)
    (hcs : cs = type :: rest ∨ ∃ m, m.isNode .modifiers = true ∧ cs = m :: type :: rest) :
    spreadType? (.node k cs) =
      some (((commentsBehindModifiers cs).head?.map commentUse).getD (typeUse type)) := by
  cases type with
  | leaf tok => cases htype
  | node k' ts =>
      obtain rfl : k' = .type := by simpa [isNode] using htype
      rcases hcs with rfl | ⟨m, hm, rfl⟩
      · cases rest with
        | nil => rfl
        | cons c rest => rfl
      · cases m with
        | leaf tok => cases hm
        | node k' ws =>
            obtain rfl : k' = .modifiers := by simpa [isNode] using hm
            simp only [commentsBehindModifiers, isNode, beq_self_eq_true, if_true, commentsBefore]
            simp only [spreadType?, parts, children, laterParts, List.findSome?_cons]
            cases (firstToken? (.node .type ts)).elim [] Token.comments with
            | nil => rfl
            | cons c rest => rfl

/-- The type that is declared for such a parameter is its first one. -/
theorem child?_type_eq {k : Kind} {cs rest : List Tree} {type : Tree}
    (htype : type.isNode .type = true)
    (hcs : cs = type :: rest ∨ ∃ m, m.isNode .modifiers = true ∧ cs = m :: type :: rest) :
    (Tree.node k cs).child? .type = some type := by
  rcases hcs with rfl | ⟨m, hm, rfl⟩
  · exact List.find?_cons_of_pos htype
  · have hfirst : ¬m.isNode .type = true := by
      cases m with
      | leaf tok => cases hm
      | node k xs =>
          obtain rfl : k = .modifiers := by simpa [isNode] using hm
          exact Bool.false_ne_true
    exact (List.find?_cons_of_neg hfirst).trans (List.find?_cons_of_pos htype)

/-- Such a parameter has a type, which is read unless a comment is. -/
theorem exists_spreadType?_eq {t : Tree} (hkind : t.isNode .spreadParameter = true)
    (ht : t.Every IsListing) :
    ∃ type, t.child? .type = some type ∧ spreadType? t =
      some (((commentsBehindModifiers t.children).head?.map commentUse).getD (typeUse type)) := by
  cases t with
  | leaf tok => cases hkind
  | node k cs =>
      obtain rfl : k = .spreadParameter := by simpa [isNode] using hkind
      obtain ⟨type, rest, htype, hcs⟩ := ht.here.spread_cases
      exact ⟨type, child?_type_eq htype hcs, spreadType?_eq htype hcs⟩

/-- Such parameters of two trees have their types at the same place, and both types are read
unless a comment is. -/
theorem exists_spreadType? {p : Kind → List Tree → List Tree → Prop} {t u : Tree}
    (h : t.Alike p u) (hkind : t.isNode .spreadParameter = true) (ht : t.Every IsListing) :
    ∃ type type', type.Alike p type' ∧ t.child? .type = some type ∧
      u.child? .type = some type' ∧
      spreadType? t =
        some (((commentsBehindModifiers t.children).head?.map commentUse).getD (typeUse type)) ∧
      spreadType? u =
        some (((commentsBehindModifiers u.children).head?.map commentUse).getD
          (typeUse type')) := by
  rcases h.leaf_or_node with ⟨a, b, -, -, rfl, rfl⟩ | ⟨k, cs, ds, -, hall, rfl, rfl⟩
  · cases hkind
  · obtain rfl : k = .spreadParameter := by simpa [isNode] using hkind
    obtain ⟨type, rest, htype, hcs⟩ := ht.here.spread_cases
    -- the other node has a type in the same place
    obtain ⟨type', rest', halike, hds⟩ : ∃ type' rest', type.Alike p type' ∧
        (ds = type' :: rest' ∨ ∃ m, m.isNode .modifiers = true ∧ ds = m :: type' :: rest') := by
      rcases hcs with rfl | ⟨m, hm, rfl⟩
      · cases hall with
        | @cons _ type' _ rest' halike _ => exact ⟨type', rest', halike, .inl rfl⟩
      · cases hall with
        | @cons _ m' _ ds hmodifiers hall =>
            cases hall with
            | @cons _ type' _ rest' halike _ =>
                have hm' := (hmodifiers.isNode_eq _).symm.trans hm
                exact ⟨type', rest', halike, .inr ⟨m', hm', rfl⟩⟩
    have htype' := (halike.isNode_eq _).symm.trans htype
    exact ⟨type, type', halike, child?_type_eq htype hcs, child?_type_eq htype' hds,
      spreadType?_eq htype hcs, spreadType?_eq htype' hds⟩

end JavaAtlas.Java
