import JavaAtlas.Proofs.Java.Brackets

/-!
# Own names of types

A type is written as a primitive word, or as identifiers with dots between, where annotations
may stand before each identifier and type arguments behind it; brackets make it an array.  The
last identifier is the type's own name, and all identifiers before it only qualify it.  A type
is looked up by its own name, so nothing in its annotations, type arguments and qualifiers
makes a difference.

Main definitions:

- `WrittenType`: a type as it is written.
- `WrittenType.ownName?`: the own name of a type that has one.
- `WrittenType.SameName`: types that differ in nothing but what stands around the own name.

Main results:

- Theorem `WrittenType.tokens_typeNode`: the nested nodes of a type hold what is written.
- Theorem `WrittenType.simpleName_tree`: a type is looked up by its own name.
- Theorem `exists_writtenType`: every type of a parsed tree is a written type.
-/

namespace JavaAtlas.Java

open JavaAtlas.Java.Tree

/-! ## Written types -/

/-- A node of the kind. -/
abbrev NodeOf (k : Kind) := {t : Tree // t.isNode k = true}

/-- A token that is a word. -/
abbrev Word := {tok : Token // tok.shape = .word}

/-- A token that is a dot. -/
abbrev Dot := {tok : Token // tok.shape = .mark ∧ tok.text = "."}

/-- An identifier with the annotations before it and the type arguments behind it. -/
structure Segment where
  annotations : List (NodeOf .annotationMark)
  identifier : Word
  arguments : Option (NodeOf .typeArguments)

/-- The name of a type. -/
inductive TypeName where
  /-- The word of a primitive type or of the missing type. -/
  | primitive (annotations : List (NodeOf .annotationMark)) (word : NodeOf .primitiveType)
  /-- The own segment of a class or an interface, behind the ones that qualify it, each of
  these with the dot behind it. -/
  | named (qualifiers : List (Segment × Dot)) (own : Segment)

/-- A type with brackets or without. -/
structure WrittenType where
  name : TypeName
  brackets : Option (NodeOf .dimensions)

/-- The trees of a segment. -/
def Segment.trees (s : Segment) : List Tree :=
  s.annotations.map Subtype.val ++
    .leaf s.identifier :: (s.arguments.map Subtype.val).toList

/-- The trees of segments, each followed by its dot. -/
def qualifierTrees (qualifiers : List (Segment × Dot)) : List Tree :=
  qualifiers.flatMap fun q => q.1.trees ++ [.leaf q.2]

/-- The trees of a name. -/
def TypeName.trees : TypeName → List Tree
  | primitive annotations word => annotations.map Subtype.val ++ [word.val]
  | named qualifiers own => qualifierTrees qualifiers ++ own.trees

namespace WrittenType

/-- The node of a type. -/
def tree (τ : WrittenType) : Tree :=
  .node .type (τ.name.trees ++ (τ.brackets.map Subtype.val).toList)

/-- The type is primitive, or the missing type. -/
def IsPrimitive (τ : WrittenType) : Prop :=
  ∃ annotations word, τ.name = .primitive annotations word

/-- The type is an array. -/
def IsArray (τ : WrittenType) : Prop :=
  τ.brackets.isSome = true

/-- The last identifier of the name; a primitive type and an array have none. -/
def ownName? (τ : WrittenType) : Option String :=
  match τ.brackets, τ.name with
  | none, .named _ own => some own.identifier.val.text
  | _, _ => none

/-- Names that differ at most in annotations, type arguments and qualifiers. -/
inductive SameOwn : TypeName → TypeName → Prop where
  | primitive (as as' : List (NodeOf .annotationMark)) (w w' : NodeOf .primitiveType) :
      SameOwn (.primitive as w) (.primitive as' w')
  | named (qs qs' : List (Segment × Dot)) (as as' : List (NodeOf .annotationMark))
      (args args' : Option (NodeOf .typeArguments)) {identifier identifier' : Word}
      (hsame : identifier.val.text = identifier'.val.text) :
      SameOwn (.named qs ⟨as, identifier, args⟩) (.named qs' ⟨as', identifier', args'⟩)

/-- Types whose names differ at most in annotations, type arguments and qualifiers, and both
of which are arrays or neither of which is one. -/
structure SameName (τ τ' : WrittenType) : Prop where
  name : SameOwn τ.name τ'.name
  isArray_iff : τ.IsArray ↔ τ'.IsArray

end WrittenType

/-! ## Nested nodes of a written type -/

/-- A node is of one kind. -/
theorem isNode_eq_false {t : Tree} {k k' : Kind} (h : t.isNode k = true) (hne : (k == k') = false) :
    t.isNode k' = false := by
  cases t with
  | leaf tok => rfl
  | node k'' cs =>
      obtain rfl : k'' = k := by simpa [isNode] using h
      exact hne

/-- Segments have nodes of two kinds only. -/
theorem isNode_of_mem_segment {s : Segment} {k : Kind} (hnote : (Kind.annotationMark == k) = false)
    (harguments : (Kind.typeArguments == k) = false) : ∀ t ∈ s.trees, t.isNode k = false := by
  intro t ht
  rw [Segment.trees, List.mem_append, List.mem_cons] at ht
  rcases ht with ht | rfl | ht
  · obtain ⟨a, -, rfl⟩ := List.mem_map.mp ht
    exact isNode_eq_false a.property hnote
  · rfl
  · obtain ⟨a, -, rfl⟩ := Option.map_eq_some_iff.mp (Option.mem_toList.mp ht)
    exact isNode_eq_false a.property harguments

/-- So have names that are made of them. -/
theorem isNode_of_mem_named {qualifiers : List (Segment × Dot)} {own : Segment} {k : Kind}
    (hnote : (Kind.annotationMark == k) = false)
    (harguments : (Kind.typeArguments == k) = false) :
    ∀ t ∈ (TypeName.named qualifiers own).trees, t.isNode k = false := by
  intro t ht
  rcases List.mem_append.mp ht with ht | ht
  · obtain ⟨q, -, ht⟩ := List.mem_flatMap.mp ht
    rcases List.mem_append.mp ht with ht | ht
    · exact isNode_of_mem_segment hnote harguments t ht
    · rw [List.mem_singleton.mp ht]
      rfl
  · exact isNode_of_mem_segment hnote harguments t ht

/-- What stands behind the annotations of a row begins with the first tree that is none. -/
theorem dropWhile_annotations (annotations : List (NodeOf .annotationMark)) {t : Tree}
    (ht : t.isNode .annotationMark = false) (rest : List Tree) :
    (annotations.map Subtype.val ++ t :: rest).dropWhile (isNode .annotationMark) = t :: rest := by
  induction annotations with
  | nil => simp [ht]
  | cons a annotations ih =>
      rw [List.map_cons, List.cons_append, List.dropWhile_cons_of_pos a.property, ih]

namespace Outline

/-- Annotations leave an outline as it is. -/
theorem foldl_annotations (annotations : List (NodeOf .annotationMark)) (o : Outline) :
    (annotations.map Subtype.val).foldl after o = o := by
  induction annotations with
  | nil => rfl
  | cons a annotations ih =>
      obtain ⟨t, ht⟩ := a
      cases t with
      | leaf tok => cases ht
      | node k cs =>
          obtain rfl : k = .annotationMark := by simpa [isNode] using ht
          exact ih

/-- Type arguments keep a name that is there. -/
theorem name_foldl_arguments (arguments : Option (NodeOf .typeArguments)) {o : Outline}
    (ho : o.form ≠ .other) :
    ((arguments.map Subtype.val).toList.foldl after o).name = o.name := by
  cases arguments with
  | none => rfl
  | some a =>
      obtain ⟨t, ht⟩ := a
      cases t with
      | leaf tok => cases ht
      | node k cs =>
          obtain rfl : k = .typeArguments := by simpa [isNode] using ht
          exact if_neg ho

/-- A dot begins a name that goes on. -/
theorem form_after_dot (dot : Dot) (o : Outline) : (o.after (.leaf dot)).form = .scoped := by
  have hword : dot.val.shape ≠ .word := by simp [dot.property.1]
  simp only [after, if_neg hword]

/-- Behind a dot a segment gives its identifier as the name. -/
theorem name_foldl_segment (s : Segment) {o : Outline} (ho : o.form = .scoped) :
    (s.trees.foldl after o).name = some s.identifier.val.text := by
  have hidentifier : o.after (.leaf s.identifier) = ⟨.scoped, some s.identifier.val.text⟩ := by
    simp only [after, if_pos s.identifier.property, if_pos ho]
  rw [Segment.trees, List.foldl_append, foldl_annotations, List.foldl_cons, hidentifier,
    name_foldl_arguments s.arguments (by simp)]

theorem takesAll_annotations (annotations : List (NodeOf .annotationMark)) {o : Outline}
    (ho : o.form = .scoped) : o.TakesAll (annotations.map Subtype.val) := by
  induction annotations with
  | nil => trivial
  | cons a annotations ih =>
      obtain ⟨t, ht⟩ := a
      cases t with
      | leaf tok => cases ht
      | node k cs =>
          obtain rfl : k = .annotationMark := by simpa [isNode] using ht
          exact ⟨ho, ih⟩

theorem takesAll_arguments (arguments : Option (NodeOf .typeArguments)) (o : Outline) :
    o.TakesAll (arguments.map Subtype.val).toList := by
  cases arguments with
  | none => trivial
  | some a =>
      obtain ⟨t, ht⟩ := a
      cases t with
      | leaf tok => cases ht
      | node k cs =>
          obtain rfl : k = .typeArguments := by simpa [isNode] using ht
          exact ⟨trivial, trivial⟩

theorem takes_dot (dot : Dot) (o : Outline) : o.Takes (.leaf dot) := by
  intro hword
  cases hword.symm.trans dot.property.1

/-- A segment behind a dot is taken in. -/
theorem takesAll_segment (s : Segment) {o : Outline} (ho : o.form = .scoped) :
    o.TakesAll s.trees := by
  rw [Segment.trees, takesAll_append, foldl_annotations]
  exact ⟨takesAll_annotations _ ho, fun _ => ho, takesAll_arguments _ _⟩

/-- So are all segments with dots between. -/
theorem takesAll_qualified (qualifiers : List (Segment × Dot)) (own : Segment) {o : Outline}
    (ho : o.form = .scoped) : o.TakesAll (qualifierTrees qualifiers ++ own.trees) := by
  induction qualifiers generalizing o with
  | nil => exact takesAll_segment own ho
  | cons q qualifiers ih =>
      simp only [qualifierTrees, List.flatMap_cons, List.append_assoc] at ih ⊢
      rw [takesAll_append]
      exact ⟨takesAll_segment q.1 ho, takes_dot q.2 _, ih (form_after_dot q.2 _)⟩

/-- Behind dots the last segment counts. -/
theorem name_foldl_qualified (qualifiers : List (Segment × Dot)) (own : Segment) {o : Outline}
    (ho : o.form = .scoped) :
    ((qualifierTrees qualifiers ++ own.trees).foldl after o).name =
      some own.identifier.val.text := by
  induction qualifiers generalizing o with
  | nil => exact name_foldl_segment own ho
  | cons q qualifiers ih =>
      simp only [qualifierTrees, List.flatMap_cons, List.append_assoc, List.foldl_append,
        List.foldl_cons, List.foldl_nil] at ih ⊢
      exact ih (form_after_dot q.2 _)

end Outline

/-- The last identifier of a name; the word of a primitive type is none. -/
def TypeName.own? : TypeName → Option String
  | primitive _ _ => none
  | named _ own => some own.identifier.val.text

/-- Behind its annotations a name is taken in by its first tree and tells its last
identifier, whatever follows. -/
theorem TypeName.exists_row (n : TypeName) (rest : List Tree) :
    ∃ c cs, (n.trees ++ rest).dropWhile (isNode .annotationMark) = c :: (cs ++ rest) ∧
      (Outline.start c).TakesAll cs ∧ (cs.foldl Outline.after (.start c)).name = n.own? := by
  cases n with
  | primitive annotations word =>
      refine ⟨word.val, [], ?_, trivial, ?_⟩
      · rw [trees, List.append_assoc]
        exact dropWhile_annotations annotations (isNode_eq_false word.property rfl) rest
      · obtain ⟨t, ht⟩ := word
        cases t with
        | leaf tok => cases ht
        | node k cs => rfl
  | named qualifiers own =>
      -- the first segment begins with its identifier, behind a dot or not
      have hstart (w : Word) : Outline.start (.leaf w) = ⟨.identifier, some w.val.text⟩ :=
        if_pos w.property
      cases qualifiers with
      | nil =>
          refine ⟨.leaf own.identifier, (own.arguments.map Subtype.val).toList, ?_,
            Outline.takesAll_arguments _ _, ?_⟩
          · simp only [trees, qualifierTrees, List.flatMap_nil, List.nil_append, Segment.trees,
              List.append_assoc, List.cons_append]
            exact dropWhile_annotations own.annotations rfl _
          · rw [hstart, Outline.name_foldl_arguments _ (by simp)]
            rfl
      | cons q qualifiers =>
          refine ⟨.leaf q.1.identifier, (q.1.arguments.map Subtype.val).toList ++
            .leaf q.2 :: (qualifierTrees qualifiers ++ own.trees), ?_, ?_, ?_⟩
          · simp only [trees, qualifierTrees, List.flatMap_cons, Segment.trees,
              List.append_assoc, List.cons_append, List.nil_append]
            exact dropWhile_annotations q.1.annotations rfl _
          · rw [Outline.takesAll_append]
            exact ⟨Outline.takesAll_arguments _ _, Outline.takes_dot q.2 _,
              Outline.takesAll_qualified qualifiers own (Outline.form_after_dot q.2 _)⟩
          · rw [List.foldl_append, List.foldl_cons]
            exact Outline.name_foldl_qualified qualifiers own (Outline.form_after_dot q.2 _)

namespace WrittenType

/-- The row of a type is taken in by its first tree behind the annotations, and tells the
own name. -/
theorem exists_row (τ : WrittenType) :
    ∃ c cs, τ.tree.children.dropWhile (isNode .annotationMark) = c :: cs ∧
      (Outline.start c).TakesAll cs ∧ (cs.foldl Outline.after (.start c)).name = τ.ownName? := by
  obtain ⟨name, brackets⟩ := τ
  cases brackets with
  | none =>
      obtain ⟨c, cs, hrow, htakes, hname⟩ := name.exists_row []
      rw [List.append_nil cs] at hrow
      refine ⟨c, cs, hrow, htakes, ?_⟩
      rw [hname]
      cases name <;> rfl
  | some b =>
      obtain ⟨t, ht⟩ := b
      cases t with
      | leaf tok => cases ht
      | node k pairs =>
          obtain rfl : k = .dimensions := by simpa [isNode] using ht
          obtain ⟨c, cs, hrow, htakes, -⟩ := name.exists_row [.node .dimensions pairs]
          refine ⟨c, _, hrow, Outline.takesAll_append.mpr ⟨htakes, trivial, trivial⟩, ?_⟩
          rw [List.foldl_append]
          rfl

/-- The nested nodes of a type hold what is written. -/
theorem tokens_typeNode (τ : WrittenType) : (typeNode τ.tree).tokens = τ.tree.tokens := by
  obtain ⟨c, cs, hrow, htakes, -⟩ := τ.exists_row
  exact Java.tokens_typeNode hrow htakes

/-- A type is looked up by its own name. -/
theorem simpleName_tree (τ : WrittenType) : simpleName τ.tree = τ.ownName? := by
  obtain ⟨c, cs, hrow, -, hname⟩ := τ.exists_row
  have hnames : nameOfRow τ.tree.children = τ.ownName? := by
    rw [nameOfRow, hrow]
    exact hname
  exact (simpleName_type _).trans hnames

/-- A type has the node of a primitive type exactly if it is primitive. -/
theorem child?_primitiveType_eq_none_iff (τ : WrittenType) :
    τ.tree.child? .primitiveType = none ↔ ¬ τ.IsPrimitive := by
  rw [child?, List.find?_eq_none]
  constructor
  · rintro hnone ⟨annotations, word, hname⟩
    refine hnone word.val ?_ word.property
    simp [tree, children, hname, TypeName.trees]
  · intro hnamed t ht
    rw [Bool.not_eq_true]
    rcases List.mem_append.mp ht with ht | ht
    · cases hname : τ.name with
      | primitive annotations word => exact absurd ⟨annotations, word, hname⟩ hnamed
      | named qualifiers own =>
          rw [hname] at ht
          exact isNode_of_mem_named rfl rfl t ht
    · obtain ⟨b, -, rfl⟩ := Option.map_eq_some_iff.mp (Option.mem_toList.mp ht)
      exact isNode_eq_false b.property rfl

/-- A type has brackets among its children exactly if it is an array. -/
theorem child?_dimensions_eq_none_iff (τ : WrittenType) :
    τ.tree.child? .dimensions = none ↔ ¬ τ.IsArray := by
  rw [child?, List.find?_eq_none, IsArray, Bool.not_eq_true, Option.isSome_eq_false_iff,
    Option.isNone_iff_eq_none]
  constructor
  · intro hnone
    cases hbrackets : τ.brackets with
    | none => rfl
    | some b => exact absurd b.property (hnone b.val (by simp [tree, children, hbrackets]))
  · intro hbrackets t ht
    rw [Bool.not_eq_true]
    have hname : t ∈ τ.name.trees := by simpa [tree, children, hbrackets] using ht
    cases hn : τ.name with
    | primitive annotations word =>
        rw [hn] at hname
        rcases List.mem_append.mp hname with hname | hname
        · obtain ⟨a, -, rfl⟩ := List.mem_map.mp hname
          exact isNode_eq_false a.property rfl
        · rw [List.mem_singleton.mp hname]
          exact isNode_eq_false word.property rfl
    | named qualifiers own =>
        rw [hn] at hname
        exact isNode_of_mem_named rfl rfl t hname

/-- A type has no name to look up exactly if it is primitive or an array. -/
theorem simpleName_tree_eq_none_iff (τ : WrittenType) :
    simpleName τ.tree = none ↔ τ.IsPrimitive ∨ τ.IsArray := by
  rw [simpleName_tree]
  obtain ⟨name, brackets⟩ := τ
  cases brackets with
  | some b => simp [ownName?, IsArray]
  | none =>
      cases name with
      | primitive annotations word => simp [ownName?, IsPrimitive]
      | named qualifiers own => simp [ownName?, IsPrimitive, IsArray]

/-- Other annotations, type arguments and qualifiers make no difference. -/
theorem SameName.simpleName_eq {τ τ' : WrittenType} (h : SameName τ τ') :
    simpleName τ.tree = simpleName τ'.tree := by
  rw [simpleName_tree, simpleName_tree]
  obtain ⟨name, brackets⟩ := τ
  obtain ⟨name', brackets'⟩ := τ'
  have harray : brackets.isSome = brackets'.isSome := Bool.eq_iff_iff.mpr h.isArray_iff
  cases brackets with
  | some b =>
      obtain ⟨b', rfl⟩ := Option.isSome_iff_exists.mp harray.symm
      rfl
  | none =>
      obtain rfl : brackets' = none := by simpa using harray.symm
      cases h.name with
      | primitive as as' w w' => rfl
      | named qs qs' as as' args args' hsame => exact congrArg some hsame

end WrittenType

/-! ## Types of parsed trees -/

namespace Grammar

theorem yields_isNode_symbol {s : Symbol} {k : Kind} {a : Part} (hs : table s = .node k a) :
    Yields (fun x => x.isNode k = true) (.symbol s) :=
  Yields.symbol (by rw [hs]; exact yields_node fun _ => by simp [isNode])

/-- Annotations in a row. -/
theorem exists_annotations {xs : List Tree}
    (h : Derives table (.many (.symbol .annotationMark)) xs) :
    ∃ as : List (NodeOf .annotationMark), as.map Subtype.val = xs := by
  have hall : ∀ x ∈ xs, x.isNode .annotationMark = true :=
    (yields_isNode_symbol rfl).many xs h
  refine ⟨xs.attach.map fun x => ⟨x.val, hall x.val x.property⟩, ?_⟩
  rw [List.map_map]
  exact List.attach_map_subtype_val xs

/-- Type arguments, or none. -/
theorem exists_arguments {xs : List Tree}
    (h : Derives table (Rule.maybe (.symbol .typeArguments)) xs) :
    ∃ args : Option (NodeOf .typeArguments), (args.map Subtype.val).toList = xs := by
  rcases derives_maybe.mp h with h | rfl
  · rw [derives_symbol] at h
    obtain ⟨ys, -, rfl⟩ := derives_node.mp h
    exact ⟨some ⟨.node .typeArguments ys, by simp [isNode]⟩, rfl⟩
  · exact ⟨none, rfl⟩

theorem exists_word {reserved : List String} {xs : List Tree}
    (h : Derives table (wordExcept reserved) xs) : ∃ w : Word, xs = [.leaf w.val] := by
  obtain ⟨tok, haccepts, rfl⟩ := derives_token.mp h
  simp only [Terminal.accepts, Bool.and_eq_true, beq_iff_eq] at haccepts
  exact ⟨⟨tok, haccepts.1⟩, rfl⟩

/-- A dot, and one more segment behind it. -/
theorem exists_segment {xs : List Tree}
    (h : Derives table (dotted >> Rule.maybe (.symbol .typeArguments)) xs) :
    ∃ (dot : Dot) (s : Segment), xs = .leaf dot.val :: s.trees := by
  obtain ⟨_, args, hdotted, hargs, rfl⟩ := derives_andThen.mp h
  obtain ⟨_, _, hdot, hrest, rfl⟩ := derives_andThen.mp (derives_attempt.mp hdotted)
  obtain ⟨dot, haccepts, rfl⟩ := derives_token.mp hdot
  simp only [Terminal.accepts, Bool.and_eq_true, beq_iff_eq] at haccepts
  obtain ⟨_, _, hannotations, hword, rfl⟩ := derives_andThen.mp hrest
  obtain ⟨as, rfl⟩ := exists_annotations hannotations
  obtain ⟨w, rfl⟩ := exists_word hword
  obtain ⟨arguments, rfl⟩ := exists_arguments hargs
  exact ⟨⟨dot, haccepts⟩, ⟨as, w, arguments⟩, by simp [Segment.trees]⟩

/-- Segments behind a segment: the last one is the own one, and the others qualify it. -/
theorem exists_named {xs : List Tree}
    (h : Derives table (.many (dotted >> Rule.maybe (.symbol .typeArguments))) xs)
    (qualifiers : List (Segment × Dot)) (s : Segment) :
    ∃ qualifiers' own, (TypeName.named qualifiers s).trees ++ xs =
      (TypeName.named qualifiers' own).trees := by
  generalize hr : Rule.many (dotted >> Rule.maybe (.symbol .typeArguments)) = r at h
  induction h generalizing qualifiers s with
  | none => exact ⟨qualifiers, s, List.append_nil _⟩
  | more hx _ _ ih =>
      cases hr
      obtain ⟨dot, s', rfl⟩ := exists_segment hx
      obtain ⟨qualifiers', own, htrees⟩ := ih (qualifiers ++ [(s, dot)]) s' rfl
      refine ⟨qualifiers', own, ?_⟩
      rw [← htrees]
      simp [TypeName.trees, qualifierTrees]
  | _ => cases hr

/-- A type without brackets is a name. -/
theorem exists_typeName {annotations xs : List Tree}
    (hannotations : Derives table (.many (.symbol .annotationMark)) annotations)
    (h : Derives table typeCore xs) : ∃ n : TypeName, n.trees = annotations ++ xs := by
  obtain ⟨as, rfl⟩ := exists_annotations hannotations
  rcases derives_orElse.mp h with hprimitive | hnamed
  · obtain ⟨ys, -, rfl⟩ := derives_node.mp hprimitive
    exact ⟨.primitive as ⟨.node .primitiveType ys, by simp [isNode]⟩, rfl⟩
  · obtain ⟨_, _, hword, hrest, rfl⟩ := derives_andThen.mp hnamed
    obtain ⟨_, _, hargs, hmore, rfl⟩ := derives_andThen.mp hrest
    obtain ⟨w, rfl⟩ := exists_word hword
    obtain ⟨arguments, rfl⟩ := exists_arguments hargs
    obtain ⟨qualifiers, own, htrees⟩ := exists_named hmore [] ⟨as, w, arguments⟩
    refine ⟨.named qualifiers own, ?_⟩
    rw [← htrees]
    simp [TypeName.trees, qualifierTrees, Segment.trees]

/-- What is derived as a type is a written type. -/
theorem exists_writtenType_of_derives {cs : List Tree} (h : Derives table typeInside cs) :
    ∃ τ : WrittenType, τ.tree = .node .type cs := by
  obtain ⟨annotations, _, hannotations, hrest, rfl⟩ := derives_andThen.mp h
  obtain ⟨name, brackets, hname, hbrackets, rfl⟩ := derives_andThen.mp hrest
  obtain ⟨n, hn⟩ := exists_typeName hannotations hname
  rcases derives_maybe.mp hbrackets with hbrackets | rfl
  · obtain ⟨pairs, -, rfl⟩ := derives_node.mp hbrackets
    refine ⟨⟨n, some ⟨.node .dimensions pairs, by simp [isNode]⟩⟩, ?_⟩
    rw [WrittenType.tree, hn, List.append_assoc]
    rfl
  · refine ⟨⟨n, none⟩, ?_⟩
    rw [WrittenType.tree, hn, List.append_nil]
    simp

end Grammar

/-- Every type of a parsed tree is a written type. -/
theorem exists_writtenType {type : Tree} (h : type.Every IsBracketed)
    (hkind : type.isNode .type = true) : ∃ τ : WrittenType, τ.tree = type := by
  cases type with
  | leaf tok => cases hkind
  | node k cs =>
      obtain rfl : k = .type := by simpa [isNode] using hkind
      exact Grammar.exists_writtenType_of_derives (h.here.1 _ rfl)

end JavaAtlas.Java
