import JavaAtlas.Proofs.Java.Formatting

/-!
# Corresponding declarations

Declarations that are read from trees of the same shape correspond member by member.  They
have the same kinds, names and visibilities, and their types come from the same places.  If
the trees are evenly formatted, the types are the same too.

Main results:

- Theorem `forall₂_like_declarations`: declarations from trees of the same shape
  correspond.
- Theorem `declarations_eq`: declarations from evenly formatted trees are the same.
- Theorem `packageName_eq`, theorem `imports_eq`: so are the package and the imports.
-/

namespace JavaAtlas.Java

open JavaAtlas.Java.Tree

/-! ## Correspondence -/

/-- Two fields with the same name and visibility, and with related types. -/
structure Field.Like (Q : TypeUse → TypeUse → Prop) (f g : Field) : Prop where
  visibility : f.visibility = g.visibility
  type : Q f.type g.type
  name : f.name = g.name

/-- Two parameters with the same name and with related types. -/
structure Parameter.Like (Q : TypeUse → TypeUse → Prop) (p q : Parameter) : Prop where
  name : p.name = q.name
  type : Q p.type q.type

/-- Two methods with the same name and visibility, and with related types. -/
structure Method.Like (Q : TypeUse → TypeUse → Prop) (m n : Method) : Prop where
  visibility : m.visibility = n.visibility
  returnType : Q m.returnType n.returnType
  name : m.name = n.name
  parameters : List.Forall₂ (Parameter.Like Q) m.parameters n.parameters

/-- Two declarations of the same kind and name, whose members correspond. -/
structure Declaration.Like (Q : TypeUse → TypeUse → Prop) (d e : Declaration) : Prop where
  name : d.name = e.name
  kind : d.kind = e.kind
  fieldDeclarations :
    List.Forall₂ (List.Forall₂ (Field.Like Q)) d.fieldDeclarations e.fieldDeclarations
  methods : List.Forall₂ (Method.Like Q) d.methods e.methods

section Equality

theorem eq_of_forall₂ {α : Type} {R : α → α → Prop} {xs ys : List α}
    (h : List.Forall₂ R xs ys) (hR : ∀ x y, R x y → x = y) : xs = ys := by
  have heq := h.imp hR
  rwa [List.forall₂_eq_eq_eq] at heq

theorem Field.Like.eq {f g : Field} (h : f.Like Eq g) : f = g := by
  obtain ⟨hvisibility, htype, hname⟩ := h
  cases f
  cases g
  simp_all

theorem Parameter.Like.eq {p q : Parameter} (h : p.Like Eq q) : p = q := by
  obtain ⟨hname, htype⟩ := h
  cases p
  cases q
  simp_all

theorem Method.Like.eq {m n : Method} (h : m.Like Eq n) : m = n := by
  obtain ⟨hvisibility, hreturn, hname, hparameters⟩ := h
  have hsame := eq_of_forall₂ hparameters fun p q => Parameter.Like.eq
  cases m
  cases n
  simp_all

end Equality

/-! ## Members -/

variable {p : Kind → List Tree → List Tree → Prop} {Q : TypeUse → TypeUse → Prop} {t u : Tree}

/-- Types that are read at the same places of trees with the condition are related. -/
structure ReadsRelated (p : Kind → List Tree → List Tree → Prop)
    (Q : TypeUse → TypeUse → Prop) : Prop where
  field : ∀ {f g v w type type' : Tree}, f.Alike p g → f.isNode .fieldDeclaration = true →
    v.Alike p w → v.isNode .variableDeclarator = true → f.child? .type = some type →
    g.child? .type = some type' →
    Q (variableType type v.bracketsAfterWord?) (variableType type' w.bracketsAfterWord?)
  parameter : ∀ {t u type type' : Tree}, t.Alike p u → t.isNode .formalParameter = true →
    t.child? .type = some type → u.child? .type = some type' →
    Q (variableType type t.bracketsAfterWord?) (variableType type' u.bracketsAfterWord?)
  spread : ∀ {t u : Tree}, t.Alike p u → t.isNode .spreadParameter = true →
    t.Every IsListing → Option.Rel Q (spreadType? t) (spreadType? u)
  result : ∀ {t u type type' : Tree}, t.Alike p u → t.isNode .methodDeclaration = true →
    t.child? .type = some type → u.child? .type = some type' →
    Q (typeUse type) (typeUse type')

/-- What is taken from the first child of a kind is related, or there is nothing to take. -/
theorem forall₂_elim_child? {α : Type} {R : α → α → Prop} {f : Tree → List α} {k : Kind}
    (h : t.Alike p u)
    (hf : ∀ c d, t.child? k = some c → c.Alike p d → List.Forall₂ R (f c) (f d)) :
    List.Forall₂ R ((t.child? k).elim [] f) ((u.child? k).elim [] f) := by
  cases hc : t.child? k with
  | none =>
      rw [h.child?_eq_none hc]
      exact .nil
  | some c =>
      obtain ⟨d, hd, hcd⟩ := h.exists_child? hc
      rw [hd]
      exact hf c d hc hcd

theorem visibilityOf_eq (h : t.Alike p u) : visibilityOf t = visibilityOf u := by
  have hmodifiers : List.Forall₂ (Alike p) ((t.child? .modifiers).elim [] children)
      ((u.child? .modifiers).elim [] children) :=
    forall₂_elim_child? h fun c d _ hcd => hcd.children
  unfold visibilityOf
  refine congrArg (Option.getD · Visibility.package) (findSome?_eq hmodifiers fun c d hcd => ?_)
  rcases hcd.leaf_or_node with ⟨a, b, -, htext, rfl, rfl⟩ | ⟨k, cs, ds, -, -, rfl, rfl⟩
  · simp only [htext]
  · rfl

/-- The children of a kind, one by one. -/
theorem forall₂_filter_children (h : t.Alike p u) (ht : t.Every IsListing) (k : Kind) :
    List.Forall₂ (fun c d => (c.Every IsListing ∧ c.isNode k = true) ∧ c.Alike p d)
      (t.children.filter (isNode k)) (u.children.filter (isNode k)) := by
  refine (List.forall₂_and_left _ _).mpr ⟨fun c hc => ?_, forall₂_filter_isNode h.children k⟩
  obtain ⟨hmem, hkind⟩ := List.mem_filter.mp hc
  exact ⟨ht.children c hmem, hkind⟩

section Members

variable (hreads : ReadsRelated p Q) (h : t.Alike p u) (ht : t.Every IsListing)

include hreads h ht

theorem forall₂_like_fieldDeclarationOf (hkind : t.isNode .fieldDeclaration = true) :
    List.Forall₂ (Field.Like Q) (fieldDeclarationOf t) (fieldDeclarationOf u) := by
  unfold fieldDeclarationOf
  cases htype : t.child? .type with
  | none =>
      rw [h.child?_eq_none htype]
      exact .nil
  | some type =>
      obtain ⟨type', htype', -⟩ := h.exists_child? htype
      rw [htype']
      refine List.rel_filterMap ?_ (forall₂_filter_children h ht .variableDeclarator)
      rintro v w ⟨⟨-, hv⟩, hvw⟩
      dsimp only
      rw [← hvw.firstWord?_eq]
      cases v.firstWord? with
      | none => exact .none
      | some name =>
          exact .some ⟨visibilityOf_eq h, hreads.field h hkind hvw hv htype htype', rfl⟩

theorem rel_like_parameterOf? :
    Option.Rel (Parameter.Like Q) (parameterOf? t) (parameterOf? u) := by
  rcases h.leaf_or_node with ⟨a, b, -, -, rfl, rfl⟩ | ⟨k, cs, ds, -, -, rfl, rfl⟩
  · exact .none
  · by_cases hformal : k = .formalParameter
    case pos =>
      subst hformal
      simp only [parameterOf?]
      rw [← h.firstWord?_eq]
      cases htype : (Tree.node .formalParameter cs).child? .type with
      | none =>
          rw [h.child?_eq_none htype]
          exact .none
      | some type =>
          obtain ⟨type', htype', -⟩ := h.exists_child? htype
          rw [htype']
          cases (Tree.node .formalParameter cs).firstWord? with
          | none => exact .none
          | some name => exact .some ⟨rfl, hreads.parameter h rfl htype htype'⟩
    case neg =>
      by_cases hspread : k = .spreadParameter
      case pos =>
        subst hspread
        simp only [parameterOf?]
        have hname : ((Tree.node .spreadParameter cs).child? .variableDeclarator).bind firstWord? =
            ((Tree.node .spreadParameter ds).child? .variableDeclarator).bind firstWord? := by
          cases hv : (Tree.node .spreadParameter cs).child? .variableDeclarator with
          | none => rw [h.child?_eq_none hv]
          | some v =>
              obtain ⟨w, hw, hvw⟩ := h.exists_child? hv
              rw [hw, Option.bind_some, Option.bind_some, hvw.firstWord?_eq]
        have htype := hreads.spread h rfl ht
        rw [← hname]
        generalize spreadType? (.node .spreadParameter cs) = x at htype ⊢
        generalize spreadType? (.node .spreadParameter ds) = y at htype ⊢
        cases htype with
        | none => exact .none
        | some hq =>
            cases ((Tree.node .spreadParameter cs).child? .variableDeclarator).bind firstWord? with
            | none => exact .none
            | some name => exact .some ⟨rfl, hq⟩
      case neg =>
        have hnone : ∀ cs, parameterOf? (.node k cs) = none := by
          intro cs
          unfold parameterOf?
          split
          case h_1 heq => exact absurd (by cases heq; rfl) hformal
          case h_2 heq => exact absurd (by cases heq; rfl) hspread
          case h_3 => rfl
        rw [hnone, hnone]
        exact .none

theorem rel_like_methodOf? (hkind : t.isNode .methodDeclaration = true) :
    Option.Rel (Method.Like Q) (methodOf? t) (methodOf? u) := by
  unfold methodOf?
  rw [← h.firstWord?_eq]
  cases t.firstWord? with
  | none => exact .none
  | some name =>
      cases htype : t.child? .type with
      | none =>
          rw [h.child?_eq_none htype]
          exact .none
      | some type =>
          obtain ⟨type', htype', -⟩ := h.exists_child? htype
          rw [htype']
          refine .some ⟨visibilityOf_eq h, hreads.result h hkind htype htype', rfl, ?_⟩
          have hlist : List.Forall₂ (fun c d => c.Every IsListing ∧ c.Alike p d)
              ((t.child? .formalParameters).elim [] children)
              ((u.child? .formalParameters).elim [] children) :=
            forall₂_elim_child? h fun c d hc hcd =>
              (List.forall₂_and_left _ _).mpr ⟨(ht.of_child? hc).children, hcd.children⟩
          exact List.rel_filterMap
            (fun c d hcd => rel_like_parameterOf? hreads hcd.2 hcd.1) hlist

theorem forall₂_like_fieldDeclarationsOf :
    List.Forall₂ (List.Forall₂ (Field.Like Q)) (fieldDeclarationsOf t)
      (fieldDeclarationsOf u) := by
  have hall : List.Forall₂ (List.Forall₂ (Field.Like Q))
      ((t.children.filter (isNode .fieldDeclaration)).map fieldDeclarationOf)
      ((u.children.filter (isNode .fieldDeclaration)).map fieldDeclarationOf) :=
    List.rel_map (fun c d hcd => forall₂_like_fieldDeclarationOf hreads hcd.2 hcd.1.1 hcd.1.2)
      (forall₂_filter_children h ht _)
  refine List.rel_filter (fun fs gs hfg => ?_) hall
  cases hfg <;> simp

theorem forall₂_like_methodsOf :
    List.Forall₂ (Method.Like Q) (methodsOf t) (methodsOf u) :=
  List.rel_filterMap (fun _ _ hcd => rel_like_methodOf? hreads hcd.2 hcd.1.1 hcd.1.2)
    (forall₂_filter_children h ht _)

/-- The members in the body of a declaration correspond. -/
theorem forall₂_like_members (body : Kind) :
    List.Forall₂ (List.Forall₂ (Field.Like Q)) ((t.child? body).elim [] fieldDeclarationsOf)
        ((u.child? body).elim [] fieldDeclarationsOf) ∧
      List.Forall₂ (Method.Like Q) ((t.child? body).elim [] methodsOf)
        ((u.child? body).elim [] methodsOf) :=
  ⟨forall₂_elim_child? h fun _ _ hc hcd =>
      forall₂_like_fieldDeclarationsOf hreads hcd (ht.of_child? hc),
    forall₂_elim_child? h fun _ _ hc hcd =>
      forall₂_like_methodsOf hreads hcd (ht.of_child? hc)⟩

end Members

/-! ## Declarations -/

theorem rel_like_declarationWith (hreads : ReadsRelated p Q) (h : t.Alike p u)
    (ht : t.Every IsListing) (package package' : String) (kind : TypeKind) (body : Kind)
    (exts impls exts' impls' : List TypeUse) :
    Option.Rel (Declaration.Like Q) (declarationWith package kind t body exts impls)
      (declarationWith package' kind u body exts' impls') := by
  unfold declarationWith
  rw [← h.wordAfter?_eq]
  obtain ⟨hfields, hmethods⟩ := forall₂_like_members hreads h ht body
  cases t.wordAfter? kind.keyword with
  | none => exact .none
  | some name => exact .some ⟨rfl, rfl, hfields, hmethods⟩

theorem rel_like_declarationOf (hreads : ReadsRelated p Q) (h : t.Alike p u)
    (ht : t.Every IsListing) (htype : isTypeNode t = true) (package package' : String) :
    Option.Rel (Declaration.Like Q) (declarationOf package t) (declarationOf package' u) := by
  rcases h.leaf_or_node with ⟨a, b, -, -, rfl, rfl⟩ | ⟨k, cs, ds, -, -, rfl, rfl⟩
  · cases htype
  · rcases Bool.or_eq_true_iff.mp htype with hkind | hkind
    · obtain rfl : k = .classDeclaration := by simpa [isNode] using hkind
      exact rel_like_declarationWith hreads h ht _ _ _ _ _ _ _ _
    · obtain rfl : k = .interfaceDeclaration := by simpa [isNode] using hkind
      exact rel_like_declarationWith hreads h ht _ _ _ _ _ _ _ _

/-- The nodes that declare types, one by one. -/
theorem forall₂_typeNodes (h : t.Alike p u) (ht : t.Every IsListing) :
    List.Forall₂ (fun c d => (c.Every IsListing ∧ isTypeNode c = true) ∧ c.Alike p d)
      (typeDeclarationNodes t) (typeDeclarationNodes u) :=
  (List.forall₂_and_left _ _).mpr
    ⟨fun c hc => ⟨every_of_mem_typeDeclarationNodes ht c hc, isTypeNode_of_mem_visit hc⟩,
      forall₂_typeDeclarationNodes h⟩

/-- Declarations of trees of the same shape correspond, whatever their formatting. -/
theorem forall₂_like_declarations (h : t.SameShape u) (ht : t.Every IsListing)
    (package package' : String) :
    List.Forall₂ (Declaration.Like fun _ _ => True) (declarations package t)
      (declarations package' u) := by
  have hreads : ReadsRelated (fun _ _ _ => True) fun _ _ => True := by
    refine ⟨fun _ _ _ _ _ _ => trivial, fun _ _ _ _ => trivial, fun {t u} h hkind ht => ?_,
      fun _ _ _ _ => trivial⟩
    obtain ⟨type, type', -, -, -, hleft, hright⟩ := exists_spreadType? h hkind ht
    rw [hleft, hright]
    exact .some trivial
  exact List.rel_filterMap
    (fun c d hcd => rel_like_declarationOf hreads hcd.2 hcd.1.1 hcd.1.2 _ _)
    (forall₂_typeNodes h ht)

/-! ## Even formatting -/

/-- What is read from evenly formatted trees is the same. -/
theorem readsRelated_evenlyRead : ReadsRelated EvenlyRead Eq := by
  refine ⟨?field, ?parameter, ?spread, ?result⟩
  case field =>
    intro f g v w type type' hfg hf hvw hv htype htype'
    obtain ⟨type'', htype'', halike⟩ := hfg.exists_child? htype
    obtain rfl : type'' = type' := Option.some.inj (htype''.symm.trans htype')
    have heven : PartsMeet EvenJoint (f.child? .type) (g.child? .type) := hfg.condition hf
    rw [htype, htype'] at heven
    exact variableType_eq halike hvw.bracketsAfterWord? heven (hvw.condition hv)
  case parameter =>
    intro t u type type' h hkind htype htype'
    obtain ⟨type'', htype'', halike⟩ := h.exists_child? htype
    obtain rfl : type'' = type' := Option.some.inj (htype''.symm.trans htype')
    have heven : PartsMeet EvenJoint (t.child? .type) (u.child? .type) ∧
        PartsMeet EvenJoint t.bracketsAfterWord? u.bracketsAfterWord? := h.condition hkind
    rw [htype, htype'] at heven
    exact variableType_eq halike h.bracketsAfterWord? heven.1 heven.2
  case spread =>
    intro t u h hkind ht
    obtain ⟨type, type', halike, htype, htype', hleft, hright⟩ := exists_spreadType? h hkind ht
    have heven : PartsMeet EvenJoint (t.child? .type) (u.child? .type) ∧
        commentsBehindModifiers t.children = commentsBehindModifiers u.children :=
      h.condition hkind
    rw [htype, htype'] at heven
    rw [hleft, hright, heven.2, typeUse_eq halike heven.1]
    exact .some rfl
  case result =>
    intro t u type type' h hkind htype htype'
    obtain ⟨type'', htype'', halike⟩ := h.exists_child? htype
    obtain rfl : type'' = type' := Option.some.inj (htype''.symm.trans htype')
    have heven : PartsMeet EvenJoint (t.child? .type) (u.child? .type) := h.condition hkind
    rw [htype, htype'] at heven
    exact typeUse_eq halike heven

theorem declarationWith_eq (h : t.EvenlyFormatted u) (ht : t.Every IsListing)
    (package : String) (kind : TypeKind) (body : Kind) (exts impls : List TypeUse) :
    declarationWith package kind t body exts impls =
      declarationWith package kind u body exts impls := by
  obtain ⟨hfields, hmethods⟩ := forall₂_like_members readsRelated_evenlyRead h ht body
  have hsameFields := eq_of_forall₂ hfields fun fs gs hfg =>
    eq_of_forall₂ hfg fun f g => Field.Like.eq
  have hsameMethods := eq_of_forall₂ hmethods fun m n => Method.Like.eq
  simp only [declarationWith, h.wordAfter?_eq, hsameFields, hsameMethods]

theorem declarationOf_eq (h : t.EvenlyFormatted u) (ht : t.Every IsListing)
    (htype : isTypeNode t = true) (package : String) :
    declarationOf package t = declarationOf package u := by
  have hclauses : ∀ k ∈ clauseKinds, clausesOf t k = clausesOf u k :=
    fun k hk => clausesOf_eq hk ht h
  rcases h.leaf_or_node with ⟨a, b, -, -, rfl, rfl⟩ | ⟨k, cs, ds, -, -, rfl, rfl⟩
  · cases htype
  · rcases Bool.or_eq_true_iff.mp htype with hkind | hkind
    · obtain rfl : k = .classDeclaration := by simpa [isNode] using hkind
      simp only [declarationOf]
      rw [hclauses .superclass (by decide), hclauses .superInterfaces (by decide)]
      exact declarationWith_eq h ht _ _ _ _ _
    · obtain rfl : k = .interfaceDeclaration := by simpa [isNode] using hkind
      simp only [declarationOf]
      rw [hclauses .extendsInterfaces (by decide)]
      exact declarationWith_eq h ht _ _ _ _ _

/-- Evenly formatted trees have the same declarations. -/
theorem declarations_eq (h : t.EvenlyFormatted u) (ht : t.Every IsListing) (package : String) :
    declarations package t = declarations package u :=
  filterMap_eq_of_forall₂ (forall₂_typeNodes h ht) fun _ _ hcd =>
    declarationOf_eq hcd.2 hcd.1.1 hcd.1.2 package

/-- Names with the same gaps have the same text. -/
theorem text_eq (h : t.Alike p u) (hgaps : JointsMeet SameGap t.tokens u.tokens) :
    t.text = u.text :=
  textOfTokens_congr h.map_bare_tokens hgaps

/-- Evenly formatted trees have the same package. -/
theorem packageName_eq (h : t.EvenlyFormatted u) : packageName t = packageName u := by
  unfold packageName
  cases hc : t.child? .packageDeclaration with
  | none => rw [h.child?_eq_none hc]
  | some c =>
      obtain ⟨d, hd, hcd⟩ := h.exists_child? hc
      rw [hd]
      have heven : PartsMeet SameGap (c.child? .name) (d.child? .name) :=
        hcd.condition (List.find?_some hc)
      cases hname : c.child? .name with
      | none => simp only [hname, hcd.child?_eq_none hname]
      | some name =>
          obtain ⟨name', hname', halike⟩ := hcd.exists_child? hname
          rw [hname, hname'] at heven
          simp only [hname, hname', Option.elim, text_eq halike heven]

theorem importOf_eq (h : t.EvenlyFormatted u) (hkind : t.isNode .importDeclaration = true) :
    importOf t = importOf u := by
  have hleaf : ∀ text, t.children.any (isLeaf text) = u.children.any (isLeaf text) :=
    fun text => any_eq h.children fun c d hcd => hcd.isLeaf_eq text
  have heven : PartsMeet SameGap (t.child? .name) (u.child? .name) := h.condition hkind
  unfold importOf
  cases hname : t.child? .name with
  | none =>
      rw [h.child?_eq_none hname]
      rfl
  | some name =>
      obtain ⟨name', hname', halike⟩ := h.exists_child? hname
      rw [hname, hname'] at heven
      rw [hname', Option.map_some, Option.map_some, text_eq halike heven, hleaf, hleaf]

/-- Evenly formatted trees have the same imports. -/
theorem imports_eq (h : t.EvenlyFormatted u) (ht : t.Every IsListing) : imports t = imports u :=
  filterMap_eq_of_forall₂ (forall₂_filter_children h ht .importDeclaration) fun _ _ hcd =>
    importOf_eq hcd.2 hcd.1.2

end JavaAtlas.Java
