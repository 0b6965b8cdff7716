import JavaAtlas.Proofs.Java.Clauses
import JavaAtlas.Proofs.Java.Members

/-!
# What is read where a declaration names types

Clauses, results of methods and parameters are read one for one, in the order of the source.
The type of a parameter is the one that is declared for it, unless a comment behind the
modifiers of a parameter for any number of arguments takes its place.

Main definitions:

- `ParameterRead`, `MethodRead`, `ClausesRead`, `DeclarationRead`: what is read of a node.

Main results:

- Theorem `exists_parameterRead`: every parameter is read.
- Theorem `forall₂_declarationRead`: every declaration of a parsed tree is read.
-/

namespace JavaAtlas.Java

open JavaAtlas.Java.Tree

theorem forall₂_filterMap_of_total {α β : Type} {f : α → Option β} {r : α → β → Prop}
    {xs : List α} (h : ∀ x ∈ xs, ∃ y, f x = some y ∧ r x y) :
    List.Forall₂ r xs (xs.filterMap f) := by
  induction xs with
  | nil => exact .nil
  | cons x xs ih =>
      obtain ⟨⟨y, hy, hr⟩, hxs⟩ := List.forall_mem_cons.mp h
      rw [List.filterMap_cons_some hy]
      exact .cons hr (ih hxs)

/-! ## Parameters -/

/-- A node of a parameter; the one that stands for the object itself is none. -/
def isParameter (t : Tree) : Bool :=
  t.isNode .formalParameter || t.isNode .spreadParameter

/-- What is read of the node of a parameter. -/
inductive ParameterRead (p : Tree) : Parameter → Prop where
  /-- The type with the brackets behind the name. -/
  | formal {type : Tree} {name : String} (hkind : p.isNode .formalParameter = true)
      (htype : p.child? .type = some type) (hname : p.firstWord? = some name) :
      ParameterRead p ⟨name, variableType type p.bracketsAfterWord?⟩
  /-- The type of each of any number of arguments. -/
  | spread {type v : Tree} {name : String} (hkind : p.isNode .spreadParameter = true)
      (htype : p.child? .type = some type)
      (hvariable : p.child? .variableDeclarator = some v)
      (hname : v.firstWord? = some name)
      (hnone : commentsBehindModifiers p.children = []) : ParameterRead p ⟨name, typeUse type⟩
  /-- A comment that takes the place of the type. -/
  | commented {type v : Tree} {name comment : String} {rest : List String}
      (hkind : p.isNode .spreadParameter = true) (htype : p.child? .type = some type)
      (hvariable : p.child? .variableDeclarator = some v)
      (hname : v.firstWord? = some name)
      (hcomments : commentsBehindModifiers p.children = comment :: rest) :
      ParameterRead p ⟨name, commentUse comment⟩

/-- A node of a parameter for any number of arguments is read. -/
theorem exists_parameterRead_spread {p : Tree} (hkind : p.isNode .spreadParameter = true)
    (hshaped : p.Every IsShaped) (hlisting : p.Every IsListing) :
    ∃ x, parameterOf? p = some x ∧ ParameterRead p x := by
  cases p with
  | leaf tok => cases hkind
  | node k cs =>
      obtain rfl : k = .spreadParameter := by simpa [isNode] using hkind
      have hholds : Grammar.Holds .variableDeclarator (.symbol .variableDeclarator) :=
        Grammar.holds_symbol rfl
      obtain ⟨v, hv⟩ := hholds.behind.behind.behind.behind.exists_child? .spreadParameter
        (hlisting.here _ rfl)
      obtain ⟨name, hname⟩ := (hshaped.of_child? hv).exists_firstWord? (List.find?_some hv) rfl
        Grammar.beginsWithWord_variableDeclarator
      obtain ⟨type, htype, hspread⟩ := exists_spreadType?_eq hkind hlisting
      rw [children] at hspread
      have hparameter : parameterOf? (.node .spreadParameter cs) =
          some ⟨name, ((commentsBehindModifiers cs).head?.map commentUse).getD
            (typeUse type)⟩ := by
        simp only [parameterOf?, hspread, hv, Option.bind_some, hname]
      refine ⟨_, hparameter, ?_⟩
      cases hcomments : commentsBehindModifiers cs with
      | nil => exact .spread hkind htype hv hname hcomments
      | cons comment rest => exact .commented hkind htype hv hname hcomments

/-- Every node of a parameter is read. -/
theorem exists_parameterRead {p : Tree} (hp : isParameter p = true)
    (hshaped : p.Every IsShaped) (hlisting : p.Every IsListing) :
    ∃ x, parameterOf? p = some x ∧ ParameterRead p x := by
  rcases Bool.or_eq_true_iff.mp hp with hkind | hkind
  · obtain ⟨name, type, hname, htype, hparameter⟩ := exists_parameterOf? hshaped hkind
    exact ⟨_, hparameter, .formal hkind htype hname⟩
  · exact exists_parameterRead_spread hkind hshaped hlisting

/-- Only nodes of parameters are read as such. -/
theorem filterMap_parameterOf? (cs : List Tree) :
    cs.filterMap parameterOf? = (cs.filter isParameter).filterMap parameterOf? := by
  rw [List.filterMap_filter]
  refine List.filterMap_congr fun p _ => ?_
  split
  case isTrue => rfl
  case isFalse hp =>
    unfold parameterOf?
    split
    case h_1 => exact absurd rfl hp
    case h_2 => exact absurd rfl hp
    case h_3 => rfl

/-! ## Methods -/

/-- What is read of the node of a method: the type that it returns, and its parameters one
for one. -/
structure MethodRead (m : Tree) (method : Method) : Prop where
  returnType : ∃ type, m.child? .type = some type ∧ method.returnType = typeUse type
  parameters : ∃ list, m.child? .formalParameters = some list ∧
    List.Forall₂ ParameterRead (list.children.filter isParameter) method.parameters

/-- Every node of a method is read. -/
theorem exists_methodRead {m : Tree} (hkind : m.isNode .methodDeclaration = true)
    (hshaped : m.Every IsShaped) (hlisting : m.Every IsListing) :
    ∃ method, methodOf? m = some method ∧ MethodRead m method := by
  obtain ⟨method, type, list, hmethod, htype, hlist, hreturn, hparameters⟩ :=
    exists_methodOf? hshaped hkind
  refine ⟨method, hmethod, ⟨type, htype, hreturn⟩, list, hlist, ?_⟩
  rw [hparameters, filterMap_parameterOf?]
  refine forall₂_filterMap_of_total fun p hp => ?_
  obtain ⟨hmem, hparameter⟩ := List.mem_filter.mp hp
  exact exists_parameterRead hparameter ((hshaped.of_child? hlist).children p hmem)
    ((hlisting.of_child? hlist).children p hmem)

/-! ## Declarations -/

/-- What is read of the clauses of one kind: the types that they name with the comments
between them, so these types and nothing else exactly if there are no such comments.  They
have names to look up unless they are primitive or arrays. -/
structure ClausesRead (t : Tree) (k : Kind) (us : List TypeUse) : Prop where
  interleaved : Interleaved ((typesNamedBy t k).map typeUse)
    ((commentsAmongClauses t k).map commentUse) us
  exact_iff : us = (typesNamedBy t k).map typeUse ↔ commentsAmongClauses t k = []
  isSome_simpleName_iff : ∀ type ∈ typesNamedBy t k, (typeUse type).simpleName.isSome = true ↔
    type.child? .primitiveType = none ∧ type.child? .dimensions = none

theorem clausesRead_clausesOf {t : Tree} {k : Kind} (hk : k ∈ clauseKinds)
    (hlisting : t.Every IsListing) (hbracketed : t.Every IsBracketed) :
    ClausesRead t k (clausesOf t k) := by
  have hinterleaved := interleaved_clausesOf hk hlisting
  refine ⟨hinterleaved, hinterleaved.eq_left_iff.trans List.map_eq_nil_iff, ?_⟩
  intro type htype
  obtain ⟨hkind, hevery⟩ := of_mem_typesNamedBy hbracketed htype
  exact Java.isSome_simpleName_iff hevery hkind

/-- The clauses of a class or an interface, as they are read. -/
def DeclarationClausesRead (t : Tree) (d : Declaration) : Prop :=
  t.isNode .classDeclaration = true ∧
      ClausesRead t .superclass d.extends ∧ ClausesRead t .superInterfaces d.implements ∨
    t.isNode .interfaceDeclaration = true ∧
      ClausesRead t .extendsInterfaces d.extends ∧ d.implements = []

theorem declarationClausesRead_of_declarationOf {t : Tree} {package : String} {d : Declaration}
    (hd : declarationOf package t = some d) (hlisting : t.Every IsListing)
    (hbracketed : t.Every IsBracketed) : DeclarationClausesRead t d := by
  have hread : ∀ {k : Kind}, k ∈ clauseKinds → ClausesRead t k (clausesOf t k) := fun hk =>
    clausesRead_clausesOf hk hlisting hbracketed
  unfold declarationOf at hd
  split at hd
  case h_1 =>
    obtain ⟨name, -, rfl⟩ := Option.map_eq_some_iff.mp hd
    exact .inl ⟨rfl, hread (by decide), hread (by decide)⟩
  case h_2 =>
    obtain ⟨name, -, rfl⟩ := Option.map_eq_some_iff.mp hd
    exact .inr ⟨rfl, hread (by decide), rfl⟩
  case h_3 => cases hd

/-- What is read of the node of a class or an interface: its clauses, and the methods that
stand directly in its body one for one. -/
structure DeclarationRead (t : Tree) (d : Declaration) : Prop where
  clauses : DeclarationClausesRead t d
  methods : ∃ body, t.child? (bodyKind d.kind) = some body ∧
    List.Forall₂ MethodRead (body.children.filter (isNode .methodDeclaration)) d.methods

/-- Every node of a class or an interface is read. -/
theorem exists_declarationRead {t : Tree} (package : String) (ht : isTypeNode t = true)
    (hshaped : t.Every IsShaped) (hlisting : t.Every IsListing)
    (hbracketed : t.Every IsBracketed) :
    ∃ d, declarationOf package t = some d ∧ DeclarationRead t d := by
  obtain ⟨d, body, hd, hbody, -, hmethods⟩ := exists_declarationOf package hshaped ht
  refine ⟨d, hd, declarationClausesRead_of_declarationOf hd hlisting hbracketed, body, hbody, ?_⟩
  rw [hmethods]
  refine forall₂_filterMap_of_total fun m hm => ?_
  obtain ⟨hmem, hkind⟩ := List.mem_filter.mp hm
  exact exists_methodRead hkind ((hshaped.of_child? hbody).children m hmem)
    ((hlisting.of_child? hbody).children m hmem)

/-- The declarations of a parsed tree are those of its nodes, one for one. -/
theorem forall₂_declarationRead {source : String} {root : Tree} (h : read source = .ok root)
    (package : String) :
    List.Forall₂ DeclarationRead (typeDeclarationNodes root) (declarations package root) := by
  refine forall₂_filterMap_of_total fun t ht => ?_
  have hevery : ∀ {p : Kind → List Tree → Prop}, root.Every p → t.Every p := fun hp =>
    every_of_mem_typeDeclarationNodes hp t ht
  exact exists_declarationRead package (isTypeNode_of_mem_visit ht)
    (hevery (every_isShaped_of_read h)) (hevery (every_isListing_of_read h))
    (hevery (every_isBracketed_of_read h))

end JavaAtlas.Java
