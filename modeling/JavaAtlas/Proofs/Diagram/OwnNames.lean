import JavaAtlas.Proofs.Diagram.Resolution
import JavaAtlas.Proofs.Java.Parameters
import JavaAtlas.Proofs.Java.Preorder
import JavaAtlas.Proofs.Java.TypeNames

/-!
# Edges lead to own names

A declaration names types for its fields, for the results and the parameters of its methods
and in its clauses.  An edge leads to the own name of one of these types.  What stands inside
their type arguments, or only qualifies them, never gives an edge.

Main definitions:

- `NamesType`: the node of a declaration names a type.
- `LeadsToOwnName`: an edge leads to the own name of such a type.

Main results:

- Theorem `typesHave_named`: the types of a declaration are the ones that its node names.
- Theorem `ownNames_exact`: own names, what makes no difference to them, and edges.
-/

namespace JavaAtlas

namespace Java

open JavaAtlas.Java.Tree

/-! ## Places that name types -/

theorem Tree.Every.of_at? {p : Kind → List Tree → Prop} {root t : Tree} {w : Way}
    (h : root.Every p) (ht : root.at? w = some t) : t.Every p := by
  induction w generalizing root with
  | nil =>
      rw [at?_nil, Option.some.injEq] at ht
      rwa [← ht]
  | cons i w ih =>
      rw [at?_cons, Option.bind_eq_some_iff] at ht
      obtain ⟨c, hc, hw⟩ := ht
      exact ih (h.children c (List.mem_of_getElem? hc)) hw

/-- The declaration of a node names a type: for a field, as the result of a method, for a
parameter, or in a clause.  A type inside another one is not named by itself. -/
inductive NamesType (t : Tree) : Tree → Prop where
  | field {kind : TypeKind} {body f type : Tree} (hbody : t.child? (bodyKind kind) = some body)
      (hf : f ∈ body.children) (hfield : f.isNode .fieldDeclaration = true)
      (htype : f.child? .type = some type) : NamesType t type
  | result {kind : TypeKind} {body m type : Tree} (hbody : t.child? (bodyKind kind) = some body)
      (hm : m ∈ body.children) (hmethod : m.isNode .methodDeclaration = true)
      (htype : m.child? .type = some type) : NamesType t type
  | parameter {kind : TypeKind} {body m list p type : Tree}
      (hbody : t.child? (bodyKind kind) = some body) (hm : m ∈ body.children)
      (hmethod : m.isNode .methodDeclaration = true)
      (hlist : m.child? .formalParameters = some list) (hp : p ∈ list.children)
      (hparameter : isParameter p = true) (htype : p.child? .type = some type) : NamesType t type
  | clause {k : Kind} {type : Tree} (hk : k ∈ clauseKinds) (htype : type ∈ typesNamedBy t k) :
      NamesType t type

/-- What a declaration names are types. -/
theorem NamesType.isType {p : Kind → List Tree → Prop} {t type : Tree} (h : NamesType t type)
    (hevery : t.Every p) : type.isNode .type = true ∧ type.Every p := by
  cases h with
  | field hbody hf _ htype =>
      exact ⟨List.find?_some htype, (((hevery.of_child? hbody).children _ hf).of_child? htype)⟩
  | result hbody hm _ htype =>
      exact ⟨List.find?_some htype, (((hevery.of_child? hbody).children _ hm).of_child? htype)⟩
  | parameter hbody hm _ hlist hp _ htype =>
      have hlist' := ((hevery.of_child? hbody).children _ hm).of_child? hlist
      exact ⟨List.find?_some htype, (hlist'.children _ hp).of_child? htype⟩
  | clause _ htype => exact of_mem_typesNamedBy hevery htype

/-- The type has no name to look up, or it is one that the declaration names. -/
def TypeUse.NamedBy (t : Tree) (u : TypeUse) : Prop :=
  u.simpleName = none ∨ ∃ type, NamesType t type ∧ u = typeUse type

theorem namedBy_variableType {t type : Tree} (h : NamesType t type) (brackets : Option Tree) :
    (variableType type brackets).NamedBy t := by
  cases brackets with
  | none => exact .inr ⟨type, h, rfl⟩
  | some b => exact .inl rfl

theorem Interleaved.mem_or_mem {α : Type} {xs ys zs : List α} {z : α} (h : Interleaved xs ys zs)
    (hz : z ∈ zs) : z ∈ xs ∨ z ∈ ys := by
  induction h with
  | nil => cases hz
  | left x _ ih =>
      rcases List.mem_cons.mp hz with rfl | hz
      · exact .inl List.mem_cons_self
      · exact (ih hz).imp_left (List.mem_cons_of_mem x)
  | right y _ ih =>
      rcases List.mem_cons.mp hz with rfl | hz
      · exact .inr List.mem_cons_self
      · exact (ih hz).imp_right (List.mem_cons_of_mem y)

/-- The types of a clause are named, or were read from comments. -/
theorem ClausesRead.namedBy {t : Tree} {k : Kind} {us : List TypeUse} (h : ClausesRead t k us)
    (hk : k ∈ clauseKinds) : ∀ u ∈ us, u.NamedBy t := by
  intro u hu
  rcases h.interleaved.mem_or_mem hu with hu | hu
  · obtain ⟨type, htype, rfl⟩ := List.mem_map.mp hu
    exact .inr ⟨type, .clause hk htype, rfl⟩
  · obtain ⟨comment, -, rfl⟩ := List.mem_map.mp hu
    exact .inl rfl

/-- What is read on one side of a correspondence belongs to something on the other. -/
theorem exists_of_mem_forall₂ {α β : Type} {r : α → β → Prop} {xs : List α} {ys : List β} {y : β}
    (h : List.Forall₂ r xs ys) (hy : y ∈ ys) : ∃ x ∈ xs, r x y := by
  induction h with
  | nil => cases hy
  | cons hr _ ih =>
      rcases List.mem_cons.mp hy with rfl | hy
      · exact ⟨_, List.mem_cons_self, hr⟩
      · obtain ⟨x, hx, hxy⟩ := ih hy
        exact ⟨x, List.mem_cons_of_mem _ hx, hxy⟩

theorem ParameterRead.namedBy {t p : Tree} {x : Parameter} (h : ParameterRead p x)
    (hnames : ∀ type, p.child? .type = some type → NamesType t type) : x.type.NamedBy t := by
  cases h with
  | formal _ htype _ => exact namedBy_variableType (hnames _ htype) _
  | spread _ htype _ _ _ => exact .inr ⟨_, hnames _ htype, rfl⟩
  | commented _ _ _ _ _ => exact .inl rfl

/-- The types of a declaration are the ones that its node names. -/
theorem typesHave_named {t : Tree} {package : String} {d : Declaration} (ht : isTypeNode t = true)
    (hd : declarationOf package t = some d) (hshaped : t.Every IsShaped)
    (hlisting : t.Every IsListing) (hbracketed : t.Every IsBracketed) :
    d.TypesHave (TypeUse.NamedBy t) := by
  obtain ⟨d', hd', hread⟩ := exists_declarationRead package ht hshaped hlisting hbracketed
  cases hd.symm.trans hd'
  obtain ⟨d', body, hd', hbody, hfields, -⟩ := exists_declarationOf package hshaped ht
  cases hd.symm.trans hd'
  obtain ⟨body', hbody', hmethods⟩ := hread.methods
  cases hbody.symm.trans hbody'
  have hmethod {x : Method} (hx : x ∈ d.methods) :
      ∃ m ∈ body.children, m.isNode .methodDeclaration = true ∧ MethodRead m x := by
    obtain ⟨m, hm, hmx⟩ := exists_of_mem_forall₂ hmethods hx
    obtain ⟨hmem, hkind⟩ := List.mem_filter.mp hm
    exact ⟨m, hmem, hkind, hmx⟩
  have hclauses : (∀ u ∈ d.extends, u.NamedBy t) ∧ ∀ u ∈ d.implements, u.NamedBy t := by
    rcases hread.clauses with ⟨-, hextends, himplements⟩ | ⟨-, hextends, hnone⟩
    · exact ⟨hextends.namedBy (by decide), himplements.namedBy (by decide)⟩
    · exact ⟨hextends.namedBy (by decide), by rw [hnone]; simp⟩
  refine ⟨?fields, ?parameters, ?returnTypes, hclauses.1, hclauses.2⟩
  case fields =>
    intro x hx
    rw [Declaration.fields, hfields] at hx
    obtain ⟨group, hgroup, hx⟩ := List.mem_flatten.mp hx
    obtain ⟨f, hf, rfl⟩ := List.mem_map.mp (List.mem_filter.mp hgroup).1
    obtain ⟨hmem, hfield⟩ := List.mem_filter.mp hf
    unfold fieldDeclarationOf at hx
    split at hx
    case h_1 => cases hx
    case h_2 type htype =>
      obtain ⟨v, -, hv⟩ := List.mem_filterMap.mp hx
      obtain ⟨name, -, rfl⟩ := Option.map_eq_some_iff.mp hv
      exact namedBy_variableType (.field hbody hmem hfield htype) _
  case parameters =>
    intro method hx parameter hparameter
    obtain ⟨m, hm, hkind, hmx⟩ := hmethod hx
    obtain ⟨list, hlist, hparameters⟩ := hmx.parameters
    obtain ⟨p, hp, hpx⟩ := exists_of_mem_forall₂ hparameters hparameter
    obtain ⟨hmem, hisParameter⟩ := List.mem_filter.mp hp
    exact hpx.namedBy fun type htype => .parameter hbody hm hkind hlist hmem hisParameter htype
  case returnTypes =>
    intro method hx
    obtain ⟨m, hm, hkind, hmx⟩ := hmethod hx
    obtain ⟨type, htype, hreturn⟩ := hmx.returnType
    exact .inr ⟨type, .result hbody hm hkind htype, hreturn⟩

end Java

namespace Diagram

open Java Java.Tree Source

/-! ## Edges -/

/-- An edge leads to the own name of a type that the declaration of the node names, in the
package or without it. -/
def LeadsToOwnName (package : String) (t : Tree) (e : Edge) : Prop :=
  ∃ (τ : WrittenType) (name : String), NamesType t τ.tree ∧ τ.ownName? = some name ∧
    Undotted name ∧ (e.target = package ++ "." ++ name ∨ e.target = name)

/-- Every edge of a declaration leads to an own name. -/
theorem leadsToOwnName_of_mem_edgesOf {u : CompilationUnit} {known : Registry} {t : Tree}
    {d : Declaration} {e : Edge} (htypes : d.TypesHave (TypeUse.NamedBy t))
    (hshaped : t.Every IsShaped) (hbracketed : t.Every IsBracketed)
    (he : e ∈ edgesOf (scopeOf known u) d) : LeadsToOwnName u.package t e := by
  obtain ⟨r, hr, hedge⟩ := exists_of_mem_edgesOf he
  obtain ⟨target, htarget, rfl⟩ := Option.map_eq_some_iff.mp hedge
  obtain ⟨name, hname, -, hresolve, -⟩ := Scope.target?_eq_some_iff.mp htarget
  rcases type_of_mem_references htypes r hr with hnone | ⟨type, hnamed, htype⟩
  · cases hnone.symm.trans hname
  · obtain ⟨hkind, hevery⟩ := hnamed.isType hbracketed
    obtain ⟨τ, rfl⟩ := exists_writtenType hevery hkind
    rw [htype] at hname
    have hown : τ.ownName? = some name := τ.simpleName_tree.symm.trans hname
    have hundotted := undotted_simpleName (hnamed.isType hshaped).2 hname
    refine ⟨τ, name, hnamed, hown, hundotted, ?_⟩
    rw [← hresolve]
    exact resolve_mem name u.package u.imports known

/-- No edge leads to a name that is the own name of no type which the declaration names. -/
theorem LeadsToOwnName.target_ne {package : String} {t : Tree} {e : Edge}
    (h : LeadsToOwnName package t e) {name : String} (hundotted : Undotted name)
    (hother : ∀ τ : WrittenType, NamesType t τ.tree → τ.ownName? ≠ some name) :
    e.target ≠ name ∧ e.target ≠ package ++ "." ++ name := by
  obtain ⟨τ, own, hnamed, hown, hundotted', htarget⟩ := h
  have hne : own ≠ name := by
    rintro rfl
    exact hother τ hnamed hown
  rcases htarget with htarget | htarget
  · rw [htarget]
    constructor
    · intro heq
      rw [← heq] at hundotted
      exact not_undotted_dotted package own hundotted
    · intro heq
      exact hne (dotted_inj hundotted' hundotted heq).2
  · rw [htarget]
    constructor
    · exact hne
    · intro heq
      rw [heq] at hundotted'
      exact not_undotted_dotted package name hundotted'

/-- The nested nodes of a type hold what is written, and the name found in them is the last
identifier of the own name; there is none exactly if the type is primitive, the missing type
or an array.  Annotations, type arguments and
qualifiers make no difference.  Every type in a valid unit is written in this way, and each edge
leads to the own name of a type that a declaration names, so never to a name that stands only
inside type arguments or before a dot. -/
theorem ownNames_exact :
    (∀ τ : WrittenType, (typeNode τ.tree).tokens = τ.tree.tokens ∧
        (typeNode τ.tree).className = τ.ownName?) ∧
      (∀ τ : WrittenType, simpleName τ.tree = none ↔ τ.IsPrimitive ∨ τ.IsArray) ∧
      (∀ τ τ' : WrittenType, τ.SameName τ' → simpleName τ.tree = simpleName τ'.tree) ∧
      ∀ (language : Language) (path text : String) (known : Registry),
        let u := CompilationUnit.ofText language path text
        u.isValid = true → ∃ root, Java.read text = .ok root ∧
          (∀ w type, root.at? w = some type → type.isNode .type = true →
            ∃ τ : WrittenType, τ.tree = type) ∧
          List.Forall₂
            (fun t d => ∀ e ∈ edgesOf (scopeOf known u) d, LeadsToOwnName u.package t e ∧
              ∀ name, Undotted name →
                (∀ τ : WrittenType, NamesType t τ.tree → τ.ownName? ≠ some name) →
                e.target ≠ name ∧ e.target ≠ u.package ++ "." ++ name)
            (typeDeclarationNodes root) u.declarations := by
  refine ⟨fun τ => ⟨τ.tokens_typeNode, τ.simpleName_tree⟩, WrittenType.simpleName_tree_eq_none_iff,
    fun τ τ' h => h.simpleName_eq, ?_⟩
  intro language path text known u hvalid
  obtain ⟨root, hread⟩ := CompilationUnit.exists_read_of_isValid hvalid
  have hbracketed := every_isBracketed_of_read hread
  refine ⟨root, hread, ?_, ?_⟩
  · intro w type htype hkind
    exact exists_writtenType (hbracketed.of_at? htype) hkind
  · have hdeclarations : u.declarations =
        (typeDeclarationNodes root).filterMap (declarationOf u.package) := by
      have hunit : u = CompilationUnit.ofTree language path (Text.lineCount text) root :=
        CompilationUnit.ofText_of_read hread
      rw [hunit]
      rfl
    rw [hdeclarations]
    refine forall₂_filterMap_of_total fun t ht => ?_
    have hevery {p : Kind → List Tree → Prop} (hp : root.Every p) : t.Every p :=
      every_of_mem_typeDeclarationNodes hp t ht
    have hshaped := hevery (every_isShaped_of_read hread)
    obtain ⟨d, -, hd, -⟩ :=
      exists_declarationOf u.package hshaped (isTypeNode_of_mem_visit ht)
    have htypes := typesHave_named (isTypeNode_of_mem_visit ht) hd hshaped
      (hevery (every_isListing_of_read hread)) (hevery hbracketed)
    refine ⟨d, hd, fun e he => ?_⟩
    have hleads := leadsToOwnName_of_mem_edgesOf htypes hshaped (hevery hbracketed) he
    exact ⟨hleads, fun name hundotted hother => hleads.target_ne hundotted hother⟩

/-- An identifier that stands alone. -/
def plainSegment (text : String) : Segment :=
  ⟨[], ⟨⟨.word, text, [], 0⟩, rfl⟩, none⟩

/-- A qualified name with annotations and type arguments, and a type that differs from it in
all of them; a field of such a type, and fields of array types and of a primitive one. -/
theorem ownNames_exact_nested :
    let dot : Dot := ⟨⟨.mark, ".", [], 0⟩, rfl, rfl⟩
    let arguments : NodeOf .typeArguments := ⟨.node .typeArguments [], rfl⟩
    let note : NodeOf .annotationMark := ⟨.node .annotationMark [], rfl⟩
    let τ : WrittenType := ⟨.named [(plainSegment "a", dot),
      ({ plainSegment "Outer" with arguments := some arguments }, dot)]
      { plainSegment "Inner" with annotations := [note] }, none⟩
    let τ' : WrittenType :=
      ⟨.named [] { plainSegment "Inner" with arguments := some arguments }, none⟩
    let text := "class A \x7b a.Outer<X>.@B Inner<Map<K, V>[]> f; Map<K, V>[] g; " ++
      "int m(X... x) \x7b\x7d \x7d"
    let known := Registry.ofList ["Inner", "Outer", "Map", "K", "V", "B", "a"]
    let u := CompilationUnit.ofText .java "A.java" text
    τ.SameName τ' ∧ simpleName τ.tree = simpleName τ'.tree ∧ τ.ownName? = some "Inner" ∧
      u.isValid = true ∧
      u.declarations.flatMap (edgesOf (scopeOf known u)) =
        [⟨"A", "Inner", .association, some "f"⟩] ∧
      ∃ root, Java.read text = .ok root ∧
        List.Forall₂ (fun t d => ∀ e ∈ edgesOf (scopeOf known u) d, LeadsToOwnName u.package t e)
          (typeDeclarationNodes root) u.declarations := by
  intro dot arguments note τ τ' text known u
  have hsame : τ.SameName τ' := ⟨.named _ _ _ _ _ _ rfl, Iff.rfl⟩
  have htext : text = String.ofList _ := append_eq_ofList rfl rfl
  have hu : u = CompilationUnit.ofCharacters .java "A.java" _ :=
    (congrArg (CompilationUnit.ofText .java "A.java") htext).trans
      (CompilationUnit.ofText_ofList _ _ _)
  have hread : u.isValid = true ∧ u.declarations.flatMap (edgesOf (scopeOf known u)) =
      [⟨"A", "Inner", .association, some "f"⟩] := by
    rw [hu]
    decide +kernel
  obtain ⟨-, -, hunchanged, hedges⟩ := ownNames_exact
  obtain ⟨root, htree, -, hleads⟩ := hedges .java "A.java" text known hread.1
  exact ⟨hsame, hunchanged τ τ' hsame, rfl, hread.1, hread.2, root, htree,
    hleads.imp fun t d h e he => (h e he).1⟩

end Diagram

end JavaAtlas
