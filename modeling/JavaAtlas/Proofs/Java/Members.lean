import JavaAtlas.Proofs.Java.Brackets

/-!
# Members of declarations

Every class and every interface of a parsed tree has a declaration and a body.  Every
variable of a field declaration in the body is a field of that declaration, and every
method in the body is a method of it with all its parameters.  None of them is passed
over.

Main results:

- Theorem `exists_declarationOf`: a node that declares a type has a declaration, whose
  members are those of its body.
- Theorem `exists_mem_fieldDeclarationsOf`: the field of a variable.
- Theorem `exists_mem_methodsOf`, theorem `exists_mem_parameters`: the method of a node
  and the parameter of a node.
-/

namespace JavaAtlas.Java

open JavaAtlas.Java.Tree

/-! ## Nodes that a rule builds in any case -/

namespace Grammar

/-- Whatever the rule builds has a node of the kind. -/
def Holds (k : Kind) (r : Part) : Prop :=
  ∀ xs, Derives table r xs → ∃ x ∈ xs, x.isNode k = true

section Holds

variable {k : Kind} {a b : Part}

theorem holds_symbol {s : Symbol} (hs : table s = .node k a) : Holds k (.symbol s) := by
  intro xs h
  rw [derives_symbol, hs, derives_node] at h
  obtain ⟨ys, -, rfl⟩ := h
  exact ⟨.node k ys, List.mem_singleton_self _, by simp [isNode]⟩

theorem Holds.before (ha : Holds k a) : Holds k (a >> b) := by
  intro xs h
  obtain ⟨ys, zs, hys, -, rfl⟩ := derives_andThen.mp h
  obtain ⟨x, hx, hkind⟩ := ha ys hys
  exact ⟨x, List.mem_append_left zs hx, hkind⟩

theorem Holds.behind (hb : Holds k b) : Holds k (a >> b) := by
  intro xs h
  obtain ⟨ys, zs, -, hzs, rfl⟩ := derives_andThen.mp h
  obtain ⟨x, hx, hkind⟩ := hb zs hzs
  exact ⟨x, List.mem_append_right ys hx, hkind⟩

theorem Holds.exists_child? (h : Holds k a) (k' : Kind) {cs : List Tree}
    (hcs : Derives table a cs) : ∃ c, (Tree.node k' cs).child? k = some c := by
  obtain ⟨x, hx, hkind⟩ := h cs hcs
  exact Option.isSome_iff_exists.mp (List.find?_isSome.mpr ⟨x, hx, hkind⟩)

end Holds

theorem holds_type_variables {rest : Part} :
    Holds .type (Rule.maybe (.symbol .modifiers) >> .symbol .type >> rest) :=
  (Holds.before (holds_symbol rfl)).behind

theorem holds_type_methodDeclaration {rest : Part} :
    Holds .type
      (Rule.maybe (.symbol .modifiers) >>
        Rule.maybe (.symbol .typeParameters >> .many (.symbol .annotationMark)) >>
        .symbol .type >> rest) :=
  (Holds.before (holds_symbol rfl)).behind.behind

theorem holds_formalParameters_methodDeclaration {rest : Part} :
    Holds .formalParameters
      (Rule.maybe (.symbol .modifiers) >>
        Rule.maybe (.symbol .typeParameters >> .many (.symbol .annotationMark)) >>
        .symbol .type >> word >> .symbol .formalParameters >> rest) :=
  (Holds.before (holds_symbol rfl)).behind.behind.behind.behind

end Grammar

/-- A node of a kind with a rule of its own is built by that rule. -/
theorem Tree.Every.derives_of_ruleOf? {t : Tree} {k : Kind} {a : Grammar.Part}
    (h : t.Every IsShaped) (hkind : t.isNode k = true)
    (hrule : Grammar.ruleOf? k = some (.node k a)) :
    ∃ cs, t = .node k cs ∧ Derives Grammar.table a cs := by
  cases t with
  | leaf tok => cases hkind
  | node k' cs =>
      obtain rfl : k' = k := by simpa [isNode] using hkind
      have hderives := h.here.1 _ hrule
      rw [derives_node] at hderives
      obtain ⟨ys, hys, heq⟩ := hderives
      cases heq
      exact ⟨cs, rfl, hys⟩

/-- The first word of a node, for the kinds whose rule begins with one. -/
theorem Tree.Every.exists_firstWord? {t : Tree} {k : Kind} {a : Grammar.Part}
    (h : t.Every IsShaped) (hkind : t.isNode k = true)
    (hrule : Grammar.ruleOf? k = some (.node k a)) (ha : Grammar.BeginsWithWord a) :
    ∃ name, t.firstWord? = some name := by
  obtain ⟨cs, rfl, -⟩ := h.derives_of_ruleOf? hkind hrule
  obtain ⟨name, hname, -⟩ := h.here.beginsWithWord hrule ha
  exact ⟨name, hname⟩

/-! ## Declarations -/

/-- The kind of the body of a type. -/
def bodyKind : TypeKind → Kind
  | .class => .classBody
  | .interface => .interfaceBody

/-- An assembled declaration has the members of its body. -/
private theorem exists_declarationWith {package : String} (kind : TypeKind) {t : Tree}
    {exts impls : List TypeUse} {name : String} {body : Tree}
    (hname : t.wordAfter? kind.keyword = some name)
    (hbody : t.child? (bodyKind kind) = some body) :
    ∃ d, declarationWith package kind t (bodyKind kind) exts impls = some d ∧ d.kind = kind ∧
      d.fieldDeclarations = fieldDeclarationsOf body ∧ d.methods = methodsOf body := by
  refine ⟨⟨name, qualified package name, kind, fieldDeclarationsOf body, methodsOf body, exts,
    impls⟩, ?_, rfl, rfl, rfl⟩
  simp [declarationWith, hname, hbody]

/-- A node that declares a type has a declaration, whose members are those of its body. -/
theorem exists_declarationOf {t : Tree} (package : String) (h : t.Every IsShaped)
    (ht : isTypeNode t = true) :
    ∃ d body, declarationOf package t = some d ∧ t.child? (bodyKind d.kind) = some body ∧
      d.fieldDeclarations = fieldDeclarationsOf body ∧ d.methods = methodsOf body := by
  rcases Bool.or_eq_true_iff.mp ht with hkind | hkind
  · obtain ⟨cs, rfl, hcs⟩ := h.derives_of_ruleOf? hkind rfl
    obtain ⟨tok, hnamed⟩ := Grammar.namedBehind_of_derives hcs
    have hholds : Grammar.Holds .classBody (.symbol .classBody) := Grammar.holds_symbol rfl
    obtain ⟨body, hbody⟩ :=
      hholds.behind.behind.behind.behind.behind.behind.behind.exists_child?
        .classDeclaration hcs
    obtain ⟨d, hd, hkind', hfields, hmethods⟩ :=
      exists_declarationWith .class hnamed.wordAfter? hbody
    exact ⟨d, body, hd, by rw [hkind']; exact hbody, hfields, hmethods⟩
  · obtain ⟨cs, rfl, hcs⟩ := h.derives_of_ruleOf? hkind rfl
    obtain ⟨tok, hnamed⟩ := Grammar.namedBehind_of_derives hcs
    have hholds : Grammar.Holds .interfaceBody (.symbol .interfaceBody) :=
      Grammar.holds_symbol rfl
    obtain ⟨body, hbody⟩ :=
      hholds.behind.behind.behind.behind.behind.behind.exists_child?
        .interfaceDeclaration hcs
    obtain ⟨d, hd, hkind', hfields, hmethods⟩ :=
      exists_declarationWith .interface hnamed.wordAfter? hbody
    exact ⟨d, body, hd, by rw [hkind']; exact hbody, hfields, hmethods⟩

/-! ## Members -/

theorem Tree.Every.exists_type_of_fieldDeclaration {f : Tree} (h : f.Every IsBracketed)
    (hfield : f.isNode .fieldDeclaration = true) : ∃ type, f.child? .type = some type := by
  cases f with
  | leaf tok => cases hfield
  | node k cs =>
      obtain rfl : k = .fieldDeclaration := by simpa [isNode] using hfield
      exact Grammar.holds_type_variables.exists_child? _ (h.here.1 _ rfl)

/-- Every variable of a field declaration is a field. -/
theorem exists_mem_fieldDeclarationsOf {body f type v : Tree} (h : body.Every IsShaped)
    (hf : f ∈ body.children) (hfield : f.isNode .fieldDeclaration = true)
    (htype : f.child? .type = some type) (hv : v ∈ f.children)
    (hvariable : v.isNode .variableDeclarator = true) :
    ∃ name, v.firstWord? = some name ∧
      ⟨visibilityOf f, variableType type v.bracketsAfterWord?, name⟩ ∈
        (fieldDeclarationsOf body).flatten := by
  obtain ⟨name, hname⟩ := ((h.children f hf).children v hv).exists_firstWord? hvariable rfl
    Grammar.beginsWithWord_variableDeclarator
  have hmem : (⟨visibilityOf f, variableType type v.bracketsAfterWord?, name⟩ : Field) ∈
      fieldDeclarationOf f := by
    rw [fieldDeclarationOf, htype]
    exact List.mem_filterMap.mpr ⟨v, List.mem_filter.mpr ⟨hv, hvariable⟩, by rw [hname]; rfl⟩
  refine ⟨name, hname, List.mem_flatten.mpr ⟨fieldDeclarationOf f, ?_, hmem⟩⟩
  refine List.mem_filter.mpr ⟨List.mem_map_of_mem (List.mem_filter.mpr ⟨hf, hfield⟩), ?_⟩
  have hne := List.ne_nil_of_mem hmem
  simpa using hne

/-- A node of a method is read, with its parameters and the type that it returns. -/
theorem exists_methodOf? {m : Tree} (h : m.Every IsShaped)
    (hkind : m.isNode .methodDeclaration = true) :
    ∃ method type list, methodOf? m = some method ∧ m.child? .type = some type ∧
      m.child? .formalParameters = some list ∧ method.returnType = typeUse type ∧
      method.parameters = list.children.filterMap parameterOf? := by
  obtain ⟨name, hname⟩ := h.exists_firstWord? hkind rfl Grammar.beginsWithWord_methodDeclaration
  obtain ⟨cs, rfl, hcs⟩ := h.derives_of_ruleOf? hkind rfl
  obtain ⟨type, htype⟩ := Grammar.holds_type_methodDeclaration.exists_child?
    .methodDeclaration hcs
  obtain ⟨list, hlist⟩ := Grammar.holds_formalParameters_methodDeclaration.exists_child?
    .methodDeclaration hcs
  let method : Method := ⟨visibilityOf (.node .methodDeclaration cs), typeUse type, name,
    list.children.filterMap parameterOf?⟩
  have hmethod : methodOf? (.node .methodDeclaration cs) = some method := by
    simp only [methodOf?, hname, htype, hlist, Option.elim_some, method]
  exact ⟨method, type, list, hmethod, htype, hlist, rfl, rfl⟩

/-- Every method of a body is read, with the type that it returns. -/
theorem exists_mem_methodsOf {body m : Tree} (h : body.Every IsShaped)
    (hm : m ∈ body.children) (hkind : m.isNode .methodDeclaration = true) :
    ∃ method type, method ∈ methodsOf body ∧ methodOf? m = some method ∧
      m.child? .type = some type ∧ method.returnType = typeUse type := by
  obtain ⟨method, type, -, hmethod, htype, -, hreturn, -⟩ :=
    exists_methodOf? (h.children m hm) hkind
  have hmem : method ∈ methodsOf body :=
    List.mem_filterMap.mpr ⟨m, List.mem_filter.mpr ⟨hm, hkind⟩, hmethod⟩
  exact ⟨method, type, hmem, hmethod, htype, hreturn⟩

/-- A node of an ordinary parameter is read. -/
theorem exists_parameterOf? {p : Tree} (h : p.Every IsShaped)
    (hkind : p.isNode .formalParameter = true) :
    ∃ name type, p.firstWord? = some name ∧ p.child? .type = some type ∧
      parameterOf? p = some ⟨name, variableType type p.bracketsAfterWord?⟩ := by
  obtain ⟨name, hname⟩ := h.exists_firstWord? hkind rfl Grammar.beginsWithWord_formalParameter
  obtain ⟨cs, rfl, hcs⟩ := h.derives_of_ruleOf? hkind rfl
  obtain ⟨type, htype⟩ := Grammar.holds_type_variables.exists_child? .formalParameter hcs
  refine ⟨name, type, hname, htype, ?_⟩
  simp only [parameterOf?, hname, htype]

/-- Every ordinary parameter of a method is read. -/
theorem exists_mem_parameters {m list p : Tree} {method : Method} (h : m.Every IsShaped)
    (hmethod : methodOf? m = some method) (hlist : m.child? .formalParameters = some list)
    (hp : p ∈ list.children) (hkind : p.isNode .formalParameter = true) :
    ∃ name type, p.firstWord? = some name ∧ p.child? .type = some type ∧
      ⟨name, variableType type p.bracketsAfterWord?⟩ ∈ method.parameters := by
  obtain ⟨name, type, hname, htype, hparameter⟩ :=
    exists_parameterOf? ((h.of_child? hlist).children p hp) hkind
  refine ⟨name, type, hname, htype, ?_⟩
  unfold methodOf? at hmethod
  split at hmethod
  · cases hmethod
    rw [hlist]
    exact List.mem_filterMap.mpr ⟨_, hp, hparameter⟩
  · cases hmethod

end JavaAtlas.Java
