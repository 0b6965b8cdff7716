import JavaAtlas.Proofs.Java.Shape

/-!
# Declarations without line ends

A declaration takes its names from words and spells its types canonically, so
none of its texts can hold a line end.  Only the name of its package is taken
over with its layout.

Main results:

- Theorem `spelled_of_mem_declarations`: the names in a declaration of a parsed tree
  are words.
- Theorem `Declaration.Spelled.unbroken`: no text in such a declaration holds a line
  end, apart from the name of its package.
- Theorem `ne_nil_of_mem_fieldDeclarations`: every field declaration of a
  declaration has a variable.
-/

namespace JavaAtlas.Java

open JavaAtlas.Java.Tree JavaAtlas.Text

/-! ## Texts without line ends -/

/-- Neither the name nor the type of the variable holds a line end. -/
structure Field.Unbroken (f : Field) : Prop where
  name : breaks f.name = 0
  type : breaks f.type.text = 0

/-- Neither the name nor the type of the parameter holds a line end. -/
structure Parameter.Unbroken (p : Parameter) : Prop where
  name : breaks p.name = 0
  type : breaks p.type.text = 0

/-- No text of the method holds a line end. -/
structure Method.Unbroken (m : Method) : Prop where
  name : breaks m.name = 0
  returnType : breaks m.returnType.text = 0
  parameters : ∀ p ∈ m.parameters, p.Unbroken

/-- No text of the declaration holds a line end, apart from the name of the package. -/
structure Declaration.Unbroken (package : String) (d : Declaration) : Prop where
  qualifiedName : d.qualifiedName = qualified package d.name
  name : breaks d.name = 0
  fields : ∀ f ∈ d.fields, f.Unbroken
  methods : ∀ m ∈ d.methods, m.Unbroken

/-! ## Texts with words for names -/

/-- The name of the variable is a word, and its type holds no line end. -/
structure Field.Spelled (f : Field) : Prop where
  name : IsWordText f.name
  type : breaks f.type.text = 0

/-- The name of the parameter is a word, and its type holds no line end. -/
structure Parameter.Spelled (p : Parameter) : Prop where
  name : IsWordText p.name
  type : breaks p.type.text = 0

/-- The names of the method are words, and its types hold no line end. -/
structure Method.Spelled (m : Method) : Prop where
  name : IsWordText m.name
  returnType : breaks m.returnType.text = 0
  parameters : ∀ p ∈ m.parameters, p.Spelled

/-- The names of the declaration are words, apart from the package, and its types hold no
line end. -/
structure Declaration.Spelled (package : String) (d : Declaration) : Prop where
  qualifiedName : d.qualifiedName = qualified package d.name
  name : IsWordText d.name
  fields : ∀ f ∈ d.fields, f.Spelled
  methods : ∀ m ∈ d.methods, m.Spelled

theorem Field.Spelled.unbroken {f : Field} (h : f.Spelled) : f.Unbroken :=
  ⟨h.name.breaks_eq_zero, h.type⟩

theorem Parameter.Spelled.unbroken {p : Parameter} (h : p.Spelled) : p.Unbroken :=
  ⟨h.name.breaks_eq_zero, h.type⟩

theorem Method.Spelled.unbroken {m : Method} (h : m.Spelled) : m.Unbroken :=
  ⟨h.name.breaks_eq_zero, h.returnType, fun p hp => (h.parameters p hp).unbroken⟩

theorem Declaration.Spelled.unbroken {package : String} {d : Declaration}
    (h : d.Spelled package) : d.Unbroken package :=
  ⟨h.qualifiedName, h.name.breaks_eq_zero, fun f hf => (h.fields f hf).unbroken,
    fun m hm => (h.methods m hm).unbroken⟩

/-! ## Packages -/

theorem breaks_qualified {package name : String} (h : breaks name = 0) :
    breaks (qualified package name) = breaks package := by
  have hdot : breaks "." = 0 := by decide
  unfold qualified
  split
  case isTrue hnone => rw [hnone, h, breaks_empty]
  case isFalse => simp [h, hdot]

/-- The qualified name holds the line ends of the package. -/
theorem Declaration.Unbroken.breaks_qualifiedName {package : String} {d : Declaration}
    (h : d.Unbroken package) : breaks d.qualifiedName = breaks package := by
  rw [h.qualifiedName, breaks_qualified h.name]

/-! ## Types -/

theorem breaks_typeUse (t : Tree) : breaks (typeUse t).text = 0 :=
  TypeText.breaks_canonical _

theorem breaks_variableType (type : Tree) (brackets : Option Tree) :
    breaks (variableType type brackets).text = 0 := by
  cases brackets <;> exact TypeText.breaks_canonical _

theorem breaks_spreadType {p : Tree} {type : TypeUse} (h : spreadType? p = some type) :
    breaks type.text = 0 := by
  obtain ⟨part, -, hpart⟩ := List.exists_of_findSome?_eq_some h
  cases part with
  | comment c =>
      cases hpart
      exact TypeText.breaks_canonical _
  | tree t =>
      cases t with
      | leaf tok => cases hpart
      | node k cs =>
          dsimp only at hpart
          split at hpart
          · cases hpart
          · cases hpart
            exact breaks_typeUse _

/-! ## Names -/

theorem isWordText_firstWord {k : Kind} {a : Grammar.Part} {t : Tree} (h : t.Every IsShaped)
    (hkind : t.isNode k = true) (hrule : Grammar.ruleOf? k = some (.node k a))
    (ha : Grammar.BeginsWithWord a) {name : String} (hname : t.firstWord? = some name) :
    IsWordText name := by
  cases t with
  | leaf tok => cases hkind
  | node k' cs =>
      obtain rfl : k' = k := by simpa [isNode] using hkind
      obtain ⟨word, hword, htext⟩ := h.here.beginsWithWord hrule ha
      obtain rfl : word = name := Option.some.inj (hword.symm.trans hname)
      exact htext

theorem isWordText_firstWord_variableDeclarator {t : Tree} (h : t.Every IsShaped)
    (hkind : t.isNode .variableDeclarator = true) {name : String}
    (hname : t.firstWord? = some name) : IsWordText name :=
  isWordText_firstWord h hkind rfl Grammar.beginsWithWord_variableDeclarator hname

theorem isWordText_firstWord_formalParameter {t : Tree} (h : t.Every IsShaped)
    (hkind : t.isNode .formalParameter = true) {name : String}
    (hname : t.firstWord? = some name) : IsWordText name :=
  isWordText_firstWord h hkind rfl Grammar.beginsWithWord_formalParameter hname

theorem isWordText_firstWord_methodDeclaration {t : Tree} (h : t.Every IsShaped)
    (hkind : t.isNode .methodDeclaration = true) {name : String}
    (hname : t.firstWord? = some name) : IsWordText name :=
  isWordText_firstWord h hkind rfl Grammar.beginsWithWord_methodDeclaration hname

/-! ## Members -/

theorem spelled_of_mem_fieldDeclarationOf {t : Tree} (h : t.Every IsShaped) :
    ∀ f ∈ fieldDeclarationOf t, f.Spelled := by
  intro f hf
  unfold fieldDeclarationOf at hf
  split at hf
  · cases hf
  · obtain ⟨d, hd, hdf⟩ := List.mem_filterMap.mp hf
    obtain ⟨hmem, hkind⟩ := List.mem_filter.mp hd
    obtain ⟨name, hname, rfl⟩ := Option.map_eq_some_iff.mp hdf
    exact ⟨isWordText_firstWord_variableDeclarator (h.children d hmem) hkind hname,
      breaks_variableType _ _⟩

theorem spelled_of_parameterOf? {t : Tree} (h : t.Every IsShaped) {p : Parameter}
    (hp : parameterOf? t = some p) : p.Spelled := by
  unfold parameterOf? at hp
  split at hp
  · split at hp
    · rename_i type name _ hname
      cases hp
      exact ⟨isWordText_firstWord_formalParameter h rfl hname, breaks_variableType _ _⟩
    · cases hp
  · split at hp
    · rename_i type name htype hname
      cases hp
      obtain ⟨d, hd, hword⟩ := Option.bind_eq_some_iff.mp hname
      refine ⟨isWordText_firstWord_variableDeclarator (h.of_child? hd) ?_ hword,
        breaks_spreadType htype⟩
      exact List.find?_some hd
    · cases hp
  · cases hp

theorem spelled_of_methodOf? {t : Tree} (h : t.Every IsShaped)
    (hkind : t.isNode .methodDeclaration = true) {m : Method} (hm : methodOf? t = some m) :
    m.Spelled := by
  unfold methodOf? at hm
  split at hm
  · rename_i name type hname _
    cases hm
    refine ⟨isWordText_firstWord_methodDeclaration h hkind hname, breaks_typeUse _, ?_⟩
    intro p hp
    obtain ⟨q, hq, hqp⟩ := List.mem_filterMap.mp hp
    cases hlist : t.child? .formalParameters with
    | none => simp [hlist] at hq
    | some ps =>
        rw [hlist] at hq
        exact spelled_of_parameterOf? ((h.of_child? hlist).children q hq) hqp
  · cases hm

theorem spelled_of_mem_fieldDeclarationsOf {body : Tree} (h : body.Every IsShaped) :
    ∀ f ∈ (fieldDeclarationsOf body).flatten, f.Spelled := by
  intro f hf
  obtain ⟨group, hgroup, hf⟩ := List.mem_flatten.mp hf
  obtain ⟨t, ht, rfl⟩ := List.mem_map.mp (List.mem_filter.mp hgroup).1
  exact spelled_of_mem_fieldDeclarationOf (h.children t (List.mem_filter.mp ht).1) f hf

theorem spelled_of_mem_methodsOf {body : Tree} (h : body.Every IsShaped) :
    ∀ m ∈ methodsOf body, m.Spelled := by
  intro m hm
  obtain ⟨t, ht, htm⟩ := List.mem_filterMap.mp hm
  obtain ⟨hmem, hkind⟩ := List.mem_filter.mp ht
  exact spelled_of_methodOf? (h.children t hmem) hkind htm

/-! ## Declarations -/

/-- An assembled declaration is spelled if its name is. -/
private theorem spelled_of_declarationWith {package : String} {kind : TypeKind} {t : Tree}
    {body : Kind} {exts impls : List TypeUse} (h : t.Every IsShaped)
    (hname : ∀ name, t.wordAfter? kind.keyword = some name → IsWordText name)
    {d : Declaration} (hd : declarationWith package kind t body exts impls = some d) :
    d.Spelled package := by
  obtain ⟨name, hword, rfl⟩ := Option.map_eq_some_iff.mp hd
  cases hbody : t.child? body with
  | none => exact ⟨rfl, hname name hword, by simp [Declaration.fields], by simp⟩
  | some b =>
      have hb := h.of_child? hbody
      exact ⟨rfl, hname name hword, spelled_of_mem_fieldDeclarationsOf hb,
        spelled_of_mem_methodsOf hb⟩

theorem spelled_of_declarationOf {package : String} {t : Tree} (h : t.Every IsShaped)
    {d : Declaration} (hd : declarationOf package t = some d) : d.Spelled package := by
  unfold declarationOf at hd
  split at hd
  · refine spelled_of_declarationWith h ?_ hd
    exact fun name hword => h.here.isWordText_wordAfter rfl hword
  · refine spelled_of_declarationWith h ?_ hd
    exact fun name hword => h.here.isWordText_wordAfter rfl hword
  · cases hd

/-- The names in a declaration of a parsed tree are words, apart from its package, and no
type in it holds a line end. -/
theorem spelled_of_mem_declarations {source : String} {root : Tree} (h : read source = .ok root)
    {package : String} : ∀ d ∈ declarations package root, d.Spelled package := by
  intro d hd
  obtain ⟨t, ht, htd⟩ := List.mem_filterMap.mp hd
  exact spelled_of_declarationOf
    (every_of_mem_typeDeclarationNodes (every_isShaped_of_read h) t ht) htd

/-- Every field declaration of a declaration has a variable. -/
theorem ne_nil_of_mem_fieldDeclarations {package : String} {root : Tree} :
    ∀ d ∈ declarations package root, ∀ group ∈ d.fieldDeclarations, group ≠ [] := by
  intro d hd group hgroup
  obtain ⟨t, -, htd⟩ := List.mem_filterMap.mp hd
  have hbody : ∃ body : Option Tree, d.fieldDeclarations = body.elim [] fieldDeclarationsOf := by
    unfold declarationOf at htd
    split at htd
    case h_3 => cases htd
    all_goals
      obtain ⟨name, -, rfl⟩ := Option.map_eq_some_iff.mp htd
      exact ⟨_, rfl⟩
  obtain ⟨body, hbody⟩ := hbody
  rw [hbody] at hgroup
  cases body with
  | none => cases hgroup
  | some b =>
      have hfull := (List.mem_filter.mp hgroup).2
      rintro rfl
      cases hfull

end JavaAtlas.Java
