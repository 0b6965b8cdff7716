import JavaAtlas.Proofs.Java.Ownership
import JavaAtlas.Proofs.Source.Characters

/-!
# Declarations and members of a valid unit

The unit of a valid text has one declaration for each class and interface of its tree, wherever
the type stands, in pre-order.  Its members are the field declarations and the methods that
stand directly in its body, and no other declaration has them.

Main definitions:

- `Java.FieldsRead`: what is read of a field declaration.
- `Java.DeclaredAt`: what the declaration of a place in a tree holds.

Main results:

- Theorem `Java.forall₂_declaredAt`: the declarations of a parsed tree.
- Theorem `CompilationUnit.attribution_exact`: types in pre-order, each with its own members.
-/

namespace JavaAtlas

namespace Java

open JavaAtlas.Java.Tree

/-! ## Field declarations -/

/-- What is read of a field declaration: one field for every variable, and at least one. -/
structure FieldsRead (f : Tree) (fs : FieldDeclaration) : Prop where
  ne_nil : fs ≠ []
  fields : ∃ type, f.child? .type = some type ∧
    List.Forall₂
      (fun v x => ∃ name, v.firstWord? = some name ∧
        x = ⟨visibilityOf f, variableType type v.bracketsAfterWord?, name⟩)
      (f.children.filter (isNode .variableDeclarator)) fs

theorem Grammar.holds_variableDeclarator {a b : Part} :
    Holds .variableDeclarator (a >> b >> declarators >> mark ";") :=
  (Holds.before (Holds.before (holds_symbol rfl))).behind.behind

/-- Every field declaration of a parsed tree is read. -/
theorem fieldsRead_fieldDeclarationOf {f : Tree} (hkind : f.isNode .fieldDeclaration = true)
    (hshaped : f.Every IsShaped) (hbracketed : f.Every IsBracketed) :
    FieldsRead f (fieldDeclarationOf f) := by
  obtain ⟨type, htype⟩ := hbracketed.exists_type_of_fieldDeclaration hkind
  have hread : List.Forall₂
      (fun v x => ∃ name, v.firstWord? = some name ∧
        x = ⟨visibilityOf f, variableType type v.bracketsAfterWord?, name⟩)
      (f.children.filter (isNode .variableDeclarator)) (fieldDeclarationOf f) := by
    rw [fieldDeclarationOf, htype]
    refine forall₂_filterMap_of_total fun v hv => ?_
    obtain ⟨hmem, hvariable⟩ := List.mem_filter.mp hv
    obtain ⟨name, hname⟩ := (hshaped.children v hmem).exists_firstWord? hvariable rfl
      Grammar.beginsWithWord_variableDeclarator
    exact ⟨_, by rw [hname]; rfl, name, hname, rfl⟩
  refine ⟨?_, type, htype, hread⟩
  intro hnil
  rw [hnil, List.forall₂_nil_right_iff, List.filter_eq_nil_iff] at hread
  cases f with
  | leaf tok => cases hkind
  | node k cs =>
      obtain rfl : k = .fieldDeclaration := by simpa [isNode] using hkind
      obtain ⟨v, hv, hvariable⟩ :=
        Grammar.holds_variableDeclarator cs (hbracketed.here.1 _ rfl)
      exact hread v hv hvariable

/-! ## Declarations -/

/-- What the declaration of a place holds: the name of the type behind that of the package,
and the field declarations and methods that belong to the place, one for one. -/
structure DeclaredAt (package : String) (root : Tree) (s : Way × Tree) (d : Declaration) :
    Prop where
  kind : s.2.isNode (nodeKind d.kind) = true
  name : s.2.wordAfter? d.kind.keyword = some d.name
  qualifiedName : d.qualifiedName = qualified package d.name
  fields : List.Forall₂ (fun f fs => FieldsRead f.2 fs) (members root s.1 .fieldDeclaration)
    d.fieldDeclarations
  methods : List.Forall₂ (fun m method => methodOf? m.2 = some method)
    (members root s.1 .methodDeclaration) d.methods

/-- The kind and the names of a declaration are those of its node. -/
theorem named_of_declarationOf {package : String} {t : Tree} {d : Declaration}
    (h : declarationOf package t = some d) :
    t.isNode (nodeKind d.kind) = true ∧ t.wordAfter? d.kind.keyword = some d.name ∧
      d.qualifiedName = qualified package d.name := by
  unfold declarationOf at h
  split at h
  case h_1 =>
    obtain ⟨name, hname, rfl⟩ := Option.map_eq_some_iff.mp h
    exact ⟨rfl, hname, rfl⟩
  case h_2 =>
    obtain ⟨name, hname, rfl⟩ := Option.map_eq_some_iff.mp h
    exact ⟨rfl, hname, rfl⟩
  case h_3 => cases h

/-- A class or an interface of a parsed tree is declared with its members. -/
theorem exists_declaredAt {root t : Tree} {w : Way} (package : String)
    (hw : root.at? w = some t) (ht : isTypeNode t = true) (hshaped : t.Every IsShaped)
    (hbracketed : t.Every IsBracketed) :
    ∃ d, declarationOf package t = some d ∧ DeclaredAt package root (w, t) d := by
  obtain ⟨d, body, hd, hbody, hfields, hmethods⟩ := exists_declarationOf package hshaped ht
  obtain ⟨hkind, hname, hqualified⟩ := named_of_declarationOf hd
  obtain ⟨i, body', honly, hbody'⟩ := exists_isOnlyBody hshaped d.kind hkind
  cases hbody.symm.trans hbody'
  have hmembers (k : Kind) : (members root w k).map Prod.snd = body.children.filter (isNode k) :=
    map_snd_members k hw honly
  have hmember {k : Kind} {s : Way × Tree} (hs : s ∈ members root w k) :
      s.2 ∈ body.children ∧ s.2.isNode k = true := by
    have hmem := List.mem_map_of_mem (f := Prod.snd) hs
    rw [hmembers] at hmem
    exact List.mem_filter.mp hmem
  refine ⟨d, hd, hkind, hname, hqualified, ?fields, ?methods⟩
  case fields =>
    have hread (f : Way × Tree) (hf : f ∈ members root w .fieldDeclaration) :
        FieldsRead f.2 (fieldDeclarationOf f.2) := by
      obtain ⟨hmem, hfield⟩ := hmember hf
      exact fieldsRead_fieldDeclarationOf hfield ((hshaped.of_child? hbody).children f.2 hmem)
        ((hbracketed.of_child? hbody).children f.2 hmem)
    have hall : fieldDeclarationsOf body =
        (members root w .fieldDeclaration).map fun f => fieldDeclarationOf f.2 := by
      rw [fieldDeclarationsOf, ← hmembers, List.map_map]
      refine List.filter_eq_self.mpr fun fs hfs => ?_
      obtain ⟨f, hf, rfl⟩ := List.mem_map.mp hfs
      simpa using (hread f hf).ne_nil
    rw [hfields, hall, List.forall₂_map_right_iff, List.forall₂_same]
    exact hread
  case methods =>
    rw [hmethods, methodsOf, ← hmembers, List.filterMap_map]
    refine forall₂_filterMap_of_total fun m hm => ?_
    obtain ⟨hmem, hmethod⟩ := hmember hm
    obtain ⟨method, -, -, hread, -⟩ :=
      exists_methodOf? ((hshaped.of_child? hbody).children m.2 hmem) hmethod
    exact ⟨method, hread, hread⟩

/-- The declarations of a parsed tree belong to its types in pre-order, one to each. -/
theorem forall₂_declaredAt {source : String} {root : Tree} (h : read source = .ok root)
    (package : String) :
    List.Forall₂ (DeclaredAt package root) (typeSpots root) (declarations package root) := by
  rw [declarations, typeDeclarationNodes_eq_map_typeSpots, List.filterMap_map]
  refine forall₂_filterMap_of_total fun s hs => ?_
  obtain ⟨-, hw, ht⟩ := mem_typeSpots.mp (show (s.1, s.2) ∈ typeSpots root from hs)
  have hmem : s.2 ∈ typeDeclarationNodes root := by
    rw [typeDeclarationNodes_eq_map_typeSpots]
    exact List.mem_map_of_mem hs
  exact exists_declaredAt package hw ht
    (every_of_mem_typeDeclarationNodes (every_isShaped_of_read h) s.2 hmem)
    (every_of_mem_typeDeclarationNodes (every_isBracketed_of_read h) s.2 hmem)

/-- The whole of a parsed tree declares no type. -/
theorem isTypeNode_of_read {source : String} {root : Tree} (h : read source = .ok root) :
    isTypeNode root = false := by
  unfold read at h
  dsimp only at h
  split at h
  case h_1 t hparse =>
    cases h
    obtain ⟨xs, rfl, -⟩ := derives_of_parse hparse
    rfl
  case h_2 => cases h

/-- What has an owner belongs to one type, and what has none belongs to no type. -/
theorem exists_typeSpot_of_owner? {source : String} {root m : Tree} {v w : Way} {k : Kind}
    (h : read source = .ok root) (hv : root.at? v = some m) (hkind : m.isNode k = true)
    (howner : owner? root v = some w) :
    ∃ s ∈ typeSpots root, s.1 = w ∧
      ∀ s' ∈ typeSpots root, (v, m) ∈ members root s'.1 k ↔ s' = s := by
  obtain ⟨t, hw, ht⟩ := exists_typeNode_of_owner? howner
  have hne : w ≠ [] := by
    rintro rfl
    rw [at?_nil, Option.some.injEq] at hw
    rw [← hw, isTypeNode_of_read h] at ht
    cases ht
  refine ⟨(w, t), mem_typeSpots.mpr ⟨hne, hw, ht⟩, rfl, ?_⟩
  rintro ⟨w', t'⟩ hs'
  obtain ⟨-, hw', -⟩ := mem_typeSpots.mp hs'
  rw [mem_members, howner]
  constructor
  · rintro ⟨-, -, heq⟩
    cases heq
    cases hw.symm.trans hw'
    rfl
  · intro heq
    cases heq
    exact ⟨hv, hkind, rfl⟩

end Java

namespace Source

open Java Java.Tree

namespace CompilationUnit

/-- The loop over any tree collects the nodes that declare a type in pre-order, each of them
once.  In a valid unit each of them has a declaration, which is named behind the package alone
and holds the field declarations and methods that belong to it, in their order.  A place belongs
to the class or the interface in whose body it stands directly: a field declaration or a method
there is a member of this type and of no other, and anywhere else it is a member of none. -/
theorem attribution_exact :
    (∀ root : Tree, typeDeclarationNodes root = (typeSpots root).map Prod.snd ∧
      (typeSpots root).Pairwise Earlier ∧
      ∀ w t, (w, t) ∈ typeSpots root ↔ w ≠ [] ∧ root.at? w = some t ∧ isTypeNode t = true) ∧
    (∀ (root : Tree) (v w : Way), owner? root v = some w ↔
      ∃ i j t body, v = w ++ [i, j] ∧ root.at? w = some t ∧ root.at? (w ++ [i]) = some body ∧
        isBodyOf t body = true) ∧
    (∀ (root t : Tree) (w : Way) (i j : Nat), root.at? w = some t → isTypeNode t = false →
      owner? root (w ++ [i, j]) = none) ∧
    ∀ (language : Language) (path text : String),
      (ofText language path text).isValid = true →
      ∃ root, Java.read text = .ok root ∧
        List.Forall₂ (DeclaredAt (ofText language path text).package root) (typeSpots root)
          (ofText language path text).declarations ∧
        ∀ (v : Way) (m : Tree) (k : Kind), root.at? v = some m → m.isNode k = true →
          (∀ w, owner? root v = some w → ∃ s ∈ typeSpots root, s.1 = w ∧
            ∀ s' ∈ typeSpots root, (v, m) ∈ members root s'.1 k ↔ s' = s) ∧
          (owner? root v = none → ∀ s ∈ typeSpots root, (v, m) ∉ members root s.1 k) := by
  refine ⟨fun root => ⟨typeDeclarationNodes_eq_map_typeSpots root, pairwise_typeSpots root,
    fun w t => mem_typeSpots⟩, fun root v w => owner?_eq_some_iff,
    fun root t w i j => owner?_eq_none, ?_⟩
  intro language path text hvalid
  obtain ⟨root, hread⟩ := exists_read_of_isValid hvalid
  refine ⟨root, hread, ?_, ?_⟩
  · rw [ofText_of_read hread]
    exact forall₂_declaredAt hread _
  · intro v m k hv hkind
    constructor
    · intro w howner
      exact exists_typeSpot_of_owner? hread hv hkind howner
    · intro hnone s _ hmem
      have howner := (mem_members.mp hmem).2.2
      rw [hnone] at howner
      cases howner

set_option maxRecDepth 4096 in
/-- Types inside an enumeration, a constant of it, a record, an annotation type, a method and
an object, with members of all of these around them. -/
theorem attribution_exact_nested :
    let text := "package p; enum E \x7b X \x7b int x; class N \x7b int n; \x7d \x7d; int e; " ++
      "interface I \x7b void i(); \x7d void h() \x7b\x7d \x7d " ++
      "record R(int a) \x7b static int r; class Q \x7b\x7d \x7d " ++
      "@interface T \x7b int t = 1; class U \x7b int u; \x7d \x7d " ++
      "class A \x7b int a, b; void f() \x7b class L \x7b int l; void m() \x7b\x7d \x7d " ++
      "new O() \x7b int o; class V \x7b int v; \x7d void k() \x7b\x7d \x7d; \x7d int c; \x7d"
    let u := ofText .java "A.java" text
    u.isValid = true ∧
      (∃ root, Java.read text = .ok root ∧
        List.Forall₂ (DeclaredAt u.package root) (typeSpots root) u.declarations) ∧
      u.declarations.map (fun d => (d.qualifiedName, d.fieldDeclarations.map (·.map Field.name),
          d.methods.map Method.name)) =
        [("p.N", [["n"]], []), ("p.I", [], ["i"]), ("p.Q", [], []), ("p.U", [["u"]], []),
          ("p.A", [["a", "b"], ["c"]], ["f"]), ("p.L", [["l"]], ["m"]), ("p.V", [["v"]], [])] := by
  intro text u
  have htext : text = String.ofList _ :=
    append_eq_ofList (append_eq_ofList (append_eq_ofList (append_eq_ofList
      (append_eq_ofList rfl rfl) rfl) rfl) rfl) rfl
  have hu : u = ofCharacters .java "A.java" _ :=
    (congrArg (ofText .java "A.java") htext).trans (ofText_ofList _ _ _)
  have hread : u.isValid = true ∧
      u.declarations.map (fun d => (d.qualifiedName, d.fieldDeclarations.map (·.map Field.name),
          d.methods.map Method.name)) =
        [("p.N", [["n"]], []), ("p.I", [], ["i"]), ("p.Q", [], []), ("p.U", [["u"]], []),
          ("p.A", [["a", "b"], ["c"]], ["f"]), ("p.L", [["l"]], ["m"]),
          ("p.V", [["v"]], [])] := by
    rw [hu]
    decide +kernel
  obtain ⟨root, htree, hdeclared, -⟩ := attribution_exact.2.2.2 .java "A.java" text hread.1
  exact ⟨hread.1, ⟨root, htree, hdeclared⟩, hread.2⟩

end CompilationUnit

end Source

end JavaAtlas
