import JavaAtlas.Diagram.Document
import JavaAtlas.Proofs.Java.Brackets
import JavaAtlas.Proofs.Java.Members

/-!
# Arrays

An array is of no known type, so whatever is declared as an array gives no edge.  That
holds for every variable of a field and for every ordinary parameter, wherever the brackets
are written.  It holds for what a method returns if the brackets stand on the type:
brackets after the parameters of a method are passed over, and the method counts as one
that returns the type of an element.

Main results:

- Theorem `arrays_give_no_edge`: the variables, parameters and methods of a file that are
  declared as arrays give no edge, except for methods with brackets after the parameters
  alone.
- Theorem `array_result_gives_edge`: such a method does give one.
-/

namespace JavaAtlas.Diagram

open Java Java.Tree Source

/-! ## References to arrays -/

/-- The reference of the declaration is to an array with the brackets at its end, and gives
no edge. -/
structure NamesArray (d : Declaration) (r : Reference) (b : Tree) : Prop where
  mem : r ∈ references d
  isArray : r.type.IsArray
  endsInBrackets : r.type.EndsInBrackets b
  noEdge : ∀ scope, edgeOf? scope d.qualifiedName r = none

/-- A type without a name to look up names no known type. -/
theorem edgeOf?_eq_none {r : Reference} (scope : Scope) (source : String)
    (h : r.type.simpleName = none) : edgeOf? scope source r = none := by
  rw [edgeOf?, Scope.target?, h]
  rfl

theorem NamesArray.of_variable {d : Declaration} {type b : Tree} {after : Option Tree}
    {kind : EdgeKind} {label : Option String} (htype : type.Every IsBracketed)
    (hkind : type.isNode .type = true) (hafter : ∀ b, after = some b → IsBrackets b)
    (hb : bracketsOf? type after = some b)
    (hmem : ⟨kind, variableType type after, label⟩ ∈ references d) :
    NamesArray d ⟨kind, variableType type after, label⟩ b := by
  obtain ⟨harray, hends⟩ := isArray_variableType htype hkind hafter hb
  exact ⟨hmem, harray, hends, fun scope => edgeOf?_eq_none scope _ harray.1⟩

theorem mem_references_of_mem_fields {d : Declaration} {f : Field} (h : f ∈ d.fields) :
    ⟨.association, f.type, some f.name⟩ ∈ references d := by
  rw [references, List.append_assoc, List.append_assoc]
  exact List.mem_append_left _ (List.mem_map.mpr ⟨f, h, rfl⟩)

theorem mem_references_of_mem_methods {d : Declaration} {m : Method} {r : Reference}
    (hm : m ∈ d.methods) (hr : r ∈ methodReferences m) : r ∈ references d := by
  rw [references, List.append_assoc, List.append_assoc]
  refine List.mem_append_right _ (List.mem_append_left _ ?_)
  exact List.mem_flatMap.mpr ⟨m, hm, hr⟩

/-! ## Members that are declared as arrays -/

/-- Every variable of the field that is declared as an array names one. -/
def FieldNamesArrays (d : Declaration) (f : Tree) : Prop :=
  ∃ type, f.child? .type = some type ∧
    ∀ v ∈ f.children, v.isNode .variableDeclarator = true →
      ∃ name, v.firstWord? = some name ∧
        ⟨visibilityOf f, variableType type v.bracketsAfterWord?, name⟩ ∈ d.fields ∧
        ∀ b, bracketsOf? type v.bracketsAfterWord? = some b →
          NamesArray d ⟨.association, variableType type v.bracketsAfterWord?, some name⟩ b

/-- The ordinary parameter, if it is declared as an array, names one. -/
def ParameterNamesArray (d : Declaration) (method : Method) (p : Tree) : Prop :=
  ∃ name type, p.firstWord? = some name ∧ p.child? .type = some type ∧
    ⟨name, variableType type p.bracketsAfterWord?⟩ ∈ method.parameters ∧
    ∀ b, bracketsOf? type p.bracketsAfterWord? = some b →
      NamesArray d ⟨.dependency, variableType type p.bracketsAfterWord?, none⟩ b

/-- The method names arrays by its parameters, and by what it returns exactly if the
brackets stand on that type. -/
def MethodNamesArrays (d : Declaration) (m : Tree) : Prop :=
  ∃ method ∈ d.methods, ∃ type, methodOf? m = some method ∧ m.child? .type = some type ∧
    (∀ list, m.child? .formalParameters = some list →
      ∀ p ∈ list.children, p.isNode .formalParameter = true → ParameterNamesArray d method p) ∧
    (∀ b, type.child? .dimensions = some b →
      NamesArray d ⟨.dependency, method.returnType, none⟩ b) ∧
    (method.returnType.IsArray ↔ (type.child? .dimensions).isSome = true)

section Members

variable {d : Declaration} {body f m : Tree}

theorem fieldNamesArrays (hshaped : body.Every IsShaped) (hbracketed : body.Every IsBracketed)
    (hfields : d.fieldDeclarations = fieldDeclarationsOf body) (hf : f ∈ body.children)
    (hfield : f.isNode .fieldDeclaration = true) : FieldNamesArrays d f := by
  have hevery := hbracketed.children f hf
  obtain ⟨type, htype⟩ := hevery.exists_type_of_fieldDeclaration hfield
  refine ⟨type, htype, fun v hv hvariable => ?_⟩
  obtain ⟨name, hname, hmem⟩ :=
    exists_mem_fieldDeclarationsOf hshaped hf hfield htype hv hvariable
  have hmemFields : (⟨visibilityOf f, variableType type v.bracketsAfterWord?, name⟩ : Field) ∈
      d.fields := by
    rw [Declaration.fields, hfields]
    exact hmem
  refine ⟨name, hname, hmemFields, fun b hb => ?_⟩
  exact NamesArray.of_variable (hevery.of_child? htype) (List.find?_some htype)
    (fun b hafter => (hevery.children v hv).isBrackets_of_bracketsAfterWord? hafter) hb
    (mem_references_of_mem_fields hmemFields)

theorem parameterNamesArray {list p : Tree} {method : Method} (hshaped : m.Every IsShaped)
    (hbracketed : m.Every IsBracketed) (hmem : method ∈ d.methods)
    (hmethod : methodOf? m = some method) (hlist : m.child? .formalParameters = some list)
    (hp : p ∈ list.children) (hkind : p.isNode .formalParameter = true) :
    ParameterNamesArray d method p := by
  obtain ⟨name, type, hname, htype, hparameter⟩ :=
    exists_mem_parameters hshaped hmethod hlist hp hkind
  have hevery := (hbracketed.of_child? hlist).children p hp
  refine ⟨name, type, hname, htype, hparameter, fun b hb => ?_⟩
  have hreference : (⟨.dependency, variableType type p.bracketsAfterWord?, none⟩ : Reference) ∈
      methodReferences method :=
    List.mem_append_left _ (List.mem_map.mpr ⟨_, hparameter, rfl⟩)
  exact NamesArray.of_variable (hevery.of_child? htype) (List.find?_some htype)
    (fun b hafter => hevery.isBrackets_of_bracketsAfterWord? hafter) hb
    (mem_references_of_mem_methods hmem hreference)

theorem methodNamesArrays (hshaped : body.Every IsShaped) (hbracketed : body.Every IsBracketed)
    (hmethods : d.methods = methodsOf body) (hm : m ∈ body.children)
    (hkind : m.isNode .methodDeclaration = true) : MethodNamesArrays d m := by
  obtain ⟨method, type, hmem, hmethod, htype, hreturn⟩ := exists_mem_methodsOf hshaped hm hkind
  rw [← hmethods] at hmem
  have hevery := (hbracketed.children m hm).of_child? htype
  have htypeKind : type.isNode .type = true := List.find?_some htype
  refine ⟨method, hmem, type, hmethod, htype, ?_, ?_, ?_⟩
  · intro list hlist p hp hparameter
    exact parameterNamesArray (hshaped.children m hm) (hbracketed.children m hm) hmem hmethod
      hlist hp hparameter
  · intro b hb
    have hreference : (⟨.dependency, method.returnType, none⟩ : Reference) ∈
        methodReferences method := List.mem_append_right _ (List.mem_singleton_self _)
    have hmemReferences := mem_references_of_mem_methods hmem hreference
    rw [hreturn] at hmemReferences ⊢
    have hafter : ∀ b, (none : Option Tree) = some b → IsBrackets b := nofun
    exact NamesArray.of_variable hevery htypeKind hafter hb hmemReferences
  · rw [hreturn]
    exact isArray_typeUse_iff hevery htypeKind

end Members

/-! ## Files -/

/-- The variables, parameters and methods of a file that are declared as arrays give no edge,
whatever is known.  For what a method returns, the brackets have to stand on the type. -/
theorem arrays_give_no_edge {language : Language} {path text : String}
    (h : (CompilationUnit.ofText language path text).isValid = true) :
    ∃ root, read text = .ok root ∧ ∀ t ∈ typeDeclarationNodes root,
      ∃ d ∈ (CompilationUnit.ofText language path text).declarations, ∃ body,
        declarationOf (packageName root) t = some d ∧
        t.child? (bodyKind d.kind) = some body ∧
        (∀ f ∈ body.children, f.isNode .fieldDeclaration = true → FieldNamesArrays d f) ∧
        ∀ m ∈ body.children, m.isNode .methodDeclaration = true → MethodNamesArrays d m := by
  obtain ⟨root, hread⟩ := CompilationUnit.exists_read_of_isValid h
  refine ⟨root, hread, fun t ht => ?_⟩
  have hshaped := every_of_mem_typeDeclarationNodes (every_isShaped_of_read hread) t ht
  have hbracketed := every_of_mem_typeDeclarationNodes (every_isBracketed_of_read hread) t ht
  obtain ⟨d, body, hd, hbody, hfields, hmethods⟩ :=
    exists_declarationOf (packageName root) hshaped (isTypeNode_of_mem_visit ht)
  have hbodyShaped := hshaped.of_child? hbody
  have hbodyBracketed := hbracketed.of_child? hbody
  refine ⟨d, ?_, body, hd, hbody, ?_, ?_⟩
  · rw [CompilationUnit.ofText_of_read hread]
    exact List.mem_filterMap.mpr ⟨t, ht, hd⟩
  · intro f hf hfield
    exact fieldNamesArrays hbodyShaped hbodyBracketed hfields hf hfield
  · intro m hm hmethod
    exact methodNamesArrays hbodyShaped hbodyBracketed hmethods hm hmethod

/-- A class with arrays in every place, the brackets on the type or behind a name. -/
def arraysText : String :=
  "class A \x7b Customer[] a, b[]; int c[]; Customer[] all(Customer p[]) \x7b return null; \x7d \x7d"

/-- The arrays of the class give no edge. -/
theorem arrays_give_no_edge_arraysText :
    (CompilationUnit.ofText .java "A.java" arraysText).isValid = true ∧
      ∃ root, read arraysText = .ok root ∧ ∀ t ∈ typeDeclarationNodes root,
        ∃ d ∈ (CompilationUnit.ofText .java "A.java" arraysText).declarations, ∃ body,
          declarationOf (packageName root) t = some d ∧
          t.child? (bodyKind d.kind) = some body ∧
          (∀ f ∈ body.children, f.isNode .fieldDeclaration = true → FieldNamesArrays d f) ∧
          ∀ m ∈ body.children, m.isNode .methodDeclaration = true → MethodNamesArrays d m := by
  have hvalid : (CompilationUnit.ofText .java "A.java" arraysText).isValid = true := by
    decide +kernel
  exact ⟨hvalid, arrays_give_no_edge hvalid⟩

/-- A method with brackets after its parameters counts as one that returns an element: its
type has the name of the element and no brackets, and gives an edge. -/
theorem array_result_gives_edge :
    let u := CompilationUnit.ofText .java "A.java"
      "class A \x7b Customer all()[] \x7b return null; \x7d \x7d"
    u.isValid = true ∧
      u.declarations.map (fun d => d.methods.map Method.returnType) =
        [[⟨"Customer", some "Customer"⟩]] ∧
      u.declarations.map (edgesOf (scopeOf (.ofList ["A", "Customer"]) u)) =
        [[⟨"A", "Customer", .dependency, none⟩]] := by
  decide +kernel

end JavaAtlas.Diagram
