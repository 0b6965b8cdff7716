import JavaAtlas.Proofs.Java.TypeNodes

/-!
# Names with dots

A qualified name is split at its last dot, so a name without a dot can be told from the
package before it.  The names that a parsed text declares have no dot, and neither have
those by which its types are looked up: both are words of the text.

Main definitions:

- `Undotted`: a name without a dot.
- `TypeUse.ReadFrom`: a type that was read from a tree, or has no name to look up.

Main results:

- Theorem `splitLast_eq_some_iff`: a name is split at its last dot, and only there.
- Theorem `qualified_inj`: undotted names in packages are told apart.
- Theorem `readFrom_of_declarationOf`: where the types of a declaration come from.
- Theorem `isNamedIn_of_mem_declarations`: the names of a parsed text.
-/

namespace JavaAtlas.Java

open JavaAtlas.Java.Tree

/-! ## Splitting at the last dot -/

/-- The name holds no dot. -/
def Undotted (name : String) : Prop :=
  '.' ∉ name.toList

instance (name : String) : Decidable (Undotted name) :=
  inferInstanceAs (Decidable (_ ∉ _))

/-- What stands behind the last dot has none. -/
private theorem undotted_reverse_takeWhile (cs : List Char) :
    Undotted (String.ofList (cs.takeWhile (· != '.')).reverse) := by
  unfold Undotted
  rw [String.toList_ofList, List.mem_reverse]
  intro hmem
  have hkept := List.all_eq_true.mp (List.all_takeWhile (p := (· != '.')) (l := cs)) '.' hmem
  exact absurd hkept (by decide)

private theorem drop_length_takeWhile (p : Char → Bool) (cs : List Char) :
    cs.drop (cs.takeWhile p).length = cs.dropWhile p := by
  calc cs.drop (cs.takeWhile p).length
      = (cs.takeWhile p ++ cs.dropWhile p).drop (cs.takeWhile p).length := by
        rw [List.takeWhile_append_dropWhile]
    _ = cs.dropWhile p := List.drop_left

/-- A name is split at its last dot, and only there. -/
theorem splitLast_eq_some_iff {name front last : String} :
    Import.splitLast name = (some front, last) ↔
      Undotted last ∧ name = front ++ "." ++ last := by
  have hdot : ".".toList = ['.'] := rfl
  constructor
  · intro h
    unfold Import.splitLast at h
    have hparts := List.takeWhile_append_dropWhile (p := (· != '.')) (l := name.toList.reverse)
    simp only [drop_length_takeWhile] at h
    cases hrest : name.toList.reverse.dropWhile (· != '.') with
    | nil => simp [hrest] at h
    | cons c cs =>
        have hc : c = '.' := by
          have hhead := List.head?_dropWhile_not (· != '.') name.toList.reverse
          rw [hrest] at hhead
          simpa using hhead
        simp only [hrest, Prod.mk.injEq, Option.some.injEq] at h
        obtain ⟨rfl, rfl⟩ := h
        refine ⟨undotted_reverse_takeWhile _, ?_⟩
        apply String.toList_injective
        rw [hrest, hc] at hparts
        have hname := congrArg List.reverse hparts
        simpa [String.toList_append, hdot] using hname.symm
  · rintro ⟨hlast, rfl⟩
    have hkept : ∀ c ∈ last.toList.reverse, (c != '.') = true := by
      intro c hc
      rw [bne_iff_ne]
      rintro rfl
      exact hlast (List.mem_reverse.mp hc)
    have htake : (last.toList.reverse ++ '.' :: front.toList.reverse).takeWhile (· != '.') =
        last.toList.reverse := by
      rw [List.takeWhile_append_of_pos hkept]
      simp
    unfold Import.splitLast
    simp [htake]

/-- The parts before and after the last dot are determined. -/
theorem dotted_inj {front front' last last' : String} (hlast : Undotted last)
    (hlast' : Undotted last') (h : front ++ "." ++ last = front' ++ "." ++ last') :
    front = front' ∧ last = last' := by
  have hsplit := splitLast_eq_some_iff.mpr ⟨hlast, Eq.refl (front ++ "." ++ last)⟩
  have hsplit' := splitLast_eq_some_iff.mpr ⟨hlast', h⟩
  simpa using hsplit.symm.trans hsplit'

theorem not_undotted_dotted (front last : String) : ¬ Undotted (front ++ "." ++ last) := by
  intro h
  apply h
  simp [String.toList_append]

/-- A qualified name without a dot is that of a type without package. -/
theorem eq_of_qualified_undotted {package name bare : String} (hbare : Undotted bare)
    (h : qualified package name = bare) : package = "" ∧ name = bare := by
  unfold qualified at h
  split at h
  case isTrue hnone => exact ⟨hnone, h⟩
  case isFalse =>
    rw [← h] at hbare
    exact absurd hbare (not_undotted_dotted _ _)

/-- A qualified name that is dotted tells the package. -/
theorem eq_of_qualified_dotted {package name front last : String} (hname : Undotted name)
    (hlast : Undotted last) (h : qualified package name = front ++ "." ++ last) :
    package = front ∧ name = last := by
  unfold qualified at h
  split at h
  case isTrue =>
    rw [h] at hname
    exact absurd hname (not_undotted_dotted _ _)
  case isFalse => exact dotted_inj hname hlast h

/-- Undotted names in packages are told apart. -/
theorem qualified_inj {package package' name name' : String} (hname : Undotted name)
    (hname' : Undotted name') (h : qualified package name = qualified package' name') :
    package = package' ∧ name = name' := by
  by_cases hpackage : package' = ""
  case pos =>
    have hbare : qualified package' name' = name' := by rw [qualified, if_pos hpackage]
    obtain ⟨hnone, hsame⟩ := eq_of_qualified_undotted hname' (h.trans hbare)
    exact ⟨hnone.trans hpackage.symm, hsame⟩
  case neg =>
    have hdotted : qualified package' name' = package' ++ "." ++ name' := by
      rw [qualified, if_neg hpackage]
    exact eq_of_qualified_dotted hname hname' (h.trans hdotted)

/-! ## Where types come from -/

/-- The type was read from a tree with the property, or has no name to look up. -/
def TypeUse.ReadFrom (p : Tree → Prop) (u : TypeUse) : Prop :=
  u.simpleName = none ∨ ∃ t, p t ∧ u = typeUse t

/-- The types of all members and clauses of the declaration have the property. -/
structure Declaration.TypesHave (q : TypeUse → Prop) (d : Declaration) : Prop where
  fields : ∀ f ∈ d.fields, q f.type
  parameters : ∀ m ∈ d.methods, ∀ x ∈ m.parameters, q x.type
  returnTypes : ∀ m ∈ d.methods, q m.returnType
  «extends» : ∀ u ∈ d.extends, q u
  implements : ∀ u ∈ d.implements, q u

theorem Declaration.TypesHave.mono {q q' : TypeUse → Prop} {d : Declaration}
    (h : d.TypesHave q) (hq : ∀ u, q u → q' u) : d.TypesHave q' :=
  ⟨fun f hf => hq _ (h.fields f hf), fun m hm x hx => hq _ (h.parameters m hm x hx),
    fun m hm => hq _ (h.returnTypes m hm), fun u hu => hq _ (h.extends u hu),
    fun u hu => hq _ (h.implements u hu)⟩

section ReadFrom

variable {p : Kind → List Tree → Prop} {t : Tree}

theorem readFrom_typeUse (h : t.Every p) : (typeUse t).ReadFrom (Tree.Every p) :=
  .inr ⟨t, h, rfl⟩

theorem readFrom_commentUse (q : Tree → Prop) (comment : String) :
    (commentUse comment).ReadFrom q :=
  .inl rfl

theorem readFrom_variableType (h : t.Every p) (brackets : Option Tree) :
    (variableType t brackets).ReadFrom (Tree.Every p) := by
  cases brackets with
  | none => exact readFrom_typeUse h
  | some b => exact .inl rfl

theorem every_of_mem_laterParts {ts : List Tree} (h : ∀ c ∈ ts, c.Every p) :
    ∀ c, Part.tree c ∈ laterParts ts → c.Every p := by
  induction ts with
  | nil => simp [laterParts]
  | cons t ts ih =>
      intro c hc
      obtain ⟨ht, hts⟩ := List.forall_mem_cons.mp h
      simp only [laterParts, List.mem_append, List.mem_cons, List.mem_map] at hc
      rcases hc with ⟨comment, -, hcomment⟩ | heq | hc
      · cases hcomment
      · cases heq
        exact ht
      · exact ih hts c hc

/-- The trees among the parts of a node are its children. -/
theorem every_of_mem_parts (h : t.Every p) : ∀ c, Part.tree c ∈ t.parts → c.Every p := by
  intro c hc
  unfold parts at hc
  split at hc
  case h_1 => cases hc
  case h_2 first rest hchildren =>
    have hall := h.children
    rw [hchildren] at hall
    obtain ⟨hfirst, hrest⟩ := List.forall_mem_cons.mp hall
    rcases List.mem_cons.mp hc with heq | hc
    · cases heq
      exact hfirst
    · exact every_of_mem_laterParts hrest c hc

theorem readFrom_partUse (h : t.Every p) {part : Part} (hpart : part ∈ t.parts) {u : TypeUse}
    (hu : partUse part = some u) : u.ReadFrom (Tree.Every p) := by
  cases part with
  | comment c =>
      cases hu
      exact readFrom_commentUse _ c
  | tree c =>
      have hc := every_of_mem_parts h c hpart
      cases c with
      | leaf tok => cases hu
      | node k cs =>
          cases hu
          exact readFrom_typeUse hc

theorem readFrom_clauseTypes (h : t.Every p) :
    ∀ u ∈ clauseTypes t, u.ReadFrom (Tree.Every p) := by
  intro u hu
  obtain ⟨part, hpart, hu⟩ := List.mem_flatMap.mp hu
  split at hu
  case h_1 cs =>
    obtain ⟨inner, hinner, hu⟩ := List.mem_filterMap.mp hu
    exact readFrom_partUse (every_of_mem_parts h _ hpart) hinner hu
  case h_2 => exact readFrom_partUse h hpart (Option.mem_toList.mp hu)

theorem readFrom_clausesOf (h : t.Every p) (k : Kind) :
    ∀ u ∈ clausesOf t k, u.ReadFrom (Tree.Every p) := by
  intro u hu
  obtain ⟨clause, hclause, hu⟩ := List.mem_flatMap.mp hu
  exact readFrom_clauseTypes (h.children clause (List.mem_filter.mp hclause).1) u hu

theorem readFrom_spreadType? (h : t.Every p) {u : TypeUse} (hu : spreadType? t = some u) :
    u.ReadFrom (Tree.Every p) := by
  obtain ⟨part, hpart, hu⟩ := List.exists_of_findSome?_eq_some hu
  cases part with
  | comment c =>
      cases hu
      exact readFrom_commentUse _ c
  | tree c =>
      have hc := every_of_mem_parts h c hpart
      cases c with
      | leaf tok => cases hu
      | node k cs =>
          dsimp only at hu
          split at hu
          case isTrue => cases hu
          case isFalse =>
            cases hu
            exact readFrom_typeUse hc

theorem readFrom_parameterOf? (h : t.Every p) {x : Parameter} (hx : parameterOf? t = some x) :
    x.type.ReadFrom (Tree.Every p) := by
  unfold parameterOf? at hx
  split at hx
  case h_1 =>
    split at hx
    case h_1 type name htype _ =>
      cases hx
      exact readFrom_variableType (h.of_child? htype) _
    case h_2 => cases hx
  case h_2 =>
    split at hx
    case h_1 type name htype _ =>
      cases hx
      exact readFrom_spreadType? h htype
    case h_2 => cases hx
  case h_3 => cases hx

theorem readFrom_methodOf? (h : t.Every p) {m : Method} (hm : methodOf? t = some m) :
    m.returnType.ReadFrom (Tree.Every p) ∧
      ∀ x ∈ m.parameters, x.type.ReadFrom (Tree.Every p) := by
  unfold methodOf? at hm
  split at hm
  case h_2 => cases hm
  case h_1 name type _ htype =>
    cases hm
    refine ⟨readFrom_typeUse (h.of_child? htype), fun x hx => ?_⟩
    obtain ⟨c, hc, hx⟩ := List.mem_filterMap.mp hx
    cases hlist : t.child? .formalParameters with
    | none => simp [hlist] at hc
    | some list =>
        rw [hlist] at hc
        exact readFrom_parameterOf? ((h.of_child? hlist).children c hc) hx

theorem readFrom_fieldDeclarationsOf (h : t.Every p) :
    ∀ f ∈ (fieldDeclarationsOf t).flatten, f.type.ReadFrom (Tree.Every p) := by
  intro f hf
  obtain ⟨group, hgroup, hf⟩ := List.mem_flatten.mp hf
  obtain ⟨field, hfield, rfl⟩ := List.mem_map.mp (List.mem_filter.mp hgroup).1
  have hevery := h.children field (List.mem_filter.mp hfield).1
  unfold fieldDeclarationOf at hf
  split at hf
  case h_1 => cases hf
  case h_2 type htype =>
    obtain ⟨v, -, hv⟩ := List.mem_filterMap.mp hf
    obtain ⟨name, -, rfl⟩ := Option.map_eq_some_iff.mp hv
    exact readFrom_variableType (hevery.of_child? htype) _

/-- The types of a declaration were read below its node, or have no name to look up. -/
theorem readFrom_of_declarationOf (h : t.Every p) {package : String} {d : Declaration}
    (hd : declarationOf package t = some d) :
    d.TypesHave (TypeUse.ReadFrom (Tree.Every p)) := by
  have hwith : ∀ {kind : TypeKind} {k : Kind} {exts impls : List TypeUse},
      declarationWith package kind t k exts impls = some d →
      (∀ u ∈ exts, u.ReadFrom (Tree.Every p)) → (∀ u ∈ impls, u.ReadFrom (Tree.Every p)) →
      d.TypesHave (TypeUse.ReadFrom (Tree.Every p)) := by
    intro kind k exts impls hd hexts himpls
    obtain ⟨name, -, rfl⟩ := Option.map_eq_some_iff.mp hd
    have hmethods : ∀ m ∈ (t.child? k).elim [] methodsOf,
        m.returnType.ReadFrom (Tree.Every p) ∧
          ∀ x ∈ m.parameters, x.type.ReadFrom (Tree.Every p) := by
      intro m hm
      cases hbody : t.child? k with
      | none => simp [hbody] at hm
      | some body =>
          rw [hbody] at hm
          obtain ⟨c, hc, hm⟩ := List.mem_filterMap.mp hm
          exact readFrom_methodOf?
            ((h.of_child? hbody).children c (List.mem_filter.mp hc).1) hm
    refine ⟨fun f hf => ?_, fun m hm => (hmethods m hm).2, fun m hm => (hmethods m hm).1,
      hexts, himpls⟩
    cases hbody : t.child? k with
    | none => simp [Declaration.fields, hbody] at hf
    | some body =>
        simp only [Declaration.fields, hbody] at hf
        exact readFrom_fieldDeclarationsOf (h.of_child? hbody) f hf
  unfold declarationOf at hd
  split at hd
  case h_1 => exact hwith hd (readFrom_clausesOf h _) (readFrom_clausesOf h _)
  case h_2 => exact hwith hd (readFrom_clausesOf h _) (List.forall_mem_nil _)
  case h_3 => cases hd

end ReadFrom

/-! ## Names of a parsed text -/

/-- A word holds no dot. -/
theorem IsWordText.undotted {name : String} (h : IsWordText name) : Undotted name :=
  h.not_mem (by decide)

/-- The name by which a type is looked up is a word of the text. -/
theorem undotted_simpleName {t : Tree} (h : t.Every IsShaped) {name : String}
    (hname : simpleName t = some name) : Undotted name := by
  cases t with
  | leaf tok => cases hname
  | node k cs =>
      by_cases hkind : k = .type
      case pos =>
        rw [hkind, simpleName_type] at hname
        obtain ⟨tok, hmem, hword, rfl⟩ := exists_word_of_nameOfRow hname
        exact IsWordText.undotted (h.here.2 tok hmem hword)
      case neg =>
        rw [simpleName_of_not_isNode (by simpa [isNode] using hkind)] at hname
        cases hname

/-- The type has no name to look up, or one without a dot. -/
def TypeUse.LooksUpUndotted (u : TypeUse) : Prop :=
  ∀ name, u.simpleName = some name → Undotted name

theorem TypeUse.ReadFrom.looksUpUndotted {u : TypeUse} (h : u.ReadFrom (Tree.Every IsShaped)) :
    u.LooksUpUndotted := by
  intro name hname
  rcases h with hnone | ⟨t, ht, rfl⟩
  · cases hnone.symm.trans hname
  · exact undotted_simpleName ht hname

/-- The declaration has an undotted name in the package, and looks types up by such names. -/
structure Declaration.IsNamedIn (package : String) (d : Declaration) : Prop where
  qualifiedName : d.qualifiedName = qualified package d.name
  undotted : Undotted d.name
  types : d.TypesHave TypeUse.LooksUpUndotted

theorem isNamedIn_of_declarationOf {package : String} {t : Tree} (h : t.Every IsShaped)
    {d : Declaration} (hd : declarationOf package t = some d) : d.IsNamedIn package := by
  have htypes := (readFrom_of_declarationOf h hd).mono fun _ => TypeUse.ReadFrom.looksUpUndotted
  unfold declarationOf at hd
  split at hd
  case h_3 => cases hd
  all_goals
    obtain ⟨name, hword, rfl⟩ := Option.map_eq_some_iff.mp hd
    exact ⟨rfl, (h.here.isWordText_wordAfter rfl hword).undotted, htypes⟩

/-- The declarations of a parsed text have undotted names in its package, and look types up
by such names. -/
theorem isNamedIn_of_mem_declarations {source : String} {root : Tree}
    (h : read source = .ok root) {package : String} :
    ∀ d ∈ declarations package root, d.IsNamedIn package := by
  intro d hd
  obtain ⟨t, ht, htd⟩ := List.mem_filterMap.mp hd
  exact isNamedIn_of_declarationOf
    (every_of_mem_typeDeclarationNodes (every_isShaped_of_read h) t ht) htd

end JavaAtlas.Java
