import JavaAtlas.Proofs.Java.Formatting
import JavaAtlas.Proofs.Java.TypeNames

/-!
# Types that clauses name

A clause of a parsed tree is read as the types that it names, in their order, with the
comments between them taken for types too.  So it is read exactly if no comment stands
there.  A type has a name by which it can be looked up unless it is primitive or an array.

Main definitions:

- `Interleaved`: a list is made of two others.
- `typesNamed`, `commentsAmong`: the types of a clause, and the comments outside of them.

Main results:

- Theorem `interleaved_clauseTypes`: what is read of a clause.
- Theorem `isSome_simpleName_iff`: which types have a name to look up.
-/

namespace JavaAtlas.Java

open JavaAtlas.Java.Tree

/-! ## Lists made of two others -/

/-- The third list is made of the first two, the members of each in their order. -/
inductive Interleaved {α : Type} : List α → List α → List α → Prop where
  | nil : Interleaved [] [] []
  | left (x : α) {xs ys zs : List α} (h : Interleaved xs ys zs) :
      Interleaved (x :: xs) ys (x :: zs)
  | right (y : α) {xs ys zs : List α} (h : Interleaved xs ys zs) :
      Interleaved xs (y :: ys) (y :: zs)

namespace Interleaved

variable {α β : Type} {xs ys zs xs' ys' zs' : List α}

theorem append (h : Interleaved xs ys zs) (h' : Interleaved xs' ys' zs') :
    Interleaved (xs ++ xs') (ys ++ ys') (zs ++ zs') := by
  induction h with
  | nil => exact h'
  | left x _ ih => exact .left x ih
  | right y _ ih => exact .right y ih

theorem all_right (ys : List α) : Interleaved [] ys ys := by
  induction ys with
  | nil => exact .nil
  | cons y ys ih => exact .right y ih

theorem singleton (x : α) : Interleaved [x] [] [x] :=
  .left x .nil

theorem flatMap {f g h : β → List α} {bs : List β}
    (hall : ∀ b ∈ bs, Interleaved (f b) (g b) (h b)) :
    Interleaved (bs.flatMap f) (bs.flatMap g) (bs.flatMap h) := by
  induction bs with
  | nil => exact .nil
  | cons b bs ih =>
      obtain ⟨hb, hbs⟩ := List.forall_mem_cons.mp hall
      exact hb.append (ih hbs)

theorem length_eq (h : Interleaved xs ys zs) : zs.length = xs.length + ys.length := by
  induction h with
  | nil => rfl
  | left x _ ih => simp only [List.length_cons, ih]; omega
  | right y _ ih => simp only [List.length_cons, ih]; omega

theorem sublist (h : Interleaved xs ys zs) : xs.Sublist zs := by
  induction h with
  | nil => exact .slnil
  | left x _ ih => exact ih.cons_cons x
  | right y _ ih => exact ih.cons y

/-- Nothing but the first list is there exactly if the second one is empty. -/
theorem eq_left_iff (h : Interleaved xs ys zs) : zs = xs ↔ ys = [] := by
  have hlength := h.length_eq
  constructor
  · rintro rfl
    exact List.eq_nil_of_length_eq_zero (by omega)
  · rintro rfl
    exact (h.sublist.eq_of_length (by simpa using hlength.symm)).symm

end Interleaved

/-! ## Types and comments of a clause -/

/-- The types that a clause names, in their order: the one behind its keyword, or those of
its list. -/
def typesNamed (clause : Tree) : List Tree :=
  clause.children.flatMap fun c =>
    if c.isNode .typeList then c.children.filter (isNode .type)
    else if c.isNode .type then [c] else []

/-- The comments in a row of trees: those before each tree but the first one, and those that
are counted inside. -/
def commentsInRow (inside : Tree → List String) : List Tree → List String
  | [] => []
  | c :: cs => inside c ++ cs.flatMap fun d => commentsBefore d ++ inside d

/-- The comments of a clause outside its types, in their order. -/
def commentsAmong (clause : Tree) : List String :=
  commentsInRow
    (fun c => if c.isNode .typeList then commentsInRow (fun _ => []) c.children else [])
    clause.children

section Parts

variable {use : Part → List TypeUse} {named : Tree → List TypeUse} {inside : Tree → List String}
  {cs : List Tree}

theorem interleaved_laterParts (hcomment : ∀ c, use (.comment c) = [commentUse c])
    (htree : ∀ t ∈ cs, Interleaved (named t) ((inside t).map commentUse) (use (.tree t))) :
    Interleaved (cs.flatMap named)
      ((cs.flatMap fun d => commentsBefore d ++ inside d).map commentUse)
      ((laterParts cs).flatMap use) := by
  induction cs with
  | nil => exact .nil
  | cons t ts ih =>
      obtain ⟨ht, hts⟩ := List.forall_mem_cons.mp htree
      have hbefore : ((commentsBefore t).map Part.comment).flatMap use =
          (commentsBefore t).map commentUse := by
        rw [List.flatMap_map, List.map_eq_flatMap]
        simp only [hcomment]
      have hparts : (laterParts (t :: ts)).flatMap use =
          (commentsBefore t).map commentUse ++
            (use (.tree t) ++ (laterParts ts).flatMap use) := by
        rw [← hbefore, ← List.flatMap_cons, ← List.flatMap_append]
        rfl
      have hhere := (Interleaved.all_right ((commentsBefore t).map commentUse)).append
        (ht.append (ih hts))
      rw [hparts, List.flatMap_cons, List.flatMap_cons, List.map_append, List.map_append,
        List.append_assoc]
      exact hhere

/-- What is read of a node is made of what is read of its children and of the comments
between them, if each comment counts as a type. -/
theorem interleaved_parts (k : Kind) (hcomment : ∀ c, use (.comment c) = [commentUse c])
    (htree : ∀ t ∈ cs, Interleaved (named t) ((inside t).map commentUse) (use (.tree t))) :
    Interleaved (cs.flatMap named) ((commentsInRow inside cs).map commentUse)
      ((Tree.node k cs).parts.flatMap use) := by
  cases cs with
  | nil => exact .nil
  | cons t ts =>
      obtain ⟨ht, hts⟩ := List.forall_mem_cons.mp htree
      have hall := ht.append (interleaved_laterParts hcomment hts)
      rw [← List.map_append] at hall
      exact hall

end Parts

private theorem map_filter_eq_flatMap {α β : Type} (p : α → Bool) (f : α → β) (xs : List α) :
    (xs.filter p).map f = xs.flatMap fun x => if p x then [f x] else [] := by
  induction xs with
  | nil => rfl
  | cons x xs ih =>
      by_cases hx : p x = true
      case pos => simp [hx, ih]
      case neg => simp [hx, ih]

/-- A list of types is read as the types in it and the comments between them. -/
theorem interleaved_typeList {cs : List Tree} (h : IsListing .typeList cs) :
    Interleaved ((cs.filter (isNode .type)).map typeUse)
      ((commentsInRow (fun _ => []) cs).map commentUse)
      ((Tree.node .typeList cs).parts.filterMap partUse) := by
  have htypes : (cs.filter (isNode .type)).map typeUse =
      cs.flatMap fun c => if c.isNode .type then [typeUse c] else [] :=
    map_filter_eq_flatMap _ _ cs
  rw [htypes, List.filterMap_eq_flatMap_toList]
  refine interleaved_parts .typeList (fun _ => rfl) fun t ht => ?_
  rcases h.isListed (by decide) t ht with ⟨tok, rfl⟩ | htype | ⟨hne, -⟩
  · exact .nil
  · cases t with
    | leaf tok => cases htype
    | node k ts =>
        rw [if_pos htype]
        exact .singleton _
  · exact absurd rfl hne

/-- What is read of a clause: the types that it names, and the comments among them. -/
theorem interleaved_clauseTypes {clause : Tree} {k : Kind} (hkind : clause.isNode k = true)
    (hk : k ∈ clauseKinds) (h : clause.Every IsListing) :
    Interleaved ((typesNamed clause).map typeUse) ((commentsAmong clause).map commentUse)
      (clauseTypes clause) := by
  cases clause with
  | leaf tok => cases hkind
  | node k' cs =>
      obtain rfl : k' = k := by simpa [isNode] using hkind
      rw [typesNamed, List.map_flatMap]
      refine interleaved_parts k' (fun _ => rfl) fun t ht => ?_
      rcases h.here.isListed hk t ht with ⟨tok, rfl⟩ | htype | ⟨-, hlist⟩
      · exact .nil
      · cases t with
        | leaf tok => cases htype
        | node k ts =>
            obtain rfl : k = .type := by simpa [isNode] using htype
            exact .singleton _
      · cases t with
        | leaf tok => cases hlist
        | node k ts =>
            obtain rfl : k = .typeList := by simpa [isNode] using hlist
            exact interleaved_typeList (h.children _ ht).here

/-- The types that the clauses of one kind name. -/
def typesNamedBy (t : Tree) (k : Kind) : List Tree :=
  (t.children.filter (isNode k)).flatMap typesNamed

/-- The comments of the clauses of one kind outside the types. -/
def commentsAmongClauses (t : Tree) (k : Kind) : List String :=
  (t.children.filter (isNode k)).flatMap commentsAmong

/-- What is read of the clauses of one kind. -/
theorem interleaved_clausesOf {t : Tree} {k : Kind} (hk : k ∈ clauseKinds)
    (h : t.Every IsListing) :
    Interleaved ((typesNamedBy t k).map typeUse) ((commentsAmongClauses t k).map commentUse)
      (clausesOf t k) := by
  rw [typesNamedBy, commentsAmongClauses, List.map_flatMap, List.map_flatMap]
  refine Interleaved.flatMap fun clause hclause => ?_
  obtain ⟨hmem, hkind⟩ := List.mem_filter.mp hclause
  exact interleaved_clauseTypes hkind hk (h.children clause hmem)

/-- What clauses name are types. -/
theorem of_mem_typesNamedBy {p : Kind → List Tree → Prop} {t type : Tree} {k : Kind}
    (h : t.Every p) (htype : type ∈ typesNamedBy t k) :
    type.isNode .type = true ∧ type.Every p := by
  obtain ⟨clause, hclause, htype⟩ := List.mem_flatMap.mp htype
  obtain ⟨c, hc, htype⟩ := List.mem_flatMap.mp htype
  have hevery := (h.children clause (List.mem_filter.mp hclause).1).children c hc
  split at htype
  case isTrue =>
    obtain ⟨hmem, hkind⟩ := List.mem_filter.mp htype
    exact ⟨hkind, hevery.children type hmem⟩
  case isFalse =>
    split at htype
    case isTrue hkind =>
      obtain rfl := List.mem_singleton.mp htype
      exact ⟨hkind, hevery⟩
    case isFalse => cases htype

/-! ## Names to look up -/

/-- A type has a name by which it can be looked up unless it is primitive or an array. -/
theorem isSome_simpleName_iff {type : Tree} (h : type.Every IsBracketed)
    (hkind : type.isNode .type = true) :
    (simpleName type).isSome = true ↔
      type.child? .primitiveType = none ∧ type.child? .dimensions = none := by
  obtain ⟨τ, rfl⟩ := exists_writtenType h hkind
  rw [Option.isSome_iff_ne_none, ne_eq, τ.simpleName_tree_eq_none_iff,
    τ.child?_primitiveType_eq_none_iff, τ.child?_dimensions_eq_none_iff, not_or]

end JavaAtlas.Java
