import JavaAtlas.Proofs.Java.Members
import JavaAtlas.Proofs.Java.Parameters
import JavaAtlas.Proofs.Java.Preorder

/-!
# Whose members they are

A field declaration or a method belongs to the class or the interface in whose body it stands
directly.  Bodies of enumerations, records and annotation types and bodies of objects belong
to no declaration, and so do the members in them.

Main definitions:

- `owner?`: the way to the type that a place belongs to.
- `members`: the places of one kind that belong to a type, in pre-order.
- `IsOnlyBody`: a body that is the only one of its type.

Main results:

- Theorem `owner?_eq_some_iff`: a place belongs to the type in whose body it stands directly.
- Theorem `map_snd_members`: the members of a type are the children of its body.
- Theorem `exists_isOnlyBody`: a class or an interface of a parsed tree has one body.
-/

namespace JavaAtlas.Java

open JavaAtlas.Java.Tree

/-! ## Owners -/

/-- The second node is the body of the first one, which declares a class or an interface. -/
def isBodyOf (t body : Tree) : Bool :=
  t.isNode .classDeclaration && body.isNode .classBody ||
    t.isNode .interfaceDeclaration && body.isNode .interfaceBody

/-- The way to the class or interface in whose body a way ends. -/
def owner? (root : Tree) (v : Way) : Option Way :=
  match root.at? v.dropLast.dropLast, root.at? v.dropLast with
  | some t, some body => if isBodyOf t body then some v.dropLast.dropLast else none
  | _, _ => none

/-- A body is always the body of another node. -/
theorem isBodyOf_self (t : Tree) : isBodyOf t t = false := by
  cases t with
  | leaf tok => rfl
  | node k cs => cases k <;> rfl

theorem isTypeNode_of_isBodyOf {t body : Tree} (h : isBodyOf t body = true) :
    isTypeNode t = true := by
  rw [isBodyOf, Bool.or_eq_true, Bool.and_eq_true, Bool.and_eq_true] at h
  rw [isTypeNode, Bool.or_eq_true]
  rcases h with h | h
  · exact .inl h.1
  · exact .inr h.1

/-- A place belongs to a class or an interface if its way goes on from there to the body, and
from the body by one more step. -/
theorem owner?_eq_some_iff {root : Tree} {v w : Way} :
    owner? root v = some w ↔
      ∃ i j t body, v = w ++ [i, j] ∧ root.at? w = some t ∧ root.at? (w ++ [i]) = some body ∧
        isBodyOf t body = true := by
  constructor
  · intro h
    unfold owner? at h
    split at h
    case h_2 => cases h
    case h_1 t body ht hbody =>
      split at h
      case isFalse => cases h
      case isTrue hbodyOf =>
        cases h
        -- A way of fewer than two steps would lead to a tree that is its own body.
        have hinit : v.dropLast ≠ [] := by
          intro hnil
          rw [hnil, List.dropLast_nil, at?_nil, Option.some.injEq] at ht
          rw [hnil, at?_nil, Option.some.injEq] at hbody
          rw [← ht, ← hbody, isBodyOf_self] at hbodyOf
          cases hbodyOf
        have hne : v ≠ [] := by
          rintro rfl
          exact hinit rfl
        have hlast := List.dropLast_concat_getLast hinit
        refine ⟨v.dropLast.getLast hinit, v.getLast hne, t, body, ?_, ht, ?_, hbodyOf⟩
        · rw [← List.singleton_append, ← List.append_assoc, hlast]
          exact (List.dropLast_concat_getLast hne).symm
        · rw [hlast]
          exact hbody
  · rintro ⟨i, j, t, body, rfl, ht, hbody, hbodyOf⟩
    have hinit : (w ++ [i, j]).dropLast = w ++ [i] := by simp
    have htype : (w ++ [i]).dropLast = w := List.dropLast_concat
    rw [owner?, hinit, htype, ht, hbody]
    simp only [hbodyOf, if_true]

/-- An owner is a class or an interface. -/
theorem exists_typeNode_of_owner? {root : Tree} {v w : Way} (h : owner? root v = some w) :
    ∃ t, root.at? w = some t ∧ isTypeNode t = true := by
  obtain ⟨-, -, t, body, -, ht, -, hbody⟩ := owner?_eq_some_iff.mp h
  exact ⟨t, ht, isTypeNode_of_isBodyOf hbody⟩

/-- What stands in the body of anything but a class or an interface belongs to nothing. -/
theorem owner?_eq_none {root t : Tree} {w : Way} {i j : Nat} (ht : root.at? w = some t)
    (hnone : isTypeNode t = false) : owner? root (w ++ [i, j]) = none := by
  rw [Option.eq_none_iff_forall_ne_some]
  intro u hu
  obtain ⟨i', j', t', body, hway, ht', -, hbody⟩ := owner?_eq_some_iff.mp hu
  obtain ⟨rfl, -⟩ := List.append_inj' hway rfl
  cases ht.symm.trans ht'
  rw [isTypeNode_of_isBodyOf hbody] at hnone
  cases hnone

/-! ## Members -/

/-- The places of one kind that belong to the type at the end of a way, in pre-order. -/
def members (root : Tree) (w : Way) (k : Kind) : List (Way × Tree) :=
  root.spots.filter fun s => s.2.isNode k && owner? root s.1 == some w

theorem mem_members {root t : Tree} {v w : Way} {k : Kind} :
    (v, t) ∈ members root w k ↔
      root.at? v = some t ∧ t.isNode k = true ∧ owner? root v = some w := by
  rw [members, List.mem_filter, mem_spots, Bool.and_eq_true, beq_iff_eq]

/-- The body is the only child that is a body of the node. -/
def IsOnlyBody (t : Tree) (i : Nat) (body : Tree) : Prop :=
  ∀ j c, t.children[j]? = some c ∧ isBodyOf t c = true ↔ j = i ∧ c = body

/-- What belongs to a type stands in its body, if there is only one. -/
theorem mem_members_iff {root t body c : Tree} {v w : Way} {i : Nat} {k : Kind}
    (ht : root.at? w = some t) (hbody : IsOnlyBody t i body) :
    (v, c) ∈ members root w k ↔
      ∃ j, v = w ++ [i, j] ∧ body.children[j]? = some c ∧ c.isNode k = true := by
  have hstep (i' : Nat) : root.at? (w ++ [i']) = t.children[i']? := by
    rw [at?_append, ht, Option.bind_some, at?_singleton]
  have hsteps (i' j : Nat) :
      root.at? (w ++ [i', j]) = t.children[i']?.bind fun b => b.children[j]? := by
    rw [at?_append, ht, Option.bind_some, at?_cons]
    simp only [at?_singleton]
  rw [mem_members, owner?_eq_some_iff]
  constructor
  · rintro ⟨hv, hkind, i', j, t', body', rfl, ht', hbody', hbodyOf⟩
    cases ht.symm.trans ht'
    rw [hstep] at hbody'
    obtain ⟨rfl, rfl⟩ := (hbody i' body').mp ⟨hbody', hbodyOf⟩
    rw [hsteps, hbody', Option.bind_some] at hv
    exact ⟨j, rfl, hv, hkind⟩
  · rintro ⟨j, rfl, hc, hkind⟩
    obtain ⟨hchild, hbodyOf⟩ := (hbody i body).mpr ⟨rfl, rfl⟩
    refine ⟨?_, hkind, i, j, t, body, rfl, ht, ?_, hbodyOf⟩
    · rw [hsteps, hchild, Option.bind_some, hc]
    · rw [hstep, hchild]

/-- Lists that hold the same places in their order are the same. -/
theorem eq_of_pairwise_earlier {as bs : List (Way × Tree)} (has : as.Pairwise Earlier)
    (hbs : bs.Pairwise Earlier) (h : ∀ s, s ∈ as ↔ s ∈ bs) : as = bs := by
  have hnodup {cs : List (Way × Tree)} (hcs : cs.Pairwise Earlier) : cs.Nodup := by
    refine hcs.imp ?_
    rintro s s' hlt rfl
    exact List.lt_irrefl s.1 hlt
  refine List.Perm.eq_of_pairwise ?_ has hbs
    ((List.perm_ext_iff_of_nodup (hnodup has) (hnodup hbs)).mpr h)
  intro s s' _ _ hlt hlt'
  exact absurd (List.lt_trans hlt hlt') (List.lt_irrefl s.1)

/-- The members of a type are the children of its body, in their order. -/
theorem map_snd_members {root t body : Tree} {w : Way} {i : Nat} (k : Kind)
    (ht : root.at? w = some t) (hbody : IsOnlyBody t i body) :
    (members root w k).map Prod.snd = body.children.filter (isNode k) := by
  let children := (body.children.zipIdx.filter fun n => n.1.isNode k).map fun n =>
    (w ++ [i, n.2], n.1)
  have horder : children.Pairwise Earlier := by
    refine List.pairwise_map.mpr (List.Pairwise.filter _ ?_)
    refine (pairwise_zipIdx body.children).imp fun hlt => ?_
    exact List.append_left_lt (List.cons_lt_cons_iff.mpr
      (.inr ⟨rfl, List.cons_lt_cons_iff.mpr (.inl hlt)⟩))
  have hmembers : members root w k = children := by
    refine eq_of_pairwise_earlier ((pairwise_spots root).filter _) horder ?_
    rintro ⟨v, c⟩
    rw [mem_members_iff ht hbody, List.mem_map]
    constructor
    · rintro ⟨j, rfl, hc, hkind⟩
      exact ⟨(c, j), List.mem_filter.mpr ⟨List.mk_mem_zipIdx_iff_getElem?.mpr hc, hkind⟩, rfl⟩
    · rintro ⟨⟨c', j⟩, hmem, heq⟩
      cases heq
      obtain ⟨hc, hkind⟩ := List.mem_filter.mp hmem
      exact ⟨j, rfl, List.mk_mem_zipIdx_iff_getElem?.mp hc, hkind⟩
  have hfst : (body.children.zipIdx.filter fun n => n.1.isNode k).map Prod.fst =
      (body.children.zipIdx.map Prod.fst).filter (isNode k) := by
    rw [List.filter_map]
    rfl
  rw [hmembers, List.map_map]
  exact hfst.trans (by rw [List.zipIdx_map_fst])

/-! ## The body of a declaration -/

namespace Grammar

/-- Whatever the rule builds ends in a node of the kind, and has no other one. -/
def EndsInOnly (k : Kind) (r : Part) : Prop :=
  ∀ xs, Derives table r xs →
    ∃ front cs, xs = front ++ [.node k cs] ∧ ∀ x ∈ front, x.isNode k = false

section EndsInOnly

variable {k : Kind} {a b : Part}

theorem endsInOnly_symbol {s : Symbol} (hs : table s = .node k a) :
    EndsInOnly k (.symbol s) := by
  intro xs h
  rw [derives_symbol, hs, derives_node] at h
  obtain ⟨ys, -, rfl⟩ := h
  exact ⟨[], ys, rfl, by simp⟩

theorem EndsInOnly.behind (ha : Yields (fun x => x.isNode k = false) a) (hb : EndsInOnly k b) :
    EndsInOnly k (a >> b) := by
  intro xs h
  obtain ⟨ys, zs, hys, hzs, rfl⟩ := derives_andThen.mp h
  obtain ⟨front, cs, rfl, hfront⟩ := hb zs hzs
  exact ⟨ys ++ front, cs, (List.append_assoc ..).symm,
    List.forall_mem_append.mpr ⟨ha ys hys, hfront⟩⟩

theorem yields_not_node {k' : Kind} (h : (k' == k) = false) :
    Yields (fun x => x.isNode k = false) (.node k' a) :=
  yields_node fun _ => h

theorem yields_not_symbol {s : Symbol} {k' : Kind} (hs : table s = .node k' a)
    (h : (k' == k) = false) : Yields (fun x => x.isNode k = false) (.symbol s) :=
  Yields.symbol (by rw [hs]; exact yields_not_node h)

theorem yields_not_token {t : Terminal} : Yields (fun x => x.isNode k = false) (.token t) :=
  yields_token fun _ => rfl

end EndsInOnly

theorem endsInOnly_classDeclaration :
    EndsInOnly .classBody
      (Rule.maybe (.symbol .modifiers) >> keyword "class" >> word >>
        Rule.maybe (.symbol .typeParameters) >> Rule.maybe superclass >>
        Rule.maybe superInterfaces >> Rule.maybe permits >> .symbol .classBody) :=
  .behind (yields_not_symbol rfl rfl).maybe <|
    .behind yields_not_token <|
    .behind yields_not_token <|
    .behind (yields_not_symbol rfl rfl).maybe <|
    .behind (yields_not_node rfl).maybe <|
    .behind (yields_not_node rfl).maybe <|
    .behind (yields_not_node rfl).maybe (endsInOnly_symbol rfl)

theorem endsInOnly_interfaceDeclaration :
    EndsInOnly .interfaceBody
      (Rule.maybe (.symbol .modifiers) >> keyword "interface" >> word >>
        Rule.maybe (.symbol .typeParameters) >> Rule.maybe extendsInterfaces >>
        Rule.maybe permits >> .symbol .interfaceBody) :=
  .behind (yields_not_symbol rfl rfl).maybe <|
    .behind yields_not_token <|
    .behind yields_not_token <|
    .behind (yields_not_symbol rfl rfl).maybe <|
    .behind (yields_not_node rfl).maybe <|
    .behind (yields_not_node rfl).maybe (endsInOnly_symbol rfl)

end Grammar

/-- The kind of the node that declares a type. -/
def nodeKind : TypeKind → Kind
  | .class => .classDeclaration
  | .interface => .interfaceDeclaration

/-- Children that end in the only one of a kind are found there alone. -/
theorem getElem?_eq_some_iff_of_endsInOnly {front cs : List Tree} {k : Kind}
    (hfront : ∀ x ∈ front, x.isNode k = false) {j : Nat} {c : Tree} :
    (front ++ [Tree.node k cs])[j]? = some c ∧ c.isNode k = true ↔
      j = front.length ∧ c = .node k cs := by
  constructor
  · rintro ⟨hc, hkind⟩
    rcases Nat.lt_trichotomy j front.length with hlt | rfl | hlt
    · rw [List.getElem?_append_left hlt] at hc
      rw [hfront c (List.mem_of_getElem? hc)] at hkind
      cases hkind
    · rw [List.getElem?_concat_length, Option.some.injEq] at hc
      exact ⟨rfl, hc.symm⟩
    · rw [List.getElem?_eq_none (by rw [List.length_append]; exact hlt)] at hc
      cases hc
  · rintro ⟨rfl, rfl⟩
    exact ⟨List.getElem?_concat_length, by simp [isNode]⟩

/-- A class or an interface of a parsed tree has one body, which is the one that is found. -/
theorem exists_isOnlyBody {t : Tree} (h : t.Every IsShaped) (kind : TypeKind)
    (hkind : t.isNode (nodeKind kind) = true) :
    ∃ i body, IsOnlyBody t i body ∧ t.child? (bodyKind kind) = some body := by
  have assemble {k : Kind} {front bs : List Tree}
      (hbodyOf : ∀ c, isBodyOf (.node k (front ++ [.node (bodyKind kind) bs])) c =
        c.isNode (bodyKind kind))
      (hfront : ∀ x ∈ front, x.isNode (bodyKind kind) = false) :
      ∃ i body, IsOnlyBody (.node k (front ++ [.node (bodyKind kind) bs])) i body ∧
        (Tree.node k (front ++ [.node (bodyKind kind) bs])).child? (bodyKind kind) =
          some body := by
    refine ⟨front.length, .node (bodyKind kind) bs, ?_, ?_⟩
    · intro j c
      rw [hbodyOf]
      exact getElem?_eq_some_iff_of_endsInOnly hfront
    · rw [child?, children, List.find?_append,
        List.find?_eq_none.mpr fun x hx => by simp [hfront x hx]]
      simp [isNode]
  cases kind with
  | «class» =>
      obtain ⟨cs, rfl, hcs⟩ := h.derives_of_ruleOf? hkind rfl
      obtain ⟨front, bs, rfl, hfront⟩ := Grammar.endsInOnly_classDeclaration cs hcs
      exact assemble (fun c => by simp [isBodyOf, isNode, nodeKind, bodyKind]) hfront
  | interface =>
      obtain ⟨cs, rfl, hcs⟩ := h.derives_of_ruleOf? hkind rfl
      obtain ⟨front, bs, rfl, hfront⟩ := Grammar.endsInOnly_interfaceDeclaration cs hcs
      exact assemble (fun c => by simp [isBodyOf, isNode, nodeKind, bodyKind]) hfront

end JavaAtlas.Java
