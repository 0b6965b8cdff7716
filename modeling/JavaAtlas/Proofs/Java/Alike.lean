import Mathlib.Data.List.Forall2
import JavaAtlas.Java.Extraction

/-!
# Trees that are alike

Two trees are alike if they have the same shape and the same bare tokens, so that at most
the filler between their tokens differs.  Two nodes at the same place may have to meet a
condition on top of that.  What declarations are taken from is found at the same places in
both trees.

Main results:

- Theorem `Tree.Alike.map_bare_tokens`: trees that are alike have the same bare tokens.
- Theorem `forall₂_typeDeclarationNodes`: the types of both trees stand at the same places.
- Theorem `Tree.Alike.child?`, theorem `Tree.Alike.firstWord?_eq`,
  theorem `Tree.Alike.wordAfter?_eq`: so do the nodes and words below them.
-/

namespace JavaAtlas.Java

theorem Token.bare_eq_iff {a b : Token} :
    a.bare = b.bare ↔ a.shape = b.shape ∧ a.text = b.text :=
  Prod.ext_iff

namespace Tree

mutual

/-- The trees have the same shape and the same bare tokens, and the condition holds of any
two nodes at the same place, given by their kind and the children of both. -/
def Alike (p : Kind → List Tree → List Tree → Prop) : Tree → Tree → Prop
  | leaf a, leaf b => a.bare = b.bare
  | node k cs, node k' ds => k = k' ∧ p k cs ds ∧ AllAlike p cs ds
  | _, _ => False

/-- Trees in a row are alike, one by one. -/
def AllAlike (p : Kind → List Tree → List Tree → Prop) : List Tree → List Tree → Prop
  | [], [] => True
  | c :: cs, d :: ds => Alike p c d ∧ AllAlike p cs ds
  | _, _ => False

end

variable {p : Kind → List Tree → List Tree → Prop} {t u : Tree} {cs ds : List Tree}

mutual

instance decidableAlike [∀ k cs ds, Decidable (p k cs ds)] :
    ∀ t u : Tree, Decidable (t.Alike p u)
  | leaf a, leaf b => inferInstanceAs (Decidable (a.bare = b.bare))
  | node k cs, node k' ds =>
    have := decidableAllAlike cs ds
    inferInstanceAs (Decidable (k = k' ∧ p k cs ds ∧ AllAlike p cs ds))
  | leaf _, node _ _ => inferInstanceAs (Decidable False)
  | node _ _, leaf _ => inferInstanceAs (Decidable False)

instance decidableAllAlike [∀ k cs ds, Decidable (p k cs ds)] :
    ∀ cs ds : List Tree, Decidable (AllAlike p cs ds)
  | [], [] => inferInstanceAs (Decidable True)
  | c :: cs, d :: ds =>
    have := decidableAlike c d
    have := decidableAllAlike cs ds
    inferInstanceAs (Decidable (Alike p c d ∧ AllAlike p cs ds))
  | [], _ :: _ => inferInstanceAs (Decidable False)
  | _ :: _, [] => inferInstanceAs (Decidable False)

end

/-- Trees with the same shape and the same bare tokens. -/
abbrev SameShape (t u : Tree) : Prop :=
  t.Alike (fun _ _ _ => True) u

theorem allAlike_iff : AllAlike p cs ds ↔ List.Forall₂ (Alike p) cs ds := by
  induction cs generalizing ds with
  | nil => cases ds <;> simp [AllAlike]
  | cons c cs ih => cases ds <;> simp [AllAlike, ih]

/-- Trees that are alike are two leaves or two nodes. -/
theorem Alike.leaf_or_node (h : t.Alike p u) :
    (∃ a b : Token, a.shape = b.shape ∧ a.text = b.text ∧ t = .leaf a ∧ u = .leaf b) ∨
      ∃ k cs ds, p k cs ds ∧ List.Forall₂ (Alike p) cs ds ∧ t = .node k cs ∧
        u = .node k ds := by
  cases t with
  | leaf a =>
      cases u with
      | leaf b =>
          obtain ⟨hshape, htext⟩ := Token.bare_eq_iff.mp (show a.bare = b.bare by
            simpa [Alike] using h)
          exact .inl ⟨a, b, hshape, htext, rfl, rfl⟩
      | node k ds => simp [Alike] at h
  | node k cs =>
      cases u with
      | leaf b => simp [Alike] at h
      | node k' ds =>
          simp only [Alike, allAlike_iff] at h
          obtain ⟨rfl, hp, hall⟩ := h
          exact .inr ⟨k, cs, ds, hp, hall, rfl, rfl⟩

theorem alike_node {k : Kind} (hp : p k cs ds) (h : List.Forall₂ (Alike p) cs ds) :
    Alike p (.node k cs) (.node k ds) := by
  simp only [Alike, allAlike_iff]
  exact ⟨trivial, hp, h⟩

/-! ## Tokens and sizes -/

mutual

/-- Trees that are alike have the same bare tokens. -/
theorem Alike.map_bare_tokens : ∀ {t u : Tree}, t.Alike p u →
    t.tokens.map Token.bare = u.tokens.map Token.bare
  | .leaf a, .leaf b, h => by simpa [Alike, tokens] using h
  | .node k cs, .node k' ds, h => by
      simp only [Alike] at h
      simpa [tokens] using AllAlike.map_bare_tokensOfAll h.2.2
  | .leaf a, .node k ds, h => by simp [Alike] at h
  | .node k cs, .leaf b, h => by simp [Alike] at h

theorem AllAlike.map_bare_tokensOfAll : ∀ {cs ds : List Tree}, AllAlike p cs ds →
    (tokensOfAll cs).map Token.bare = (tokensOfAll ds).map Token.bare
  | [], [], _ => rfl
  | c :: cs, d :: ds, h => by
      simp only [AllAlike] at h
      simp only [tokensOfAll, List.map_append]
      rw [Alike.map_bare_tokens h.1, AllAlike.map_bare_tokensOfAll h.2]
  | [], d :: ds, h => by simp [AllAlike] at h
  | c :: cs, [], h => by simp [AllAlike] at h

end

mutual

theorem Alike.size_eq : ∀ {t u : Tree}, t.Alike p u → t.size = u.size
  | .leaf a, .leaf b, _ => rfl
  | .node k cs, .node k' ds, h => by
      simp only [Alike] at h
      simp only [size, AllAlike.sizeOfAll_eq h.2.2]
  | .leaf a, .node k ds, h => by simp [Alike] at h
  | .node k cs, .leaf b, h => by simp [Alike] at h

theorem AllAlike.sizeOfAll_eq : ∀ {cs ds : List Tree}, AllAlike p cs ds →
    sizeOfAll cs = sizeOfAll ds
  | [], [], _ => rfl
  | c :: cs, d :: ds, h => by
      simp only [AllAlike] at h
      simp only [sizeOfAll, Alike.size_eq h.1, AllAlike.sizeOfAll_eq h.2]
  | [], d :: ds, h => by simp [AllAlike] at h
  | c :: cs, [], h => by simp [AllAlike] at h

end

/-! ## Children -/

theorem Alike.children (h : t.Alike p u) :
    List.Forall₂ (Alike p) t.children u.children := by
  rcases h.leaf_or_node with ⟨a, b, -, -, rfl, rfl⟩ | ⟨k, cs, ds, -, hall, rfl, rfl⟩
  · exact .nil
  · exact hall

theorem Alike.isNode_eq (h : t.Alike p u) (k : Kind) : t.isNode k = u.isNode k := by
  rcases h.leaf_or_node with ⟨a, b, -, -, rfl, rfl⟩ | ⟨k', cs, ds, -, -, rfl, rfl⟩ <;> rfl

theorem Alike.isLeaf_eq (h : t.Alike p u) (text : String) : t.isLeaf text = u.isLeaf text := by
  rcases h.leaf_or_node with ⟨a, b, -, htext, rfl, rfl⟩ | ⟨k', cs, ds, -, -, rfl, rfl⟩
  · rw [isLeaf, isLeaf, htext]
  · rfl

theorem any_eq (h : List.Forall₂ (Alike p) cs ds) {q : Tree → Bool}
    (hq : ∀ c d, c.Alike p d → q c = q d) : cs.any q = ds.any q := by
  induction h with
  | nil => rfl
  | cons hcd _ ih => rw [List.any_cons, List.any_cons, hq _ _ hcd, ih]

theorem findSome?_eq {α : Type} (h : List.Forall₂ (Alike p) cs ds) {f : Tree → Option α}
    (hf : ∀ c d, c.Alike p d → f c = f d) : cs.findSome? f = ds.findSome? f := by
  induction h with
  | nil => rfl
  | cons hcd _ ih => rw [List.findSome?_cons, List.findSome?_cons, hf _ _ hcd, ih]

theorem forall₂_filter_isNode (h : List.Forall₂ (Alike p) cs ds) (k : Kind) :
    List.Forall₂ (Alike p) (cs.filter (isNode k)) (ds.filter (isNode k)) :=
  List.rel_filter (fun _ _ hcd => iff_of_eq (congrArg (· = true) (hcd.isNode_eq k))) h

/-- The first child of a kind is found at the same place. -/
theorem Alike.child? (h : t.Alike p u) (k : Kind) :
    Option.Rel (Alike p) (t.child? k) (u.child? k) := by
  unfold Tree.child?
  have hall := h.children
  generalize t.children = cs, u.children = ds at hall
  induction hall with
  | nil => exact .none
  | cons hcd _ ih =>
      rw [List.find?_cons, List.find?_cons, hcd.isNode_eq k]
      split
      · exact .some hcd
      · exact ih

theorem Alike.exists_child? {k : Kind} {c : Tree} (h : t.Alike p u)
    (hc : t.child? k = some c) : ∃ d, u.child? k = some d ∧ c.Alike p d := by
  have hrel := h.child? k
  rw [hc] at hrel
  cases hd : u.child? k with
  | none =>
      rw [hd] at hrel
      cases hrel
  | some d =>
      rw [hd] at hrel
      cases hrel with
      | some hcd => exact ⟨d, rfl, hcd⟩

theorem Alike.child?_eq_none {k : Kind} (h : t.Alike p u) (hc : t.child? k = none) :
    u.child? k = none := by
  have hrel := h.child? k
  rw [hc] at hrel
  cases hd : u.child? k with
  | none => rfl
  | some d =>
      rw [hd] at hrel
      cases hrel

/-- The condition holds of both nodes. -/
theorem Alike.condition {k : Kind} (h : t.Alike p u) (hk : t.isNode k = true) :
    p k t.children u.children := by
  rcases h.leaf_or_node with ⟨a, b, -, -, rfl, rfl⟩ | ⟨k', cs, ds, hp, -, rfl, rfl⟩
  · cases hk
  · obtain rfl : k' = k := by simpa [isNode] using hk
    exact hp

theorem Alike.isInner_eq (h : t.Alike p u) : t.isInner = u.isInner := by
  rcases h.leaf_or_node with ⟨a, b, -, -, rfl, rfl⟩ | ⟨k, cs, ds, -, -, rfl, rfl⟩ <;> rfl

/-- The brackets behind the first word are found at the same place. -/
theorem Alike.bracketsAfterWord? (h : t.Alike p u) :
    Option.Rel (Alike p) t.bracketsAfterWord? u.bracketsAfterWord? := by
  unfold Tree.bracketsAfterWord?
  have hall := h.children
  generalize t.children = cs, u.children = ds at hall
  induction hall with
  | nil => exact .none
  | @cons c d cs ds hcd hrest ih =>
      rw [List.dropWhile_cons, List.dropWhile_cons, hcd.isInner_eq]
      by_cases hinner : d.isInner = true
      case pos =>
        rw [if_pos hinner, if_pos hinner]
        exact ih
      case neg =>
        rw [if_neg hinner, if_neg hinner]
        cases hrest with
        | nil => exact .none
        | cons hxy _ =>
            simp only [hxy.isNode_eq]
            split
            · exact .some hxy
            · exact .none

theorem Alike.firstWord?_eq (h : t.Alike p u) : t.firstWord? = u.firstWord? := by
  refine findSome?_eq h.children fun c d hcd => ?_
  rcases hcd.leaf_or_node with ⟨a, b, -, htext, rfl, rfl⟩ | ⟨k, cs, ds, -, -, rfl, rfl⟩
  · simp only [htext]
  · rfl

/-- The word after a keyword is the same. -/
theorem Alike.wordAfter?_eq (h : t.Alike p u) (keyword : String) :
    t.wordAfter? keyword = u.wordAfter? keyword := by
  unfold wordAfter?
  have hall := h.children
  generalize t.children = cs, u.children = ds at hall
  induction hall with
  | nil => rfl
  | @cons c d cs ds hcd hrest ih =>
      rw [List.dropWhile_cons, List.dropWhile_cons, hcd.isLeaf_eq keyword]
      by_cases hleaf : (!d.isLeaf keyword) = true
      case pos =>
        rw [if_pos hleaf, if_pos hleaf]
        exact ih
      case neg =>
        rw [if_neg hleaf, if_neg hleaf]
        cases hrest with
        | nil => rfl
        | cons hxy _ =>
            rcases hxy.leaf_or_node with ⟨a, b, -, htext, rfl, rfl⟩ | ⟨k, cs, ds, -, -, rfl, rfl⟩
            · simp only [htext]
            · rfl

end Tree

open JavaAtlas.Java.Tree

/-! ## Types of a tree -/

variable {p : Kind → List Tree → List Tree → Prop} {t u : Tree}

theorem Tree.Alike.isTypeNode_eq (h : t.Alike p u) : isTypeNode t = isTypeNode u := by
  rw [isTypeNode, isTypeNode, h.isNode_eq, h.isNode_eq]

/-- Visiting meets trees that are alike at the same time. -/
theorem forall₂_visit {n : Nat} {stack stack' : List Tree}
    (h : List.Forall₂ (Alike p) stack stack') :
    List.Forall₂ (Alike p) (visit n stack) (visit n stack') := by
  induction n generalizing stack stack' with
  | zero => exact .nil
  | succ n ih =>
      cases h with
      | nil => exact .nil
      | cons hcd hrest =>
          have hlater := ih (List.rel_append hcd.children hrest)
          simp only [visit, hcd.isTypeNode_eq]
          split
          · exact .cons hcd hlater
          · exact hlater

/-- The nodes that declare types stand at the same places. -/
theorem forall₂_typeDeclarationNodes (h : t.Alike p u) :
    List.Forall₂ (Alike p) (typeDeclarationNodes t) (typeDeclarationNodes u) := by
  rw [typeDeclarationNodes, typeDeclarationNodes, h.size_eq]
  exact forall₂_visit h.children

end JavaAtlas.Java
