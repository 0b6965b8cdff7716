import JavaAtlas.Java.Extraction

/-!
# Types in pre-order

The nodes that declare a type are collected by a loop over a stack.  What the loop collects is
described without it: every place of a tree has a way to it from the root, the places are listed
by recursion on the tree, each before the places below it, and the ones at which a type is
declared are kept.

Main definitions:

- `Tree.at?`: what stands at the end of a way.
- `Tree.spots`: the ways of a tree and what stands at their ends, in pre-order.
- `typeSpots`: the ways to the nodes that declare a type.

Main results:

- Theorem `mem_spots`: every way into the tree is listed.
- Theorem `pairwise_spots`: the ways are listed in their order, and each once.
- Theorem `typeDeclarationNodes_eq_map_typeSpots`: the loop collects the types in pre-order.
-/

namespace JavaAtlas.Java

namespace Tree

/-- A way into a tree names a child at every step. -/
abbrev Way := List Nat

/-- What stands at the end of a way. -/
def at? : Tree → Way → Option Tree
  | t, [] => some t
  | t, i :: w => t.children[i]?.bind fun c => c.at? w

mutual

/-- The ways into a tree with what stands at their ends, each way before the longer ones. -/
def spots : Tree → List (Way × Tree)
  | leaf tok => [([], leaf tok)]
  | node k cs => ([], node k cs) :: spotsOfAll 0 cs

/-- The ways into trees in a row, which are numbered from `i` on. -/
def spotsOfAll : Nat → List Tree → List (Way × Tree)
  | _, [] => []
  | i, t :: ts => t.spots.map (fun s => (i :: s.1, s.2)) ++ spotsOfAll (i + 1) ts

end

/-! ## Ways -/

@[simp]
theorem at?_nil (t : Tree) : t.at? [] = some t := by
  cases t <;> rfl

theorem at?_cons (t : Tree) (i : Nat) (w : Way) :
    t.at? (i :: w) = t.children[i]?.bind fun c => c.at? w := by
  cases t <;> rfl

/-- A way of one step leads to a child. -/
theorem at?_singleton (t : Tree) (i : Nat) : t.at? [i] = t.children[i]? := by
  rw [at?_cons]
  cases t.children[i]? with
  | none => rfl
  | some c => exact at?_nil c

/-- A way may be taken in two parts. -/
theorem at?_append (t : Tree) (w v : Way) : t.at? (w ++ v) = (t.at? w).bind fun c => c.at? v := by
  induction w generalizing t with
  | nil => simp
  | cons i w ih =>
      rw [List.cons_append, at?_cons, at?_cons, Option.bind_assoc]
      cases t.children[i]? with
      | none => rfl
      | some c => exact ih c

theorem spots_eq (t : Tree) : t.spots = ([], t) :: spotsOfAll 0 t.children := by
  cases t <;> rfl

/-- The ways into trees in a row are those into each of them. -/
theorem spotsOfAll_eq_flatMap (i : Nat) (ts : List Tree) :
    spotsOfAll i ts =
      (ts.zipIdx i).flatMap fun n => n.1.spots.map fun s => (n.2 :: s.1, s.2) := by
  induction ts generalizing i with
  | nil => rfl
  | cons t ts ih => rw [spotsOfAll, ih, List.zipIdx_cons, List.flatMap_cons]

/-- A way into one of the trees in a row begins with its number. -/
theorem mem_spotsOfAll {ts : List Tree} {w : Way} {t : Tree} :
    (w, t) ∈ spotsOfAll 0 ts ↔
      ∃ i v c, w = i :: v ∧ ts[i]? = some c ∧ (v, t) ∈ c.spots := by
  rw [spotsOfAll_eq_flatMap, List.mem_flatMap]
  constructor
  · rintro ⟨⟨c, i⟩, hc, hmem⟩
    rw [List.mk_mem_zipIdx_iff_getElem?] at hc
    obtain ⟨⟨v, t'⟩, hv, heq⟩ := List.mem_map.mp hmem
    cases heq
    exact ⟨i, v, c, rfl, hc, hv⟩
  · rintro ⟨i, v, c, rfl, hc, hv⟩
    exact ⟨(c, i), List.mk_mem_zipIdx_iff_getElem?.mpr hc, List.mem_map.mpr ⟨(v, t), hv, rfl⟩⟩

/-- Every way into a tree is listed, with what stands at its end. -/
theorem mem_spots {root t : Tree} {w : Way} : (w, t) ∈ root.spots ↔ root.at? w = some t := by
  induction w generalizing root with
  | nil =>
      rw [spots_eq, List.mem_cons, at?_nil, Option.some.injEq]
      constructor
      · rintro (h | h)
        · cases h
          rfl
        · obtain ⟨i, v, c, hnil, -, -⟩ := mem_spotsOfAll.mp h
          cases hnil
      · rintro rfl
        exact .inl rfl
  | cons i w ih =>
      rw [spots_eq, List.mem_cons, mem_spotsOfAll, at?_cons, Option.bind_eq_some_iff]
      constructor
      · rintro (h | ⟨j, v, c, hway, hc, hv⟩)
        · cases h
        · cases hway
          exact ⟨c, hc, ih.mp hv⟩
      · rintro ⟨c, hc, hw⟩
        exact .inr ⟨i, w, c, rfl, hc, ih.mpr hw⟩

/-- Ways in their order: shorter before longer, and from left to right. -/
def Earlier (s s' : Way × Tree) : Prop :=
  s.1 < s'.1

/-- Numbered from left to right, trees in a row have increasing numbers. -/
theorem pairwise_zipIdx (ts : List Tree) : ts.zipIdx.Pairwise fun n n' => n.2 < n'.2 := by
  have hnumbers : (ts.zipIdx.map Prod.snd).Pairwise (· < ·) := by
    rw [List.zipIdx_map_snd]
    exact List.pairwise_lt_range'
  exact List.pairwise_map.mp hnumbers

/-- The ways into a tree are listed in their order, and each of them once. -/
theorem pairwise_spots : ∀ t : Tree, t.spots.Pairwise Earlier
  | leaf tok => List.pairwise_singleton _ _
  | node k cs => by
      rw [spots, List.pairwise_cons]
      constructor
      · rintro ⟨w, t⟩ hmem
        obtain ⟨i, v, c, rfl, -, -⟩ := mem_spotsOfAll.mp hmem
        exact List.nil_lt_cons i v
      · rw [spotsOfAll_eq_flatMap, List.pairwise_flatMap]
        constructor
        · rintro ⟨c, i⟩ hc
          have hmem : c ∈ cs := (List.mem_zipIdx hc).2.2 ▸ List.getElem_mem _
          refine List.pairwise_map.mpr ((pairwise_spots c).imp fun h => ?_)
          exact List.cons_lt_cons_iff.mpr (.inr ⟨rfl, h⟩)
        · refine (pairwise_zipIdx cs).imp fun hlt => ?_
          intro s hs s' hs'
          obtain ⟨u, -, rfl⟩ := List.mem_map.mp hs
          obtain ⟨u', -, rfl⟩ := List.mem_map.mp hs'
          exact List.cons_lt_cons_iff.mpr (.inl hlt)

/-! ## Subtrees -/

/-- A tree and all that is below it, in pre-order. -/
def subtrees (t : Tree) : List Tree :=
  t.spots.map Prod.snd

theorem map_snd_spotsOfAll (i : Nat) (ts : List Tree) :
    (spotsOfAll i ts).map Prod.snd = ts.flatMap subtrees := by
  induction ts generalizing i with
  | nil => rfl
  | cons t ts ih =>
      rw [spotsOfAll, List.map_append, ih, List.map_map, List.flatMap_cons, subtrees]
      rfl

/-- A tree stands before all that is below it. -/
theorem subtrees_eq (t : Tree) : t.subtrees = t :: t.children.flatMap subtrees := by
  rw [subtrees, spots_eq, List.map_cons, map_snd_spotsOfAll]

theorem sizeOfAll_append (ts us : List Tree) :
    sizeOfAll (ts ++ us) = sizeOfAll ts + sizeOfAll us := by
  induction ts with
  | nil => simp [sizeOfAll]
  | cons t ts ih => rw [List.cons_append, sizeOfAll, ih, sizeOfAll, Nat.add_assoc]

theorem size_eq (t : Tree) : t.size = 1 + sizeOfAll t.children := by
  cases t <;> rfl

end Tree

open JavaAtlas.Java.Tree

/-! ## The loop -/

/-- With a visit for every node of its stack, the loop collects the types below the stack in
pre-order. -/
theorem visit_eq_filter {n : Nat} {stack : List Tree} (h : sizeOfAll stack ≤ n) :
    visit n stack = (stack.flatMap subtrees).filter isTypeNode := by
  induction n generalizing stack with
  | zero =>
      cases stack with
      | nil => rfl
      | cons t stack => rw [sizeOfAll, size_eq] at h; omega
  | succ n ih =>
      cases stack with
      | nil => rfl
      | cons t stack =>
          have hsize : sizeOfAll (t.children ++ stack) ≤ n := by
            rw [sizeOfAll, size_eq] at h
            rw [sizeOfAll_append]
            omega
          rw [visit, ih hsize, List.flatMap_append, List.flatMap_cons, subtrees_eq,
            List.cons_append, List.filter_cons]

/-- The ways to the nodes below a root that declare a type, in pre-order. -/
def typeSpots (root : Tree) : List (Way × Tree) :=
  (spotsOfAll 0 root.children).filter fun s => isTypeNode s.2

/-- The loop collects the types of a tree in pre-order. -/
theorem typeDeclarationNodes_eq_map_typeSpots (root : Tree) :
    typeDeclarationNodes root = (typeSpots root).map Prod.snd := by
  have hsize : sizeOfAll root.children ≤ root.size := by
    rw [size_eq]
    omega
  rw [typeDeclarationNodes, visit_eq_filter hsize, ← map_snd_spotsOfAll 0, List.filter_map]
  rfl

/-- The ways that are kept lead to types, below the root. -/
theorem mem_typeSpots {root t : Tree} {w : Way} :
    (w, t) ∈ typeSpots root ↔ w ≠ [] ∧ root.at? w = some t ∧ isTypeNode t = true := by
  rw [typeSpots, List.mem_filter, mem_spotsOfAll]
  constructor
  · rintro ⟨⟨i, v, c, rfl, hc, hv⟩, ht⟩
    refine ⟨List.cons_ne_nil i v, ?_, ht⟩
    rw [at?_cons, hc]
    exact mem_spots.mp hv
  · rintro ⟨hne, hw, ht⟩
    cases w with
    | nil => exact absurd rfl hne
    | cons i v =>
        rw [at?_cons, Option.bind_eq_some_iff] at hw
        obtain ⟨c, hc, hv⟩ := hw
        exact ⟨⟨i, v, c, rfl, hc, mem_spots.mpr hv⟩, ht⟩

theorem pairwise_typeSpots (root : Tree) : (typeSpots root).Pairwise Earlier := by
  have hspots := pairwise_spots root
  rw [spots_eq, List.pairwise_cons] at hspots
  exact hspots.2.filter _

end JavaAtlas.Java
