import JavaAtlas.Proofs.Deflate.Tallies

/-!
# Symbols are joined into a tree

A heap gives the two nodes that are joined next.  Which ones these are does not matter
here: however nodes are joined, each gets a node above it that comes before it, and at
their depths the symbols take no more room than there is, up to what the limit of the
depth costs.

Main definitions:

- `Heap.nodes`: the nodes in a heap.
- `Joins`: nodes are joined under a root, and others are taken away on the way.

Main results:

- Theorem `Heap.nodes_settle`, theorem `Heap.nodes_order`: bringing a heap into order keeps
  its nodes.
- Theorem `joins_joinAll`: joining goes on until all nodes of the heap are below one.
- Theorem `getD_depths`: the depth of each node follows from that of the node above it.
- Theorem `Joins.balance`: the room that nodes take at their depths.
-/

namespace JavaAtlas.Deflate

/-! ## Heaps -/

/-- Where a node gives way to the one from another place and is put there itself, the same
nodes are left as without the exchange. -/
theorem set_set_perm {xs : List Nat} {i j v : Nat} (hi : i < xs.length) (hj : j < xs.length)
    (hne : i ≠ j) : ((xs.set i xs[j]).set j v).Perm (xs.set i v) := by
  have hexchange := List.set_set_perm (show i < (xs.set i v).length by simpa using hi)
    (show j < (xs.set i v).length by simpa using hj)
  simpa [List.getElem_set_ne hne] using hexchange

namespace Heap

/-- The nodes in a heap. -/
def nodes (h : Heap) : List Nat :=
  h.toList.tail

variable {f : Forest} {h : Heap} {k : Nat}

@[simp]
theorem length_nodes (h : Heap) : h.nodes.length = h.last := by
  simp [nodes, last]

@[simp]
theorem last_setIfInBounds (v : Nat) : last (h.setIfInBounds k v) = h.last := by
  simp [last]

theorem nodes_setIfInBounds (v : Nat) :
    nodes (h.setIfInBounds (k + 1) v) = h.nodes.set k v := by
  obtain ⟨xs⟩ := h
  cases xs <;> simp [nodes]

theorem at_succ (hk : k < h.nodes.length) : h.at' (k + 1) = h.nodes[k] := by
  have hsize : k + 1 < h.size := by
    rw [length_nodes, last] at hk
    omega
  simp [at', nodes, hsize]

/-- The first node of a heap that has one. -/
theorem nodes_eq_cons (hpos : 0 < h.last) : h.nodes = h.at' 1 :: h.nodes.tail := by
  obtain ⟨_ | ⟨x, _ | ⟨y, ys⟩⟩⟩ := h
  · simp [last] at hpos
  · simp [last] at hpos
  · simp [nodes, at']

@[simp]
theorem last_sink (node fuel k : Nat) (h : Heap) : (sink f node fuel k h).last = h.last := by
  induction fuel generalizing k h with
  | zero => simp [sink]
  | succ fuel ih =>
      unfold sink
      dsimp only
      split
      case isTrue =>
        generalize (if (2 * k < h.last && f.precedes (h.at' (2 * k + 1)) (h.at' (2 * k))) = true
          then 2 * k + 1 else 2 * k) = child
        split
        case isTrue => simp
        case isFalse => rw [ih, last_setIfInBounds]
      case isFalse => simp

/-- A node that moves down takes the place of one of the others; by induction on the steps. -/
theorem nodes_sink (node fuel : Nat) (hk : k < h.last) :
    (sink f node fuel (k + 1) h).nodes.Perm (h.nodes.set k node) := by
  have hput : (nodes (h.setIfInBounds (k + 1) node)).Perm (h.nodes.set k node) := by
    rw [nodes_setIfInBounds]
  induction fuel generalizing k h with
  | zero => exact hput
  | succ fuel ih =>
      unfold sink
      dsimp only
      split
      case isFalse => exact hput
      case isTrue hleft =>
        generalize hchild : (if (2 * (k + 1) < h.last && f.precedes (h.at' (2 * (k + 1) + 1))
          (h.at' (2 * (k + 1)))) = true then 2 * (k + 1) + 1 else 2 * (k + 1)) = child
        have hplace : k + 1 < child ∧ child ≤ h.last := by
          subst hchild
          split
          case isTrue hless =>
            rw [Bool.and_eq_true, decide_eq_true_eq] at hless
            omega
          case isFalse => omega
        split
        case isTrue => exact hput
        case isFalse =>
          obtain ⟨c, rfl⟩ : ∃ c, child = c + 1 := ⟨child - 1, by omega⟩
          have hc : c < h.nodes.length := by
            rw [length_nodes]
            omega
          have hmoved : c < last (h.setIfInBounds (k + 1) (h.at' (c + 1))) := by
            rwa [last_setIfInBounds, ← length_nodes]
          have hbelow := ih hmoved (by rw [nodes_setIfInBounds])
          rw [nodes_setIfInBounds, at_succ hc] at hbelow
          rw [at_succ hc]
          exact hbelow.trans (set_set_perm (by simpa using hk) hc (by omega))

@[simp]
theorem last_settle (k : Nat) (h : Heap) : (settle f k h).last = h.last :=
  last_sink _ _ _ _

theorem nodes_settle (hk : k < h.last) : (settle f (k + 1) h).nodes.Perm h.nodes := by
  have hsame : h.nodes.set k (h.at' (k + 1)) = h.nodes := by
    rw [at_succ (by rwa [length_nodes]), List.set_getElem_self]
  have hsink := nodes_sink (f := f) (h.at' (k + 1)) h.size hk
  rwa [hsame] at hsink

/-- Bringing a heap into order keeps its nodes. -/
theorem nodes_order (hk : k ≤ h.last) :
    (order f k h).nodes.Perm h.nodes ∧ (order f k h).last = h.last := by
  induction k generalizing h with
  | zero => exact ⟨.refl _, rfl⟩
  | succ k ih =>
      obtain ⟨hnodes, hlast⟩ := ih (h := settle f (k + 1) h) (by rw [last_settle]; omega)
      exact ⟨hnodes.trans (nodes_settle hk), hlast.trans (last_settle _ _)⟩

/-- Without its first node a heap has the others. -/
theorem nodes_takeFirst (hlast : 2 ≤ h.last) :
    (h.takeFirst f).2.nodes.Perm h.nodes.tail ∧ (h.takeFirst f).2.last = h.last - 1 := by
  have hcons := nodes_eq_cons (h := h) (by omega)
  have hne : h.nodes.tail ≠ [] := by
    rw [← List.length_pos_iff, List.length_tail, length_nodes]
    omega
  have hat : h.at' h.last = h.nodes.tail.getLast hne := by
    obtain ⟨k, hk⟩ : ∃ k, h.last = k + 1 := ⟨h.last - 1, by omega⟩
    rw [hk, at_succ (by rw [length_nodes]; omega), List.getLast_tail, List.getLast_eq_getElem]
    simp [hk]
  have hpop : nodes ((h.setIfInBounds 1 (h.at' h.last)).pop) =
      h.at' h.last :: h.nodes.tail.dropLast := by
    have hset := nodes_setIfInBounds (h := h) (k := 0) (h.at' h.last)
    rw [hcons, List.set_cons_zero] at hset
    rw [← List.dropLast_cons_of_ne_nil hne, ← hset, nodes, nodes, Array.toList_pop,
      List.tail_dropLast]
  have hmoved : (nodes ((h.setIfInBounds 1 (h.at' h.last)).pop)).Perm h.nodes.tail := by
    rw [hpop, hat]
    refine (List.perm_append_singleton _ _).symm.trans ?_
    rw [List.dropLast_append_getLast]
  have hless : last ((h.setIfInBounds 1 (h.at' h.last)).pop) = h.last - 1 := by
    simp [last]
  exact ⟨(nodes_settle (by omega)).trans hmoved, (last_settle _ _).trans hless⟩

/-- Two nodes are taken from a heap, and a new one is put into it. -/
theorem exists_nodes_join (f : Forest) (hlast : 2 ≤ h.last) :
    ∃ rest, h.nodes.Perm (h.at' 1 :: (h.takeFirst f).2.at' 1 :: rest) ∧
      ∀ (f' : Forest) (node : Nat),
        (settle f' 1 ((h.takeFirst f).2.setIfInBounds 1 node)).nodes.Perm (node :: rest) ∧
          (settle f' 1 ((h.takeFirst f).2.setIfInBounds 1 node)).last = h.last - 1 := by
  obtain ⟨hnodes, hless⟩ := nodes_takeFirst (f := f) hlast
  have hcons := nodes_eq_cons (h := (h.takeFirst f).2) (by omega)
  refine ⟨(h.takeFirst f).2.nodes.tail, ?_, fun f' node => ⟨?_, ?_⟩⟩
  · rw [nodes_eq_cons (h := h) (by omega), ← hcons]
    exact hnodes.symm.cons _
  · have hset := nodes_setIfInBounds (h := (h.takeFirst f).2) (k := 0) node
    rw [hcons, List.set_cons_zero] at hset
    rw [← hset]
    exact nodes_settle (by rw [last_setIfInBounds]; omega)
  · rw [last_settle, last_setIfInBounds, hless]

end Heap

/-! ## Joining -/

/-- The node above a node. -/
def Forest.above (f : Forest) (n : Nat) : Nat :=
  f.parent.getD n 0

/-- Two nodes that are joined get the new one above them, and the others keep theirs. -/
theorem Forest.above_join {f : Forest} (hsizes : f.parent.size = f.count.size) {a b n : Nat}
    (hn : n < f.count.size) :
    (f.join a b).1.above n = if n = a ∨ n = b then f.count.size else f.above n := by
  have hpush : (f.parent.push 0).getD n 0 = f.parent.getD n 0 := by
    rw [Array.getD_eq_getD_getElem?, Array.getElem?_push, if_neg (by omega),
      ← Array.getD_eq_getD_getElem?]
  simp only [Forest.join, Forest.above]
  rw [getD_setIfInBounds _ (by simp; omega), getD_setIfInBounds _ (by simp; omega), hpush]
  by_cases hb : b = n
  case pos => simp [hb]
  case neg =>
    by_cases ha : a = n
    case pos => simp [ha]
    case neg => simp [ha, hb, Ne.symm ha, Ne.symm hb]

/-- The live nodes are joined under a root.  Nodes are taken away on the way, the latest
first; each has the node above it that was made when it was taken, and what is made is
numbered behind all there are. -/
inductive Joins (above : Nat → Nat) (size : Nat) : List Nat → List Nat → Nat → Prop
  | root (r : Nat) : Joins above size [r] [] r
  | join {live rest taken : List Nat} {a b node r : Nat}
      (hlive : live.Perm (a :: b :: rest)) (ha : above a = node) (hb : above b = node)
      (hsize : size ≤ node) (hfresh : ∀ n ∈ live, n < node)
      (h : Joins above size (node :: rest) taken r) :
      Joins above size live (taken ++ [b, a]) r

/-- The nodes of a heap are nodes of a forest, which holds the symbols. -/
structure Heap.Fits (h : Heap) (f : Forest) (size : Nat) : Prop where
  sizes : f.parent.size = f.count.size
  room : size ≤ f.count.size
  bound : ∀ n ∈ h.nodes, n < f.count.size
  nodup : h.nodes.Nodup

/-- What one join of two nodes leaves fits again. -/
theorem Heap.Fits.join {h h' : Heap} {f : Forest} {size a b : Nat} {rest : List Nat}
    (hfits : h.Fits f size) (hnodes : h.nodes.Perm (a :: b :: rest))
    (hnodes' : h'.nodes.Perm (f.count.size :: rest)) : h'.Fits (f.join a b).1 size := by
  have hrest : ∀ n ∈ rest, n ∈ h.nodes := fun n hn =>
    hnodes.mem_iff.mpr (List.mem_cons_of_mem _ (List.mem_cons_of_mem _ hn))
  have hcount : (f.join a b).1.count.size = f.count.size + 1 := by simp [Forest.join]
  refine ⟨?_, ?_, fun n hn => ?_, ?_⟩
  · simp [Forest.join, hfits.sizes]
  · have hroom := hfits.room
    omega
  · rcases List.mem_cons.mp (hnodes'.mem_iff.mp hn) with rfl | hn
    · omega
    · have hbound := hfits.bound n (hrest n hn)
      omega
  · have hnodup := (hnodes.nodup_iff.mp hfits.nodup).of_cons.of_cons
    refine hnodes'.nodup_iff.mpr (List.nodup_cons.mpr ⟨fun hn => ?_, hnodup⟩)
    exact Nat.lt_irrefl _ (hfits.bound _ (hrest _ hn))

theorem Joins.perm {above : Nat → Nat} {size r : Nat} {live live' taken : List Nat}
    (h : Joins above size live taken r) (hperm : live.Perm live') :
    Joins above size live' taken r := by
  cases h with
  | root =>
      rw [List.perm_singleton.mp hperm.symm]
      exact .root r
  | join hlive ha hb hsize hfresh h =>
      exact .join (hperm.symm.trans hlive) ha hb hsize
        (fun n hn => hfresh n (hperm.mem_iff.mpr hn)) h

theorem Heap.Fits.joins_of_single {h : Heap} {f : Forest} {size : Nat} (hfits : h.Fits f size)
    (hpos : 0 < h.last) (hle : h.last ≤ 1) :
    Joins f.above size h.nodes [] (h.at' 1) ∧ ∀ n ∈ [h.at' 1], n < f.count.size := by
  have hsingle : h.nodes = [h.at' 1] := by
    have hnil : h.nodes.tail = [] := by
      rw [← List.length_eq_zero_iff, List.length_tail, Heap.length_nodes]
      omega
    rw [Heap.nodes_eq_cons hpos, hnil]
  have hbound := hfits.bound
  rw [hsingle] at hbound ⊢
  exact ⟨.root _, hbound⟩

/-- Two nodes that were joined are taken, after all that is taken from what was left. -/
theorem Heap.Fits.joins_of_join {h h' : Heap} {f f' : Forest} {size a b r : Nat}
    {rest taken : List Nat} (hfits : h.Fits f size) (hnodes : h.nodes.Perm (a :: b :: rest))
    (hnodes' : h'.nodes.Perm (f.count.size :: rest)) (hjoins : Joins f'.above size h'.nodes taken r)
    (hframe : ∀ n < f.count.size, n ∉ h'.nodes → f'.above n = (f.join a b).1.above n) :
    Joins f'.above size h.nodes (taken ++ [b, a]) r ∧
      ∀ n < f.count.size, n ∉ h.nodes → f'.above n = f.above n := by
  have hmem : ∀ n, n ∈ h.nodes ↔ n = a ∨ n = b ∨ n ∈ rest := fun n => by
    rw [hnodes.mem_iff, List.mem_cons, List.mem_cons]
  obtain ⟨hab, hnodup⟩ := List.nodup_cons.mp (hnodes.nodup_iff.mp hfits.nodup)
  obtain ⟨hbrest, -⟩ := List.nodup_cons.mp hnodup
  rw [List.mem_cons, not_or] at hab
  have ha := hfits.bound a ((hmem a).mpr (.inl rfl))
  have hb := hfits.bound b ((hmem b).mpr (.inr (.inl rfl)))
  -- what stands above a node stays, once the node is taken
  have habove : ∀ n < f.count.size, n ∉ rest →
      f'.above n = if n = a ∨ n = b then f.count.size else f.above n := by
    intro n hn hrest
    rw [hframe n hn fun hmem => ?_, Forest.above_join hfits.sizes hn]
    rcases List.mem_cons.mp (hnodes'.mem_iff.mp hmem) with rfl | hmem
    · exact Nat.lt_irrefl _ hn
    · exact hrest hmem
  refine ⟨.join hnodes ?_ ?_ hfits.room hfits.bound (hjoins.perm hnodes'), fun n hn hnone => ?_⟩
  · rw [habove a ha hab.2, if_pos (.inl rfl)]
  · rw [habove b hb hbrest, if_pos (.inr rfl)]
  · rw [hmem, not_or, not_or] at hnone
    rw [habove n hn hnone.2.2, if_neg (not_or.mpr ⟨hnone.1, hnone.2.1⟩)]

/-- Joining goes on until all nodes of the heap are below one; by induction on the steps. -/
theorem joins_joinAll {size : Nat} {f : Forest} {h : Heap} (fuel : Nat) (removed : List Nat)
    (hfits : h.Fits f size) (hpos : 0 < h.last) (hfuel : h.last ≤ fuel + 1) :
    ∃ f' r taken, joinAll fuel f h removed = (f', r :: (taken ++ removed)) ∧
      Joins f'.above size h.nodes taken r ∧
      (∀ n < f.count.size, n ∉ h.nodes → f'.above n = f.above n) ∧
      f.count.size ≤ f'.count.size ∧ ∀ n ∈ r :: taken, n < f'.count.size := by
  induction fuel generalizing f h removed with
  | zero =>
      obtain ⟨hjoins, hbound⟩ := hfits.joins_of_single hpos hfuel
      exact ⟨f, h.at' 1, [], rfl, hjoins, fun _ _ _ => rfl, Nat.le_refl _, hbound⟩
  | succ fuel ih =>
      unfold joinAll
      split
      case isTrue hless =>
        obtain ⟨hjoins, hbound⟩ := hfits.joins_of_single hpos (by omega)
        exact ⟨f, h.at' 1, [], rfl, hjoins, fun _ _ _ => rfl, Nat.le_refl _, hbound⟩
      case isFalse hless =>
        obtain ⟨rest, hnodes, hnext⟩ := Heap.exists_nodes_join f (h := h) (by omega)
        change ∃ f' r taken, joinAll fuel
          (f.join (h.at' 1) ((h.takeFirst f).2.at' 1)).1
          (Heap.settle (f.join (h.at' 1) ((h.takeFirst f).2.at' 1)).1 1
            ((h.takeFirst f).2.setIfInBounds 1 f.count.size))
          ((h.takeFirst f).2.at' 1 :: h.at' 1 :: removed) = _ ∧ _
        generalize h.at' 1 = a, (h.takeFirst f).2.at' 1 = b at hnodes ⊢
        obtain ⟨hnodes', hlast'⟩ := hnext (f.join a b).1 f.count.size
        have hjoined := hfits.join hnodes hnodes'
        obtain ⟨f', r, taken, heq, hjoins, hframe, hcount, hbound⟩ :=
          ih (b :: a :: removed) hjoined (by omega) (by omega)
        have hcount₁ : (f.join a b).1.count.size = f.count.size + 1 := by simp [Forest.join]
        obtain ⟨hall, hsame⟩ := hfits.joins_of_join hnodes hnodes' hjoins
          fun n hn => hframe n (by omega)
        refine ⟨f', r, taken ++ [b, a], by simpa using heq, hall, hsame, by omega, ?_⟩
        rw [← List.cons_append]
        have hpair : ∀ n ∈ [b, a], n ∈ a :: b :: rest := by simp
        refine List.forall_mem_append.mpr ⟨hbound, fun n hn => ?_⟩
        have hless := hfits.bound n (hnodes.mem_iff.mpr (hpair n hn))
        omega

/-! ## Where the nodes are -/

namespace Joins

variable {above : Nat → Nat} {size r : Nat} {live taken : List Nat}

theorem subset (h : Joins above size live taken r) : ∀ n ∈ live, n ∈ r :: taken := by
  induction h with
  | root r => exact fun _ hn => hn
  | @join live rest taken a b node r hlive _ _ _ _ _ ih =>
      intro n hn
      rw [hlive.mem_iff, List.mem_cons, List.mem_cons] at hn
      rw [← List.cons_append, List.mem_append]
      rcases hn with rfl | rfl | hn
      · simp
      · simp
      · exact .inl (ih n (List.mem_cons_of_mem _ hn))

/-- What is not live at first is made later. -/
theorem mem_or_lt (h : Joins above size live taken r) :
    ∀ m ∈ r :: taken, m ∈ live ∨ ∀ n ∈ live, n < m := by
  induction h with
  | root r => exact fun _ hm => .inl hm
  | @join live rest taken a b node r hlive _ _ _ hfresh _ ih =>
      intro m hm
      rw [← List.cons_append, List.mem_append] at hm
      rcases hm with hm | hm
      · rcases ih m hm with hmem | hbehind
        · rcases List.mem_cons.mp hmem with rfl | hmem
          · exact .inr hfresh
          · exact .inl (hlive.mem_iff.mpr (List.mem_cons_of_mem _ (List.mem_cons_of_mem _ hmem)))
        · exact .inr fun n hn =>
            Nat.lt_trans (hfresh n hn) (hbehind node List.mem_cons_self)
      · simp only [List.mem_cons, List.not_mem_nil, or_false] at hm
        refine .inl (hlive.mem_iff.mpr ?_)
        rcases hm with rfl | rfl <;> simp

theorem nodup_made {rest : List Nat} {a b node : Nat} (hlive : live.Perm (a :: b :: rest))
    (hfresh : ∀ n ∈ live, n < node) (hnodup : live.Nodup) : (node :: rest).Nodup := by
  refine List.nodup_cons.mpr ⟨fun hn => ?_, (hlive.nodup_iff.mp hnodup).of_cons.of_cons⟩
  exact Nat.lt_irrefl _
    (hfresh node (hlive.mem_iff.mpr (List.mem_cons_of_mem _ (List.mem_cons_of_mem _ hn))))

/-- No node is taken twice. -/
theorem nodup (h : Joins above size live taken r) (hnodup : live.Nodup) : (r :: taken).Nodup := by
  induction h with
  | root r => exact hnodup
  | @join live rest taken a b node r hlive _ _ _ hfresh h ih =>
      obtain ⟨hab, hrest⟩ := List.nodup_cons.mp (hlive.nodup_iff.mp hnodup)
      obtain ⟨hb, hrest⟩ := List.nodup_cons.mp hrest
      rw [List.mem_cons, not_or] at hab
      have hnext := ih (nodup_made hlive hfresh hnodup)
      -- the two nodes are neither live afterwards nor made later
      have hgone : ∀ n ∈ live, n ∉ rest → n ∉ r :: taken := by
        intro n hn hnone hlater
        have hless := hfresh n hn
        rcases h.mem_or_lt n hlater with hmem | hbehind
        · rcases List.mem_cons.mp hmem with rfl | hmem
          · exact Nat.lt_irrefl _ hless
          · exact hnone hmem
        · exact Nat.lt_asymm hless (hbehind node List.mem_cons_self)
      have ha := hgone a (hlive.mem_iff.mpr List.mem_cons_self) hab.2
      have hb := hgone b (hlive.mem_iff.mpr (by simp)) hb
      rw [← List.cons_append, List.nodup_append]
      refine ⟨hnext, by simp [Ne.symm hab.1], fun m hm n hn => ?_⟩
      rintro rfl
      simp only [List.mem_cons, List.not_mem_nil, or_false] at hn
      rcases hn with rfl | rfl
      · exact hb hm
      · exact ha hm

/-- The node above each node comes before it. -/
theorem above_mem (h : Joins above size live taken r) : ∀ n ∈ taken, above n ∈ r :: taken := by
  induction h with
  | root r => nofun
  | @join live rest taken a b node r _ ha hb _ _ h ih =>
      intro n hn
      rw [← List.cons_append, List.mem_append]
      rw [List.mem_append] at hn
      refine .inl ?_
      rcases hn with hn | hn
      · exact ih n hn
      · have hnode := h.subset node List.mem_cons_self
        simp only [List.mem_cons, List.not_mem_nil, or_false] at hn
        rcases hn with rfl | rfl
        · rwa [hb]
        · rwa [ha]

theorem pairwise_above_ne (h : Joins above size live taken r) (hnodup : live.Nodup) :
    (∀ n ∈ taken, above n ≠ n) ∧ taken.Pairwise fun m n => above m ≠ n := by
  have hall := h.nodup hnodup
  induction h with
  | root r => exact ⟨nofun, .nil⟩
  | @join live rest taken a b node r hlive ha hb _ hfresh h ih =>
      rw [← List.cons_append, List.nodup_append] at hall
      obtain ⟨hnext, -, hdisjoint⟩ := hall
      obtain ⟨hself, htaken⟩ := ih (nodup_made hlive hfresh hnodup) hnext
      have ha' := hfresh a (hlive.mem_iff.mpr List.mem_cons_self)
      have hb' := hfresh b (hlive.mem_iff.mpr (by simp))
      refine ⟨fun n hn => ?_, List.pairwise_append.mpr ⟨htaken, ?_, fun m hm n hn => ?_⟩⟩
      · rcases List.mem_append.mp hn with hn | hn
        · exact hself n hn
        · simp only [List.mem_cons, List.not_mem_nil, or_false] at hn
          rcases hn with rfl | rfl <;> omega
      · simp only [List.pairwise_cons, List.mem_singleton, forall_eq, List.not_mem_nil,
          false_implies, implies_true, List.Pairwise.nil, and_true]
        omega
      · exact hdisjoint _ (h.above_mem m hm) n hn

/-- Symbols are not made, so those that are taken were live at first. -/
theorem filter_perm (h : Joins above size live taken r) :
    ((r :: taken).filter (· < size)).Perm (live.filter (· < size)) := by
  induction h with
  | root r => exact .refl _
  | @join live rest taken a b node r hlive _ _ hsize _ _ ih =>
      have hmade : (node :: rest).filter (· < size) = rest.filter (· < size) :=
        List.filter_cons_of_neg (by simpa using hsize)
      rw [hmade] at ih
      rw [← List.cons_append, List.filter_append]
      refine (ih.append_right _).trans ?_
      rw [← List.filter_append]
      refine .filter _ (.trans ?_ hlive.symm)
      refine List.perm_append_comm.trans ?_
      exact .swap _ _ _

/-- Where there is something to join, the root is made. -/
theorem size_le_root (h : Joins above size live taken r) (hlive : 2 ≤ live.length) : size ≤ r := by
  have hmade : ∀ {live taken : List Nat} {r : Nat}, Joins above size live taken r →
      live = [r] ∨ size ≤ r := by
    intro live taken r h
    induction h with
    | root r => exact .inl rfl
    | join _ _ _ hsize _ _ ih =>
        rcases ih with hsingle | hle
        · exact .inr ((List.cons.inj hsingle).1 ▸ hsize)
        · exact .inr hle
  rcases hmade h with rfl | hle
  · simp at hlive
  · exact hle

end Joins

/-! ## Depths -/

/-- Nodes that are not visited keep their depth. -/
theorem getD_depths_of_notMem {f : Forest} {limit : Nat} {ns : List Nat} {ds : Array Nat}
    {m : Nat} (hm : m ∉ ns) : (depths f limit ns ds).getD m 0 = ds.getD m 0 := by
  induction ns generalizing ds with
  | nil => rfl
  | cons n ns ih =>
      rw [List.mem_cons, not_or] at hm
      rw [depths, ih hm.2, getD_setIfInBounds_of_ne _ (Ne.symm hm.1)]

/-- The depth of a node follows from that of the node above it, where that comes before it. -/
theorem getD_depths {f : Forest} (limit : Nat) {ns : List Nat} {ds : Array Nat}
    (hbound : ∀ n ∈ ns, n < ds.size) (hnodup : ns.Nodup) (hself : ∀ n ∈ ns, f.above n ≠ n)
    (hfirst : ns.Pairwise fun m n => f.above m ≠ n) :
    ∀ n ∈ ns, (depths f limit ns ds).getD n 0 =
      min limit ((depths f limit ns ds).getD (f.above n) 0 + 1) := by
  induction ns generalizing ds with
  | nil => nofun
  | cons m ns ih =>
      obtain ⟨hm, hbound⟩ := List.forall_mem_cons.mp hbound
      obtain ⟨hnone, hnodup⟩ := List.nodup_cons.mp hnodup
      obtain ⟨hother, hself⟩ := List.forall_mem_cons.mp hself
      obtain ⟨habove, hfirst⟩ := List.pairwise_cons.mp hfirst
      intro n hn
      rw [depths]
      rcases List.mem_cons.mp hn with rfl | hn
      · have hlater : f.above n ∉ ns := fun h => habove _ h rfl
        rw [getD_depths_of_notMem hnone, getD_depths_of_notMem hlater, getD_setIfInBounds _ hm,
          if_pos rfl, getD_setIfInBounds_of_ne _ (Ne.symm hother), Forest.above]
      · exact ih (by simpa using hbound) hnodup hself hfirst n hn

/-! ## Room -/

/-- At their depths the live nodes take all the room there is, and more by one for each two
nodes that the limit keeps from going deeper; and so many of them are at the limit. -/
theorem Joins.balance {above : Nat → Nat} {size r : Nat} {live taken : List Nat}
    (h : Joins above size live taken r) (limit : Nat) (depth : Nat → Nat) (hroot : depth r = 0)
    (hdepth : ∀ n ∈ taken, depth n = min limit (depth (above n) + 1)) :
    ∃ excess, (live.map fun n => 2 ^ (limit - depth n)).sum = 2 ^ limit + excess ∧
      (taken.filter fun n => limit ≤ depth (above n)).length = 2 * excess ∧
      excess ≤ live.countP (depth · == limit) := by
  induction h with
  | root r => exact ⟨0, by simp [hroot], rfl, Nat.zero_le _⟩
  | @join live rest taken a b node r hlive ha hb _ _ _ ih =>
      obtain ⟨excess, hsum, hkept, hmany⟩ := ih hroot fun n hn =>
        hdepth n (List.mem_append_left _ hn)
      have hda : depth a = min limit (depth node + 1) := ha ▸ hdepth a (by simp)
      have hdb : depth b = min limit (depth node + 1) := hb ▸ hdepth b (by simp)
      rw [(hlive.map _).sum_eq, hlive.countP_eq, List.filter_append, List.length_append, hkept]
      simp only [List.map_cons, List.sum_cons, List.countP_cons, List.filter_cons, List.filter_nil,
        ha, hb, hda, hdb] at hsum hmany ⊢
      by_cases hdeep : limit ≤ depth node
      case pos =>
        -- both are kept at the depth of the limit, like the node above them
        refine ⟨excess + 1, ?_, ?_, ?_⟩
        · rw [Nat.min_eq_left (by omega), Nat.sub_self]
          rw [Nat.sub_eq_zero_of_le hdeep] at hsum
          omega
        · simp [hdeep]
          omega
        · rw [Nat.min_eq_left (by omega)]
          split at hmany <;> simp <;> omega
      case neg =>
        refine ⟨excess, ?_, ?_, ?_⟩
        · have hdouble : limit - depth node = limit - (depth node + 1) + 1 := by omega
          rw [Nat.min_eq_right (by omega)]
          rw [hdouble, Nat.pow_succ] at hsum
          omega
        · simp [hdeep]
        · have hnode : ¬ (depth node == limit) = true := by
            rw [beq_iff_eq]
            omega
          rw [if_neg hnode] at hmany
          omega

end JavaAtlas.Deflate
