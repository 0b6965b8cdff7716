import JavaAtlas.Yaml.Value

/-!
# Problems of documents

A text has no value for one of three reasons: it breaks the rules of the format, it has a
code or a number that cannot be read at all, or one of its scalars is not written as the
tag asks.  Merges and default keys bring in no other
scalars than those that are written.

Main definitions:

- `Node.Inside`: a node inside another one.

Main results:

- Theorem `Node.inside_of_flattened`: merges bring in nothing that is not written.
- Theorem `Construct.exists_of_problemWithin`: the problem of a level is the one of a
  scalar inside.
- Theorem `Value.exists_of_load_error`: the problem of a text.
-/

namespace JavaAtlas.Yaml

/-! ## Lists of results -/

/-- A function that is applied to a result changes no failure. -/
theorem map_eq_error_iff {ε α β : Type} {f : α → β} {r : Except ε α} {e : ε} :
    f <$> r = .error e ↔ r = .error e := by
  cases r <;> simp [Functor.map, Except.map]

/-- A list of results fails with the failure of one of them. -/
theorem exists_of_mapM_error {ε α β : Type} {f : α → Except ε β} {xs : List α} {e : ε}
    (h : xs.mapM f = .error e) : ∃ x ∈ xs, f x = .error e := by
  induction xs with
  | nil => cases h
  | cons x xs ih =>
      rw [List.mapM_cons] at h
      cases hx : f x with
      | error e' =>
          rw [hx] at h
          cases h
          exact ⟨x, List.mem_cons_self, hx⟩
      | ok y =>
          rw [hx] at h
          cases hxs : xs.mapM f with
          | error e' =>
              have he : e' = e := by
                simpa [hxs, bind, Except.bind] using h
              obtain ⟨z, hz, hfz⟩ := ih (he ▸ hxs)
              exact ⟨z, List.mem_cons_of_mem x hz, hfz⟩
          | ok ys => simp [hxs, bind, Except.bind, pure, Except.pure] at h

/-- Every entry of a list of results is the result of something. -/
theorem exists_of_mem_mapM_ok {ε α β : Type} {f : α → Except ε β} {xs : List α} {ys : List β}
    (h : xs.mapM f = .ok ys) {y : β} (hy : y ∈ ys) : ∃ x ∈ xs, f x = .ok y := by
  induction xs generalizing ys with
  | nil =>
      cases h
      cases hy
  | cons x xs ih =>
      rw [List.mapM_cons] at h
      cases hx : f x with
      | error e => simp [hx, bind, Except.bind] at h
      | ok z =>
          cases hxs : xs.mapM f with
          | error e => simp [hx, hxs, bind, Except.bind] at h
          | ok zs =>
              have hys : z :: zs = ys := by
                simpa [hx, hxs, bind, Except.bind, pure, Except.pure] using h
              rw [← hys, List.mem_cons] at hy
              rcases hy with rfl | hy
              · exact ⟨x, List.mem_cons_self, hx⟩
              · obtain ⟨w, hw, hfw⟩ := ih hxs hy
                exact ⟨w, List.mem_cons_of_mem x hw, hfw⟩

/-- Every entry of a list of results that may be missing is the result of something. -/
theorem exists_of_mem_mapM_some {α β : Type} {f : α → Option β} {xs : List α} {ys : List β}
    (h : xs.mapM f = some ys) {y : β} (hy : y ∈ ys) : ∃ x ∈ xs, f x = some y := by
  induction xs generalizing ys with
  | nil =>
      cases h
      cases hy
  | cons x xs ih =>
      rw [List.mapM_cons] at h
      obtain ⟨z, hz, hzs⟩ := Option.bind_eq_some_iff.mp h
      obtain ⟨zs, hxs, hys⟩ := Option.bind_eq_some_iff.mp hzs
      cases hys
      rcases List.mem_cons.mp hy with rfl | hy
      · exact ⟨x, List.mem_cons_self, hz⟩
      · obtain ⟨w, hw, hfw⟩ := ih hxs hy
        exact ⟨w, List.mem_cons_of_mem x hw, hfw⟩

/-! ## Nodes inside others -/

namespace Node

/-- A node is another one, or stands below it. -/
inductive Inside (n : Node) : Node → Prop where
  | self : Inside n n
  | item {m : Node} {tag : Tag} {items : List Node} (hm : m ∈ items) (h : Inside n m) :
      Inside n (sequence tag items)
  | key {p : Node × Node} {tag : Tag} {pairs : List (Node × Node)} (hp : p ∈ pairs)
      (h : Inside n p.1) : Inside n (mapping tag pairs)
  | value {p : Node × Node} {tag : Tag} {pairs : List (Node × Node)} (hp : p ∈ pairs)
      (h : Inside n p.2) : Inside n (mapping tag pairs)

theorem Inside.trans {n m root : Node} (h : Inside n m) (hm : Inside m root) :
    Inside n root := by
  induction hm with
  | self => exact h
  | item hitem _ ih => exact .item hitem ih
  | key hp _ ih => exact .key hp ih
  | value hp _ ih => exact .value hp ih

/-- A node is inside one of the keys and values of pairs. -/
def InsidePairs (n : Node) (pairs : List (Node × Node)) : Prop :=
  ∃ p ∈ pairs, Inside n p.1 ∨ Inside n p.2

theorem InsidePairs.mapping {n : Node} {pairs : List (Node × Node)} (h : InsidePairs n pairs)
    (tag : Tag) : Inside n (mapping tag pairs) := by
  obtain ⟨p, hp, hkey | hvalue⟩ := h
  · exact .key hp hkey
  · exact .value hp hvalue

/-- Merges bring in nothing that is not written. -/
theorem inside_of_flattened {fuel : Nat} {pairs merged : List (Node × Node)}
    (h : flattened fuel pairs = some merged) {n : Node} (hn : InsidePairs n merged) :
    InsidePairs n pairs := by
  induction fuel generalizing pairs merged with
  | zero =>
      rw [flattened, Option.some.injEq] at h
      rwa [h]
  | succ fuel ih =>
      rw [flattened] at h
      obtain ⟨brought, hbrought, hmerged⟩ := Option.bind_eq_some_iff.mp h
      cases hmerged
      obtain ⟨p, hp, hinside⟩ := hn
      rcases List.mem_append.mp hp with hp | hp
      · obtain ⟨ps, hps, hp⟩ := List.mem_flatten.mp hp
        obtain ⟨q, hq, hfrom⟩ := exists_of_mem_mapM_some hbrought hps
        have hqpairs := (List.mem_filter.mp hq).1
        refine ⟨q, hqpairs, .inr ?_⟩
        -- what is merged is a mapping, or a sequence of mappings
        cases hq2 : q.2 with
        | scalar tag text => simp [hq2] at hfrom
        | mapping tag inner =>
            simp only [hq2] at hfrom
            exact (ih hfrom ⟨p, hp, hinside⟩).mapping tag
        | sequence tag items =>
            simp only [hq2] at hfrom
            obtain ⟨each, heach, hflat⟩ := Option.bind_eq_some_iff.mp hfrom
            cases hflat
            obtain ⟨inner, hinner, hp⟩ := List.mem_flatten.mp hp
            obtain ⟨item, hitem, hone⟩ :=
              exists_of_mem_mapM_some heach (List.mem_reverse.mp hinner)
            cases item with
            | scalar tag text => cases hone
            | sequence tag items => cases hone
            | mapping tag' pairs' =>
                exact .item hitem ((ih hone ⟨p, hp, hinside⟩).mapping tag')
      · exact ⟨p, (List.mem_filter.mp hp).1, hinside⟩

theorem tag_asKey_isCollection (k : Node) : k.asKey.tag.isCollection = k.tag.isCollection := by
  unfold asKey
  split <;> rfl

end Node

/-! ## Levels -/

namespace Construct

open Node

/-- A default key is a text, and has no problem. -/
theorem simple_of_simple_asKey {k : Node} {e : LoadError} (h : simple k.asKey = .error e) :
    simple k = .error e := by
  unfold asKey at h
  split at h
  · cases h
  · exact h

theorem insidePairs_of_mem_partsOfPairs {pairs : List (Node × Node)} {part : Part}
    (h : part ∈ partsOfPairs pairs) :
    part = .misfit ∨ (∃ n, part = .item n ∧ InsidePairs n pairs) ∨
      ∃ k : Node, part = .key k.asKey ∧ InsidePairs k pairs := by
  unfold partsOfPairs at h
  split at h
  · exact .inl (List.mem_singleton.mp h)
  · next merged hmerged =>
      obtain ⟨p, hp, hpart⟩ := List.mem_flatMap.mp h
      simp only [List.mem_cons, List.not_mem_nil, or_false] at hpart
      rcases hpart with rfl | rfl
      · exact .inr (.inr ⟨p.1, rfl, inside_of_flattened hmerged ⟨p, hp, .inl .self⟩⟩)
      · exact .inr (.inl ⟨p.2, rfl, inside_of_flattened hmerged ⟨p, hp, .inr .self⟩⟩)

theorem inside_of_mem_partsOfSingle {m : Node} {part : Part} (h : part ∈ partsOfSingle m) :
    part = .misfit ∨ ∃ n, part = .item n ∧ Inside n m := by
  unfold partsOfSingle at h
  split at h
  · next k v =>
      simp only [List.mem_cons, List.not_mem_nil, or_false] at h
      rcases h with rfl | rfl
      · exact .inr ⟨k, rfl, .key List.mem_cons_self .self⟩
      · exact .inr ⟨v, rfl, .value List.mem_cons_self .self⟩
  · exact .inl (List.mem_singleton.mp h)

/-- The parts of a collection are nodes inside it, up to the tags of default keys. -/
theorem inside_of_mem_partsOf {c : Node} {part : Part} (h : part ∈ partsOf c) :
    part = .misfit ∨ (∃ n, part = .item n ∧ Inside n c) ∨
      ∃ k : Node, part = .key k.asKey ∧ Inside k c := by
  have hpairs : ∀ {tag pairs}, part ∈ partsOfPairs pairs →
      part = .misfit ∨ (∃ n, part = .item n ∧ Inside n (.mapping tag pairs)) ∨
        ∃ k : Node, part = .key k.asKey ∧ Inside k (.mapping tag pairs) := by
    intro tag pairs h
    rcases insidePairs_of_mem_partsOfPairs h with hmisfit | ⟨n, hpart, hn⟩ | ⟨k, hpart, hk⟩
    · exact .inl hmisfit
    · exact .inr (.inl ⟨n, hpart, hn.mapping tag⟩)
    · exact .inr (.inr ⟨k, hpart, hk.mapping tag⟩)
  have hsingles : ∀ {tag items}, part ∈ items.flatMap partsOfSingle →
      part = .misfit ∨ (∃ n, part = .item n ∧ Inside n (.sequence tag items)) ∨
        ∃ k : Node, part = .key k.asKey ∧ Inside k (.sequence tag items) := by
    intro tag items h
    obtain ⟨m, hm, hpart⟩ := List.mem_flatMap.mp h
    rcases inside_of_mem_partsOfSingle hpart with hmisfit | ⟨n, hpart, hn⟩
    · exact .inl hmisfit
    · exact .inr (.inl ⟨n, hpart, .item hm hn⟩)
  unfold partsOf at h
  split at h
  · obtain ⟨m, hm, hpart⟩ := List.mem_map.mp h
    exact .inr (.inl ⟨m, hpart.symm, .item hm .self⟩)
  · exact hsingles h
  · exact hsingles h
  · exact hpairs h
  · exact hpairs h
  · exact .inl (List.mem_singleton.mp h)

/-- A node that is to be a scalar, and has no value for the given reason. -/
def Fails (n : Node) (e : LoadError) : Prop :=
  n.tag.isCollection = false ∧ simple n = .error e

theorem fails_of_left_item {n : Node} {e : LoadError} (h : left (.item n) = .error e) :
    Fails n e := by
  rw [left] at h
  split at h
  case isTrue => cases h
  case isFalse htag => exact ⟨Bool.not_eq_true _ ▸ htag, map_eq_error_iff.mp h⟩

theorem fails_of_left_key {k : Node} {e : LoadError} (he : e ≠ .malformed)
    (h : left (.key k.asKey) = .error e) : Fails k e := by
  rw [left, tag_asKey_isCollection] at h
  split at h
  case isTrue =>
    cases h
    exact absurd rfl he
  case isFalse htag =>
    exact ⟨Bool.not_eq_true _ ▸ htag, simple_of_simple_asKey (map_eq_error_iff.mp h)⟩

/-- Only a collection is left for the next level. -/
theorem left_eq_ok_mem {part : Part} {next : List Node} (h : left part = .ok next) {n : Node}
    (hn : n ∈ next) : part = .item n := by
  have hnone : ∀ m, (fun _ => []) <$> simple m ≠ .ok next := by
    intro m hm
    cases hsimple : simple m <;> simp [hsimple, Functor.map, Except.map] at hm
    rw [hm] at hn
    cases hn
  cases part with
  | misfit => cases h
  | item m =>
      rw [left] at h
      split at h
      case isTrue =>
        cases h
        rw [List.mem_singleton.mp hn]
      case isFalse => exact absurd h (hnone m)
  | key m =>
      rw [left] at h
      split at h
      case isTrue => cases h
      case isFalse => exact absurd h (hnone m)

/-- A problem inside collections is a broken form, or the problem of a scalar inside. -/
theorem exists_of_problemWithin {fuel : Nat} {level : List Node} {e : LoadError}
    (h : problemWithin fuel level = some e) (he : e ≠ .malformed) :
    ∃ c ∈ level, ∃ n, Inside n c ∧ Fails n e := by
  induction fuel generalizing level with
  | zero => cases h
  | succ fuel ih =>
      rw [problemWithin] at h
      split at h
      · next e' hmap =>
          cases h
          obtain ⟨part, hpart, hleft⟩ := exists_of_mapM_error hmap
          obtain ⟨c, hc, hpart⟩ := List.mem_flatMap.mp hpart
          refine ⟨c, hc, ?_⟩
          rcases inside_of_mem_partsOf hpart with rfl | ⟨n, rfl, hn⟩ | ⟨k, rfl, hk⟩
          · cases hleft
            exact absurd rfl he
          · exact ⟨n, hn, fails_of_left_item hleft⟩
          · exact ⟨k, hk, fails_of_left_key he hleft⟩
      · next next hmap =>
          -- the next level stands inside this one
          obtain ⟨m, hm, n, hn, hfails⟩ := ih h
          obtain ⟨ms, hms, hm⟩ := List.mem_flatten.mp hm
          obtain ⟨part, hpart, hleft⟩ := exists_of_mem_mapM_ok hmap hms
          obtain ⟨c, hc, hpart⟩ := List.mem_flatMap.mp hpart
          have hitem := left_eq_ok_mem hleft hm
          rcases inside_of_mem_partsOf hpart with rfl | ⟨n', hn', hinside⟩ | ⟨k, hk, -⟩
          · cases hitem
          · rw [hitem] at hn'
            cases hn'
            exact ⟨c, hc, n, hn.trans hinside, hfails⟩
          · rw [hitem] at hk
            cases hk

end Construct

/-- A text that has no value breaks the rules of the format, is not read to its end, or one
of its scalars is not written as its tag asks. -/
theorem Value.exists_of_load_error {text : String} {e : LoadError}
    (h : Value.load text = .error e) (he : e ≠ .malformed) :
    (∃ fault, Node.scan text.toList = .error fault ∧ fault.toError = e) ∨
      ∃ root n, Node.scan text.toList = .ok (some root) ∧ n.Inside root ∧
        Construct.Fails n e := by
  unfold Value.load at h
  split at h
  · next fault hscan =>
      cases h
      exact .inl ⟨fault, hscan, rfl⟩
  · cases h
  · next root hscan =>
      right
      rw [Value.ofNode] at h
      split at h
      · next e' hproblem =>
          cases h
          rw [Construct.problem?] at hproblem
          split at hproblem
          · next e' hleft =>
              cases hproblem
              exact ⟨root, root, hscan, .self, Construct.fails_of_left_item hleft⟩
          · next level hleft =>
              obtain ⟨c, hc, n, hn, hfails⟩ :=
                Construct.exists_of_problemWithin hproblem he
              cases Construct.left_eq_ok_mem hleft hc
              exact ⟨_, n, hscan, hn, hfails⟩
      · cases hvalue : Construct.value? (root.size + 1) root with
        | none =>
            rw [hvalue] at h
            cases h
            exact absurd rfl he
        | some v =>
            rw [hvalue] at h
            cases h

end JavaAtlas.Yaml
