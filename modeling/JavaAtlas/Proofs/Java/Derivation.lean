import JavaAtlas.Java.Rule

/-!
# Derivations

Reading by a rule builds trees in a row.  Which rows a rule can build is a
matter of the rule alone: where reading stops, how deep it may go and what was
read before play no part.  This file states that as a derivation relation,
proves that every completed run has a derivation, and shows that every node
inside a derived tree was derived by a rule of the grammar for its kind.

Main results:

- Theorem `derives_of_run`: a run that matches builds a derived row whose tokens
  are exactly the tokens it took.
- Theorem `derives_of_parse`: a parsed text is a node over a derived row that
  holds all tokens.
- Theorem `every_of_derives`: every node of a derived row was built by a node
  rule of the grammar.
-/

namespace JavaAtlas.Java

variable {σ : Type} {g : σ → Rule σ}

/-- The rule may build the row of trees. -/
inductive Derives (g : σ → Rule σ) : Rule σ → List Tree → Prop
  | nothing : Derives g .nothing []
  | token {t : Terminal} {tok : Token} (h : t.accepts tok = true) :
      Derives g (.token t) [.leaf tok]
  | both {a b : Rule σ} {xs ys : List Tree} (ha : Derives g a xs) (hb : Derives g b ys) :
      Derives g (.both a b) (xs ++ ys)
  | left {a b : Rule σ} {xs : List Tree} (h : Derives g a xs) : Derives g (.either a b) xs
  | right {a b : Rule σ} {xs : List Tree} (h : Derives g b xs) : Derives g (.either a b) xs
  | none {a : Rule σ} : Derives g (.many a) []
  | more {a : Rule σ} {xs ys : List Tree} (ha : Derives g a xs) (hs : Derives g (.many a) ys) :
      Derives g (.many a) (xs ++ ys)
  | node (k : Kind) {a : Rule σ} {xs : List Tree} (h : Derives g a xs) :
      Derives g (.node k a) [.node k xs]
  | symbol {s : σ} {xs : List Tree} (h : Derives g (g s) xs) : Derives g (.symbol s) xs
  | attempt {a : Rule σ} {xs : List Tree} (h : Derives g a xs) : Derives g (.attempt a) xs
  | ahead {a : Rule σ} : Derives g (.ahead a) []
  | notAhead {a : Rule σ} : Derives g (.notAhead a) []

/-! ## Reading a derivation back -/

@[simp]
theorem derives_nothing {xs : List Tree} : Derives g .nothing xs ↔ xs = [] := by
  constructor
  · intro h
    cases h
    rfl
  · rintro rfl
    exact .nothing

@[simp]
theorem derives_token {t : Terminal} {xs : List Tree} :
    Derives g (.token t) xs ↔ ∃ tok, t.accepts tok = true ∧ xs = [.leaf tok] := by
  constructor
  · intro h
    cases h with
    | token h => exact ⟨_, h, rfl⟩
  · rintro ⟨tok, h, rfl⟩
    exact .token h

@[simp]
theorem derives_both {a b : Rule σ} {xs : List Tree} :
    Derives g (.both a b) xs ↔ ∃ ys zs, Derives g a ys ∧ Derives g b zs ∧ xs = ys ++ zs := by
  constructor
  · intro h
    cases h with
    | both ha hb => exact ⟨_, _, ha, hb, rfl⟩
  · rintro ⟨ys, zs, ha, hb, rfl⟩
    exact .both ha hb

@[simp]
theorem derives_either {a b : Rule σ} {xs : List Tree} :
    Derives g (.either a b) xs ↔ Derives g a xs ∨ Derives g b xs := by
  constructor
  · intro h
    cases h with
    | left h => exact .inl h
    | right h => exact .inr h
  · rintro (h | h)
    · exact .left h
    · exact .right h

@[simp]
theorem derives_node {k : Kind} {a : Rule σ} {xs : List Tree} :
    Derives g (.node k a) xs ↔ ∃ ys, Derives g a ys ∧ xs = [.node k ys] := by
  constructor
  · intro h
    cases h with
    | node _ h => exact ⟨_, h, rfl⟩
  · rintro ⟨ys, h, rfl⟩
    exact .node k h

@[simp]
theorem derives_symbol {s : σ} {xs : List Tree} :
    Derives g (.symbol s) xs ↔ Derives g (g s) xs := by
  constructor
  · intro h
    cases h with
    | symbol h => exact h
  · exact .symbol

@[simp]
theorem derives_attempt {a : Rule σ} {xs : List Tree} :
    Derives g (.attempt a) xs ↔ Derives g a xs := by
  constructor
  · intro h
    cases h with
    | attempt h => exact h
  · exact .attempt

@[simp]
theorem derives_ahead {a : Rule σ} {xs : List Tree} : Derives g (.ahead a) xs ↔ xs = [] := by
  constructor
  · intro h
    cases h
    rfl
  · rintro rfl
    exact .ahead

@[simp]
theorem derives_notAhead {a : Rule σ} {xs : List Tree} :
    Derives g (.notAhead a) xs ↔ xs = [] := by
  constructor
  · intro h
    cases h
    rfl
  · rintro rfl
    exact .notAhead

@[simp]
theorem derives_andThen {a b : Rule σ} {xs : List Tree} :
    Derives g (a >> b) xs ↔ ∃ ys zs, Derives g a ys ∧ Derives g b zs ∧ xs = ys ++ zs :=
  derives_both

@[simp]
theorem derives_orElse {a b : Rule σ} {xs : List Tree} :
    Derives g (a <|> b) xs ↔ Derives g a xs ∨ Derives g b xs :=
  derives_either

/-- An optional rule builds what the rule builds, or nothing. -/
@[simp]
theorem derives_maybe {a : Rule σ} {xs : List Tree} :
    Derives g a.maybe xs ↔ Derives g a xs ∨ xs = [] := by
  simp [Rule.maybe]

/-- A condition builds nothing. -/
@[simp]
theorem derives_onlyIf {c a : Rule σ} {xs : List Tree} :
    Derives g (Rule.onlyIf c a) xs ↔ Derives g a xs := by
  simp [Rule.onlyIf]

/-- A rule that is repeated builds rows of the rule, one behind the other. -/
theorem every_mem_of_derives_many {a : Rule σ} {p : Tree → Prop}
    (ha : ∀ xs, Derives g a xs → ∀ x ∈ xs, p x) {xs : List Tree}
    (h : Derives g (.many a) xs) : ∀ x ∈ xs, p x := by
  generalize hr : Rule.many a = r at h
  induction h with
  | none => simp
  | more hx _ _ ih =>
      cases hr
      intro x hmem
      rcases List.mem_append.mp hmem with hmem | hmem
      · exact ha _ hx x hmem
      · exact ih rfl x hmem
  | _ => cases hr

/-! ## Runs have derivations -/

/-- A refusal is no match. -/
@[simp]
theorem refused_ne_matched {moved moved' : Bool} {f : Fault} {built : List Tree}
    {rest : List Token} : Outcome.refused moved f ≠ .matched moved' built rest := by
  cases moved <;> simp [Outcome.refused]

/-- Naming the node that was being read changes no match. -/
theorem within_eq_matched {ts rest : List Token} {o : Outcome} {moved : Bool}
    {built : List Tree} :
    o.within ts = .matched moved built rest ↔ o = .matched moved built rest := by
  cases o <;> simp [Outcome.within]

theorem tokensOfAll_append (xs ys : List Tree) :
    Tree.tokensOfAll (xs ++ ys) = Tree.tokensOfAll xs ++ Tree.tokensOfAll ys := by
  induction xs with
  | nil => rfl
  | cons x xs ih => simp [Tree.tokensOfAll, ih]

/-- A run that matches puts a derived row in front of what was built before, and
takes exactly the tokens of that row. -/
theorem derives_of_run {n : Nat} {r : Rule σ} {moved moved' : Bool} {built built' : List Tree}
    {ts rest : List Token} (h : run g n r moved built ts = .matched moved' built' rest) :
    ∃ xs, Derives g r xs ∧ built' = xs.reverse ++ built ∧
      ts = Tree.tokensOfAll xs ++ rest := by
  induction n generalizing r moved built ts moved' built' rest with
  | zero => simp [run] at h
  | succ n ih =>
      cases r with
      | nothing =>
          simp only [run, Outcome.matched.injEq] at h
          obtain ⟨-, rfl, rfl⟩ := h
          exact ⟨[], .nothing, rfl, rfl⟩
      | token t =>
          cases ts with
          | nil => simp [run] at h
          | cons tok ts =>
              simp only [run] at h
              split at h
              case isTrue hacc =>
                simp only [Outcome.matched.injEq] at h
                obtain ⟨-, rfl, rfl⟩ := h
                exact ⟨[.leaf tok], .token hacc, rfl, rfl⟩
              case isFalse => simp at h
      | both a b =>
          simp only [run] at h
          split at h
          case h_1 m built₁ rest₁ ha =>
            obtain ⟨xs, hxs, rfl, rfl⟩ := ih ha
            obtain ⟨ys, hys, rfl, rfl⟩ := ih h
            exact ⟨xs ++ ys, .both hxs hys, by simp, by simp [tokensOfAll_append]⟩
          case h_2 o hne => exact absurd h (hne _ _ _)
      | either a b =>
          simp only [run] at h
          split at h
          case h_1 m built₁ rest₁ ha =>
            simp only [Outcome.matched.injEq] at h
            obtain ⟨-, rfl, rfl⟩ := h
            obtain ⟨xs, hxs, hb, ht⟩ := ih ha
            exact ⟨xs, .left hxs, hb, ht⟩
          case h_2 => cases h
          case h_3 =>
            obtain ⟨xs, hxs, hb, ht⟩ := ih h
            exact ⟨xs, .right hxs, hb, ht⟩
      | many a =>
          simp only [run] at h
          split at h
          case h_1 built₁ rest₁ ha =>
            obtain ⟨xs, hxs, rfl, rfl⟩ := ih ha
            obtain ⟨ys, hys, rfl, rfl⟩ := ih h
            exact ⟨xs ++ ys, .more hxs hys, by simp, by simp [tokensOfAll_append]⟩
          case h_3 => cases h
          all_goals
            simp only [Outcome.matched.injEq] at h
            obtain ⟨-, rfl, rfl⟩ := h
            exact ⟨[], .none, rfl, rfl⟩
      | node k a =>
          simp only [run] at h
          split at h
          case h_1 m inside rest₁ ha =>
            simp only [Outcome.matched.injEq] at h
            obtain ⟨-, rfl, rfl⟩ := h
            obtain ⟨xs, hxs, rfl, rfl⟩ := ih ha
            exact ⟨[.node k xs], .node k hxs, by simp, by simp [Tree.tokensOfAll, Tree.tokens]⟩
          case h_2 hne => exact absurd (within_eq_matched.mp h) (hne _ _ _)
      | symbol s =>
          simp only [run] at h
          obtain ⟨xs, hxs, hb, ht⟩ := ih h
          exact ⟨xs, .symbol hxs, hb, ht⟩
      | attempt a =>
          simp only [run] at h
          split at h
          case h_1 m built₁ rest₁ ha =>
            simp only [Outcome.matched.injEq] at h
            obtain ⟨-, rfl, rfl⟩ := h
            obtain ⟨xs, hxs, hb, ht⟩ := ih ha
            exact ⟨xs, .attempt hxs, hb, ht⟩
          all_goals simp at h
      | ahead a =>
          simp only [run] at h
          split at h
          case h_1 =>
            simp only [Outcome.matched.injEq] at h
            obtain ⟨-, rfl, rfl⟩ := h
            exact ⟨[], .ahead, rfl, rfl⟩
          case h_2 => simp at h
      | notAhead a =>
          simp only [run] at h
          split at h
          case h_1 => simp at h
          case h_2 =>
            simp only [Outcome.matched.injEq] at h
            obtain ⟨-, rfl, rfl⟩ := h
            exact ⟨[], .notAhead, rfl, rfl⟩

/-- A text that is read completely is a node over a derived row with all its tokens. -/
theorem derives_of_parse {kind : Kind} {start : σ} {ts : List Token} {t : Tree}
    (h : parse g kind start ts = .ok t) :
    ∃ xs, t = .node kind xs ∧ Derives g (.symbol start) xs ∧ ts = Tree.tokensOfAll xs := by
  unfold parse at h
  split at h
  case h_1 m built hrun =>
    obtain ⟨xs, hxs, rfl, rfl⟩ := derives_of_run hrun
    simp only [List.append_nil, List.reverse_reverse, Except.ok.injEq] at h
    exact ⟨xs, h.symm, hxs, by simp⟩
  all_goals cases h

/-! ## Nodes inside derived rows -/

/-- The rules in a rule that build nodes, each with the kind of its nodes.  What is
only looked at ahead builds none. -/
def Rule.nodes : Rule σ → List (Kind × Rule σ)
  | .nothing | .token _ | .symbol _ | .ahead _ | .notAhead _ => []
  | .both a b | .either a b => a.nodes ++ b.nodes
  | .many a | .attempt a => a.nodes
  | .node k a => (k, a) :: a.nodes

/-- The property holds of every node of a tree, given as its kind and its children. -/
inductive Tree.Every (p : Kind → List Tree → Prop) : Tree → Prop
  | leaf (t : Token) : Every p (.leaf t)
  | node {k : Kind} {cs : List Tree} (h : p k cs) (hs : ∀ c ∈ cs, Every p c) :
      Every p (.node k cs)

theorem Tree.Every.here {p : Kind → List Tree → Prop} {k : Kind} {cs : List Tree}
    (h : Tree.Every p (.node k cs)) : p k cs := by
  cases h with
  | node h _ => exact h

theorem Tree.Every.children {p : Kind → List Tree → Prop} {t : Tree} (h : Tree.Every p t) :
    ∀ c ∈ t.children, Tree.Every p c := by
  cases h with
  | leaf => simp [Tree.children]
  | node _ hs => exact hs

/-- Every node of a derived row has the property, if the node rules of the grammar
and of the rule build such nodes only. -/
theorem every_of_derives {p : Kind → List Tree → Prop}
    (hg : ∀ s, ∀ n ∈ (g s).nodes, ∀ xs, Derives g n.2 xs → p n.1 xs) {r : Rule σ}
    {xs : List Tree} (h : Derives g r xs)
    (hr : ∀ n ∈ r.nodes, ∀ xs, Derives g n.2 xs → p n.1 xs) :
    ∀ x ∈ xs, x.Every p := by
  induction h with
  | nothing | none | ahead | notAhead => simp
  | token => simp [Tree.Every.leaf]
  | both _ _ iha ihb =>
      simp only [Rule.nodes, List.forall_mem_append] at hr
      exact List.forall_mem_append.mpr ⟨iha hr.1, ihb hr.2⟩
  | left _ ih =>
      simp only [Rule.nodes, List.forall_mem_append] at hr
      exact ih hr.1
  | right _ ih =>
      simp only [Rule.nodes, List.forall_mem_append] at hr
      exact ih hr.2
  | more _ _ iha ihs => exact List.forall_mem_append.mpr ⟨iha hr, ihs hr⟩
  | node k hxs ih =>
      simp only [Rule.nodes, List.forall_mem_cons] at hr
      simpa using Tree.Every.node (hr.1 _ hxs) (ih hr.2)
  | symbol _ ih => exact ih (hg _)
  | attempt _ ih => exact ih hr

end JavaAtlas.Java
