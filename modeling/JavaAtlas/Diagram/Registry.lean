/-!
# Registries

The qualified names of all types that a source tree declares, each once and in
the order of their characters.
-/

namespace JavaAtlas.Diagram

/-- Known names, in increasing order. -/
structure Registry where
  names : List String
  increasing : names.Pairwise (· < ·) := by simp
  deriving Repr

namespace Registry

/-- The names of a list put in order, each once. -/
def insertName (name : String) : List String → List String
  | [] => [name]
  | n :: ns =>
    if name = n then n :: ns
    else if name < n then name :: n :: ns
    else n :: insertName name ns

theorem mem_insertName {x name : String} {ns : List String} :
    x ∈ insertName name ns ↔ x = name ∨ x ∈ ns := by
  induction ns with
  | nil => simp [insertName]
  | cons n ns ih => grind [insertName]

theorem pairwise_insertName {name : String} {ns : List String} (h : ns.Pairwise (· < ·)) :
    (insertName name ns).Pairwise (· < ·) := by
  induction ns with
  | nil => simp [insertName]
  | cons n ns ih =>
    have hn := (List.pairwise_cons.1 h).1
    have hs := ih (List.Pairwise.of_cons h)
    unfold insertName
    split
    · exact h
    · split
      · rename_i hlt
        refine List.pairwise_cons.2 ⟨fun a ha => ?_, h⟩
        rcases List.mem_cons.1 ha with rfl | ha
        · exact hlt
        · exact String.lt_trans hlt (hn _ ha)
      · rename_i hne hlt
        refine List.pairwise_cons.2 ⟨fun a ha => ?_, hs⟩
        rcases mem_insertName.1 ha with rfl | ha
        · exact (Std.lt_trichotomy _ _).resolve_left hlt |>.resolve_left hne
        · exact hn _ ha

/-- The registry without names. -/
def empty : Registry := ⟨[], .nil⟩

/-- The registry with one more name. -/
def insert (r : Registry) (name : String) : Registry :=
  ⟨insertName name r.names, pairwise_insertName r.increasing⟩

/-- The registry of the names of a list. -/
def ofList (names : List String) : Registry :=
  names.foldl insert empty

/-- Number of names. -/
def size (r : Registry) : Nat :=
  r.names.length

instance : Membership String Registry := ⟨fun r name => name ∈ r.names⟩

theorem mem_def {r : Registry} {name : String} : name ∈ r ↔ name ∈ r.names := Iff.rfl

instance (name : String) (r : Registry) : Decidable (name ∈ r) :=
  inferInstanceAs (Decidable (name ∈ r.names))

theorem mem_insert {r : Registry} {x name : String} : x ∈ r.insert name ↔ x = name ∨ x ∈ r :=
  mem_insertName

theorem mem_foldl_insert {names : List String} {r : Registry} {x : String} :
    x ∈ names.foldl insert r ↔ x ∈ r ∨ x ∈ names := by
  induction names generalizing r with
  | nil => simp
  | cons n ns ih => simp only [List.foldl_cons, ih, mem_insert, List.mem_cons]; grind

/-- A registry knows exactly the names that it was made of. -/
theorem mem_ofList {names : List String} {x : String} : x ∈ ofList names ↔ x ∈ names := by
  rw [ofList, mem_foldl_insert]
  simp [empty, mem_def]

end Registry

end JavaAtlas.Diagram
