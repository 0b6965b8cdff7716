import JavaAtlas.Proofs.Diagram.Extraction
import JavaAtlas.Proofs.Diagram.Growth
import JavaAtlas.Proofs.Java.Naming
import JavaAtlas.Proofs.Source.Characters

/-!
# What type names stand for

Of the imports of a file only those count that name a type of its own package, and of those
only whether there is one.  So a name is resolved into the package of its file, or it stays
as it is.  Since the names in a source have no dot, an edge never leads into another package:
its target is in the package of its source or in none.

Main definitions:

- `IsImported`: an import names the type of the package.
- `DeclaresIn`: files declare a name in a package.

Main results:

- Theorem `resolve_eq`: what a simple name stands for.
- Theorem `resolve_congr`: what matters about the imports.
- Theorem `resolution_law`: the law with its consequences for imports and edges.
-/

namespace JavaAtlas.Diagram

open Java Source Storage FileSystem
open Text.Utf8 (encode)

/-! ## Resolution -/

/-- An import of a single type, static or not, has the name of the type in the package. -/
def IsImported (package name : String) (imports : List Import) : Prop :=
  ∃ i ∈ imports, i.isAsterisk = false ∧ i.name = package ++ "." ++ name

instance (package name : String) (imports : List Import) :
    Decidable (IsImported package name imports) :=
  inferInstanceAs (Decidable (∃ i ∈ imports, _))

/-- An import brings a name from a package if its own name is split into these. -/
theorem brings_iff {package name : String} {i : Import} :
    brings package name i = true ↔
      Undotted name ∧ i.isAsterisk = false ∧ i.name = package ++ "." ++ name := by
  have hsplit : i.identifier = name ∧ i.qualifier = some package ↔
      Import.splitLast i.name = (some package, name) := by
    rw [Import.identifier, Import.qualifier, Prod.ext_iff, And.comm]
  rw [splitLast_eq_some_iff] at hsplit
  simp only [brings, Bool.and_eq_true, Bool.not_eq_true', beq_iff_eq]
  rw [and_assoc, hsplit]
  exact and_left_comm

variable {package name : String} {imports imports' : List Import} {known : Registry}

/-- What a simple name stands for: the type in the package if that is imported or known, and
else itself. -/
theorem resolve_eq (name package : String) (imports : List Import) (known : Registry) :
    resolve name package imports known =
      if Undotted name ∧ IsImported package name imports then package ++ "." ++ name
      else if qualified package name ∈ known then qualified package name
      else name := by
  unfold resolve
  cases hfind : imports.find? (brings package name) with
  | some i =>
      obtain ⟨hname, hsingle, hi⟩ := brings_iff.mp (List.find?_some hfind)
      have himported : Undotted name ∧ IsImported package name imports :=
        ⟨hname, i, List.mem_of_find?_eq_some hfind, hsingle, hi⟩
      rw [if_pos himported]
      exact hi
  | none =>
      have hnone : ¬ (Undotted name ∧ IsImported package name imports) := by
        rintro ⟨hname, i, hmem, hsingle, hi⟩
        have hbrings := brings_iff.mpr ⟨hname, hsingle, hi⟩
        exact List.find?_eq_none.mp hfind i hmem hbrings
      rw [if_neg hnone]

/-- Of the imports only matters whether the type in the package is imported. -/
theorem resolve_congr (h : IsImported package name imports ↔ IsImported package name imports') :
    resolve name package imports known = resolve name package imports' known := by
  rw [resolve_eq, resolve_eq]
  simp only [h]

/-- Imports in another order, or some of them more than once, import the same. -/
theorem isImported_congr (h : ∀ i, i ∈ imports ↔ i ∈ imports') :
    IsImported package name imports ↔ IsImported package name imports' := by
  simp only [IsImported, h]

/-- An import of everything below a name, or of another name, adds nothing. -/
theorem isImported_insert {before after : List Import} {i : Import}
    (h : i.isAsterisk = true ∨ i.name ≠ package ++ "." ++ name) :
    IsImported package name (before ++ i :: after) ↔ IsImported package name (before ++ after) := by
  constructor
  · rintro ⟨j, hj, hsingle, hname⟩
    refine ⟨j, ?_, hsingle, hname⟩
    rcases List.mem_append.mp hj with hj | hj
    · exact List.mem_append_left _ hj
    · rcases List.mem_cons.mp hj with rfl | hj
      · rcases h with hasterisk | hother
        · cases hsingle.symm.trans hasterisk
        · exact absurd hname hother
      · exact List.mem_append_right _ hj
  · rintro ⟨j, hj, hsingle, hname⟩
    refine ⟨j, ?_, hsingle, hname⟩
    rcases List.mem_append.mp hj with hj | hj
    · exact List.mem_append_left _ hj
    · exact List.mem_append_right _ (List.mem_cons_of_mem _ hj)

/-! ## Targets -/

/-- A name is resolved into the package, or stays as it is. -/
theorem resolve_mem (name package : String) (imports : List Import) (known : Registry) :
    resolve name package imports known = package ++ "." ++ name ∨
      resolve name package imports known = name := by
  rw [resolve_eq]
  split
  case isTrue => exact .inl rfl
  case isFalse =>
    split
    case isFalse => exact .inr rfl
    case isTrue =>
      unfold qualified
      split
      case isTrue => exact .inr rfl
      case isFalse => exact .inl rfl

/-- What holds of the types of a declaration holds of those that it refers to. -/
theorem type_of_mem_references {q : TypeUse → Prop} {d : Declaration} (h : d.TypesHave q) :
    ∀ r ∈ references d, q r.type := by
  intro r hr
  simp only [references, methodReferences, List.mem_append, List.mem_map, List.mem_flatMap,
    List.mem_singleton] at hr
  rcases hr with ((⟨f, hf, rfl⟩ | ⟨m, hm, ⟨p, hp, rfl⟩ | rfl⟩) | ⟨u, hu, rfl⟩) | ⟨u, hu, rfl⟩
  · exact h.fields f hf
  · exact h.parameters m hm p hp
  · exact h.returnTypes m hm
  · exact h.extends u hu
  · exact h.implements u hu

/-- The target is a name in the package or a name without package. -/
def IsOwnOrBare (package target : String) : Prop :=
  ∃ name, Undotted name ∧ (target = package ++ "." ++ name ∨ target = name)

/-- An edge leads to a name in the package of the file, or to one without package. -/
theorem isOwnOrBare_of_mem_edgesOf {u : CompilationUnit} {d : Declaration} {e : Edge}
    (hd : d.IsNamedIn u.package) (he : e ∈ edgesOf (scopeOf known u) d) :
    IsOwnOrBare u.package e.target := by
  obtain ⟨r, hr, hedge⟩ := exists_of_mem_edgesOf he
  obtain ⟨target, htarget, rfl⟩ := Option.map_eq_some_iff.mp hedge
  obtain ⟨name, hname, -, hresolve, -⟩ := Scope.target?_eq_some_iff.mp htarget
  have hundotted := type_of_mem_references hd.types r hr name hname
  refine ⟨name, hundotted, ?_⟩
  rw [← hresolve]
  exact resolve_mem name u.package u.imports known

/-- A type that is declared under such a name is in the package or in none. -/
theorem IsOwnOrBare.package_eq {package other target : String} {d : Declaration}
    (h : IsOwnOrBare package target) (hd : d.IsNamedIn other) (hname : d.qualifiedName = target) :
    other = package ∨ other = "" := by
  obtain ⟨name, hundotted, rfl | rfl⟩ := h
  · rw [hd.qualifiedName] at hname
    exact .inl (eq_of_qualified_dotted hd.undotted hundotted hname).1
  · rw [hd.qualifiedName] at hname
    exact .inr (eq_of_qualified_undotted hundotted hname).1

/-! ## Documents -/

/-- A document holds the extract of its files. -/
theorem toExtract_of_document?_eq_some {reader : Reader} {known : Registry} {files : List Path}
    {d : Document} (h : document? reader known files = some d) :
    d.toExtract = extract reader known files := by
  obtain ⟨text, -, rfl⟩ := Option.map_eq_some_iff.mp h
  rfl

theorem IsReadUnit.isNamedIn {u : CompilationUnit} (h : IsReadUnit u) :
    ∀ d ∈ u.declarations, d.IsNamedIn u.package := by
  obtain ⟨source, root, hread, hdecls⟩ := h
  rw [hdecls]
  exact isNamedIn_of_mem_declarations hread

/-- One of the files declares the qualified name, in the package. -/
def DeclaresIn (reader : Reader) (files : List Path) (name package : String) : Prop :=
  ∃ p ∈ files, ∃ u, contribution reader p = .ok u ∧ u.package = package ∧
    ∃ d ∈ u.declarations, d.qualifiedName = name

section Documents

variable {reader : Reader} {files : List Path}

/-- A qualified name is declared in one package only. -/
theorem ReadsCompletely.package_unique (h : ReadsCompletely reader) {package package' : String}
    (hdeclared : DeclaresIn reader files name package)
    (hdeclared' : DeclaresIn reader files name package') : package = package' := by
  obtain ⟨p, -, u, hu, rfl, d, hd, rfl⟩ := hdeclared
  obtain ⟨p', -, u', hu', rfl, d', hd', hname⟩ := hdeclared'
  have hnamed := (h p u hu).isNamedIn d hd
  have hnamed' := (h p' u' hu').isNamedIn d' hd'
  rw [hnamed.qualifiedName, hnamed'.qualifiedName] at hname
  exact (qualified_inj hnamed'.undotted hnamed.undotted hname).1.symm

/-- An edge of an extract leads into the package in which its source is declared, or to a
name without package, whatever is known. -/
theorem ReadsCompletely.isOwnOrBare (h : ReadsCompletely reader) {e : Edge}
    (he : e ∈ (extract reader known files).edges) :
    ∃ package, DeclaresIn reader files e.source package ∧ IsOwnOrBare package e.target := by
  obtain ⟨p, hp, u, hu, d, hd, hedge⟩ := mem_edges_extract.mp he
  have hnamed := (h p u hu).isNamedIn d hd
  exact ⟨u.package, ⟨p, hp, u, hu, rfl, d, hd, (source_of_mem_edgesOf hedge).symm⟩,
    isOwnOrBare_of_mem_edgesOf hnamed hedge⟩

/-- Against the registry of the files themselves, an edge leads to a declared type of the
package of its source or of none. -/
theorem ReadsCompletely.target_package (h : ReadsCompletely reader) {e : Edge}
    (he : e ∈ (extract reader (registryOf reader files) files).edges) :
    ∃ package target, DeclaresIn reader files e.source package ∧
      DeclaresIn reader files e.target target ∧ (target = package ∨ target = "") ∧
      (∀ package', DeclaresIn reader files e.source package' → package' = package) ∧
      ∀ target', DeclaresIn reader files e.target target' → target' = target := by
  obtain ⟨package, hsource, hown⟩ := h.isOwnOrBare he
  obtain ⟨p, hp, u, hu, d, hd, hname⟩ := mem_registryOf.mp (target_mem_of_mem_edges_extract he)
  have htarget : DeclaresIn reader files e.target u.package := ⟨p, hp, u, hu, rfl, d, hd, hname⟩
  exact ⟨package, u.package, hsource, htarget,
    hown.package_eq ((h p u hu).isNamedIn d hd) hname,
    fun package' hsource' => h.package_unique hsource' hsource,
    fun target' htarget' => h.package_unique htarget' htarget⟩

end Documents

/-- What names stand for.  A simple name stands for the type of the package if it has no dot
and some import of a single type has exactly that name; otherwise for the name in the package
if that is known, and otherwise for itself.  So imports in another order or repeated make no
difference, and neither does an import of everything below a name or of another name.  An
edge of any extract leads to a name in the package of the file, or to a name without package;
in the document of source files that is the name of a type which only that package declares,
or the package without a name. -/
theorem resolution_law :
    (∀ (name package : String) (imports : List Import) (known : Registry),
      resolve name package imports known =
        if Undotted name ∧ IsImported package name imports then package ++ "." ++ name
        else if (if package = "" then name else package ++ "." ++ name) ∈ known then
          (if package = "" then name else package ++ "." ++ name)
        else name) ∧
    (∀ (name package : String) (imports imports' : List Import) (known : Registry),
      (∀ i, i ∈ imports ↔ i ∈ imports') →
        resolve name package imports known = resolve name package imports' known) ∧
    (∀ (name package : String) (before after : List Import) (i : Import) (known : Registry),
      i.isAsterisk = true ∨ i.name ≠ package ++ "." ++ name →
        resolve name package (before ++ i :: after) known =
          resolve name package (before ++ after) known) ∧
    ∀ (fs : FileSystem) (hindrances : Hindrances) (files : List Path),
      let reader := hinderedReader fs hindrances
      (∀ known, ∀ e ∈ (extract reader known files).edges,
        ∃ package, DeclaresIn reader files e.source package ∧ IsOwnOrBare package e.target) ∧
      ∃ d, document? reader (registryOf reader files) files = some d ∧ ∀ e ∈ d.edges,
        ∃ package target, DeclaresIn reader files e.source package ∧
          DeclaresIn reader files e.target target ∧ (target = package ∨ target = "") ∧
          (∀ package', DeclaresIn reader files e.source package' → package' = package) ∧
          ∀ target', DeclaresIn reader files e.target target' → target' = target := by
  refine ⟨resolve_eq, ?_, ?_, ?_⟩
  · intro name package imports imports' known h
    exact resolve_congr (isImported_congr h)
  · intro name package before after i known h
    exact resolve_congr (isImported_insert h)
  · intro fs hindrances files reader
    have hcomplete : ReadsCompletely reader := readsCompletely_hinderedReader fs hindrances
    refine ⟨fun known e he => hcomplete.isOwnOrBare he, ?_⟩
    exact ⟨_, hcomplete.document?_eq_some _ _, fun e he => hcomplete.target_package he⟩

/-! ## Packages with types of one name -/

/-- A class that imports a type of another package and one of its own; the types that it
names are declared there, without package, or nowhere. -/
def sharedNames : FileSystem where
  entries :=
    [(["A.java"], .file (encode ("package p; import q.B; import static p.C; " ++
      "class A \x7b B b; C c; D d; E e; \x7d")) 420),
      (["B.java"], .file (encode "package q; class B \x7b\x7d class E \x7b\x7d") 420),
      (["D.java"], .file (encode "class B \x7b\x7d class C \x7b\x7d class D \x7b\x7d") 420)]
  workingDirectory := []

set_option maxRecDepth 4096 in
/-- The import of the other package is passed over: both edges lead to types without
package.  The import of the own package counts, so the type without package is not reached. -/
theorem resolution_law_sharedNames :
    let reader := hinderedReader sharedNames {}
    let files := [pathOf ["A.java"], pathOf ["B.java"], pathOf ["D.java"]]
    let known := registryOf reader files
    let imports : List Import := [⟨"q.B", false, false⟩, ⟨"p.C", true, false⟩]
    resolve "B" "p" imports known = "B" ∧ resolve "C" "p" imports known = "p.C" ∧
      (∀ i, i ∈ imports ↔ i ∈ imports.reverse ++ imports) ∧
      resolve "C" "p" imports known = resolve "C" "p" (imports.reverse ++ imports) known ∧
      (Import.mk "p" false true).isAsterisk = true ∧
      resolve "C" "p" (imports ++ [⟨"p", false, true⟩]) known = resolve "C" "p" imports known ∧
      ∃ d, document? reader known files = some d ∧
        d.edges = [⟨"p.A", "B", .association, some "b"⟩, ⟨"p.A", "D", .association, some "d"⟩] ∧
        ∀ e ∈ d.edges, ∃ package target, DeclaresIn reader files e.source package ∧
          DeclaresIn reader files e.target target ∧ (target = package ∨ target = "") := by
  intro reader files known imports
  obtain ⟨hlaw, hsame, hother, hedges⟩ := resolution_law
  have hmem : ∀ i, i ∈ imports ↔ i ∈ imports.reverse ++ imports := by simp
  have hinsert := hother "C" "p" imports [] ⟨"p", false, true⟩ known (.inl rfl)
  rw [List.append_nil] at hinsert
  obtain ⟨d, hd, hconfined⟩ := (hedges sharedNames {} files).2
  have hthird : HoldsTexts sharedNames [(pathOf ["D.java"], _)] := .cons rfl rfl (by decide) .nil
  have hsecond : HoldsTexts sharedNames ((pathOf ["B.java"], _) :: _) :=
    .cons rfl rfl (by decide) hthird
  have htexts : HoldsTexts sharedNames ((pathOf ["A.java"], _) :: _) :=
    .cons rfl (append_eq_ofList rfl rfl) (by decide) hsecond
  have hextract : extract reader known files = extract (charactersReader _) known files :=
    extract_congr htexts.hinderedReader_eq
  have hknown : known = registryOf (charactersReader _) files :=
    registryOf_congr htexts.hinderedReader_eq
  have hfound : resolve "B" "p" imports known = "B" ∧ resolve "C" "p" imports known = "p.C" ∧
      (extract reader known files).edges =
        [⟨"p.A", "B", .association, some "b"⟩, ⟨"p.A", "D", .association, some "d"⟩] := by
    rw [hlaw, hlaw, hextract, hknown]
    decide +kernel
  refine ⟨hfound.1, hfound.2.1, hmem, hsame "C" "p" _ _ known hmem, rfl, hinsert, d, hd, ?_, ?_⟩
  · rw [toExtract_of_document?_eq_some hd]
    exact hfound.2.2
  · intro e he
    obtain ⟨package, target, hsource, htarget, hplace, -, -⟩ := hconfined e he
    exact ⟨package, target, hsource, htarget, hplace⟩

end JavaAtlas.Diagram
