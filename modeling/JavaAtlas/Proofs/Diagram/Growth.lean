import Mathlib.Data.List.Forall2
import JavaAtlas.Proofs.Diagram.Influence
import JavaAtlas.Proofs.Source.Growth

/-!
# Growing registries

A reference that names a known type names one still when more types are known.  It may
name another one then: where no type of the package was known, the bare name stood for
a type without package, and it gives way when the package gets a type of that name.  So
a diagram keeps its edges when files are added, up to such targets.

Main results:

- Theorem `Scope.exists_target?_of_subset`: what a reference names when more is known.
- Theorem `sublistForall₂_edgesOf`: the edges of a declaration when more is known.
- Theorem `edges_kept_by_growth`: declarations and edges of a tree that grows.
-/

namespace JavaAtlas.Diagram

open Config Java Source Storage FileSystem
open Text.Utf8 (encode)

/-! ## References -/

section References

variable {package : String} {imports : List Import} {known known' : Registry}

/-- A resolved name is that of an import, or the name in the package if that is known, or
the name itself. -/
theorem resolve_cases (name package : String) (imports : List Import) :
    (∃ imported, ∀ known, resolve name package imports known = imported) ∨
      ∀ known, resolve name package imports known =
        if qualified package name ∈ known then qualified package name else name := by
  cases h : imports.find? (brings package name) with
  | some i => exact .inl ⟨i.name, fun known => by simp only [resolve, h]⟩
  | none => exact .inr fun known => by simp only [resolve, h]

/-- A reference names the type that its simple name is resolved to, if that is known. -/
theorem Scope.target?_eq_some_iff {s : Scope} {type : TypeUse} {target : String} :
    s.target? type = some target ↔
      ∃ name, type.simpleName = some name ∧ name ≠ "" ∧
        resolve name s.package s.imports s.known = target ∧ target ∈ s.known := by
  unfold Scope.target?
  cases type.simpleName with
  | none => simp
  | some name =>
      by_cases hname : name = ""
      case pos => simp [hname]
      case neg =>
        simp only [hname, if_false, Option.some.injEq, exists_eq_left', ne_eq, not_false_eq_true,
          true_and]
        constructor
        · intro h
          split at h
          case isTrue hknown =>
            cases h
            exact ⟨rfl, hknown⟩
          case isFalse => cases h
        · rintro ⟨rfl, hknown⟩
          rw [if_pos hknown]

/-- What a reference named it names still when more is known, or it was a bare name and
gives way to the name in the package. -/
theorem Scope.exists_target?_of_subset {type : TypeUse} {target : String}
    (hknown : ∀ name ∈ known, name ∈ known')
    (h : Scope.target? ⟨package, imports, known⟩ type = some target) :
    ∃ target', Scope.target? ⟨package, imports, known'⟩ type = some target' ∧
      (target' = target ∨
        type.simpleName = some target ∧ target' = qualified package target) := by
  obtain ⟨name, hsimple, hname, hresolve, hmem⟩ := Scope.target?_eq_some_iff.mp h
  dsimp only at hresolve hmem
  have hkept : resolve name package imports known' = target →
      Scope.target? ⟨package, imports, known'⟩ type = some target := fun hsame =>
    Scope.target?_eq_some_iff.mpr ⟨name, hsimple, hname, hsame, hknown _ hmem⟩
  rcases resolve_cases name package imports with ⟨imported, himport⟩ | hlocal
  · exact ⟨target, hkept (by rw [himport, ← hresolve, himport]), .inl rfl⟩
  · rw [hlocal] at hresolve
    by_cases hold : qualified package name ∈ known
    case pos =>
      rw [if_pos hold] at hresolve
      refine ⟨target, hkept ?_, .inl rfl⟩
      rw [hlocal, if_pos (hknown _ hold), hresolve]
    case neg =>
      rw [if_neg hold] at hresolve
      subst hresolve
      by_cases hnew : qualified package name ∈ known'
      case pos =>
        refine ⟨qualified package name, ?_, .inr ⟨hsimple, rfl⟩⟩
        exact Scope.target?_eq_some_iff.mpr
          ⟨name, hsimple, hname, by rw [hlocal, if_pos hnew], hnew⟩
      case neg => exact ⟨name, hkept (by rw [hlocal, if_neg hnew]), .inl rfl⟩

end References

/-! ## Edges of a declaration -/

/-- The later edge is the earlier one, except that a target without package may have
become the type of that name in the package. -/
structure Edge.KeptAs (package : String) (e e' : Edge) : Prop where
  source : e'.source = e.source
  kind : e'.kind = e.kind
  label : e'.label = e.label
  target : e'.target = e.target ∨ e'.target = qualified package e.target

/-- The edge without its target. -/
def Edge.untargeted (e : Edge) : Edge :=
  { e with target := "" }

theorem Edge.KeptAs.untargeted_eq {package : String} {e e' : Edge} (h : Edge.KeptAs package e e') :
    e.untargeted = e'.untargeted := by
  simp only [Edge.untargeted, h.source, h.kind, h.label]

section Lists

variable {α β γ : Type} {r : β → γ → Prop}

/-- What a partial function gives on a list stays, up to the relation, under one that is
defined wherever the first one is. -/
theorem sublistForall₂_filterMap {f : α → Option β} {g : α → Option γ} {xs : List α}
    (h : ∀ x ∈ xs, ∀ y, f x = some y → ∃ z, g x = some z ∧ r y z) :
    List.SublistForall₂ r (xs.filterMap f) (xs.filterMap g) := by
  induction xs with
  | nil => exact .nil
  | cons x xs ih =>
      have hrest := ih fun y hy => h y (List.mem_cons_of_mem x hy)
      cases hf : f x with
      | none =>
          rw [List.filterMap_cons_none hf]
          cases hg : g x with
          | none => rwa [List.filterMap_cons_none hg]
          | some z =>
              rw [List.filterMap_cons_some hg]
              exact .cons_right hrest
      | some y =>
          obtain ⟨z, hg, hyz⟩ := h x List.mem_cons_self y hf
          rw [List.filterMap_cons_some hf, List.filterMap_cons_some hg]
          exact .cons hyz hrest

theorem sublistForall₂_append {ys ys' : List β} {zs zs' : List γ}
    (h : List.SublistForall₂ r ys zs) (h' : List.SublistForall₂ r ys' zs') :
    List.SublistForall₂ r (ys ++ ys') (zs ++ zs') := by
  induction h with
  | @nil zs =>
      induction zs with
      | nil => exact h'
      | cons z zs ih => exact .cons_right ih
  | cons hyz _ ih => exact .cons hyz ih
  | cons_right _ ih => exact .cons_right ih

/-- What a function gives on the members of a list stays, up to the relation, when other
members are added. -/
theorem sublistForall₂_flatMap {f : α → List β} {g : α → List γ} {xs ys : List α}
    (h : xs.Sublist ys) (hfg : ∀ x ∈ xs, List.SublistForall₂ r (f x) (g x)) :
    List.SublistForall₂ r (xs.flatMap f) (ys.flatMap g) := by
  induction h with
  | slnil => exact .nil
  | cons y _ ih =>
      rw [List.flatMap_cons]
      have hnone : List.SublistForall₂ r [] (g y) := .nil
      simpa using sublistForall₂_append hnone (ih hfg)
  | cons_cons x _ ih =>
      rw [List.flatMap_cons, List.flatMap_cons]
      exact sublistForall₂_append (hfg x List.mem_cons_self)
        (ih fun y hy => hfg y (List.mem_cons_of_mem x hy))

end Lists

section Declarations

variable {u : CompilationUnit} {known known' : Registry}

/-- A reference that gives an edge gives one still when more is known. -/
theorem exists_edgeOf?_of_subset {source : String} {r : Reference} {e : Edge}
    (hknown : ∀ name ∈ known, name ∈ known') (h : edgeOf? (scopeOf known u) source r = some e) :
    ∃ e', edgeOf? (scopeOf known' u) source r = some e' ∧ Edge.KeptAs u.package e e' ∧
      (e'.target = e.target ∨
        r.type.simpleName = some e.target ∧ e'.target = qualified u.package e.target) := by
  obtain ⟨target, htarget, rfl⟩ := Option.map_eq_some_iff.mp h
  obtain ⟨target', htarget', hsame⟩ := Scope.exists_target?_of_subset hknown htarget
  refine ⟨⟨source, target', r.kind, r.label⟩, ?_, ⟨rfl, rfl, rfl, ?_⟩, hsame⟩
  · simp only [edgeOf?, scopeOf, htarget', Option.map_some]
  · exact hsame.imp_right And.right

/-- The edges of a declaration stay in their order when more is known, with others
between them. -/
theorem sublistForall₂_edgesOf (hknown : ∀ name ∈ known, name ∈ known') (d : Declaration) :
    List.SublistForall₂ (Edge.KeptAs u.package) (edgesOf (scopeOf known u) d)
      (edgesOf (scopeOf known' u) d) := by
  rw [edgesOf_eq, edgesOf_eq]
  refine sublistForall₂_filterMap fun r _ e he => ?_
  obtain ⟨e', he', hkept, -⟩ := exists_edgeOf?_of_subset hknown he
  exact ⟨e', he', hkept⟩

/-- So the edges without their targets are among those without theirs. -/
theorem untargeted_edgesOf_sublist (hknown : ∀ name ∈ known, name ∈ known') (d : Declaration) :
    ((edgesOf (scopeOf known u) d).map Edge.untargeted).Sublist
      ((edgesOf (scopeOf known' u) d).map Edge.untargeted) := by
  obtain ⟨kept, hkept, hsub⟩ :=
    List.sublistForall₂_iff.mp (sublistForall₂_edgesOf (u := u) hknown d)
  have hsame : (edgesOf (scopeOf known u) d).map Edge.untargeted =
      kept.map Edge.untargeted := by
    rw [← List.forall₂_eq_eq_eq, List.forall₂_map_left_iff, List.forall₂_map_right_iff]
    exact hkept.imp fun _ _ => Edge.KeptAs.untargeted_eq
  rw [hsame]
  exact hsub.map Edge.untargeted

end Declarations

/-! ## Extracts -/

section Extracts

variable {reader reader' : Reader} {known known' : Registry} {files files' : List Path}

/-- Declarations stay in their order when files are added. -/
theorem declarations_extract_sublist (hfiles : files.Sublist files')
    (hsame : ∀ p ∈ files, contribution reader p = contribution reader' p) :
    (extract reader known files).declarations.Sublist
      (extract reader' known' files').declarations := by
  have hkept : List.SublistForall₂ Eq (extract reader known files).declarations
      (extract reader' known' files').declarations := by
    simp only [declarations_extract]
    refine sublistForall₂_flatMap hfiles fun p hp => ?_
    unfold extractOfFile
    rw [hsame p hp]
    cases contribution reader' p with
    | ok u => exact Std.Refl.refl _
    | error w => exact .nil
  obtain ⟨kept, hequal, hsub⟩ := List.sublistForall₂_iff.mp hkept
  rw [List.forall₂_eq_eq_eq] at hequal
  exact hequal ▸ hsub

/-- Edges stay in their order when files are added and more is known. -/
theorem sublistForall₂_edges_extract (hfiles : files.Sublist files')
    (hsame : ∀ p ∈ files, contribution reader p = contribution reader' p)
    (hknown : ∀ name ∈ known, name ∈ known') :
    List.SublistForall₂ (fun a b => ∃ package, Edge.KeptAs package a b)
      (extract reader known files).edges (extract reader' known' files').edges := by
  simp only [edges_extract]
  refine sublistForall₂_flatMap hfiles fun p hp => ?_
  unfold extractOfFile
  rw [hsame p hp]
  cases contribution reader' p with
  | error w => exact .nil
  | ok u =>
      refine sublistForall₂_flatMap (List.Sublist.refl _) fun d _ => ?_
      obtain ⟨kept, hkept, hsub⟩ :=
        List.sublistForall₂_iff.mp (sublistForall₂_edgesOf (u := u) hknown d)
      exact List.sublistForall₂_iff.mpr
        ⟨kept, hkept.imp fun _ _ h => ⟨u.package, h⟩, hsub⟩

end Extracts

/-! ## Trees -/

section Trees

variable {part fs : FileSystem} {hindrances : Hindrances} {s : DiagramSettings} {l : Location}

/-- A file of a part contributes what it contributes in the whole. -/
theorem contribution_of_isPart (h : IsPart part fs) {p : Path}
    (hp : p ∈ requestedFiles part s l) :
    contribution (hinderedReader part hindrances) p =
      contribution (hinderedReader fs hindrances) p :=
  contribution_congr (hinderedReader_congr (h.read_eq (isFile_of_mem_sourceFiles hp)))

/-- The registry of the whole knows what the registry of a part knows. -/
theorem mem_registryBelow_of_isPart (h : IsPart part fs)
    (hfiles : (requestedFiles part s l).Sublist (requestedFiles fs s l)) :
    ∀ name ∈ registryBelow part (hinderedReader part hindrances) s l,
      name ∈ registryBelow fs (hinderedReader fs hindrances) s l := by
  intro name hname
  rw [registryBelow, mem_registryOf] at hname ⊢
  obtain ⟨p, hp, u, hu, hdeclared⟩ := hname
  exact ⟨p, hfiles.subset hp, u, (contribution_of_isPart h hp).symm.trans hu, hdeclared⟩

/-- More known types never take an edge away.  Every reference of a declaration that gives
an edge gives one still, with the same target or, instead of a bare name, with the type of
that name in the package; so the edges stay in their order.  When entries are added to a
file system, every file below a directory stays, adds the same unit, and keeps the edges
of its declarations. -/
theorem edges_kept_by_growth :
    (∀ (u : CompilationUnit) (known known' : Registry), (∀ name ∈ known, name ∈ known') →
      ∀ d : Declaration,
        (∀ r ∈ references d, ∀ e, edgeOf? (scopeOf known u) d.qualifiedName r = some e →
          ∃ e', edgeOf? (scopeOf known' u) d.qualifiedName r = some e' ∧
            Edge.KeptAs u.package e e' ∧
            (e'.target = e.target ∨
              r.type.simpleName = some e.target ∧ e'.target = qualified u.package e.target)) ∧
        List.SublistForall₂ (Edge.KeptAs u.package) (edgesOf (scopeOf known u) d)
          (edgesOf (scopeOf known' u) d) ∧
        ((edgesOf (scopeOf known u) d).map Edge.untargeted).Sublist
          ((edgesOf (scopeOf known' u) d).map Edge.untargeted)) ∧
    ∀ (part fs : FileSystem) (hindrances : Hindrances) (s : DiagramSettings) (l : Location),
      IsPart part fs → part.Sound → fs.Sound → part.node? l = some .directory →
      let reader := hinderedReader part hindrances
      let reader' := hinderedReader fs hindrances
      let known := registryBelow part reader s l
      let known' := registryBelow fs reader' s l
      let e := extractBelow part reader s l
      let e' := extractBelow fs reader' s l
      (requestedFiles part s l).Sublist (requestedFiles fs s l) ∧
        (∀ name ∈ known, name ∈ known') ∧
        (∀ p ∈ requestedFiles part s l, ∀ u, contribution reader p = .ok u →
          contribution reader' p = .ok u ∧ ∀ d ∈ u.declarations,
            List.SublistForall₂ (Edge.KeptAs u.package) (edgesOf (scopeOf known u) d)
              (edgesOf (scopeOf known' u) d)) ∧
        e.declarations.Sublist e'.declarations ∧
        List.SublistForall₂ (fun a b => ∃ package, Edge.KeptAs package a b) e.edges e'.edges := by
  refine ⟨fun u known known' hknown d => ⟨?_, sublistForall₂_edgesOf hknown d,
    untargeted_edgesOf_sublist hknown d⟩, ?_⟩
  · intro r _ e he
    exact exists_edgeOf?_of_subset hknown he
  · intro part fs hindrances s l hpart hs hs' hl reader reader' known known' e e'
    have hfiles : (requestedFiles part s l).Sublist (requestedFiles fs s l) :=
      sourceFiles_sublist hpart hs hs' hl
    have hknown : ∀ name ∈ known, name ∈ known' := mem_registryBelow_of_isPart hpart hfiles
    have hsame : ∀ p ∈ requestedFiles part s l,
        contribution reader p = contribution reader' p :=
      fun p hp => contribution_of_isPart hpart hp
    refine ⟨hfiles, hknown, ?_, declarations_extract_sublist hfiles hsame,
      sublistForall₂_edges_extract hfiles hsame hknown⟩
    intro p hp u hu
    exact ⟨(hsame p hp).symm.trans hu, fun d _ => sublistForall₂_edgesOf hknown d⟩

end Trees

/-! ## A type that joins the package -/

/-- A class of a package with fields of a known type and of an unknown one. -/
def beforeJoining : FileSystem where
  entries :=
    [(["src"], .directory),
      (["src", "A.java"], .file (encode "package p; class A \x7b B b; C c; \x7d") 420),
      (["src", "B.java"], .file (encode "class B \x7b\x7d") 420)]
  workingDirectory := []

/-- The tree with a type of the same name in the package, and the unknown type. -/
def afterJoining : FileSystem :=
  { beforeJoining with
    entries := beforeJoining.entries ++
      [(["src", "p"], .directory),
        (["src", "p", "B.java"], .file (encode "package p; interface B \x7b\x7d") 420),
        (["src", "p", "C.java"], .file (encode "package p; class C \x7b\x7d") 420)] }

private theorem sound_beforeJoining : beforeJoining.Sound := by
  refine sound_of_entries rfl ?_
  simp [beforeJoining, node?, List.lookup_cons, IsEntryName, Path.isName]
  decide

private theorem sound_afterJoining : afterJoining.Sound := by
  refine sound_of_entries rfl ?_
  simp [afterJoining, beforeJoining, node?, List.lookup_cons, IsEntryName, Path.isName]
  decide

private theorem requestedFiles_beforeJoining :
    requestedFiles beforeJoining {} ["src"] =
      [pathOf ["src", "A.java"], pathOf ["src", "B.java"]] := by
  have hnames : listedNames beforeJoining ["src"] = ["A.java", "B.java"] :=
    listedNames_eq rfl rfl (by decide)
  have hdepth : depthBound beforeJoining = 3 := rfl
  rw [requestedFiles, sourceFiles_pathOf sound_beforeJoining (by decide) rfl, hdepth,
    filesBelow_succ_eq ["A.java", "B.java"] [] hnames rfl rfl]
  rfl

private theorem requestedFiles_afterJoining :
    requestedFiles afterJoining {} ["src"] =
      [pathOf ["src", "A.java"], pathOf ["src", "B.java"], pathOf ["src", "p", "B.java"],
        pathOf ["src", "p", "C.java"]] := by
  have hnames : listedNames afterJoining ["src"] = ["A.java", "B.java", "p"] :=
    listedNames_eq rfl rfl (by decide)
  have hnames' : listedNames afterJoining ["src", "p"] = ["B.java", "C.java"] :=
    listedNames_eq rfl rfl (by decide)
  have hbelow : filesBelow afterJoining ".java" 3 (pathOf ["src", "p"]) ["src", "p"] =
      [pathOf ["src", "p", "B.java"], pathOf ["src", "p", "C.java"]] :=
    filesBelow_succ_eq ["B.java", "C.java"] [] hnames' rfl rfl
  have hnormal : (pathOf ["src"]).normal = pathOf ["src"] := rfl
  have hdepth : depthBound afterJoining = 4 := rfl
  rw [requestedFiles, sourceFiles_pathOf sound_afterJoining (by decide) rfl, hdepth,
    filesBelow_succ_eq ["A.java", "B.java"] ["p"] hnames rfl rfl]
  simp [hbelow, child_pathOf, hnormal]

/-- When a type of the package joins, the edge to the bare name leads to that type; no
edge is lost, and none would be lost in any other unit. -/
theorem edges_kept_afterJoining :
    let reader := hinderedReader beforeJoining {}
    let reader' := hinderedReader afterJoining {}
    let known := registryBelow beforeJoining reader {} ["src"]
    let known' := registryBelow afterJoining reader' {} ["src"]
    let e := extractBelow beforeJoining reader {} ["src"]
    let e' := extractBelow afterJoining reader' {} ["src"]
    e.edges = [⟨"p.A", "B", .association, some "b"⟩] ∧
      e'.edges = [⟨"p.A", "p.B", .association, some "b"⟩,
        ⟨"p.A", "p.C", .association, some "c"⟩] ∧
      e.declarations.Sublist e'.declarations ∧
      List.SublistForall₂ (fun a b => ∃ package, Edge.KeptAs package a b) e.edges e'.edges ∧
      ∀ u d, ((edgesOf (scopeOf known u) d).map Edge.untargeted).Sublist
        ((edgesOf (scopeOf known' u) d).map Edge.untargeted) := by
  intro reader reader' known known' e e'
  have hedges : e.edges = [⟨"p.A", "B", .association, some "b"⟩] := by
    simp only [e, reader, extractBelow, registryBelow, requestedFiles_beforeJoining]
    decide +kernel
  have hedges' : e'.edges = [⟨"p.A", "p.B", .association, some "b"⟩,
      ⟨"p.A", "p.C", .association, some "c"⟩] := by
    simp only [e', reader', extractBelow, registryBelow, requestedFiles_afterJoining]
    decide +kernel
  obtain ⟨-, hknown, -, hdeclarations, hkept⟩ := edges_kept_by_growth.2 beforeJoining
    afterJoining {} {} ["src"] (isPart_append _ _) sound_beforeJoining sound_afterJoining rfl
  exact ⟨hedges, hedges', hdeclarations, hkept, fun u d =>
    (edges_kept_by_growth.1 u known known' hknown d).2.2⟩

end JavaAtlas.Diagram
