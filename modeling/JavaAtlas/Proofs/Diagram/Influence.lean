import Mathlib.Algebra.Order.BigOperators.Group.List
import Mathlib.Algebra.Order.Group.Nat
import JavaAtlas.Proofs.Diagram.Answering
import JavaAtlas.Proofs.Source.Characters

/-!
# What contents influence a diagram

Which files a request asks for is told by the outline of the file system, as is whether
the walk over them breaks off, and the diagram by what these files hold.  Every file that
is asked for matters: with a content that declares more types, or fewer, the answer is
another one.

Main results:

- Theorem `document?_congr`: readers that agree on files make the same document.
- Theorem `answer_overwrite_ne`: another number of types in a file that is asked for
  makes another answer.
- Theorem `answer_eq_iff_locatedBelow`: contents outside of a location play no part if and
  only if the walk breaks off, or all files that are asked for are located below it or may
  not be read.
-/

namespace JavaAtlas.Diagram

open Config Source Storage FileSystem
open Text.Utf8 (Bytes)

/-! ## Readers that agree -/

theorem frailReader_congr {fs₁ fs₂ : FileSystem} {breakdowns : Breakdowns} {p : Path}
    (h : fs₁.read p = fs₂.read p) :
    frailReader fs₁ breakdowns p = frailReader fs₂ breakdowns p := by
  simp only [frailReader, plainReader, unitOfFile, h]

theorem hinderedReader_congr {fs₁ fs₂ : FileSystem} {h : Hindrances} {p : Path}
    (hread : fs₁.read p = fs₂.read p) : hinderedReader fs₁ h p = hinderedReader fs₂ h p := by
  simp only [hinderedReader, frailReader_congr hread]

section Readers

variable {reader₁ reader₂ : Reader} {files : List Path}

theorem contribution_congr {p : Path} (h : reader₁ p = reader₂ p) :
    contribution reader₁ p = contribution reader₂ p := by
  simp only [contribution, h]

theorem registryOf_congr (h : ∀ p ∈ files, reader₁ p = reader₂ p) :
    registryOf reader₁ files = registryOf reader₂ files := by
  have hnames : files.map (declaredNames reader₁) = files.map (declaredNames reader₂) := by
    refine List.map_congr_left fun p hp => ?_
    simp only [declaredNames, contribution_congr (h p hp)]
  rw [registryOf, registryOf, List.flatMap_def, List.flatMap_def, hnames]

/-- Readers that agree on files extract the same from them. -/
theorem extract_congr {known : Registry} (h : ∀ p ∈ files, reader₁ p = reader₂ p) :
    extract reader₁ known files = extract reader₂ known files := by
  have hextracts : files.map (extractOfFile reader₁ known) =
      files.map (extractOfFile reader₂ known) := by
    refine List.map_congr_left fun p hp => ?_
    simp only [extractOfFile, contribution_congr (h p hp)]
  rw [extract, extract, hextracts]

/-- Readers that agree on files make the same document of them. -/
theorem document?_congr {known : Registry} (h : ∀ p ∈ files, reader₁ p = reader₂ p) :
    document? reader₁ known files = document? reader₂ known files := by
  simp only [document?, extract_congr h]

end Readers

/-! ## Requests and outlines -/

/-- Which directories are accepted is told by the outline. -/
theorem validate_outline (fs : FileSystem) (s : DiagramSettings) (directory : String) :
    validate fs.outline s directory = validate fs s directory := by
  have hresolving : ∀ p, resolving fs.outline p = resolving fs p := fun p => by
    rw [resolving, resolving, resolve_outline]
  have hask : fs.outline.askDirectory = fs.askDirectory := funext askDirectory_outline
  simp only [validate, accept, allowedBase?, hresolving, hask]

/-- Which files are asked for is told by the outline. -/
theorem requestedFiles_outline (fs : FileSystem) (s : DiagramSettings) (l : Location) :
    requestedFiles fs.outline s l = requestedFiles fs s l :=
  sourceFiles_outline fs (pathOf l) s.sourceExtension

section Outlines

variable {fs₁ fs₂ : FileSystem} {s : DiagramSettings} {directory : String} {b l : Location}

theorem validate_congr_outline (h : fs₁.outline = fs₂.outline) :
    validate fs₁ s directory = validate fs₂ s directory := by
  rw [← validate_outline fs₁, h, validate_outline]

theorem requestedFiles_congr_outline (h : fs₁.outline = fs₂.outline) :
    requestedFiles fs₁ s l = requestedFiles fs₂ s l := by
  rw [← requestedFiles_outline fs₁, h, requestedFiles_outline]

theorem walkFault?_congr_outline {root : Path} {extension : String}
    (h : fs₁.outline = fs₂.outline) :
    walkFault? fs₁ root extension = walkFault? fs₂ root extension := by
  rw [← walkFault?_outline fs₁, h, walkFault?_outline]

/-- Requests for the same files, which are read alike, give the same diagram. -/
theorem diagramBelow_congr_readers {reader₁ reader₂ : Reader}
    (hfiles : requestedFiles fs₁ s l = requestedFiles fs₂ s l)
    (h : ∀ p ∈ requestedFiles fs₁ s l, reader₁ p = reader₂ p) :
    diagramBelow fs₁ reader₁ s l = diagramBelow fs₂ reader₂ s l := by
  have hregistry : registryBelow fs₁ reader₁ s l = registryBelow fs₂ reader₂ s l := by
    rw [registryBelow, registryBelow, ← hfiles, registryOf_congr h]
  rw [diagramBelow, diagramBelow, hregistry, ← hfiles, document?_congr h]

/-- The paths lead to places at the location or below it, or to files that may not be
read. -/
def LocatedBelow (fs : FileSystem) (b : Location) (files : List Path) : Prop :=
  ∀ p ∈ files, ∃ q, fs.locate true p = .ok q ∧ (fs.isHidden q = false → b <+: q)

/-- A file that may not be read is refused, whatever it holds. -/
theorem read_of_isHidden {fs : FileSystem} {p : Path} {q : Location}
    (hlocate : fs.locate true p = .ok q) (hfile : fs.isFile p = true)
    (hhidden : fs.isHidden q = true) : fs.read p = .error ⟨.permissionDenied, p.text⟩ := by
  obtain ⟨r, content, mode, hreach, hnode⟩ := exists_reach_of_isFile hfile
  cases (reach_eq_ok_iff.mp hreach).2.symm.trans hlocate
  simp only [FileSystem.read, hreach, hnode, hhidden, if_true]

theorem isHidden_congr_outline (h : fs₁.outline = fs₂.outline) (q : Location) :
    fs₁.isHidden q = fs₂.isHidden q := by
  rw [← isHidden_outline, h, isHidden_outline]

theorem isFile_congr_outline {p : Path} (h : fs₁.outline = fs₂.outline) :
    fs₁.isFile p = fs₂.isFile p := by
  rw [← isFile_outline, h, isFile_outline]

/-- File systems that have the same outline, and the same below a location, answer a
request alike if its walk breaks off, or all files that it asks for are located there or
may not be read. -/
theorem answerWith_eq_of_locatedBelow (hindrances : Hindrances)
    (houtline : fs₁.outline = fs₂.outline) (hagree : AgreeBelow b fs₁ fs₂)
    (h : validate fs₁ s directory = .ok l)
    (hlocated : walkFault? fs₁ (pathOf l) s.sourceExtension = none →
      LocatedBelow fs₁ b (requestedFiles fs₁ s l)) :
    answerWith fs₁ (hinderedReader fs₁ hindrances) s directory =
      answerWith fs₂ (hinderedReader fs₂ hindrances) s directory := by
  have h₂ : validate fs₂ s directory = .ok l := (validate_congr_outline houtline).symm.trans h
  rw [answerWith_eq _ h, answerWith_eq _ h₂, ← walkFault?_congr_outline houtline]
  cases hwalk : walkFault? fs₁ (pathOf l) s.sourceExtension with
  | some fault => rfl
  | none =>
      refine diagramBelow_congr_readers (requestedFiles_congr_outline houtline) fun p hp => ?_
      obtain ⟨q, hlocate, hq⟩ := hlocated hwalk p hp
      have hlocate₂ : fs₂.locate true p = .ok q := by
        rw [← locate_outline, ← houtline, locate_outline, hlocate]
      have hsame : fs₁.isHidden q = fs₂.isHidden q :=
        isHidden_congr_outline houtline q
      refine hinderedReader_congr ?_
      cases hhidden : fs₁.isHidden q with
      | false => exact read_congr_of_locate hlocate hlocate₂ (hagree q (hq hhidden)) hsame
      | true =>
          have hfile := isFile_of_mem_sourceFiles hp
          have hfile₂ := (isFile_congr_outline houtline).symm.trans hfile
          rw [read_of_isHidden hlocate hfile hhidden,
            read_of_isHidden hlocate₂ hfile₂ (hsame ▸ hhidden)]

end Outlines

/-! ## Numbers of types -/

/-- The number of types that a content declares. -/
def declarationCount (content : Bytes) : Nat :=
  (CompilationUnit.ofText .java "" (textOfFile content)).declarations.length

/-- The number of types that the file at a path declares. -/
def typeCount (fs : FileSystem) (p : Path) : Nat :=
  match fs.read p with
  | .ok content => declarationCount content
  | .error _ => 0

/-- A unit that is not valid declares nothing. -/
private theorem declarations_of_not_isValid {fs : FileSystem} {p : Path}
    (h : ¬ (unitOfFile fs .java "" p).isValid = true) :
    (unitOfFile fs .java "" p).declarations = [] := by
  unfold unitOfFile at h ⊢
  split at h
  case h_1 => rfl
  case h_2 content hread =>
    unfold CompilationUnit.ofText at h ⊢
    dsimp only at h ⊢
    split at h
    case h_1 => exact absurd rfl h
    case h_2 => rfl

private theorem length_declarations_unitOfFile (fs : FileSystem) (p : Path) :
    (unitOfFile fs .java "" p).declarations.length = typeCount fs p := by
  unfold unitOfFile typeCount declarationCount CompilationUnit.ofText
  cases fs.read p with
  | error fault => rfl
  | ok content =>
      dsimp only
      cases Java.read (textOfFile content) <;> rfl

/-- A file adds as many declarations as its content has types. -/
theorem length_declarations_extractOfFile (fs : FileSystem) (known : Registry) (p : Path) :
    (extractOfFile (plainReader fs) known p).declarations.length = typeCount fs p := by
  rw [← length_declarations_unitOfFile]
  unfold extractOfFile contribution plainReader
  by_cases hvalid : (unitOfFile fs .java "" p).isValid = true
  case pos =>
    simp only [hvalid, if_pos]
    rfl
  case neg =>
    rw [declarations_of_not_isValid hvalid]
    simp only [hvalid]
    rfl

/-- An answer has as many declarations as its files have types. -/
theorem exists_length_declarations {fs : FileSystem} {s : DiagramSettings}
    {directory : String} {l : Location} (h : validate fs s directory = .ok l)
    (hwalk : walkFault? fs (pathOf l) s.sourceExtension = none) :
    ∃ d, answer fs s directory = .ok d ∧
      d.declarations.length = ((requestedFiles fs s l).map (typeCount fs)).sum := by
  refine ⟨_, answerWith_eq_ok (readsCompletely_plainReader fs) h hwalk, ?_⟩
  rw [extractBelow, declarations_extract, List.length_flatMap]
  simp only [length_declarations_extractOfFile]

/-! ## Contents that matter -/

section Contents

variable {fs : FileSystem} {s : DiagramSettings} {directory : String} {b l q : Location}

/-- The number of types at a path is that of the file where access arrives, if that file may
be read. -/
theorem typeCount_of_reach {p : Path} {old : Bytes} {mode : Nat}
    (hreach : fs.reach true p = .ok q) (hnode : fs.node? q = some (.file old mode)) :
    typeCount fs p = if fs.isHidden q then 0 else declarationCount old := by
  cases hhidden : fs.isHidden q <;> simp [typeCount, FileSystem.read, hreach, hnode, hhidden]

/-- Overwriting a file that may be read changes the number of types at all paths that lead
there. -/
theorem typeCount_overwrite {p : Path} {content : Bytes} (h : fs.isFile p = true)
    (hread : fs.isHidden q = false) :
    typeCount (fs.overwrite q content) p =
      if fs.locate true p = .ok q then declarationCount content else typeCount fs p := by
  obtain ⟨r, old, mode, hreach, hnode⟩ := exists_reach_of_isFile h
  have hreach' : (fs.overwrite q content).reach true p = .ok r := by
    rw [← reach_outline, outline_overwrite, reach_outline, hreach]
  have hnode' : (fs.overwrite q content).node? r =
      some (.file (if r = q then content else old) mode) := by
    rw [node?_overwrite, hnode]
    split <;> rfl
  rw [typeCount_of_reach hreach' hnode', typeCount_of_reach hreach hnode,
    (reach_eq_ok_iff.mp hreach).2]
  change (if fs.isHidden r then _ else _) = _
  by_cases hr : r = q
  case pos => simp [hr, hread]
  case neg => simp [hr]

/-- Another number of types in a file that is asked for makes another answer. -/
theorem answer_overwrite_ne {p : Path} {content : Bytes}
    (h : validate fs s directory = .ok l)
    (hwalk : walkFault? fs (pathOf l) s.sourceExtension = none)
    (hp : p ∈ requestedFiles fs s l) (hlocate : fs.locate true p = .ok q)
    (hread : fs.isHidden q = false) (hcount : declarationCount content ≠ typeCount fs p) :
    answer (fs.overwrite q content) s directory ≠ answer fs s directory := by
  have houtline : (fs.overwrite q content).outline = fs.outline := outline_overwrite q content
  have h' : validate (fs.overwrite q content) s directory = .ok l :=
    (validate_congr_outline houtline).trans h
  have hwalk' : walkFault? (fs.overwrite q content) (pathOf l) s.sourceExtension = none :=
    (walkFault?_congr_outline houtline).trans hwalk
  have hfiles : requestedFiles (fs.overwrite q content) s l = requestedFiles fs s l :=
    requestedFiles_congr_outline houtline
  have hcounts : ∀ r ∈ requestedFiles fs s l, typeCount (fs.overwrite q content) r =
      if fs.locate true r = .ok q then declarationCount content else typeCount fs r :=
    fun r hr => typeCount_overwrite (isFile_of_mem_sourceFiles hr) hread
  -- all paths that lead to the file have lost the same number of types
  have hold : ∀ r ∈ requestedFiles fs s l, fs.locate true r = .ok q →
      typeCount fs r = typeCount fs p := by
    obtain ⟨q', old, mode, hp', hnode⟩ := exists_reach_of_isFile (isFile_of_mem_sourceFiles hp)
    obtain rfl := Except.ok.inj ((reach_eq_ok_iff.mp hp').2.symm.trans hlocate)
    intro r hr hthere
    obtain ⟨r', old', mode', hr', hnode'⟩ :=
      exists_reach_of_isFile (isFile_of_mem_sourceFiles hr)
    obtain rfl := Except.ok.inj ((reach_eq_ok_iff.mp hr').2.symm.trans hthere)
    rw [typeCount_of_reach hp' hnode, typeCount_of_reach hr' hnode]
  obtain ⟨d, hd, hlength⟩ := exists_length_declarations h hwalk
  obtain ⟨d', hd', hlength'⟩ := exists_length_declarations h' hwalk'
  rw [hfiles] at hlength'
  suffices hsums : ((requestedFiles fs s l).map (typeCount (fs.overwrite q content))).sum ≠
      ((requestedFiles fs s l).map (typeCount fs)).sum by
    intro heq
    obtain rfl := Except.ok.inj (hd'.symm.trans (heq.trans hd))
    exact hsums (hlength'.symm.trans hlength)
  rcases Nat.lt_or_gt_of_ne hcount with hless | hmore
  · refine (List.sum_lt_sum _ _ (fun r hr => ?_) ⟨p, hp, ?_⟩).ne
    · rw [hcounts r hr]
      split
      case isTrue hthere =>
        rw [hold r hr hthere]
        exact hless.le
      case isFalse => exact le_rfl
    · rw [hcounts p hp, if_pos hlocate]
      exact hless
  · refine (List.sum_lt_sum _ _ (fun r hr => ?_) ⟨p, hp, ?_⟩).ne'
    · rw [hcounts r hr]
      split
      case isTrue hthere =>
        rw [hold r hr hthere]
        exact hmore.le
      case isFalse => exact le_rfl
    · rw [hcounts p hp, if_pos hlocate]
      exact hmore

/-- There is a content with another number of types than a given one. -/
theorem exists_declarationCount_ne (n : Nat) : ∃ content, declarationCount content ≠ n := by
  have hnone : declarationCount [] = 0 := rfl
  have hone : declarationCount (Text.Utf8.encode "class A {}") = 1 := by
    have htext : "class A {}" = String.ofList _ := rfl
    rw [declarationCount, textOfFile_encode (by decide), htext, CompilationUnit.ofText_ofList]
    decide +kernel
  rcases Nat.eq_zero_or_pos n with rfl | hpos
  · exact ⟨_, hone.trans_ne Nat.one_ne_zero⟩
  · exact ⟨_, hnone.trans_ne hpos.ne⟩

/-- Contents outside of a location play no part in the answer to a request if and only
if its walk breaks off, or all files that it asks for are located there or below or may not
be read. -/
theorem answer_eq_iff_locatedBelow (h : validate fs s directory = .ok l) :
    (∀ fs' : FileSystem, fs'.outline = fs.outline → AgreeBelow b fs fs' →
        answer fs' s directory = answer fs s directory) ↔
      (walkFault? fs (pathOf l) s.sourceExtension = none →
        LocatedBelow fs b (requestedFiles fs s l)) := by
  constructor
  · intro hsame hwalk p hp
    obtain ⟨q, content, mode, hreach, hnode⟩ :=
      exists_reach_of_isFile (isFile_of_mem_sourceFiles hp)
    have hlocate := (reach_eq_ok_iff.mp hreach).2
    refine ⟨q, hlocate, fun hread => ?_⟩
    by_contra hq
    obtain ⟨other, hcount⟩ := exists_declarationCount_ne (typeCount fs p)
    refine answer_overwrite_ne h hwalk hp hlocate hread hcount
      (hsame _ (outline_overwrite q other) ?_)
    intro r hr
    have hne : r ≠ q := by
      rintro rfl
      exact hq hr
    rw [node?_overwrite, if_neg hne]
  · intro hlocated fs' houtline hagree
    exact (answerWith_eq_of_locatedBelow {} houtline.symm hagree h hlocated).symm

end Contents

end JavaAtlas.Diagram
