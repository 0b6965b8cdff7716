import JavaAtlas.Proofs.Diagram.Influence
import JavaAtlas.Proofs.Storage.Asking
import JavaAtlas.Proofs.Storage.Resolution

/-!
# Confinement to the allowed base

A request below the allowed base asks for nothing outside of it, with two
exceptions: a link that is named like a source file is followed, and a path on which
not all links could be followed is accepted with links left in it.  Where neither leads
out, two file systems that agree below the base answer alike.

Main definitions:

- `AlikeBelowBase`: file systems that agree below the base, and in what leads out of it.
- `LinksStay`: no link that is named like a source file leads out of the base.

Main results:

- Theorem `AlikeBelowBase.validate_eq`: requests are accepted alike, or refused alike.
- Theorem `AlikeBelowBase.answerWith_eq`: so they are answered alike.
- Theorem `LinksStay.requestedLinksAgree`: links that do not lead out make no difference.
- Theorem `answer_confined`: nothing outside the base plays a part; the contents there do
  exactly if the walk does not break off and a file that is asked for is located there.
- Theorem `answer_link_leaks`, theorem `answer_loop_leaks`: both exceptions do let files
  outside in.
-/

namespace JavaAtlas.Diagram

open Config Source Storage FileSystem

/-! ## File systems that agree below the base -/

/-- If resolving the text does not follow all links on its way, as in a loop, and gives a
location below the base, no links are left in that. -/
def LeavesNoLink (fs : FileSystem) (b : Location) (directory : String) : Prop :=
  ¬ fs.FollowsAll (Path.ofText directory) →
    ∀ l, b <+: l → fs.resolve (Path.ofText directory) = .ok l → fs.Settled l

/-- The links that are named like source files, below what a request resolves to below the
base, lead alike in both file systems. -/
def RequestedLinksAgree (fs₁ fs₂ : FileSystem) (s : DiagramSettings) (b : Location)
    (directory : String) : Prop :=
  ∀ l, b <+: l → resolving fs₁ (Path.ofText directory) = .ok l →
    LinksAgree fs₁ fs₂ (candidates fs₁ (pathOf l) s.sourceExtension)

/-- Two file systems agree below the base and on how the base and a request resolve, and
neither a link that is left nor a link that is named like a source file makes a
difference. -/
structure AlikeBelowBase (fs₁ fs₂ : FileSystem) (s : DiagramSettings) (b : Location)
    (directory : String) : Prop where
  sound₁ : fs₁.Sound
  sound₂ : fs₂.Sound
  base₁ : allowedBase? fs₁ s = .ok (some b)
  base₂ : allowedBase? fs₂ s = .ok (some b)
  /-- The base can be looked up, as far as its names go; one that exists can. -/
  short : ∀ n ∈ b, isOverlong n = false
  place : resolving fs₁ (Path.ofText directory) = resolving fs₂ (Path.ofText directory)
  agree : AgreeBelow b fs₁ fs₂
  left₁ : LeavesNoLink fs₁ b directory
  left₂ : LeavesNoLink fs₂ b directory
  links : RequestedLinksAgree fs₁ fs₂ s b directory

section Congruence

variable {fs₁ fs₂ : FileSystem} {b l : Location}

/-- Below the base the same locations lead to directories. -/
theorem isDirectory_congr (hs₁ : fs₁.Sound) (hs₂ : fs₂.Sound) (hagree : AgreeBelow b fs₁ fs₂)
    (hl : b <+: l) (hl₁ : fs₁.Settled l) (hl₂ : fs₂.Settled l) :
    fs₁.isDirectory (pathOf l) = fs₂.isDirectory (pathOf l) := by
  rw [Bool.eq_iff_iff, hs₁.isDirectory_pathOf hl₁, hs₂.isDirectory_pathOf hl₂, hagree l hl]

/-- A name that is too long on the way to a location below the base stands below the base
itself, where the same directories are. -/
theorem meetsOverlong_of_agreeBelow (hagree : AgreeBelow b fs₁ fs₂)
    (hshort : ∀ n ∈ b, isOverlong n = false) (hl : b <+: l) (h : fs₁.MeetsOverlong l) :
    fs₂.MeetsOverlong l := by
  obtain ⟨q, n, rest, rfl, hdirectory, hlong⟩ := h
  have hbase : b <+: q := by
    rcases List.prefix_or_prefix_of_prefix hl (List.prefix_append q (n :: rest)) with hb | hq
    · exact hb
    · obtain ⟨names, rfl⟩ := hq
      have hnames : names <+: n :: rest := (List.prefix_append_right_inj q).mp hl
      cases names with
      | nil => simp
      | cons m names =>
          obtain ⟨rfl, -⟩ := List.cons_prefix_cons.mp hnames
          cases hlong.symm.trans (hshort m (by simp))
  exact ⟨q, n, rest, rfl, (hagree q hbase).symm.trans hdirectory, hlong⟩

/-- Below the base it can be told of the same locations whether they lead to directories. -/
theorem askDirectory_eq_of_agreeBelow (hs₁ : fs₁.Sound) (hs₂ : fs₂.Sound)
    (hagree : AgreeBelow b fs₁ fs₂) (hshort : ∀ n ∈ b, isOverlong n = false) (hl : b <+: l)
    (hl₁ : fs₁.Settled l) (hl₂ : fs₂.Settled l) :
    fs₁.askDirectory (pathOf l) = fs₂.askDirectory (pathOf l) := by
  refine hs₁.askDirectory_congr hs₂ (isDirectory_congr hs₁ hs₂ hagree hl hl₁ hl₂) ?_
  rw [hs₁.nodeAt_pathOf_eq_nameTooLong_iff hl₁, hs₂.nodeAt_pathOf_eq_nameTooLong_iff hl₂]
  exact ⟨meetsOverlong_of_agreeBelow hagree hshort hl,
    meetsOverlong_of_agreeBelow (fun q hq => (hagree q hq).symm) hshort hl⟩

/-- The file systems agree on the way to a base that is a directory, too. -/
theorem node?_eq_of_agreeBelow {q : Location} (hs₁ : fs₁.Formed) (hs₂ : fs₂.Formed)
    (hagree : AgreeBelow b fs₁ fs₂) (hb : fs₁.node? b = some .directory)
    (hq : q <+: b ∨ b <+: q) : fs₁.node? q = fs₂.node? q := by
  rcases hq with ⟨rest, rfl⟩ | hq
  · have hsame := hagree _ List.prefix_rfl
    have hb₂ := hsame.symm.trans hb
    cases rest with
    | nil => simpa using hsame
    | cons n rest =>
        have hsome₁ : fs₁.node? (q ++ n :: rest) ≠ none := by simp [hb]
        have hsome₂ : fs₂.node? (q ++ n :: rest) ≠ none := by simp [hb₂]
        rw [hs₁.directory_above hsome₁, hs₂.directory_above hsome₂]
  · exact hagree q hq

end Congruence

/-! ## Links that do not lead out -/

/-- To follow the links that are named like source files, below what a request resolves to
below the base, access asks for nothing beside the base. -/
def LinksStay (fs : FileSystem) (s : DiagramSettings) (b : Location) (directory : String) :
    Prop :=
  ∀ l, b <+: l → resolving fs (Path.ofText directory) = .ok l →
    ∀ r, pathOf r ∈ candidates fs (pathOf l) s.sourceExtension → fs.IsLink r →
      ∀ q ∈ fs.asked (pathOf r), q <+: b ∨ b <+: q

/-- Links that do not lead out of the base lead alike in file systems that agree below it. -/
theorem LinksStay.requestedLinksAgree {fs₁ fs₂ : FileSystem} {s : DiagramSettings} {b : Location}
    {directory : String} (h : LinksStay fs₁ s b directory) (hs₁ : fs₁.Sound) (hs₂ : fs₂.Sound)
    (hagree : AgreeBelow b fs₁ fs₂) (hb : fs₁.node? b = some .directory) :
    RequestedLinksAgree fs₁ fs₂ s b directory := by
  intro l hl hplace r hr hlink
  have hclosed : ∀ q, fs₁.isClosed q = fs₂.isClosed q := fun q => by
    rw [hs₁.isClosed_eq, hs₂.isClosed_eq]
  have hhidden : ∀ q, fs₁.isHidden q = fs₂.isHidden q := fun q => by
    rw [hs₁.isHidden_eq, hs₂.isHidden_eq]
  have hasked : ∀ q ∈ fs₁.asked (pathOf r), fs₁.node? q = fs₂.node? q := fun q hq =>
    node?_eq_of_agreeBelow hs₁.toFormed hs₂.toFormed hagree hb (h l hl hplace r hr hlink q hq)
  constructor
  · rw [read_eq_of_asked hclosed hhidden rfl hasked]
  · rw [statusFault?, statusFault?, status_eq_of_asked hclosed rfl hasked]

/-- With a base, what is accepted lies below it. -/
theorem of_validate_eq_ok {fs : FileSystem} {s : DiagramSettings} {directory : String}
    {b l : Location} (hbase : allowedBase? fs s = .ok (some b))
    (h : validate fs s directory = .ok l) :
    resolving fs (Path.ofText directory) = .ok l ∧ b <+: l := by
  obtain ⟨-, -, base, hplaced, hwithin⟩ := validate_eq_ok_iff.mp h
  obtain rfl := Except.ok.inj (hplaced.base.symm.trans hbase)
  exact ⟨hplaced.place, hwithin b rfl⟩

/-- What a request resolves to below the base holds no links, if it leaves none. -/
theorem settled_of_resolving {fs : FileSystem} {b l : Location} {directory : String}
    (hs : fs.Formed) (hleft : LeavesNoLink fs b directory) (hl : b <+: l)
    (h : resolving fs (Path.ofText directory) = .ok l) : fs.Settled l := by
  have hresolve := (resolving_eq_ok_iff.mp h).2
  by_cases hall : fs.FollowsAll (Path.ofText directory)
  case pos => exact hs.settled_of_resolve hall hresolve
  case neg => exact hleft hall l hl hresolve

namespace AlikeBelowBase

variable {fs₁ fs₂ : FileSystem} {s : DiagramSettings} {b l : Location} {directory : String}

/-- What a request resolves to below the base holds no links. -/
theorem settled (h : AlikeBelowBase fs₁ fs₂ s b directory) (hl : b <+: l)
    (hplace : resolving fs₁ (Path.ofText directory) = .ok l) :
    fs₁.Settled l ∧ fs₂.Settled l :=
  ⟨settled_of_resolving h.sound₁.toFormed h.left₁ hl hplace,
    settled_of_resolving h.sound₂.toFormed h.left₂ hl (h.place ▸ hplace)⟩

/-- Requests are accepted alike, or refused alike. -/
theorem validate_eq (h : AlikeBelowBase fs₁ fs₂ s b directory) :
    validate fs₁ s directory = validate fs₂ s directory := by
  cases hplace : resolving fs₁ (Path.ofText directory) with
  | error e => simp only [validate, ← h.place, hplace, bind, Except.bind]
  | ok l =>
      cases hblank : Text.isBlankText directory with
      | true => rw [validate_of_blank hblank, validate_of_blank hblank]
      | false =>
          have hplaced₁ : Placed fs₁ s directory (some b) l := ⟨hplace, h.base₁⟩
          have hplaced₂ : Placed fs₂ s directory (some b) l := ⟨h.place ▸ hplace, h.base₂⟩
          rw [hplaced₁.validate_eq hblank, hplaced₂.validate_eq hblank]
          by_cases hl : b.isPrefixOf l = true
          case neg => simp only [hl, Bool.false_eq_true, if_false]
          case pos =>
            have hprefix := List.isPrefixOf_iff_prefix.mp hl
            obtain ⟨hl₁, hl₂⟩ := h.settled hprefix hplace
            have hask := askDirectory_eq_of_agreeBelow h.sound₁ h.sound₂ h.agree h.short hprefix
              hl₁ hl₂
            simp only [accept, hask]

/-- Walks over the files of an accepted request go alike. -/
theorem walkedAlike (h : AlikeBelowBase fs₁ fs₂ s b directory)
    (hvalid : validate fs₁ s directory = .ok l) :
    WalkedAlike fs₁ fs₂ l s.sourceExtension := by
  obtain ⟨hplace, hl⟩ := of_validate_eq_ok h.base₁ hvalid
  have hdirectory := isDirectory_of_validate hvalid
  rw [h.sound₁.isDirectory_pathOf (h.settled hl hplace).1] at hdirectory
  exact
    { sound₁ := h.sound₁
      sound₂ := h.sound₂
      directory := hdirectory.2
      agree := h.agree.of_prefix hl
      links := h.links l hl hplace }

/-- Requests are answered alike, whatever keeps files from being read. -/
theorem answerWith_eq (h : AlikeBelowBase fs₁ fs₂ s b directory) (hindrances : Hindrances) :
    answerWith fs₁ (hinderedReader fs₁ hindrances) s directory =
      answerWith fs₂ (hinderedReader fs₂ hindrances) s directory := by
  cases hvalid : validate fs₁ s directory with
  | error e => simp only [answerWith, ← h.validate_eq, hvalid, bind, Except.bind]
  | ok l =>
      have hwalked := h.walkedAlike hvalid
      rw [Diagram.answerWith_eq _ hvalid, Diagram.answerWith_eq _ (h.validate_eq ▸ hvalid),
        ← hwalked.walkFault?_eq,
        diagramBelow_congr_readers hwalked.sourceFiles_eq fun p hp =>
          hinderedReader_congr (hwalked.read_eq p hp)]

end AlikeBelowBase

/-- With a base, the answer to a request is the same in every file system that agrees
with this one below the base and on how both resolve, if no link that is left and no link
that is named like a source file makes a difference.  The contents outside of the base play
no part exactly if the walk of an accepted request breaks off, or all files that it asks for
are located below the base or may not be read. -/
theorem answer_confined (fs : FileSystem) (s : DiagramSettings) (b : Location)
    (directory : String) :
    (∀ (hindrances : Hindrances) (fs' : FileSystem), AlikeBelowBase fs fs' s b directory →
        answerWith fs (hinderedReader fs hindrances) s directory =
          answerWith fs' (hinderedReader fs' hindrances) s directory) ∧
    ∀ l, validate fs s directory = .ok l →
      ((∀ fs' : FileSystem, fs'.outline = fs.outline → AgreeBelow b fs fs' →
          answer fs' s directory = answer fs s directory) ↔
        (walkFault? fs (pathOf l) s.sourceExtension = none →
          LocatedBelow fs b (requestedFiles fs s l))) :=
  ⟨fun hindrances _ h => h.answerWith_eq hindrances, fun _ h => answer_eq_iff_locatedBelow h⟩

/-! ## What lets files outside in -/

/-- A base with entries below it, and a file beside the base. -/
def besideBase (below : List (Location × Node)) (outside : String) : FileSystem where
  entries := ((["base"], .directory) :: below) ++
    [(["outside"], .directory), (["outside", "Secret.java"], .file (Text.Utf8.encode outside) 420)]
  workingDirectory := []

/-- Requests must stay inside the base. -/
def insideBase : DiagramSettings := { allowedBase := some "/base" }

/-- File systems that differ beside the base agree below it. -/
theorem agreeBelow_besideBase (below : List (Location × Node)) (text₁ text₂ : String) :
    AgreeBelow ["base"] (besideBase below text₁) (besideBase below text₂) := by
  rintro q ⟨rest, rfl⟩
  simp [node?, besideBase, List.lookup_append, List.lookup_cons]

/-- A link to a source file that stays below the base. -/
def innerLink : List (Location × Node) :=
  [(["base", "B.java"], .file (Text.Utf8.encode "class B \x7b\x7d") 420),
    (["base", "src"], .directory), (["base", "src", "A.java"], .link "../B.java")]

private theorem sound_innerLink (outside : String) : (besideBase innerLink outside).Sound := by
  refine sound_of_entries rfl ?_
  simp [besideBase, innerLink, node?, List.lookup_cons, IsEntryName, Path.isName]
  decide

private theorem candidates_innerLink (outside : String) :
    candidates (besideBase innerLink outside) (pathOf ["base", "src"]) ".java" =
      [pathOf ["base", "src", "A.java"]] := by
  have hnames : listedNames (besideBase innerLink outside) ["base", "src"] = ["A.java"] :=
    listedNames_eq rfl rfl (by decide)
  have hdepth : depthBound (besideBase innerLink outside) = 4 := by rfl
  rw [candidates_pathOf (sound_innerLink outside) (by decide) rfl, hdepth]
  exact candidatesBelow_succ_eq ["A.java"] [] hnames rfl rfl

private theorem linksStay_innerLink (outside : String) :
    LinksStay (besideBase innerLink outside) insideBase ["base"] "/base/src" := by
  intro l _ hl r hr _ q hq
  have hplace : resolving (besideBase innerLink outside) (Path.ofText "/base/src") =
      .ok ["base", "src"] := rfl
  obtain rfl := Except.ok.inj (hplace.symm.trans hl)
  have hcandidate : pathOf r ∈ [pathOf ["base", "src", "A.java"]] :=
    candidates_innerLink outside ▸ hr
  have hasked : (besideBase innerLink outside).asked (pathOf ["base", "src", "A.java"]) =
      [[], ["base"], ["base"], ["base", "src"], ["base", "src"], ["base", "src", "A.java"],
        ["base", "src"], ["base"], ["base", "B.java"], ["base", "B.java"]] := rfl
  rw [List.mem_singleton.mp hcandidate, hasked] at hq
  revert q
  decide

private theorem alike_innerLink (outside₁ outside₂ : String) :
    AlikeBelowBase (besideBase innerLink outside₁) (besideBase innerLink outside₂) insideBase
      ["base"] "/base/src" := by
  have hall : ∀ outside, (besideBase innerLink outside).FollowsAll (Path.ofText "/base/src") :=
    fun _ => ⟨⟨.root, ["base", "src"]⟩, rfl⟩
  exact
    { sound₁ := sound_innerLink _
      sound₂ := sound_innerLink _
      base₁ := rfl
      base₂ := rfl
      short := by decide
      place := rfl
      agree := agreeBelow_besideBase _ _ _
      left₁ := fun h => absurd (hall _) h
      left₂ := fun h => absurd (hall _) h
      links := (linksStay_innerLink _).requestedLinksAgree (sound_innerLink _)
        (sound_innerLink _) (agreeBelow_besideBase _ _ _) rfl }

/-- A link that stays below the base lets nothing in. -/
theorem answer_confined_innerLink :
    let fs₁ := besideBase innerLink "class C \x7b\x7d"
    let fs₂ := besideBase innerLink "class D \x7b\x7d"
    AlikeBelowBase fs₁ fs₂ insideBase ["base"] "/base/src" ∧
      answerWith fs₁ (hinderedReader fs₁ {}) insideBase "/base/src" =
        answerWith fs₂ (hinderedReader fs₂ {}) insideBase "/base/src" ∧
      validate fs₁ insideBase "/base/src" = .ok ["base", "src"] ∧
      ∀ fs' : FileSystem, fs'.outline = fs₁.outline → AgreeBelow ["base"] fs₁ fs' →
        answer fs' insideBase "/base/src" = answer fs₁ insideBase "/base/src" := by
  intro fs₁ fs₂
  have halike : AlikeBelowBase fs₁ fs₂ insideBase ["base"] "/base/src" := alike_innerLink _ _
  have hvalid : validate fs₁ insideBase "/base/src" = .ok ["base", "src"] := by rfl
  obtain ⟨hsame, hexact⟩ := answer_confined fs₁ insideBase ["base"] "/base/src"
  refine ⟨halike, hsame {} fs₂ halike, hvalid, (hexact _ hvalid).mpr fun _ p hp => ?_⟩
  have hcandidate : p ∈ [pathOf ["base", "src", "A.java"]] := by
    rw [requestedFiles, sourceFiles_eq_filter] at hp
    exact candidates_innerLink _ ▸ (List.mem_filter.mp hp).1
  rw [List.mem_singleton.mp hcandidate]
  exact ⟨["base", "B.java"], rfl, fun _ => ⟨["B.java"], rfl⟩⟩

/-- Answers with different texts are different. -/
private theorem ne_of_text_ne {a b : Except RequestError Document}
    (h : a.toOption.map (·.text) ≠ b.toOption.map (·.text)) : a ≠ b := by
  rintro rfl
  exact h rfl

/-- A link that is named like a source file lets the file in that it leads to. -/
theorem answer_link_leaks :
    let below : List (Location × Node) :=
      [(["base", "src"], .directory),
        (["base", "src", "Leak.java"], .link "../../outside/Secret.java")]
    let fs₁ := besideBase below "class A \x7b\x7d"
    let fs₂ := besideBase below "class B \x7b\x7d"
    allowedBase? fs₁ insideBase = .ok (some ["base"]) ∧
      allowedBase? fs₂ insideBase = .ok (some ["base"]) ∧
      resolving fs₁ (Path.ofText "/base/src") = .ok ["base", "src"] ∧
      resolving fs₂ (Path.ofText "/base/src") = .ok ["base", "src"] ∧
      AgreeBelow ["base"] fs₁ fs₂ ∧
      answer fs₁ insideBase "/base/src" ≠ answer fs₂ insideBase "/base/src" := by
  intro below fs₁ fs₂
  have hleak : answer fs₁ insideBase "/base/src" ≠ answer fs₂ insideBase "/base/src" :=
    ne_of_text_ne (by decide +kernel)
  exact ⟨rfl, rfl, rfl, rfl, agreeBelow_besideBase _ _ _, hleak⟩

/-- A path through a loop of links is resolved to a link that is not followed, and so
lets the directory in that it leads to. -/
theorem answer_loop_leaks :
    let below : List (Location × Node) :=
      [(["base", "loop"], .link "loop"), (["base", "out"], .link "../outside")]
    let fs₁ := besideBase below "class A \x7b\x7d"
    let fs₂ := besideBase below "class B \x7b\x7d"
    allowedBase? fs₁ insideBase = .ok (some ["base"]) ∧
      allowedBase? fs₂ insideBase = .ok (some ["base"]) ∧
      resolving fs₁ (Path.ofText "/base/loop/../out") = .ok ["base", "out"] ∧
      resolving fs₂ (Path.ofText "/base/loop/../out") = .ok ["base", "out"] ∧
      AgreeBelow ["base"] fs₁ fs₂ ∧
      answer fs₁ insideBase "/base/loop/../out" ≠
        answer fs₂ insideBase "/base/loop/../out" := by
  intro below fs₁ fs₂
  have hleak : answer fs₁ insideBase "/base/loop/../out" ≠
      answer fs₂ insideBase "/base/loop/../out" :=
    ne_of_text_ne (by decide +kernel)
  exact ⟨rfl, rfl, rfl, rfl, agreeBelow_besideBase _ _ _, hleak⟩

end JavaAtlas.Diagram
