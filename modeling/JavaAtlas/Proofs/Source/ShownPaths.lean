import JavaAtlas.Proofs.Storage.PathText
import JavaAtlas.Source.Reader

/-!
# Paths as they are shown

A unit shows the path of its file as seen from the root of a project: what follows the
text of the root, without slashes at the front.  For a file below the root this is the
relative path, which leads from the root to the file again.  A path that is not below the
root should be shown as it is, and is so unless the text of the root happens to end inside
one of its names.

Main definitions:

- `rootText`: the root of a project as it may be written.

Main results:

- Theorem `exists_unitOfPath`: a unit and its problems show one path.
- Theorem `shownPath_exact`: which path is shown.
- Theorem `shownPath_beside`: a root that is the beginning of the name of another
  directory.
-/

namespace JavaAtlas.Source

open Storage FileSystem
open Storage.Path (IsPlain IsAbove EndsInside front joined slashed)

/-! ## What is shown -/

section

variable {root path : String}

/-- A path that does not begin with the text of the root is shown as it is. -/
theorem shownPath_eq_self (h : ¬ root.toList <+: path.toList) :
    shownPath root path = path := by
  have hprefix : root.toList.isPrefixOf path.toList = false := by
    rw [Bool.eq_false_iff]
    exact fun hp => h (List.isPrefixOf_iff_prefix.mp hp)
  rw [shownPath, hprefix, Bool.and_false, if_neg Bool.false_ne_true]

/-- Of a path that begins with the text of the root, the rest is shown. -/
theorem shownPath_eq_drop (hne : root ≠ "") (more : List Char)
    (h : path.toList = root.toList ++ more) :
    shownPath root path = String.ofList (more.dropWhile (· == '/')) := by
  have hprefix : root.toList.isPrefixOf path.toList = true :=
    List.isPrefixOf_iff_prefix.mpr ⟨more, h.symm⟩
  have hroot : (root != "") = true := by simpa using hne
  rw [shownPath, hprefix, hroot, Bool.and_self, if_pos rfl, h, ← String.length_toList,
    List.drop_left]

/-- A path that begins with the text of the root is not shown as it is. -/
theorem shownPath_ne_self (hne : root ≠ "") (h : root.toList <+: path.toList) :
    shownPath root path ≠ path := by
  obtain ⟨more, hmore⟩ := h
  rw [shownPath_eq_drop hne more hmore.symm]
  intro heq
  have hlength := congrArg (fun t : String => t.toList.length) heq
  have hdrop : (more.dropWhile (· == '/')).length ≤ more.length :=
    (List.dropWhile_sublist _).length_le
  have hpos : 0 < root.toList.length := by
    rw [List.length_pos_iff]
    simpa using hne
  simp only [String.toList_ofList, ← hmore, List.length_append] at hlength
  omega

end

/-- A unit that could not be made shows a path in its problem, too. -/
theorem shown_of_broken (language : Language) (shown : String) (lines : Nat) (cause : Cause) :
    let u := CompilationUnit.broken language shown lines cause
    u.path = shown ∧ ∀ problem ∈ u.problems, problem.path = shown := by
  refine ⟨rfl, fun problem hproblem => ?_⟩
  rw [List.mem_singleton.mp hproblem]

/-- A unit shows the path of its file, and so do its problems. -/
theorem shown_of_unitOfFile (fs : FileSystem) (language : Language) (root : String) (p : Path) :
    let u := unitOfFile fs language root p
    u.path = shownPath root p.text ∧
      ∀ problem ∈ u.problems, problem.path = shownPath root p.text := by
  intro u
  unfold u unitOfFile
  dsimp only
  split
  case h_1 fault hread => exact shown_of_broken _ _ _ _
  case h_2 content hread =>
    unfold CompilationUnit.ofText
    dsimp only
    split
    case h_1 tree htree => exact ⟨rfl, List.forall_mem_nil _⟩
    case h_2 fault hfault => exact shown_of_broken _ _ _ _

/-- A path that tells its language and holds no null character has a unit, which shows that
path, and so do its problems. -/
theorem exists_unitOfPath {path : String} {language : Language}
    (h : Language.ofPath? path = some language) (hnull : holdsNull path = false)
    (fs : FileSystem) (root : String) :
    ∃ u, unitOfPath fs root path = .ok u ∧ u.path = shownPath root path ∧
      ∀ problem ∈ u.problems, problem.path = shownPath root path := by
  have hlanguage : Language.choose path none = .ok language := by
    rw [Language.choose, h]
    rfl
  have hshown := shown_of_unitOfFile fs language root (Path.asWritten path)
  rw [Path.text_asWritten] at hshown
  rw [unitOfPath, hlanguage, hnull]
  exact ⟨_, rfl, hshown⟩

/-! ## Roots -/

/-- The root of a project as it may be written, with a slash behind it or not. -/
def rootText (root : Path) (slash : Bool) : String :=
  if slash then root.text ++ "/" else root.text

section

variable {root path : Path} {slash : Bool} (hroot : root.IsPlain) (hpath : path.IsPlain)
  (hrootne : root ≠ ⟨.here, []⟩) (hslash : slash = true → root.names ≠ [])

include hroot hrootne hslash

/-- The text of the root is read as the root. -/
theorem ofText_rootText : Path.ofText (rootText root slash) = root := by
  cases slash with
  | false => exact hroot.ofText_text
  | true =>
      refine hroot.ofText_eq (.inr ⟨rfl, hslash rfl⟩) ?_
      rw [rootText, if_pos rfl, String.toList_append, Path.toList_text hrootne]
      simp

omit hroot in
/-- With a slash behind it the text of the root is what begins all paths below it. -/
theorem front_eq_or :
    (front root = (rootText root slash).toList ∧ (slash = true ∨ root.names = [])) ∨
      (front root = (rootText root slash).toList ++ ['/'] ∧ slash = false ∧ root.names ≠ []) := by
  rw [front]
  by_cases hnames : root.names = []
  case pos =>
    obtain rfl : slash = false := by
      cases slash with
      | false => rfl
      | true => exact absurd hnames (hslash rfl)
    refine .inl ⟨?_, .inr hnames⟩
    rw [rootText, if_neg Bool.false_ne_true, Path.toList_text hrootne, hnames]
    simp
  case neg =>
    rw [Path.slashed_eq hnames, ← List.append_assoc, ← Path.toList_text hrootne]
    cases slash with
    | true =>
        refine .inl ⟨?_, .inl rfl⟩
        rw [rootText, if_pos rfl, String.toList_append]
        simp
    | false => exact .inr ⟨rfl, rfl, hnames⟩

theorem rootText_ne : rootText root slash ≠ "" := by
  intro h
  have hread := ofText_rootText hroot hrootne hslash
  rw [h] at hread
  exact hrootne hread.symm

include hpath

/-- A file below the root is shown by its relative path, which leads from the root to the
file. -/
theorem shownPath_of_isAbove {n : String} {rest : List String}
    (hanchor : root.anchor = path.anchor) (hnames : path.names = root.names ++ n :: rest) :
    shownPath (rootText root slash) path.text = (⟨.here, n :: rest⟩ : Path).text ∧
      (Path.ofText (rootText root slash)).join
        (Path.ofText (shownPath (rootText root slash) path.text)) = path := by
  have hbelow : ∀ m ∈ n :: rest, IsEntryName m ∧ '/' ∉ m.toList := fun m hm =>
    hpath.names m (by rw [hnames]; exact List.mem_append_right _ hm)
  have hplain : (⟨.here, n :: rest⟩ : Path).IsPlain := ⟨nofun, hbelow⟩
  obtain ⟨c, cs, hjoined, hc⟩ := Path.exists_joined_cons (List.cons_ne_nil n rest) hbelow
  have hdrop : (joined (n :: rest)).dropWhile (· == '/') = joined (n :: rest) := by
    rw [hjoined, List.dropWhile_cons_of_neg (by simpa using hc)]
  have htext := Path.toList_text_below hanchor hnames
  have hshown : shownPath (rootText root slash) path.text = (⟨.here, n :: rest⟩ : Path).text := by
    have hrelative : (⟨.here, n :: rest⟩ : Path).text = String.ofList (joined (n :: rest)) := by
      rw [← String.toList_inj, String.toList_ofList, Path.toList_text (by simp)]
      rfl
    have hne := rootText_ne hroot hrootne hslash
    rw [hrelative]
    rcases front_eq_or hrootne hslash with ⟨hfront, -⟩ | ⟨hfront, -⟩
    · rw [shownPath_eq_drop hne (joined (n :: rest)) (by rw [htext, hfront]), hdrop]
    · rw [shownPath_eq_drop hne ('/' :: joined (n :: rest))
        (by rw [htext, hfront]; simp), List.dropWhile_cons_of_pos (by decide), hdrop]
  refine ⟨hshown, ?_⟩
  rw [hshown, ofText_rootText hroot hrootne hslash, hplain.ofText_text]
  change (⟨root.anchor, root.names ++ n :: rest⟩ : Path) = path
  rw [hanchor, ← hnames]

/-- A file that is not below the root is shown by its path unless the text of the root
ends inside a name of it. -/
theorem shownPath_of_not_isAbove (hne : path.names ≠ []) (habove : ¬ IsAbove root path) :
    shownPath (rootText root slash) path.text = path.text ↔
      ¬ (slash = false ∧ EndsInside root path) := by
  have hprefix : (rootText root slash).toList <+: path.text.toList ↔
      slash = false ∧ EndsInside root path := by
    rcases front_eq_or hrootne hslash with ⟨hfront, hends⟩ | ⟨-, rfl, hnames⟩
    · rw [← hfront, Path.front_prefix_iff hroot hpath hne hrootne]
      refine iff_of_false habove ?_
      rintro ⟨rfl, -, above, m, n, rest, hm, -⟩
      rcases hends with hfalse | hnames
      · cases hfalse
      · simp [hnames] at hm
    · rw [rootText, if_neg Bool.false_ne_true, Path.text_prefix_iff hroot hpath hne hnames]
      simp [habove]
  rw [← hprefix]
  refine ⟨fun heq hp => ?_, shownPath_eq_self⟩
  exact shownPath_ne_self (rootText_ne hroot hrootne hslash) hp heq

end

/-- For plain paths of a root and a file whose language is known and whose path holds no null
character, there is a unit, and this and all its problems show one path.  A file below the
root is shown by its relative path, which leads from the root to the file again.  Any other
file is shown by its own path exactly if the root is written with a slash behind it or does
not end inside a name of the file. -/
theorem shownPath_exact {root path : Path} (slash : Bool) (hroot : root.IsPlain)
    (hpath : path.IsPlain) (hne : path.names ≠ []) (hrootne : root ≠ ⟨.here, []⟩)
    (hslash : slash = true → root.names ≠ []) :
    let text := rootText root slash
    let shown := shownPath text path.text
    (∀ fs language, Language.ofPath? path.text = some language → holdsNull path.text = false →
      ∃ u, unitOfPath fs text path.text = .ok u ∧ u.path = shown ∧
        ∀ problem ∈ u.problems, problem.path = shown) ∧
    (∀ n rest, root.anchor = path.anchor → path.names = root.names ++ n :: rest →
      shown = (⟨.here, n :: rest⟩ : Path).text ∧
        (Path.ofText text).join (Path.ofText shown) = path) ∧
    (¬ IsAbove root path →
      (shown = path.text ↔ ¬ (slash = false ∧ EndsInside root path))) :=
  ⟨fun fs _ hlanguage hnull => exists_unitOfPath hlanguage hnull fs _,
    fun _ _ => shownPath_of_isAbove hroot hpath hrootne hslash,
    shownPath_of_not_isAbove hroot hpath hrootne hslash hne⟩

/-- A file below its root, and one beside a root that is written with a slash. -/
theorem shownPath_exact_siblings :
    shownPath "/w/src" "/w/src/main/A.java" = "main/A.java" ∧
      (Path.ofText "/w/src").join (Path.ofText "main/A.java") =
        ⟨.root, ["w", "src", "main", "A.java"]⟩ ∧
      shownPath "/w/src/ma/" "/w/src/main/A.java" = "/w/src/main/A.java" := by
  let path : Path := ⟨.root, ["w", "src", "main", "A.java"]⟩
  have hpath : path.IsPlain := ⟨nofun, by decide⟩
  have hroot : (⟨.root, ["w", "src"]⟩ : Path).IsPlain := ⟨nofun, by decide⟩
  have hbeside : (⟨.root, ["w", "src", "ma"]⟩ : Path).IsPlain := ⟨nofun, by decide⟩
  obtain ⟨-, hbelow, -⟩ := shownPath_exact false hroot hpath (by simp [path])
    (by decide) nofun
  obtain ⟨-, -, hother⟩ := shownPath_exact true hbeside hpath (by simp [path])
    (by decide) (fun _ => by simp)
  obtain ⟨hshown, hjoin⟩ := hbelow "main" ["A.java"] rfl rfl
  have hnot : ¬ IsAbove ⟨.root, ["w", "src", "ma"]⟩ path := by
    rintro ⟨-, n, rest, hnames⟩
    simp [path] at hnames
  rw [hshown] at hjoin
  exact ⟨hshown, hjoin, (hother hnot).mpr nofun⟩

/-! ## Roots beside the file -/

/-- A directory with one source file. -/
def mainTree : FileSystem where
  entries := [(["src"], .directory), (["src", "main"], .directory),
    (["src", "main", "A.java"], .file [] 420)]
  workingDirectory := []

/-- A root whose text is the beginning of the name of another directory: a piece of that
name is shown, and it does not lead from the root to the file. -/
theorem shownPath_beside :
    ¬ IsAbove (Path.ofText "src/ma") (Path.ofText "src/main/A.java") ∧
      (∃ u, unitOfPath mainTree "src/ma" "src/main/A.java" = .ok u ∧ u.path = "in/A.java") ∧
      (Path.ofText "src/ma").join (Path.ofText "in/A.java") ≠ Path.ofText "src/main/A.java" := by
  have hroot : Path.ofText "src/ma" = ⟨.here, ["src", "ma"]⟩ := by decide
  have hpath : Path.ofText "src/main/A.java" = ⟨.here, ["src", "main", "A.java"]⟩ := by decide
  refine ⟨?_, ?_, by decide⟩
  · rw [hroot, hpath]
    rintro ⟨-, n, rest, hnames⟩
    simp at hnames
  · have hlanguage : Language.ofPath? "src/main/A.java" = some .java := by decide +kernel
    obtain ⟨u, hu, hshown, -⟩ := exists_unitOfPath hlanguage (by decide) mainTree "src/ma"
    refine ⟨u, hu, hshown.trans ?_⟩
    decide

end JavaAtlas.Source
