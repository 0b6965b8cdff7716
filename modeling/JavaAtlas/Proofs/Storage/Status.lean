import JavaAtlas.Proofs.Storage.Access

/-!
# What can be told of paths

Asking for the kind of a path has three answers.  It stays open where something is too
long or a directory is closed; every other path either leads to a node of that kind or
does not.

Main results:

- Theorem `ask_eq_ok_true_iff`, theorem `ask_eq_error_iff`: the answers.
- Theorem `Sound.askFile_eq_ok_true_iff`: the files are what can be read.
- Theorem `Sound.ask_of_isOverlong`: the answer stays open for a name that is too long.
- Theorem `Sound.nodeAt_pathOf_eq_nameTooLong_iff`: on the way to a settled location that
  is a name below a directory.
-/

namespace JavaAtlas.Storage.FileSystem

variable {fs : FileSystem} {kind : Node → Bool} {p : Path}

/-- The path leads to a node of the kind. -/
theorem ask_eq_ok_true_iff :
    fs.ask kind p = .ok true ↔ ∃ n, fs.status p = .ok n ∧ kind n = true := by
  unfold ask
  cases hstatus : fs.status p with
  | ok n => simp
  | error e => cases he : e.isAbsence <;> simp [he]

/-- Only a path that is refused leaves the answer open. -/
theorem ask_eq_error_iff {f : FileFault} :
    fs.ask kind p = .error f ↔
      ∃ e, fs.status p = .error e ∧ e.isAbsence = false ∧ f = ⟨e, p.text⟩ := by
  unfold ask
  cases fs.status p with
  | ok n => simp
  | error e => cases he : e.isAbsence <;> simp [@eq_comm _ f, he]

/-- Where everything is allowed, only something that is too long leaves it open. -/
theorem Sound.ask_eq_error_iff (hs : fs.Sound) {f : FileFault} :
    fs.ask kind p = .error f ↔
      fs.status p = .error .nameTooLong ∧ f = ⟨.nameTooLong, p.text⟩ := by
  rw [FileSystem.ask_eq_error_iff]
  constructor
  · rintro ⟨e, hstatus, hopen, rfl⟩
    rcases hs.isAbsence_or_nameTooLong_of_status hstatus with habsent | rfl
    · cases hopen.symm.trans habsent
    · exact ⟨hstatus, rfl⟩
  · rintro ⟨hstatus, rfl⟩
    exact ⟨_, hstatus, rfl, rfl⟩

/-! ## Files -/

theorem askFile_eq_ok_true_iff : fs.askFile p = .ok true ↔ fs.isFile p = true := by
  rw [askFile, ask_eq_ok_true_iff, isFile_iff]
  constructor
  · rintro ⟨n, hstatus, hkind⟩
    cases n with
    | file content mode => exact ⟨content, mode, hstatus⟩
    | directory => cases hkind
    | link target => cases hkind
  · rintro ⟨content, mode, hstatus⟩
    exact ⟨_, hstatus, rfl⟩

/-- Where everything is allowed, the files whose status can be told are what can be read. -/
theorem Sound.askFile_eq_ok_true_iff (hs : fs.Sound) :
    fs.askFile p = .ok true ↔ ∃ content, fs.read p = .ok content := by
  rw [FileSystem.askFile_eq_ok_true_iff, hs.isFile_eq_isSome_read]
  cases fs.read p <;> simp [Except.toOption]

/-- A path that is known to lead to no file cannot be read. -/
theorem read_ne_ok_of_askFile (h : fs.askFile p = .ok false) (content : Text.Utf8.Bytes) :
    fs.read p ≠ .ok content := by
  intro hread
  have htrue := FileSystem.askFile_eq_ok_true_iff.mpr (isFile_of_read hread)
  rw [h] at htrue
  cases htrue

/-- The directories whose status can be told. -/
theorem askDirectory_eq_ok_true_iff : fs.askDirectory p = .ok true ↔ fs.isDirectory p = true := by
  rw [askDirectory, ask_eq_ok_true_iff, isDirectory_iff]
  constructor
  · rintro ⟨n, hstatus, hkind⟩
    cases n with
    | directory => exact hstatus
    | file content mode => cases hkind
    | link target => cases hkind
  · exact fun hstatus => ⟨_, hstatus, rfl⟩

theorem status_eq_nameTooLong_iff :
    fs.status p = .error .nameTooLong ↔
      isOverlongPath p = true ∨ fs.nodeAt p = .error .nameTooLong := by
  unfold status
  cases isOverlongPath p <;> simp

/-- Where a path leads to a directory in both file systems or in neither, and meets a name
that is too long in both or in neither, the answers are the same. -/
theorem Sound.askDirectory_congr {fs' : FileSystem} (hs : fs.Sound) (hs' : fs'.Sound)
    (hdirectory : fs.isDirectory p = fs'.isDirectory p)
    (hlong : fs.nodeAt p = .error .nameTooLong ↔ fs'.nodeAt p = .error .nameTooLong) :
    fs.askDirectory p = fs'.askDirectory p := by
  have htrue : fs.askDirectory p = .ok true ↔ fs'.askDirectory p = .ok true := by
    rw [askDirectory_eq_ok_true_iff, askDirectory_eq_ok_true_iff, hdirectory]
  have herror : ∀ f, fs.askDirectory p = .error f ↔ fs'.askDirectory p = .error f := fun f => by
    rw [askDirectory, askDirectory, hs.ask_eq_error_iff, hs'.ask_eq_error_iff,
      status_eq_nameTooLong_iff, status_eq_nameTooLong_iff, hlong]
  cases hask : fs.askDirectory p with
  | error f => exact ((herror f).mp hask).symm
  | ok answer =>
      cases answer with
      | true => exact (htrue.mp hask).symm
      | false =>
          cases hask' : fs'.askDirectory p with
          | error f => cases hask.symm.trans ((herror f).mpr hask')
          | ok answer' =>
              cases answer' with
              | false => rfl
              | true => cases hask.symm.trans (htrue.mpr hask')

/-! ## Names that are too long -/

section

variable {n : String}

theorem isEntryName_of_isOverlong (h : isOverlong n = true) : IsEntryName n := by
  have hshort : isOverlong "" = false ∧ isOverlong "." = false ∧ isOverlong ".." = false := by
    decide
  refine ⟨?_, ?_⟩
  · rw [Path.isName, Bool.and_eq_true, bne_iff_ne, bne_iff_ne]
    constructor
    · rintro rfl
      exact Bool.false_ne_true (hshort.1.symm.trans h)
    · rintro rfl
      exact Bool.false_ne_true (hshort.2.1.symm.trans h)
  · rintro rfl
    exact Bool.false_ne_true (hshort.2.2.symm.trans h)

/-- Entering a directory and then a name that is too long fails with that fault, whatever
follows, by induction on the names of the directory. -/
theorem Sound.enter_of_isOverlong {last : Bool}
    {jump : Location → List String → Except FileError Location} {l : Location}
    {names following : List String} (hs : fs.Sound)
    (hdirectory : fs.node? (l ++ names) = some .directory) (h : isOverlong n = true) :
    fs.enter last jump l (names ++ n :: following) = .error .nameTooLong := by
  induction names generalizing l with
  | nil =>
      obtain ⟨hname, hup⟩ := isEntryName_of_isOverlong h
      rw [List.append_nil] at hdirectory
      rw [List.nil_append, enter, hdirectory]
      simp only [hs.isClosed_eq, Bool.and_false, Bool.false_eq_true, if_false, hname, if_true,
        if_neg hup, h]
  | cons m rest ih =>
      have hassoc : l ++ m :: rest = l ++ [m] ++ rest := by simp
      obtain ⟨⟨hname, hup⟩, hlink⟩ := hs.settled hdirectory l m ⟨rest, hassoc.symm⟩
      have hsome : fs.node? (l ++ m :: rest) ≠ none := by simp [hdirectory]
      have hshort : isOverlong m = false := hs.short l m (hs.exists_above (hassoc ▸ hsome))
      rw [List.cons_append, enter, hs.directory_above hsome]
      simp only [hs.isClosed_eq, Bool.and_false, Bool.false_eq_true, if_false, hname, if_true,
        if_neg hup, hshort]
      split
      case h_1 target hnode => exact absurd ⟨target, hnode⟩ hlink
      case h_2 => exact ih (hassoc ▸ hdirectory)

/-- Access to a name that is too long fails with that fault. -/
theorem Sound.locate_of_isOverlong {last : Bool} (hs : fs.Sound) (h : isOverlong n = true) :
    fs.locate last ⟨.here, [n]⟩ = .error .nameTooLong := by
  have hne : (⟨.here, [n]⟩ : Path) ≠ ⟨.here, [""]⟩ := by
    rintro heq
    simp only [Path.mk.injEq, List.cons.injEq, and_true, true_and] at heq
    have hname := (isEntryName_of_isOverlong h).1
    rw [heq] at hname
    cases hname
  have hdirectory : fs.node? (fs.workingDirectory ++ []) = some .directory := by
    rw [List.append_nil, hs.working]
  rw [locate, if_neg hne]
  exact hs.enter_of_isOverlong hdirectory h

theorem Sound.nodeAt_of_isOverlong (hs : fs.Sound) (h : isOverlong n = true) :
    fs.nodeAt ⟨.here, [n]⟩ = .error .nameTooLong := by
  rw [nodeAt, hs.locate_of_isOverlong h]
  rfl

/-- The same of a path from the root, whatever follows the name. -/
theorem Sound.nodeAt_pathOf_of_isOverlong {l following : Location} (hs : fs.Sound)
    (hdirectory : fs.node? l = some .directory) (h : isOverlong n = true) :
    fs.nodeAt (pathOf (l ++ n :: following)) = .error .nameTooLong := by
  have hlocate : fs.locate true (pathOf (l ++ n :: following)) = .error .nameTooLong := by
    rw [locate, if_neg (pathOf_ne _)]
    exact hs.enter_of_isOverlong (l := []) hdirectory h
  rw [nodeAt, hlocate]
  rfl

theorem Sound.status_pathOf_of_isOverlong {l following : Location} (hs : fs.Sound)
    (hdirectory : fs.node? l = some .directory) (h : isOverlong n = true) :
    fs.status (pathOf (l ++ n :: following)) = .error .nameTooLong := by
  rw [status, hs.nodeAt_pathOf_of_isOverlong hdirectory h, ite_self]

theorem Sound.isDirectory_of_isOverlong {l : Location} (hs : fs.Sound)
    (hdirectory : fs.node? l = some .directory) (h : isOverlong n = true) :
    fs.isDirectory (pathOf (l ++ [n])) = false := by
  rw [isDirectory, hs.status_pathOf_of_isOverlong hdirectory h]

/-- It cannot be told what a name leads to that is too long. -/
theorem Sound.ask_of_isOverlong (hs : fs.Sound) (h : isOverlong n = true) :
    fs.ask kind ⟨.here, [n]⟩ = .error ⟨.nameTooLong, (⟨.here, [n]⟩ : Path).text⟩ := by
  refine hs.ask_eq_error_iff.mpr ⟨?_, rfl⟩
  rw [status, hs.nodeAt_of_isOverlong h, ite_self]

end

/-! ## Names that are too long on the way to a settled location -/

/-- A name that is too long stands directly below a directory on the way to the location. -/
def MeetsOverlong (fs : FileSystem) (l : Location) : Prop :=
  ∃ q n rest, l = q ++ n :: rest ∧ fs.node? q = some .directory ∧ isOverlong n = true

/-- Entering a settled location fails with that fault only at a name that is too long below
a directory. -/
theorem meetsOverlong_of_enter {last : Bool}
    {jump : Location → List String → Except FileError Location} {l : Location}
    {names : List String} (hl : fs.Settled (l ++ names))
    (h : fs.enter last jump l names = .error .nameTooLong) : fs.MeetsOverlong (l ++ names) := by
  induction names generalizing l with
  | nil => cases h
  | cons n rest ih =>
      have hassoc : l ++ n :: rest = l ++ [n] ++ rest := by simp
      obtain ⟨⟨hname, hup⟩, hlink⟩ := hl l n ⟨rest, hassoc.symm⟩
      unfold enter at h
      split at h
      case h_1 => cases h
      case h_3 => cases h
      case h_2 hdirectory =>
        split at h
        case isTrue => cases h
        case isFalse =>
          split at h
          case isTrue hlong => exact ⟨l, n, rest, rfl, hdirectory, hlong⟩
          case isFalse =>
            split at h
            case h_1 target hnode => exact absurd ⟨target, hnode⟩ hlink
            case h_2 =>
              rw [hassoc] at hl ⊢
              exact ih hl h

/-- Access to a settled location meets a name that is too long exactly if one stands below a
directory on the way there. -/
theorem Sound.nodeAt_pathOf_eq_nameTooLong_iff {l : Location} (hs : fs.Sound)
    (hl : fs.Settled l) : fs.nodeAt (pathOf l) = .error .nameTooLong ↔ fs.MeetsOverlong l := by
  constructor
  · intro h
    rcases locate_of_nodeAt_error h with hlocate | habsent
    · rw [locate, if_neg (by simp [pathOf])] at hlocate
      exact meetsOverlong_of_enter (l := []) hl hlocate
    · cases habsent
  · rintro ⟨q, n, rest, rfl, hdirectory, hlong⟩
    exact hs.nodeAt_pathOf_of_isOverlong hdirectory hlong

end JavaAtlas.Storage.FileSystem
