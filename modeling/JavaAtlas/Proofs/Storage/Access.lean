import Mathlib.Data.List.Induction
import JavaAtlas.Storage.FileSystem

/-!
# Access to settled locations

A location is settled if no link stands on the way to it.  Access to a settled location
asks only for the nodes on the way: it arrives there or nowhere.  A path that can be told
leads to a node or nowhere; what a path leads to stays open where something is too long
or where a directory is closed on the way.

Main definitions:

- `Formed`, `Sound`: file systems whose entries stand in directories, with restrictions and
  without.
- `Settled`, `OpensTo`: locations without links on the way, and names behind no closed
  directory.
- `Tells`: paths of which it can be told what they lead to.

Main results:

- Theorem `eq_of_locate_pathOf`: access to a settled location arrives there, if it
  arrives at all.
- Theorem `Formed.enter_eq_ok`: entering an entry that is no link arrives there, if no
  directory on the way is closed.
- Theorem `isAbsence_or_refused_of_status`: the errors of access.
- Theorem `LinksShort.tells`: short paths over short names can be told, if no link leads over
  a name that is too long.
-/

namespace JavaAtlas.Storage.FileSystem

variable {fs : FileSystem}

/-! ## Sound file systems -/

/-- The name of an entry: it says something and does not lead to the parent. -/
def IsEntryName (n : String) : Prop :=
  Path.isName n = true ∧ n ≠ ".."

instance (n : String) : Decidable (IsEntryName n) :=
  inferInstanceAs (Decidable (_ ∧ _))

/-- Every entry stands in a directory under a name for entries that can be looked up,
and the working directory is there. -/
structure Formed (fs : FileSystem) : Prop where
  parent : ∀ l n, fs.node? (l ++ [n]) ≠ none → fs.node? l = some .directory
  name : ∀ l n, fs.node? (l ++ [n]) ≠ none → IsEntryName n
  short : ∀ l n, fs.node? (l ++ [n]) ≠ none → isOverlong n = false
  working : fs.node? fs.workingDirectory = some .directory

/-- A formed file system in which everything is allowed: all directories may be entered and
listed, all files read and written. -/
structure Sound (fs : FileSystem) : Prop extends Formed fs where
  unrestricted : fs.restrictions = {}

/-- The node at the location is a link. -/
def IsLink (fs : FileSystem) (l : Location) : Prop :=
  ∃ target, fs.node? l = some (.link target)

/-- Names of entries lead to the location, and no link stands on the way. -/
def Settled (fs : FileSystem) (l : Location) : Prop :=
  ∀ q n, q ++ [n] <+: l → IsEntryName n ∧ ¬ fs.IsLink (q ++ [n])

@[simp]
theorem node?_nil : fs.node? [] = some .directory := rfl

@[simp]
theorem pathOf_inj {l r : Location} : pathOf l = pathOf r ↔ l = r := by
  simp [pathOf]

/-- Something is stored at a location below another one exactly if it is an entry. -/
theorem node?_ne_none_iff {l : Location} {n : String} :
    fs.node? (l ++ [n]) ≠ none ↔ ∃ e ∈ fs.entries, e.1 = l ++ [n] := by
  have hne : l ++ [n] ≠ [] := by simp
  rw [node?, if_neg hne, ← Option.isSome_iff_ne_none, List.lookup_isSome_iff]
  simp only [beq_iff_eq]
  exact exists_congr fun e => and_congr_right fun _ => eq_comm

theorem settled_nil : fs.Settled [] := by
  intro q n h
  have hlength := h.length_le
  simp at hlength

theorem Settled.of_prefix {l q : Location} (h : fs.Settled l) (hq : q <+: l) : fs.Settled q :=
  fun r n hr => h r n (hr.trans hq)

theorem Settled.snoc {l : Location} {n : String} (h : fs.Settled l) (hname : IsEntryName n)
    (hlink : ¬ fs.IsLink (l ++ [n])) : fs.Settled (l ++ [n]) := by
  intro q m hq
  rcases List.prefix_concat_iff.mp hq with heq | hq
  · obtain ⟨rfl, rfl⟩ := List.append_singleton_inj.mp heq
    exact ⟨hname, hlink⟩
  · exact h q m hq

theorem not_isLink_of_directory {l : Location} (h : fs.node? l = some .directory) :
    ¬ fs.IsLink l := by
  rintro ⟨target, hlink⟩
  cases h.symm.trans hlink

theorem not_isLink_of_none {l : Location} (h : fs.node? l = none) : ¬ fs.IsLink l := by
  rintro ⟨target, hlink⟩
  cases h.symm.trans hlink

/-- A file system is formed if its entries stand in directories, under names for entries. -/
theorem formed_of_entries (hworking : fs.node? fs.workingDirectory = some .directory)
    (h : ∀ e ∈ fs.entries, fs.node? e.1.dropLast = some .directory ∧
      ∀ n ∈ e.1.getLast?, IsEntryName n ∧ isOverlong n = false) : fs.Formed := by
  refine ⟨fun l n hnode => ?_, fun l n hnode => ?_, fun l n hnode => ?_, hworking⟩
  · obtain ⟨e, he, heq⟩ := node?_ne_none_iff.mp hnode
    have hparent := (h e he).1
    rwa [heq, List.dropLast_concat] at hparent
  · obtain ⟨e, he, heq⟩ := node?_ne_none_iff.mp hnode
    exact ((h e he).2 n (by simp [heq])).1
  · obtain ⟨e, he, heq⟩ := node?_ne_none_iff.mp hnode
    exact ((h e he).2 n (by simp [heq])).2

/-- It is sound if, besides, everything is allowed. -/
theorem sound_of_entries (hworking : fs.node? fs.workingDirectory = some .directory)
    (h : ∀ e ∈ fs.entries, fs.node? e.1.dropLast = some .directory ∧
      ∀ n ∈ e.1.getLast?, IsEntryName n ∧ isOverlong n = false)
    (hunrestricted : fs.restrictions = {} := by rfl) : fs.Sound :=
  { formed_of_entries hworking h with unrestricted := hunrestricted }

/-- A directory is settled. -/
theorem Formed.settled {l : Location} (hs : fs.Formed) (h : fs.node? l = some .directory) :
    fs.Settled l := by
  induction l using List.reverseRecOn with
  | nil => exact settled_nil
  | append_singleton l n ih =>
      have hsome : fs.node? (l ++ [n]) ≠ none := by simp [h]
      exact (ih (hs.parent l n hsome)).snoc (hs.name l n hsome) (not_isLink_of_directory h)

/-- An entry that is no link is settled. -/
theorem Formed.settled_of_not_isLink {l : Location} {node : Node} (hs : fs.Formed)
    (h : fs.node? l = some node) (hlink : ¬ fs.IsLink l) : fs.Settled l := by
  induction l using List.reverseRecOn with
  | nil => exact settled_nil
  | append_singleton l n _ =>
      have hsome : fs.node? (l ++ [n]) ≠ none := by simp [h]
      exact (hs.settled (hs.parent l n hsome)).snoc (hs.name l n hsome) hlink

/-- What stands above an entry is a directory. -/
theorem Formed.directory_above {l rest : Location} {n : String} (hs : fs.Formed)
    (h : fs.node? (l ++ n :: rest) ≠ none) : fs.node? l = some .directory := by
  induction rest using List.reverseRecOn with
  | nil => exact hs.parent l n h
  | append_singleton rest m ih =>
      have hassoc : l ++ n :: (rest ++ [m]) = (l ++ n :: rest) ++ [m] := by simp
      rw [hassoc] at h
      have hparent := hs.parent _ m h
      exact ih (by simp [hparent])

theorem Formed.exists_above {l rest : Location} (hs : fs.Formed)
    (h : fs.node? (l ++ rest) ≠ none) : fs.node? l ≠ none := by
  cases rest with
  | nil => rwa [List.append_nil] at h
  | cons n rest => simp [hs.directory_above h]

/-! ## What is allowed -/

section

variable {l : Location}

theorem Sound.isClosed_eq (hs : fs.Sound) (l : Location) : fs.isClosed l = false := by
  simp [isClosed, hs.unrestricted]

theorem Sound.isHidden_eq (hs : fs.Sound) (l : Location) : fs.isHidden l = false := by
  simp [isHidden, hs.unrestricted]

theorem Sound.isFixed_eq (hs : fs.Sound) (l : Location) : fs.isFixed l = false := by
  simp [isFixed, hs.unrestricted]

end

/-- No directory is closed in which one of the names is looked up, from a location on. -/
def OpensTo (fs : FileSystem) : Location → List String → Prop
  | _, [] => True
  | l, n :: rest => fs.isClosed l = false ∧ fs.OpensTo (l ++ [n]) rest

theorem Sound.opensTo (hs : fs.Sound) (l : Location) (names : List String) :
    fs.OpensTo l names := by
  induction names generalizing l with
  | nil => exact trivial
  | cons n rest ih => exact ⟨hs.isClosed_eq l, ih _⟩

/-! ## Access -/

/-- Entering a settled location arrives there, if it arrives at all. -/
theorem eq_of_enter {last : Bool} {jump : Location → List String → Except FileError Location}
    {l q : Location} {names : List String} (hl : fs.Settled (l ++ names))
    (h : fs.enter last jump l names = .ok q) : q = l ++ names := by
  induction names generalizing l with
  | nil =>
      cases h
      simp
  | cons n rest ih =>
      have hassoc : l ++ n :: rest = l ++ [n] ++ rest := by simp
      obtain ⟨⟨hname, hup⟩, hlink⟩ := hl l n ⟨rest, hassoc.symm⟩
      unfold enter at h
      split at h
      case h_1 => cases h
      case h_3 => cases h
      case h_2 =>
        split at h
        case isTrue => cases h
        case isFalse =>
          split at h
          case isTrue => cases h
          case isFalse =>
            split at h
            case h_1 target hnode => exact absurd ⟨target, hnode⟩ hlink
            case h_2 =>
              rw [hassoc] at hl ⊢
              exact ih hl h

theorem pathOf_ne (l : Location) : pathOf l ≠ ⟨.here, [""]⟩ := by
  simp [pathOf]

/-- Access to a settled location arrives there, if it arrives at all. -/
theorem eq_of_locate_pathOf {last : Bool} {l q : Location} (hl : fs.Settled l)
    (h : fs.locate last (pathOf l) = .ok q) : q = l := by
  rw [locate, if_neg (pathOf_ne l)] at h
  exact eq_of_enter (l := []) hl h

/-- Entering an entry that is no link arrives there, behind no closed directory. -/
theorem Formed.enter_eq_ok {last : Bool}
    {jump : Location → List String → Except FileError Location} {l : Location}
    {names : List String} {node : Node} (hs : fs.Formed) (hopen : fs.OpensTo l names)
    (h : fs.node? (l ++ names) = some node) (hlink : ¬ fs.IsLink (l ++ names)) :
    fs.enter last jump l names = .ok (l ++ names) := by
  induction names generalizing l with
  | nil => simp [enter]
  | cons n rest ih =>
      obtain ⟨hl, hrest⟩ := hopen
      have hassoc : l ++ n :: rest = l ++ [n] ++ rest := by simp
      have hsettled := hs.settled_of_not_isLink h hlink
      obtain ⟨⟨hname, hup⟩, hnolink⟩ := hsettled l n ⟨rest, hassoc.symm⟩
      have hsome : fs.node? (l ++ n :: rest) ≠ none := by simp [h]
      have hdirectory := hs.directory_above hsome
      have hshort : isOverlong n = false := hs.short l n (hs.exists_above (hassoc ▸ hsome))
      unfold enter
      rw [hdirectory]
      simp only [hl, Bool.and_false, Bool.false_eq_true, if_false, hname, if_true, if_neg hup,
        hshort]
      rw [hassoc] at h hlink ⊢
      split
      case h_1 target hnode => exact absurd ⟨target, hnode⟩ hnolink
      case h_2 => exact ih hrest h hlink

/-- Access to an entry that is no link arrives there. -/
theorem Sound.locate_pathOf {l : Location} {node : Node} (hs : fs.Sound)
    (h : fs.node? l = some node) (hlink : ¬ fs.IsLink l) :
    fs.locate true (pathOf l) = .ok l := by
  rw [locate, if_neg (pathOf_ne l)]
  exact hs.enter_eq_ok (l := []) (hs.opensTo [] l) h hlink

theorem child_pathOf (l : Location) (n : String) : (pathOf l).child n = pathOf (l ++ [n]) := rfl

/-- A path leads to the node that stands where access ends. -/
theorem nodeAt_eq_ok_iff {p : Path} {node : Node} :
    fs.nodeAt p = .ok node ↔ ∃ l, fs.locate true p = .ok l ∧ fs.node? l = some node := by
  unfold nodeAt
  cases fs.locate true p with
  | error e => simp [bind, Except.bind]
  | ok l => cases hnode : fs.node? l <;> simp [bind, Except.bind, hnode]

/-- A path leads to no node because access fails, or ends at a free place. -/
theorem locate_of_nodeAt_error {p : Path} {e : FileError} (h : fs.nodeAt p = .error e) :
    fs.locate true p = .error e ∨ e = .notFound := by
  unfold nodeAt at h
  cases hlocate : fs.locate true p with
  | error e' =>
      obtain rfl : e' = e := by simpa [hlocate, bind, Except.bind] using h
      exact .inl rfl
  | ok l =>
      cases hnode : fs.node? l with
      | some node => simp [hlocate, hnode, bind, Except.bind] at h
      | none =>
          obtain rfl : .notFound = e := by simpa [hlocate, hnode, bind, Except.bind] using h
          exact .inr rfl

/-- Access to an entry that is no link gives its node. -/
theorem Sound.nodeAt_pathOf {l : Location} {node : Node} (hs : fs.Sound)
    (h : fs.node? l = some node) (hlink : ¬ fs.IsLink l) : fs.nodeAt (pathOf l) = .ok node :=
  nodeAt_eq_ok_iff.mpr ⟨l, hs.locate_pathOf h hlink, h⟩

/-! ## Paths that can be looked up -/

section

variable {p : Path} {last : Bool} {q : Location} {n : Node}

theorem reach_eq_ok_iff :
    fs.reach last p = .ok q ↔ isOverlongPath p = false ∧ fs.locate last p = .ok q := by
  unfold reach
  cases isOverlongPath p <;> simp

theorem status_eq_ok_iff :
    fs.status p = .ok n ↔ isOverlongPath p = false ∧ fs.nodeAt p = .ok n := by
  unfold status
  cases isOverlongPath p <;> simp

/-- A short path is looked up. -/
theorem status_of_short (h : isOverlongPath p = false) : fs.status p = fs.nodeAt p := by
  rw [status, h, if_neg Bool.false_ne_true]

theorem reach_of_short (h : isOverlongPath p = false) : fs.reach last p = fs.locate last p := by
  rw [reach, h, if_neg Bool.false_ne_true]

theorem isDirectory_iff : fs.isDirectory p = true ↔ fs.status p = .ok .directory := by
  unfold isDirectory
  split
  case h_1 h => simp [h]
  case h_2 h => simpa using h

/-- A settled location that leads to a directory is that of a directory. -/
theorem Settled.directory_of_isDirectory {l : Location} (hl : fs.Settled l)
    (h : fs.isDirectory (pathOf l) = true) : fs.node? l = some .directory := by
  obtain ⟨q, hlocate, hq⟩ := nodeAt_eq_ok_iff.mp (status_eq_ok_iff.mp (isDirectory_iff.mp h)).2
  obtain rfl := eq_of_locate_pathOf hl hlocate
  exact hq

/-- A settled location leads to a directory exactly if a directory stands there and its path
is short. -/
theorem Sound.isDirectory_pathOf {l : Location} (hs : fs.Sound) (hl : fs.Settled l) :
    fs.isDirectory (pathOf l) = true ↔
      isOverlongPath (pathOf l) = false ∧ fs.node? l = some .directory := by
  constructor
  · intro h
    exact ⟨(status_eq_ok_iff.mp (isDirectory_iff.mp h)).1, hl.directory_of_isDirectory h⟩
  · rintro ⟨hshort, h⟩
    have hnode := hs.nodeAt_pathOf h (not_isLink_of_directory h)
    exact isDirectory_iff.mpr (status_eq_ok_iff.mpr ⟨hshort, hnode⟩)

/-! ## Files -/

theorem isFile_iff :
    fs.isFile p = true ↔ ∃ content mode, fs.status p = .ok (.file content mode) := by
  unfold isFile
  split
  case h_1 content mode h => simp [h]
  case h_2 h => simpa using h

/-- What can be read is a file that is not hidden. -/
theorem read_eq_ok_iff {content : Text.Utf8.Bytes} :
    fs.read p = .ok content ↔
      ∃ l mode, fs.reach true p = .ok l ∧ fs.node? l = some (.file content mode) ∧
        fs.isHidden l = false := by
  unfold read
  cases hreach : fs.reach true p with
  | error e => simp
  | ok l =>
      cases hnode : fs.node? l with
      | none => simp [hnode]
      | some n =>
          cases hhidden : fs.isHidden l with
          | true => simp [hnode, hhidden]
          | false => cases n <;> simp [hnode, hhidden, and_comm]

theorem isFile_of_read {content : Text.Utf8.Bytes} (h : fs.read p = .ok content) :
    fs.isFile p = true := by
  obtain ⟨l, mode, hreach, hnode, -⟩ := read_eq_ok_iff.mp h
  obtain ⟨hshort, hlocate⟩ := reach_eq_ok_iff.mp hreach
  exact isFile_iff.mpr
    ⟨content, mode, status_eq_ok_iff.mpr ⟨hshort, nodeAt_eq_ok_iff.mpr ⟨l, hlocate, hnode⟩⟩⟩

/-- Where no file is hidden, a path to a file can be read. -/
theorem exists_read_of_isFile (hhidden : ∀ l, fs.isHidden l = false) (h : fs.isFile p = true) :
    ∃ content, fs.read p = .ok content := by
  obtain ⟨content, mode, hstatus⟩ := isFile_iff.mp h
  obtain ⟨hshort, hnodeAt⟩ := status_eq_ok_iff.mp hstatus
  obtain ⟨l, hlocate, hnode⟩ := nodeAt_eq_ok_iff.mp hnodeAt
  exact ⟨content, read_eq_ok_iff.mpr
    ⟨l, mode, reach_eq_ok_iff.mpr ⟨hshort, hlocate⟩, hnode, hhidden l⟩⟩

/-- Where everything is allowed, a path leads to a file exactly if it can be read. -/
theorem Sound.isFile_eq_isSome_read (hs : fs.Sound) (p : Path) :
    fs.isFile p = (fs.read p).toOption.isSome := by
  rw [Bool.eq_iff_iff]
  constructor
  · intro h
    obtain ⟨content, hread⟩ := exists_read_of_isFile hs.isHidden_eq h
    rw [hread]
    rfl
  · intro h
    cases hread : fs.read p with
    | error f => simp [hread, Except.toOption] at h
    | ok content => exact isFile_of_read hread

end

/-! ## Errors of access -/

/-- Access can fail in this way: because a path leads nowhere, because something is too long,
or because a directory is closed. -/
def FailsBy (fs : FileSystem) (e : FileError) : Prop :=
  e.isAbsence = true ∨ e = .nameTooLong ∨ e = .permissionDenied ∧ ∃ l, fs.isClosed l = true

/-- Entering fails in one of these ways, if that is so behind links. -/
theorem failsBy_of_enter {last : Bool}
    {jump : Location → List String → Except FileError Location}
    (hjump : ∀ l names e, jump l names = .error e → fs.FailsBy e)
    {l : Location} {names : List String} {e : FileError}
    (h : fs.enter last jump l names = .error e) : fs.FailsBy e := by
  induction names generalizing l with
  | nil => cases h
  | cons n rest ih =>
      unfold enter at h
      split at h
      case h_1 =>
        cases h
        exact .inl rfl
      case h_3 =>
        cases h
        exact .inl rfl
      case h_2 =>
        split at h
        case isTrue hclosed =>
          cases h
          exact .inr (.inr ⟨rfl, l, (Bool.and_eq_true_iff.mp hclosed).2⟩)
        case isFalse =>
          split at h
          case isFalse => exact ih h
          case isTrue =>
            split at h
            case isTrue => exact ih h
            case isFalse =>
              split at h
              case isTrue =>
                cases h
                exact .inr (.inl rfl)
              case isFalse =>
                split at h
                case h_2 => exact ih h
                case h_1 =>
                  split at h
                  case isTrue => cases h
                  case isFalse => exact hjump _ _ _ h

theorem failsBy_of_follow {last : Bool} {n : Nat} {l : Location} {names : List String}
    {e : FileError} (h : fs.follow last n l names = .error e) : fs.FailsBy e := by
  induction n generalizing l names e with
  | zero =>
      cases h
      exact .inl rfl
  | succ n ih => exact failsBy_of_enter (fun _ _ _ => ih) h

theorem failsBy_of_locate {last : Bool} {p : Path} {e : FileError}
    (h : fs.locate last p = .error e) : fs.FailsBy e := by
  unfold locate at h
  split at h
  case isTrue =>
    cases h
    exact .inl rfl
  case isFalse => exact failsBy_of_follow h

theorem failsBy_of_status {p : Path} {e : FileError} (h : fs.status p = .error e) :
    fs.FailsBy e := by
  unfold status at h
  split at h
  case isTrue =>
    cases h
    exact .inr (.inl rfl)
  case isFalse =>
    rcases locate_of_nodeAt_error h with hlocate | rfl
    · exact failsBy_of_locate hlocate
    · exact .inl rfl

/-- The status of a path is missing because the path leads nowhere, or because it is
refused. -/
theorem isAbsence_or_refused_of_status {p : Path} {e : FileError} (h : fs.status p = .error e) :
    e.isAbsence = true ∨ e = .nameTooLong ∨ e = .permissionDenied :=
  (failsBy_of_status h).imp_right fun hrefused => hrefused.imp_right And.left

/-- Where everything is allowed, it is missing because the path leads nowhere, or because
something is too long. -/
theorem Sound.isAbsence_or_nameTooLong_of_status (hs : fs.Sound) {p : Path} {e : FileError}
    (h : fs.status p = .error e) : e.isAbsence = true ∨ e = .nameTooLong := by
  rcases failsBy_of_status h with habsent | hlong | ⟨-, l, hclosed⟩
  · exact .inl habsent
  · exact .inr hlong
  · cases (hs.isClosed_eq l).symm.trans hclosed

/-! ## What can be told -/

/-- It can be told what the path leads to: to a node, or nowhere. -/
def Tells (fs : FileSystem) (p : Path) : Prop :=
  ∀ e, fs.status p = .error e → e.isAbsence = true

theorem statusFault?_eq_some_iff {p : Path} {fault : FileFault} :
    fs.statusFault? p = some fault ↔
      ∃ e, fs.status p = .error e ∧ e.isAbsence = false ∧ fault = ⟨e, p.text⟩ := by
  unfold statusFault?
  cases fs.status p with
  | ok n => simp
  | error e => simp [@eq_comm _ fault]

theorem statusFault?_eq_none_iff {p : Path} : fs.statusFault? p = none ↔ fs.Tells p := by
  unfold statusFault? Tells
  cases fs.status p with
  | ok n => simp
  | error e => simp

theorem tells_of_status {p : Path} {n : Node} (h : fs.status p = .ok n) : fs.Tells p := by
  intro e he
  cases h.symm.trans he

/-! ## Links with short names -/

/-- No link leads over a name that is too long to be looked up. -/
def LinksShort (fs : FileSystem) : Prop :=
  ∀ l target, fs.node? l = some (.link target) →
    ∀ n ∈ (Path.asWritten target).names, isOverlong n = false

theorem linksShort_of_entries
    (h : ∀ e ∈ fs.entries, ∀ target, e.2 = .link target →
      ∀ n ∈ (Path.asWritten target).names, isOverlong n = false) : fs.LinksShort := by
  intro l target hnode
  have hne : l ≠ [] := by
    rintro rfl
    cases hnode
  rw [node?, if_neg hne, List.lookup_eq_some_iff] at hnode
  obtain ⟨above, below, hentries, -⟩ := hnode
  exact h (l, .link target) (by simp [hentries]) target rfl

/-- Entering short names meets none that is too long, if that is so behind links. -/
theorem LinksShort.enter_ne {last : Bool}
    {jump : Location → List String → Except FileError Location} (hlinks : fs.LinksShort)
    (hjump : ∀ l names, (∀ n ∈ names, isOverlong n = false) →
      jump l names ≠ .error .nameTooLong)
    {l : Location} {names : List String} (hnames : ∀ n ∈ names, isOverlong n = false) :
    fs.enter last jump l names ≠ .error .nameTooLong := by
  induction names generalizing l with
  | nil => nofun
  | cons n rest ih =>
      obtain ⟨hn, hrest⟩ := List.forall_mem_cons.mp hnames
      unfold enter
      rw [hn, if_neg Bool.false_ne_true]
      split
      case h_1 => nofun
      case h_3 => nofun
      case h_2 =>
        split
        case isTrue => nofun
        case isFalse =>
          split
          case isFalse => exact ih hrest
          case isTrue =>
            split
            case isTrue => exact ih hrest
            case isFalse =>
              split
              case h_2 => exact ih hrest
              case h_1 target hnode =>
                split
                case isTrue => nofun
                case isFalse =>
                  exact hjump _ _ (List.forall_mem_append.mpr ⟨hlinks _ _ hnode, hrest⟩)

theorem LinksShort.follow_ne {last : Bool} (hlinks : fs.LinksShort) {n : Nat} {l : Location}
    {names : List String} (hnames : ∀ m ∈ names, isOverlong m = false) :
    fs.follow last n l names ≠ .error .nameTooLong := by
  induction n generalizing l names with
  | zero => nofun
  | succ n ih => exact hlinks.enter_ne (fun _ _ => ih) hnames

/-- Access over short names meets none that is too long, if no link leads over one. -/
theorem LinksShort.nodeAt_ne (hlinks : fs.LinksShort) {p : Path}
    (hnames : ∀ n ∈ p.names, isOverlong n = false) : fs.nodeAt p ≠ .error .nameTooLong := by
  have hlocate : fs.locate true p ≠ .error .nameTooLong := by
    unfold locate
    split
    case isTrue => nofun
    case isFalse => exact hlinks.follow_ne hnames
  intro hnode
  rcases locate_of_nodeAt_error hnode with hplace | habsent
  · exact hlocate hplace
  · cases habsent

/-- A short path over short names can be told, if everything is allowed and no link leads
over a name that is too long. -/
theorem LinksShort.tells (hlinks : fs.LinksShort) (hs : fs.Sound) {p : Path}
    (hshort : isOverlongPath p = false) (hnames : ∀ n ∈ p.names, isOverlong n = false) :
    fs.Tells p := by
  intro e he
  refine (hs.isAbsence_or_nameTooLong_of_status he).resolve_right ?_
  rintro rfl
  rw [status_of_short hshort] at he
  exact hlinks.nodeAt_ne hnames he

end JavaAtlas.Storage.FileSystem
