import JavaAtlas.Proofs.Source.Walk
import JavaAtlas.Proofs.Storage.Status

/-!
# What a walk finds, and in which order

A walk enters the directories below its root that are no links and hold no records of
version control, as far as it may.  It finds the entries there that are named like source
files and are files or links to files, unless it breaks off at one of which that cannot be
told.  In each directory its files come first, in the order of their names, and then what
lies in its subdirectories, in the order of theirs; so no entry is found twice.  The order
in which a file system lists its entries plays no part.

Main definitions:

- `IsEntered`: the directories that a walk enters.
- `IsMet`: the entries that a walk asks about.
- `Before`: the order of a walk.

Main results:

- Theorem `mem_namesBelow_iff`: the names below a location that a walk meets.
- Theorem `pairwise_namesBelow`: the order in which it meets them.
- Theorem `IsMet.isFile_iff`: which of the entries that are met are source files.
- Theorem `walkFault?_eq_none_iff_met`: when a walk does not break off.
- Theorem `sourceFiles_perm`: listing entries in another order makes no difference.
-/

namespace JavaAtlas.Source

open Storage FileSystem

variable {fs : FileSystem} {extension : String} {l : Location} {root : Path}

/-! ## Directories that are entered -/

/-- The names lead from a location through directories that a walk enters: they are no links
and hold no records of version control, and they stand in directories that may be listed and
in which names may be looked up, under paths that are short. -/
inductive IsEntered (fs : FileSystem) : Path → Location → List String → Prop where
  | here {top : Path} {l : Location} : IsEntered fs top l []
  | down {top : Path} {l : Location} {d : String} {rest : List String}
      (hname : d ∉ [".git", ".svn", ".hg"]) (hd : fs.node? (l ++ [d]) = some .directory)
      (hlisted : fs.isHidden l = false) (hopen : fs.isClosed l = false)
      (hshort : isOverlongPath (top.child d) = false)
      (h : IsEntered fs (top.child d) (l ++ [d]) rest) : IsEntered fs top l (d :: rest)

/-- The subdirectories that are entered. -/
theorem mem_directoryNames_iff {top : Path} {d : String} :
    d ∈ directoryNames fs top l ↔
      d ∉ [".git", ".svn", ".hg"] ∧ fs.node? (l ++ [d]) = some .directory ∧
        fs.isHidden l = false ∧ fs.isClosed l = false ∧
        isOverlongPath (top.child d) = false := by
  rw [directoryNames, List.mem_filter, mem_listedNames]
  simp only [Bool.and_eq_true, Bool.not_eq_true', isPlainDirectory_iff, isPassedOver, passedOver,
    List.contains_eq_mem, decide_eq_false_iff_not]
  constructor
  · rintro ⟨⟨hlisted, -⟩, ⟨⟨hname, hd⟩, hopen⟩, hshort⟩
    exact ⟨hname, hd, hlisted, hopen, hshort⟩
  · rintro ⟨hname, hd, hlisted, hopen, hshort⟩
    exact ⟨⟨hlisted, by simp [hd]⟩, ⟨⟨hname, hd⟩, hopen⟩, hshort⟩

/-- The names in a directory that are asked about. -/
theorem mem_namesAsked_iff {n : String} :
    n ∈ namesAsked fs extension l ↔
      fs.isHidden l = false ∧ n.endsWith extension = true ∧ fs.node? (l ++ [n]) ≠ none ∧
        fs.node? (l ++ [n]) ≠ some .directory := by
  rw [namesAsked, List.mem_filter, mem_listedNames]
  simp only [Bool.and_eq_true, Bool.not_eq_true', ← Bool.not_eq_true, isPlainDirectory_iff]
  constructor
  · rintro ⟨⟨hlisted, hnode⟩, hext, hplain⟩
    exact ⟨hlisted, hext, hnode, hplain⟩
  · rintro ⟨hlisted, hext, hnode, hplain⟩
    exact ⟨⟨hlisted, hnode⟩, hext, hplain⟩

/-! ## Names that are met -/

/-- The names of the entries below a location that a walk asks about, as deep as the number
says. -/
def namesBelow (fs : FileSystem) (extension : String) :
    Nat → Path → Location → List (List String)
  | 0, _, _ => []
  | n + 1, top, l =>
    (namesAsked fs extension l).map (fun m => [m]) ++
      (directoryNames fs top l).flatMap fun d =>
        (namesBelow fs extension n (top.child d) (l ++ [d])).map (d :: ·)

/-- The candidates of a walk are the paths of these names. -/
theorem candidatesBelow_eq_map (hs : fs.Formed) (n : Nat) (top : Path) (l : Location) :
    candidatesBelow fs extension n top l =
      (namesBelow fs extension n top l).map fun ns => top.normal.join ⟨.here, ns⟩ := by
  induction n generalizing top l with
  | zero => rfl
  | succ n ih =>
      have hbelow : ∀ d ∈ directoryNames fs top l, ∀ ns,
          (top.child d).normal.join ⟨.here, ns⟩ = top.normal.join ⟨.here, d :: ns⟩ := by
        intro d hd ns
        have hname : Path.isName d = true :=
          (hs.name l d (by simp [(mem_directoryNames_iff.mp hd).2.1])).1
        simp [Path.normal, Path.child, Path.join, Path.isAbsolute, hname]
      rw [candidatesBelow, namesBelow, List.map_append, List.map_map, List.map_flatMap]
      congr 1
      refine congrArg List.flatten (List.map_congr_left fun d hd => ?_)
      rw [ih, List.map_map]
      exact List.map_congr_left fun ns _ => hbelow d hd ns

/-- The names that a walk meets lead through directories that it enters to an entry in a
directory that may be listed.  The entry is named like a source file and is no directory. -/
theorem mem_namesBelow_iff {n : Nat} {top : Path} {ns : List String} :
    ns ∈ namesBelow fs extension n top l ↔
      ns.length ≤ n ∧ ∃ above name, ns = above ++ [name] ∧ IsEntered fs top l above ∧
        fs.isHidden (l ++ above) = false ∧ name.endsWith extension = true ∧
        fs.node? (l ++ above ++ [name]) ≠ none ∧
        fs.node? (l ++ above ++ [name]) ≠ some .directory := by
  induction n generalizing top l ns with
  | zero =>
      refine iff_of_false (List.not_mem_nil) ?_
      rintro ⟨hlength, above, name, rfl, -⟩
      simp at hlength
  | succ n ih =>
      have hassoc : ∀ d rest, l ++ d :: rest = l ++ [d] ++ rest := fun d rest => by simp
      simp only [namesBelow, List.mem_append, List.mem_map, List.mem_flatMap,
        mem_namesAsked_iff, mem_directoryNames_iff, ih]
      constructor
      · rintro (⟨name, ⟨hlisted, hext, hnode⟩, rfl⟩ | ⟨d, hd, ns, ⟨hlength, hns⟩, rfl⟩)
        · exact ⟨by simp, [], name, rfl, .here, by simpa using hlisted, hext, by simpa using hnode⟩
        · obtain ⟨above, name, rfl, habove, hlast⟩ := hns
          obtain ⟨hname, hd, hlisted, hopen, hshort⟩ := hd
          refine ⟨by simpa using hlength, d :: above, name, rfl,
            .down hname hd hlisted hopen hshort habove, ?_⟩
          rwa [hassoc]
      · rintro ⟨hlength, above, name, rfl, habove, hlisted, hext, hnode⟩
        cases habove with
        | here =>
            rw [List.append_nil] at hlisted hnode
            exact .inl ⟨name, ⟨hlisted, hext, hnode⟩, rfl⟩
        | @down _ _ d rest hname hd hlist hopen hshort h =>
            rw [hassoc] at hlisted hnode
            refine .inr ⟨d, ⟨hname, hd, hlist, hopen, hshort⟩, rest ++ [name],
              ⟨by simpa using hlength, ?_⟩, rfl⟩
            exact ⟨rest, name, rfl, h, hlisted, hext, hnode⟩

/-- A walk is deep enough to meet all names. -/
theorem mem_namesBelow_depthBound_iff {top : Path} {ns : List String} :
    ns ∈ namesBelow fs extension (depthBound fs) top l ↔
      ∃ above name, ns = above ++ [name] ∧ IsEntered fs top l above ∧
        fs.isHidden (l ++ above) = false ∧ name.endsWith extension = true ∧
        fs.node? (l ++ above ++ [name]) ≠ none ∧
        fs.node? (l ++ above ++ [name]) ≠ some .directory := by
  rw [mem_namesBelow_iff]
  refine and_iff_right_of_imp ?_
  rintro ⟨above, name, rfl, -, -, -, hnode, -⟩
  obtain ⟨e, he, heq⟩ := node?_ne_none_iff.mp hnode
  have hlength := length_le_depthBound he
  rw [heq, List.length_append, List.length_append] at hlength
  rw [List.length_append]
  omega

/-! ## Order -/

/-- The order of a walk, for names that lead from one directory to its files and to those
below it: files come in the order of their names and before all that lies in
subdirectories, and these come in the order of theirs. -/
inductive Before : List String → List String → Prop where
  | files {m n : String} (h : m < n) : Before [m] [n]
  | fileFirst {m d : String} {ns : List String} (h : ns ≠ []) : Before [m] (d :: ns)
  | directories {d e : String} {ms ns : List String} (hms : ms ≠ []) (hns : ns ≠ [])
      (h : d < e) : Before (d :: ms) (e :: ns)
  | inside {d : String} {ms ns : List String} (h : Before ms ns) : Before (d :: ms) (d :: ns)

theorem before_irrefl (ns : List String) : ¬ Before ns ns := by
  induction ns with
  | nil => exact nofun
  | cons d ns ih =>
      intro h
      cases h with
      | files h => exact String.lt_irrefl d h
      | fileFirst h => exact h rfl
      | directories _ _ h => exact String.lt_irrefl d h
      | inside h => exact ih h

/-- The names that a directory gives increase. -/
theorem increasing_listedNames (fs : FileSystem) (l : Location) :
    (listedNames fs l).Pairwise (· < ·) := by
  refine List.Pairwise.sublist (sublist_listedNames fs l) ?_
  refine ((sorted_childNames fs l).and (nodup_childNames fs l)).imp ?_
  rintro m n ⟨hle, hne⟩
  by_contra hlt
  exact hne (String.le_antisymm hle (String.not_lt.mp hlt))

/-- Names that increase are those that a directory gives, however its entries are listed. -/
theorem listedNames_eq_of_perm {names : List String} (hlisted : fs.isHidden l = false)
    (hperm : ((fs.entries.map Prod.fst).filterMap (nameBelow? l)).Perm names)
    (hincreasing : names.Pairwise (· < ·)) : listedNames fs l = names := by
  have hsorted : names.Pairwise (· ≤ ·) :=
    hincreasing.imp fun h => String.not_lt.mp (String.lt_asymm h)
  have hnodup : names.Nodup := hincreasing.imp String.ne_of_lt
  rw [listedNames, hlisted, if_neg Bool.false_ne_true]
  refine childNames_eq_of_mem_iff hsorted hnodup fun n => ?_
  rw [← hperm.mem_iff, ← mem_childNames, childNames, List.mem_mergeSort, List.mem_eraseDups]

theorem ne_nil_of_mem_namesBelow {n : Nat} {top : Path} {ns : List String}
    (h : ns ∈ namesBelow fs extension n top l) : ns ≠ [] := by
  obtain ⟨-, above, name, rfl, -⟩ := mem_namesBelow_iff.mp h
  simp

/-- A walk meets names in its order. -/
theorem pairwise_namesBelow (fs : FileSystem) (extension : String) (n : Nat) (top : Path)
    (l : Location) : (namesBelow fs extension n top l).Pairwise Before := by
  induction n generalizing top l with
  | zero => exact .nil
  | succ n ih =>
      have hnames := increasing_listedNames fs l
      rw [namesBelow, List.pairwise_append, List.pairwise_map, List.pairwise_flatMap]
      refine ⟨?_, ⟨?_, ?_⟩, ?_⟩
      · exact (hnames.filter _).imp Before.files
      · intro d _
        rw [List.pairwise_map]
        exact (ih (top.child d) (l ++ [d])).imp Before.inside
      · refine (hnames.filter _).imp ?_
        intro d e hde _ hfirst _ hsecond
        obtain ⟨ms, hms, rfl⟩ := List.mem_map.mp hfirst
        obtain ⟨ns, hns, rfl⟩ := List.mem_map.mp hsecond
        exact .directories (ne_nil_of_mem_namesBelow hms) (ne_nil_of_mem_namesBelow hns) hde
      · intro _ hfile _ hbelow
        obtain ⟨m, -, rfl⟩ := List.mem_map.mp hfile
        obtain ⟨d, -, hd⟩ := List.mem_flatMap.mp hbelow
        obtain ⟨ns, hns, rfl⟩ := List.mem_map.mp hd
        exact .fileFirst (ne_nil_of_mem_namesBelow hns)

/-! ## Entries that are asked about -/

/-- A walk of the root asks about the entry at the location: the names lead there from the
root, through directories that are entered and may be listed, the last one is that of a
source file, and no directory stands there. -/
def IsMet (fs : FileSystem) (root : Path) (extension : String) (above : List String)
    (name : String) (q : Location) : Prop :=
  ∃ l, fs.reach true root = .ok l ∧ IsEntered fs root.stem l above ∧
    fs.isHidden (l ++ above) = false ∧ name.endsWith extension = true ∧
    q = l ++ above ++ [name] ∧ fs.node? q ≠ none ∧ fs.node? q ≠ some .directory

/-- The names that a walk of the root meets, in its order. -/
def namesMet (fs : FileSystem) (root : Path) (extension : String) : List (List String) :=
  match fs.reach true root with
  | .error _ => []
  | .ok l => namesBelow fs extension (depthBound fs) root.stem l

/-- Names behind which other ones are written are left out of a normal form. -/
theorem normal_stem (p : Path) : p.stem.normal = p.normal := by
  unfold Path.stem
  split
  case isTrue hp =>
    rw [hp]
    rfl
  case isFalse =>
    split
    case isFalse => rfl
    case isTrue hlast =>
      obtain ⟨anchor, names⟩ := p
      obtain ⟨front, hnames⟩ := List.getLast?_eq_some_iff.mp hlast
      dsimp only at hnames
      subst hnames
      simp [Path.parent, Path.normal, Path.isName]

theorem candidates_eq_map (hs : fs.Formed) :
    candidates fs root extension =
      (namesMet fs root extension).map fun ns => root.normal.join ⟨.here, ns⟩ := by
  unfold candidates namesMet
  cases fs.reach true root with
  | error e => rfl
  | ok l =>
      dsimp only
      rw [candidatesBelow_eq_map hs, normal_stem]

theorem mem_namesMet_iff {ns : List String} :
    ns ∈ namesMet fs root extension ↔
      ∃ above name q, ns = above ++ [name] ∧ IsMet fs root extension above name q := by
  unfold namesMet IsMet
  cases fs.reach true root with
  | error e => simp
  | ok l =>
      simp only [mem_namesBelow_depthBound_iff, Except.ok.injEq, exists_eq_left']
      constructor
      · rintro ⟨above, name, rfl, habove, hlisted, hext, hnode⟩
        exact ⟨above, name, _, rfl, habove, hlisted, hext, rfl, hnode⟩
      · rintro ⟨above, name, q, rfl, habove, hlisted, hext, rfl, hnode⟩
        exact ⟨above, name, rfl, habove, hlisted, hext, hnode⟩

theorem pairwise_namesMet (fs : FileSystem) (root : Path) (extension : String) :
    (namesMet fs root extension).Pairwise Before := by
  unfold namesMet
  cases fs.reach true root with
  | error e => exact .nil
  | ok l => exact pairwise_namesBelow _ _ _ _ _

/-! ## What is told of them -/

section

variable {above : List String} {name : String} {q : Location}

/-- Directories that are entered are not closed on the way. -/
theorem IsEntered.opensTo {top : Path} (h : IsEntered fs top l above)
    (hopen : fs.isClosed (l ++ above) = false) : fs.OpensTo l (above ++ [name]) := by
  induction h with
  | here => exact ⟨by simpa using hopen, trivial⟩
  | @down _ l d rest _ _ _ hl _ _ ih => exact ⟨hl, ih (by simpa using hopen)⟩

/-- Entering goes on in a directory that is entered. -/
theorem IsEntered.enter_append {top : Path}
    {jump : Location → List String → Except FileError Location} {more : List String}
    (h : IsEntered fs top l above) (hs : fs.Formed) :
    fs.enter true jump l (above ++ more) = fs.enter true jump (l ++ above) more := by
  induction h with
  | here => simp
  | @down _ l d rest _ hd _ hopen _ _ ih =>
      have hsome : fs.node? (l ++ [d]) ≠ none := by simp [hd]
      rw [List.cons_append, enter_down ⟨hs.parent l d hsome, hopen⟩ (hs.name l d hsome)
        (hs.short l d hsome) (not_isLink_of_directory hd), ih]
      simp

/-- The names of an entry that is met are names for entries. -/
theorem IsMet.isName (h : IsMet fs root extension above name q) (hs : fs.Formed) :
    ∀ n ∈ above ++ [name], Path.isName n = true := by
  obtain ⟨l, -, -, -, -, rfl, hnode, -⟩ := h
  intro n hn
  obtain ⟨front, rest, heq⟩ := List.append_of_mem hn
  have hassoc : l ++ above ++ [name] = (l ++ front ++ [n]) ++ rest := by simp [heq]
  exact (hs.name _ n (hs.exists_above (hassoc ▸ hnode))).1

/-- In a closed directory access to an entry is denied. -/
theorem IsMet.nodeAt_of_isClosed (h : IsMet fs root extension above name q) (hs : fs.Formed)
    (hclosed : fs.isClosed q.dropLast = true) :
    fs.nodeAt (root.normal.join ⟨.here, above ++ [name]⟩) = .error .permissionDenied := by
  have hnames := h.isName hs
  obtain ⟨l, hroot, habove, -, -, rfl, hnode, -⟩ := h
  rw [List.dropLast_concat] at hclosed
  have hdirectory := hs.parent _ name hnode
  have hname := ne_empty_of_isName (hs.name _ name hnode).1
  have hlocate : fs.locate true (root.normal.join ⟨.here, above ++ [name]⟩) =
      .error .permissionDenied := by
    refine locate_join (reach_eq_ok_iff.mp hroot).2 hnames fun jump => ?_
    rw [habove.enter_append hs, enter_closed hdirectory hclosed hname]
  rw [nodeAt, hlocate]
  rfl

/-- The path of an entry that is met and is no link leads to its node, unless its directory
is closed. -/
theorem IsMet.nodeAt (h : IsMet fs root extension above name q) (hs : fs.Formed)
    (hopen : fs.isClosed q.dropLast = false) {node : Node} (hnode : fs.node? q = some node)
    (hlink : ¬ fs.IsLink q) :
    fs.nodeAt (root.normal.join ⟨.here, above ++ [name]⟩) = .ok node := by
  obtain ⟨l, hroot, habove, -, -, rfl, -⟩ := h
  rw [List.dropLast_concat] at hopen
  rw [List.append_assoc] at hnode hlink
  exact nodeAt_eq_ok_iff.mpr ⟨_, hs.locate_below (reach_eq_ok_iff.mp hroot).2
    (habove.opensTo hopen) hnode hlink, hnode⟩

/-- An entry that is met is told exactly if its path is short, its directory is not closed
and, if it is a link, it can be told what it leads to. -/
theorem IsMet.tells_iff (h : IsMet fs root extension above name q) (hs : fs.Formed) :
    fs.Tells (root.normal.join ⟨.here, above ++ [name]⟩) ↔
      isOverlongPath (root.normal.join ⟨.here, above ++ [name]⟩) = false ∧
        fs.isClosed q.dropLast = false ∧
        (fs.IsLink q → fs.Tells (root.normal.join ⟨.here, above ++ [name]⟩)) := by
  constructor
  · intro htells
    have hshort : isOverlongPath (root.normal.join ⟨.here, above ++ [name]⟩) = false := by
      by_contra hlong
      rw [Bool.not_eq_false] at hlong
      cases htells .nameTooLong (status_eq_nameTooLong_iff.mpr (.inl hlong))
    refine ⟨hshort, ?_, fun _ => htells⟩
    by_contra hclosed
    rw [Bool.not_eq_false] at hclosed
    have hstatus := (status_of_short hshort).trans (h.nodeAt_of_isClosed hs hclosed)
    cases htells _ hstatus
  · rintro ⟨hshort, hopen, htells⟩
    by_cases hlink : fs.IsLink q
    case pos => exact htells hlink
    case neg =>
      obtain ⟨-, -, -, -, -, -, hsome, -⟩ := id h
      obtain ⟨node, hnode⟩ := Option.ne_none_iff_exists'.mp hsome
      exact tells_of_status ((status_of_short hshort).trans (h.nodeAt hs hopen hnode hlink))

/-- An entry that is met and of which it can be told what it leads to is a source file if it
is a file or a link to one. -/
theorem IsMet.isFile_iff (h : IsMet fs root extension above name q) (hs : fs.Formed)
    (htells : fs.Tells (root.normal.join ⟨.here, above ++ [name]⟩)) :
    fs.isFile (root.normal.join ⟨.here, above ++ [name]⟩) = true ↔
      (∃ content mode, fs.node? q = some (.file content mode)) ∨
        fs.IsLink q ∧ fs.isFile (root.normal.join ⟨.here, above ++ [name]⟩) = true := by
  obtain ⟨-, -, -, -, -, -, hsome, hplain⟩ := id h
  obtain ⟨hshort, hopen, -⟩ := (h.tells_iff hs).mp htells
  obtain ⟨node, hnode⟩ := Option.ne_none_iff_exists'.mp hsome
  cases node with
  | link target => simp [hnode, show fs.IsLink q from ⟨target, hnode⟩]
  | file content mode =>
      have hlink : ¬ fs.IsLink q := by simp [IsLink, hnode]
      simp [FileSystem.isFile, status_of_short hshort, h.nodeAt hs hopen hnode hlink, hnode]
  | directory => exact absurd hnode hplain

end

/-! ## Walks of a root -/

/-- The names of the source files that a walk of the root finds. -/
theorem sourceFiles_eq_map (hs : fs.Formed) :
    sourceFiles fs root extension =
      ((namesMet fs root extension).filter fun ns =>
        fs.isFile (root.normal.join ⟨.here, ns⟩)).map fun ns => root.normal.join ⟨.here, ns⟩ := by
  rw [sourceFiles_eq_filter, candidates_eq_map hs, List.filter_map]
  rfl

theorem nodup_sourceFiles (hs : fs.Formed) (root : Path) (extension : String) :
    (sourceFiles fs root extension).Nodup := by
  rw [sourceFiles_eq_map hs]
  refine List.Nodup.map ?_ ?_
  · intro ms ns h
    exact List.append_cancel_left (congrArg Path.names h)
  · refine ((pairwise_namesMet fs root extension).filter _).imp ?_
    rintro ms _ hbefore rfl
    exact before_irrefl ms hbefore

/-- A walk does not break off exactly if the entries that it meets have short paths and
stand in no closed directories, and it can be told of every link what it leads to. -/
theorem walkFault?_eq_none_iff_met (hs : fs.Formed) :
    walkFault? fs root extension = none ↔
      ∀ above name q, IsMet fs root extension above name q →
        isOverlongPath (root.normal.join ⟨.here, above ++ [name]⟩) = false ∧
          fs.isClosed q.dropLast = false ∧
          (fs.IsLink q → fs.Tells (root.normal.join ⟨.here, above ++ [name]⟩)) := by
  rw [walkFault?_eq_none_iff, candidates_eq_map hs, List.forall_mem_map]
  constructor
  · intro h above name q hmet
    exact (hmet.tells_iff hs).mp (h _ (mem_namesMet_iff.mpr ⟨above, name, q, rfl, hmet⟩))
  · intro h ns hns
    obtain ⟨above, name, q, rfl, hmet⟩ := mem_namesMet_iff.mp hns
    exact (hmet.tells_iff hs).mpr (h above name q hmet)

/-! ## Entries in another order -/

section

variable {fs' : FileSystem}

/-- A walk depends on the nodes and on what is allowed, not on how the entries are listed. -/
theorem candidatesBelow_congr (h : ∀ q, fs.node? q = fs'.node? q)
    (hhidden : ∀ q, fs.isHidden q = fs'.isHidden q)
    (hclosed : ∀ q, fs.isClosed q = fs'.isClosed q) (n : Nat) (top : Path) (l : Location) :
    candidatesBelow fs extension n top l = candidatesBelow fs' extension n top l := by
  have hlisted : ∀ l, listedNames fs l = listedNames fs' l := fun l => by
    rw [listedNames, listedNames, hhidden, childNames_congr fun n => h (l ++ [n])]
  induction n generalizing top l with
  | zero => rfl
  | succ n ih =>
      simp only [candidatesBelow, namesAsked, directoryNames, isPlainDirectory, h, hclosed,
        hlisted, ih]

theorem candidates_congr (h : ∀ q, fs.node? q = fs'.node? q)
    (hworking : fs.workingDirectory = fs'.workingDirectory)
    (hrestrictions : fs.restrictions = fs'.restrictions) :
    candidates fs root extension = candidates fs' root extension := by
  have hhidden : ∀ q, fs.isHidden q = fs'.isHidden q := fun q => by
    rw [isHidden, isHidden, hrestrictions]
  unfold candidates
  rw [reach, reach, locate_congr h hworking hrestrictions]
  split
  case h_1 => rfl
  case h_2 l _ =>
    -- both walks go deep enough for either
    have hdeep := candidatesBelow_depthBound fs extension root.stem l (depthBound fs')
    have hdeep' := candidatesBelow_depthBound fs' extension root.stem l (depthBound fs)
    rw [Nat.add_comm] at hdeep'
    rw [← hdeep, ← hdeep',
      candidatesBelow_congr h hhidden (isClosed_congr hworking hrestrictions)]

/-- Listing the entries in another order changes neither what a walk finds nor where it
breaks off. -/
theorem sourceFiles_perm (hperm : fs'.entries.Perm fs.entries)
    (hkeys : (fs.entries.map Prod.fst).Nodup)
    (hworking : fs'.workingDirectory = fs.workingDirectory)
    (hrestrictions : fs'.restrictions = fs.restrictions) :
    sourceFiles fs' root extension = sourceFiles fs root extension ∧
      walkFault? fs' root extension = walkFault? fs root extension := by
  have hnode := node?_perm hperm hkeys
  have hstatus : ∀ p, fs'.status p = fs.status p := fun p =>
    (status_congr hnode hworking.symm hrestrictions.symm p).symm
  have hfile : fs'.isFile = fs.isFile := funext fun p => by simp only [FileSystem.isFile, hstatus]
  have hfault : fs'.statusFault? = fs.statusFault? :=
    funext fun p => by simp only [statusFault?, hstatus]
  have hcandidates : candidates fs' root extension = candidates fs root extension :=
    (candidates_congr hnode hworking.symm hrestrictions.symm).symm
  constructor
  · rw [sourceFiles_eq_filter, sourceFiles_eq_filter, hcandidates, hfile]
  · rw [walkFault?, walkFault?, hcandidates, hfault]

end

end JavaAtlas.Source
