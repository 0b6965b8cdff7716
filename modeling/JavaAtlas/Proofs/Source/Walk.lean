import Mathlib.Data.List.Nodup
import JavaAtlas.Source.Walk
import JavaAtlas.Proofs.Storage.Access
import JavaAtlas.Proofs.Storage.Outline
import JavaAtlas.Proofs.Storage.Ways

/-!
# What a walk depends on

A walk below a location asks for the nodes below it, and for what the links to
source files lead to.  Two file systems that agree on these give the same files
in the same order, however much else they hold.

Main results:

- Theorem `mem_childNames`: the names below a location are those of its entries.
- Theorem `candidatesBelow_eq_of_deep`: a walk that is deep enough finds everything.
- Theorem `candidates_outline`, theorem `sourceFiles_outline`: a walk does not ask for
  contents.
- Theorem `sourceFiles_eq_filter`: a walk finds those of its candidates that are files.
- Theorem `WalkedAlike.sourceFiles_eq`, theorem `WalkedAlike.walkFault?_eq`, theorem
  `WalkedAlike.read_eq`: walks below a location, where they break off and what is read on
  them agree, if the nodes below it and what links lead to do.
- Theorem `walkFault?_eq_none_iff`: a walk does not break off exactly if it can be told of all
  candidates what they lead to.
- Theorem `walkFault?_eq_none_of_linksShort`: a walk does not break off if no candidate has
  too long a path and no link leads over a name that is too long.
-/

namespace JavaAtlas.Source

open Storage FileSystem

/-! ## Names below a location -/

theorem nameBelow?_eq_some {l e : Location} {n : String} :
    nameBelow? l e = some n ↔ e = l ++ [n] := by
  unfold nameBelow?
  constructor
  · intro h
    split at h
    case h_1 => cases h
    case h_2 m above hreverse =>
      split at h
      case isTrue habove =>
        cases h
        rw [← List.reverse_reverse e, hreverse, List.reverse_cons, habove]
      case isFalse => cases h
  · rintro rfl
    simp

theorem mem_childNames {fs : FileSystem} {l : Location} {n : String} :
    n ∈ childNames fs l ↔ fs.node? (l ++ [n]) ≠ none := by
  rw [childNames, List.mem_mergeSort, List.mem_eraseDups, node?_ne_none_iff]
  simp only [List.mem_filterMap, List.mem_map, nameBelow?_eq_some]
  constructor
  · rintro ⟨_, ⟨e, he, rfl⟩, heq⟩
    exact ⟨e, he, heq⟩
  · rintro ⟨e, he, heq⟩
    exact ⟨e.1, ⟨e, he, rfl⟩, heq⟩

/-- Names without repetition hold each name once. -/
theorem nodup_eraseDups (names : List String) : names.eraseDups.Nodup := by
  generalize hlength : names.length = k
  induction k using Nat.strongRecOn generalizing names with
  | ind k ih =>
      cases names with
      | nil => simp
      | cons n names =>
          rw [List.eraseDups_cons, List.nodup_cons]
          have hshorter : (names.filter fun m => !m == n).length < k := by
            have hle := List.length_filter_le (fun m => !m == n) names
            rw [List.length_cons] at hlength
            omega
          refine ⟨?_, ih _ hshorter _ rfl⟩
          simp

theorem sorted_childNames (fs : FileSystem) (l : Location) :
    (childNames fs l).Pairwise (· ≤ ·) := by
  have hpairwise := @List.pairwise_mergeSort String (fun s t => decide (s ≤ t))
    (fun a b c hab hbc => by
      simp only [decide_eq_true_eq] at hab hbc ⊢
      exact String.le_trans hab hbc)
    (fun a b => by
      simp only [Bool.or_eq_true, decide_eq_true_eq]
      exact String.le_total a b)
    ((fs.entries.map Prod.fst).filterMap (nameBelow? l)).eraseDups
  simp only [decide_eq_true_eq] at hpairwise
  exact hpairwise

theorem nodup_childNames (fs : FileSystem) (l : Location) : (childNames fs l).Nodup :=
  (List.mergeSort_perm _ _).nodup_iff.mpr (nodup_eraseDups _)

/-- The names below a location are in order and each once, so they are told by which
names there are. -/
theorem childNames_eq_of_mem_iff {fs : FileSystem} {l : Location} {names : List String}
    (hsorted : names.Pairwise (· ≤ ·)) (hnodup : names.Nodup)
    (h : ∀ n, n ∈ names ↔ fs.node? (l ++ [n]) ≠ none) : childNames fs l = names := by
  have hperm : (childNames fs l).Perm names := by
    rw [List.perm_ext_iff_of_nodup (nodup_childNames fs l) hnodup]
    intro n
    rw [mem_childNames, h n]
  exact hperm.eq_of_pairwise (fun a b _ _ => String.le_antisymm) (sorted_childNames fs l) hsorted

theorem childNames_congr {fs₁ fs₂ : FileSystem} {l : Location}
    (h : ∀ n, fs₁.node? (l ++ [n]) = fs₂.node? (l ++ [n])) :
    childNames fs₁ l = childNames fs₂ l :=
  childNames_eq_of_mem_iff (sorted_childNames fs₂ l) (nodup_childNames fs₂ l) fun n => by
    rw [mem_childNames, h n]

/-- The names that are listed are those of the entries, unless the directory is hidden. -/
theorem mem_listedNames {fs : FileSystem} {l : Location} {n : String} :
    n ∈ listedNames fs l ↔ fs.isHidden l = false ∧ fs.node? (l ++ [n]) ≠ none := by
  unfold listedNames
  cases fs.isHidden l with
  | true => simp
  | false => simp [mem_childNames]

theorem node?_ne_none_of_mem_listedNames {fs : FileSystem} {l : Location} {n : String}
    (h : n ∈ listedNames fs l) : fs.node? (l ++ [n]) ≠ none :=
  (mem_listedNames.mp h).2

theorem sublist_listedNames (fs : FileSystem) (l : Location) :
    (listedNames fs l).Sublist (childNames fs l) := by
  unfold listedNames
  split
  case isTrue => exact List.nil_sublist _
  case isFalse => exact List.Sublist.refl _

theorem nodup_listedNames (fs : FileSystem) (l : Location) : (listedNames fs l).Nodup :=
  (nodup_childNames fs l).sublist (sublist_listedNames fs l)

/-- Names that stand in order already are left as they are. -/
theorem listedNames_eq {fs : FileSystem} {l : Location} {names : List String}
    (hlisted : fs.isHidden l = false)
    (h : ((fs.entries.map Prod.fst).filterMap (nameBelow? l)).eraseDups = names)
    (hsorted : names.Pairwise fun s t => decide (s ≤ t)) : listedNames fs l = names := by
  rw [listedNames, hlisted, childNames, h, List.mergeSort_of_pairwise hsorted,
    if_neg Bool.false_ne_true]

/-! ## Candidates -/

/-- The files of a walk are those of its candidates that are files. -/
theorem filesBelow_eq_filter (fs : FileSystem) (extension : String) (n : Nat) (top : Path)
    (l : Location) :
    filesBelow fs extension n top l = (candidatesBelow fs extension n top l).filter fs.isFile := by
  induction n generalizing top l with
  | zero => rfl
  | succ n ih =>
      simp only [filesBelow, candidatesBelow, fileNames, List.filter_append, List.filter_map,
        List.filter_flatMap, ih]
      rfl

theorem sourceFiles_eq_filter (fs : FileSystem) (root : Path) (extension : String) :
    sourceFiles fs root extension = (candidates fs root extension).filter fs.isFile := by
  unfold sourceFiles candidates
  split
  case h_1 => rfl
  case h_2 => exact filesBelow_eq_filter _ _ _ _ _

/-! ## Depth -/

/-- A walk that goes as deep as any entry has all candidates. -/
theorem candidatesBelow_eq_of_deep {fs : FileSystem} {extension : String} {n : Nat} {top : Path}
    {l : Location} (h : ∀ e ∈ fs.entries, e.1.length ≤ l.length + n) (k : Nat) :
    candidatesBelow fs extension (n + k) top l = candidatesBelow fs extension n top l := by
  induction n generalizing top l with
  | zero =>
      have hnames : listedNames fs l = [] := by
        refine List.eq_nil_iff_forall_not_mem.mpr fun m hm => ?_
        obtain ⟨e, he, heq⟩ := node?_ne_none_iff.mp (node?_ne_none_of_mem_listedNames hm)
        have hlength := h e he
        rw [heq, List.length_append, List.length_singleton] at hlength
        omega
      cases k with
      | zero => rfl
      | succ k =>
          rw [Nat.zero_add]
          simp [candidatesBelow, namesAsked, directoryNames, hnames]
  | succ n ih =>
      rw [Nat.add_right_comm]
      simp only [candidatesBelow]
      congr 1
      refine congrArg List.flatten (List.map_congr_left fun d _ => ih fun e he => ?_)
      have hlength := h e he
      rw [List.length_append, List.length_singleton]
      omega

private theorem le_foldl_max (ns : List Nat) (a : Nat) :
    a ≤ ns.foldl max a ∧ ∀ n ∈ ns, n ≤ ns.foldl max a := by
  induction ns generalizing a with
  | nil => simp
  | cons m ns ih =>
      obtain ⟨hstart, hall⟩ := ih (max a m)
      rw [List.foldl_cons]
      refine ⟨by omega, fun n hn => ?_⟩
      rcases List.mem_cons.mp hn with rfl | hn
      · omega
      · exact hall n hn

theorem length_le_depthBound {fs : FileSystem} {e : Location × Node} (he : e ∈ fs.entries) :
    e.1.length ≤ depthBound fs := by
  have hmem : e.1.length ∈ fs.entries.map fun e => e.1.length := List.mem_map_of_mem he
  have hle := (le_foldl_max _ 0).2 _ hmem
  unfold depthBound
  omega

/-- Going deeper than the bound finds no more candidates. -/
theorem candidatesBelow_depthBound (fs : FileSystem) (extension : String) (top : Path)
    (l : Location) (k : Nat) :
    candidatesBelow fs extension (depthBound fs + k) top l =
      candidatesBelow fs extension (depthBound fs) top l :=
  candidatesBelow_eq_of_deep (fun _ he => Nat.le_add_left_of_le (length_le_depthBound he)) k

/-- Going deeper than the bound finds no more files. -/
theorem filesBelow_depthBound (fs : FileSystem) (extension : String) (top : Path) (l : Location)
    (k : Nat) :
    filesBelow fs extension (depthBound fs + k) top l =
      filesBelow fs extension (depthBound fs) top l := by
  rw [filesBelow_eq_filter, filesBelow_eq_filter, candidatesBelow_depthBound]

/-! ## Walks and outlines -/

theorem listedNames_outline (fs : FileSystem) (l : Location) :
    listedNames fs.outline l = listedNames fs l := by
  have hnames : childNames fs.outline l = childNames fs l := by
    simp only [childNames, outline, mapNodes, List.map_map]
    rfl
  rw [listedNames, listedNames, hnames]
  rfl

theorem isPlainDirectory_outline (fs : FileSystem) (l : Location) :
    isPlainDirectory fs.outline l = isPlainDirectory fs l := by
  rw [isPlainDirectory, isPlainDirectory, node?_outline]
  cases fs.node? l with
  | none => rfl
  | some node => cases node <;> rfl

theorem candidatesBelow_outline {fs : FileSystem} {extension : String} {n : Nat} {top : Path}
    {l : Location} :
    candidatesBelow fs.outline extension n top l = candidatesBelow fs extension n top l := by
  have hclosed : ∀ q, fs.outline.isClosed q = fs.isClosed q := fun _ => rfl
  induction n generalizing top l with
  | zero => rfl
  | succ n ih =>
      simp only [candidatesBelow, namesAsked, directoryNames, listedNames_outline,
        isPlainDirectory_outline, hclosed, ih]

/-- The entries that a walk asks about are told by the outline. -/
theorem candidates_outline (fs : FileSystem) (root : Path) (extension : String) :
    candidates fs.outline root extension = candidates fs root extension := by
  have hdepth : depthBound fs.outline = depthBound fs := by
    simp only [depthBound, outline, mapNodes, List.map_map]
    rfl
  simp only [candidates, reach_outline, hdepth, candidatesBelow_outline]

/-- A walk asks for the outline alone. -/
theorem sourceFiles_outline (fs : FileSystem) (root : Path) (extension : String) :
    sourceFiles fs.outline root extension = sourceFiles fs root extension := by
  have hfile : fs.outline.isFile = fs.isFile := funext isFile_outline
  rw [sourceFiles_eq_filter, sourceFiles_eq_filter, candidates_outline, hfile]

theorem walkFault?_outline (fs : FileSystem) (root : Path) (extension : String) :
    walkFault? fs.outline root extension = walkFault? fs root extension := by
  have hfault : fs.outline.statusFault? = fs.statusFault? := funext statusFault?_outline
  rw [walkFault?, walkFault?, candidates_outline, hfault]

/-! ## Entries of a walk -/

/-- A walk finds files only. -/
theorem isFile_of_mem_sourceFiles {fs : FileSystem} {root r : Path} {extension : String}
    (h : r ∈ sourceFiles fs root extension) : fs.isFile r = true := by
  rw [sourceFiles_eq_filter] at h
  exact (List.mem_filter.mp h).2

/-- The path of a settled location is in normal form. -/
theorem normal_pathOf {fs : FileSystem} {l : Location} (hl : fs.Settled l) :
    (pathOf l).normal = pathOf l := by
  have hnames : ∀ n ∈ l, Path.isName n = true := by
    intro n hn
    obtain ⟨q, rest, rfl⟩ := List.append_of_mem hn
    exact (hl q n ⟨rest, by simp⟩).1.1
  simp only [Path.normal, pathOf, List.filter_eq_self.mpr hnames]

theorem stem_pathOf {fs : FileSystem} {l : Location} (hl : fs.Settled l) :
    (pathOf l).stem = pathOf l := by
  have hlast : l.getLast? ≠ some "" := by
    intro h
    obtain ⟨q, rfl⟩ := List.getLast?_eq_some_iff.mp h
    exact absurd (hl q "" List.prefix_rfl).1.1 (by decide)
  simp [Path.stem, pathOf, hlast]

section

variable {fs : FileSystem} {extension : String} {l : Location}

theorem isPlainDirectory_iff : isPlainDirectory fs l = true ↔ fs.node? l = some .directory := by
  unfold isPlainDirectory
  split
  case h_1 hnode => simp [hnode]
  case h_2 hnode => simpa using hnode

theorem directory_of_mem_directoryNames {top : Path} {d : String}
    (h : d ∈ directoryNames fs top l) : fs.node? (l ++ [d]) = some .directory := by
  have hplain := (List.mem_filter.mp h).2
  simp only [Bool.and_eq_true] at hplain
  obtain ⟨⟨⟨-, hd⟩, -⟩, -⟩ := hplain
  exact isPlainDirectory_iff.mp hd

/-- The candidates of a walk are entries strictly below its location. -/
theorem exists_of_mem_candidatesBelow {n : Nat} {p : Path} (hs : fs.Formed)
    (hl : fs.node? l = some .directory) (h : p ∈ candidatesBelow fs extension n (pathOf l) l) :
    ∃ m rest, p = pathOf (l ++ m :: rest) ∧ fs.node? (l ++ m :: rest) ≠ none := by
  induction n generalizing l with
  | zero => cases h
  | succ n ih =>
      rw [candidatesBelow, normal_pathOf (hs.settled hl)] at h
      rcases List.mem_append.mp h with h | h
      · obtain ⟨m, hm, rfl⟩ := List.mem_map.mp h
        exact ⟨m, [], rfl, node?_ne_none_of_mem_listedNames (List.mem_filter.mp hm).1⟩
      · obtain ⟨d, hmem, hd⟩ := List.mem_flatMap.mp h
        obtain ⟨m, rest, hp, hnode⟩ :=
          ih (l := l ++ [d]) (directory_of_mem_directoryNames hmem) hd
        rw [List.append_assoc] at hp hnode
        exact ⟨d, m :: rest, hp, hnode⟩

/-- The candidates of a walk are each met once. -/
theorem nodup_candidatesBelow (hs : fs.Formed) (extension : String) (n : Nat)
    (hl : fs.node? l = some .directory) : (candidatesBelow fs extension n (pathOf l) l).Nodup := by
  induction n generalizing l with
  | zero => exact List.nodup_nil
  | succ n ih =>
      have hchild : Function.Injective (pathOf l).child := by
        intro m m' h
        simpa [Path.child] using h
      have hsub : ∀ d ∈ directoryNames fs (pathOf l) l,
          ∀ p ∈ candidatesBelow fs extension n ((pathOf l).child d) (l ++ [d]),
            ∃ m rest, p = pathOf (l ++ d :: m :: rest) := by
        intro d hd p hp
        obtain ⟨m, rest, rfl, -⟩ := exists_of_mem_candidatesBelow (l := l ++ [d]) hs
          (directory_of_mem_directoryNames hd) hp
        exact ⟨m, rest, by rw [List.append_assoc]; rfl⟩
      rw [candidatesBelow, normal_pathOf (hs.settled hl), List.nodup_append, List.nodup_flatMap]
      refine ⟨((nodup_listedNames fs l).filter _).map hchild, ⟨fun d hd => ?_, ?_⟩, ?_⟩
      · exact ih (directory_of_mem_directoryNames hd)
      · refine List.Pairwise.imp_of_mem ?_ ((nodup_listedNames fs l).filter _)
        intro d d' hd hd' hne p hp hp'
        obtain ⟨m, rest, rfl⟩ := hsub d hd p hp
        obtain ⟨m', rest', heq⟩ := hsub d' hd' _ hp'
        simp only [pathOf_inj, List.append_cancel_left_eq, List.cons.injEq] at heq
        exact hne heq.1
      · intro p hp q hq heq
        obtain ⟨k, -, rfl⟩ := List.mem_map.mp hp
        obtain ⟨d, hmem, hd⟩ := List.mem_flatMap.mp hq
        obtain ⟨m, rest, rfl⟩ := hsub d hmem q hd
        simp [Path.child, pathOf] at heq

/-- The candidates of a walk have short names, if the path has from which it begins. -/
theorem isOverlong_eq_false_of_mem_candidatesBelow {n : Nat} {top c : Path} (hs : fs.Formed)
    (hp : ∀ m ∈ top.names, isOverlong m = false)
    (h : c ∈ candidatesBelow fs extension n top l) : ∀ m ∈ c.names, isOverlong m = false := by
  induction n generalizing top l with
  | zero => cases h
  | succ n ih =>
      rcases List.mem_append.mp h with h | h
      · obtain ⟨m, hm, rfl⟩ := List.mem_map.mp h
        have hshort := hs.short l m (node?_ne_none_of_mem_listedNames (List.mem_filter.mp hm).1)
        refine List.forall_mem_append.mpr ⟨fun k hk => ?_, List.forall_mem_singleton.mpr hshort⟩
        exact hp k (List.mem_filter.mp hk).1
      · obtain ⟨d, hd, hc⟩ := List.mem_flatMap.mp h
        have hshort := hs.short l d (node?_ne_none_of_mem_listedNames (List.mem_filter.mp hd).1)
        exact ih (List.forall_mem_append.mpr ⟨hp, List.forall_mem_singleton.mpr hshort⟩) hc

end

/-- A path that is too long to be looked up has no candidates. -/
theorem candidates_of_isOverlongPath {fs : FileSystem} {extension : String} {root : Path}
    (h : isOverlongPath root = true) : candidates fs root extension = [] := by
  rw [candidates, reach, h, if_pos rfl]

theorem isOverlongPath_root_eq_false {fs : FileSystem} {extension : String} {root p : Path}
    (hp : p ∈ candidates fs root extension) : isOverlongPath root = false := by
  by_contra hlong
  rw [Bool.not_eq_false] at hlong
  simp [candidates_of_isOverlongPath hlong] at hp

/-- From a directory whose path is short a walk begins at that path. -/
theorem candidates_pathOf {fs : FileSystem} {extension : String} {l : Location} (hs : fs.Sound)
    (hshort : isOverlongPath (pathOf l) = false) (h : fs.node? l = some .directory) :
    candidates fs (pathOf l) extension =
      candidatesBelow fs extension (depthBound fs) (pathOf l) l := by
  have hlocate := hs.locate_pathOf h (not_isLink_of_directory h)
  rw [candidates, reach_eq_ok_iff.mpr ⟨hshort, hlocate⟩, stem_pathOf (hs.settled h)]

/-- The candidates of a walk from a directory are entries strictly below it. -/
theorem exists_of_mem_candidates {fs : FileSystem} {extension : String} {l : Location} {p : Path}
    (hs : fs.Sound) (hl : fs.node? l = some .directory)
    (hp : p ∈ candidates fs (pathOf l) extension) :
    ∃ m rest, p = pathOf (l ++ m :: rest) ∧ fs.node? (l ++ m :: rest) ≠ none := by
  rw [candidates_pathOf hs (isOverlongPath_root_eq_false hp) hl] at hp
  exact exists_of_mem_candidatesBelow hs.toFormed hl hp

/-- The candidates of a walk have short paths, if that is so of all entries. -/
theorem isOverlongPath_eq_false_of_mem_candidates {fs : FileSystem} {extension : String}
    {l : Location} {p : Path} (hs : fs.Sound) (hl : fs.node? l = some .directory)
    (hentries : ∀ e ∈ fs.entries, isOverlongPath (pathOf e.1) = false)
    (hp : p ∈ candidates fs (pathOf l) extension) : isOverlongPath p = false := by
  obtain ⟨m, rest, rfl, hnode⟩ := exists_of_mem_candidates hs hl hp
  rcases List.eq_nil_or_concat (l ++ m :: rest) with hnil | ⟨d, n, heq⟩
  · simp at hnil
  · rw [List.concat_eq_append] at heq
    rw [heq] at hnode ⊢
    obtain ⟨e, he, hlocation⟩ := node?_ne_none_iff.mp hnode
    exact hlocation ▸ hentries e he

/-- From a directory whose path is short a walk finds the files below it. -/
theorem sourceFiles_pathOf {fs : FileSystem} {extension : String} {l : Location} (hs : fs.Sound)
    (hshort : isOverlongPath (pathOf l) = false) (h : fs.node? l = some .directory) :
    sourceFiles fs (pathOf l) extension =
      filesBelow fs extension (depthBound fs) (pathOf l) l := by
  rw [sourceFiles_eq_filter, candidates_pathOf hs hshort h, ← filesBelow_eq_filter]

theorem endsWith_eq_isSuffixOf (s t : String) :
    s.endsWith t = t.toList.isSuffixOf s.toList := by
  rw [Bool.eq_iff_iff, List.isSuffixOf_iff_suffix, String.endsWith,
    String.Slice.endsWith_string_iff, String.copy_toSlice]

section

variable {fs : FileSystem} {extension : String} {n : Nat} {top : Path} {l : Location}
  {names directories : List String}

theorem directoryNames_eq (hnames : listedNames fs l = names)
    (h : (names.filter fun m =>
      !isPassedOver m && isPlainDirectory fs (l ++ [m]) && !fs.isClosed l &&
        !isOverlongPath (top.child m)) = directories) : directoryNames fs top l = directories := by
  rw [directoryNames, hnames, h]

/-- One level of the candidates of a walk, where the names below its location are known. -/
theorem candidatesBelow_succ_eq (asked directories : List String)
    (hnames : listedNames fs l = names)
    (hasked : (names.filter fun m =>
      extension.toList.isSuffixOf m.toList && !isPlainDirectory fs (l ++ [m])) = asked)
    (hdirectories : (names.filter fun m =>
      !isPassedOver m && isPlainDirectory fs (l ++ [m]) && !fs.isClosed l &&
        !isOverlongPath (top.child m)) = directories) :
    candidatesBelow fs extension (n + 1) top l =
      asked.map top.normal.child ++
        directories.flatMap fun d => candidatesBelow fs extension n (top.child d) (l ++ [d]) := by
  have hasked' : namesAsked fs extension l = asked := by
    simp only [← hasked, namesAsked, hnames, endsWith_eq_isSuffixOf]
  rw [candidatesBelow, hasked', directoryNames_eq hnames hdirectories]

/-- One level of the files of a walk, where the names below its location are known. -/
theorem filesBelow_succ_eq (files directories : List String) (hnames : listedNames fs l = names)
    (hfiles : (names.filter fun m =>
      extension.toList.isSuffixOf m.toList && !isPlainDirectory fs (l ++ [m]) &&
        fs.isFile (top.normal.child m)) = files)
    (hdirectories : (names.filter fun m =>
      !isPassedOver m && isPlainDirectory fs (l ++ [m]) && !fs.isClosed l &&
        !isOverlongPath (top.child m)) = directories) :
    filesBelow fs extension (n + 1) top l =
      files.map top.normal.child ++
        directories.flatMap fun d => filesBelow fs extension n (top.child d) (l ++ [d]) := by
  have hfiles' : fileNames fs extension top l = files := by
    rw [← hfiles, fileNames, namesAsked, List.filter_filter, hnames]
    refine List.filter_congr fun m _ => ?_
    rw [endsWith_eq_isSuffixOf, Bool.and_comm]
  rw [filesBelow, hfiles', directoryNames_eq hnames hdirectories]

end

/-! ## Walks of two file systems -/

/-- The file systems hold the same at the location and below it. -/
def AgreeBelow (b : Location) (fs₁ fs₂ : FileSystem) : Prop :=
  ∀ q, b <+: q → fs₁.node? q = fs₂.node? q

/-- The links among the entries lead to the same content, or in both to none, and what
they lead to can be told in both or in neither. -/
def LinksAgree (fs₁ fs₂ : FileSystem) (entries : List Path) : Prop :=
  ∀ r, pathOf r ∈ entries → fs₁.IsLink r →
    (fs₁.read (pathOf r)).toOption = (fs₂.read (pathOf r)).toOption ∧
      fs₁.statusFault? (pathOf r) = fs₂.statusFault? (pathOf r)

section Agreement

variable {fs₁ fs₂ : FileSystem} {b l r : Location} {extension : String}

theorem AgreeBelow.of_prefix (h : AgreeBelow b fs₁ fs₂) (hl : b <+: l) :
    AgreeBelow l fs₁ fs₂ :=
  fun q hq => h q (hl.trans hq)

theorem AgreeBelow.isPlainDirectory_eq (h : AgreeBelow l fs₁ fs₂) (d : String) :
    isPlainDirectory fs₁ (l ++ [d]) = isPlainDirectory fs₂ (l ++ [d]) := by
  rw [isPlainDirectory, isPlainDirectory, h _ (List.prefix_append l [d])]

theorem AgreeBelow.listedNames_eq (h : AgreeBelow l fs₁ fs₂) (hs₁ : fs₁.Sound)
    (hs₂ : fs₂.Sound) : listedNames fs₁ l = listedNames fs₂ l := by
  rw [listedNames, listedNames, hs₁.isHidden_eq, hs₂.isHidden_eq,
    childNames_congr fun m => h _ (List.prefix_append l [m])]

/-- The candidates of a walk are told by the nodes below its location. -/
theorem AgreeBelow.candidatesBelow_eq (h : AgreeBelow l fs₁ fs₂) (hs₁ : fs₁.Sound)
    (hs₂ : fs₂.Sound) (n : Nat) (top : Path) :
    candidatesBelow fs₁ extension n top l = candidatesBelow fs₂ extension n top l := by
  induction n generalizing top l with
  | zero => rfl
  | succ n ih =>
      have hbelow : ∀ d, candidatesBelow fs₁ extension n (top.child d) (l ++ [d]) =
          candidatesBelow fs₂ extension n (top.child d) (l ++ [d]) := fun d =>
        ih (h.of_prefix (List.prefix_append l [d])) _
      simp only [candidatesBelow, namesAsked, directoryNames, h.listedNames_eq hs₁ hs₂,
        h.isPlainDirectory_eq, hs₁.isClosed_eq, hs₂.isClosed_eq, hbelow]

/-- Access to a location that is no link arrives there in both file systems. -/
theorem AgreeBelow.locate_pathOf (h : AgreeBelow l fs₁ fs₂) (hs₁ : fs₁.Sound) (hs₂ : fs₂.Sound)
    (hr : l <+: r) (hnode : fs₁.node? r ≠ none) (hlink : ¬ fs₁.IsLink r) :
    fs₁.locate true (pathOf r) = .ok r ∧ fs₂.locate true (pathOf r) = .ok r := by
  obtain ⟨node, h₁⟩ := Option.ne_none_iff_exists'.mp hnode
  have h₂ : fs₂.node? r = some node := (h r hr).symm.trans h₁
  have hlink₂ : ¬ fs₂.IsLink r := by
    rwa [IsLink, ← h r hr]
  exact ⟨hs₁.locate_pathOf h₁ hlink, hs₂.locate_pathOf h₂ hlink₂⟩

/-- The file systems hold the same below a directory, and the links there that are named
like source files lead alike. -/
structure WalkedAlike (fs₁ fs₂ : FileSystem) (l : Location) (extension : String) : Prop where
  sound₁ : fs₁.Sound
  sound₂ : fs₂.Sound
  directory : fs₁.node? l = some .directory
  agree : AgreeBelow l fs₁ fs₂
  links : LinksAgree fs₁ fs₂ (candidates fs₁ (pathOf l) extension)

namespace WalkedAlike

/-- Walks have the same candidates: both depths are enough for either. -/
theorem candidates_eq (h : WalkedAlike fs₁ fs₂ l extension) :
    candidates fs₁ (pathOf l) extension = candidates fs₂ (pathOf l) extension := by
  have h₂ : fs₂.node? l = some .directory :=
    (h.agree l (List.prefix_refl l)).symm.trans h.directory
  cases hshort : isOverlongPath (pathOf l) with
  | true => rw [candidates_of_isOverlongPath hshort, candidates_of_isOverlongPath hshort]
  | false =>
      rw [candidates_pathOf h.sound₁ hshort h.directory, candidates_pathOf h.sound₂ hshort h₂,
        ← candidatesBelow_depthBound fs₁ _ _ _ (depthBound fs₂),
        ← candidatesBelow_depthBound fs₂ _ _ _ (depthBound fs₁), Nat.add_comm (depthBound fs₂)]
      exact h.agree.candidatesBelow_eq h.sound₁ h.sound₂ _ _

/-- The candidates lead to the same contents, and fail alike. -/
theorem led_alike (h : WalkedAlike fs₁ fs₂ l extension) {p : Path}
    (hp : p ∈ candidates fs₁ (pathOf l) extension) :
    (fs₁.read p).toOption = (fs₂.read p).toOption ∧ fs₁.statusFault? p = fs₂.statusFault? p := by
  obtain ⟨m, rest, rfl, hnode⟩ := exists_of_mem_candidates h.sound₁ h.directory hp
  by_cases hlink : fs₁.IsLink (l ++ m :: rest)
  case pos => exact h.links _ hp hlink
  case neg =>
    have hbelow : l <+: l ++ m :: rest := List.prefix_append l _
    obtain ⟨h₁, h₂⟩ := h.agree.locate_pathOf h.sound₁ h.sound₂ hbelow hnode hlink
    have hsame := h.agree _ hbelow
    have hhidden : ∀ q, fs₁.isHidden q = fs₂.isHidden q := fun q => by
      rw [h.sound₁.isHidden_eq, h.sound₂.isHidden_eq]
    rw [statusFault?, statusFault?, status_congr_of_locate h₁ h₂ hsame,
      read_congr_of_locate h₁ h₂ hsame (hhidden _)]
    exact ⟨rfl, rfl⟩

/-- Walks find the same files. -/
theorem sourceFiles_eq (h : WalkedAlike fs₁ fs₂ l extension) :
    sourceFiles fs₁ (pathOf l) extension = sourceFiles fs₂ (pathOf l) extension := by
  rw [sourceFiles_eq_filter, sourceFiles_eq_filter, ← h.candidates_eq]
  refine List.filter_congr fun p hp => ?_
  rw [h.sound₁.isFile_eq_isSome_read, h.sound₂.isFile_eq_isSome_read, (h.led_alike hp).1]

/-- Walks break off alike. -/
theorem walkFault?_eq (h : WalkedAlike fs₁ fs₂ l extension) :
    walkFault? fs₁ (pathOf l) extension = walkFault? fs₂ (pathOf l) extension := by
  rw [walkFault?, walkFault?, ← h.candidates_eq, ← List.head?_filterMap, ← List.head?_filterMap,
    List.filterMap_congr fun p hp => (h.led_alike hp).2]

/-- The files of a walk are read alike. -/
theorem read_eq (h : WalkedAlike fs₁ fs₂ l extension) :
    ∀ p ∈ sourceFiles fs₁ (pathOf l) extension, fs₁.read p = fs₂.read p := by
  intro p hp
  rw [sourceFiles_eq_filter, List.mem_filter, h.sound₁.isFile_eq_isSome_read] at hp
  obtain ⟨hcandidate, hfile⟩ := hp
  have hsame := (h.led_alike hcandidate).1
  cases h₁ : fs₁.read p with
  | error e => simp [h₁, Except.toOption] at hfile
  | ok content =>
      cases h₂ : fs₂.read p with
      | error e => simp [h₁, h₂, Except.toOption] at hsame
      | ok content' =>
          simp only [h₁, h₂, Except.toOption, Option.some.injEq] at hsame
          rw [hsame]

end WalkedAlike

end Agreement

/-! ## Walks that break off -/

section

variable {fs : FileSystem}

/-- A walk breaks off at the first entry of which it cannot be told what it leads to. -/
theorem walkFault?_eq_none_iff {root : Path} {extension : String} :
    walkFault? fs root extension = none ↔ ∀ p ∈ candidates fs root extension, fs.Tells p := by
  simp only [walkFault?, List.findSome?_eq_none_iff, statusFault?_eq_none_iff]

theorem exists_of_walkFault? {root : Path} {extension : String} {fault : FileFault}
    (h : walkFault? fs root extension = some fault) :
    ∃ p ∈ candidates fs root extension, ∃ e, fs.status p = .error e ∧ e.isAbsence = false ∧
      fault = ⟨e, p.text⟩ := by
  obtain ⟨p, hp, hfault⟩ := List.exists_of_findSome?_eq_some h
  exact ⟨p, hp, statusFault?_eq_some_iff.mp hfault⟩

/-- The candidates of a walk have short names. -/
theorem isOverlong_eq_false_of_mem_candidates {root p : Path} {extension : String}
    (hs : fs.Formed) (hp : p ∈ candidates fs root extension) :
    ∀ n ∈ p.names, isOverlong n = false := by
  unfold candidates at hp
  split at hp
  case h_1 => cases hp
  case h_2 l hreach =>
    have hroot := isOverlong_eq_false_of_locate (reach_eq_ok_iff.mp hreach).2
    refine isOverlong_eq_false_of_mem_candidatesBelow hs (fun n hn => ?_) hp
    unfold Path.stem at hn
    split at hn
    case isTrue =>
      obtain rfl := List.mem_singleton.mp hn
      decide
    case isFalse =>
      split at hn
      case isTrue => exact hroot n (List.dropLast_subset _ hn)
      case isFalse => exact hroot n hn

/-- A walk does not break off if no candidate has too long a path and no link leads over a
name that is too long. -/
theorem walkFault?_eq_none_of_linksShort {root : Path} {extension : String} (hs : fs.Sound)
    (hlinks : fs.LinksShort)
    (hshort : ∀ p ∈ candidates fs root extension, isOverlongPath p = false) :
    walkFault? fs root extension = none := by
  rw [walkFault?_eq_none_iff]
  intro p hp
  exact hlinks.tells hs (hshort p hp) (isOverlong_eq_false_of_mem_candidates hs.toFormed hp)

/-- From a directory a walk does not break off, if all entries have short paths, too. -/
theorem walkFault?_pathOf_eq_none {l : Location} {extension : String} (hs : fs.Sound)
    (hl : fs.node? l = some .directory) (hlinks : fs.LinksShort)
    (hentries : ∀ e ∈ fs.entries, isOverlongPath (pathOf e.1) = false) :
    walkFault? fs (pathOf l) extension = none :=
  walkFault?_eq_none_of_linksShort hs hlinks fun _ hp =>
    isOverlongPath_eq_false_of_mem_candidates hs hl hentries hp

end

end JavaAtlas.Source
