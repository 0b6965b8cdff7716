import Mathlib.Data.List.Flatten
import Mathlib.Data.List.Sort
import JavaAtlas.Proofs.Storage.Removal
import JavaAtlas.Proofs.Source.Walk

/-!
# Walks of growing trees

When entries are added to a file system, and none is replaced, the old one is a part of
the new one.  A walk of the new one finds every file that a walk of the old one finds,
in the same order, with new files between them.

Main results:

- Theorem `filesBelow_sublist`: the files below a location of a part.
- Theorem `sourceFiles_sublist`: the files of a walk of a part.
-/

namespace JavaAtlas.Source

open Storage FileSystem

variable {fs part : FileSystem} {extension : String} {l : Location}

/-- Names picked from those of a location of a part stand among names picked there from the
whole, if each of them is picked there, too: both are in order. -/
private theorem sublist_of_subset {names names' : List String}
    (hnames : names.Sublist (childNames part l)) (hnames' : names'.Sublist (childNames fs l))
    (h : names ⊆ names') : names.Sublist names' :=
  List.sublist_of_subperm_of_pairwise
    (List.subperm_of_subset ((nodup_childNames part l).sublist hnames) h)
    ((sorted_childNames part l).sublist hnames) ((sorted_childNames fs l).sublist hnames')

/-- What is listed below a location of a part is listed in the whole, and is of the same
kind there. -/
theorem mem_listedNames_of_part (h : IsPart part fs) (hs : fs.Sound) {n : String}
    (hn : n ∈ listedNames part l) :
    n ∈ listedNames fs l ∧
      isPlainDirectory part (l ++ [n]) = isPlainDirectory fs (l ++ [n]) := by
  obtain ⟨node, hnode⟩ :=
    Option.ne_none_iff_exists'.mp (node?_ne_none_of_mem_listedNames hn)
  have hwhole := h.node _ node hnode
  refine ⟨mem_listedNames.mpr ⟨hs.isHidden_eq l, by simp [hwhole]⟩, ?_⟩
  rw [isPlainDirectory, isPlainDirectory, hnode, hwhole]

theorem fileNames_sublist (h : IsPart part fs) (hs : fs.Sound) (top : Path) (l : Location) :
    (fileNames part extension top l).Sublist (fileNames fs extension top l) := by
  refine sublist_of_subset
    ((List.filter_sublist.trans List.filter_sublist).trans (sublist_listedNames part l))
    ((List.filter_sublist.trans List.filter_sublist).trans (sublist_listedNames fs l)) ?_
  intro n hn
  rw [fileNames, List.mem_filter, namesAsked, List.mem_filter] at hn ⊢
  obtain ⟨⟨hlisted, hasked⟩, hfile⟩ := hn
  obtain ⟨hlisted, hplain⟩ := mem_listedNames_of_part h hs hlisted
  exact ⟨⟨hlisted, hplain ▸ hasked⟩, h.isFile hfile⟩

theorem directoryNames_sublist (h : IsPart part fs) (hs : fs.Sound) (top : Path) (l : Location) :
    (directoryNames part top l).Sublist (directoryNames fs top l) := by
  refine sublist_of_subset (List.filter_sublist.trans (sublist_listedNames part l))
    (List.filter_sublist.trans (sublist_listedNames fs l)) ?_
  intro n hn
  rw [directoryNames, List.mem_filter] at hn ⊢
  obtain ⟨hlisted, hentered⟩ := hn
  obtain ⟨hlisted, hplain⟩ := mem_listedNames_of_part h hs hlisted
  simp only [Bool.and_eq_true] at hentered ⊢
  obtain ⟨⟨⟨hname, hd⟩, -⟩, hshort⟩ := hentered
  exact ⟨hlisted, ⟨⟨hname, hplain ▸ hd⟩, by simp [hs.isClosed_eq]⟩, hshort⟩

/-- The files below a location of a part stand among those of the whole. -/
theorem filesBelow_sublist (h : IsPart part fs) (hs : fs.Sound) (n : Nat) (top : Path)
    (l : Location) :
    (filesBelow part extension n top l).Sublist (filesBelow fs extension n top l) := by
  induction n generalizing top l with
  | zero => exact List.Sublist.refl _
  | succ n ih =>
      have hfiles : ((fileNames part extension top l).map top.normal.child).Sublist
          ((fileNames fs extension top l).map top.normal.child) :=
        (fileNames_sublist h hs top l).map top.normal.child
      have hbelow := (List.Sublist.flatMap_right (directoryNames part top l) fun d _ =>
        ih (top.child d) (l ++ [d])).trans
          ((directoryNames_sublist h hs top l).flatMap fun d =>
            filesBelow fs extension n (top.child d) (l ++ [d]))
      exact hfiles.append hbelow

/-- A walk from a directory of a part finds files that a walk of the whole finds too, in
the same order. -/
theorem sourceFiles_sublist (h : IsPart part fs) (hpart : part.Sound) (hs : fs.Sound)
    (hl : part.node? l = some .directory) :
    (sourceFiles part (pathOf l) extension).Sublist (sourceFiles fs (pathOf l) extension) := by
  have hl' : fs.node? l = some .directory := h.node l _ hl
  cases hshort : isOverlongPath (pathOf l) with
  | true =>
      rw [sourceFiles_eq_filter, candidates_of_isOverlongPath hshort]
      exact List.nil_sublist _
  | false =>
      -- both walks go deep enough for either
      have hdeep := filesBelow_depthBound part extension (pathOf l) l (depthBound fs)
      have hdeep' := filesBelow_depthBound fs extension (pathOf l) l (depthBound part)
      rw [Nat.add_comm] at hdeep'
      rw [sourceFiles_pathOf hpart hshort hl, sourceFiles_pathOf hs hshort hl', ← hdeep, ← hdeep']
      exact filesBelow_sublist h hs _ _ _

end JavaAtlas.Source
