import JavaAtlas.Proofs.Storage.Removal
import JavaAtlas.Proofs.Source.Walk

/-!
# Walks after a removal

When an entry that is no directory is removed, a walk meets the same candidates
without that one.  It finds the same files without that one, if no other file of the
walk is reached through the removed entry; only links can be.

Main results:

- Theorem `candidates_drop`: the candidates after a removal.
- Theorem `StandsAlone.sourceFiles_drop`: the files after a removal.
- Theorem `standsAlone_of_not_isLink`: if no other file of a walk is a link, none is
  reached through the removed entry.
-/

namespace JavaAtlas.Source

open Storage FileSystem

variable {fs : FileSystem} {extension : String} {l r : Location}

/-! ## Candidates -/

/-- Names below a location after a removal. -/
theorem listedNames_drop (hs : fs.Sound) (hr : fs.IsLeaf r) (l : Location) :
    listedNames (fs.drop r) l = (listedNames fs l).filter fun n => l ++ [n] ≠ r := by
  rw [listedNames, listedNames, hs.isHidden_eq, (hs.drop hr).isHidden_eq,
    if_neg Bool.false_ne_true, if_neg Bool.false_ne_true]
  refine childNames_eq_of_mem_iff ((sorted_childNames fs l).filter _)
    ((nodup_childNames fs l).filter _) fun n => ?_
  rw [List.mem_filter, mem_childNames, hs.node?_drop_leaf hr]
  by_cases hn : l ++ [n] = r
  · simp [hn]
  · simp [hn]

/-- The removed entry is no directory, and others stay of their kind. -/
theorem isPlainDirectory_drop (hs : fs.Sound) (hr : fs.IsLeaf r) (q : Location) :
    isPlainDirectory (fs.drop r) q = isPlainDirectory fs q := by
  rw [Bool.eq_iff_iff, isPlainDirectory_iff, isPlainDirectory_iff, hs.node?_drop_leaf hr]
  by_cases hq : q = r
  case neg => rw [if_neg hq]
  case pos =>
    obtain ⟨node, hnode, hne⟩ := hr
    rw [if_pos hq, hq, hnode]
    simpa using hne

/-- The directories that are entered stay after a removal. -/
theorem directoryNames_drop (hs : fs.Sound) (hr : fs.IsLeaf r) (top : Path) (l : Location) :
    directoryNames (fs.drop r) top l = directoryNames fs top l := by
  have hleaf : isPlainDirectory fs r = false := by
    obtain ⟨node, hnode, hne⟩ := hr
    rw [← Bool.not_eq_true, isPlainDirectory_iff, hnode]
    simpa using hne
  simp only [directoryNames, listedNames_drop hs hr, List.filter_filter,
    isPlainDirectory_drop hs hr, hs.isClosed_eq, (hs.drop hr).isClosed_eq]
  refine List.filter_congr fun n _ => ?_
  by_cases hn : l ++ [n] = r
  case pos => simp [hn, hleaf]
  case neg => simp [hn]

theorem candidatesBelow_drop (hs : fs.Sound) (hr : fs.IsLeaf r) (n : Nat) (hl : fs.Settled l) :
    candidatesBelow (fs.drop r) extension n (pathOf l) l =
      (candidatesBelow fs extension n (pathOf l) l).filter fun p => p ≠ pathOf r := by
  induction n generalizing l with
  | zero => rfl
  | succ n ih =>
      have hchild : ∀ m, (pathOf l).child m ≠ pathOf r ↔ l ++ [m] ≠ r := by
        intro m
        simp [Path.child, pathOf]
      have hbelow : ∀ d ∈ directoryNames fs (pathOf l) l,
          candidatesBelow (fs.drop r) extension n ((pathOf l).child d) (l ++ [d]) =
            (candidatesBelow fs extension n ((pathOf l).child d) (l ++ [d])).filter
              fun p => p ≠ pathOf r := fun d hd =>
        ih (hs.settled (directory_of_mem_directoryNames hd))
      rw [candidatesBelow, candidatesBelow, normal_pathOf hl, directoryNames_drop hs hr,
        List.filter_append, List.filter_map, List.filter_flatMap]
      congr 1
      · simp only [namesAsked, listedNames_drop hs hr, isPlainDirectory_drop hs hr,
          List.filter_filter]
        congr 1
        refine List.filter_congr fun m _ => ?_
        simp only [Function.comp_apply, hchild, Bool.and_comm]
      · exact congrArg List.flatten (List.map_congr_left hbelow)

/-- Below a directory a walk has the same candidates after a removal, without the entry
that was removed. -/
theorem candidates_drop (hs : fs.Sound) (hr : fs.IsLeaf r) (hl : fs.node? l = some .directory) :
    candidates (fs.drop r) (pathOf l) extension =
      (candidates fs (pathOf l) extension).filter fun p => p ≠ pathOf r := by
  have hl' : (fs.drop r).node? l = some .directory := by
    have hne : l ≠ r := by
      rintro rfl
      obtain ⟨node, hnode, hleaf⟩ := hr
      exact hleaf (Option.some.inj (hnode.symm.trans hl))
    rw [hs.node?_drop_leaf hr, if_neg hne, hl]
  cases hshort : isOverlongPath (pathOf l) with
  | true => simp [candidates_of_isOverlongPath hshort]
  | false =>
      -- both walks go deep enough for either
      have hdeep := candidatesBelow_depthBound fs extension (pathOf l) l (depthBound (fs.drop r))
      have hdeep' := candidatesBelow_depthBound (fs.drop r) extension (pathOf l) l (depthBound fs)
      rw [Nat.add_comm] at hdeep'
      rw [candidates_pathOf hs hshort hl, candidates_pathOf (hs.drop hr) hshort hl', ← hdeep,
        ← hdeep', candidatesBelow_drop hs hr _ (hs.settled hl)]

theorem nodup_candidates (hs : fs.Sound) (hl : fs.node? l = some .directory) :
    (candidates fs (pathOf l) extension).Nodup := by
  cases hshort : isOverlongPath (pathOf l) with
  | true =>
      rw [candidates_of_isOverlongPath hshort]
      exact List.nodup_nil
  | false =>
      rw [candidates_pathOf hs hshort hl]
      exact nodup_candidatesBelow hs.toFormed extension _ hl

/-- A walk that does not break off does not do so after a removal. -/
theorem walkFault?_drop_eq_none (hs : fs.Sound) (hr : fs.IsLeaf r)
    (hl : fs.node? l = some .directory) (h : walkFault? fs (pathOf l) extension = none) :
    walkFault? (fs.drop r) (pathOf l) extension = none := by
  rw [walkFault?, List.findSome?_eq_none_iff] at h ⊢
  intro p hp
  rw [candidates_drop hs hr hl] at hp
  exact (isPart_drop fs r).statusFault?_eq_none (h p (List.mem_filter.mp hp).1)

/-! ## Files -/

/-- No file of the list but the one at the location is lost when that one is removed. -/
def StandsAlone (fs : FileSystem) (r : Location) (files : List Path) : Prop :=
  ∀ p ∈ files, p ≠ pathOf r → (fs.drop r).isFile p = true

/-- A file that is no link stays when another entry is removed. -/
theorem isFile_drop_of_not_isLink {q : Location} (hs : fs.Sound) (hr : fs.IsLeaf r) (hq : q ≠ r)
    (hnode : fs.node? q ≠ none) (hlink : ¬ fs.IsLink q) (hfile : fs.isFile (pathOf q) = true) :
    (fs.drop r).isFile (pathOf q) = true := by
  obtain ⟨node, hnode⟩ := Option.ne_none_iff_exists'.mp hnode
  have hnode' : (fs.drop r).node? q = some node := by
    rw [hs.node?_drop_leaf hr, if_neg hq, hnode]
  have hlink' : ¬ (fs.drop r).IsLink q := by
    rintro ⟨target, htarget⟩
    exact hlink ⟨target, (isPart_drop fs r).node q _ htarget⟩
  have hsame : (fs.drop r).status (pathOf q) = fs.status (pathOf q) := by
    rw [status, status, hs.nodeAt_pathOf hnode hlink, (hs.drop hr).nodeAt_pathOf hnode' hlink']
  rwa [isFile, hsame]

/-- A file stands alone in a walk if no other file of the walk is a link. -/
theorem standsAlone_of_not_isLink (hs : fs.Sound) (hr : fs.IsLeaf r)
    (hl : fs.node? l = some .directory)
    (hlinks : ∀ q, pathOf q ∈ sourceFiles fs (pathOf l) extension → q ≠ r → ¬ fs.IsLink q) :
    StandsAlone fs r (sourceFiles fs (pathOf l) extension) := by
  intro p hp hne
  have hfile := isFile_of_mem_sourceFiles hp
  have hcandidate := hp
  rw [sourceFiles_eq_filter] at hcandidate
  obtain ⟨m, rest, rfl, hnode⟩ :=
    exists_of_mem_candidates hs hl (List.mem_filter.mp hcandidate).1
  have hq : l ++ m :: rest ≠ r := fun h => hne (congrArg pathOf h)
  exact isFile_drop_of_not_isLink hs hr hq hnode (hlinks _ hp hq) hfile

/-- Below a directory a walk finds the same files after the removal of one that stands
alone, without that one. -/
theorem StandsAlone.sourceFiles_drop (hs : fs.Sound) (hr : fs.IsLeaf r)
    (hl : fs.node? l = some .directory)
    (h : StandsAlone fs r (sourceFiles fs (pathOf l) extension)) :
    sourceFiles (fs.drop r) (pathOf l) extension =
      (sourceFiles fs (pathOf l) extension).filter fun p => p ≠ pathOf r := by
  rw [sourceFiles_eq_filter] at h
  rw [sourceFiles_eq_filter, sourceFiles_eq_filter, candidates_drop hs hr hl,
    List.filter_filter, List.filter_filter]
  refine List.filter_congr fun p hp => ?_
  by_cases hne : p = pathOf r
  case pos => simp [hne]
  case neg =>
    have hsame : (fs.drop r).isFile p = fs.isFile p := by
      rw [Bool.eq_iff_iff]
      constructor
      · exact (isPart_drop fs r).isFile
      · intro hfile
        exact h p (List.mem_filter.mpr ⟨hp, hfile⟩) hne
    simp [hne, hsame]

/-- The files before and after the one that is removed. -/
theorem StandsAlone.exists_sourceFiles_eq (hs : fs.Sound) (hr : fs.IsLeaf r)
    (hl : fs.node? l = some .directory)
    (hmem : pathOf r ∈ sourceFiles fs (pathOf l) extension)
    (h : StandsAlone fs r (sourceFiles fs (pathOf l) extension)) :
    ∃ before after,
      sourceFiles fs (pathOf l) extension = before ++ pathOf r :: after ∧
        sourceFiles (fs.drop r) (pathOf l) extension = before ++ after := by
  have hnodup : (sourceFiles fs (pathOf l) extension).Nodup := by
    rw [sourceFiles_eq_filter]
    exact (nodup_candidates hs hl).filter _
  obtain ⟨before, after, hfiles⟩ := List.append_of_mem hmem
  refine ⟨before, after, hfiles, ?_⟩
  rw [hfiles, List.nodup_append, List.nodup_cons] at hnodup
  obtain ⟨-, ⟨hafter, -⟩, hbefore⟩ := hnodup
  have hkeepBefore : ∀ p ∈ before, decide (p ≠ pathOf r) = true := fun p hp =>
    decide_eq_true (hbefore p hp _ List.mem_cons_self)
  have hkeepAfter : ∀ p ∈ after, decide (p ≠ pathOf r) = true := by
    intro p hp
    refine decide_eq_true ?_
    rintro rfl
    exact hafter hp
  rw [h.sourceFiles_drop hs hr hl, hfiles, List.filter_append, List.filter_cons_of_neg (by simp),
    List.filter_eq_self.mpr hkeepBefore, List.filter_eq_self.mpr hkeepAfter]

end JavaAtlas.Source
