import JavaAtlas.ApiDocs.ClassPath
import JavaAtlas.Proofs.Source.Walk

/-!
# Entries of class paths

An entry of a class path is not empty and holds no separator.  So entries come back from
the class path that they are written as, and a class path that is put together from two
begins with the entries of the first one.

Main definitions:

- `ClassPath.IsEntry`: what can be an entry.
- `ClassPath.listed`: the entries that stand in a class path.

Main results:

- Theorem `listed_text`: entries come back from their class path.
- Theorem `exists_merged_eq_append`: what putting class paths together adds.
-/

namespace JavaAtlas.ApiDocs.ClassPath

/-- A text that can be an entry of a class path. -/
def IsEntry (e : String) : Prop :=
  e ≠ "" ∧ separator ∉ e.toList

/-- The entries that stand in a class path, with all their blanks. -/
def listed (classPath : String) : List String :=
  ((Text.pieces separator classPath.toList).filter fun p => !p.isEmpty).map String.ofList

theorem isEntry_of_mem_entries {classPath e : String} (h : e ∈ entries classPath) :
    IsEntry e := by
  obtain ⟨p, hp, rfl⟩ := List.mem_map.mp h
  rw [List.mem_filter] at hp
  refine ⟨?_, ?_⟩
  · simpa using hp.2
  · rw [String.toList_ofList]
    exact Text.not_mem_of_mem_pieces hp.1

/-- Entries come back from the class path that they are written as. -/
theorem listed_text {es : List String} (h : ∀ e ∈ es, IsEntry e) : listed (text es) = es := by
  induction es with
  | nil => rfl
  | cons e es ih =>
      obtain ⟨hempty, hseparator⟩ := h e List.mem_cons_self
      have hrest := ih fun f hf => h f (List.mem_cons_of_mem e hf)
      cases es with
      | nil =>
          have htext : text [e] = e := by simp [text]
          rw [htext, listed, Text.pieces_of_not_mem hseparator]
          simp [hempty]
      | cons f es =>
          have htext : (text (e :: f :: es)).toList =
              e.toList ++ separator :: (text (f :: es)).toList := by
            simp [text, String.intercalate_cons_cons]
          rw [listed, htext, Text.pieces_append_cons hseparator,
            List.filter_cons_of_pos (by simpa using hempty), List.map_cons, String.ofList_toList]
          exact congrArg (e :: ·) hrest

/-- The entries of both begin with those of the first one; all others are of the second
one. -/
theorem exists_merged_eq_append (first second : List String) :
    ∃ more, merged first second = first.eraseDups ++ more ∧ ∀ e ∈ more, e ∈ second := by
  refine ⟨(second.removeAll first).eraseDups, List.eraseDups_append, fun e he => ?_⟩
  rw [List.mem_eraseDups] at he
  exact List.mem_of_mem_filter he

theorem nodup_merged (first second : List String) : (merged first second).Nodup :=
  Source.nodup_eraseDups _

theorem listed_text_merged {first second : List String} (hfirst : ∀ e ∈ first, IsEntry e)
    (hsecond : ∀ e ∈ second, IsEntry e) :
    listed (text (merged first second)) = merged first second := by
  refine listed_text fun e he => ?_
  rw [merged, List.mem_eraseDups, List.mem_append] at he
  exact he.elim (hfirst e) (hsecond e)

end JavaAtlas.ApiDocs.ClassPath
