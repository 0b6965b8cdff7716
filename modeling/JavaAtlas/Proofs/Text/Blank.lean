import Mathlib.Data.List.Basic
import JavaAtlas.Text.Blank

/-!
# Trimming

Trimming takes blanks away at the two ends of a text and nothing else, and it takes away
all that are there.

Main results:

- Theorem `exists_append_trim`: a text is its trimmed form between blanks.
- Theorem `trim_eq_self_iff`: a text stays as it is exactly if no blank stands at its ends.
-/

namespace JavaAtlas.Text

variable {cs : List Char}

/-- What trimming removes at the front is blank. -/
theorem exists_append_trimStart (cs : List Char) :
    ∃ gap, gap.all isBlank = true ∧ cs = gap ++ trimStart cs :=
  ⟨cs.takeWhile isBlank, List.all_takeWhile, List.takeWhile_append_dropWhile.symm⟩

/-- What trimming removes at the back is blank. -/
theorem exists_trimEnd_append (cs : List Char) :
    ∃ gap, gap.all isBlank = true ∧ cs = trimEnd cs ++ gap := by
  refine ⟨(cs.reverse.takeWhile isBlank).reverse, ?_, ?_⟩
  · rw [List.all_reverse]
    exact List.all_takeWhile
  · rw [trimEnd, ← List.reverse_append, List.takeWhile_append_dropWhile, List.reverse_reverse]

/-- A text is its trimmed form between blanks. -/
theorem exists_append_trim (cs : List Char) :
    ∃ front back, front.all isBlank = true ∧ back.all isBlank = true ∧
      cs = front ++ trim cs ++ back := by
  obtain ⟨front, hfront, hcs⟩ := exists_append_trimStart cs
  obtain ⟨back, hback, hstart⟩ := exists_trimEnd_append (trimStart cs)
  refine ⟨front, back, hfront, hback, ?_⟩
  rw [trim, List.append_assoc, ← hstart]
  exact hcs

/-- A trimmed text does not end in a blank. -/
theorem isBlank_of_mem_getLast?_trim {c : Char} (h : c ∈ (trim cs).getLast?) :
    isBlank c = false := by
  rw [trim, trimEnd, List.getLast?_reverse] at h
  have hnot := List.head?_dropWhile_not isBlank (trimStart cs).reverse
  rw [h] at hnot
  exact hnot

/-- A trimmed text does not begin with a blank. -/
theorem isBlank_of_mem_head?_trim {c : Char} (h : c ∈ (trim cs).head?) : isBlank c = false := by
  obtain ⟨gap, -, hgap⟩ := exists_trimEnd_append (trimStart cs)
  have hnot := List.head?_dropWhile_not isBlank cs
  have hstart : (cs.dropWhile isBlank).head? = some c := by
    rw [← trimStart, hgap, ← trim, List.head?_append, h]
    rfl
  rw [hstart] at hnot
  exact hnot

/-- A text stays as it is exactly if no blank stands at its ends. -/
theorem trim_eq_self_iff :
    trim cs = cs ↔
      (∀ c ∈ cs.head?, isBlank c = false) ∧ ∀ c ∈ cs.getLast?, isBlank c = false := by
  constructor
  · intro h
    rw [← h]
    exact ⟨fun c => isBlank_of_mem_head?_trim, fun c => isBlank_of_mem_getLast?_trim⟩
  · rintro ⟨hhead, hlast⟩
    -- a test that fails for the first character drops nothing
    have hkeep : ∀ cs : List Char, (∀ c ∈ cs.head?, isBlank c = false) →
        cs.dropWhile isBlank = cs := by
      intro cs hcs
      cases cs with
      | nil => rfl
      | cons c rest => exact List.dropWhile_cons_of_neg (by simp [hcs c rfl])
    have hback : ∀ c ∈ cs.reverse.head?, isBlank c = false := by
      rw [List.head?_reverse]
      exact hlast
    rw [trim, trimStart, hkeep cs hhead, trimEnd, hkeep _ hback, List.reverse_reverse]

end JavaAtlas.Text
