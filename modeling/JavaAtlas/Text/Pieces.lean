/-!
# Pieces between separators

A text is cut at every occurrence of a separator.  There is one piece more than
there are separators, and joining the pieces gives the text again.
-/

namespace JavaAtlas.Text

/-- The pieces between the separators; there is always at least one. -/
def pieces (separator : Char) : List Char → List (List Char)
  | [] => [[]]
  | c :: cs =>
    if c = separator then [] :: pieces separator cs
    else
      match pieces separator cs with
      | [] => [[c]]
      | p :: ps => (c :: p) :: ps

theorem pieces_ne_nil (separator : Char) (cs : List Char) : pieces separator cs ≠ [] := by
  cases cs with
  | nil => simp [pieces]
  | cons c cs =>
    unfold pieces
    split
    · simp
    · split <;> simp

/-- A text without separators is one piece. -/
theorem pieces_of_not_mem {separator : Char} {cs : List Char} (h : separator ∉ cs) :
    pieces separator cs = [cs] := by
  induction cs with
  | nil => rfl
  | cons c cs ih =>
    rw [List.mem_cons, not_or] at h
    rw [pieces, if_neg (Ne.symm h.1), ih h.2]

/-- The first separator ends the first piece. -/
theorem pieces_append_cons {separator : Char} {cs : List Char} (h : separator ∉ cs)
    (rest : List Char) :
    pieces separator (cs ++ separator :: rest) = cs :: pieces separator rest := by
  induction cs with
  | nil => rw [List.nil_append, pieces, if_pos rfl]
  | cons c cs ih =>
    rw [List.mem_cons, not_or] at h
    rw [List.cons_append, pieces, if_neg (Ne.symm h.1), ih h.2]

/-- Any other character joins the first piece. -/
theorem exists_pieces_cons {separator c : Char} (h : c ≠ separator) (cs : List Char) :
    ∃ p ps, pieces separator cs = p :: ps ∧ pieces separator (c :: cs) = (c :: p) :: ps := by
  cases hp : pieces separator cs with
  | nil => exact absurd hp (pieces_ne_nil separator cs)
  | cons p ps => exact ⟨p, ps, rfl, by rw [pieces, if_neg h, hp]⟩

/-- No piece holds a separator. -/
theorem not_mem_of_mem_pieces {separator : Char} {cs p : List Char}
    (h : p ∈ pieces separator cs) : separator ∉ p := by
  induction cs generalizing p with
  | nil =>
    rw [pieces, List.mem_singleton] at h
    simp [h]
  | cons c cs ih =>
    by_cases hc : c = separator
    case pos =>
      rw [pieces, if_pos hc, List.mem_cons] at h
      obtain rfl | hrest := h
      · exact List.not_mem_nil
      · exact ih hrest
    case neg =>
      obtain ⟨q, qs, hcs, hcons⟩ := exists_pieces_cons hc cs
      rw [hcons, List.mem_cons] at h
      rw [hcs] at ih
      obtain rfl | hrest := h
      · simp [Ne.symm hc, ih List.mem_cons_self]
      · exact ih (List.mem_cons_of_mem q hrest)

/-- Joining the pieces gives the characters again. -/
theorem intercalate_pieces (separator : Char) (cs : List Char) :
    [separator].intercalate (pieces separator cs) = cs := by
  induction cs with
  | nil => rfl
  | cons c cs ih =>
    unfold pieces
    split
    case isTrue h =>
      cases hp : pieces separator cs with
      | nil => exact absurd hp (pieces_ne_nil separator cs)
      | cons p ps =>
        rw [hp] at ih
        simp [List.intercalate, List.intersperse, h] at ih ⊢
        exact ih
    case isFalse h =>
      cases hp : pieces separator cs with
      | nil => exact absurd hp (pieces_ne_nil separator cs)
      | cons p ps =>
        rw [hp] at ih
        cases ps <;> simp_all [List.intercalate, List.intersperse]

end JavaAtlas.Text
