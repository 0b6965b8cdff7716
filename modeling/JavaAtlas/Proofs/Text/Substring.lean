import JavaAtlas.Text.Pieces
import JavaAtlas.Text.Substring

/-!
# Where a piece occurs

A piece occurs in a text exactly if it is an infix of it, and replacing replaces its first
occurrence.  A piece that lacks a character occurs on one side of it or on the other; so the
occurrences in a text that is put together from others can be told from those in its parts.

Main results:

- Theorem `occursIn_iff`: what is tested.
- Theorem `exists_replaceFirst_eq`: what is replaced.
- Theorem `infix_append_cons_iff`, theorem `infix_append_iff_of_head_not_mem`: occurrences
  in the parts of a text.
- Theorem `pieces_append_separator`: pieces on both sides of a separator.
-/

namespace JavaAtlas.Text

variable {piece new cs before rest : List Char} {c : Char}

/-! ## Occurrences -/

theorem occursIn_iff : occursIn piece cs = true ↔ piece <:+: cs := by
  induction cs with
  | nil => rw [occursIn, List.isEmpty_iff, List.infix_nil]
  | cons c cs ih =>
      rw [occursIn, Bool.or_eq_true, List.isPrefixOf_iff_prefix, ih, List.infix_cons_iff]

theorem replaceFirst_of_not_infix (h : ¬ piece <:+: cs) : replaceFirst piece new cs = cs := by
  induction cs with
  | nil =>
      have hne : piece ≠ [] := fun hnil => h (List.infix_nil.mpr hnil)
      rw [replaceFirst, if_neg (by rwa [List.isEmpty_iff])]
  | cons c cs ih =>
      rw [List.infix_cons_iff, not_or] at h
      rw [replaceFirst, if_neg (by rw [List.isPrefixOf_iff_prefix]; exact h.1), ih h.2]

/-- A piece at the front is replaced there. -/
theorem replaceFirst_append (hne : piece ≠ []) (rest : List Char) :
    replaceFirst piece new (piece ++ rest) = new ++ rest := by
  obtain ⟨c, more, rfl⟩ := List.exists_cons_of_ne_nil hne
  have hfront : (c :: more).isPrefixOf (c :: (more ++ rest)) = true :=
    List.isPrefixOf_iff_prefix.mpr (List.prefix_append (c :: more) rest)
  rw [List.cons_append, replaceFirst, if_pos hfront, ← List.cons_append, List.drop_left]

/-- The first occurrence is replaced, and nothing else: before it, and over its beginning, no
other occurrence stands. -/
theorem exists_replaceFirst_eq (hne : piece ≠ []) (h : piece <:+: cs) :
    ∃ before after, cs = before ++ piece ++ after ∧ ¬ piece <:+: before ++ piece.dropLast ∧
      replaceFirst piece new cs = before ++ new ++ after := by
  induction cs with
  | nil => exact absurd (List.infix_nil.mp h) hne
  | cons c cs ih =>
      by_cases hfront : piece <+: c :: cs
      case pos =>
        obtain ⟨after, hafter⟩ := hfront
        refine ⟨[], after, hafter.symm, fun hinside => ?_, ?_⟩
        · have hlength := hinside.length_le
          have hpos := List.length_pos_iff.mpr hne
          rw [List.nil_append, List.length_dropLast] at hlength
          omega
        · rw [← hafter, replaceFirst_append hne]
          rfl
      case neg =>
        obtain ⟨before, after, hcs, hfirst, hreplace⟩ :=
          ih ((List.infix_cons_iff.mp h).resolve_left hfront)
        refine ⟨c :: before, after, by rw [hcs]; rfl, fun hinside => ?_, ?_⟩
        · rcases List.infix_cons_iff.mp hinside with hbegins | hinside
          · have hlonger : before ++ piece.dropLast <+: cs := by
              rw [hcs, List.append_assoc]
              exact List.prefix_append_right_inj before |>.mpr
                ((List.dropLast_prefix piece).trans (List.prefix_append piece after))
            exact hfront (hbegins.trans (List.cons_prefix_cons.mpr ⟨rfl, hlonger⟩))
          · exact hfirst hinside
        · rw [replaceFirst, if_neg (by rwa [List.isPrefixOf_iff_prefix]), hreplace]
          rfl

/-! ## Occurrences in parts -/

/-- A piece that lacks a character begins before it only if it ends before it. -/
theorem prefix_append_cons (hc : c ∉ piece) (h : piece <+: before ++ c :: rest) :
    piece <+: before := by
  rcases List.prefix_or_prefix_of_prefix h (List.prefix_append before (c :: rest)) with
    hshort | ⟨more, rfl⟩
  · exact hshort
  · cases more with
    | nil => simp
    | cons d more =>
        have hrest := (List.prefix_append_right_inj before).mp h
        obtain rfl := (List.cons_prefix_cons.mp hrest).1
        exact absurd (List.mem_append_right before List.mem_cons_self) hc

/-- A piece that lacks a character occurs on one side of it or on the other. -/
theorem infix_append_cons_iff (hne : piece ≠ []) (hc : c ∉ piece) :
    piece <:+: before ++ c :: rest ↔ piece <:+: before ∨ piece <:+: rest := by
  constructor
  · intro h
    induction before with
    | nil =>
        rcases List.infix_cons_iff.mp h with hbegins | hrest
        · exact absurd (List.prefix_nil.mp (prefix_append_cons hc hbegins)) hne
        · exact .inr hrest
    | cons d before ih =>
        rcases List.infix_cons_iff.mp h with hbegins | hinside
        · exact .inl (prefix_append_cons hc hbegins).isInfix
        · exact (ih hinside).imp_left fun h => List.infix_cons h
  · rintro (h | h)
    · exact h.trans (List.prefix_append before (c :: rest)).isInfix
    · exact (List.infix_cons h).trans (List.suffix_append before (c :: rest)).isInfix

/-- A piece does not begin in characters that lack its first one. -/
theorem infix_append_iff_of_head_not_mem (hc : c ∉ before) :
    c :: piece <:+: before ++ rest ↔ c :: piece <:+: rest := by
  induction before with
  | nil => rfl
  | cons d before ih =>
      obtain ⟨hd, hbefore⟩ := not_or.mp (mt List.mem_cons.mpr hc)
      rw [List.cons_append, List.infix_cons_iff, ih hbefore]
      refine or_iff_right fun hbegins => ?_
      exact hd (List.cons_prefix_cons.mp hbegins).1

/-- A piece does not end with a character that is not its last one. -/
theorem infix_concat_iff_of_getLast? (hc : piece.getLast? ≠ some c) (hne : piece ≠ []) :
    piece <:+: before ++ [c] ↔ piece <:+: before := by
  rw [List.infix_concat_iff]
  refine or_iff_right fun hsuffix => ?_
  rcases List.suffix_concat_iff.mp hsuffix with hnil | ⟨more, rfl, -⟩
  · exact hne hnil
  · exact hc (List.getLast?_concat ..)

/-! ## Pieces between separators -/

section

variable {separator : Char}

/-- The pieces on both sides of a separator. -/
theorem pieces_append_separator (before rest : List Char) :
    pieces separator (before ++ separator :: rest) =
      pieces separator before ++ pieces separator rest := by
  induction before with
  | nil =>
      have hfirst : pieces separator (separator :: rest) = [] :: pieces separator rest := by
        rw [pieces, if_pos rfl]
      exact hfirst
  | cons d before ih =>
      by_cases hd : d = separator
      case pos => rw [List.cons_append, pieces, pieces, if_pos hd, if_pos hd, ih]; rfl
      case neg =>
        obtain ⟨p, ps, hpieces, hcons⟩ := exists_pieces_cons hd before
        rw [List.cons_append, pieces, if_neg hd, ih, hpieces, hcons]
        rfl

/-- Characters without separators join the first piece. -/
theorem pieces_append_of_not_mem (h : separator ∉ before) {p : List Char}
    {ps : List (List Char)} (hrest : pieces separator rest = p :: ps) :
    pieces separator (before ++ rest) = (before ++ p) :: ps := by
  induction before with
  | nil => exact hrest
  | cons d before ih =>
      obtain ⟨hd, hbefore⟩ := not_or.mp (mt List.mem_cons.mpr h)
      rw [List.cons_append, pieces, if_neg (Ne.symm hd), ih hbefore]
      rfl

theorem prefix_of_pieces {p : List Char} {ps : List (List Char)}
    (h : pieces separator cs = p :: ps) : p <+: cs := by
  induction cs generalizing p ps with
  | nil =>
      cases h
      exact List.nil_prefix
  | cons c cs ih =>
      by_cases hc : c = separator
      case pos =>
        rw [pieces, if_pos hc] at h
        cases h
        exact List.nil_prefix
      case neg =>
        obtain ⟨q, qs, hcs, hcons⟩ := exists_pieces_cons hc cs
        cases hcons.symm.trans h
        exact List.cons_prefix_cons.mpr ⟨rfl, ih hcs⟩

/-- Every piece occurs. -/
theorem infix_of_mem_pieces {p : List Char} (h : p ∈ pieces separator cs) : p <:+: cs := by
  induction cs with
  | nil => exact (List.mem_singleton.mp h ▸ List.nil_infix)
  | cons c cs ih =>
      by_cases hc : c = separator
      case pos =>
        rw [pieces, if_pos hc] at h
        rcases List.mem_cons.mp h with rfl | h
        · exact List.nil_infix
        · exact List.infix_cons (ih h)
      case neg =>
        obtain ⟨q, qs, hcs, hcons⟩ := exists_pieces_cons hc cs
        rw [hcons] at h
        rcases List.mem_cons.mp h with rfl | h
        · exact (prefix_of_pieces hcons).isInfix
        · exact List.infix_cons (ih (hcs ▸ List.mem_cons_of_mem q h))

end

end JavaAtlas.Text
