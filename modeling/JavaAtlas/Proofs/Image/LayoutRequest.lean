import JavaAtlas.Image.Layout
import JavaAtlas.Proofs.Text.Lines
import JavaAtlas.Proofs.Text.Substring

/-!
# The request for another layout engine

The request is a line of its own, but whether a text has it already is asked of the whole
text.  So a text that mentions the request anywhere stays as it is.  Otherwise the request
stands behind the first marker: it is a line exactly if the line of the marker ends there,
and then all other lines are as before.

Main definitions:

- `MentionsRequest`, `IsMarked`: what decides whether the request is put.
- `EndsLine`: what may follow the marker.

Main results:

- Theorem `withLayout_withLayout`: the request is put once.
- Theorem `exists_toList_withLayout`: where it is put.
- Theorem `linesOf_withLayout`: the lines of a text with the request.
- Theorem `not_mem_linesOf_withLayout`: no line asks if the line of the marker goes on.
-/

namespace JavaAtlas.Image

open Text

/-- The request occurs in the characters. -/
def OccursIn (cs : List Char) : Prop :=
  layoutRequest.toList <:+: cs

/-- The request occurs in the text. -/
def MentionsRequest (text : String) : Prop :=
  OccursIn text.toList

/-- A marker occurs in the text. -/
def IsMarked (text : String) : Prop :=
  diagramMarker.toList <:+: text.toList

/-- The lines of a text; behind the last line end there is one more. -/
def linesOf (text : String) : List (List Char) :=
  pieces '\n' text.toList

/-- Nothing follows on the line. -/
def EndsLine (after : List Char) : Prop :=
  ∀ c, after.head? = some c → c = '\n'

theorem layoutRequest_ne_nil : layoutRequest.toList ≠ [] := by
  decide

theorem diagramMarker_ne_nil : diagramMarker.toList ≠ [] := by
  decide

theorem feed_not_mem_layoutRequest : '\n' ∉ layoutRequest.toList := by
  decide

section

variable {text : String}

/-! ## Where the request may occur -/

/-- Nothing without its first character holds a beginning of the request. -/
theorem occursIn_append_iff {front cs : List Char} (h : '!' ∉ front) :
    OccursIn (front ++ cs) ↔ OccursIn cs :=
  infix_append_iff_of_head_not_mem h

theorem occursIn_cons_iff {c : Char} {cs : List Char} (h : c ≠ '!') :
    OccursIn (c :: cs) ↔ OccursIn cs :=
  @occursIn_append_iff [c] cs (by simpa using Ne.symm h)

theorem not_occursIn {cs : List Char} (h : '!' ∉ cs) : ¬ OccursIn cs := by
  rw [← List.append_nil cs, occursIn_append_iff h]
  exact fun hnil => layoutRequest_ne_nil (List.infix_nil.mp hnil)

@[simp]
theorem not_mentionsRequest_empty : ¬ MentionsRequest "" :=
  not_occursIn List.not_mem_nil

/-- The request stands on one side of a character that it lacks. -/
theorem occursIn_append_cons_iff {c : Char} {before rest : List Char}
    (h : c ∉ layoutRequest.toList) :
    OccursIn (before ++ c :: rest) ↔ OccursIn before ∨ OccursIn rest :=
  infix_append_cons_iff layoutRequest_ne_nil h

/-- It does not end with a blank. -/
theorem occursIn_append_blank_cons_iff {c : Char} {before rest : List Char}
    (h : c ∉ layoutRequest.toList) :
    OccursIn (before ++ ' ' :: c :: rest) ↔ OccursIn before ∨ OccursIn rest := by
  have hblank : OccursIn (before ++ [' ']) ↔ OccursIn before :=
    infix_concat_iff_of_getLast? (by decide) layoutRequest_ne_nil
  rw [← hblank, ← occursIn_append_cons_iff h, List.append_assoc]
  rfl

/-- Lines mention the request exactly if one of them does. -/
theorem mentionsRequest_ended_iff {ls : List String} :
    MentionsRequest (ended ls) ↔ ∃ l ∈ ls, MentionsRequest l := by
  induction ls with
  | nil => simp [ended]
  | cons l ls ih =>
      have hcons : (ended (l :: ls)).toList = l.toList ++ '\n' :: (ended ls).toList := by
        simp [ended, String.join_cons]
      rw [MentionsRequest, hcons]
      refine (occursIn_append_cons_iff feed_not_mem_layoutRequest).trans ?_
      simp only [List.mem_cons, exists_eq_or_imp]
      exact or_congr_right ih

/-! ## Texts with the request -/

theorem withLayout_of_mentions (h : MentionsRequest text) (engine : Bool) :
    withLayout engine text = text := by
  rw [withLayout, if_pos (occursIn_iff.mpr h), ite_self]

theorem withLayout_of_not_marked (h : ¬ IsMarked text) (engine : Bool) :
    withLayout engine text = text := by
  rw [withLayout, replaceFirst_of_not_infix h, String.ofList_toList, ite_self, ite_self]

theorem withLayout_of_not_mentions (h : ¬ MentionsRequest text) :
    withLayout false text = .ofList (replaceFirst diagramMarker.toList
      (diagramMarker ++ "\n" ++ layoutRequest).toList text.toList) := by
  have hoccurs : ¬ occursIn layoutRequest.toList text.toList = true := by
    rwa [occursIn_iff]
  rw [withLayout, if_neg Bool.false_ne_true, if_neg hoccurs]

/-- The request stands on a line behind the first marker. -/
theorem exists_toList_withLayout (h : ¬ MentionsRequest text) (hmarked : IsMarked text) :
    ∃ before after, text.toList = before ++ diagramMarker.toList ++ after ∧
      ¬ diagramMarker.toList <:+: before ++ diagramMarker.toList.dropLast ∧
      (withLayout false text).toList =
        before ++ diagramMarker.toList ++ '\n' :: (layoutRequest.toList ++ after) := by
  obtain ⟨before, after, htext, hfirst, hreplace⟩ :=
    exists_replaceFirst_eq diagramMarker_ne_nil hmarked
  refine ⟨before, after, htext, hfirst, ?_⟩
  rw [withLayout_of_not_mentions h, hreplace, String.toList_ofList, String.toList_append,
    String.toList_append]
  simp [List.append_assoc]

/-- The request is put once. -/
theorem withLayout_withLayout (engine : Bool) (text : String) :
    withLayout engine (withLayout engine text) = withLayout engine text := by
  cases engine with
  | true => rfl
  | false =>
      by_cases h : MentionsRequest text
      case pos => rw [withLayout_of_mentions h, withLayout_of_mentions h]
      case neg =>
        by_cases hmarked : IsMarked text
        case neg => rw [withLayout_of_not_marked hmarked, withLayout_of_not_marked hmarked]
        case pos =>
          obtain ⟨before, after, -, -, hput⟩ := exists_toList_withLayout h hmarked
          refine withLayout_of_mentions ?_ false
          rw [MentionsRequest, hput]
          refine List.IsInfix.trans ?_ (List.suffix_append _ _).isInfix
          exact List.infix_cons (List.prefix_append _ after).isInfix

/-- Behind a marker that is the first line, the request is the second. -/
theorem linesOf_withLayout_of_front {rest : List Char}
    (htext : text.toList = diagramMarker.toList ++ '\n' :: rest) :
    linesOf text = diagramMarker.toList :: pieces '\n' rest ∧
      (¬ MentionsRequest text → linesOf (withLayout false text) =
        diagramMarker.toList :: layoutRequest.toList :: pieces '\n' rest) := by
  have hmarker : '\n' ∉ diagramMarker.toList := by decide
  refine ⟨by rw [linesOf, htext, pieces_append_cons hmarker], fun h => ?_⟩
  have hnew : (diagramMarker ++ "\n" ++ layoutRequest).toList ++ '\n' :: rest =
      diagramMarker.toList ++ '\n' :: (layoutRequest.toList ++ '\n' :: rest) := by
    simp
  rw [linesOf, withLayout_of_not_mentions h, htext, replaceFirst_append diagramMarker_ne_nil,
    String.toList_ofList, hnew, pieces_append_cons hmarker,
    pieces_append_cons feed_not_mem_layoutRequest]

/-! ## Lines -/

variable {before after : List Char} (htext : text.toList = before ++ diagramMarker.toList ++ after)
  (hput : (withLayout false text).toList =
    before ++ diagramMarker.toList ++ '\n' :: (layoutRequest.toList ++ after))

include htext hput

/-- Where the line of the marker ends, the request is one more line behind it. -/
theorem linesOf_withLayout (hafter : EndsLine after) :
    ∃ rest, linesOf text = pieces '\n' (before ++ diagramMarker.toList) ++ rest ∧
      linesOf (withLayout false text) =
        pieces '\n' (before ++ diagramMarker.toList) ++ layoutRequest.toList :: rest := by
  rw [linesOf, linesOf, hput, htext, pieces_append_separator]
  cases after with
  | nil =>
      refine ⟨[], by simp, ?_⟩
      rw [List.append_nil, pieces_of_not_mem feed_not_mem_layoutRequest]
  | cons c after =>
      obtain rfl := hafter c rfl
      refine ⟨pieces '\n' after, pieces_append_separator _ _, ?_⟩
      rw [pieces_append_cons feed_not_mem_layoutRequest]

/-- Where the line of the marker goes on, it goes on behind the request, and no line is the
request alone. -/
theorem not_mem_linesOf_withLayout (h : ¬ MentionsRequest text) (hafter : ¬ EndsLine after) :
    layoutRequest.toList ∉ linesOf (withLayout false text) := by
  have hbefore : ¬ layoutRequest.toList <:+: before ++ diagramMarker.toList := fun hinside =>
    h (hinside.trans (htext ▸ (List.prefix_append _ after).isInfix))
  have hbehind : ¬ layoutRequest.toList <:+: after := fun hinside =>
    h (hinside.trans (htext ▸ (List.suffix_append _ after).isInfix))
  obtain ⟨c, more, rfl, hc⟩ : ∃ c more, after = c :: more ∧ c ≠ '\n' := by
    cases after with
    | nil => exact absurd (fun _ => nofun) hafter
    | cons c more => exact ⟨c, more, rfl, fun hc => hafter fun d hd => by cases hd; exact hc⟩
  obtain ⟨p, ps, -, hpieces⟩ := exists_pieces_cons hc more
  rw [linesOf, hput, pieces_append_separator,
    pieces_append_of_not_mem feed_not_mem_layoutRequest hpieces, List.mem_append, List.mem_cons]
  rintro (hmem | hself | hmem)
  · exact hbefore (infix_of_mem_pieces hmem)
  · exact List.cons_ne_nil c p (List.self_eq_append_right.mp hself)
  · exact hbehind (infix_of_mem_pieces (hpieces ▸ List.mem_cons_of_mem _ hmem))

end

end JavaAtlas.Image
