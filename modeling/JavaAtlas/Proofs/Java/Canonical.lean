import JavaAtlas.Java.TypeText

/-!
# Canonical spelling piece by piece

The canonical spelling of a type is written from left to right, and what a character
becomes depends on the ending before it alone.  So the spelling of two texts in a row
is that of the first one, followed by that of the second one behind the ending that
the first one leaves.

Main results:

- Theorem `canonicalFrom_append`: the spelling of two texts in a row.
- Theorem `canonicalFrom_open_suffix`: what stands before a text adds to the front of
  its spelling and nothing else.
- Theorem `getLast?_canonicalFrom`: a spelling ends as the text does.
-/

namespace JavaAtlas.Java.TypeText

open Text

/-- What a spelling ends in after a character. -/
def endingAfterChar (e : Ending) (c : Char) : Ending :=
  if isBlank c then (if e = .open then .open else .gap)
  else if c = ',' then .open
  else if isTight c then .open
  else .word

/-- What a spelling ends in after characters. -/
def endingAfter (e : Ending) (cs : List Char) : Ending :=
  cs.foldl endingAfterChar e

@[simp]
theorem endingAfter_nil (e : Ending) : endingAfter e [] = e := rfl

@[simp]
theorem endingAfter_cons (e : Ending) (c : Char) (cs : List Char) :
    endingAfter e (c :: cs) = endingAfter (endingAfterChar e c) cs := rfl

theorem endingAfter_append (e : Ending) (cs ds : List Char) :
    endingAfter e (cs ++ ds) = endingAfter (endingAfter e cs) ds :=
  List.foldl_append

/-- What a character adds to a spelling. -/
def written (e : Ending) (c : Char) : List Char :=
  if isBlank c then []
  else if c = ',' then [',', ' ']
  else if isTight c then [c]
  else if e = .gap then [' ', c]
  else [c]

@[simp]
theorem canonicalFrom_nil (e : Ending) : canonicalFrom e [] = [] := by
  cases e <;> rfl

theorem canonicalFrom_cons (e : Ending) (c : Char) (cs : List Char) :
    canonicalFrom e (c :: cs) = written e c ++ canonicalFrom (endingAfterChar e c) cs := by
  rw [canonicalFrom, written, endingAfterChar]
  by_cases hblank : isBlank c = true
  case pos => simp only [hblank, if_true, List.nil_append]
  case neg =>
    by_cases hcomma : c = ','
    case pos =>
      subst hcomma
      simp only [hblank, if_true, Bool.false_eq_true, if_false, List.cons_append,
        List.nil_append]
    case neg =>
      by_cases htight : isTight c = true
      case pos => simp [hblank, hcomma, htight]
      case neg =>
        by_cases hgap : e = .gap
        case pos => simp [hblank, hcomma, htight, hgap]
        case neg => simp [hblank, hcomma, htight, hgap]

/-- The spelling of two texts in a row. -/
theorem canonicalFrom_append (e : Ending) (cs ds : List Char) :
    canonicalFrom e (cs ++ ds) =
      canonicalFrom e cs ++ canonicalFrom (endingAfter e cs) ds := by
  induction cs generalizing e with
  | nil => simp
  | cons c cs ih =>
      rw [List.cons_append, canonicalFrom_cons, canonicalFrom_cons, ih, endingAfter_cons,
        List.append_assoc]

/-- The ending before a text adds at most a space to its spelling. -/
theorem canonicalFrom_open_suffix (e : Ending) (cs : List Char) :
    canonicalFrom .open cs <:+ canonicalFrom e cs := by
  induction cs generalizing e with
  | nil => simp
  | cons c cs ih =>
      rw [canonicalFrom_cons, canonicalFrom_cons]
      by_cases hblank : isBlank c = true
      case pos =>
        simp only [written, endingAfterChar, hblank, if_true, List.nil_append]
        exact ih _
      case neg =>
        -- behind a character that is written both spellings go on alike
        have hending : endingAfterChar e c = endingAfterChar .open c := by
          simp [endingAfterChar, hblank]
        have hwritten : written .open c <:+ written e c := by
          unfold written
          by_cases hcomma : c = ','
          case pos => simp [hcomma]
          case neg =>
            by_cases htight : isTight c = true
            case pos => simp [hblank, hcomma, htight]
            case neg =>
              cases e with
              | «open» => exact List.suffix_rfl
              | word => simp [hblank, hcomma, htight]
              | gap => simp [hblank, hcomma, htight, List.suffix_cons]
        rw [hending]
        obtain ⟨front, hfront⟩ := hwritten
        exact ⟨front, by rw [← hfront, List.append_assoc]⟩

/-- A spelling ends in the last character of the text, if that is neither a blank nor a
comma. -/
theorem getLast?_canonicalFrom {e : Ending} {cs : List Char} {c : Char}
    (hblank : isBlank c = false) (hcomma : c ≠ ',') :
    (canonicalFrom e (cs ++ [c])).getLast? = some c := by
  have hlast : ∀ e, (written e c).getLast? = some c := by
    intro e
    by_cases htight : isTight c = true
    case pos => simp [written, hblank, hcomma, htight]
    case neg => cases e <;> simp [written, hblank, hcomma, htight]
  rw [canonicalFrom_append, canonicalFrom_cons, canonicalFrom_nil, List.append_nil,
    List.getLast?_append, hlast]
  rfl

/-- The spelling of a text ends in the spelling of what the text ends in. -/
theorem canonical_suffix (front back : String) :
    (canonical back).toList <:+ (canonical (front ++ back)).toList := by
  simp only [canonical, String.toList_ofList, String.toList_append, canonicalFrom_append]
  exact (canonicalFrom_open_suffix _ _).trans (List.suffix_append _ _)

end JavaAtlas.Java.TypeText
