import JavaAtlas.Proofs.Java.Alike
import JavaAtlas.Proofs.Java.Canonical

/-!
# Spacing inside types

The canonical spelling of a type drops most of the layout between its tokens.  Blanks next
to punctuation leave no trace.  Elsewhere it makes a difference whether there are any, as
behind a question mark, but not how many.  A comment is spelled with the type and always
leaves a trace.  So tokens in a row that are set at even joints are spelled alike.

Main results:

- Theorem `spelledAlike_textOfTokens`: tokens with even joints are spelled alike, whatever
  stands before and behind them.
- Theorem `textOfTokens_congr`: tokens with the same gaps have the same text.
-/

namespace JavaAtlas.Java

open JavaAtlas.Text JavaAtlas.Java.Tree

namespace TypeText

/-! ## Characters that are spelled alike -/

/-- Characters that are spelled alike behind every ending and leave the same one. -/
def SpelledAlike (cs ds : List Char) : Prop :=
  ∀ e, canonicalFrom e cs = canonicalFrom e ds ∧ endingAfter e cs = endingAfter e ds

theorem SpelledAlike.refl (cs : List Char) : SpelledAlike cs cs :=
  fun _ => ⟨rfl, rfl⟩

theorem SpelledAlike.append {cs ds cs' ds' : List Char} (h : SpelledAlike cs ds)
    (h' : SpelledAlike cs' ds') : SpelledAlike (cs ++ cs') (ds ++ ds') := by
  intro e
  rw [canonicalFrom_append, canonicalFrom_append, endingAfter_append, endingAfter_append,
    (h e).1, (h e).2, (h' _).1, (h' _).2]
  exact ⟨rfl, rfl⟩

theorem SpelledAlike.canonical_eq {s s' : String} (h : SpelledAlike s.toList s'.toList) :
    canonical s = canonical s' := by
  rw [canonical, canonical, (h .open).1]

section Blanks

variable {cs ds : List Char}

/-- Blanks are not spelled. -/
theorem canonicalFrom_of_blank (e : Ending) (h : cs.all isBlank = true) :
    canonicalFrom e cs = [] := by
  induction cs generalizing e with
  | nil => exact canonicalFrom_nil e
  | cons c cs ih =>
      rw [List.all_cons, Bool.and_eq_true] at h
      rw [canonicalFrom_cons, written, if_pos h.1, List.nil_append]
      exact ih _ h.2

/-- Blanks leave a gap behind a word, however many there are. -/
theorem endingAfter_of_blank (e : Ending) (h : cs.all isBlank = true) :
    endingAfter e cs = if cs = [] ∨ e = .open then e else .gap := by
  induction cs generalizing e with
  | nil => simp
  | cons c cs ih =>
      rw [List.all_cons, Bool.and_eq_true] at h
      rw [endingAfter_cons, ih _ h.2, endingAfterChar, if_pos h.1]
      cases e <;> simp

theorem spelledAlike_of_blank (hcs : cs.all isBlank = true) (hds : ds.all isBlank = true)
    (h : cs = [] ↔ ds = []) : SpelledAlike cs ds := by
  intro e
  rw [canonicalFrom_of_blank e hcs, canonicalFrom_of_blank e hds, endingAfter_of_blank e hcs,
    endingAfter_of_blank e hds]
  simp only [h, and_self]

end Blanks

section Punctuation

variable {c : Char}

theorem isBlank_of_isPunctuation (h : isPunctuation c = true) : isBlank c = false := by
  simp only [isPunctuation, isTight, Bool.or_eq_true, beq_iff_eq] at h
  rcases h with (((((rfl | rfl) | rfl) | rfl) | rfl) | rfl) | rfl <;> decide

/-- Punctuation is spelled alike behind every ending. -/
theorem written_of_isPunctuation (h : isPunctuation c = true) (e : Ending) :
    written e c = written .open c := by
  rw [written, written, isBlank_of_isPunctuation h]
  simp only [isPunctuation, Bool.or_eq_true, beq_iff_eq] at h
  by_cases hcomma : c = ','
  case pos => simp [hcomma]
  case neg => simp [hcomma, h.resolve_right hcomma]

/-- Behind punctuation a word may follow at once. -/
theorem endingAfterChar_of_isPunctuation (h : isPunctuation c = true) (e : Ending) :
    endingAfterChar e c = .open := by
  rw [endingAfterChar, isBlank_of_isPunctuation h]
  simp only [isPunctuation, Bool.or_eq_true, beq_iff_eq] at h
  by_cases hcomma : c = ','
  case pos => simp [hcomma]
  case neg => simp [hcomma, h.resolve_right hcomma]

end Punctuation

/-! ## Joints -/

/-- The text ends in punctuation. -/
def endsTight (s : String) : Bool :=
  s.toList.getLast?.any isPunctuation

/-- The text begins with punctuation. -/
def beginsTight (s : String) : Bool :=
  s.toList.head?.any isPunctuation

theorem endingAfter_of_endsTight {s : String} (h : endsTight s = true) (e : Ending) :
    endingAfter e s.toList = .open := by
  rw [endsTight, Option.any_eq_true] at h
  obtain ⟨c, hlast, hc⟩ := h
  obtain ⟨cs, hcs⟩ := List.getLast?_eq_some_iff.mp hlast
  rw [hcs, endingAfter_append, endingAfter_cons, endingAfter_nil]
  exact endingAfterChar_of_isPunctuation hc _

/-- What begins with punctuation is spelled alike behind every ending. -/
theorem of_beginsTight {s : String} (h : beginsTight s = true) (cs : List Char) (e : Ending) :
    canonicalFrom e (s.toList ++ cs) = canonicalFrom .open (s.toList ++ cs) ∧
      endingAfter e (s.toList ++ cs) = endingAfter .open (s.toList ++ cs) := by
  rw [beginsTight, Option.any_eq_true] at h
  obtain ⟨c, hhead, hc⟩ := h
  obtain ⟨rest, hrest⟩ := List.head?_eq_some_iff.mp hhead
  rw [hrest, List.cons_append, canonicalFrom_cons, canonicalFrom_cons, endingAfter_cons,
    endingAfter_cons, written_of_isPunctuation hc, endingAfterChar_of_isPunctuation hc,
    endingAfterChar_of_isPunctuation hc]
  exact ⟨rfl, rfl⟩

/-- What stands between two tokens in one text and in another is spelled alike: it is the
same, or it consists of blanks, and where there are blanks in one text alone, punctuation
stands next to them. -/
def EvenGap (before after gap gap' : String) : Prop :=
  gap = gap' ∨
    (isBlankText gap = true ∧ isBlankText gap' = true ∧
      ((gap = "" ↔ gap' = "") ∨ endsTight before = true ∨ beginsTight after = true))

instance (before after gap gap' : String) : Decidable (EvenGap before after gap gap') :=
  inferInstanceAs (Decidable (_ ∨ _))

/-- An even gap behind a token makes no difference to what follows. -/
theorem EvenGap.spelledAlike {before after gap gap' : String} {cs ds : List Char}
    (h : EvenGap before after gap gap')
    (hrest : SpelledAlike (after.toList ++ cs) (after.toList ++ ds)) :
    SpelledAlike (before.toList ++ (gap.toList ++ (after.toList ++ cs)))
      (before.toList ++ (gap'.toList ++ (after.toList ++ ds))) := by
  rcases h with rfl | ⟨hgap, hgap', hempty | htight | htight⟩
  · exact (SpelledAlike.refl _).append ((SpelledAlike.refl _).append hrest)
  · refine (SpelledAlike.refl _).append (.append (spelledAlike_of_blank hgap hgap' ?_) hrest)
    rw [String.toList_eq_nil_iff, String.toList_eq_nil_iff]
    exact hempty
  · intro e
    simp only [canonicalFrom_append, endingAfter_append, endingAfter_of_endsTight htight,
      canonicalFrom_of_blank _ hgap, canonicalFrom_of_blank _ hgap',
      endingAfter_of_blank _ hgap, endingAfter_of_blank _ hgap', or_true, if_true,
      List.nil_append]
    have hopen := hrest .open
    simp only [canonicalFrom_append, endingAfter_append] at hopen
    exact ⟨by rw [hopen.1], hopen.2⟩
  · refine (SpelledAlike.refl _).append fun e => ?_
    rw [canonicalFrom_append, canonicalFrom_append _ gap'.toList, endingAfter_append,
      endingAfter_append _ gap'.toList, canonicalFrom_of_blank _ hgap,
      canonicalFrom_of_blank _ hgap', (of_beginsTight htight _ _).1, (of_beginsTight htight _ _).2,
      (of_beginsTight htight ds _).1, (of_beginsTight htight ds _).2, (hrest .open).1,
      (hrest .open).2]
    exact ⟨rfl, rfl⟩

end TypeText

/-! ## Tokens in a row -/

/-- Tokens in two rows meet a condition at every joint: on the token before it, which both
rows share, and the tokens behind it. -/
def JointsMeet (q : String → Token → Token → Prop) : List Token → List Token → Prop
  | a :: a' :: as, _ :: b' :: bs => q a.text a' b' ∧ JointsMeet q (a' :: as) (b' :: bs)
  | _, _ => True

instance decidableJointsMeet {q : String → Token → Token → Prop}
    [∀ s a b, Decidable (q s a b)] : ∀ as bs, Decidable (JointsMeet q as bs)
  | [], _ => inferInstanceAs (Decidable True)
  | [_], _ => inferInstanceAs (Decidable True)
  | _ :: _ :: _, [] => inferInstanceAs (Decidable True)
  | _ :: _ :: _, [_] => inferInstanceAs (Decidable True)
  | _ :: a' :: as, _ :: b' :: bs =>
    have := decidableJointsMeet (q := q) (a' :: as) (b' :: bs)
    inferInstanceAs (Decidable (_ ∧ _))

/-- Induction on two rows of the same tokens, joint by joint. -/
theorem JointsMeet.jointwise {q : String → Token → Token → Prop}
    {P : List Token → List Token → Prop} (nil : P [] [])
    (single : ∀ a b, a.text = b.text → P [a] [b])
    (joint : ∀ a b a' b' as bs, a.text = b.text → a'.text = b'.text → q a.text a' b' →
      P (a' :: as) (b' :: bs) → P (a :: a' :: as) (b :: b' :: bs)) {as bs : List Token}
    (hbare : as.map Token.bare = bs.map Token.bare) (h : JointsMeet q as bs) : P as bs := by
  induction as generalizing bs with
  | nil =>
      rw [List.map_nil, eq_comm, List.map_eq_nil_iff] at hbare
      rw [hbare]
      exact nil
  | cons a as ih =>
      cases bs with
      | nil => cases hbare
      | cons b bs =>
          rw [List.map_cons, List.map_cons, List.cons.injEq] at hbare
          have htext := (Token.bare_eq_iff.mp hbare.1).2
          cases as with
          | nil =>
              obtain rfl : bs = [] := by simpa using hbare.2
              exact single a b htext
          | cons a' as =>
              cases bs with
              | nil => cases hbare.2
              | cons b' bs =>
                  have htext' : a'.text = b'.text := by
                    rw [List.map_cons, List.map_cons, List.cons.injEq] at hbare
                    exact (Token.bare_eq_iff.mp hbare.2.1).2
                  exact joint a b a' b' as bs htext htext' h.1 (ih hbare.2 h.2)

/-- The same stands before both tokens. -/
def SameGap (_ : String) (a b : Token) : Prop :=
  a.gap = b.gap

instance (s : String) (a b : Token) : Decidable (SameGap s a b) :=
  inferInstanceAs (Decidable (_ = _))

/-- What stands before the tokens is even. -/
def EvenJoint (before : String) (a b : Token) : Prop :=
  TypeText.EvenGap before a.text a.gap b.gap

instance (s : String) (a b : Token) : Decidable (EvenJoint s a b) :=
  inferInstanceAs (Decidable (TypeText.EvenGap _ _ _ _))

/-- The text of tokens in a row, from the second one on. -/
theorem textOfTokens_cons_cons (a b : Token) (ts : List Token) :
    textOfTokens (a :: b :: ts) = a.text ++ (b.gap ++ textOfTokens (b :: ts)) := by
  simp only [textOfTokens, List.map_cons, String.join_cons, String.append_assoc]

theorem textOfTokens_singleton (a : Token) : textOfTokens [a] = a.text := by
  simp [textOfTokens, String.join_cons]

/-- A row of tokens begins with the first one. -/
theorem exists_toList_textOfTokens (a : Token) (ts : List Token) :
    ∃ cs, (textOfTokens (a :: ts)).toList = a.text.toList ++ cs := by
  refine ⟨(String.join (ts.map fun u => u.gap ++ u.text)).toList, ?_⟩
  rw [textOfTokens, String.join_cons, String.toList_append]

/-- Tokens with the same gaps have the same text. -/
theorem textOfTokens_congr {as bs : List Token} (hbare : as.map Token.bare = bs.map Token.bare)
    (hgaps : JointsMeet SameGap as bs) : textOfTokens as = textOfTokens bs := by
  refine hgaps.jointwise (P := fun as bs => textOfTokens as = textOfTokens bs) rfl ?single ?joint
    hbare
  case single =>
    intro a b htext
    rw [textOfTokens_singleton, textOfTokens_singleton, htext]
  case joint =>
    intro a b a' b' as bs htext _ hgap ih
    rw [textOfTokens_cons_cons, textOfTokens_cons_cons, htext, hgap, ih]

/-- Tokens with even joints are spelled alike. -/
theorem spelledAlike_textOfTokens {as bs : List Token}
    (hbare : as.map Token.bare = bs.map Token.bare) (heven : JointsMeet EvenJoint as bs) :
    TypeText.SpelledAlike (textOfTokens as).toList (textOfTokens bs).toList := by
  refine heven.jointwise
    (P := fun as bs => TypeText.SpelledAlike (textOfTokens as).toList (textOfTokens bs).toList)
    (.refl _) ?single ?joint hbare
  case single =>
    intro a b htext
    rw [textOfTokens_singleton, textOfTokens_singleton, htext]
    exact .refl _
  case joint =>
    intro a b a' b' as bs htext htext' hjoint ih
    obtain ⟨cs, hcs⟩ := exists_toList_textOfTokens a' as
    obtain ⟨ds, hds⟩ := exists_toList_textOfTokens b' bs
    rw [hcs, hds, ← htext'] at ih
    rw [textOfTokens_cons_cons, textOfTokens_cons_cons, ← htext]
    simp only [String.toList_append]
    rw [hcs, hds, ← htext']
    exact hjoint.spelledAlike ih

end JavaAtlas.Java
