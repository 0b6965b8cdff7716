import JavaAtlas.Proofs.Java.Spacing

/-!
# Pieces of a spelling

The pieces of a spelling are its words and its punctuation marks.  A word is a maximal run
of letters, which are the characters that are neither blank nor punctuation, and every mark
stands for itself.  The canonical spelling is a function of the pieces, and it consists of
the same pieces again.

Main definitions:

- `SetOut`: some characters set out some pieces, stated without a scan of the characters.
- `spellFrom`: the spelling of pieces behind an ending.

Main results:

- Theorem `piecesFrom_eq_iff_setOut`: the scan finds the pieces that are set out.
- Theorem `SetOut.canonicalFrom_eq`: the canonical spelling is that of the pieces.
- Theorem `SetOut.spelled`: the spelling of pieces sets them out.
-/

namespace JavaAtlas.Java.TypeText

open Text

/-! ## Letters -/

/-- A character of a word. -/
def isLetter (c : Char) : Bool :=
  !isBlank c && !isPunctuation c

theorem isLetter_eq_true {c : Char} :
    isLetter c = true ↔ isBlank c = false ∧ isPunctuation c = false := by
  simp [isLetter]

theorem isLetter_of_isBlank {c : Char} (h : isBlank c = true) : isLetter c = false := by
  simp [isLetter, h]

theorem isLetter_of_isPunctuation {c : Char} (h : isPunctuation c = true) :
    isLetter c = false := by
  simp [isLetter, h]

/-- The characters do not go on with a letter. -/
def EndsWord (cs : List Char) : Prop :=
  ∀ c ∈ cs.head?, isLetter c = false

theorem endsWord_nil : EndsWord [] := by
  simp [EndsWord]

theorem endsWord_cons {c : Char} {cs : List Char} :
    EndsWord (c :: cs) ↔ isLetter c = false := by
  simp [EndsWord]

/-! ## Characters that set out pieces -/

/-- Characters that consist of the given pieces, in order, with blanks before and between
them and behind the last one.  A word goes on as far as there are letters. -/
inductive SetOut : List Piece → List Char → Prop where
  | blank {gap : List Char} (hgap : gap.all isBlank = true) : SetOut [] gap
  | word {gap letters rest : List Char} {ps : List Piece} (hgap : gap.all isBlank = true)
      (hne : letters ≠ []) (hletters : letters.all isLetter = true) (hend : EndsWord rest)
      (hrest : SetOut ps rest) : SetOut (.word letters :: ps) (gap ++ (letters ++ rest))
  | mark {gap rest : List Char} {c : Char} {ps : List Piece} (hgap : gap.all isBlank = true)
      (hmark : isPunctuation c = true) (hrest : SetOut ps rest) :
      SetOut (.mark c :: ps) (gap ++ c :: rest)

/-- A blank in front makes no difference. -/
theorem SetOut.cons_blank {c : Char} (hc : isBlank c = true) {ps : List Piece} {cs : List Char}
    (h : SetOut ps cs) : SetOut ps (c :: cs) := by
  cases h with
  | blank hgap => exact .blank (by rw [List.all_cons, hc, hgap, Bool.and_self])
  | word hgap hne hletters hend hrest =>
      exact .word (by rw [List.all_cons, hc, hgap, Bool.and_self]) hne hletters hend hrest
  | mark hgap hmark hrest =>
      exact .mark (by rw [List.all_cons, hc, hgap, Bool.and_self]) hmark hrest

/-- A mark without blanks before it. -/
theorem SetOut.cons_mark {c : Char} (hmark : isPunctuation c = true) {ps : List Piece}
    {rest : List Char} (hrest : SetOut ps rest) : SetOut (.mark c :: ps) (c :: rest) := by
  have h : SetOut (.mark c :: ps) ([] ++ c :: rest) := .mark rfl hmark hrest
  exact h

/-- A word without blanks before it. -/
theorem SetOut.letters_append {letters : List Char} (hne : letters ≠ [])
    (hletters : letters.all isLetter = true) {ps : List Piece} {rest : List Char}
    (hend : EndsWord rest) (hrest : SetOut ps rest) :
    SetOut (.word letters :: ps) (letters ++ rest) := by
  have h : SetOut (.word letters :: ps) ([] ++ (letters ++ rest)) :=
    .word rfl hne hletters hend hrest
  exact h

/-! ## The scan -/

/-- Blanks in front are passed over. -/
theorem piecesFrom_blank_append {gap : List Char} (hgap : gap.all isBlank = true)
    (cs : List Char) : piecesFrom [] (gap ++ cs) = piecesFrom [] cs := by
  induction gap with
  | nil => rfl
  | cons c gap ih =>
      rw [List.all_cons, Bool.and_eq_true] at hgap
      rw [List.cons_append, piecesFrom, if_pos hgap.1]
      exact ih hgap.2

/-- Letters are taken up into the word. -/
theorem piecesFrom_letters_append {letters : List Char} (h : letters.all isLetter = true)
    (read cs : List Char) :
    piecesFrom read (letters ++ cs) = piecesFrom (letters.reverse ++ read) cs := by
  induction letters generalizing read with
  | nil => rfl
  | cons c letters ih =>
      rw [List.all_cons, Bool.and_eq_true] at h
      have hc := isLetter_eq_true.mp h.1
      rw [List.cons_append, piecesFrom, if_neg (by simp [hc.1]), if_neg (by simp [hc.2]),
        ih h.2, List.reverse_cons, List.append_assoc, List.singleton_append]

/-- Where no letter follows, the word that has been read is complete. -/
theorem piecesFrom_of_endsWord {cs : List Char} (h : EndsWord cs) (read : List Char) :
    piecesFrom read cs = closed read ++ piecesFrom [] cs := by
  cases cs with
  | nil => simp [piecesFrom, closed]
  | cons c cs =>
      rw [piecesFrom, piecesFrom.eq_2 [] c cs]
      by_cases hblank : isBlank c = true
      · simp [hblank, closed]
      · by_cases hmark : isPunctuation c = true
        · simp [hblank, hmark, closed]
        · have hletter : isLetter c = true := by simp [isLetter, hblank, hmark]
          rw [endsWord_cons.mp h] at hletter
          cases hletter

theorem closed_reverse {letters : List Char} (hne : letters ≠ []) :
    closed letters.reverse = [.word letters] := by
  have hreverse : letters.reverse ≠ [] := by simpa using hne
  cases hcs : letters.reverse with
  | nil => exact absurd hcs hreverse
  | cons c cs => rw [closed, ← hcs, List.reverse_reverse]; exact List.cons_ne_nil c cs

/-- The scan finds the pieces that are set out. -/
theorem SetOut.piecesFrom_eq {ps : List Piece} {cs : List Char} (h : SetOut ps cs) :
    piecesFrom [] cs = ps := by
  induction h with
  | @blank gap hgap =>
      rw [← List.append_nil gap, piecesFrom_blank_append hgap]
      rfl
  | word hgap hne hletters hend _ ih =>
      rw [piecesFrom_blank_append hgap, piecesFrom_letters_append hletters, List.append_nil,
        piecesFrom_of_endsWord hend, closed_reverse hne, ih, List.singleton_append]
  | mark hgap hmark _ ih =>
      rw [piecesFrom_blank_append hgap, piecesFrom,
        if_neg (by simp [isBlank_of_isPunctuation hmark]), if_pos hmark, ih]
      rfl

/-- What the scan finds is set out, also behind letters that have been read. -/
theorem setOut_piecesFrom (cs read : List Char) (hread : read.all isLetter = true) :
    SetOut (piecesFrom read cs) (read.reverse ++ cs) := by
  induction cs generalizing read with
  | nil =>
      by_cases hne : read = []
      · subst hne
        exact .blank rfl
      · have hend : SetOut [] [] := .blank rfl
        have hword := hend.letters_append (by simpa using hne : read.reverse ≠ [])
          (by simpa using hread) endsWord_nil
        simpa [piecesFrom, closed, hne] using hword
  | cons c cs ih =>
      -- The word read so far is complete, and `hnext` sets out what follows it.
      have close : isLetter c = false → SetOut (piecesFrom [] (c :: cs)) (c :: cs) →
          SetOut (piecesFrom read (c :: cs)) (read.reverse ++ c :: cs) := by
        intro hc hnext
        have hend : EndsWord (c :: cs) := endsWord_cons.mpr hc
        rw [piecesFrom_of_endsWord hend]
        by_cases hne : read = []
        · subst hne
          exact hnext
        · have hreverse : read.reverse ≠ [] := by simpa using hne
          have hclosed := closed_reverse hreverse
          rw [List.reverse_reverse] at hclosed
          rw [hclosed]
          exact hnext.letters_append hreverse (by simpa using hread) hend
      by_cases hblank : isBlank c = true
      · apply close (isLetter_of_isBlank hblank)
        rw [piecesFrom, if_pos hblank]
        exact (ih [] rfl).cons_blank hblank
      · by_cases hmark : isPunctuation c = true
        · apply close (isLetter_of_isPunctuation hmark)
          rw [piecesFrom, if_neg hblank, if_pos hmark]
          exact (ih [] rfl).cons_mark hmark
        · have hletter : isLetter c = true := by simp [isLetter, hblank, hmark]
          rw [piecesFrom, if_neg hblank, if_neg hmark]
          have hnext := ih (c :: read) (by rw [List.all_cons, hletter, hread, Bool.and_self])
          simpa using hnext

/-- The pieces of a spelling are the ones that its characters set out. -/
theorem piecesFrom_eq_iff_setOut {ps : List Piece} {cs : List Char} :
    piecesFrom [] cs = ps ↔ SetOut ps cs := by
  constructor
  · rintro rfl
    exact setOut_piecesFrom cs [] rfl
  · exact SetOut.piecesFrom_eq

/-! ## The spelling of pieces -/

/-- Punctuation is tight, or it is a comma. -/
theorem isTight_of_isPunctuation {c : Char} (h : isPunctuation c = true) (hne : c ≠ ',') :
    isTight c = true := by
  simpa [isPunctuation, hne] using h

/-- A mark is written as it is, and a comma with a space behind it. -/
theorem written_open_cases {c : Char} (h : isPunctuation c = true) :
    written .open c = [c] ∨ written .open c = [c, ' '] := by
  rw [written, isBlank_of_isPunctuation h]
  by_cases hcomma : c = ','
  · subst hcomma
    exact .inr rfl
  · exact .inl (by simp [hcomma, isTight_of_isPunctuation h hcomma])

/-- The spelling of pieces behind an ending: a word behind a word is kept apart from it. -/
def spellFrom : Ending → List Piece → List Char
  | _, [] => []
  | e, .word letters :: ps => (if e = .gap then [' '] else []) ++ (letters ++ spellFrom .gap ps)
  | _, .mark c :: ps => written .open c ++ spellFrom .open ps

theorem written_of_isLetter {c : Char} (h : isLetter c = true) (e : Ending) :
    written e c = if e = .gap then [' ', c] else [c] := by
  have hc := isLetter_eq_true.mp h
  have hmarks := hc.2
  simp only [isPunctuation, Bool.or_eq_false_iff, beq_eq_false_iff_ne] at hmarks
  simp [written, hc.1, hmarks.1, hmarks.2]

theorem endingAfterChar_of_isLetter {c : Char} (h : isLetter c = true) (e : Ending) :
    endingAfterChar e c = .word := by
  have hc := isLetter_eq_true.mp h
  have hmarks := hc.2
  simp only [isPunctuation, Bool.or_eq_false_iff, beq_eq_false_iff_ne] at hmarks
  simp [endingAfterChar, hc.1, hmarks.1, hmarks.2]

/-- A word is spelled as it is, once it has begun. -/
theorem canonicalFrom_word_append {letters : List Char} (h : letters.all isLetter = true)
    (cs : List Char) :
    canonicalFrom .word (letters ++ cs) = letters ++ canonicalFrom .word cs := by
  induction letters with
  | nil => rfl
  | cons c letters ih =>
      rw [List.all_cons, Bool.and_eq_true] at h
      rw [List.cons_append, canonicalFrom_cons, written_of_isLetter h.1,
        endingAfterChar_of_isLetter h.1, ih h.2]
      rfl

/-- A word behind a gap is kept apart from what stands before it. -/
theorem canonicalFrom_letters_append {letters : List Char} (hne : letters ≠ [])
    (h : letters.all isLetter = true) (e : Ending) (cs : List Char) :
    canonicalFrom e (letters ++ cs) =
      (if e = .gap then [' '] else []) ++ (letters ++ canonicalFrom .word cs) := by
  cases letters with
  | nil => exact absurd rfl hne
  | cons c letters =>
      rw [List.all_cons, Bool.and_eq_true] at h
      rw [List.cons_append, canonicalFrom_cons, written_of_isLetter h.1,
        endingAfterChar_of_isLetter h.1, canonicalFrom_word_append h.2]
      by_cases hgap : e = .gap
      · simp [hgap]
      · simp [hgap]

/-- Where a word does not go on, it makes no difference whether it is over already. -/
theorem canonicalFrom_of_endsWord {cs : List Char} (h : EndsWord cs) :
    canonicalFrom .word cs = canonicalFrom .gap cs := by
  cases cs with
  | nil => rw [canonicalFrom_nil, canonicalFrom_nil]
  | cons c cs =>
      rw [canonicalFrom_cons, canonicalFrom_cons]
      by_cases hblank : isBlank c = true
      · simp [written, endingAfterChar, hblank]
      · have hmark : isPunctuation c = true := by
          have hletter := endsWord_cons.mp h
          simpa [isLetter, hblank] using hletter
        rw [written_of_isPunctuation hmark, written_of_isPunctuation hmark .gap,
          endingAfterChar_of_isPunctuation hmark, endingAfterChar_of_isPunctuation hmark]

/-- Blanks in front of a text make no difference where a word is not going on. -/
theorem canonicalFrom_blank_append {gap : List Char} (hgap : gap.all isBlank = true) {e : Ending}
    (he : e ≠ .word) (cs : List Char) :
    canonicalFrom e (gap ++ cs) = canonicalFrom e cs := by
  have hending : endingAfter e gap = e := by
    rw [endingAfter_of_blank e hgap]
    cases e with
    | «open» => simp
    | word => exact absurd rfl he
    | gap => simp
  rw [canonicalFrom_append, canonicalFrom_of_blank e hgap, hending, List.nil_append]

/-- The canonical spelling is the spelling of the pieces. -/
theorem SetOut.canonicalFrom_eq {ps : List Piece} {cs : List Char} (h : SetOut ps cs) {e : Ending}
    (he : e ≠ .word) : canonicalFrom e cs = spellFrom e ps := by
  induction h generalizing e with
  | blank hgap => rw [canonicalFrom_of_blank e hgap, spellFrom]
  | word hgap hne hletters hend _ ih =>
      rw [canonicalFrom_blank_append hgap he, canonicalFrom_letters_append hne hletters,
        canonicalFrom_of_endsWord hend, ih (by decide), spellFrom]
  | mark hgap hmark _ ih =>
      rw [canonicalFrom_blank_append hgap he, canonicalFrom_cons, written_of_isPunctuation hmark,
        endingAfterChar_of_isPunctuation hmark, ih (by decide), spellFrom]

/-- Behind a word the spelling of pieces does not go on with a letter. -/
theorem SetOut.endsWord_spellFrom {ps : List Piece} {cs : List Char} (h : SetOut ps cs) :
    EndsWord (spellFrom .gap ps) := by
  cases h with
  | blank hgap => exact endsWord_nil
  | word hgap hne hletters hend hrest =>
      exact endsWord_cons.mpr (isLetter_of_isBlank (by decide))
  | @mark gap rest c ps hgap hmark hrest =>
      have hends (rest : List Char) : EndsWord (c :: rest) :=
        endsWord_cons.mpr (isLetter_of_isPunctuation hmark)
      rw [spellFrom]
      rcases written_open_cases hmark with hwritten | hwritten
      · rw [hwritten]
        exact hends _
      · rw [hwritten]
        exact hends _

/-- The spelling of pieces sets them out. -/
theorem SetOut.spelled {ps : List Piece} {cs : List Char} (h : SetOut ps cs) (e : Ending) :
    SetOut ps (spellFrom e ps) := by
  induction h generalizing e with
  | blank hgap => exact .blank rfl
  | word hgap hne hletters hend hrest ih =>
      refine .word ?_ hne hletters hrest.endsWord_spellFrom (ih .gap)
      by_cases he : e = .gap
      · rw [if_pos he]
        decide
      · rw [if_neg he]
        rfl
  | @mark gap rest c ps hgap hmark hrest ih =>
      rw [spellFrom]
      rcases written_open_cases hmark with hwritten | hwritten
      · rw [hwritten]
        exact (ih .open).cons_mark hmark
      · rw [hwritten]
        exact ((ih .open).cons_blank (by decide)).cons_mark hmark

theorem setOut_pieces (text : String) : SetOut (pieces text) text.toList :=
  setOut_piecesFrom text.toList [] rfl

/-- The canonical spelling of a text is the spelling of its pieces. -/
theorem canonical_eq_spellFrom (text : String) :
    canonical text = String.ofList (spellFrom .open (pieces text)) := by
  rw [canonical, (setOut_pieces text).canonicalFrom_eq (by decide)]

/-- The canonical spelling consists of the same pieces. -/
theorem pieces_of_canonical (text : String) : pieces (canonical text) = pieces text := by
  rw [canonical_eq_spellFrom, pieces, String.toList_ofList]
  exact ((setOut_pieces text).spelled .open).piecesFrom_eq

end JavaAtlas.Java.TypeText
