import JavaAtlas.Proofs.Java.Pieces
import JavaAtlas.Proofs.Text.Blank

/-!
# The canonical form of types

Three substitutions over the whole text make a type canonical: every run of blanks becomes
one space, tight punctuation loses the blanks around it, and a comma gets one space behind
it.  Later substitutions see what earlier ones left, and a comma gets back a space that the
one before it removed.  What comes out is still a canonical form: two texts have the same
one exactly if they have the same pieces.

Main definitions:

- `collapse`, `around`, `substituted`: the substitutions, one after the other.

Main results:

- Theorem `canonical_eq_substituted`: one pass over the text writes what the substitutions
  leave.
- Theorem `canonicalForm_of_pieces`: texts are spelled alike exactly if they have the same
  pieces, and the spelling keeps every piece.
-/

namespace JavaAtlas.Java.TypeText

open Text

/-! ## Substitutions -/

section Substitutions

-- The equations of the recursions hold for any test, so this one is not evaluated for them.
attribute [local irreducible] isBlank

/-- Every run of blanks becomes one space. -/
def collapse : List Char → List Char
  | [] => []
  | c :: cs => if isBlank c then ' ' :: collapse (cs.dropWhile isBlank) else c :: collapse cs
termination_by cs => cs.length
decreasing_by
  · exact Nat.lt_succ_of_le (List.dropWhile_sublist _).length_le
  · exact Nat.lt_succ_self _

/-- Every character of a kind is replaced, together with the blanks around it. -/
def around (p : Char → Bool) (put : Char → List Char) : List Char → List Char
  | [] => []
  | c :: cs =>
    match _h : (c :: cs).dropWhile isBlank with
    | [] => c :: around p put cs
    | d :: ds => if p d then put d ++ around p put (ds.dropWhile isBlank) else c :: around p put cs
termination_by cs => cs.length
decreasing_by
  · exact Nat.lt_succ_self _
  · have hle : (d :: ds).length ≤ (c :: cs).length := by
      rw [← _h]
      exact (List.dropWhile_sublist _).length_le
    have hrest : (ds.dropWhile isBlank).length ≤ ds.length := (List.dropWhile_sublist _).length_le
    simp only [List.length_cons] at hle ⊢
    omega
  · exact Nat.lt_succ_self _

/-- The substitutions, one after the other. -/
def substituted (cs : List Char) : List Char :=
  around (· == ',') (fun _ => [',', ' ']) (around isTight (fun c => [c]) (collapse cs))

theorem collapse_cons_of_blank {c : Char} (h : isBlank c = true) (cs : List Char) :
    collapse (c :: cs) = ' ' :: collapse (cs.dropWhile isBlank) := by
  rw [collapse, if_pos h]

theorem collapse_cons_of_not_blank {c : Char} (h : isBlank c = false) (cs : List Char) :
    collapse (c :: cs) = c :: collapse cs := by
  rw [collapse, if_neg (by simp [h])]

variable {p : Char → Bool} {put : Char → List Char}

/-- A character of the kind is replaced, with the blanks behind it. -/
theorem around_cons_of_pos {c : Char} (hblank : isBlank c = false) (hp : p c = true)
    (cs : List Char) : around p put (c :: cs) = put c ++ around p put (cs.dropWhile isBlank) := by
  have hdrop : (c :: cs).dropWhile isBlank = c :: cs :=
    List.dropWhile_cons_of_neg (by simp [hblank])
  rw [around]
  split
  · next h => rw [hdrop] at h; cases h
  · next d ds h =>
      rw [hdrop, List.cons.injEq] at h
      rw [← h.1, ← h.2, if_pos hp]

/-- Any other character stays. -/
theorem around_cons_of_neg {c : Char} (hblank : isBlank c = false) (hp : p c = false)
    (cs : List Char) : around p put (c :: cs) = c :: around p put cs := by
  have hdrop : (c :: cs).dropWhile isBlank = c :: cs :=
    List.dropWhile_cons_of_neg (by simp [hblank])
  rw [around]
  split
  · rfl
  · next d ds h =>
      rw [hdrop, List.cons.injEq] at h
      rw [← h.1, if_neg (by simp [hp])]

/-- A blank goes with the character of the kind that follows it. -/
theorem around_blank_of_pos {c d : Char} {cs ds : List Char} (hblank : isBlank c = true)
    (hcs : cs.dropWhile isBlank = d :: ds) (hp : p d = true) :
    around p put (c :: cs) = put d ++ around p put (ds.dropWhile isBlank) := by
  rw [around]
  split
  · next h => rw [List.dropWhile_cons_of_pos hblank, hcs] at h; cases h
  · next h =>
      rw [List.dropWhile_cons_of_pos hblank, hcs, List.cons.injEq] at h
      rw [← h.1, ← h.2, if_pos hp]

/-- A blank stays where no character of the kind follows it. -/
theorem around_blank_of_neg {c : Char} {cs : List Char} (hblank : isBlank c = true)
    (hp : ∀ d ∈ (cs.dropWhile isBlank).head?, p d = false) :
    around p put (c :: cs) = c :: around p put cs := by
  rw [around]
  split
  · rfl
  · next d ds h =>
      rw [List.dropWhile_cons_of_pos hblank] at h
      rw [if_neg (by simp [hp d (by rw [h]; rfl)])]

end Substitutions

/-- Whether blanks are dropped before or after makes no difference. -/
theorem dropWhile_collapse (cs : List Char) :
    (collapse cs).dropWhile isBlank = collapse (cs.dropWhile isBlank) := by
  have head (ds : List Char) (h : ∀ c ∈ ds.head?, isBlank c = false) :
      (collapse ds).dropWhile isBlank = collapse ds := by
    cases ds with
    | nil => simp [collapse]
    | cons d ds =>
        have hd : isBlank d = false := h d rfl
        rw [collapse_cons_of_not_blank hd, List.dropWhile_cons_of_neg (by simp [hd])]
  have hdrop : ∀ c ∈ (cs.dropWhile isBlank).head?, isBlank c = false := by
    intro c hc
    have hnot := List.head?_dropWhile_not isBlank cs
    rw [hc] at hnot
    exact hnot
  cases cs with
  | nil => simp [collapse]
  | cons c cs =>
      by_cases hc : isBlank c = true
      · rw [List.dropWhile_cons_of_pos hc] at hdrop ⊢
        rw [collapse_cons_of_blank hc, List.dropWhile_cons_of_pos (by decide)]
        exact head _ hdrop
      · have hc' : isBlank c = false := by simpa using hc
        rw [List.dropWhile_cons_of_neg hc, collapse_cons_of_not_blank hc',
          List.dropWhile_cons_of_neg hc]

/-- Whether blanks are dropped before or after makes no difference, if what is put for a
character does not begin with a blank. -/
theorem dropWhile_around {p : Char → Bool} {put : Char → List Char}
    (hput : ∀ c, p c = true → ∃ d ds, put c = d :: ds ∧ isBlank d = false)
    (hp : ∀ c, p c = true → isBlank c = false) (cs : List Char) :
    (around p put cs).dropWhile isBlank = around p put (cs.dropWhile isBlank) := by
  have put_append {c : Char} (hc : p c = true) (rest : List Char) :
      (put c ++ rest).dropWhile isBlank = put c ++ rest := by
    obtain ⟨d, ds, hd, hblank⟩ := hput c hc
    rw [hd, List.cons_append, List.dropWhile_cons_of_neg (by simp [hblank])]
  induction cs with
  | nil => simp [around]
  | cons c cs ih =>
      by_cases hblank : isBlank c = true
      · rw [List.dropWhile_cons_of_pos hblank]
        by_cases hnext : ∀ d ∈ (cs.dropWhile isBlank).head?, p d = false
        · rw [around_blank_of_neg hblank hnext, List.dropWhile_cons_of_pos hblank, ih]
        · push Not at hnext
          obtain ⟨d, hd, hpd⟩ := hnext
          obtain ⟨ds, hds⟩ := List.head?_eq_some_iff.mp hd
          have hpd : p d = true := by simpa using hpd
          rw [around_blank_of_pos hblank hds hpd, hds, around_cons_of_pos (hp d hpd) hpd,
            put_append hpd]
      · have hblank : isBlank c = false := by simpa using hblank
        rw [List.dropWhile_cons_of_neg (by simp [hblank])]
        by_cases hpc : p c = true
        · rw [around_cons_of_pos hblank hpc, put_append hpc]
        · have hpc : p c = false := by simpa using hpc
          rw [around_cons_of_neg hblank hpc, List.dropWhile_cons_of_neg (by simp [hblank])]

/-! ## What the substitutions do to pieces -/

section Substituted

variable {c : Char} {cs ds : List Char}

theorem isTight_eq_false_of_isLetter (h : isLetter c = true) : isTight c = false := by
  have hmark := (isLetter_eq_true.mp h).2
  rw [isPunctuation, Bool.or_eq_false_iff] at hmark
  exact hmark.1

theorem beq_comma_of_isLetter (h : isLetter c = true) : (c == ',') = false := by
  have hmark := (isLetter_eq_true.mp h).2
  rw [isPunctuation, Bool.or_eq_false_iff] at hmark
  exact hmark.2

theorem isBlank_of_isTight (h : isTight c = true) : isBlank c = false :=
  isBlank_of_isPunctuation (by rw [isPunctuation, h, Bool.true_or])

theorem substituted_nil : substituted [] = [] := by
  simp [substituted, collapse, around]

/-- A letter stays. -/
theorem substituted_cons_of_isLetter (h : isLetter c = true) (cs : List Char) :
    substituted (c :: cs) = c :: substituted cs := by
  have hblank := (isLetter_eq_true.mp h).1
  rw [substituted, collapse_cons_of_not_blank hblank,
    around_cons_of_neg hblank (isTight_eq_false_of_isLetter h),
    around_cons_of_neg hblank (beq_comma_of_isLetter h), substituted]

theorem substituted_letters_append {letters : List Char} (h : letters.all isLetter = true)
    (cs : List Char) : substituted (letters ++ cs) = letters ++ substituted cs := by
  induction letters with
  | nil => rfl
  | cons c letters ih =>
      rw [List.all_cons, Bool.and_eq_true] at h
      rw [List.cons_append, substituted_cons_of_isLetter h.1, ih h.2, List.cons_append]

/-- The blanks behind a punctuation mark go. -/
theorem substituted_cons_of_isPunctuation (h : isPunctuation c = true) (cs : List Char) :
    substituted (c :: cs) = written .open c ++ substituted (cs.dropWhile isBlank) := by
  have hblank := isBlank_of_isPunctuation h
  rw [substituted, collapse_cons_of_not_blank hblank]
  by_cases hcomma : c = ','
  · subst hcomma
    have htight (c : Char) (hc : isTight c = true) :
        ∃ d ds, [c] = d :: ds ∧ isBlank d = false := ⟨c, [], rfl, isBlank_of_isTight hc⟩
    rw [around_cons_of_neg hblank (by decide), around_cons_of_pos hblank (by decide),
      dropWhile_around htight (fun _ => isBlank_of_isTight), dropWhile_collapse, substituted]
    rfl
  · have htight := isTight_of_isPunctuation h hcomma
    rw [around_cons_of_pos hblank htight, List.singleton_append, dropWhile_collapse,
      around_cons_of_neg hblank (by simpa using hcomma), substituted]
    simp [written, hblank, hcomma, htight]

/-- The blanks before a punctuation mark go. -/
theorem substituted_blank_of_isPunctuation {b : Char} (hb : isBlank b = true)
    (hcs : cs.dropWhile isBlank = c :: ds) (h : isPunctuation c = true) :
    substituted (b :: cs) = substituted (c :: ds) := by
  have hblank := isBlank_of_isPunctuation h
  have hspace (rest : List Char) : (c :: rest).dropWhile isBlank = c :: rest :=
    List.dropWhile_cons_of_neg (by simp [hblank])
  rw [substituted, substituted, collapse_cons_of_blank hb, hcs, collapse_cons_of_not_blank hblank]
  by_cases hcomma : c = ','
  · subst hcomma
    rw [around_blank_of_neg (by decide) (by rw [hspace]; simp [isTight]),
      around_cons_of_neg hblank (by decide), around_blank_of_pos (by decide) (hspace _) (by decide),
      around_cons_of_pos hblank (by decide)]
  · have htight := isTight_of_isPunctuation h hcomma
    rw [around_blank_of_pos (by decide) (hspace _) htight, around_cons_of_pos hblank htight]

/-- The blanks before a word become one space. -/
theorem substituted_blank_of_isLetter {b : Char} (hb : isBlank b = true)
    (hcs : cs.dropWhile isBlank = c :: ds) (h : isLetter c = true) :
    substituted (b :: cs) = ' ' :: substituted (c :: ds) := by
  have hblank := (isLetter_eq_true.mp h).1
  have hhead (p : Char → Bool) (hp : p c = false) (rest : List Char) :
      ∀ d ∈ ((c :: rest).dropWhile isBlank).head?, p d = false := by
    rw [List.dropWhile_cons_of_neg (by simp [hblank])]
    simpa using hp
  rw [substituted, substituted, collapse_cons_of_blank hb, hcs, collapse_cons_of_not_blank hblank,
    around_blank_of_neg (by decide) (hhead _ (isTight_eq_false_of_isLetter h) _),
    around_cons_of_neg hblank (isTight_eq_false_of_isLetter h),
    around_blank_of_neg (by decide) (hhead _ (beq_comma_of_isLetter h) _)]

/-- The ending that leading blanks stand for. -/
def opening (cs : List Char) : Ending :=
  if cs.head?.any isBlank then .gap else .open

theorem opening_blank_append {gap : List Char} (hgap : gap.all isBlank = true) (hne : gap ≠ [])
    (cs : List Char) : opening (gap ++ cs) = .gap := by
  cases gap with
  | nil => exact absurd rfl hne
  | cons b gap =>
      rw [List.all_cons, Bool.and_eq_true] at hgap
      simp [opening, hgap.1]

/-- Where a word ends, it makes no difference to the pieces whether blanks follow. -/
theorem SetOut.spellFrom_opening {ps : List Piece} (h : SetOut ps cs) (hend : EndsWord cs) :
    spellFrom (opening cs) ps = spellFrom .gap ps := by
  cases h with
  | blank hgap => rw [spellFrom, spellFrom]
  | mark hgap hmark hrest => rw [spellFrom, spellFrom]
  | @word gap letters rest ps hgap hne hletters hend' hrest =>
      by_cases hempty : gap = []
      · subst hempty
        cases letters with
        | nil => exact absurd rfl hne
        | cons d letters =>
            rw [List.all_cons, Bool.and_eq_true] at hletters
            rw [List.nil_append, List.cons_append, endsWord_cons, hletters.1] at hend
            cases hend
      · rw [opening_blank_append hgap hempty]

/-- The substitutions leave the spelling of the pieces, where the text does not end in a
blank. -/
theorem SetOut.substituted_eq {ps : List Piece} (h : SetOut ps cs)
    (hlast : ∀ c ∈ cs.getLast?, isBlank c = false) :
    substituted (cs.dropWhile isBlank) = spellFrom .open ps ∧
      substituted cs = spellFrom (opening cs) ps := by
  induction h with
  | @blank gap hgap =>
      have hempty : gap = [] := by
        by_contra hne
        have hblank := List.all_eq_true.mp hgap _ (List.getLast_mem hne)
        rw [hlast _ (by rw [List.getLast?_eq_some_getLast hne]; rfl)] at hblank
        cases hblank
      subst hempty
      exact ⟨substituted_nil, substituted_nil⟩
  | @word gap letters rest ps hgap hne hletters hend hrest ih =>
      have ih := ih fun c hc => hlast c (by simp [List.getLast?_append, Option.mem_def.mp hc])
      obtain ⟨d, ds, rfl⟩ := List.exists_cons_of_ne_nil hne
      have hd := hletters
      rw [List.all_cons, Bool.and_eq_true] at hd
      have hdrop : (d :: ds ++ rest).dropWhile isBlank = d :: ds ++ rest :=
        List.dropWhile_cons_of_neg (by simp [(isLetter_eq_true.mp hd.1).1])
      have hword : substituted (d :: ds ++ rest) = d :: ds ++ spellFrom .gap ps := by
        rw [substituted_letters_append hletters, ih.2, hrest.spellFrom_opening hend]
      constructor
      · rw [List.dropWhile_append_of_pos (List.all_eq_true.mp hgap), hdrop, hword]
        rfl
      · cases gap with
        | nil =>
            have hopening : opening ([] ++ (d :: ds ++ rest)) = .open := by
              simp [opening, (isLetter_eq_true.mp hd.1).1]
            rw [hopening, List.nil_append, hword]
            rfl
        | cons b gap =>
            have hopening := opening_blank_append hgap (List.cons_ne_nil b gap) (d :: ds ++ rest)
            rw [List.all_cons, Bool.and_eq_true] at hgap
            have hnext : (gap ++ (d :: ds ++ rest)).dropWhile isBlank = d :: (ds ++ rest) := by
              rw [List.dropWhile_append_of_pos (List.all_eq_true.mp hgap.2), hdrop,
                List.cons_append]
            rw [hopening, List.cons_append, substituted_blank_of_isLetter hgap.1 hnext hd.1,
              ← List.cons_append, hword]
            rfl
  | @mark gap rest c ps hgap hmark hrest ih =>
      have ih := ih fun d hd =>
        hlast d (by simp [List.getLast?_append, List.getLast?_cons, Option.mem_def.mp hd])
      have hblank := isBlank_of_isPunctuation hmark
      have hdrop : (c :: rest).dropWhile isBlank = c :: rest :=
        List.dropWhile_cons_of_neg (by simp [hblank])
      have hspelled : substituted (c :: rest) = spellFrom .open (.mark c :: ps) := by
        rw [substituted_cons_of_isPunctuation hmark, ih.1, spellFrom]
      constructor
      · rw [List.dropWhile_append_of_pos (List.all_eq_true.mp hgap), hdrop, hspelled]
      · cases gap with
        | nil => rw [List.nil_append, hspelled, spellFrom, spellFrom]
        | cons b gap =>
            rw [List.all_cons, Bool.and_eq_true] at hgap
            have hnext : (gap ++ c :: rest).dropWhile isBlank = c :: rest := by
              rw [List.dropWhile_append_of_pos (List.all_eq_true.mp hgap.2), hdrop]
            rw [List.cons_append, substituted_blank_of_isPunctuation hgap.1 hnext hmark, hspelled,
              spellFrom, spellFrom]

end Substituted

/-! ## Trimming -/

section Trim

/-- A trimmed text does not begin with a blank. -/
theorem opening_trim (cs : List Char) : opening (trim cs) = .open := by
  cases htrim : trim cs with
  | nil => rfl
  | cons c rest =>
      have hhead : c ∈ (trim cs).head? := by
        rw [htrim]
        rfl
      have hnot : isBlank c = false := isBlank_of_mem_head?_trim hhead
      simp [opening, hnot]

/-- Trimming does not change the spelling. -/
theorem canonicalFrom_trim (cs : List Char) :
    canonicalFrom .open (trim cs) = canonicalFrom .open cs := by
  obtain ⟨front, back, hfront, hback, hcs⟩ := exists_append_trim cs
  calc canonicalFrom .open (trim cs)
      = canonicalFrom .open (trim cs ++ back) := by
        rw [canonicalFrom_append, canonicalFrom_of_blank _ hback, List.append_nil]
    _ = canonicalFrom .open (front ++ (trim cs ++ back)) := by
        rw [canonicalFrom_blank_append hfront (by decide)]
    _ = canonicalFrom .open cs := by rw [← List.append_assoc, ← hcs]

end Trim

/-- One pass over a text writes what the substitutions leave of the trimmed text. -/
theorem canonical_eq_substituted (text : String) :
    canonical text = String.ofList (substituted (trim text.toList)) := by
  have hset : SetOut (piecesFrom [] (trim text.toList)) (trim text.toList) :=
    setOut_piecesFrom (trim text.toList) [] rfl
  rw [canonical, ← canonicalFrom_trim, hset.canonicalFrom_eq (by decide),
    (hset.substituted_eq fun _ => isBlank_of_mem_getLast?_trim).2, opening_trim]

/-! ## The canonical form -/

/-- Blanks around a punctuation mark make no difference. -/
theorem canonicalFrom_around_mark {gap gap' : List Char} {c : Char} (hgap : gap.all isBlank = true)
    (hgap' : gap'.all isBlank = true) (hmark : isPunctuation c = true) (e : Ending)
    (cs : List Char) :
    canonicalFrom e (gap ++ c :: (gap' ++ cs)) = canonicalFrom e (c :: cs) := by
  rw [canonicalFrom_append, canonicalFrom_of_blank e hgap, List.nil_append, canonicalFrom_cons,
    canonicalFrom_cons e, endingAfterChar_of_isPunctuation hmark,
    endingAfterChar_of_isPunctuation hmark, canonicalFrom_blank_append hgap' (by decide),
    written_of_isPunctuation hmark, written_of_isPunctuation hmark e]

/-- Two texts have the same canonical spelling exactly if they have the same pieces, which
are their words, taken as maximal runs of letters, and their punctuation marks.  The canonical
spelling, which is what the substitutions leave of the trimmed text, keeps every piece and
is canonical itself.  Blanks around punctuation make no difference to it. -/
theorem canonicalForm_of_pieces :
    (∀ s t : String, canonical s = canonical t ↔ pieces s = pieces t) ∧
      (∀ (s : String) (ps : List Piece), pieces s = ps ↔ SetOut ps s.toList) ∧
      (∀ s : String, canonical s = String.ofList (substituted (trim s.toList))) ∧
      (∀ s : String, pieces (canonical s) = pieces s) ∧
      (∀ s : String, canonical (canonical s) = canonical s) ∧
      ∀ (front gap gap' back : String) (c : Char), isBlankText gap = true →
        isBlankText gap' = true → isPunctuation c = true →
        canonical (front ++ gap ++ String.singleton c ++ gap' ++ back) =
          canonical (front ++ String.singleton c ++ back) := by
  refine ⟨?same, fun s ps => piecesFrom_eq_iff_setOut, canonical_eq_substituted,
    pieces_of_canonical, ?again, ?spacing⟩
  case same =>
    intro s t
    constructor
    · intro h
      rw [← pieces_of_canonical s, h, pieces_of_canonical t]
    · intro h
      rw [canonical_eq_spellFrom, h, ← canonical_eq_spellFrom]
  case again =>
    intro s
    rw [canonical_eq_spellFrom (canonical s), pieces_of_canonical, ← canonical_eq_spellFrom]
  case spacing =>
    intro front gap gap' back c hgap hgap' hmark
    simp only [canonical, String.toList_append, String.toList_singleton, List.append_assoc,
      List.cons_append, List.nil_append]
    rw [canonicalFrom_append, canonicalFrom_append .open front.toList,
      canonicalFrom_around_mark hgap hgap' hmark]

/-- A comma gets its space back before a bracket, and a trailing one keeps it. -/
theorem canonicalForm_of_comma :
    canonical "K ,\t>" = "K, >" ∧ pieces "K ,\t>" = [.word ['K'], .mark ',', .mark '>'] ∧
      canonical ("K" ++ " " ++ String.singleton ',' ++ "\t" ++ ">") =
        canonical ("K" ++ String.singleton ',' ++ ">") ∧
      canonical (canonical " K , ") = "K, " :=
  ⟨by decide, by decide,
    canonicalForm_of_pieces.2.2.2.2.2 "K" " " "\t" ">" ',' (by decide) (by decide) (by decide),
    (canonicalForm_of_pieces.2.2.2.2.1 " K , ").trans (by decide)⟩

end JavaAtlas.Java.TypeText
