import JavaAtlas.Java.Lexing
import JavaAtlas.Java.TypeText
import JavaAtlas.Proofs.Text.Lines

/-!
# Spelling of tokens and types

What scanning calls a word consists of characters of identifiers, and what the
canonical spelling of a type keeps of its layout is single spaces.  Neither can
hold a line end, whatever the source looks like.

Main results:

- Theorem `isCut_of_mem_scan`: the tokens of a scanned text are cut from it, behind
  their filler.
- Theorem `isContinue_of_mem_scan`: words of a scanned text consist of
  characters of identifiers.
- Theorem `isBlank_of_isContinue`: no such character is a blank.
- Theorem `breaks_canonical`: a canonical spelling holds no line end.
-/

namespace JavaAtlas.Java

open Text

/-! ## Words -/

/-- A word consists of characters of identifiers. -/
def Token.IsSpelled (t : Token) : Prop :=
  t.shape = .word → ∀ c ∈ t.text.toList, IdentifierChar.isContinue c = true

/-- The text consists of characters of identifiers. -/
def IsWordText (s : String) : Prop :=
  ∀ c ∈ s.toList, IdentifierChar.isContinue c = true

theorem IsWordText.not_mem {s : String} (h : IsWordText s) {c : Char}
    (hc : IdentifierChar.isContinue c = false) : c ∉ s.toList := by
  intro hmem
  cases hc.symm.trans (h c hmem)

/-- A word holds no line end. -/
theorem IsWordText.breaks_eq_zero {s : String} (h : IsWordText s) : breaks s = 0 :=
  Text.breaks_eq_zero.mpr (h.not_mem (by decide))

/-- No quoted text is cut as a word. -/
private theorem cutText_shape_ne_word {block : Bool} {opening : Nat} {whole broken : Shape}
    {inside : List Interpolation} {cs : List Char} (hwhole : whole ≠ .word)
    (hbroken : broken ≠ .word) : (cutText block opening whole broken inside cs).shape ≠ .word := by
  unfold cutText
  split
  · exact hwhole
  · exact hbroken
  · simp

private theorem cutMark_shape_ne_word {inside : List Interpolation} {cs : List Char} :
    (cutMark inside cs).shape ≠ .word := by
  unfold cutMark
  split
  · simp
  · split
    · simp
    · split
      · simp
      · split
        · split
          · exact cutText_shape_ne_word (by decide) (by decide)
          · simp
        · simp

/-- A token is cut as a word only where a word begins, and ends where it ends. -/
theorem cut_of_shape_eq_word {inside : List Interpolation} {c : Char} {rest : List Char}
    (h : (cut inside (c :: rest)).shape = .word) :
    IdentifierChar.isStart c = true ∧
      (cut inside (c :: rest)).length =
        1 + (rest.takeWhile IdentifierChar.isContinue).length := by
  unfold cut at h ⊢
  dsimp only at h ⊢
  by_cases hstart : IdentifierChar.isStart c = true
  · simp [hstart]
  · exfalso
    rw [if_neg hstart] at h
    split at h
    · split at h
      · exact cutText_shape_ne_word (by decide) (by decide) h
      · exact cutText_shape_ne_word (by decide) (by decide) h
    · split at h
      · split at h <;> simp at h
      · split at h
        · simp at h
        · exact cutMark_shape_ne_word h

/-- The token was cut from characters that its filler leaves. -/
def Token.IsCut (t : Token) : Prop :=
  ∃ (inside : List Interpolation) (cs : List Char) (c : Char) (rest : List Char),
    splitFillers (cs.length + 1) [] cs = (t.before, c :: rest) ∧
      t.shape = (cut inside (c :: rest)).shape ∧
      t.text = String.ofList ((c :: rest).take (cut inside (c :: rest)).length)

/-- Scanning adds cut tokens only. -/
private theorem isCut_scanFrom {fuel : Nat} {inside : List Interpolation} {line : Nat}
    {done : List Token} {cs : List Char} (hdone : ∀ t ∈ done, t.IsCut) :
    ∀ t ∈ scanFrom fuel inside line done cs, t.IsCut := by
  induction fuel generalizing inside line done cs with
  | zero =>
      intro t ht
      exact hdone t (List.mem_reverse.mp ht)
  | succ fuel ih =>
      unfold scanFrom
      dsimp only
      split
      · intro t ht
        exact hdone t (List.mem_reverse.mp ht)
      · rename_i c rest hrest
        refine ih fun t ht => ?_
        rcases List.mem_cons.mp ht with rfl | ht
        · exact ⟨inside, cs, c, rest, Prod.ext rfl hrest, by rw [hrest], by rw [hrest]⟩
        · exact hdone t ht

/-- The tokens of a scanned text are cut from it. -/
theorem isCut_of_mem_scan {source : String} {t : Token} (h : t ∈ scan source) : t.IsCut :=
  isCut_scanFrom (by simp) t h

/-- A cut word is a first character with the characters that go on with it. -/
theorem Token.IsCut.exists_word {t : Token} (h : t.IsCut) (hword : t.shape = .word) :
    ∃ c cs, t.text = String.ofList (c :: cs) ∧ IdentifierChar.isStart c = true ∧
      ∀ x ∈ cs, IdentifierChar.isContinue x = true := by
  obtain ⟨inside, all, c, rest, -, hshape, htext⟩ := h
  obtain ⟨hstart, hlength⟩ := cut_of_shape_eq_word (hshape.symm.trans hword)
  refine ⟨c, rest.takeWhile IdentifierChar.isContinue, ?_, hstart, ?_⟩
  · rw [htext, hlength, Nat.add_comm, List.take_succ_cons,
      ← List.prefix_iff_eq_take.mp (List.takeWhile_prefix _)]
  · exact List.all_eq_true.mp List.all_takeWhile

theorem Token.IsCut.isSpelled {t : Token} (h : t.IsCut) : t.IsSpelled := by
  intro hword x hx
  obtain ⟨c, cs, htext, hstart, hcs⟩ := h.exists_word hword
  rw [htext, String.toList_ofList] at hx
  rcases List.mem_cons.mp hx with rfl | hx
  · exact IdentifierChar.isContinue_of_isStart hstart
  · exact hcs x hx

/-- The words of a scanned text consist of characters of identifiers. -/
theorem isContinue_of_mem_scan {source : String} {t : Token} (h : t ∈ scan source) :
    t.IsSpelled :=
  (isCut_of_mem_scan h).isSpelled

/-- The code points of all blanks. -/
def blankCodes : List Nat :=
  [9, 10, 11, 12, 13, 28, 29, 30, 31, 32, 0x85, 0xA0, 0x1680, 0x2000, 0x2001, 0x2002, 0x2003,
    0x2004, 0x2005, 0x2006, 0x2007, 0x2008, 0x2009, 0x200A, 0x2028, 0x2029, 0x202F, 0x205F,
    0x3000]

theorem toNat_mem_blankCodes {c : Char} (h : isBlank c = true) : c.toNat ∈ blankCodes := by
  simp only [isBlank, Bool.or_eq_true, Bool.and_eq_true, decide_eq_true_eq, beq_iff_eq] at h
  simp only [blankCodes, List.mem_cons, List.not_mem_nil]
  omega

/-- No blank goes on with a word. -/
theorem isBlank_of_isContinue {c : Char} (h : IdentifierChar.isContinue c = true) :
    isBlank c = false := by
  have hcodes : ∀ n ∈ blankCodes, IdentifierChar.isContinue (Char.ofNat n) = false := by
    decide +kernel
  rw [← Bool.not_eq_true]
  intro hblank
  have hnone := hcodes _ (toNat_mem_blankCodes hblank)
  rw [Char.ofNat_toNat, h] at hnone
  cases hnone
/-! ## Types -/

namespace TypeText

private theorem not_mem_canonicalFrom (e : Ending) (cs : List Char) :
    '\n' ∉ canonicalFrom e cs := by
  induction cs generalizing e with
  | nil => simp [canonicalFrom]
  | cons c cs ih =>
      unfold canonicalFrom
      by_cases hblank : isBlank c = true
      · simpa [hblank] using ih _
      · have hne : '\n' ≠ c := by
          rintro rfl
          exact hblank (by decide)
        grind

/-- A canonical spelling holds no line end, whatever is spelled. -/
theorem breaks_canonical (text : String) : breaks (canonical text) = 0 := by
  rw [Text.breaks_eq_zero, canonical, String.toList_ofList]
  exact not_mem_canonicalFrom _ _

end TypeText

end JavaAtlas.Java
