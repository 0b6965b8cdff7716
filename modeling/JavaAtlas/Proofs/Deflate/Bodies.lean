import JavaAtlas.Proofs.Deflate.Descriptions
import JavaAtlas.Proofs.Deflate.Repetitions

/-!
# Tokens are read back

A length or a distance is written as the symbol of its class, with extra bits for the
rest, and the class gives it back.  So in codes that have codewords for their symbols,
tokens are read back from their bits up to the end mark.

Main definitions:

- `Spaced`: classes that follow each other without a gap.
- `Token.symbol`, `Token.distanceSymbol?`, `Codes.Has`: the symbols of a token, and codes
  that have codewords for them.

Main results:

- Theorem `exists_class_of_classOf`: the class of a value holds it.
- Theorem `takeClass_lengthClass`, theorem `takeClass_distanceClass`: lengths and distances
  are read back.
- Theorem `readBody_bodyBits`: so are tokens.
-/

namespace JavaAtlas.Deflate

/-! ## Classes -/

/-- Classes that follow each other without a gap, up to the given value. -/
def Spaced (top : Nat) : Classes → Prop
  | [] => True
  | [(least, bits)] => top ≤ least + 2 ^ bits
  | (least, bits) :: (next, more) :: rest =>
    next ≤ least + 2 ^ bits ∧ Spaced top ((next, more) :: rest)

/-- The class of a value begins at the value or below it, and its extra bits hold the rest;
by induction on the classes. -/
theorem exists_class_of_classOf {top value : Nat} {classes : Classes} (first : Nat)
    (found : Coded) (hspaced : Spaced top classes)
    (hfirst : ∃ c, classes.head? = some c ∧ c.1 ≤ value) (htop : value < top) :
    ∃ k l, classes[k]? = some (l, (classOf first value classes found).extraBits) ∧
      (classOf first value classes found).symbol = first + k ∧
      l + (classOf first value classes found).extra = value ∧
      (classOf first value classes found).extra <
        2 ^ (classOf first value classes found).extraBits := by
  induction classes generalizing first found with
  | nil =>
      obtain ⟨c, hnone, -⟩ := hfirst
      cases hnone
  | cons c classes ih =>
      obtain ⟨least, bits⟩ := c
      obtain ⟨_, ⟨rfl⟩, hleast⟩ := hfirst
      rw [classOf, if_pos hleast]
      cases classes with
      | nil =>
          have hroom : top ≤ least + 2 ^ bits := hspaced
          rw [classOf]
          exact ⟨0, least, rfl, rfl, Nat.add_sub_cancel' hleast, by dsimp only at hleast ⊢; omega⟩
      | cons c classes =>
          obtain ⟨hnext, hspaced⟩ := hspaced
          by_cases hmore : c.1 ≤ value
          case pos =>
            obtain ⟨k, l, hget, hsymbol, hvalue, hextra⟩ := ih (first + 1)
              ⟨first, bits, value - least⟩ hspaced ⟨c, rfl, hmore⟩
            exact ⟨k + 1, l, hget, by omega, hvalue, hextra⟩
          case neg =>
            rw [classOf, if_neg hmore]
            exact ⟨0, least, rfl, rfl, Nat.add_sub_cancel' hleast,
              by dsimp only at hleast hnext ⊢; omega⟩

/-- A value is read back behind the symbol of its class. -/
theorem takeClass_of_class {classes : Classes} {k l value : Nat} {c : Coded}
    (hget : classes[k]? = some (l, c.extraBits)) (hvalue : l + c.extra = value)
    (hextra : c.extra < 2 ^ c.extraBits) (rest : List Bool) :
    takeClass classes k (bitsOf c.extraBits c.extra ++ rest) = some (value, rest) := by
  unfold takeClass
  simp [hget, takeNumber_bitsOf hextra, hvalue]

theorem spaced_lengthClasses : Spaced 259 lengthClasses := by
  simp [Spaced, lengthClasses]

theorem spaced_distanceClasses : Spaced 32769 distanceClasses := by
  simp [Spaced, distanceClasses]

/-- A length is read back behind its symbol, which comes behind the end mark. -/
theorem takeClass_lengthClass {length : Nat} (hleast : leastMatch ≤ length)
    (hmost : length ≤ greatestMatch) :
    endMark < (lengthClass length).symbol ∧ (lengthClass length).symbol < 286 ∧
      ∀ rest, takeClass lengthClasses ((lengthClass length).symbol - firstLength)
        (bitsOf (lengthClass length).extraBits (lengthClass length).extra ++ rest) =
          some (length, rest) := by
  have hmost' : length ≤ 258 := hmost
  obtain ⟨k, l, hget, hsymbol, hvalue, hextra⟩ := exists_class_of_classOf firstLength default
    spaced_lengthClasses ⟨_, rfl, hleast⟩ (by omega)
  have hk : k < 29 := (List.getElem?_eq_some_iff.mp hget).1
  have hfirst : firstLength = 257 := rfl
  have hend : endMark = 256 := rfl
  rw [lengthClass, hsymbol, Nat.add_sub_cancel_left]
  exact ⟨by omega, by omega, takeClass_of_class hget hvalue hextra⟩

/-- A distance is read back behind its symbol. -/
theorem takeClass_distanceClass {distance : Nat} (hpos : 0 < distance)
    (hreach : distance ≤ reach) :
    (distanceClass distance).symbol < 30 ∧
      ∀ rest, takeClass distanceClasses (distanceClass distance).symbol
        (bitsOf (distanceClass distance).extraBits (distanceClass distance).extra ++ rest) =
          some (distance, rest) := by
  have hreach' : distance ≤ 32506 := hreach
  obtain ⟨k, l, hget, hsymbol, hvalue, hextra⟩ := exists_class_of_classOf 0 default
    spaced_distanceClasses ⟨_, rfl, hpos⟩ (by omega)
  have hk : k < 30 := (List.getElem?_eq_some_iff.mp hget).1
  rw [distanceClass, hsymbol, Nat.zero_add]
  exact ⟨hk, takeClass_of_class hget hvalue hextra⟩

/-! ## Symbols of tokens -/

/-- The symbol of a token in the first alphabet. -/
def Token.symbol : Token → Nat
  | literal b => b.toNat
  | copy length _ => (lengthClass length).symbol

/-- The distance symbol of a token that has one. -/
def Token.distanceSymbol? : Token → Option Nat
  | literal _ => none
  | copy _ distance => some (distanceClass distance).symbol

theorem Token.Fits.symbol_lt {t : Token} (h : t.Fits) : t.symbol < 286 := by
  cases t with
  | literal b => exact Nat.lt_trans b.toNat_lt (by decide)
  | copy length distance => exact (takeClass_lengthClass h.1 h.2.1).2.1

theorem Token.Fits.distanceSymbol_lt {t : Token} (h : t.Fits) {s : Nat}
    (hs : t.distanceSymbol? = some s) : s < 30 := by
  cases t with
  | literal b => cases hs
  | copy length distance =>
      cases hs
      exact (takeClass_distanceClass h.2.2.1 h.2.2.2).1

/-- The codes have codewords for the symbols of a token. -/
structure Codes.Has (c : Codes) (t : Token) : Prop where
  symbol : c.symbols.getD t.symbol 0 ≠ 0
  distance : ∀ s, t.distanceSymbol? = some s → c.distances.getD s 0 ≠ 0

/-! ## Bodies -/

section

variable {c : Codes} {symbols distances : CodeTree} (hsymbols : Decodes symbols c.symbols)
  (hdistances : Decodes distances c.distances)
include hsymbols hdistances

omit hsymbols in
/-- A copy is read back behind the symbol of its length. -/
theorem readCopy_bits {length distance : Nat} (hfits : (Token.copy length distance).Fits)
    (hhas : c.Has (.copy length distance)) {out out' : Array UInt8}
    (hcopy : copyBack distance length out = some out') (rest : List Bool) :
    readCopy distances (lengthClass length).symbol out
        (bitsOf (lengthClass length).extraBits (lengthClass length).extra ++
          (codedBits (codewords c.distances) (distanceClass distance) ++ rest)) =
      some (out', rest) := by
  obtain ⟨-, -, hlength⟩ := takeClass_lengthClass hfits.1 hfits.2.1
  obtain ⟨-, hdistance⟩ := takeClass_distanceClass hfits.2.2.1 hfits.2.2.2
  have hsymbol := (hdistances _ (hhas.distance _ rfl)).2
  unfold readCopy codedBits
  simp only [List.append_assoc, hlength, hsymbol, hdistance, hcopy, Option.bind_eq_bind,
    Option.bind_some]
  rfl

/-- A token is read back from its bits. -/
theorem readBody_tokenBits {t : Token} (hfits : t.Fits) (hhas : c.Has t) {out out' : Array UInt8}
    (honto : t.onto out = some out') (fuel : Nat) (rest : List Bool) :
    readBody symbols distances (fuel + 1) out
        (tokenBits (codewords c.symbols) (codewords c.distances) t ++ rest) =
      readBody symbols distances fuel out' rest := by
  cases t with
  | literal b =>
      cases honto
      have hsymbol := (hsymbols _ hhas.symbol).2
      have hb : b.toNat < endMark := b.toNat_lt
      simp only [Token.symbol] at hsymbol
      rw [tokenBits, readBody, hsymbol]
      simp only [Option.bind_eq_bind, Option.bind_some, hb, if_true, UInt8.ofNat_toNat]
  | copy length distance =>
      obtain ⟨hbehind, -, -⟩ := takeClass_lengthClass hfits.1 hfits.2.1
      have hsymbol := (hsymbols _ hhas.symbol).2
      have hcopy := readCopy_bits hdistances hfits hhas honto rest
      simp only [Token.symbol] at hsymbol
      rw [tokenBits, codedBits, List.append_assoc, List.append_assoc, readBody, hsymbol]
      simp only [Option.bind_eq_bind, Option.bind_some]
      rw [if_neg (Nat.lt_asymm hbehind), if_neg (Nat.ne_of_gt hbehind), hcopy]
      rfl

/-- Tokens are read back from their bits up to the end mark; by induction on the tokens. -/
theorem readBody_bodyBits (hend : c.symbols.getD endMark 0 ≠ 0) {ts : List Token}
    (hfits : ∀ t ∈ ts, t.Fits) (hhas : ∀ t ∈ ts, c.Has t) {out out' : Array UInt8}
    (honto : ts.foldlM Token.onto out = some out') {fuel : Nat} (hfuel : ts.length < fuel)
    (rest : List Bool) :
    readBody symbols distances fuel out (bodyBits c ts ++ rest) = some (out', rest) := by
  obtain ⟨fuel, rfl⟩ : ∃ k, fuel = k + 1 := ⟨fuel - 1, by omega⟩
  unfold bodyBits
  dsimp only
  induction ts generalizing out fuel with
  | nil =>
      cases honto
      rw [List.flatMap_nil, List.nil_append, readBody, (hsymbols _ hend).2]
      simp
  | cons t ts ih =>
      obtain ⟨ht, hfits⟩ := List.forall_mem_cons.mp hfits
      obtain ⟨hhas', hhas⟩ := List.forall_mem_cons.mp hhas
      rw [List.foldlM_cons, Option.bind_eq_bind, Option.bind_eq_some_iff] at honto
      obtain ⟨out₁, honto₁, honto⟩ := honto
      rw [List.length_cons] at hfuel
      obtain ⟨fuel, rfl⟩ : ∃ k, fuel = k + 1 := ⟨fuel - 1, by omega⟩
      rw [List.flatMap_cons, List.append_assoc, List.append_assoc,
        readBody_tokenBits hsymbols hdistances ht hhas' honto₁, ← List.append_assoc]
      exact ih hfits hhas honto fuel (by omega)

omit hdistances in
/-- There are no fewer bits than tokens. -/
theorem length_le_length_bodyBits {ts : List Token} (hhas : ∀ t ∈ ts, c.Has t) :
    ts.length ≤ (bodyBits c ts).length := by
  have htoken : ∀ t ∈ ts,
      0 < (tokenBits (codewords c.symbols) (codewords c.distances) t).length := by
    intro t ht
    have hne := (hsymbols _ (hhas t ht).symbol).1
    cases t with
    | literal b => exact List.length_pos_iff.mpr hne
    | copy length distance =>
        have hpos := List.length_pos_iff.mpr hne
        simp only [Token.symbol] at hpos
        simp only [tokenBits, codedBits, List.length_append]
        omega
  have htokens : ts.length ≤
      (ts.flatMap (tokenBits (codewords c.symbols) (codewords c.distances))).length := by
    induction ts with
    | nil => exact Nat.zero_le _
    | cons t ts ih =>
        obtain ⟨ht, htoken⟩ := List.forall_mem_cons.mp htoken
        have hrest := ih (List.forall_mem_cons.mp hhas).2 htoken
        rw [List.flatMap_cons, List.length_append, List.length_cons]
        omega
  unfold bodyBits
  dsimp only
  rw [List.length_append]
  omega

end

end JavaAtlas.Deflate
