import JavaAtlas.Image.Alphabet
import JavaAtlas.Proofs.Deflate.Lossless
import JavaAtlas.Proofs.Text.Utf8

/-!
# Addresses lose nothing

Four letters hold three octets, so octets come back from their letters with the
zeros that filled up the last group.  Those zeros stand behind the compressed
stream, where reading never comes, so a text comes back from its address.

Main results:

- Theorem `octets?_letters`: octets come back from their letters, filled up with
  zeros to a multiple of three.
- Theorem `decode?_encode`: a text comes back from its address.
- Theorem `letters_and_addresses_lossless`: number and kind of the letters, and
  both round trips.
-/

namespace JavaAtlas.Image

open Text.Utf8 (Bytes)

/-! ## Letters -/

theorem length_alphabet : alphabet.length = 64 := by decide

theorem nodup_alphabet : alphabet.Nodup := by decide

theorem sextet_lt (n : Int) : sextet n < 64 := by
  unfold sextet
  omega

theorem letterOf_mem_alphabet (n : Int) : letterOf n ∈ alphabet := by
  have hlt : sextet n < alphabet.length := length_alphabet ▸ sextet_lt n
  rw [letterOf, List.getD_eq_getElem?_getD, List.getElem?_eq_getElem hlt]
  exact List.getElem_mem hlt

private theorem valueOf?_getD : ∀ k < 64, valueOf? (alphabet.getD k '0') = some k := by
  decide

/-- A letter has the value of the bits that it was chosen for. -/
theorem valueOf?_letterOf (n : Int) : valueOf? (letterOf n) = some (sextet n) :=
  valueOf?_getD _ (sextet_lt n)

theorem sextet_natCast {n : Nat} (h : n < 64) : sextet n = n := by
  unfold sextet
  omega

/-! ## Groups -/

theorem length_fourLetters (a b c : Int) : (fourLetters a b c).length = 4 := rfl

theorem mem_alphabet_of_mem_fourLetters {a b c : Int} {letter : Char}
    (h : letter ∈ fourLetters a b c) : letter ∈ alphabet := by
  simp only [fourLetters, List.mem_cons, List.not_mem_nil, or_false] at h
  rcases h with rfl | rfl | rfl | rfl <;> exact letterOf_mem_alphabet _

/-- The values of the four letters of three octets share out the bits of the octets. -/
theorem mapM_fourLetters (a b c : UInt8) :
    (fourLetters a.toNat b.toNat c.toNat).mapM valueOf? =
      some [a.toNat / 4, a.toNat % 4 * 16 + b.toNat / 16, b.toNat % 16 * 4 + c.toNat / 64,
        c.toNat % 64] := by
  have ha := a.toNat_lt
  have hb := b.toNat_lt
  have hc := c.toNat_lt
  have hfirst : sextet ((a.toNat : Int) / 4) = a.toNat / 4 := by
    unfold sextet
    omega
  have hsecond : ((a.toNat : Int) % 4 * 16).toNat ||| sextet ((b.toNat : Int) / 16) =
      a.toNat % 4 * 16 + b.toNat / 16 := by
    have hhigh : ((a.toNat : Int) % 4 * 16).toNat = 2 ^ 4 * (a.toNat % 4) := by omega
    have hlow : sextet ((b.toNat : Int) / 16) = b.toNat / 16 := by
      unfold sextet
      omega
    rw [hhigh, hlow, ← Nat.two_pow_add_eq_or_of_lt (by omega)]
    omega
  have hthird : ((b.toNat : Int) % 16 * 4).toNat ||| sextet ((c.toNat : Int) / 64) =
      b.toNat % 16 * 4 + c.toNat / 64 := by
    have hhigh : ((b.toNat : Int) % 16 * 4).toNat = 2 ^ 2 * (b.toNat % 16) := by omega
    have hlow : sextet ((c.toNat : Int) / 64) = c.toNat / 64 := by
      unfold sextet
      omega
    rw [hhigh, hlow, ← Nat.two_pow_add_eq_or_of_lt (by omega)]
    omega
  have hfourth : sextet (c.toNat : Int) = c.toNat % 64 := by
    unfold sextet
    omega
  simp only [fourLetters, List.mapM_cons, List.mapM_nil, valueOf?_letterOf, hfirst, hsecond,
    hthird, hfourth, sextet_natCast (show a.toNat % 4 * 16 + b.toNat / 16 < 64 by omega),
    sextet_natCast (show b.toNat % 16 * 4 + c.toNat / 64 < 64 by omega)]
  rfl

/-- Three octets come back from the values of their letters. -/
theorem threeOctets_values (a b c : UInt8) :
    threeOctets (a.toNat / 4) (a.toNat % 4 * 16 + b.toNat / 16)
      (b.toNat % 16 * 4 + c.toNat / 64) (c.toNat % 64) = [a, b, c] := by
  have ha := a.toNat_lt
  have hb := b.toNat_lt
  have hc := c.toNat_lt
  have hfirst : a.toNat / 4 * 4 + (a.toNat % 4 * 16 + b.toNat / 16) / 16 = a.toNat := by omega
  have hsecond : (a.toNat % 4 * 16 + b.toNat / 16) % 16 * 16 +
      (b.toNat % 16 * 4 + c.toNat / 64) / 4 = b.toNat := by omega
  have hthird : (b.toNat % 16 * 4 + c.toNat / 64) % 4 * 64 + c.toNat % 64 = c.toNat := by omega
  rw [threeOctets, hfirst, hsecond, hthird, UInt8.ofNat_toNat, UInt8.ofNat_toNat,
    UInt8.ofNat_toNat]

/-- The letters of three octets give them back in front of the rest. -/
theorem octets?_fourLetters_append (a b c : UInt8) (rest : List Char) :
    octets? (fourLetters a.toNat b.toNat c.toNat ++ rest) =
      (octets? rest).map ([a, b, c] ++ ·) := by
  unfold octets?
  rw [List.mapM_append, mapM_fourLetters]
  cases hrest : rest.mapM valueOf? with
  | none => rfl
  | some values =>
      simp only [Option.bind_eq_bind, Option.bind_some, Option.pure_def, List.cons_append,
        List.nil_append, octetsOf, threeOctets_values]

/-! ## Rows of octets -/

/-- Every three octets take four letters, and so do the one or two that are left. -/
theorem length_letters (d : Bytes) : (letters d).length = 4 * ((d.length + 2) / 3) := by
  fun_induction letters d with
  | case1 a b c rest ih =>
      simp only [List.length_append, length_fourLetters, ih, List.length_cons]
      omega
  | case2 | case3 => simp [length_fourLetters]
  | case4 => rfl

theorem mem_alphabet_of_mem_letters {d : Bytes} {letter : Char} (h : letter ∈ letters d) :
    letter ∈ alphabet := by
  fun_induction letters d with
  | case1 a b c rest ih =>
      rcases List.mem_append.mp h with h | h
      · exact mem_alphabet_of_mem_fourLetters h
      · exact ih h
  | case2 | case3 => exact mem_alphabet_of_mem_fourLetters h
  | case4 => cases h

/-- Octets come back from their letters, with the zeros that filled up the last three. -/
theorem octets?_letters (d : Bytes) :
    octets? (letters d) = some (d ++ List.replicate ((3 - d.length % 3) % 3) 0) := by
  fun_induction letters d with
  | case1 a b c rest ih =>
      have hzeros : (rest.length + 1 + 1 + 1) % 3 = rest.length % 3 := by omega
      rw [octets?_fourLetters_append, ih]
      simp only [List.length_cons, hzeros]
      rfl
  | case2 a b => exact octets?_fourLetters_append a b 0 []
  | case3 a => exact octets?_fourLetters_append a 0 0 []
  | case4 => rfl

/-! ## Addresses -/

/-- A text comes back from its address. -/
theorem decode?_encode (text : String) : decode? (encode text) = some text := by
  obtain ⟨rest, hinflate⟩ := Deflate.inflate_unpack_compress (Text.Utf8.encode text)
    (List.replicate ((3 - (Deflate.compress (Text.Utf8.encode text)).length % 3) % 3) 0)
  simp only [decode?, encode, String.toList_ofList, Deflate.bare_stream, octets?_letters,
    Option.bind_eq_bind, Option.bind_some, hinflate, Text.Utf8.decodeStrict_encode]
  rfl

/-- Octets take four letters for every three of them, all out of the sixty-four letters,
and come back with the zeros that filled up the last three.  A text comes back from its
address, so different texts have different addresses. -/
theorem letters_and_addresses_lossless :
    (alphabet.length = 64 ∧ alphabet.Nodup) ∧
      (∀ d : Bytes, (letters d).length = 4 * ((d.length + 2) / 3) ∧
        (∀ letter ∈ letters d, letter ∈ alphabet) ∧
        octets? (letters d) = some (d ++ List.replicate ((3 - d.length % 3) % 3) 0)) ∧
      (∀ text : String, decode? (encode text) = some text) ∧
      Function.Injective encode := by
  refine ⟨⟨length_alphabet, nodup_alphabet⟩, fun d => ?_, decode?_encode, fun s t h => ?_⟩
  · exact ⟨length_letters d, fun _ => mem_alphabet_of_mem_letters, octets?_letters d⟩
  · have hback := congrArg decode? h
    rw [decode?_encode, decode?_encode] at hback
    exact Option.some.inj hback

end JavaAtlas.Image
