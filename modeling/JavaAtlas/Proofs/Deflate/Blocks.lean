import JavaAtlas.Deflate.Compress
import JavaAtlas.Proofs.Deflate.Bodies

/-!
# Blocks are read back

Whichever form of a block is the shortest, it is read back.  Octets as they are are only
written where there are few enough for the number in front of them, since a block of a
bounded number of tokens in the fixed codes is never longer.

Main definitions:

- `endTally`: the numbers of all symbols before tokens are counted.
- `Codes.Serves`: codes in which tokens can be written.

Main results:

- Theorem `tally_eq`: a tally counts the symbols of its tokens.
- Theorem `bits_fixed_le`: the tokens of a block take few bits in the fixed codes.
- Theorem `readBlocks_plainBits`: octets as they are are read back.
- Theorem `readBlocks_blockBits`: so is every block.
-/

namespace JavaAtlas.Deflate

/-! ## Tallies of tokens -/

/-- The numbers of all symbols before tokens are counted: the end mark occurs once. -/
def endTally : Array Nat :=
  (Array.replicate 286 0).setIfInBounds endMark 1

/-- A tally counts the symbols of its tokens. -/
theorem tally_eq (ts : List Token) :
    tally ts =
      ⟨ts.foldl (fun a t => a.modify t.symbol (· + 1)) endTally,
        (ts.filterMap Token.distanceSymbol?).foldl (fun a s => a.modify s (· + 1))
          (Array.replicate 30 0)⟩ := by
  unfold tally
  dsimp only
  rw [← endTally]
  generalize endTally = symbols, Array.replicate 30 0 = distances
  induction ts generalizing symbols distances with
  | nil => rfl
  | cons t ts ih =>
      cases t with
      | literal b => exact ih _ _
      | copy length distance => exact ih _ _

theorem size_endTally : endTally.size = 286 := by
  simp [endTally]

theorem size_symbols_tally (ts : List Token) : (tally ts).symbols.size = 286 := by
  rw [tally_eq, size_foldl_modify, size_endTally]

theorem size_distances_tally (ts : List Token) : (tally ts).distances.size = 30 := by
  rw [tally_eq, size_foldl_modify (fun s => s), Array.size_replicate]

/-! ## Codes for tokens -/

/-- Codes in which tokens can be written, and the end mark behind them. -/
structure Codes.Serves (c : Codes) (ts : List Token) : Prop where
  symbols : Fitting c.symbols.toList
  distances : Fitting c.distances.toList
  ends : c.symbols.getD endMark 0 ≠ 0
  has : ∀ t ∈ ts, c.Has t

theorem suits_ownCodes (ts : List Token) :
    Suits longestCodeword (tally ts).symbols (tally ts).ownCodes.symbols ∧
      Suits longestCodeword (tally ts).distances (tally ts).ownCodes.distances := by
  refine ⟨suits_codeLengths (by decide) (Nat.le_refl _) ?_ ?_,
    suits_codeLengths (by decide) (Nat.le_refl _) ?_ ?_⟩
  · rw [size_symbols_tally]
    decide
  · rw [size_symbols_tally]
    decide
  · rw [size_distances_tally]
    decide
  · rw [size_distances_tally]
    decide

/-- The codes that suit a tally best serve its tokens. -/
theorem serves_ownCodes {ts : List Token} (hfits : ∀ t ∈ ts, t.Fits) :
    (tally ts).ownCodes.Serves ts := by
  obtain ⟨hsymbols, hdistances⟩ := suits_ownCodes ts
  refine ⟨hsymbols.fitting, hdistances.fitting, hsymbols.used _ ?_, fun t ht =>
    ⟨hsymbols.used _ ?_, fun s hs => hdistances.used _ ?_⟩⟩
  · have hend : endTally.getD endMark 0 = 1 := by decide +kernel
    rw [tally_eq, getD_foldl_modify _ (by rw [size_endTally]; decide), hend]
    omega
  · rw [tally_eq]
    exact getD_foldl_modify_ne_zero Token.symbol ht (by
      rw [size_endTally]
      exact (hfits t ht).symbol_lt)
  · rw [tally_eq]
    exact getD_foldl_modify_ne_zero (fun s => s) (List.mem_filterMap.mpr ⟨t, ht, hs⟩) (by
      rw [Array.size_replicate]
      exact (hfits t ht).distanceSymbol_lt hs)

theorem getD_mem {a : Array Nat} {i : Nat} (hi : i < a.size) : a.getD i 0 ∈ a.toList := by
  have hget : a.getD i 0 = a[i] := by simp [Array.getD, hi]
  rw [hget]
  exact Array.getElem_mem_toList hi

theorem mem_fixedLengths {l : Nat} (hl : l ∈ fixedLengths.toList) : l = 7 ∨ l = 8 ∨ l = 9 := by
  simp only [fixedLengths, Array.toList_append, Array.toList_replicate, List.mem_append,
    List.mem_replicate] at hl
  omega

theorem mem_fixedDistances {l : Nat} (hl : l ∈ fixedDistances.toList) : l = 5 := by
  simp only [fixedDistances, Array.toList_replicate, List.mem_replicate] at hl
  exact hl.2

/-- The fixed codes serve all tokens that have symbols. -/
theorem serves_fixed {ts : List Token} (hfits : ∀ t ∈ ts, t.Fits) :
    Codes.fixed.Serves ts := by
  have hsymbol : ∀ s < 288, fixedLengths.getD s 0 ≠ 0 := by
    intro s hs
    have hmem := mem_fixedLengths (getD_mem (a := fixedLengths) (i := s) (by simpa [fixedLengths]))
    omega
  have hdistance : ∀ s < 30, fixedDistances.getD s 0 ≠ 0 := by
    intro s hs
    have hmem := mem_fixedDistances
      (getD_mem (a := fixedDistances) (i := s) (by simpa [fixedDistances]))
    omega
  refine ⟨⟨fun l hl => ?_, ?_⟩, ⟨fun l hl => ?_, ?_⟩, hsymbol _ (by decide), fun t ht =>
    ⟨hsymbol _ (Nat.lt_trans (hfits t ht).symbol_lt (by decide)),
      fun s hs => hdistance s ((hfits t ht).distanceSymbol_lt hs)⟩⟩
  · have hmem := mem_fixedLengths hl
    rw [longestCodeword]
    omega
  · simp only [Codes.fixed, fixedLengths, Array.toList_append, Array.toList_replicate,
      List.map_append, List.map_replicate, List.sum_append, List.sum_replicate_nat]
    decide
  · rw [mem_fixedDistances hl]
    decide
  · simp only [Codes.fixed, fixedDistances, Array.toList_replicate, List.map_replicate,
      List.sum_replicate_nat]
    decide

/-! ## Bits in the fixed codes -/

theorem weight_eq (counts lengths : Array Nat) (extra : Nat → Nat) :
    weight counts lengths extra = weigh (fun s => lengths.getD s 0 + extra s) counts := by
  have hsum : ∀ (f : Nat → Nat) (xs : List Nat) (n : Nat),
      xs.foldl (fun n s => n + f s) n = n + (xs.map f).sum := by
    intro f xs
    induction xs with
    | nil => exact fun _ => rfl
    | cons x xs ih =>
        intro n
        rw [List.foldl_cons, ih, List.map_cons, List.sum_cons, Nat.add_assoc]
  rw [weight, hsum, Nat.zero_add, weigh]

theorem sum_map_le {α : Type} {f : α → Nat} {most : Nat} {xs : List α}
    (h : ∀ x ∈ xs, f x ≤ most) : (xs.map f).sum ≤ most * xs.length := by
  induction xs with
  | nil => exact Nat.zero_le _
  | cons x xs ih =>
      obtain ⟨hx, h⟩ := List.forall_mem_cons.mp h
      rw [List.map_cons, List.sum_cons, List.length_cons, Nat.mul_succ, Nat.add_comm]
      exact Nat.add_le_add (ih h) hx

theorem fixedLengths_extra_le (s : Nat) : fixedLengths.getD s 0 + lengthExtra s ≤ 14 := by
  have hlength : fixedLengths.getD s 0 ≤ 9 := by
    by_cases hs : fixedLengths.getD s 0 = 0
    case pos => omega
    case neg =>
      have hmem := mem_fixedLengths (getD_mem (lt_size_of_getD_ne_zero hs))
      omega
  have hclasses : ∀ c ∈ lengthClasses, c.2 ≤ 5 := by decide
  have hextra : lengthExtra s ≤ 5 := by
    unfold lengthExtra
    split
    case isTrue => exact Nat.zero_le _
    case isFalse =>
      cases hget : lengthClasses[s - firstLength]? with
      | none => exact Nat.zero_le _
      | some c => exact hclasses c (List.mem_of_getElem? hget)
  omega

theorem fixedDistances_extra_le (s : Nat) : fixedDistances.getD s 0 + distanceExtra s ≤ 18 := by
  have hlength : fixedDistances.getD s 0 ≤ 5 := by
    by_cases hs : fixedDistances.getD s 0 = 0
    case pos => omega
    case neg => exact Nat.le_of_eq (mem_fixedDistances (getD_mem (lt_size_of_getD_ne_zero hs)))
  have hclasses : ∀ c ∈ distanceClasses, c.2 ≤ 13 := by decide
  have hextra : distanceExtra s ≤ 13 := by
    unfold distanceExtra
    cases hget : distanceClasses[s]? with
    | none => exact Nat.zero_le _
    | some c => exact hclasses c (List.mem_of_getElem? hget)
  omega

theorem weigh_endTally (w : Nat → Nat) : weigh w endTally = w endMark := by
  have hmodify : endTally = (Array.replicate 286 0).modify endMark (· + 1) := by
    refine eq_of_getD_eq (by simp [endTally]) fun i hi => ?_
    rw [size_endTally] at hi
    rw [endTally, getD_setIfInBounds _ (by simpa using hi), getD_modify _ (by simpa using hi),
      getD_replicate_zero]
  rw [hmodify, weigh_more w 1 (by simp [endMark]), weigh_replicate_zero]
  omega

/-- Tokens take few bits in the fixed codes. -/
theorem bits_fixed_le {ts : List Token} (hfits : ∀ t ∈ ts, t.Fits) :
    (tally ts).bits .fixed ≤ 32 * ts.length + 14 := by
  have hsymbols := sum_map_le (f := fun t : Token =>
    fixedLengths.getD t.symbol 0 + lengthExtra t.symbol)
    fun t (_ : t ∈ ts) => fixedLengths_extra_le t.symbol
  have hdistances := sum_map_le (f := fun s : Nat =>
    fixedDistances.getD s 0 + distanceExtra s)
    fun s (_ : s ∈ ts.filterMap Token.distanceSymbol?) => fixedDistances_extra_le s
  have hfewer : (ts.filterMap Token.distanceSymbol?).length ≤ ts.length :=
    List.length_filterMap_le _ _
  have hend := fixedLengths_extra_le endMark
  unfold Tally.bits
  rw [weight_eq, weight_eq, tally_eq, Codes.fixed]
  dsimp only
  rw [weigh_foldl_modify _ Token.symbol fun t ht => by
      rw [size_endTally]
      exact (hfits t ht).symbol_lt,
    weigh_endTally, weigh_foldl_modify _ (fun s => s) fun s hs => by
      obtain ⟨t, ht, hs⟩ := List.mem_filterMap.mp hs
      rw [Array.size_replicate]
      exact (hfits t ht).distanceSymbol_lt hs,
    weigh_replicate_zero]
  omega

/-! ## Forms of a block -/

/-- The body of a block of octets as they are gives these octets. -/
theorem readPlain_of_filled {used : Nat} {octets : List UInt8} (h : octets.length ≤ 65535)
    (out : Array UInt8) (rest : List Bool) :
    readPlain used out
        (filling used ++ (bitsOf 16 octets.length ++
          (bitsOf 16 (65535 - octets.length) ++ (unpack octets ++ rest)))) =
      some (out ++ octets.toArray, rest) := by
  have hlength : takeNumber 16 (bitsOf 16 octets.length ++
      (bitsOf 16 (65535 - octets.length) ++ (unpack octets ++ rest))) = some (octets.length, _) :=
    takeNumber_bitsOf (by omega) _
  have hcheck : takeNumber 16 (bitsOf 16 (65535 - octets.length) ++ (unpack octets ++ rest)) =
      some (65535 - octets.length, _) :=
    takeNumber_bitsOf (by omega) _
  have htake : (unpack octets ++ rest).take (8 * octets.length) = unpack octets := by
    rw [← length_unpack, List.take_left]
  have hdrop : (unpack octets ++ rest).drop (8 * octets.length) = rest := by
    rw [← length_unpack, List.drop_left]
  unfold readPlain
  simp only [List.drop_left, hlength, hcheck, Option.bind_eq_bind, Option.bind_some]
  rw [if_neg (by rw [List.length_append, length_unpack]; omega), htake, hdrop, pack_unpack]
  rfl

/-- Behind a block the reading ends or goes on. -/
theorem readBlocks_of_readBlock {total : Nat} {final low high : Bool} {bits rest : List Bool}
    {out out' : Array UInt8} (h : readBlock total low high out bits = some (out', rest)) (n : Nat) :
    readBlocks total (n + 1) out ([final, low, high] ++ bits) =
      if final then some (out', rest) else readBlocks total n out' rest := by
  simp only [List.cons_append, List.nil_append, readBlocks, h, Option.bind_eq_bind,
    Option.bind_some]
  rfl

/-- A block of octets as they are gives these octets, wherever in the stream it begins. -/
theorem readBlocks_plainBits {total before : Nat} {final : Bool} {octets : List UInt8}
    (h : octets.length ≤ 65535) {out : Array UInt8} {rest : List Bool}
    (htotal : total = before + (plainBits before final octets ++ rest).length) (n : Nat) :
    readBlocks total (n + 1) out (plainBits before final octets ++ rest) =
      if final then some (out ++ octets.toArray, rest)
      else readBlocks total n (out ++ octets.toArray) rest := by
  simp only [plainBits, List.append_assoc] at htotal ⊢
  refine readBlocks_of_readBlock ?_ n
  rw [List.length_append, List.length_cons, List.length_cons, List.length_cons,
    List.length_nil] at htotal
  rw [readBlock, show total - (filling (before + 3) ++ (bitsOf 16 octets.length ++
      (bitsOf 16 (65535 - octets.length) ++ (unpack octets ++ rest)))).length = before + 3 by omega,
    readPlain_of_filled h]

section

variable {ts : List Token} (hfits : ∀ t ∈ ts, t.Fits) {out out' : Array UInt8}
  (honto : ts.foldlM Token.onto out = some out')
include hfits honto

theorem readBlock_fixed (total : Nat) (rest : List Bool) :
    readBlock total true false out (bodyBits .fixed ts ++ rest) = some (out', rest) := by
  have hserves := serves_fixed hfits
  have hsymbols := decodes_ofLengths hserves.symbols
  have hlength := length_le_length_bodyBits hsymbols hserves.has
  refine readBody_bodyBits hsymbols (decodes_ofLengths hserves.distances) hserves.ends hfits
    hserves.has honto ?_ rest
  rw [List.length_append]
  omega

/-- Tokens are read back behind the description of their own codes. -/
theorem readBlock_own (total : Nat) (rest : List Bool) :
    readBlock total false true out
        ((describe (tally ts).ownCodes).bits ++ (bodyBits (tally ts).ownCodes ts ++ rest)) =
      some (out', rest) := by
  have hserves := serves_ownCodes hfits
  have hsize := (suits_ownCodes ts).1.size.trans (size_symbols_tally ts)
  have hsize' := (suits_ownCodes ts).2.size.trans (size_distances_tally ts)
  have hshort : ∀ {ls : List Nat}, Fitting ls → ∀ l ∈ ls, l < repeatBefore := fun h l hl =>
    Nat.lt_succ_of_le (h.bounded l hl)
  have hsymbols := decodes_upToLast (show 257 ≤ _ by omega) hserves.symbols
  have hdistances := decodes_upToLast (show 1 ≤ _ by omega) hserves.distances
  have hcodes := readCodes_describe (c := (tally ts).ownCodes) (by omega) (by omega)
    (hshort hserves.symbols) (hshort hserves.distances)
    (bodyBits (tally ts).ownCodes ts ++ rest)
  have hlength := length_le_length_bodyBits hsymbols hserves.has
  rw [readBlock, hcodes, Option.bind_eq_bind, Option.bind_some]
  refine readBody_bodyBits hsymbols hdistances hserves.ends hfits hserves.has honto ?_ rest
  rw [List.length_append]
  omega

end

/-- Every block is read back, whichever of its forms is the shortest. -/
theorem readBlocks_blockBits {total before : Nat} {final : Bool} {octets : List UInt8}
    {ts : List Token} (hfits : ∀ t ∈ ts, t.Fits) (hfew : ts.length ≤ blockTokens)
    {out : Array UInt8} (honto : ts.foldlM Token.onto out = some (out ++ octets.toArray))
    {rest : List Bool}
    (htotal : total = before + (blockBits before final octets ts ++ rest).length) (n : Nat) :
    readBlocks total (n + 1) out (blockBits before final octets ts ++ rest) =
      if final then some (out ++ octets.toArray, rest)
      else readBlocks total n (out ++ octets.toArray) rest := by
  unfold blockBits at htotal ⊢
  dsimp only at htotal ⊢
  split at htotal
  case isTrue hplain =>
    rw [if_pos hplain]
    refine readBlocks_plainBits ?_ htotal n
    -- the fixed codes would take fewer octets than this
    have hbits := bits_fixed_le hfits
    have hlimit : ts.length ≤ 16383 := hfew
    unfold octetsFor at hplain
    omega
  case isFalse hplain =>
    rw [if_neg hplain]
    split
    case isTrue =>
      rw [List.append_assoc]
      exact readBlocks_of_readBlock (readBlock_fixed hfits honto total rest) n
    case isFalse =>
      rw [List.append_assoc, List.append_assoc]
      exact readBlocks_of_readBlock (readBlock_own hfits honto total rest) n

end JavaAtlas.Deflate
