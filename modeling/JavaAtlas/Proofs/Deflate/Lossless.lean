import JavaAtlas.Proofs.Deflate.Blocks
import JavaAtlas.Proofs.Deflate.Reading

/-!
# Compression loses nothing

The groups of tokens that are written in one block each are all the tokens of the data,
and each describes the octets that its block stands for.  Every block is read back, so
every compressed stream gives its data, whatever octets follow it.

Main results:

- Theorem `exists_of_foldlM_onto`: tokens go on with as many octets as they span.
- Theorem `groupsOf_spec`: the groups are all tokens, few in each.
- Theorem `readBlocks_writeBlocks`: groups are read back from their blocks.
- Theorem `inflate_unpack_compress`: so is compressed data, whatever follows.
-/

namespace JavaAtlas.Deflate

/-! ## What tokens span -/

theorem exists_of_copyBack {distance length : Nat} {out out' : Array UInt8}
    (h : copyBack distance length out = some out') :
    ∃ octets : List UInt8, out' = out ++ octets.toArray ∧ octets.length = length := by
  induction length generalizing out with
  | zero =>
      cases h
      exact ⟨[], by simp, rfl⟩
  | succ length ih =>
      unfold copyBack at h
      split at h
      case isTrue => cases h
      case isFalse =>
        split at h
        case isFalse => cases h
        case isTrue =>
          split at h
          case h_2 => cases h
          case h_1 b _ =>
            obtain ⟨octets, rfl, hlength⟩ := ih h
            exact ⟨b :: octets, by simp, by simp [hlength]⟩

/-- Tokens go on with as many octets as they span. -/
theorem exists_of_foldlM_onto {ts : List Token} {out out' : Array UInt8}
    (h : ts.foldlM Token.onto out = some out') :
    ∃ octets : List UInt8, out' = out ++ octets.toArray ∧ octets.length = spanOf ts := by
  induction ts generalizing out with
  | nil =>
      cases h
      exact ⟨[], by simp, rfl⟩
  | cons t ts ih =>
      rw [List.foldlM_cons, Option.bind_eq_bind, Option.bind_eq_some_iff] at h
      obtain ⟨out₁, ht, h⟩ := h
      have hfirst : ∃ octets : List UInt8,
          out₁ = out ++ octets.toArray ∧ octets.length = t.span := by
        cases t with
        | literal b =>
            cases ht
            exact ⟨[b], by simp, rfl⟩
        | copy length distance => exact exists_of_copyBack ht
      obtain ⟨first, rfl, hfirst⟩ := hfirst
      obtain ⟨octets, rfl, hlength⟩ := ih h
      refine ⟨first ++ octets, by simp, ?_⟩
      rw [List.length_append, hfirst, hlength]
      rfl

/-! ## Groups -/

/-- The groups are all tokens, in order and few in each. -/
theorem groupsOf_spec {fuel : Nat} {ts : List Token} (h : ts.length ≤ fuel) :
    (groupsOf fuel ts).flatten = ts ∧ (∀ g ∈ groupsOf fuel ts, g.length ≤ blockTokens) ∧
      groupsOf fuel ts ≠ [] := by
  induction fuel generalizing ts with
  | zero =>
      obtain rfl : ts = [] := List.length_eq_zero_iff.mp (Nat.le_zero.mp h)
      exact ⟨rfl, by simp [groupsOf], by simp [groupsOf]⟩
  | succ fuel ih =>
      have hpos : 0 < blockTokens := by decide
      unfold groupsOf
      split
      case isTrue hshort => exact ⟨by simp, by simpa using Nat.le_of_lt hshort, by simp⟩
      case isFalse hlong =>
        have htake : (ts.take blockTokens).length ≤ blockTokens := List.length_take_le _ _
        dsimp only
        split
        case h_1 hrest _ =>
          refine ⟨?_, List.forall_mem_singleton.mpr htake, by simp⟩
          have hall := List.take_append_drop blockTokens ts
          rw [hrest, List.append_nil] at hall
          simpa using hall
        case h_2 =>
          obtain ⟨hflatten, hfew, -⟩ := ih
            (show (ts.drop blockTokens).length ≤ fuel by
              rw [List.length_drop]
              omega)
          refine ⟨?_, List.forall_mem_cons.mpr ⟨htake, hfew⟩, by simp⟩
          rw [List.flatten_cons, hflatten, List.take_append_drop]

theorem length_blockBits_pos (before : Nat) (final : Bool) (octets : List UInt8)
    (ts : List Token) : 0 < (blockBits before final octets ts).length := by
  unfold blockBits plainBits
  dsimp only
  split
  case isTrue => simp
  case isFalse => split <;> simp

theorem length_le_length_writeBlocks (before : Nat) (octets : List UInt8)
    (groups : List (List Token)) : groups.length ≤ (writeBlocks before octets groups).length := by
  induction groups generalizing before octets with
  | nil => exact Nat.le_refl _
  | cons g groups ih =>
      unfold writeBlocks
      dsimp only
      have hblock := length_blockBits_pos before groups.isEmpty (octets.take (spanOf g)) g
      have hrest := ih (before +
        (blockBits before groups.isEmpty (octets.take (spanOf g)) g).length)
        (octets.drop (spanOf g))
      rw [List.length_append, List.length_cons]
      omega

/-- Groups of tokens are read back from their blocks; by induction on the groups. -/
theorem readBlocks_writeBlocks {total before n : Nat} {groups : List (List Token)}
    {octets : List UInt8} {out : Array UInt8} (hne : groups ≠ [])
    (hfits : ∀ g ∈ groups, ∀ t ∈ g, t.Fits) (hfew : ∀ g ∈ groups, g.length ≤ blockTokens)
    (honto : groups.flatten.foldlM Token.onto out = some (out ++ octets.toArray))
    (hn : groups.length ≤ n)
    (htotal : total = before + (writeBlocks before octets groups).length) :
    readBlocks total n out (writeBlocks before octets groups) =
      some (out ++ octets.toArray, []) := by
  induction groups generalizing before n octets out with
  | nil => exact absurd rfl hne
  | cons g groups ih =>
      obtain ⟨hg, hfits⟩ := List.forall_mem_cons.mp hfits
      obtain ⟨hfewg, hfew⟩ := List.forall_mem_cons.mp hfew
      rw [List.length_cons] at hn
      obtain ⟨n, rfl⟩ : ∃ k, n = k + 1 := ⟨n - 1, by omega⟩
      rw [List.flatten_cons, List.foldlM_append, Option.bind_eq_bind,
        Option.bind_eq_some_iff] at honto
      obtain ⟨out₁, hontog, honto⟩ := honto
      obtain ⟨first, rfl, hfirst⟩ := exists_of_foldlM_onto hontog
      obtain ⟨more, hmore, -⟩ := exists_of_foldlM_onto honto
      -- the group stands for the first octets, and the groups behind it for the others
      obtain rfl : octets = first ++ more := by
        have hlist := congrArg Array.toList hmore
        simpa using hlist
      unfold writeBlocks at htotal ⊢
      dsimp only at htotal ⊢
      rw [← hfirst, List.take_left, List.drop_left] at htotal ⊢
      rw [readBlocks_blockBits hg hfewg hontog htotal n]
      cases groups with
      | nil =>
          obtain rfl : more = [] := by
            have hsize := congrArg Array.size (Option.some.inj honto)
            simp only [Array.size_append, List.size_toArray, List.length_append] at hsize
            exact List.eq_nil_of_length_eq_zero (by omega)
          simp [writeBlocks]
      | cons g' groups =>
          have hrest : out ++ (first ++ more).toArray = out ++ first.toArray ++ more.toArray := by
            simp
          rw [if_neg (by simp), hrest]
          rw [hrest] at honto
          refine ih (by simp) hfits hfew honto (by omega) ?_
          rw [htotal, List.length_append]
          omega

/-! ## Compressed data -/

/-- Compressed data is read back. -/
theorem inflate_compressBits (octets : List UInt8) :
    inflate (compressBits octets) = some (octets.toArray, []) := by
  have htokens := expand_tokens octets.toArray
  have hfits : ∀ t ∈ tokens octets.toArray, t.Fits := fun t => fits_of_mem_tokens
  unfold compressBits inflate
  dsimp only
  generalize tokens octets.toArray = ts at htokens hfits ⊢
  obtain ⟨hflatten, hfew, hne⟩ := groupsOf_spec (Nat.le_refl ts.length)
  have hgroups : ∀ g ∈ groupsOf ts.length ts, ∀ t ∈ g, t.Fits := fun g hg t ht =>
    hfits t (hflatten ▸ List.mem_flatten.mpr ⟨g, hg, ht⟩)
  have hlength := length_le_length_writeBlocks 0 octets (groupsOf ts.length ts)
  rw [readBlocks_writeBlocks hne hgroups hfew ?_ (Nat.le_succ_of_le hlength)
    (Nat.zero_add _).symm, Array.empty_append]
  rw [hflatten, Array.empty_append]
  exact htokens

/-- Compressed data is read back, whatever octets follow it. -/
theorem inflate_unpack_compress (octets behind : List UInt8) :
    ∃ rest, inflate (unpack (compress octets ++ behind)) = some (octets.toArray, rest) := by
  rw [compress, unpack_append, unpack_pack, List.append_assoc]
  exact ⟨_, inflate_append _ (inflate_compressBits octets)⟩

end JavaAtlas.Deflate
