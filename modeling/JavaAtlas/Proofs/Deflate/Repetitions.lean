import JavaAtlas.Deflate.Matching

/-!
# Tokens describe the data

A search follows chains of earlier places only, and a repetition is kept only after its
octets were compared.  So every copy that is cut repeats octets that stand before it,
and the tokens of data describe the data.

Main definitions:

- `Token.Fits`: the lengths and distances that have symbols.
- `Repeats`: a repetition at a place.
- `Underway`: what holds while data is cut into tokens.

Main results:

- Theorem `copyBack_extract`: copying a repetition goes on with the data.
- Theorem `repetition_cases`: what the search for a repetition finds.
- Theorem `written_cutFrom`: cutting goes on to the end of the data.
- Theorem `expand_tokens`, theorem `fits_of_mem_tokens`: the tokens of data describe it,
  and all of them have symbols.
-/

namespace JavaAtlas.Deflate

/-- The lengths and distances of tokens that have symbols. -/
def Token.Fits : Token → Prop
  | literal _ => True
  | copy length distance =>
    leastMatch ≤ length ∧ length ≤ greatestMatch ∧ 0 < distance ∧ distance ≤ reach

/-- A repetition at a place: its octets stand at an earlier one within reach. -/
structure Repeats (data : Array UInt8) (i : Nat) (f : Found) : Prop where
  before : f.place < i
  near : i - f.place ≤ reach
  short : f.length ≤ greatestMatch
  within : i + f.length ≤ data.size
  equal : ∀ k < f.length, data.getD (f.place + k) 0 = data.getD (i + k) 0

variable {data : Array UInt8} {i j : Nat}

/-! ## Copies -/

/-- Data up to a place goes on with the octet there. -/
theorem push_extract (h : i < data.size) :
    (data.extract 0 i).push (data.getD i 0) = data.extract 0 (i + 1) := by
  have hoctet : data.getD i 0 = data[i] := by simp [Array.getD, h]
  rw [hoctet, Array.push_extract_getElem, Nat.zero_min]

/-- A copy of octets that stand at a distance goes on with the data; by induction on the
length. -/
theorem copyBack_extract {distance length : Nat} (hpos : 0 < distance) (hdistance : distance ≤ i)
    (hwithin : i + length ≤ data.size)
    (hequal : ∀ k < length, data.getD (i - distance + k) 0 = data.getD (i + k) 0) :
    copyBack distance length (data.extract 0 i) = some (data.extract 0 (i + length)) := by
  induction length generalizing i with
  | zero => rfl
  | succ length ih =>
      have hsize : (data.extract 0 i).size = i := by
        rw [Array.size_extract]
        omega
      have hoctet : (data.extract 0 i)[i - distance]? = some (data.getD i 0) := by
        have hfirst := hequal 0 (Nat.succ_pos _)
        rw [Nat.add_zero, Nat.add_zero] at hfirst
        have hlt : i - distance < data.size := by omega
        rw [← hfirst, Array.getElem?_extract_of_lt (by omega)]
        simp [Array.getD, hlt]
      have hrest : ∀ k < length,
          data.getD (i + 1 - distance + k) 0 = data.getD (i + 1 + k) 0 := by
        intro k hk
        have hnext := hequal (k + 1) (by omega)
        rwa [show i - distance + (k + 1) = i + 1 - distance + k by omega,
          show i + (k + 1) = i + 1 + k by omega] at hnext
      unfold copyBack
      rw [if_neg (by omega), hsize, if_pos hdistance, hoctet]
      dsimp only
      rw [push_extract (by omega), ih (by omega) (by omega) hrest, Nat.add_right_comm,
        Nat.add_assoc]

/-! ## Common lengths -/

theorem commonLength_le (data : Array UInt8) (i j k : Nat) : commonLength data i j k ≤ k := by
  induction k generalizing i j with
  | zero => exact Nat.le_refl _
  | succ k ih =>
      unfold commonLength
      split
      case isTrue =>
        have hrest := ih (i + 1) (j + 1)
        omega
      case isFalse => exact Nat.zero_le _

theorem getD_eq_of_lt_commonLength {k m : Nat} (h : m < commonLength data i j k) :
    data.getD (i + m) 0 = data.getD (j + m) 0 := by
  induction k generalizing i j m with
  | zero => exact absurd h (Nat.not_lt_zero _)
  | succ k ih =>
      unfold commonLength at h
      split at h
      case isTrue hfirst =>
        cases m with
        | zero => exact hfirst
        | succ m =>
            have hrest := @ih (i + 1) (j + 1) m (by omega)
            rwa [Nat.add_assoc, Nat.add_comm 1 m, Nat.add_assoc, Nat.add_comm 1 m] at hrest
      case isFalse => exact absurd h (Nat.not_lt_zero _)

/-! ## Chains -/

/-- The chains hold places before the given one, and each leads to earlier ones. -/
structure Chains.Sound (c : Chains) (data : Array UInt8) (i : Nat) : Prop where
  newest : ∀ h, c.newest.getD h 0 ≤ i - 1
  older : ∀ j, c.older.getD j 0 ≤ j - 1
  size : i + leastMatch ≤ data.size → c.older.size = i

theorem Chains.sound_empty (data : Array UInt8) : Chains.empty.Sound data 0 where
  newest h := by
    simp only [empty, Array.getD_eq_getD_getElem?, Array.getElem?_replicate]
    split <;> simp
  older j := by simp [empty]
  size _ := rfl

/-- With its place the chains are sound for the next one. -/
theorem Chains.Sound.add {c : Chains} (hc : c.Sound data i) (hi : i + leastMatch ≤ data.size) :
    (c.add data i).Sound data (i + 1) := by
  obtain ⟨newest, older⟩ := c
  have hsize : older.size = i := hc.size hi
  refine ⟨fun h => ?_, fun j => ?_, fun _ => ?_⟩
  · have hbefore := hc.newest h
    simp only [Chains.add, Array.getD_eq_getD_getElem?, Array.getElem?_setIfInBounds] at hbefore ⊢
    split
    case isTrue =>
      split <;> simp
    case isFalse => omega
  · have hbefore := hc.older j
    simp only [Chains.add, Array.getD_eq_getD_getElem?, Array.getElem?_push] at hbefore ⊢
    split
    case isTrue hj =>
      have hnewest := hc.newest (hashAt data i)
      simp only [Array.getD_eq_getD_getElem?] at hnewest
      simp only [Option.getD_some]
      omega
    case isFalse => exact hbefore
  · simp [Chains.add, hsize]

theorem Chains.Sound.addAll {c : Chains} (hc : c.Sound data i) (k : Nat) :
    (Chains.addAll data k i c).Sound data (i + k) := by
  induction k generalizing i c with
  | zero => exact hc
  | succ k ih =>
      unfold Chains.addAll
      rw [show i + (k + 1) = i + 1 + k by omega]
      split
      case isTrue hi => exact ih (hc.add hi)
      case isFalse hi =>
        refine ih ⟨fun h => ?_, hc.older, fun h => absurd h (by omega)⟩
        have hbefore := hc.newest h
        omega

/-! ## Search -/

section

variable {c : Chains} (hc : c.Sound data i)
include hc

/-- The search gives back what it began with or a longer repetition; by induction on the
places that are tried. -/
theorem search_cases (hi : i ≤ data.size) (tries : Nat) (best : Found) (hj : j < i)
    (hnear : i - j ≤ reach) :
    search c data i tries j best = best ∨
      best.length < (search c data i tries j best).length ∧
        Repeats data i (search c data i tries j best) := by
  induction tries generalizing j best with
  | zero => exact .inl rfl
  | succ tries ih =>
      unfold search
      dsimp only
      generalize hlength : (if data.getD (j + best.length) 0 = data.getD (i + best.length) 0 then
        commonLength data j i (min greatestMatch (data.size - i)) else 0) = length
      have hroom : length ≤ min greatestMatch (data.size - i) := by
        subst hlength
        split
        case isTrue => exact commonLength_le _ _ _ _
        case isFalse => exact Nat.zero_le _
      have hequal : ∀ k < length, data.getD (j + k) 0 = data.getD (i + k) 0 := by
        intro k hk
        subst hlength
        split at hk
        case isTrue => exact getD_eq_of_lt_commonLength hk
        case isFalse => exact absurd hk (Nat.not_lt_zero _)
      generalize hbetter : (if best.length < length then (⟨length, j⟩ : Found) else best) = better
      have hfound : better = best ∨ best.length < better.length ∧ Repeats data i better := by
        subst hbetter
        split
        case isTrue hlonger =>
          refine .inr ⟨hlonger, hj, hnear, Nat.le_trans hroom (Nat.min_le_left _ _), ?_, hequal⟩
          have hwithin : length ≤ data.size - i := Nat.le_trans hroom (Nat.min_le_right _ _)
          dsimp only
          omega
        case isFalse => exact .inl rfl
      -- what is longer than the better one is longer than the best so far
      have hmore : ∀ f, f = better ∨ better.length < f.length ∧ Repeats data i f →
          f = best ∨ best.length < f.length ∧ Repeats data i f := by
        rintro f (rfl | ⟨hlonger, hf⟩)
        · exact hfound
        · rcases hfound with rfl | ⟨hless, -⟩
          · exact .inr ⟨hlonger, hf⟩
          · exact .inr ⟨Nat.lt_trans hless hlonger, hf⟩
      split
      case isTrue => exact hfound
      case isFalse =>
        split
        case isTrue hnext =>
          have holder := hc.older j
          exact hmore _ (ih _ (by omega) (by omega))
        case isFalse => exact hfound

theorem longest_cases (hi : i ≤ data.size) (hj : j < i) (hnear : i - j ≤ reach) (previous : Nat) :
    (longest c data i j previous).length ≤ previous ∨
      Repeats data i (longest c data i j previous) := by
  unfold longest
  dsimp only
  rcases search_cases hc hi (if goodLength ≤ previous then chainLength / 4 else chainLength)
    ⟨previous, 0⟩ hj hnear with hsame | ⟨-, hf⟩
  · rw [hsame]
    exact .inl (Nat.min_le_left _ _)
  · have hwithin := hf.within
    rw [Nat.min_eq_left (by omega)]
    exact .inr hf

/-- What is found at a place is too short, or no longer than at the place before, or a
repetition. -/
theorem repetition_cases (previous : Nat) :
    (repetition c data i previous).length < leastMatch ∨
      (repetition c data i previous).length ≤ previous ∨
        Repeats data i (repetition c data i previous) := by
  unfold repetition
  dsimp only
  split
  case isFalse => exact .inl (by decide)
  case isTrue hroom =>
    split
    case isFalse => exact .inl (by decide)
    case isTrue hworth =>
      simp only [Bool.and_eq_true, bne_iff_ne, decide_eq_true_eq] at hworth
      have hcandidate : c.candidate data i ≤ i - 1 := hc.newest _
      split
      case isTrue => exact .inl (by decide)
      case isFalse => exact .inr (longest_cases hc (by omega) (by omega) hworth.2 previous)

end

/-! ## Cutting -/

/-- Tokens, the newest first, describe the data up to a place and have symbols. -/
structure Written (data : Array UInt8) (done : List Token) (i : Nat) : Prop where
  describes : done.reverse.foldlM Token.onto #[] = some (data.extract 0 i)
  fits : ∀ t ∈ done, t.Fits

theorem Written.cons {done : List Token} {t : Token} (h : Written data done i)
    (ht : t.onto (data.extract 0 i) = some (data.extract 0 j)) (hfits : t.Fits) :
    Written data (t :: done) j where
  describes := by
    rw [List.reverse_cons, List.foldlM_append, h.describes]
    simp [ht]
  fits := List.forall_mem_cons.mpr ⟨hfits, h.fits⟩

theorem Written.literal {done : List Token} (h : Written data done i) (hi : i < data.size) :
    Written data (.literal (data.getD i 0) :: done) (i + 1) :=
  h.cons (congrArg some (push_extract hi)) trivial

theorem Written.copy {done : List Token} {f : Found} (h : Written data done i)
    (hf : Repeats data i f) (hleast : leastMatch ≤ f.length) :
    Written data (.copy f.length (i - f.place) :: done) (i + f.length) := by
  have hbefore := hf.before
  refine h.cons (copyBack_extract (by omega) (by omega) hf.within fun k hk => ?_)
    ⟨hleast, hf.short, by omega, hf.near⟩
  rw [Nat.sub_sub_self (Nat.le_of_lt hbefore)]
  exact hf.equal k hk

/-- What holds at a place while data is cut: the tokens describe the data up to it, or up to
the octet before it that waits, and a repetition that waits is one. -/
structure Underway (data : Array UInt8) (i : Nat) (c : Chains) (before : Pending)
    (done : List Token) : Prop where
  place : i ≤ data.size
  chains : c.Sound data i
  written : Written data done (if before.waiting then i - 1 else i)
  waits : before.waiting = true →
    0 < i ∧ (leastMatch ≤ before.found.length → Repeats data (i - 1) before.found)
  idle : before.waiting = false → before.found.length < leastMatch

/-- With the octet that waits, the tokens describe the data up to the place. -/
theorem Underway.written_here {c : Chains} {before : Pending} {done : List Token}
    (h : Underway data i c before done) :
    Written data (if before.waiting then .literal (data.getD (i - 1) 0) :: done else done) i := by
  have hplace := h.place
  have hwritten := h.written
  cases hwaiting : before.waiting with
  | false => simpa [hwaiting] using hwritten
  | true =>
      have hpos := (h.waits hwaiting).1
      rw [hwaiting, if_pos rfl] at hwritten
      rw [if_pos rfl]
      have hnext := hwritten.literal (by omega)
      rwa [Nat.sub_add_cancel hpos] at hnext

/-- Cutting goes on to the end of the data; by induction on the steps. -/
theorem written_cutFrom {c : Chains} {before : Pending} {done : List Token} {k : Nat}
    (h : Underway data i c before done) (hk : data.size < i + k) :
    Written data (cutFrom data k i c before done) data.size := by
  have hplace := h.place
  induction k generalizing i c before done with
  | zero => omega
  | succ k ih =>
      unfold cutFrom
      split
      case isFalse hi =>
        obtain rfl : i = data.size := by omega
        exact h.written_here
      case isTrue hi =>
        dsimp only
        have hchains : (Chains.addAll data 1 i c).Sound data (i + 1) := h.chains.addAll 1
        split
        case isTrue huse =>
          rw [Bool.and_eq_true, decide_eq_true_eq, decide_eq_true_eq] at huse
          have hwaiting : before.waiting = true := by
            cases hidle : before.waiting with
            | true => rfl
            | false => exact absurd (h.idle hidle) (Nat.not_lt.mpr huse.1)
          obtain ⟨hpos, hrepeats⟩ := h.waits hwaiting
          have hwithin := (hrepeats huse.1).within
          have hleast : 3 ≤ before.found.length := huse.1
          have hwritten := h.written
          rw [hwaiting, if_pos rfl] at hwritten
          have hcopied := hwritten.copy (hrepeats huse.1) huse.1
          have hend : i - 1 + before.found.length = i + (before.found.length - 2) + 1 := by omega
          refine ih ⟨by omega, ?_, ?_, nofun, fun _ => by decide⟩ (by omega) (by omega)
          · rw [Nat.add_right_comm]
            exact hchains.addAll _
          · rwa [hend] at hcopied
        case isFalse huse =>
          rw [Bool.and_eq_true, decide_eq_true_eq, decide_eq_true_eq, not_and, Nat.not_le] at huse
          refine ih ⟨hi, hchains, h.written_here, fun _ => ⟨Nat.succ_pos i, fun hleast => ?_⟩,
            nofun⟩ (by omega) hi
          rcases repetition_cases h.chains before.found.length with hshort | hless | hrepeats
          · exact absurd hleast (Nat.not_le.mpr hshort)
          · exact absurd hless (Nat.not_le.mpr (huse (Nat.le_trans hleast hless)))
          · exact hrepeats

/-! ## Tokens -/

theorem written_tokens (data : Array UInt8) : Written data (tokens data).reverse data.size := by
  rw [tokens, List.reverse_reverse]
  refine written_cutFrom ⟨Nat.zero_le _, Chains.sound_empty data, ⟨?_, nofun⟩, nofun,
    fun _ => by decide⟩ (by omega)
  simp

/-- The tokens of data describe it. -/
theorem expand_tokens (data : Array UInt8) : expand (tokens data) = some data := by
  have hdescribes := (written_tokens data).describes
  rwa [List.reverse_reverse, Array.extract_size] at hdescribes

theorem fits_of_mem_tokens {t : Token} (h : t ∈ tokens data) : t.Fits :=
  (written_tokens data).fits t (List.mem_reverse.mpr h)

end JavaAtlas.Deflate
