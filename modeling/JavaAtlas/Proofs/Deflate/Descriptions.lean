import JavaAtlas.Deflate.Inflate
import JavaAtlas.Proofs.Deflate.CodeLengths

/-!
# Descriptions of codes are read back

A block with codes of its own begins with their lengths, written as runs in a code for
lengths, behind the lengths of that code.  Reading gives the lengths back, up to zeros at
the end, and these make no difference to the codes.

Main definitions:

- `Coded.onto`, `Coded.IsRun`: the lengths that a run adds, and the runs that are written.
- `Adds`: runs that lead from lengths to others.
- `Decodes`: a tree reads the codewords of lengths.

Main results:

- Theorem `adds_runs`: the runs of lengths add these lengths.
- Theorem `readRuns_of_foldlM`: runs are read back from their bits.
- Theorem `decodes_upToLast`: zeros at the end make no difference.
- Theorem `readCodes_describe`: a description is read back.
-/

namespace JavaAtlas.Deflate

/-! ## Runs -/

/-- The lengths with those of one more run.  The newest length comes first. -/
def Coded.onto (done : List Nat) (r : Coded) : Option (List Nat) :=
  if r.symbol < repeatBefore then some (r.symbol :: done)
  else if r.symbol = repeatBefore then
    done.head?.map fun l => List.replicate (3 + r.extra) l ++ done
  else if r.symbol = fewZeros then some (List.replicate (3 + r.extra) 0 ++ done)
  else some (List.replicate (11 + r.extra) 0 ++ done)

/-- Number of extra bits of the symbol of a run. -/
def runExtra (s : Nat) : Nat :=
  if s < repeatBefore then 0
  else if s = repeatBefore then 2
  else if s = fewZeros then 3
  else 7

/-- A run that can be written: its symbol is one of the alphabet for lengths, and its extra
bits hold the rest. -/
structure Coded.IsRun (r : Coded) : Prop where
  symbol : r.symbol < 19
  extraBits : r.extraBits = runExtra r.symbol
  extra : r.extra < 2 ^ r.extraBits

/-- A run is read back behind its symbol. -/
theorem readRun_extra {r : Coded} (h : r.IsRun) {done done' : List Nat}
    (honto : r.onto done = some done') (rest : List Bool) :
    readRun r.symbol done (bitsOf r.extraBits r.extra ++ rest) = some (done', rest) := by
  have hnumber := takeNumber_bitsOf h.extra rest
  have hextra := h.extraBits
  unfold Coded.onto at honto
  unfold readRun
  unfold runExtra at hextra
  dsimp only
  split at honto
  case isTrue hplain =>
    rw [if_pos hplain] at hextra ⊢
    cases honto
    rw [hextra]
    rfl
  case isFalse hplain =>
    rw [if_neg hplain] at hextra ⊢
    split at honto
    case isTrue hbefore =>
      rw [if_pos hbefore] at hextra ⊢
      cases done with
      | nil => cases honto
      | cons l done =>
          cases honto
          rw [hextra] at hnumber ⊢
          simp [hnumber]
    case isFalse hbefore =>
      rw [if_neg hbefore] at hextra ⊢
      split at honto
      case isTrue hfew =>
        rw [if_pos hfew] at hextra ⊢
        cases honto
        rw [hextra] at hnumber ⊢
        simp [hnumber]
      case isFalse hfew =>
        rw [if_neg hfew] at hextra ⊢
        cases honto
        rw [hextra] at hnumber ⊢
        simp [hnumber]

/-- A run adds lengths. -/
theorem Coded.length_lt_of_onto {r : Coded} {done done' : List Nat}
    (h : r.onto done = some done') : done.length < done'.length := by
  unfold Coded.onto at h
  split at h
  · cases h
    simp
  · split at h
    · obtain ⟨l, -, rfl⟩ := Option.map_eq_some_iff.mp h
      simp
    · split at h
      all_goals
        cases h
        simp

theorem length_le_of_foldlM_onto {rs : List Coded} {done final : List Nat}
    (h : rs.foldlM Coded.onto done = some final) : done.length ≤ final.length := by
  induction rs generalizing done with
  | nil =>
      cases h
      exact Nat.le_refl _
  | cons r rs ih =>
      rw [List.foldlM_cons, Option.bind_eq_bind, Option.bind_eq_some_iff] at h
      obtain ⟨done', hr, h⟩ := h
      exact Nat.le_trans (Nat.le_of_lt (Coded.length_lt_of_onto hr)) (ih h)

/-- Runs are read back from their bits; by induction on the runs. -/
theorem readRuns_of_foldlM {code : CodeTree} {words : Array (List Bool)} {rs : List Coded}
    {done final : List Nat} (fuel : Nat) (hruns : ∀ r ∈ rs, r.IsRun)
    (hread : ∀ r ∈ rs, ∀ rest,
      code.read (words.getD r.symbol [] ++ rest) = some (r.symbol, rest))
    (h : rs.foldlM Coded.onto done = some final) (hfuel : final.length < done.length + fuel)
    (rest : List Bool) :
    readRuns code final.length fuel done (rs.flatMap (codedBits words) ++ rest) =
      some (final.reverse, rest) := by
  induction rs generalizing done fuel with
  | nil =>
      cases h
      obtain ⟨fuel, rfl⟩ : ∃ k, fuel = k + 1 := ⟨fuel - 1, by omega⟩
      simp [readRuns]
  | cons r rs ih =>
      obtain ⟨hr, hruns⟩ := List.forall_mem_cons.mp hruns
      obtain ⟨hreadr, hread⟩ := List.forall_mem_cons.mp hread
      rw [List.foldlM_cons, Option.bind_eq_bind, Option.bind_eq_some_iff] at h
      obtain ⟨done', honto, h⟩ := h
      have hless := Coded.length_lt_of_onto honto
      have hle := length_le_of_foldlM_onto h
      obtain ⟨fuel, rfl⟩ : ∃ k, fuel = k + 1 := ⟨fuel - 1, by omega⟩
      rw [List.flatMap_cons, List.append_assoc, codedBits, List.append_assoc, readRuns,
        if_neg (by omega), hreadr]
      simp only [Option.bind_eq_bind, Option.bind_some, readRun_extra hr honto]
      exact ih _ hruns hread h (by omega)

/-- Runs that can be written and lead from lengths to others.  The newest length comes
first. -/
structure Adds (rs : List Coded) (done done' : List Nat) : Prop where
  foldlM : rs.foldlM Coded.onto done = some done'
  isRun : ∀ r ∈ rs, r.IsRun

section

variable {rs rs' : List Coded} {done done₁ done' : List Nat} {k l count : Nat}

theorem Adds.append (h : Adds rs done done₁) (h' : Adds rs' done₁ done') :
    Adds (rs ++ rs') done done' where
  foldlM := by
    rw [List.foldlM_append, h.foldlM, Option.bind_eq_bind, Option.bind_some, h'.foldlM]
  isRun := List.forall_mem_append.mpr ⟨h.isRun, h'.isRun⟩

theorem adds_singleton {r : Coded} (honto : r.onto done = some done') (hr : r.IsRun) :
    Adds [r] done done' where
  foldlM := by
    rw [List.foldlM_cons, honto]
    rfl
  isRun := List.forall_mem_singleton.mpr hr

/-- Lengths are written as they are. -/
theorem adds_plain (hl : l < repeatBefore) (k : Nat) (done : List Nat) :
    Adds (List.replicate k ⟨l, 0, 0⟩) done (List.replicate k l ++ done) := by
  have hrun : Coded.IsRun ⟨l, 0, 0⟩ :=
    ⟨Nat.lt_trans hl (by decide), (if_pos hl).symm, Nat.one_pos⟩
  induction k generalizing done with
  | zero => exact ⟨rfl, List.forall_mem_nil _⟩
  | succ k ih =>
      have honto : Coded.onto done ⟨l, 0, 0⟩ = some (l :: done) := if_pos hl
      have hmore := (adds_singleton honto hrun).append (ih (l :: done))
      rwa [List.append_cons, ← List.replicate_succ'] at hmore

/-- The length before is repeated. -/
theorem adds_repeatBefore (hbefore : done.head? = some l) (hk : k < 4) :
    Adds [⟨repeatBefore, 2, k⟩] done (List.replicate (3 + k) l ++ done) := by
  refine adds_singleton ?_ ⟨show repeatBefore < 19 by decide, rfl, hk⟩
  simp [Coded.onto, hbefore]

/-- Few zeros are written as one run. -/
theorem adds_fewZeros (done : List Nat) (hk : k < 8) :
    Adds [⟨fewZeros, 3, k⟩] done (List.replicate (3 + k) 0 ++ done) :=
  adds_singleton rfl ⟨show fewZeros < 19 by decide, rfl, hk⟩

/-- So are many. -/
theorem adds_manyZeros (done : List Nat) (hk : k < 128) :
    Adds [⟨manyZeros, 7, k⟩] done (List.replicate (11 + k) 0 ++ done) :=
  adds_singleton rfl ⟨show manyZeros < 19 by decide, rfl, hk⟩

/-- The symbols of a run of equal lengths add these lengths. -/
theorem adds_runSymbols {before : Option Nat} (hl : l < repeatBefore)
    (hcount : count ≤ runLimit before l) (hbefore : ∀ b, before = some b → done.head? = some b) :
    Adds (runSymbols before l count) done (List.replicate count l ++ done) := by
  have hplain := adds_plain hl count done
  unfold runSymbols
  unfold runLimit at hcount
  dsimp only
  split
  case isTrue hzero =>
    subst hzero
    rw [if_pos rfl] at hcount
    split
    case isTrue => exact hplain
    case isFalse =>
      split
      case isTrue =>
        have hzeros := adds_fewZeros done (show count - 3 < 8 by omega)
        rwa [Nat.add_sub_cancel' (by omega)] at hzeros
      case isFalse =>
        have hzeros := adds_manyZeros done (show count - 11 < 128 by omega)
        rwa [Nat.add_sub_cancel' (by omega)] at hzeros
  case isFalse hpos =>
    rw [if_neg hpos] at hcount
    split
    case isTrue hsame =>
      rw [if_pos hsame] at hcount
      split
      case isTrue => exact hplain
      case isFalse =>
        have hrepeat := adds_repeatBefore (hbefore l hsame) (show count - 3 < 4 by omega)
        rwa [Nat.add_sub_cancel' (by omega)] at hrepeat
    case isFalse hother =>
      rw [if_neg hother] at hcount
      split
      case isTrue => exact hplain
      case isFalse =>
        -- the length itself comes first, and the others repeat it
        have hrepeat : Adds [⟨repeatBefore, 2, count - 4⟩] (l :: done)
            (List.replicate (3 + (count - 4)) l ++ l :: done) :=
          adds_repeatBefore rfl (by omega)
        have hall : List.replicate (3 + (count - 4)) l ++ l :: done =
            List.replicate count l ++ done := by
          rw [List.append_cons, ← List.replicate_succ', show 3 + (count - 4) + 1 = count by omega]
        rw [hall] at hrepeat
        exact (adds_plain hl 1 done).append hrepeat

/-- The runs from a length on add it and those behind it; by induction on these. -/
theorem adds_runsFrom {before : Option Nat} {ls : List Nat} (done : List Nat)
    (hls : ∀ m ∈ l :: ls, m < repeatBefore) (hcount : count < runLimit before l)
    (hbefore : ∀ b, before = some b → done.head? = some b) :
    Adds (runsFrom before count (l :: ls)) done
      (ls.reverse ++ (List.replicate (count + 1) l ++ done)) := by
  induction ls generalizing before count l done with
  | nil => exact adds_runSymbols (hls l List.mem_cons_self) hcount hbefore
  | cons next ls ih =>
      obtain ⟨hl, hrest⟩ := List.forall_mem_cons.mp hls
      rw [List.reverse_cons, List.append_assoc]
      unfold runsFrom
      dsimp only
      split
      case isTrue hsame =>
        obtain ⟨rfl, hless⟩ := hsame
        exact ih _ hrest hless hbefore
      case isFalse hother =>
        have hafter : ∀ b, some l = some b →
            (List.replicate (count + 1) l ++ done).head? = some b := by
          rintro b ⟨rfl⟩
          rfl
        have hfirst : 0 < runLimit (some l) next := by
          unfold runLimit
          split
          · decide
          · split <;> decide
        exact (adds_runSymbols hl hcount hbefore).append (ih _ hrest hfirst hafter)

/-- The runs of lengths add these lengths. -/
theorem adds_runs {ls : List Nat} (hls : ∀ l ∈ ls, l < repeatBefore) (done : List Nat) :
    Adds (runs ls) done (ls.reverse ++ done) := by
  cases ls with
  | nil => exact ⟨rfl, List.forall_mem_nil _⟩
  | cons l ls =>
      have hfirst : 0 < runLimit none l := by
        unfold runLimit
        split <;> simp
      rw [List.reverse_cons, List.append_assoc]
      exact adds_runsFrom done hls hfirst nofun

end

/-! ## Codes that are read -/

/-- A tree reads the codewords of lengths. -/
def Decodes (t : CodeTree) (lengths : Array Nat) : Prop :=
  ∀ s, lengths.getD s 0 ≠ 0 → (codewords lengths).getD s [] ≠ [] ∧
    ∀ rest, t.read ((codewords lengths).getD s [] ++ rest) = some (s, rest)

theorem getD_toList (lengths : Array Nat) (s : Nat) :
    lengths.toList.getD s 0 = lengths.getD s 0 := by
  rw [List.getD_eq_getElem?_getD, Array.getElem?_toList, Array.getD_eq_getD_getElem?]

theorem decodes_ofLengths {lengths : Array Nat} (h : Fitting lengths.toList) :
    Decodes (.ofLengths lengths) lengths := by
  intro s hs
  rw [getD_codewords h.bounded]
  rw [← getD_toList] at hs
  exact ⟨mt codeword_eq_nil_iff.mp hs, CodeTree.read_ofLengths h hs⟩

section

variable {ls : List Nat} {k : Nat}

theorem getD_append_zeros (s : Nat) : (ls ++ List.replicate k 0).getD s 0 = ls.getD s 0 := by
  simp only [List.getD_eq_getElem?_getD, List.getElem?_append, List.getElem?_replicate]
  split
  case isTrue => rfl
  case isFalse hs =>
    rw [List.getElem?_eq_none (Nat.le_of_not_lt hs)]
    split <;> rfl

theorem occurring_append_zeros (l : Nat) :
    occurring (ls ++ List.replicate k 0) l = occurring ls l := by
  unfold occurring
  split
  case isTrue => rfl
  case isFalse hl =>
    rw [List.count_append, List.count_replicate, if_neg (by simpa using Ne.symm hl), Nat.add_zero]

theorem firstCode_append_zeros (l : Nat) :
    firstCode (ls ++ List.replicate k 0) l = firstCode ls l := by
  induction l with
  | zero => rfl
  | succ l ih => rw [firstCode, firstCode, ih, occurring_append_zeros]

/-- Zeros at the end make no difference to the codewords. -/
theorem codeword_append_zeros {s : Nat} (hs : ls.getD s 0 ≠ 0) :
    codeword (ls ++ List.replicate k 0) s = codeword ls s := by
  have hlt : s < ls.length := by
    refine Nat.lt_of_not_le fun hle => hs ?_
    simp [List.getD_eq_getElem?_getD, hle]
  rw [codeword, codeword, codeNumber, codeNumber, getD_append_zeros, firstCode_append_zeros,
    List.take_append_of_le_length (Nat.le_of_lt hlt)]

theorem Fitting.of_append_zeros (h : Fitting (ls ++ List.replicate k 0)) : Fitting ls where
  bounded l hl := h.bounded l (List.mem_append_left _ hl)
  kraft := by
    have hkraft := h.kraft
    rw [List.map_append, List.sum_append] at hkraft
    omega

/-- The lengths up to the last one that is used, and at least so many. -/
theorem upToLast_spec {least : Nat} {lengths : Array Nat} (hleast : least ≤ lengths.size) :
    (∃ k, lengths.toList = upToLast least lengths ++ List.replicate k 0) ∧
      least ≤ (upToLast least lengths).length ∧ (upToLast least lengths).length ≤ lengths.size := by
  have hparts := List.takeWhile_append_dropWhile (p := (· == 0)) (l := lengths.toList.reverse)
  have hlist := congrArg List.reverse hparts
  rw [List.reverse_append, List.reverse_reverse] at hlist
  unfold upToLast
  dsimp only
  generalize hused : lengths.toList.reverse.dropWhile (· == 0) = used at hlist
  generalize hzeros : lengths.toList.reverse.takeWhile (· == 0) = zeros at hlist
  have hsize : used.length + zeros.length = lengths.size := by
    have hlength := congrArg List.length hlist
    simpa using hlength
  have htotal : lengths.toList.length = lengths.size := Array.length_toList
  refine ⟨⟨lengths.size - max least used.length, ?_⟩, ?_, ?_⟩
  · have hdrop : lengths.toList.drop (max least used.length) =
        List.replicate (lengths.size - max least used.length) 0 := by
      rw [List.eq_replicate_iff]
      refine ⟨by simp, fun l hl => ?_⟩
      have hl' : l ∈ lengths.toList.drop used.length :=
        List.mem_of_mem_drop (i := max least used.length - used.length) (by
          rw [List.drop_drop, Nat.add_sub_cancel' (Nat.le_max_right _ _)]
          exact hl)
      rw [← hlist, List.drop_left' List.length_reverse, List.mem_reverse, ← hzeros] at hl'
      simpa using List.all_eq_true.mp List.all_takeWhile l hl'
    rw [← hdrop, List.take_append_drop]
  · rw [List.length_take, htotal]
    omega
  · rw [List.length_take, htotal]
    omega

/-- Lengths that were cut behind the last one that is used give the same code. -/
theorem decodes_upToLast {least : Nat} {lengths : Array Nat} (hleast : least ≤ lengths.size)
    (h : Fitting lengths.toList) :
    Decodes (.ofLengths (upToLast least lengths).toArray) lengths := by
  obtain ⟨⟨k, hk⟩, -, -⟩ := upToLast_spec hleast
  intro s hs
  have hword := getD_codewords h.bounded s
  have hfitting : Fitting (upToLast least lengths).toArray.toList := by
    rw [List.toList_toArray]
    exact (hk ▸ h).of_append_zeros
  have hs' : (upToLast least lengths).getD s 0 ≠ 0 := by
    rwa [← getD_toList, hk, getD_append_zeros] at hs
  rw [hword, hk, codeword_append_zeros hs']
  exact ⟨mt codeword_eq_nil_iff.mp hs', CodeTree.read_ofLengths hfitting hs'⟩

end

/-! ## Descriptions -/

theorem eq_of_getD_eq {a b : Array Nat} (hsize : a.size = b.size)
    (h : ∀ i < a.size, a.getD i 0 = b.getD i 0) : a = b := by
  refine Array.ext hsize fun i ha hb => ?_
  have hget := h i ha
  simpa [Array.getD, ha, hb] using hget

/-- Lengths of three bits are read back in their order. -/
theorem readLengthLengths_flatMap {lengths : Array Nat} (h : ∀ s, lengths.getD s 0 < 2 ^ 3)
    (order : List Nat) (a : Array Nat) (rest : List Bool) :
    readLengthLengths order a
        (order.flatMap (fun s => bitsOf 3 (lengths.getD s 0)) ++ rest) =
      some (order.foldl (fun a s => a.setIfInBounds s (lengths.getD s 0)) a, rest) := by
  induction order generalizing a with
  | nil => rfl
  | cons s order ih =>
      rw [List.flatMap_cons, List.append_assoc, readLengthLengths, takeNumber_bitsOf (h s),
        Option.bind_eq_bind, Option.bind_some]
      exact ih _

/-- Number of lengths at the end of the order that are zero. -/
def trailingZeros (lengths : Array Nat) : Nat :=
  (lengthOrder.reverse.takeWhile fun s => lengths.getD s 0 == 0).length

/-- Lengths that are not written are zero. -/
theorem getD_eq_zero_of_notMem_take {lengths : Array Nat} {written s : Nat}
    (hwritten : 19 - trailingZeros lengths ≤ written) (hs : s < 19)
    (hnone : s ∉ lengthOrder.take written) : lengths.getD s 0 = 0 := by
  have horder : s ∈ lengthOrder := by
    have hall : ∀ t < 19, t ∈ lengthOrder := by decide
    exact hall s hs
  rw [← List.take_append_drop written lengthOrder, List.mem_append] at horder
  have hlast := horder.resolve_left hnone
  have hparts := List.takeWhile_append_dropWhile (p := fun s => lengths.getD s 0 == 0)
    (l := lengthOrder.reverse)
  have hlist := congrArg List.reverse hparts
  rw [List.reverse_append, List.reverse_reverse] at hlist
  unfold trailingZeros at hwritten
  have hlength := congrArg List.length hlist
  have hzeros : ∀ t ∈ lengthOrder.reverse.takeWhile fun s => lengths.getD s 0 == 0,
      lengths.getD t 0 = 0 := fun t ht => by
    simpa using List.all_eq_true.mp List.all_takeWhile t ht
  generalize lengthOrder.reverse.takeWhile (fun s => lengths.getD s 0 == 0) = zeros
    at hlist hlength hzeros hwritten
  generalize lengthOrder.reverse.dropWhile (fun s => lengths.getD s 0 == 0) = front
    at hlist hlength
  rw [List.length_append, List.length_reverse, List.length_reverse,
    show lengthOrder.length = 19 from rfl] at hlength
  refine hzeros s (List.mem_reverse.mp ?_)
  rw [← hlist, List.drop_append, List.mem_append] at hlast
  rcases hlast with hfront | hzero
  · rw [List.drop_of_length_le (by rw [List.length_reverse]; omega)] at hfront
    cases hfront
  · exact List.mem_of_mem_drop hzero

theorem foldl_take_lengthOrder {lengths : Array Nat} {written : Nat} (hsize : lengths.size = 19)
    (hwritten : 19 - trailingZeros lengths ≤ written) :
    (lengthOrder.take written).foldl (fun a s => a.setIfInBounds s (lengths.getD s 0))
      (Array.replicate 19 0) = lengths := by
  have hsize' : ((lengthOrder.take written).foldl
      (fun a s => a.setIfInBounds s (lengths.getD s 0)) (Array.replicate 19 0)).size = 19 := by
    rw [size_foldl_setIfInBounds, Array.size_replicate]
  refine eq_of_getD_eq (hsize'.trans hsize.symm) fun s hs => ?_
  rw [hsize'] at hs
  rw [getD_foldl_setIfInBounds _ (by simpa using hs)]
  split
  case isTrue => rfl
  case isFalse hnone =>
    rw [getD_replicate_zero, getD_eq_zero_of_notMem_take hwritten hs hnone]

/-- The code for lengths has short codewords, and each run is read back from its own. -/
theorem read_lengthCode {rs : List Coded} (hruns : ∀ r ∈ rs, r.IsRun) {lengths : Array Nat}
    (h : codeLengths 7 (rs.foldl (fun a r => a.modify r.symbol (· + 1)) (Array.replicate 19 0)) =
      lengths) :
    lengths.size = 19 ∧ (∀ s, lengths.getD s 0 ≤ 7) ∧
      ∀ r ∈ rs, ∀ rest, (CodeTree.ofLengths lengths).read
        ((codewords lengths).getD r.symbol [] ++ rest) = some (r.symbol, rest) := by
  generalize hcounts : rs.foldl (fun a r => a.modify r.symbol (· + 1)) (Array.replicate 19 0) =
    counts at h
  have hsize : counts.size = 19 := by
    rw [← hcounts, size_foldl_modify, Array.size_replicate]
  have hsuits := suits_codeLengths (show 7 ≠ 0 by decide) (by decide)
    (show 3 ≤ counts.size by omega) (by rw [hsize]; decide)
  rw [h] at hsuits
  refine ⟨hsuits.size.trans hsize, hsuits.le, fun r hr => ?_⟩
  refine (decodes_ofLengths hsuits.fitting _ (hsuits.used _ ?_)).2
  rw [← hcounts]
  exact getD_foldl_modify_ne_zero Coded.symbol hr (by simpa using (hruns r hr).symbol)

/-- A description of codes is read back, up to zeros at the end. -/
theorem readCodes_describe {c : Codes} (hsymbols : 257 ≤ c.symbols.size ∧ c.symbols.size < 289)
    (hdistances : 1 ≤ c.distances.size ∧ c.distances.size < 33)
    (hsymbol : ∀ l ∈ c.symbols.toList, l < repeatBefore)
    (hdistance : ∀ l ∈ c.distances.toList, l < repeatBefore) (rest : List Bool) :
    readCodes ((describe c).bits ++ rest) =
      some (⟨(upToLast 257 c.symbols).toArray, (upToLast 1 c.distances).toArray⟩, rest) := by
  obtain ⟨⟨k, hk⟩, hleast, hmost⟩ := upToLast_spec hsymbols.1
  obtain ⟨⟨m, hm⟩, hleast', hmost'⟩ := upToLast_spec hdistances.1
  have hsymbol' : ∀ l ∈ upToLast 257 c.symbols, l < repeatBefore := fun l hl =>
    hsymbol l (hk ▸ List.mem_append_left _ hl)
  have hdistance' : ∀ l ∈ upToLast 1 c.distances, l < repeatBefore := fun l hl =>
    hdistance l (hm ▸ List.mem_append_left _ hl)
  unfold describe
  dsimp only
  generalize upToLast 257 c.symbols = symbols at hsymbol' hleast hmost ⊢
  generalize upToLast 1 c.distances = distances at hdistance' hleast' hmost' ⊢
  -- the runs add all lengths
  obtain ⟨hall, hisRun⟩ := (adds_runs hsymbol' []).append (adds_runs hdistance' _)
  rw [List.append_nil, ← List.reverse_append] at hall
  generalize runs symbols ++ runs distances = rs at hall hisRun ⊢
  -- the code for their lengths
  generalize hlengths : codeLengths 7
    (rs.foldl (fun a r => a.modify r.symbol (· + 1)) (Array.replicate 19 0)) = lengths
  obtain ⟨hsize, hseven, hread⟩ := read_lengthCode hisRun hlengths
  have hthree : ∀ s, lengths.getD s 0 < 2 ^ 3 := fun s =>
    Nat.lt_of_le_of_lt (hseven s) (by decide)
  have hwritten : 19 - trailingZeros lengths ≤ max 4 (19 - trailingZeros lengths) :=
    Nat.le_max_right _ _
  have horder := foldl_take_lengthOrder hsize hwritten
  change readCodes (Description.bits
    ⟨_, _, rs, lengths, max 4 (19 - trailingZeros lengths)⟩ ++ rest) = _
  have hfour : 4 ≤ max 4 (19 - trailingZeros lengths) := Nat.le_max_left _ _
  have hfew : max 4 (19 - trailingZeros lengths) - 4 < 2 ^ 4 := by omega
  generalize max 4 (19 - trailingZeros lengths) = written at horder hfour hfew ⊢
  have hcount : symbols.length - 257 + 257 = symbols.length := Nat.sub_add_cancel hleast
  have htotal : symbols.length + (distances.length - 1 + 1) =
      (symbols ++ distances).reverse.length := by
    rw [Nat.sub_add_cancel hleast', List.length_reverse, List.length_append]
  have hreadRuns := readRuns_of_foldlM ((symbols ++ distances).reverse.length + 1) hisRun hread
    hall (by simp) rest
  rw [List.reverse_reverse] at hreadRuns
  unfold readCodes Description.bits
  simp only [List.append_assoc, Option.bind_eq_bind, Option.bind_some,
    takeNumber_bitsOf (show symbols.length - 257 < 2 ^ 5 by omega),
    takeNumber_bitsOf (show distances.length - 1 < 2 ^ 5 by omega),
    takeNumber_bitsOf hfew, Nat.sub_add_cancel hfour, readLengthLengths_flatMap hthree, horder,
    htotal, hreadRuns, hcount, List.take_left, List.drop_left]
  rfl

end JavaAtlas.Deflate
