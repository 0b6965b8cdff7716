import Mathlib.Algebra.BigOperators.Ring.List
import Mathlib.Algebra.Ring.Nat
import JavaAtlas.Proofs.Deflate.Codewords
import JavaAtlas.Proofs.Deflate.Joins

/-!
# Lengths of codewords leave room

Symbols that are joined under one root get lengths that take exactly the room there is,
unless the limit keeps some from going deeper.  What these take too much is made up for
by making shorter codewords longer, one at a time.  So the lengths leave room for all
codewords, and every symbol that occurs has one.

Main definitions:

- `Overfull`: numbers of codewords of each length that take too much room.
- `Complete`: lengths of codewords of symbols that take all the room there is.
- `Suits`: lengths that suit a tally.

Main results:

- Theorem `overfull_shorten`: codewords are shortened until there is room.
- Theorem `getD_distribute`: each symbol gets one of the lengths.
- Theorem `complete_codeLengths`: the symbols that occur get lengths that take all the room.
- Theorem `Complete.fitting`: such lengths leave room for all codewords.
- Theorem `suits_codeLengths`: so the lengths of codewords suit a tally.
-/

namespace JavaAtlas.Deflate

/-! ## Shortening -/

/-- Numbers of codewords of each length.  There are so many in all, and they take more room
by so much than there is; those of the greatest length make up for it. -/
structure Overfull (limit total excess : Nat) (counts : Array Nat) : Prop where
  size : counts.size = limit + 1
  first : counts.getD 0 0 = 0
  total : weigh (fun _ => 1) counts = total
  room : weigh (fun l => 2 ^ (limit - l)) counts = 2 ^ limit + excess
  last : excess ≤ counts.getD limit 0

theorem longestUsed_cases (counts : Array Nat) (k : Nat) :
    (∀ l, 0 < l → l ≤ k → counts.getD l 0 = 0) ∨
      0 < longestUsed counts k ∧ longestUsed counts k ≤ k ∧
        counts.getD (longestUsed counts k) 0 ≠ 0 := by
  induction k with
  | zero => exact .inl fun l hpos hle => absurd hpos (by omega)
  | succ k ih =>
      unfold longestUsed
      split
      case isTrue hnone =>
        rcases ih with hall | ⟨hpos, hle, hused⟩
        · refine .inl fun l hpos hle => ?_
          by_cases hl : l = k + 1
          case pos => rw [hl, hnone]
          case neg => exact hall l hpos (by omega)
        · exact .inr ⟨hpos, Nat.le_succ_of_le hle, hused⟩
      case isFalse hused => exact .inr ⟨Nat.succ_pos k, Nat.le_refl _, hused⟩

/-- Where there is too little room, some codeword is shorter than the limit. -/
theorem Overfull.exists_shorter {limit total excess : Nat} {counts : Array Nat}
    (h : Overfull limit total (excess + 1) counts) (htotal : total ≤ 2 ^ limit) :
    0 < longestUsed counts (limit - 1) ∧ longestUsed counts (limit - 1) < limit ∧
      counts.getD (longestUsed counts (limit - 1)) 0 ≠ 0 := by
  have hlimit : limit ≠ 0 := by
    rintro rfl
    have hfirst := h.first
    have hlast := h.last
    omega
  rcases longestUsed_cases counts (limit - 1) with hnone | ⟨hpos, hle, hused⟩
  · have hzero : ∀ l < limit, counts.getD l 0 = 0 := by
      intro l hl
      rcases Nat.eq_zero_or_pos l with rfl | hpos
      · exact h.first
      · exact hnone l hpos (by omega)
    have hsum := h.total
    have hroom := h.room
    rw [weigh_of_last _ h.size hzero] at hsum hroom
    rw [Nat.sub_self] at hroom
    omega
  · exact ⟨hpos, by omega, hused⟩

/-- One codeword is made longer, and one of the longest hangs below it. -/
theorem Overfull.step {limit total excess : Nat} {counts : Array Nat}
    (h : Overfull limit total (excess + 1) counts) (htotal : total ≤ 2 ^ limit) :
    Overfull limit total excess
      ((((counts.modify (longestUsed counts (limit - 1)) (· - 1)).modify
        (longestUsed counts (limit - 1) + 1) (· + 2))).modify limit (· - 1)) := by
  obtain ⟨hpos, hlt, hused⟩ := h.exists_shorter htotal
  generalize longestUsed counts (limit - 1) = k at hpos hlt hused ⊢
  have hsize := h.size
  have hlast := h.last
  have hsize₁ : (counts.modify k (· - 1)).size = limit + 1 := by simp [hsize]
  have hsize₂ : ((counts.modify k (· - 1)).modify (k + 1) (· + 2)).size = limit + 1 := by
    simp [hsize]
  have hlast₁ : (counts.modify k (· - 1)).getD limit 0 = counts.getD limit 0 :=
    getD_modify_of_ne _ (by omega)
  have hlast₂ : counts.getD limit 0 ≤
      ((counts.modify k (· - 1)).modify (k + 1) (· + 2)).getD limit 0 := by
    rw [getD_modify _ (by omega), hlast₁]
    split <;> omega
  have hchange : ∀ w : Nat → Nat,
      weigh w (((counts.modify k (· - 1)).modify (k + 1) (· + 2)).modify limit (· - 1)) +
        w limit + w k = weigh w counts + 2 * w (k + 1) := by
    intro w
    have hless := weigh_less w hused
    have hmore := weigh_more w (a := counts.modify k (· - 1)) (i := k + 1) 2 (by omega)
    have hlonger := weigh_less w
      (a := (counts.modify k (· - 1)).modify (k + 1) (· + 2)) (i := limit) (by omega)
    omega
  have htotal' := h.total
  have hroom := h.room
  refine ⟨by simp [hsize], ?_, ?_, ?_, ?_⟩
  · rw [getD_modify_of_ne _ (by omega), getD_modify_of_ne _ (by omega),
      getD_modify_of_ne _ (by omega), h.first]
  · have hsum := hchange fun _ => 1
    omega
  · have hsum := hchange fun l => 2 ^ (limit - l)
    have hdouble : 2 ^ (limit - k) = 2 * 2 ^ (limit - (k + 1)) := by
      rw [← Nat.pow_succ', show (limit - (k + 1)).succ = limit - k by omega]
    rw [Nat.sub_self, hdouble] at hsum
    omega
  · rw [getD_modify _ (by omega), if_pos rfl]
    omega

/-- Codewords are shortened until there is room; by induction on what is too much. -/
theorem overfull_shorten {limit total excess fuel : Nat} {counts : Array Nat}
    (h : Overfull limit total excess counts) (htotal : total ≤ 2 ^ limit)
    (hfuel : excess ≤ fuel) : Overfull limit total 0 (shorten limit fuel (2 * excess) counts) := by
  induction fuel generalizing excess counts with
  | zero =>
      obtain rfl : excess = 0 := by omega
      exact h
  | succ fuel ih =>
      unfold shorten
      cases excess with
      | zero => simpa using h
      | succ excess =>
          rw [if_neg (by omega)]
          exact ih (h.step htotal) (by omega)

/-! ## Giving out lengths -/

/-- Each symbol gets one of the lengths, and each length goes to so many symbols; by
induction on the greatest length. -/
theorem getD_distribute {counts : Array Nat} {k : Nat} {symbols : List Nat}
    (lengths : Array Nat) (hnodup : symbols.Nodup) (hlt : ∀ s ∈ symbols, s < lengths.size)
    (htotal : ((List.range k).map fun l => counts.getD (l + 1) 0).sum = symbols.length) :
    (distribute counts k symbols lengths).size = lengths.size ∧
      (∀ s, s ∉ symbols → (distribute counts k symbols lengths).getD s 0 = lengths.getD s 0) ∧
      (∀ s ∈ symbols, 0 < (distribute counts k symbols lengths).getD s 0 ∧
        (distribute counts k symbols lengths).getD s 0 ≤ k) ∧
      ∀ g : Nat → Nat,
        (symbols.map fun s => g ((distribute counts k symbols lengths).getD s 0)).sum =
          ((List.range k).map fun l => counts.getD (l + 1) 0 * g (l + 1)).sum := by
  induction k generalizing symbols lengths with
  | zero =>
      obtain rfl : symbols = [] := by simpa using htotal.symm
      exact ⟨rfl, fun _ _ => rfl, nofun, fun _ => rfl⟩
  | succ k ih =>
      have hlast : ∀ g : Nat → Nat,
          ((List.range (k + 1)).map fun l => counts.getD (l + 1) 0 * g (l + 1)).sum =
            ((List.range k).map fun l => counts.getD (l + 1) 0 * g (l + 1)).sum +
              counts.getD (k + 1) 0 * g (k + 1) := by
        intro g
        rw [List.range_succ, List.map_append, List.sum_append, List.map_singleton,
          List.sum_singleton]
      rw [List.range_succ, List.map_append, List.sum_append, List.map_singleton,
        List.sum_singleton] at htotal
      rw [distribute]
      simp only [hlast]
      generalize counts.getD (k + 1) 0 = n at htotal ⊢
      have hsplit := List.take_append_drop n symbols
      have hboth : (symbols.take n ++ symbols.drop n).Nodup := by rwa [hsplit]
      obtain ⟨-, hrest, hdisjoint⟩ := List.nodup_append.mp hboth
      generalize hlengths₁ : (symbols.take n).foldl (fun l s => l.setIfInBounds s (k + 1)) lengths =
        lengths₁
      have hsize : lengths₁.size = lengths.size := by
        rw [← hlengths₁, size_foldl_setIfInBounds]
      obtain ⟨hsize', hkept, hgiven, hsum⟩ := ih lengths₁ hrest
        (fun s hs => by rw [hsize]; exact hlt s (List.mem_of_mem_drop hs))
        (by rw [List.length_drop]; omega)
      -- the symbols that come first get the greatest length
      have hfirst : ∀ s ∈ symbols.take n,
          (distribute counts k (symbols.drop n) lengths₁).getD s 0 = k + 1 := by
        intro s hs
        rw [hkept s fun hdrop => hdisjoint s hs s hdrop rfl, ← hlengths₁,
          getD_foldl_setIfInBounds _ (hlt s (List.mem_of_mem_take hs)), if_pos hs]
      have hmem : ∀ s, s ∈ symbols ↔ s ∈ symbols.take n ∨ s ∈ symbols.drop n := fun s => by
        rw [← List.mem_append, hsplit]
      refine ⟨hsize'.trans hsize, fun s hs => ?_, fun s hs => ?_, fun g => ?_⟩
      · rw [hmem, not_or] at hs
        rw [hkept s hs.2, ← hlengths₁, getD_foldl_setIfInBounds_of_notMem _ hs.1]
      · rcases (hmem s).mp hs with hs | hs
        · rw [hfirst s hs]
          omega
        · obtain ⟨hpos, hle⟩ := hgiven s hs
          exact ⟨hpos, Nat.le_succ_of_le hle⟩
      · have htake : ((symbols.take n).map fun s =>
            g ((distribute counts k (symbols.drop n) lengths₁).getD s 0)).sum = n * g (k + 1) := by
          rw [List.map_congr_left fun s hs => congrArg g (hfirst s hs), List.map_const',
            List.sum_replicate_nat, List.length_take, Nat.min_eq_left (by omega)]
        rw [← hsum g, ← htake, Nat.add_comm, ← List.sum_append, ← List.map_append, hsplit]

/-! ## Lengths of codewords -/

/-- The symbols have lengths up to the limit, and their codewords take all the room there
is; other symbols have none. -/
structure Complete (limit size : Nat) (symbols : List Nat) (lengths : Array Nat) : Prop where
  size : lengths.size = size
  given : ∀ s ∈ symbols, 0 < lengths.getD s 0 ∧ lengths.getD s 0 ≤ limit
  others : ∀ s, s ∉ symbols → lengths.getD s 0 = 0
  room : (symbols.map fun s => 2 ^ (limit - lengths.getD s 0)).sum = 2 ^ limit

theorem Complete.perm {limit size : Nat} {symbols symbols' : List Nat} {lengths : Array Nat}
    (h : Complete limit size symbols lengths) (hperm : symbols.Perm symbols') :
    Complete limit size symbols' lengths where
  size := h.size
  given s hs := h.given s (hperm.mem_iff.mpr hs)
  others s hs := h.others s (mt hperm.mem_iff.mp hs)
  room := by rw [← (hperm.map _).sum_eq, h.room]

theorem Complete.le {limit size : Nat} {symbols : List Nat} {lengths : Array Nat}
    (h : Complete limit size symbols lengths) (s : Nat) : lengths.getD s 0 ≤ limit := by
  by_cases hs : s ∈ symbols
  case pos => exact (h.given s hs).2
  case neg =>
    rw [h.others s hs]
    exact Nat.zero_le _

/-- Lengths that take all the room leave enough for all codewords. -/
theorem Complete.fitting {limit size : Nat} {symbols : List Nat} {lengths : Array Nat}
    (h : Complete limit size symbols lengths) (hnodup : symbols.Nodup)
    (hlt : ∀ s ∈ symbols, s < size) (hlimit : limit ≤ longestCodeword) :
    Fitting lengths.toList := by
  have hlist : lengths.toList = (List.range size).map fun s => lengths.getD s 0 := by
    refine List.ext_getElem (by simp [h.size]) fun s hs hs' => ?_
    have hsize : s < lengths.size := by simpa using hs
    simp [hsize]
  refine ⟨fun l hl => ?_, ?_⟩
  · rw [hlist, List.mem_map] at hl
    obtain ⟨s, -, rfl⟩ := hl
    exact Nat.le_trans (h.le s) hlimit
  · have hshare : ∀ s ∈ symbols, share (lengths.getD s 0) =
        2 ^ (longestCodeword - limit) * 2 ^ (limit - lengths.getD s 0) := by
      intro s hs
      obtain ⟨hpos, hle⟩ := h.given s hs
      rw [share, if_neg (by omega), ← Nat.pow_add]
      congr 1
      omega
    have hnone : ∀ s, s ∉ symbols → share (lengths.getD s 0) = 0 := fun s hs => by
      rw [h.others s hs, share, if_pos rfl]
    rw [hlist, List.map_map, Function.comp_def, sum_range_eq_sum hnodup hlt hnone,
      List.map_congr_left hshare, List.sum_map_mul_left, h.room, ← Nat.pow_add,
      Nat.sub_add_cancel hlimit]

/-- Symbols at their depths, which take more room by so much than there is. -/
structure Leaves (limit size excess : Nat) (symbols : List Nat) (depth : Nat → Nat) : Prop where
  nodup : symbols.Nodup
  lt : ∀ s ∈ symbols, s < size
  deep : ∀ s ∈ symbols, 0 < depth s ∧ depth s ≤ limit
  room : (symbols.map fun s => 2 ^ (limit - depth s)).sum = 2 ^ limit + excess
  last : excess ≤ symbols.countP (depth · == limit)

section

variable {limit size excess : Nat} {symbols : List Nat} {depth : Nat → Nat}

/-- The depths as lengths. -/
theorem Leaves.complete_of_zero (h : Leaves limit size 0 symbols depth) :
    Complete limit size symbols
      (symbols.foldl (fun l s => l.setIfInBounds s (depth s)) (Array.replicate size 0)) := by
  have hlengths : ∀ s ∈ symbols, (symbols.foldl (fun l s => l.setIfInBounds s (depth s))
      (Array.replicate size 0)).getD s 0 = depth s := by
    intro s hs
    rw [getD_foldl_setIfInBounds depth (by simpa using h.lt s hs), if_pos hs]
  refine ⟨?_, fun s hs => ?_, fun s hs => ?_, ?_⟩
  · rw [size_foldl_setIfInBounds, Array.size_replicate]
  · rw [hlengths s hs]
    exact h.deep s hs
  · rw [getD_foldl_setIfInBounds_of_notMem depth hs, getD_replicate_zero]
  · rw [List.map_congr_left fun s hs => congrArg (fun l => 2 ^ (limit - l)) (hlengths s hs),
      h.room, Nat.add_zero]

/-- How many symbols are at each depth. -/
theorem Leaves.overfull (h : Leaves limit size excess symbols depth) :
    Overfull limit symbols.length excess
      (symbols.foldl (fun c s => c.modify (depth s) (· + 1)) (Array.replicate (limit + 1) 0)) := by
  have hin : ∀ s ∈ symbols, depth s < (Array.replicate (limit + 1) 0).size := by
    intro s hs
    have hdepth := (h.deep s hs).2
    rw [Array.size_replicate]
    omega
  refine ⟨?_, ?_, ?_, ?_, ?_⟩
  · rw [size_foldl_modify, Array.size_replicate]
  · have hnone : symbols.countP (depth · == 0) = 0 := by
      rw [List.countP_eq_zero]
      intro s hs
      have hpos := (h.deep s hs).1
      rw [beq_iff_eq]
      omega
    rw [getD_foldl_modify depth (by simp), getD_replicate_zero, hnone]
  · rw [weigh_foldl_modify _ depth hin, weigh_replicate_zero, Nat.zero_add, List.map_const',
      List.sum_replicate_nat, Nat.mul_one]
  · rw [weigh_foldl_modify _ depth hin, weigh_replicate_zero, Nat.zero_add, h.room]
  · rw [getD_foldl_modify depth (by simp), getD_replicate_zero, Nat.zero_add]
    exact h.last

/-- The lengths that are given out after codewords were shortened. -/
theorem Leaves.complete_distribute (h : Leaves limit size excess symbols depth)
    (hroom : symbols.length ≤ 2 ^ limit) {lengths : Array Nat} (hsize : lengths.size = size)
    (hothers : ∀ s, s ∉ symbols → lengths.getD s 0 = 0) :
    Complete limit size symbols (distribute (shorten limit (2 * excess) (2 * excess)
      (symbols.foldl (fun c s => c.modify (depth s) (· + 1)) (Array.replicate (limit + 1) 0)))
      limit symbols.reverse lengths) := by
  have hcounts := overfull_shorten h.overfull hroom (show excess ≤ 2 * excess by omega)
  generalize shorten limit (2 * excess) (2 * excess) (symbols.foldl
    (fun c s => c.modify (depth s) (· + 1)) (Array.replicate (limit + 1) 0)) = counts at hcounts
  have htotal := hcounts.total
  rw [weigh_of_first _ hcounts.size hcounts.first] at htotal
  simp only [Nat.mul_one] at htotal
  obtain ⟨hsize', hkept, hgiven, hsum⟩ := getD_distribute lengths
    ((List.reverse_perm symbols).nodup_iff.mpr h.nodup)
    (fun s hs => by rw [hsize]; exact h.lt s (List.mem_reverse.mp hs))
    (htotal.trans List.length_reverse.symm)
  refine ⟨hsize'.trans hsize, fun s hs => hgiven s (List.mem_reverse.mpr hs), fun s hs => ?_, ?_⟩
  · rw [hkept s (mt List.mem_reverse.mp hs), hothers s hs]
  · have hall := hsum fun l => 2 ^ (limit - l)
    rw [← weigh_of_first (fun l => 2 ^ (limit - l)) hcounts.size hcounts.first, hcounts.room,
      List.map_reverse, List.sum_reverse] at hall
    exact hall

end

/-! ## Symbols that occur -/

section

variable {counts : Array Nat}

theorem mem_usedSymbols {s : Nat} (hs : counts.getD s 0 ≠ 0) : s ∈ usedSymbols counts := by
  have hmem : s ∈ (List.range counts.size).filter fun s => counts.getD s 0 != 0 := by
    rw [List.mem_filter, List.mem_range, bne_iff_ne]
    exact ⟨lt_size_of_getD_ne_zero hs, hs⟩
  unfold usedSymbols
  dsimp only
  split
  case h_1 hused => rw [hused] at hmem; cases hmem
  case h_2 s' hused =>
    rw [hused, List.mem_singleton] at hmem
    subst hmem
    split <;> exact List.mem_cons_self
  case h_3 => exact hmem

/-- At least two symbols are used, each once. -/
theorem usedSymbols_spec (hsize : 3 ≤ counts.size) :
    (usedSymbols counts).Nodup ∧ (∀ s ∈ usedSymbols counts, s < counts.size) ∧
      2 ≤ (usedSymbols counts).length := by
  have hnodup : ((List.range counts.size).filter fun s => counts.getD s 0 != 0).Nodup :=
    List.nodup_range.filter _
  have hlt : ∀ s ∈ (List.range counts.size).filter fun s => counts.getD s 0 != 0,
      s < counts.size := fun s hs => List.mem_range.mp (List.mem_filter.mp hs).1
  unfold usedSymbols
  dsimp only
  split
  case h_1 =>
    refine ⟨by decide, fun s hs => ?_, Nat.le_refl _⟩
    simp only [List.mem_cons, List.not_mem_nil, or_false] at hs
    omega
  case h_2 s' hused =>
    rw [hused] at hlt
    have hs' := hlt s' List.mem_cons_self
    split
    case isTrue hless =>
      refine ⟨by simp, fun s hs => ?_, Nat.le_refl _⟩
      simp only [List.mem_cons, List.not_mem_nil, or_false] at hs
      omega
    case isFalse hless =>
      refine ⟨by simp; omega, fun s hs => ?_, Nat.le_refl _⟩
      simp only [List.mem_cons, List.not_mem_nil, or_false] at hs
      omega
  case h_3 hnone hsingle =>
    refine ⟨hnodup, hlt, Nat.le_of_not_lt fun hshort => ?_⟩
    rcases hused : (List.range counts.size).filter fun s => counts.getD s 0 != 0 with
      _ | ⟨s, _ | ⟨t, ts⟩⟩
    · exact hnone hused
    · exact hsingle s hused
    · rw [hused, List.length_cons, List.length_cons] at hshort
      omega

end

/-! ## The lengths of codewords -/

/-- The heap of the symbols that are used holds them all, in another order. -/
theorem fits_order {used : List Nat} {f : Forest} {size : Nat} (hnodup : used.Nodup)
    (hlt : ∀ s ∈ used, s < size) (hcount : f.count.size = size)
    (hparent : f.parent.size = size) {h : Heap}
    (hh : Heap.order f (Heap.last (#[0] ++ used.toArray) / 2) (#[0] ++ used.toArray) = h) :
    h.Fits f size ∧ h.nodes.Perm used ∧ h.last = used.length := by
  have hnodes : Heap.nodes (#[0] ++ used.toArray) = used := by simp [Heap.nodes]
  have hlast : Heap.last (#[0] ++ used.toArray) = used.length := by simp [Heap.last]
  obtain ⟨hordered, hlast'⟩ := Heap.nodes_order (f := f)
    (h := #[0] ++ used.toArray) (k := Heap.last (#[0] ++ used.toArray) / 2) (by omega)
  rw [hh, hnodes] at hordered
  rw [hh, hlast] at hlast'
  refine ⟨⟨hparent.trans hcount.symm, Nat.le_of_eq hcount.symm, fun n hn => ?_,
    hordered.nodup_iff.mpr hnodup⟩, hordered, hlast'⟩
  rw [hcount]
  exact hlt n (hordered.mem_iff.mp hn)

/-- Symbols that were joined stand at depths up to the limit. -/
theorem Joins.leaves {limit size r : Nat} {f : Forest} {live taken : List Nat} {ds : Array Nat}
    (h : Joins f.above size live taken r) (hnodup : live.Nodup) (hlt : ∀ s ∈ live, s < size)
    (hlive : 2 ≤ live.length) (hlimit : limit ≠ 0) (hroot : ds.getD r 0 = 0)
    (hdepth : ∀ n ∈ taken, ds.getD n 0 = min limit (ds.getD (f.above n) 0 + 1)) :
    (taken.filter (· < size)).Perm live ∧
      ∃ excess, overflow f limit taken ds = 2 * excess ∧
        Leaves limit size excess (taken.filter (· < size)) fun s => ds.getD s 0 := by
  have hperm : (taken.filter (· < size)).Perm live := by
    have hall := h.filter_perm
    have hroot := h.size_le_root hlive
    have hlive' : live.filter (· < size) = live := List.filter_eq_self.mpr (by simpa using hlt)
    rwa [List.filter_cons_of_neg (by simpa using hroot), hlive'] at hall
  obtain ⟨excess, hroom, hkept, hlast⟩ := h.balance limit
    (fun n => ds.getD n 0) hroot hdepth
  refine ⟨hperm, excess, hkept, hperm.nodup_iff.mpr hnodup,
    fun s hs => hlt s (hperm.mem_iff.mp hs), fun s hs => ?_, ?_, ?_⟩
  · have htaken := hdepth s (List.mem_filter.mp hs).1
    omega
  · rw [(hperm.map _).sum_eq, hroom]
  · rwa [hperm.countP_eq]

/-- The symbols that occur get lengths that take all the room there is. -/
theorem complete_codeLengths {limit : Nat} {counts : Array Nat} (hlimit : limit ≠ 0)
    (hsize : 3 ≤ counts.size) (hroom : counts.size ≤ 2 ^ limit) :
    Complete limit counts.size (usedSymbols counts) (codeLengths limit counts) := by
  obtain ⟨hnodup, hlt, htwo⟩ := usedSymbols_spec hsize
  unfold codeLengths
  generalize usedSymbols counts = used at hnodup hlt htwo ⊢
  dsimp only
  generalize hcounts' : used.foldl (fun c s => c.modify s (max 1)) counts = counts'
  have hsize' : counts'.size = counts.size := by
    rw [← hcounts']
    exact size_foldl_modify (fun s => s) (max 1) used counts
  generalize hforest : (⟨counts', Array.replicate counts.size 0, Array.replicate counts.size 0⟩ :
    Forest) = forest
  generalize hheap : Heap.order forest (Heap.last (#[0] ++ used.toArray) / 2)
    (#[0] ++ used.toArray) = h
  obtain ⟨hfits, hordered, hlast⟩ := fits_order hnodup hlt (by rw [← hforest, hsize'])
    (by rw [← hforest, Array.size_replicate]) hheap
  have hlength : used.length ≤ counts.size := by
    have hsubset : used ⊆ List.range counts.size := fun s hs => List.mem_range.mpr (hlt s hs)
    have hle := (List.subperm_of_subset hnodup hsubset).length_le
    rwa [List.length_range] at hle
  obtain ⟨f, r, taken, hjoin, hjoins, -, hcount, hbound⟩ :=
    joins_joinAll counts.size [] hfits (by omega) (by omega)
  rw [List.append_nil] at hjoin
  rw [hjoin]
  dsimp only
  -- the nodes below the root get their depths
  have hsize₀ : (Array.replicate f.count.size 0).size = f.count.size := Array.size_replicate
  obtain ⟨hroot, htaken⟩ := List.nodup_cons.mp (hjoins.nodup hfits.nodup)
  obtain ⟨hself, hfirst⟩ := hjoins.pairwise_above_ne hfits.nodup
  have hbelow : ∀ n ∈ taken, n < (Array.replicate f.count.size 0).size := fun n hn => by
    rw [hsize₀]
    exact hbound n (List.mem_cons_of_mem _ hn)
  have hdepths := getD_depths limit hbelow htaken hself hfirst
  have hrootDepth : (depths f limit taken (Array.replicate f.count.size 0)).getD r 0 = 0 := by
    rw [getD_depths_of_notMem hroot, getD_replicate_zero]
  generalize depths f limit taken (Array.replicate f.count.size 0) = ds at hdepths hrootDepth ⊢
  obtain ⟨hperm, excess, hoverflow, hleaves⟩ := hjoins.leaves hfits.nodup
    (fun s hs => hlt s (hordered.mem_iff.mp hs)) (by rw [hordered.length_eq]; exact htwo) hlimit
    hrootDepth hdepths
  refine Complete.perm ?_ (hperm.trans hordered)
  generalize taken.filter (· < counts.size) = leaves at hperm hleaves ⊢
  rw [hoverflow]
  cases excess with
  | zero => exact hleaves.complete_of_zero
  | succ excess =>
      rw [if_neg (by omega)]
      refine hleaves.complete_distribute ?_ ?_ fun s hs => ?_
      · rw [(hperm.trans hordered).length_eq]
        exact Nat.le_trans hlength hroom
      · rw [size_foldl_setIfInBounds, Array.size_replicate]
      · rw [getD_foldl_setIfInBounds_of_notMem _ hs, getD_replicate_zero]

/-- Lengths that suit a tally: each symbol that was counted has a codeword, none is longer
than the limit, and there is room for all. -/
structure Suits (limit : Nat) (counts lengths : Array Nat) : Prop where
  size : lengths.size = counts.size
  le : ∀ s, lengths.getD s 0 ≤ limit
  used : ∀ s, counts.getD s 0 ≠ 0 → lengths.getD s 0 ≠ 0
  fitting : Fitting lengths.toList

/-- The lengths of codewords suit the tally. -/
theorem suits_codeLengths {limit : Nat} {counts : Array Nat} (hpos : limit ≠ 0)
    (hlimit : limit ≤ longestCodeword) (hsize : 3 ≤ counts.size)
    (hroom : counts.size ≤ 2 ^ limit) : Suits limit counts (codeLengths limit counts) := by
  obtain ⟨hnodup, hlt, -⟩ := usedSymbols_spec hsize
  have hcomplete := complete_codeLengths hpos hsize hroom
  refine ⟨hcomplete.size, hcomplete.le, fun s hs => ?_, hcomplete.fitting hnodup hlt hlimit⟩
  exact Nat.ne_of_gt (hcomplete.given s (mem_usedSymbols hs)).1

end JavaAtlas.Deflate
