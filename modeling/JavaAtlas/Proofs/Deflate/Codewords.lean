import Mathlib.Algebra.Order.Group.Nat
import JavaAtlas.Deflate.Code
import JavaAtlas.Proofs.Deflate.Bits
import JavaAtlas.Proofs.Deflate.Tallies

/-!
# Codewords are told apart

Lengths fix the code: the codewords of one length follow each other, behind those of the
shorter lengths.  Where the lengths leave room for all codewords (Kraft), none begins with
another one, so the tree of the code leads from a codeword to its symbol, whatever follows.

Main definitions:

- `share`, `Fitting`: the room that a codeword takes, and lengths that leave enough room.
- `firstCode`, `codeword`: the codewords as a function of the lengths.

Main results:

- Theorem `getD_codewords`: the codewords of lengths.
- Theorem `firstCode_add_occurring_le`: the codewords of one length fit in.
- Theorem `not_isPrefix_codeword`: no codeword begins with another one.
- Theorem `CodeTree.read_ofLengths`: a codeword is read as its symbol.
-/

namespace JavaAtlas.Deflate

/-- Number of bit strings of the greatest length that begin with a codeword of a length. -/
def share (l : Nat) : Nat :=
  if l = 0 then 0 else 2 ^ (longestCodeword - l)

/-- Lengths that leave room for all codewords. -/
structure Fitting (ls : List Nat) : Prop where
  bounded : ∀ l ∈ ls, l ≤ longestCodeword
  kraft : (ls.map share).sum ≤ 2 ^ longestCodeword

/-- Number of symbols with a length; there is none with length zero. -/
def occurring (ls : List Nat) (l : Nat) : Nat :=
  if l = 0 then 0 else ls.count l

/-- The first codeword of a length, as a number. -/
def firstCode (ls : List Nat) : Nat → Nat
  | 0 => 0
  | l + 1 => 2 * (firstCode ls l + occurring ls l)

/-- The codeword of a symbol as a number: those of its length follow each other in the order
of their symbols. -/
def codeNumber (ls : List Nat) (s : Nat) : Nat :=
  firstCode ls (ls.getD s 0) + (ls.take s).count (ls.getD s 0)

/-- The codeword of a symbol. -/
def codeword (ls : List Nat) (s : Nat) : List Bool :=
  (bitsOf (ls.getD s 0) (codeNumber ls s)).reverse

@[simp]
theorem length_codeword (ls : List Nat) (s : Nat) : (codeword ls s).length = ls.getD s 0 := by
  simp [codeword]

theorem codeword_eq_nil_iff {ls : List Nat} {s : Nat} :
    codeword ls s = [] ↔ ls.getD s 0 = 0 := by
  rw [← List.length_eq_zero_iff, length_codeword]

/-! ## The codewords of lengths -/

/-- Counting adds to each length the number of symbols that have it. -/
theorem getD_foldl_count {ls : List Nat} {a : Array Nat} {l : Nat} (hl : l < a.size) :
    (ls.foldl (fun c l => if l = 0 then c else c.modify l (· + 1)) a).getD l 0 =
      a.getD l 0 + occurring ls l := by
  induction ls generalizing a with
  | nil => rw [List.foldl_nil, occurring, List.count_nil, ite_self, Nat.add_zero]
  | cons x ls ih =>
      rw [List.foldl_cons]
      by_cases hx : x = 0
      case pos =>
        have hsame : occurring (x :: ls) l = occurring ls l := by
          unfold occurring
          split
          case isTrue => rfl
          case isFalse hl => exact List.count_cons_of_ne (by omega)
        rw [if_pos hx, ih hl, hsame]
      case neg =>
        rw [if_neg hx, ih (by simpa using hl), getD_modify _ hl]
        by_cases hxl : x = l
        case pos =>
          subst hxl
          simp only [if_true, occurring, if_neg hx, List.count_cons_self]
          omega
        case neg => rw [if_neg hxl, occurring, occurring, List.count_cons_of_ne hxl]

/-- The numbers of the first codewords; by induction on the lengths they were found for. -/
theorem getD_firstCodes {lengths : Array Nat} {l : Nat} (hl : l ≤ longestCodeword) :
    (firstCodes lengths).getD l 0 = firstCode lengths.toList l := by
  have hcounts : ∀ k, k < longestCodeword + 1 →
      (lengths.foldl (fun c l => if l = 0 then c else c.modify l (· + 1))
        (Array.replicate (longestCodeword + 1) 0)).getD k 0 = occurring lengths.toList k := by
    intro k hk
    rw [← Array.foldl_toList, getD_foldl_count (by simpa using hk), getD_replicate_zero,
      Nat.zero_add]
  unfold firstCodes
  dsimp only
  generalize lengths.foldl (fun c l => if l = 0 then c else c.modify l (· + 1))
    (Array.replicate (longestCodeword + 1) 0) = counts at hcounts
  have hrange : ∀ n, n ≤ longestCodeword →
      ((List.range n).foldl (fun firsts l => firsts.push
        (2 * (firsts.getD l 0 + counts.getD l 0))) #[0]).toList =
        (List.range (n + 1)).map (firstCode lengths.toList) := by
    intro n hn
    induction n with
    | zero => rfl
    | succ n ih =>
        have hlast := ih (by omega)
        rw [List.range_succ, List.foldl_append, List.foldl_cons, List.foldl_nil, Array.toList_push,
          hlast, hcounts n (by omega), List.range_succ (n := n + 1), List.map_append]
        have hfirst : ∀ a : Array Nat,
            a.toList = (List.range (n + 1)).map (firstCode lengths.toList) →
            a.getD n 0 = firstCode lengths.toList n := by
          intro a ha
          rw [Array.getD_eq_getD_getElem?, ← Array.getElem?_toList, ha]
          simp
        rw [hfirst _ hlast]
        rfl
  rw [Array.getD_eq_getD_getElem?, ← Array.getElem?_toList, hrange _ (Nat.le_refl _)]
  simp [show l < longestCodeword + 1 by omega]

/-- One more codeword, and the number of the next one of its length. -/
def addCodeword (acc : Array (List Bool) × Array Nat) (l : Nat) :
    Array (List Bool) × Array Nat :=
  if l = 0 then (acc.1.push [], acc.2)
  else (acc.1.push (bitsOf l (acc.2.getD l 0)).reverse, acc.2.modify l (· + 1))

/-- The codewords are given out in the order of the symbols; by induction on the symbols
that are left. -/
theorem toList_foldl_addCodeword (before : List Nat) {left : List Nat}
    {words : Array (List Bool)} {next : Array Nat} (hbounded : ∀ l ∈ left, l ≤ longestCodeword)
    (hsize : next.size = longestCodeword + 1)
    (hwords : words.toList = (List.range before.length).map (codeword (before ++ left)))
    (hnext : ∀ l, 0 < l → l ≤ longestCodeword →
      next.getD l 0 = firstCode (before ++ left) l + before.count l) :
    (left.foldl addCodeword (words, next)).1.toList =
      (List.range (before ++ left).length).map (codeword (before ++ left)) := by
  induction left generalizing before words next with
  | nil => simpa using hwords
  | cons l left ih =>
      obtain ⟨hl, hbounded⟩ := List.forall_mem_cons.mp hbounded
      have hassoc : before ++ l :: left = before ++ [l] ++ left := by simp
      have hlength : (before ++ l :: left).getD before.length 0 = l := by
        simp [List.getD_eq_getElem?_getD]
      have htake : (before ++ l :: left).take before.length = before := by simp
      rw [List.foldl_cons]
      unfold addCodeword
      split
      case isTrue hzero =>
        have hword : codeword (before ++ l :: left) before.length = [] := by
          rw [codeword_eq_nil_iff, hlength, hzero]
        rw [hassoc] at hword hwords hnext ⊢
        refine ih (before ++ [l]) hbounded hsize ?_ ?_
        · rw [Array.toList_push, hwords, List.length_append, List.length_singleton,
            List.range_succ, List.map_append, List.map_singleton, hword]
        · intro k hpos hk
          rw [hnext k hpos hk]
          simp [hzero, Nat.ne_of_lt hpos]
      case isFalse hpos =>
        have hword : codeword (before ++ l :: left) before.length =
            (bitsOf l (next.getD l 0)).reverse := by
          rw [codeword, codeNumber, hlength, htake, hnext l (by omega) hl]
        rw [hassoc] at hword hwords hnext ⊢
        refine ih (before ++ [l]) hbounded (by simpa using hsize) ?_ ?_
        · rw [Array.toList_push, hwords, List.length_append, List.length_singleton,
            List.range_succ, List.map_append, List.map_singleton, hword]
        · intro k hkpos hk
          rw [getD_modify _ (show k < next.size by omega), hnext k hkpos hk]
          by_cases hlk : l = k
          case pos => simp [hlk, Nat.add_assoc]
          case neg => simp [hlk]

theorem size_firstCodes (lengths : Array Nat) :
    (firstCodes lengths).size = longestCodeword + 1 := by
  unfold firstCodes
  simp [longestCodeword, List.range_succ]

theorem toList_codewords {lengths : Array Nat}
    (hbounded : ∀ l ∈ lengths.toList, l ≤ longestCodeword) :
    (codewords lengths).toList =
      (List.range lengths.size).map (codeword lengths.toList) := by
  unfold codewords
  rw [← Array.foldl_toList]
  exact toList_foldl_addCodeword [] hbounded (size_firstCodes lengths) rfl
    fun l _ hl => getD_firstCodes hl

/-- The codewords of lengths. -/
theorem getD_codewords {lengths : Array Nat}
    (hbounded : ∀ l ∈ lengths.toList, l ≤ longestCodeword) (s : Nat) :
    (codewords lengths).getD s [] = codeword lengths.toList s := by
  rw [Array.getD_eq_getD_getElem?, ← Array.getElem?_toList, toList_codewords hbounded]
  by_cases hs : s < lengths.size
  case pos => simp [hs]
  case neg =>
    have hword : codeword lengths.toList s = [] := by
      rw [codeword_eq_nil_iff]
      simp [List.getD_eq_getElem?_getD, Nat.le_of_not_lt hs]
    simp [hs, hword]

/-! ## Room for codewords -/

variable {ls : List Nat}

theorem sum_share_succ (ls : List Nat) (l : Nat) :
    (ls.map fun x => if x ≤ l + 1 then share x else 0).sum =
      (ls.map fun x => if x ≤ l then share x else 0).sum + ls.count (l + 1) * share (l + 1) := by
  induction ls with
  | nil => simp
  | cons x ls ih =>
      simp only [List.map_cons, List.sum_cons, ih]
      by_cases hx : x = l + 1
      case pos =>
        subst hx
        simp only [Nat.le_refl, if_true, List.count_cons_self, Nat.succ_mul,
          if_neg (Nat.not_succ_le_self l)]
        omega
      case neg =>
        rw [List.count_cons_of_ne hx]
        by_cases hle : x ≤ l
        case pos => simp only [hle, Nat.le_succ_of_le hle, if_true, Nat.add_assoc]
        case neg => simp only [hle, show ¬ x ≤ l + 1 by omega, if_false, Nat.zero_add]

/-- The numbers of codewords up to a length count the room that these take. -/
theorem firstCode_add_occurring_mul (ls : List Nat) {l : Nat} (hl : l ≤ longestCodeword) :
    (firstCode ls l + occurring ls l) * 2 ^ (longestCodeword - l) =
      (ls.map fun x => if x ≤ l then share x else 0).sum := by
  induction l with
  | zero =>
      have hnone : ∀ x ∈ ls, (if x ≤ 0 then share x else 0) = 0 := by
        intro x _
        split
        case isTrue hx => simp [share, Nat.le_zero.mp hx]
        case isFalse => rfl
      rw [List.map_congr_left hnone]
      simp [firstCode, occurring]
  | succ l ih =>
      have hroom : longestCodeword - l = longestCodeword - (l + 1) + 1 := by omega
      have hcount : occurring ls (l + 1) = ls.count (l + 1) := if_neg (Nat.succ_ne_zero l)
      have hshare : share (l + 1) = 2 ^ (longestCodeword - (l + 1)) := if_neg (Nat.succ_ne_zero l)
      rw [sum_share_succ, ← ih (by omega), firstCode, hroom, Nat.pow_succ, Nat.add_mul, hcount,
        hshare, Nat.mul_comm 2, Nat.mul_assoc, Nat.mul_comm 2]

/-- Where all codewords have room, those of one length fit in. -/
theorem firstCode_add_occurring_le (h : Fitting ls) {l : Nat} (hl : l ≤ longestCodeword) :
    firstCode ls l + occurring ls l ≤ 2 ^ l := by
  have hsome : (ls.map fun x => if x ≤ l then share x else 0).sum ≤ (ls.map share).sum := by
    refine List.sum_le_sum fun x _ => ?_
    split
    case isTrue => exact Nat.le_refl _
    case isFalse => exact Nat.zero_le _
  have hroom : (firstCode ls l + occurring ls l) * 2 ^ (longestCodeword - l) ≤
      2 ^ l * 2 ^ (longestCodeword - l) := by
    rw [firstCode_add_occurring_mul ls hl, ← Nat.pow_add, Nat.add_sub_cancel' hl]
    exact Nat.le_trans hsome h.kraft
  exact Nat.le_of_mul_le_mul_right hroom (Nat.two_pow_pos _)

/-- Behind the codewords of a length come those of the greater ones; by induction on the
greater length. -/
theorem firstCode_shift {l d : Nat} :
    (firstCode ls l + occurring ls l) * 2 ^ (d + 1) ≤ firstCode ls (l + d + 1) := by
  induction d with
  | zero =>
      change _ ≤ 2 * (firstCode ls l + occurring ls l)
      rw [Nat.zero_add, Nat.pow_one, Nat.mul_comm]
  | succ d ih =>
      calc (firstCode ls l + occurring ls l) * 2 ^ (d + 1 + 1)
          = 2 * ((firstCode ls l + occurring ls l) * 2 ^ (d + 1)) := by
            rw [Nat.pow_succ 2 (d + 1), ← Nat.mul_assoc, Nat.mul_comm]
        _ ≤ 2 * firstCode ls (l + d + 1) := Nat.mul_le_mul_left 2 ih
        _ ≤ 2 * (firstCode ls (l + d + 1) + occurring ls (l + d + 1)) :=
            Nat.mul_le_mul_left 2 (Nat.le_add_right _ _)

theorem count_take_lt {s t : Nat} (hst : s < t) (hs : ls.getD s 0 ≠ 0) :
    (ls.take s).count (ls.getD s 0) < (ls.take t).count (ls.getD s 0) := by
  have hlt : s < ls.length := by
    refine Nat.lt_of_not_le fun hle => hs ?_
    simp [List.getD_eq_getElem?_getD, hle]
  have hget : ls.getD s 0 = ls[s] := by simp [List.getD_eq_getElem?_getD, hlt]
  have htake : ls.take (s + 1) = ls.take s ++ [ls[s]] := by simp
  have hprefix : (ls.take (s + 1)).Sublist (ls.take t) :=
    (List.take_prefix_take_left (by omega)).sublist
  have hcount := hprefix.count_le (ls.getD s 0)
  rw [htake, List.count_append, hget, List.count_singleton_self] at hcount
  rw [hget]
  omega

theorem codeNumber_lt {s : Nat} (hs : ls.getD s 0 ≠ 0) :
    codeNumber ls s < firstCode ls (ls.getD s 0) + occurring ls (ls.getD s 0) := by
  have hlt : s < ls.length := by
    refine Nat.lt_of_not_le fun hle => hs ?_
    simp [List.getD_eq_getElem?_getD, hle]
  have hcount := count_take_lt hlt hs
  rw [List.take_length] at hcount
  rw [codeNumber, occurring, if_neg hs]
  omega

theorem Fitting.getD_le (h : Fitting ls) (s : Nat) : ls.getD s 0 ≤ longestCodeword := by
  rw [List.getD_eq_getElem?_getD]
  cases hs : ls[s]? with
  | none => exact Nat.zero_le _
  | some l => exact h.bounded l (List.mem_of_getElem? hs)

theorem Fitting.codeNumber_lt_two_pow (h : Fitting ls) {s : Nat} (hs : ls.getD s 0 ≠ 0) :
    codeNumber ls s < 2 ^ ls.getD s 0 :=
  Nat.lt_of_lt_of_le (codeNumber_lt hs) (firstCode_add_occurring_le h (h.getD_le s))

/-! ## Codewords do not begin with each other -/

theorem bitsOf_add (k m n : Nat) : bitsOf (k + m) n = bitsOf k n ++ bitsOf m (n / 2 ^ k) := by
  induction k generalizing n with
  | zero => simp [bitsOf]
  | succ k ih =>
      rw [Nat.add_right_comm, bitsOf, ih, bitsOf, List.cons_append, Nat.div_div_eq_div_mul,
        Nat.pow_succ']

theorem eq_of_bitsOf_eq {k m n : Nat} (hm : m < 2 ^ k) (hn : n < 2 ^ k)
    (h : bitsOf k m = bitsOf k n) : m = n := by
  have hvalue := congrArg valueOf h
  rwa [valueOf_bitsOf, valueOf_bitsOf, Nat.mod_eq_of_lt hm, Nat.mod_eq_of_lt hn] at hvalue

/-- Bits that begin others, the one of most weight first, are the upper part of a number. -/
theorem eq_div_of_isPrefix {k d m n : Nat} (hm : m < 2 ^ k) (hn : n < 2 ^ (d + k))
    (h : (bitsOf k m).reverse <+: (bitsOf (d + k) n).reverse) : m = n / 2 ^ d := by
  obtain ⟨more, hmore⟩ := h
  rw [bitsOf_add, List.reverse_append] at hmore
  have hupper := List.append_inj_left hmore (by simp)
  refine eq_of_bitsOf_eq hm ?_ (List.reverse_inj.mp hupper)
  rw [Nat.div_lt_iff_lt_mul (Nat.two_pow_pos d), ← Nat.pow_add, Nat.add_comm]
  exact hn

/-- No codeword begins with the one of another symbol. -/
theorem not_isPrefix_codeword (h : Fitting ls) {s t : Nat} (hne : s ≠ t)
    (hs : ls.getD s 0 ≠ 0) (ht : ls.getD t 0 ≠ 0) : ¬ codeword ls s <+: codeword ls t := by
  intro hprefix
  have hle := hprefix.length_le
  rw [length_codeword, length_codeword] at hle
  obtain ⟨d, hd⟩ := Nat.exists_eq_add_of_le' hle
  have hupper : codeNumber ls s = codeNumber ls t / 2 ^ d := by
    refine eq_div_of_isPrefix (h.codeNumber_lt_two_pow hs) ?_ (hd ▸ hprefix)
    rw [← hd]
    exact h.codeNumber_lt_two_pow ht
  cases d with
  | zero =>
      rw [Nat.zero_add] at hd
      rw [Nat.pow_zero, Nat.div_one, codeNumber, codeNumber, hd] at hupper
      rcases Nat.lt_or_gt_of_ne hne with hlt | hlt
      · have hrank := count_take_lt hlt hs
        omega
      · have hrank := count_take_lt hlt ht
        rw [hd] at hrank
        omega
  | succ d =>
      have hshift := @firstCode_shift ls (ls.getD s 0) d
      have hbehind : firstCode ls (ls.getD t 0) ≤ codeNumber ls t := Nat.le_add_right _ _
      rw [hd, show d + 1 + ls.getD s 0 = ls.getD s 0 + d + 1 by omega] at hbehind
      have hnext : (codeNumber ls s + 1) * 2 ^ (d + 1) ≤ codeNumber ls t :=
        Nat.le_trans (Nat.mul_le_mul_right _ (codeNumber_lt hs)) (Nat.le_trans hshift hbehind)
      have hgreater := (Nat.le_div_iff_mul_le (Nat.two_pow_pos _)).mpr hnext
      omega

/-! ## Reading -/

namespace CodeTree

/-- Two codewords of which none begins with the other one. -/
def Apart (v w : List Bool) : Prop :=
  ¬ v <+: w ∧ ¬ w <+: v

theorem Apart.cons_iff {b : Bool} {v w : List Bool} : Apart (b :: v) (b :: w) ↔ Apart v w := by
  simp [Apart, List.cons_prefix_cons]

/-- A codeword that was put in is read as its symbol. -/
theorem read_insert (t : CodeTree) (s : Nat) (w rest : List Bool) :
    (t.insert s w).read (w ++ rest) = some (s, rest) := by
  induction w generalizing t with
  | nil => simp [insert, read]
  | cons b w ih =>
      unfold insert
      cases b <;> simp [read, ih]

/-- A codeword apart from it is read as before; by induction on the codeword that is put in. -/
theorem read_insert_of_apart {t : CodeTree} {s s' : Nat} {v w rest : List Bool}
    (hread : t.read (w ++ rest) = some (s, rest)) (hapart : Apart v w) :
    (t.insert s' v).read (w ++ rest) = some (s, rest) := by
  induction v generalizing t w with
  | nil => exact absurd List.nil_prefix hapart.1
  | cons b v ih =>
      cases w with
      | nil => exact absurd List.nil_prefix hapart.2
      | cons c w =>
          cases t with
          | empty => simp [read] at hread
          | symbol x =>
              -- a symbol here would have left the codeword unread
              have hlength := congrArg (fun r => (r.map fun p => p.2.length).getD 0) hread
              simp [read] at hlength
              omega
          | fork zero one =>
              rw [List.cons_append, read] at hread
              unfold insert
              cases b <;> cases c <;> simp only [List.cons_append, read, if_true, if_false,
                Bool.false_eq_true] at hread ⊢
              · exact ih hread (Apart.cons_iff.mp hapart)
              · exact hread
              · exact hread
              · exact ih hread (Apart.cons_iff.mp hapart)

/-- Puts in a codeword of a symbol, unless there is none. -/
def insertWord (t : CodeTree) (w : List Bool × Nat) : CodeTree :=
  if w.1.isEmpty then t else t.insert w.2 w.1

theorem read_foldl_of_apart {t : CodeTree} {s : Nat} {w rest : List Bool}
    {words : List (List Bool × Nat)} (hread : t.read (w ++ rest) = some (s, rest))
    (hapart : ∀ v ∈ words, v.1 = [] ∨ Apart v.1 w) :
    (words.foldl insertWord t).read (w ++ rest) = some (s, rest) := by
  induction words generalizing t with
  | nil => exact hread
  | cons v words ih =>
      obtain ⟨hv, hapart⟩ := List.forall_mem_cons.mp hapart
      rw [List.foldl_cons]
      refine ih ?_ hapart
      unfold insertWord
      rcases hv with hnone | hv
      · simpa [hnone] using hread
      · split
        case isTrue => exact hread
        case isFalse => exact read_insert_of_apart hread hv

/-- Each codeword of a tree is read as its symbol, if they are apart from each other. -/
theorem read_foldl_insertWord {t : CodeTree} {s : Nat} {w : List Bool} (rest : List Bool)
    {words : List (List Bool × Nat)} (hmem : (w, s) ∈ words) (hw : w ≠ [])
    (hapart : words.Pairwise fun v w => v.1 = [] ∨ w.1 = [] ∨ Apart v.1 w.1) :
    (words.foldl insertWord t).read (w ++ rest) = some (s, rest) := by
  induction words generalizing t with
  | nil => cases hmem
  | cons v words ih =>
      obtain ⟨hfirst, hapart⟩ := List.pairwise_cons.mp hapart
      rw [List.foldl_cons]
      rcases List.mem_cons.mp hmem with rfl | hmem
      · refine read_foldl_of_apart ?_ fun v hv => ?_
        · simpa [insertWord, hw] using read_insert t s w rest
        · rcases hfirst v hv with hnone | hnone | hboth
          · exact absurd hnone hw
          · exact .inl hnone
          · exact .inr hboth.symm
      · exact ih hmem hapart

/-- Where the lengths leave room, a codeword is read as its symbol, whatever follows. -/
theorem read_ofLengths {lengths : Array Nat} (h : Fitting lengths.toList) {s : Nat}
    (hs : lengths.toList.getD s 0 ≠ 0) (rest : List Bool) :
    (ofLengths lengths).read (codeword lengths.toList s ++ rest) = some (s, rest) := by
  have hlt : s < lengths.size := by
    refine Nat.lt_of_not_le fun hle => hs ?_
    simp [List.getD_eq_getElem?_getD, hle]
  have hwords := toList_codewords h.bounded
  unfold ofLengths ofCodewords
  rw [hwords]
  refine read_foldl_insertWord rest ?_ (mt codeword_eq_nil_iff.mp hs) ?_
  · rw [List.mem_zipIdx_iff_getElem?]
    simp [hlt]
  · rw [List.pairwise_iff_getElem]
    intro i j hi hj hij
    simp only [List.getElem_zipIdx, List.getElem_map, List.getElem_range, codeword_eq_nil_iff]
    by_cases hzero : lengths.toList.getD i 0 = 0
    case pos => exact .inl hzero
    case neg =>
      by_cases hzero' : lengths.toList.getD j 0 = 0
      case pos => exact .inr (.inl hzero')
      case neg =>
        exact .inr (.inr ⟨not_isPrefix_codeword h (by omega) hzero hzero',
          not_isPrefix_codeword h (by omega) hzero' hzero⟩)

end CodeTree

end JavaAtlas.Deflate
