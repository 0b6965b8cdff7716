import Mathlib.Algebra.GroupWithZero.Nat
import Mathlib.Algebra.Order.BigOperators.Group.List
import JavaAtlas.Deflate.Lengths

/-!
# Tallies

Arrays of numbers are changed at one place at a time: symbols are counted, lengths are
set, numbers of codewords are moved.  A weight for each place turns such changes into
sums.

Main definitions:

- `weigh`: the sum of the entries of an array, each with the weight of its place.

Main results:

- Theorem `getD_modify`, theorem `getD_setIfInBounds`: the entries after one change.
- Theorem `getD_foldl_modify`: what was counted.
- Theorem `weigh_more`, theorem `weigh_less`: the weight after one change.
- Theorem `weigh_foldl_modify`: the weight of what was counted.
-/

namespace JavaAtlas.Deflate

variable {a : Array Nat} {i j : Nat}

/-! ## One change -/

theorem getD_modify (f : Nat → Nat) (hj : j < a.size) :
    (a.modify i f).getD j 0 = if i = j then f (a.getD j 0) else a.getD j 0 := by
  simp only [Array.getD_eq_getD_getElem?, Array.getElem?_modify]
  split <;> simp [hj]

theorem getD_modify_of_ne (f : Nat → Nat) (hij : i ≠ j) :
    (a.modify i f).getD j 0 = a.getD j 0 := by
  simp [Array.getD_eq_getD_getElem?, Array.getElem?_modify, hij]

theorem getD_setIfInBounds (v : Nat) (hj : j < a.size) :
    (a.setIfInBounds i v).getD j 0 = if i = j then v else a.getD j 0 := by
  simp only [Array.getD_eq_getD_getElem?, Array.getElem?_setIfInBounds]
  by_cases hij : i = j
  case pos => simp [hij, hj]
  case neg => simp [hij]

theorem getD_setIfInBounds_of_ne (v : Nat) (hij : i ≠ j) :
    (a.setIfInBounds i v).getD j 0 = a.getD j 0 := by
  simp [Array.getD_eq_getD_getElem?, hij]

theorem getD_replicate_zero (n j : Nat) : (Array.replicate n 0).getD j 0 = 0 := by
  simp only [Array.getD_eq_getD_getElem?, Array.getElem?_replicate]
  split <;> rfl

theorem lt_size_of_getD_ne_zero (h : a.getD i 0 ≠ 0) : i < a.size := by
  refine Nat.lt_of_not_le fun hle => h ?_
  simp [Array.getD_eq_getD_getElem?, hle]

/-! ## Counting -/

section

variable {α : Type} (key : α → Nat) {xs : List α}

theorem size_foldl_modify (f : Nat → Nat) (xs : List α) (a : Array Nat) :
    (xs.foldl (fun a x => a.modify (key x) f) a).size = a.size := by
  induction xs generalizing a with
  | nil => rfl
  | cons x xs ih => rw [List.foldl_cons, ih, Array.size_modify]

/-- Counting adds to each place the number of entries that belong there. -/
theorem getD_foldl_modify (hj : j < a.size) :
    (xs.foldl (fun a x => a.modify (key x) (· + 1)) a).getD j 0 =
      a.getD j 0 + xs.countP (key · == j) := by
  induction xs generalizing a with
  | nil => simp
  | cons x xs ih =>
      rw [List.foldl_cons, ih (by simpa using hj), getD_modify _ hj, List.countP_cons]
      by_cases hx : key x = j
      case pos =>
        simp only [hx, if_true, BEq.rfl]
        omega
      case neg => simp [hx]

/-- The place of an entry that was counted is not empty. -/
theorem getD_foldl_modify_ne_zero {x : α} (hx : x ∈ xs) (hsize : key x < a.size) :
    (xs.foldl (fun a x => a.modify (key x) (· + 1)) a).getD (key x) 0 ≠ 0 := by
  rw [getD_foldl_modify key hsize]
  have hpos : 0 < xs.countP (key · == key x) := List.countP_pos_iff.mpr ⟨x, hx, BEq.rfl⟩
  omega

/-- Entries that are set by their places. -/
theorem getD_foldl_setIfInBounds (g : Nat → Nat) {ns : List Nat} (hj : j < a.size) :
    (ns.foldl (fun a n => a.setIfInBounds n (g n)) a).getD j 0 =
      if j ∈ ns then g j else a.getD j 0 := by
  induction ns generalizing a with
  | nil => simp
  | cons n ns ih =>
      rw [List.foldl_cons, ih (by simpa using hj), getD_setIfInBounds _ hj]
      by_cases hmem : j ∈ ns
      case pos => simp [hmem]
      case neg =>
        by_cases hn : n = j
        case pos => simp [hn]
        case neg => simp [hmem, hn, Ne.symm hn]

theorem getD_foldl_setIfInBounds_of_notMem (g : Nat → Nat) {ns : List Nat} (hj : j ∉ ns) :
    (ns.foldl (fun a n => a.setIfInBounds n (g n)) a).getD j 0 = a.getD j 0 := by
  induction ns generalizing a with
  | nil => rfl
  | cons n ns ih =>
      rw [List.mem_cons, not_or] at hj
      rw [List.foldl_cons, ih hj.2, getD_setIfInBounds_of_ne _ (Ne.symm hj.1)]

theorem size_foldl_setIfInBounds (g : Nat → Nat) (ns : List Nat) (a : Array Nat) :
    (ns.foldl (fun a n => a.setIfInBounds n (g n)) a).size = a.size := by
  induction ns generalizing a with
  | nil => rfl
  | cons n ns ih => rw [List.foldl_cons, ih, Array.size_setIfInBounds]

end

/-! ## Weights -/

/-- Sum of the entries of an array, each with the weight of its place. -/
def weigh (w : Nat → Nat) (a : Array Nat) : Nat :=
  ((List.range a.size).map fun i => a.getD i 0 * w i).sum

variable (w : Nat → Nat)

/-- Sums over places that differ at one of them. -/
theorem sum_range_add {f g : Nat → Nat} {n : Nat} (hi : i < n) (h : ∀ j, i ≠ j → f j = g j) :
    ((List.range n).map f).sum + g i = ((List.range n).map g).sum + f i := by
  induction n with
  | zero => exact absurd hi (Nat.not_lt_zero i)
  | succ n ih =>
      simp only [List.range_succ, List.map_append, List.sum_append, List.map_cons, List.map_nil,
        List.sum_cons, List.sum_nil]
      by_cases hlast : i = n
      case pos =>
        subst hlast
        have hsame : (List.range i).map f = (List.range i).map g :=
          List.map_congr_left fun j hj => h j (Nat.ne_of_gt (List.mem_range.mp hj))
        rw [hsame]
        omega
      case neg =>
        have hrest := ih (by omega)
        have hsame := h n hlast
        omega

theorem weigh_modify (f : Nat → Nat) (hi : i < a.size) :
    weigh w (a.modify i f) + a.getD i 0 * w i = weigh w a + f (a.getD i 0) * w i := by
  have hsum := sum_range_add (f := fun j => (a.modify i f).getD j 0 * w j)
    (g := fun j => a.getD j 0 * w j) hi fun j hij => by
      rw [getD_modify_of_ne f hij]
  rw [getD_modify f hi, if_pos rfl] at hsum
  simpa only [weigh, Array.size_modify] using hsum

theorem weigh_more (n : Nat) (hi : i < a.size) :
    weigh w (a.modify i (· + n)) = weigh w a + n * w i := by
  have hmodify := weigh_modify w (· + n) hi
  rw [Nat.add_mul] at hmodify
  omega

theorem weigh_less (hi : a.getD i 0 ≠ 0) :
    weigh w (a.modify i (· - 1)) + w i = weigh w a := by
  have hmodify := weigh_modify w (· - 1) (lt_size_of_getD_ne_zero hi)
  obtain ⟨n, hn⟩ := Nat.exists_eq_succ_of_ne_zero hi
  rw [hn, Nat.succ_sub_one, Nat.succ_mul] at hmodify
  omega

theorem weigh_replicate_zero (n : Nat) : weigh w (Array.replicate n 0) = 0 := by
  simp only [weigh, getD_replicate_zero, Nat.zero_mul]
  simp

/-- The weight of what was counted. -/
theorem weigh_foldl_modify {α : Type} (key : α → Nat) {xs : List α}
    (h : ∀ x ∈ xs, key x < a.size) :
    weigh w (xs.foldl (fun a x => a.modify (key x) (· + 1)) a) =
      weigh w a + (xs.map fun x => w (key x)).sum := by
  induction xs generalizing a with
  | nil => simp
  | cons x xs ih =>
      obtain ⟨hx, h⟩ := List.forall_mem_cons.mp h
      rw [List.foldl_cons, ih (by simpa using h), weigh_more w 1 hx, List.map_cons, List.sum_cons]
      omega

/-- Where all other entries are zero, the last one has all the weight. -/
theorem weigh_of_last {n : Nat} (hsize : a.size = n + 1) (h : ∀ i < n, a.getD i 0 = 0) :
    weigh w a = a.getD n 0 * w n := by
  have hnone : ((List.range n).map fun i => a.getD i 0 * w i).sum = 0 := by
    refine List.sum_eq_zero fun x hx => ?_
    obtain ⟨i, hi, rfl⟩ := List.mem_map.mp hx
    rw [h i (List.mem_range.mp hi), Nat.zero_mul]
  rw [weigh, hsize, List.range_succ, List.map_append, List.sum_append, hnone, Nat.zero_add]
  simp

/-- Without its first entry, which is zero, an array has the same weight. -/
theorem weigh_of_first {n : Nat} (hsize : a.size = n + 1) (h : a.getD 0 0 = 0) :
    weigh w a = ((List.range n).map fun i => a.getD (i + 1) 0 * w (i + 1)).sum := by
  rw [weigh, hsize, List.range_succ_eq_map, List.map_cons, List.sum_cons, h, Nat.zero_mul,
    Nat.zero_add, List.map_map]
  rfl

/-- A sum over all places is one over those that count. -/
theorem sum_range_eq_sum {f : Nat → Nat} {n : Nat} {ns : List Nat} (hnodup : ns.Nodup)
    (hlt : ∀ i ∈ ns, i < n) (h : ∀ i, i ∉ ns → f i = 0) :
    ((List.range n).map f).sum = (ns.map f).sum := by
  have hperm : ((List.range n).filter (· ∈ ns)).Perm ns := by
    refine (List.perm_ext_iff_of_nodup (List.nodup_range.filter _) hnodup).mpr fun i => ?_
    rw [List.mem_filter, List.mem_range, decide_eq_true_eq]
    exact ⟨And.right, fun hi => ⟨hlt i hi, hi⟩⟩
  have hfilter : ∀ xs : List Nat, (xs.map f).sum = ((xs.filter (· ∈ ns)).map f).sum := by
    intro xs
    induction xs with
    | nil => rfl
    | cons x xs ih =>
        rw [List.filter_cons, List.map_cons, List.sum_cons, ih]
        split
        case isTrue => rfl
        case isFalse hx =>
          rw [h x (by simpa using hx), Nat.zero_add]
  rw [hfilter, (hperm.map f).sum_eq]

end JavaAtlas.Deflate
