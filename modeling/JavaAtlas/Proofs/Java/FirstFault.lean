import JavaAtlas.Java.Reading
import JavaAtlas.Proofs.Java.Preorder

/-!
# The first fault of a tree

The search for the first fault goes down from the root and never looks back: at every node
it takes the first child that is flagged or missing.  Where the flags are exact this leads
straight to the fault that comes first in pre-order.

Main definitions:

- `FaultTree.at?`: what stands at the end of a way.
- `FaultTree.next?`, `FaultTree.after`: one step of the search, and where some steps lead.
- `FaultTree.IsFirstFault`: the fault that comes before all others.

Main results:

- Theorem `FaultTree.firstFaultLine_eq`: the search, step by step.
- Theorem `FaultTree.firstFaultLine_exact`: the search goes straight to the first fault.
- Theorem `flagsExact_of_read`: the flags of a text that was not read completely are exact.
-/

namespace JavaAtlas.Java

namespace FaultTree

open JavaAtlas.Java.Tree (Way)

/-! ## Steps of the search -/

/-- The children of a node. -/
def children : FaultTree → List FaultTree
  | node _ _ _ cs => cs

/-- The row on which a node begins. -/
def row : FaultTree → Nat
  | node _ _ r _ => r

/-- The search goes on with the node if it is flagged or missing. -/
def isEntered : FaultTree → Bool
  | node k f _ _ => f || k == .missing

/-- The child with which the search goes on; at a fault it ends. -/
def next? (t : FaultTree) : Option FaultTree :=
  if t.isFault then none else t.children.find? isEntered

/-- The node at which the search is after so many steps, if it has not ended before. -/
def after : Nat → FaultTree → Option FaultTree
  | 0, t => some t
  | k + 1, t => t.next?.bind (after k)

theorem firstFaultLineOf_eq (r : Nat) (cs : List FaultTree) :
    firstFaultLineOf r cs = (cs.find? isEntered).elim (r + 1) firstFaultLine := by
  induction cs with
  | nil => rfl
  | cons c cs ih =>
      cases c with
      | node k f r' cs' =>
          rw [firstFaultLineOf, ih, List.find?_cons]
          cases hentered : isEntered (node k f r' cs') with
          | true => exact if_pos hentered
          | false => exact if_neg (Bool.eq_false_iff.mp hentered)

/-- The search goes on with the next node, and gives the line of the node at which it ends. -/
theorem firstFaultLine_eq (t : FaultTree) :
    t.firstFaultLine = t.next?.elim (t.row + 1) firstFaultLine := by
  cases t with
  | node k f r cs =>
      rw [firstFaultLine, firstFaultLineOf_eq, next?]
      by_cases hfault : (k != .none) = true
      · rw [if_pos hfault, if_pos (show isFault (node k f r cs) = true from hfault)]
        rfl
      · rw [if_neg hfault, if_neg (show ¬ isFault (node k f r cs) = true from hfault)]
        rfl

/-! ## Flags -/

theorem faultRows_eq (t : FaultTree) :
    t.faultRows = (if t.isFault then [t.row] else []) ++ faultRowsOf t.children := by
  cases t with
  | node k f r cs => rw [faultRows]; rfl

theorem faultRowsOf_append (ts us : List FaultTree) :
    faultRowsOf (ts ++ us) = faultRowsOf ts ++ faultRowsOf us := by
  induction ts with
  | nil => rfl
  | cons t ts ih => rw [List.cons_append, faultRowsOf, faultRowsOf, ih, List.append_assoc]

theorem faultRowsOf_eq_nil {ts : List FaultTree} (h : ∀ t ∈ ts, t.faultRows = []) :
    faultRowsOf ts = [] := by
  induction ts with
  | nil => rfl
  | cons t ts ih =>
      rw [faultRowsOf, h t List.mem_cons_self, ih fun u hu => h u (List.mem_cons_of_mem t hu)]
      rfl

theorem flagsExactAll_iff {ts : List FaultTree} :
    FlagsExactAll ts ↔ ∀ t ∈ ts, t.FlagsExact := by
  induction ts with
  | nil => simp [FlagsExactAll]
  | cons t ts ih => simp [FlagsExactAll, ih]

theorem FlagsExact.child {t c : FaultTree} (h : t.FlagsExact) (hc : c ∈ t.children) :
    c.FlagsExact := by
  cases t with
  | node k f r cs =>
      rw [FlagsExact] at h
      exact flagsExactAll_iff.mp h.2 c hc

/-- A node is flagged exactly if it is a fault or holds one. -/
theorem FlagsExact.isFlagged_iff {t : FaultTree} (h : t.FlagsExact) :
    t.isFlagged = true ↔ t.faultRows ≠ [] := by
  cases t with
  | node k f r cs =>
      rw [FlagsExact] at h
      rw [isFlagged, h.1, faultRows]
      cases k <;> simp

/-- The search goes on exactly with nodes that are faults or hold one. -/
theorem FlagsExact.isEntered_iff {t : FaultTree} (h : t.FlagsExact) :
    t.isEntered = true ↔ t.faultRows ≠ [] := by
  rw [← h.isFlagged_iff]
  cases t with
  | node k f r cs =>
      rw [FlagsExact] at h
      cases f with
      | true => simp [isEntered, isFlagged]
      | false =>
          have hnone : k = .none := by simpa using fun hk => h.1.mpr (.inl hk)
          simp [isEntered, isFlagged, hnone]

theorem FlagsExact.isEntered_eq_false_iff {t : FaultTree} (h : t.FlagsExact) :
    t.isEntered = false ↔ t.faultRows = [] := by
  rw [← Bool.not_eq_true, h.isEntered_iff, ne_eq, Decidable.not_not]

/-- Where the flags are exact, the search goes on with the first child that is a fault or
holds one. -/
theorem FlagsExact.exists_next {t : FaultTree} (h : t.FlagsExact) (hfault : t.isFault = false)
    (hrows : t.faultRows ≠ []) :
    ∃ before c rest, t.children = before ++ c :: rest ∧ t.next? = some c ∧
      c.faultRows ≠ [] ∧ ∀ d ∈ before, d.faultRows = [] := by
  have hnext : t.next? = t.children.find? isEntered := by simp [next?, hfault]
  cases hfind : t.children.find? isEntered with
  | none =>
      have hnone : ∀ c ∈ t.children, c.faultRows = [] := fun c hc => by
        rw [← (h.child hc).isEntered_eq_false_iff]
        simpa using List.find?_eq_none.mp hfind c hc
      rw [faultRows_eq, hfault, faultRowsOf_eq_nil hnone] at hrows
      exact absurd rfl hrows
  | some c =>
      obtain ⟨hc, before, rest, hsplit, hbefore⟩ := List.find?_eq_some_iff_append.mp hfind
      have hexact : ∀ d ∈ before ++ c :: rest, d.FlagsExact := fun d hd =>
        h.child (hsplit ▸ hd)
      refine ⟨before, c, rest, hsplit, hnext.trans hfind, ?_, fun d hd => ?_⟩
      · exact (hexact c (by simp)).isEntered_iff.mp hc
      · rw [← (hexact d (by simp [hd])).isEntered_eq_false_iff]
        simpa using hbefore d hd

/-! ## Places -/

/-- What stands at the end of a way. -/
def at? : FaultTree → Way → Option FaultTree
  | t, [] => some t
  | t, i :: w => t.children[i]?.bind fun c => c.at? w

theorem at?_nil (t : FaultTree) : t.at? [] = some t := by
  cases t
  rfl

theorem at?_cons (t : FaultTree) (i : Nat) (w : Way) :
    t.at? (i :: w) = t.children[i]?.bind fun c => c.at? w := by
  cases t
  rfl

/-- A fault below a node has its row among those of the node. -/
theorem faultRows_ne_nil_of_at? {t n : FaultTree} {w : Way} (h : t.at? w = some n)
    (hn : n.isFault = true) : t.faultRows ≠ [] := by
  induction w generalizing t with
  | nil =>
      rw [at?_nil] at h
      cases h
      rw [faultRows_eq, if_pos hn]
      simp
  | cons i w ih =>
      rw [at?_cons, Option.bind_eq_some_iff] at h
      obtain ⟨c, hc, hw⟩ := h
      obtain ⟨before, rest, hsplit⟩ := List.append_of_mem (List.mem_of_getElem? hc)
      rw [faultRows_eq, hsplit, faultRowsOf_append, faultRowsOf]
      simp [ih hw]

/-- The fault at the end of a way comes first in pre-order: ways to other faults are longer,
or turn further to the right. -/
structure IsFirstFault (t : FaultTree) (w : Way) (n : FaultTree) : Prop where
  place : t.at? w = some n
  isFault : n.isFault = true
  first : ∀ v m, t.at? v = some m → m.isFault = true → v = w ∨ w < v
  rows : t.faultRows.head? = some n.row

/-- A fault comes before all faults below it. -/
theorem isFirstFault_self {t : FaultTree} (h : t.isFault = true) : t.IsFirstFault [] t where
  place := at?_nil t
  isFault := h
  first v _ _ _ := by
    cases v with
    | nil => exact .inl rfl
    | cons i v => exact .inr (List.nil_lt_cons i v)
  rows := by rw [faultRows_eq, if_pos h]; rfl

/-- The first fault below the first child that has one is the first fault below the node. -/
theorem IsFirstFault.child {t c n : FaultTree} {w : Way} {before rest : List FaultTree}
    (hfault : t.isFault = false) (hsplit : t.children = before ++ c :: rest)
    (hbefore : ∀ d ∈ before, d.faultRows = []) (h : c.IsFirstFault w n) :
    t.IsFirstFault (before.length :: w) n where
  place := by
    rw [at?_cons, hsplit, List.getElem?_append_right (Nat.le_refl _), Nat.sub_self]
    exact h.place
  isFault := h.isFault
  first v m hv hm := by
    cases v with
    | nil =>
        rw [at?_nil] at hv
        cases hv
        rw [hfault] at hm
        cases hm
    | cons j v =>
        rw [at?_cons, Option.bind_eq_some_iff] at hv
        obtain ⟨d, hd, hv⟩ := hv
        rcases Nat.lt_trichotomy j before.length with hlt | rfl | hgt
        · rw [hsplit, List.getElem?_append_left hlt] at hd
          exact absurd (hbefore d (List.mem_of_getElem? hd)) (faultRows_ne_nil_of_at? hv hm)
        · rw [hsplit, List.getElem?_append_right (Nat.le_refl _), Nat.sub_self] at hd
          cases hd
          rcases h.first v m hv hm with rfl | hlt
          · exact .inl rfl
          · exact .inr (List.cons_lt_cons_iff.mpr (.inr ⟨rfl, hlt⟩))
        · exact .inr (List.cons_lt_cons_iff.mpr (.inl hgt))
  rows := by
    rw [faultRows_eq, hfault, hsplit, faultRowsOf_append, faultRowsOf_eq_nil hbefore, faultRowsOf]
    simp [h.rows]

/-- Where the flags are exact, the search goes straight to the first fault below a node that
has one, and ends there. -/
theorem exists_descent (t : FaultTree) (h : t.FlagsExact) (hrows : t.faultRows ≠ []) :
    ∃ w n, t.IsFirstFault w n ∧ t.firstFaultLine = n.row + 1 ∧
      ∀ k, t.after k = if k ≤ w.length then t.at? (w.take k) else none := by
  by_cases hfault : t.isFault = true
  case pos =>
    have hnext : t.next? = none := if_pos hfault
    refine ⟨[], t, isFirstFault_self hfault, ?_, fun k => ?_⟩
    · rw [firstFaultLine_eq, hnext]
      rfl
    · cases k with
      | zero => rw [after, List.take_nil, at?_nil]; rfl
      | succ k => rw [after, hnext]; rfl
  case neg =>
    rw [Bool.not_eq_true] at hfault
    obtain ⟨before, c, rest, hsplit, hnext, hc, hbefore⟩ := h.exists_next hfault hrows
    have hmem : c ∈ t.children := by rw [hsplit]; simp
    have hchild : t.children[before.length]? = some c := by
      rw [hsplit, List.getElem?_append_right (Nat.le_refl _), Nat.sub_self]
      rfl
    obtain ⟨w, n, hfirst, hline, hafter⟩ := exists_descent c (h.child hmem) hc
    refine ⟨before.length :: w, n, .child hfault hsplit hbefore hfirst, ?_, fun k => ?_⟩
    · rw [firstFaultLine_eq, hnext]
      exact hline
    · cases k with
      | zero => rw [after, List.take_zero, at?_nil, if_pos (Nat.zero_le _)]
      | succ k =>
          rw [after, hnext, List.take_succ_cons, at?_cons, hchild, List.length_cons,
            Option.bind_some, Option.bind_some, hafter k]
          simp only [Nat.add_le_add_iff_right]
termination_by sizeOf t
decreasing_by
  cases t with
  | node k f r cs =>
      have hlt := List.sizeOf_lt_of_mem hmem
      simp only [children, FaultTree.node.sizeOf_spec] at hlt ⊢
      omega

/-- Where the flags are exact and the root is flagged, the search goes down from the root to
the fault that comes before all others in pre-order.  It takes one step of the way to this
fault after the other, ends there and nowhere else, and gives the line on which the fault
begins. -/
theorem firstFaultLine_exact {t : FaultTree} (hflags : t.FlagsExact)
    (hroot : t.isFlagged = true) :
    ∃ w n, t.at? w = some n ∧ n.isFault = true ∧
      (∀ v m, t.at? v = some m → m.isFault = true → v = w ∨ w < v) ∧
      t.faultRows.head? = some n.row ∧ t.firstFaultLine = 1 + n.row ∧
      ∀ k, t.after k = if k ≤ w.length then t.at? (w.take k) else none := by
  obtain ⟨w, n, hfirst, hline, hafter⟩ :=
    t.exists_descent hflags (hflags.isFlagged_iff.mp hroot)
  refine ⟨w, n, hfirst.place, hfirst.isFault, hfirst.first, hfirst.rows, ?_, hafter⟩
  rw [hline, Nat.add_comm]

/-- A missing token behind a clean node, with faults behind it that begin on earlier rows. -/
def nestedFaults : FaultTree :=
  .node .none true 0
    [.node .none false 0 [],
      .node .none true 1 [.node .none false 1 [], .node .missing true 3 [], .node .error true 2 []],
      .node .error true 0 [.node .missing true 0 []]]

/-- The first fault is found on the fourth line, before those of earlier lines. -/
theorem firstFaultLine_exact_nested :
    nestedFaults.FlagsExact ∧ nestedFaults.isFlagged = true ∧
      nestedFaults.faultRows = [3, 2, 0, 0] ∧ nestedFaults.firstFaultLine = 4 := by
  have hflags : nestedFaults.FlagsExact := by
    simp [nestedFaults, FlagsExact, FlagsExactAll, faultRowsOf, faultRows]
  have hrows : nestedFaults.faultRows = [3, 2, 0, 0] := by decide
  obtain ⟨w, n, -, -, -, hhead, hline, -⟩ := firstFaultLine_exact hflags rfl
  rw [hrows] at hhead
  have hrow : 3 = n.row := Option.some.inj hhead
  exact ⟨hflags, rfl, hrows, by rw [hline, ← hrow]⟩

end FaultTree

/-! ## Faults of a text -/

/-- The fault of a text is a flagged node without children. -/
theorem Fault.exists_node_eq (f : Fault) (ts : List Token) :
    ∃ k row, f.node ts = .node k true row [] ∧ k ≠ .none := by
  unfold Fault.node
  dsimp only
  split
  case isTrue => exact ⟨.missing, _, rfl, nofun⟩
  case isFalse => split <;> exact ⟨.error, _, rfl, nofun⟩

/-- A text that is not read completely has a tree with exact flags and a fault, so its line
is that of the first fault. -/
theorem flagsExact_of_read {source : String} {t : FaultTree} (h : read source = .error t) :
    t.FlagsExact ∧ t.isFlagged = true := by
  unfold read at h
  dsimp only at h
  split at h
  case h_1 => cases h
  case h_2 f _ =>
    cases h
    obtain ⟨k, row, hnode, hk⟩ := f.exists_node_eq (scan source)
    simp [Fault.tree, hnode, FaultTree.FlagsExact, FaultTree.FlagsExactAll, FaultTree.faultRowsOf,
      FaultTree.faultRows, FaultTree.isFlagged, hk]

end JavaAtlas.Java
