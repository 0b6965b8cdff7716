import JavaAtlas.Proofs.Text.Utf8

/-!
# Strict reading in pieces

A stream is read piece by piece, and a character may begin in one piece and end in the
next.  Where the pieces are cut makes no difference for what is read: octets in pieces
are a text exactly where all of them together are that text.

Main definitions:

- `Reached`: a pending character, and the octets that lead to it.
- `Outcome`: what reading some octets says about reading more of them.

Main results:

- Theorem `decodeStrictFrom_outcome`: the three ways in which reading ends.
- Theorem `decodeStream_eq_ok_iff`: reading a stream and reading all at once.
-/

namespace JavaAtlas.Text.Utf8

/-! ## Single steps -/

theorem decodeStrictFrom_last {p : Pending} {b : UInt8} {start : Nat} {run rest : Bytes}
    (h : p.accepts b = true) (hm : p.missing ≤ 1) :
    decodeStrictFrom start (some p) run (b :: rest) =
      (Char.ofNat (p.extended b) :: ·) <$>
        decodeStrictFrom (start + run.length + 1) none [] rest := by
  rw [decodeStrictFrom, if_pos h, if_pos hm]

theorem decodeStrictFrom_inner {p : Pending} {b : UInt8} {start : Nat} {run rest : Bytes}
    (h : p.accepts b = true) (hm : ¬ p.missing ≤ 1) :
    decodeStrictFrom start (some p) run (b :: rest) =
      decodeStrictFrom start (some ⟨p.missing - 1, 0x80, 0xBF, p.extended b⟩) (b :: run) rest := by
  rw [decodeStrictFrom, if_pos h, if_neg hm]

/-! ## Ways to end -/

/-- A state while octets are read: none is pending, or the octets of a run lead to what
is pending. -/
def Reached (state : Option Pending) (run : Bytes) : Prop :=
  match state with
  | none => run = []
  | some p => run ≠ [] ∧ ∀ start rest,
      decodeStrictFrom start none [] (run.reverse ++ rest) =
        decodeStrictFrom start (some p) run rest

theorem reached_opening {b : UInt8} {p : Pending} (h : lead b = .opening p) :
    Reached (some p) [b] := by
  refine ⟨by simp, fun start rest => ?_⟩
  rw [List.reverse_singleton, List.singleton_append, decodeStrictFrom, h]

theorem Reached.inner {p : Pending} {run : Bytes} (hr : Reached (some p) run) {b : UInt8}
    (h : p.accepts b = true) (hm : ¬ p.missing ≤ 1) :
    Reached (some ⟨p.missing - 1, 0x80, 0xBF, p.extended b⟩) (b :: run) := by
  refine ⟨by simp, fun start rest => ?_⟩
  rw [List.reverse_cons, List.append_assoc, List.singleton_append, hr.2,
    decodeStrictFrom_inner h hm]

/-- Reading some octets in a state says what reading more of them gives: all of them are
characters, or the last ones begin a character, or no octets behind them help. -/
inductive Outcome (start : Nat) (state : Option Pending) (run xs : Bytes) : Prop where
  | whole (next : Nat) (cs : List Char)
      (here : decodeStrictFrom start state run xs = .ok cs)
      (further : ∀ rest, decodeStrictFrom start state run (xs ++ rest) =
        (cs ++ ·) <$> decodeStrictFrom next none [] rest)
  | cut (done left : Bytes) (cs : List Char)
      (octets : run.reverse ++ xs = done ++ left) (nonempty : left ≠ [])
      (here : decodeStrictFrom start state run xs =
        .error ⟨start + done.length, left, .unexpectedEnd⟩)
      (before : decodeStrictFrom start none [] done = .ok cs)
      (further : ∀ rest, decodeStrictFrom start state run (xs ++ rest) =
        (cs ++ ·) <$> decodeStrictFrom (start + done.length) none [] (left ++ rest))
  | broken (m : Malformed) (cause : m.cause ≠ .unexpectedEnd)
      (further : ∀ rest, decodeStrictFrom start state run (xs ++ rest) = .error m)

/-- Octets that lead to a state are read again from the beginning. -/
theorem Reached.restart {state : Option Pending} {run : Bytes} (hr : Reached state run)
    (start : Nat) (rest : Bytes) :
    decodeStrictFrom start none [] (run.reverse ++ rest) =
      decodeStrictFrom start state run rest := by
  cases state with
  | none =>
      cases hr
      rfl
  | some p => exact hr.2 start rest

section

variable {start : Nat} {state : Option Pending} {run xs : Bytes} {b : UInt8}

/-- An octet that completes a character puts it in front of whatever follows. -/
theorem Reached.completing (hr : Reached state run) {c : Char}
    (hb : ∀ rest, decodeStrictFrom start state run (b :: rest) =
      (c :: ·) <$> decodeStrictFrom (start + run.length + 1) none [] rest)
    (h : Outcome (start + run.length + 1) none [] xs) : Outcome start state run (b :: xs) := by
  cases h with
  | whole next cs here further =>
      refine .whole next (c :: cs) ?_ fun rest => ?_
      · rw [hb, here]
        rfl
      · rw [List.cons_append, hb, further]
        cases decodeStrictFrom next none [] rest <;> rfl
  | cut done left cs octets nonempty here before further =>
      have hplace : start + run.length + 1 + done.length =
          start + (run.reverse ++ b :: done).length := by
        simp only [List.length_append, List.length_reverse, List.length_cons]
        omega
      refine .cut (run.reverse ++ b :: done) left (c :: cs) ?_ nonempty ?_ ?_ fun rest => ?_
      · rw [List.append_assoc, List.cons_append, ← octets]
        rfl
      · rw [hb, here, hplace]
        rfl
      · rw [hr.restart, hb, before]
        rfl
      · rw [List.cons_append, hb, further, hplace]
        cases decodeStrictFrom (start + (run.reverse ++ b :: done).length) none []
          (left ++ rest) <;> rfl
  | broken m cause further =>
      refine .broken m cause fun rest => ?_
      rw [List.cons_append, hb, further]
      rfl

/-- An octet that goes on with a character leaves the outcome to what follows. -/
theorem Outcome.pending {p : Pending}
    (hb : ∀ rest, decodeStrictFrom start state run (b :: rest) =
      decodeStrictFrom start (some p) (b :: run) rest)
    (h : Outcome start (some p) (b :: run) xs) : Outcome start state run (b :: xs) := by
  cases h with
  | whole next cs here further =>
      exact .whole next cs (by rw [hb, here]) fun rest => by rw [List.cons_append, hb, further]
  | cut done left cs octets nonempty here before further =>
      have hoctets : run.reverse ++ b :: xs = done ++ left := by
        rw [← octets]
        simp
      exact .cut done left cs hoctets nonempty (by rw [hb, here]) before
        fun rest => by rw [List.cons_append, hb, further]
  | broken m cause further =>
      exact .broken m cause fun rest => by rw [List.cons_append, hb, further]

end

/-- Reading ends in one of the three ways. -/
theorem decodeStrictFrom_outcome (xs : Bytes) (start : Nat) {state : Option Pending}
    {run : Bytes} (hr : Reached state run) : Outcome start state run xs := by
  induction xs generalizing start state run with
  | nil =>
      cases state with
      | none =>
          cases hr
          refine .whole start [] rfl fun rest => ?_
          rw [List.nil_append]
          cases decodeStrictFrom start none [] rest <;> rfl
      | some p =>
          refine .cut [] run.reverse [] (by simp) (by simpa using hr.1) rfl rfl fun rest => ?_
          rw [List.nil_append, List.length_nil, Nat.add_zero, hr.2]
          cases decodeStrictFrom start (some p) run rest <;> rfl
  | cons b xs ih =>
      cases state with
      | none =>
          cases hr
          cases hlead : lead b with
          | single c =>
              have hnone : Reached none [] := rfl
              exact hnone.completing
                (fun rest => by rw [decodeStrictFrom, hlead]; rfl) (ih (start + 1) rfl)
          | opening p =>
              exact .pending (fun rest => by rw [decodeStrictFrom, hlead])
                (ih start (reached_opening hlead))
          | invalid =>
              refine .broken ⟨start, [b], .invalidStart⟩ (by simp) fun rest => ?_
              rw [List.cons_append, decodeStrictFrom, hlead]
      | some p =>
          by_cases haccepts : p.accepts b = true
          case pos =>
            by_cases hm : p.missing ≤ 1
            case pos =>
              exact hr.completing (fun rest => decodeStrictFrom_last haccepts hm) (ih _ rfl)
            case neg =>
              exact .pending (fun rest => decodeStrictFrom_inner haccepts hm)
                (ih start (hr.inner haccepts hm))
          case neg =>
            refine .broken ⟨start, run.reverse, .invalidContinuation⟩ (by simp) fun rest => ?_
            rw [List.cons_append, decodeStrictFrom, if_neg haccepts]

/-! ## Pieces -/

/-- Where reading starts makes no difference for what is read. -/
theorem decodeStrictFrom_ok_start {xs : Bytes} {start : Nat} {state : Option Pending}
    {run : Bytes} {cs : List Char} (h : decodeStrictFrom start state run xs = .ok cs)
    (hr : Reached state run) (start' : Nat) :
    decodeStrictFrom start' state run xs = .ok cs := by
  induction xs generalizing start start' state run cs with
  | nil =>
      cases state with
      | none => exact h
      | some p => cases h
  | cons b xs ih =>
      cases state with
      | none =>
          cases hr
          rw [decodeStrictFrom] at h ⊢
          cases hlead : lead b with
          | single c =>
              rw [hlead] at h
              obtain ⟨cs', hcs', rfl⟩ := map_eq_ok_iff.mp h
              exact map_eq_ok_iff.mpr ⟨cs', ih hcs' rfl _, rfl⟩
          | opening p =>
              rw [hlead] at h
              exact ih h (reached_opening hlead) _
          | invalid =>
              rw [hlead] at h
              cases h
      | some p =>
          by_cases haccepts : p.accepts b = true
          case pos =>
            by_cases hm : p.missing ≤ 1
            case pos =>
              rw [decodeStrictFrom_last haccepts hm] at h ⊢
              obtain ⟨cs', hcs', rfl⟩ := map_eq_ok_iff.mp h
              exact map_eq_ok_iff.mpr ⟨cs', ih hcs' rfl _, rfl⟩
            case neg =>
              rw [decodeStrictFrom_inner haccepts hm] at h ⊢
              exact ih h (hr.inner haccepts hm) _
          case neg =>
            rw [decodeStrictFrom, if_neg haccepts] at h
            cases h

/-- The same octets are characters wherever reading starts. -/
theorem decodeStrictFrom_eq_ok_comm {xs : Bytes} {cs : List Char} (start start' : Nat) :
    decodeStrictFrom start none [] xs = .ok cs ↔ decodeStrictFrom start' none [] xs = .ok cs :=
  ⟨fun h => decodeStrictFrom_ok_start h rfl _, fun h => decodeStrictFrom_ok_start h rfl _⟩

/-- Octets that are left over from one piece begin a character. -/
def IsLeft (left : Bytes) : Prop :=
  left = [] ∨ ∀ cs, decodeStrictFrom 0 none [] left ≠ .ok cs

/-- Octets in pieces are characters exactly where all of them together are. -/
theorem decodePieces_eq_ok_iff (pieces : List Bytes) {left : Bytes} (hleft : IsLeft left)
    (cs : List Char) :
    decodePieces left pieces = .ok cs ↔
      decodeStrictFrom 0 none [] (left ++ pieces.flatten) = .ok cs := by
  induction pieces generalizing left cs with
  | nil =>
      rw [List.flatten_nil, List.append_nil]
      rcases hleft with rfl | hleft
      · rfl
      · have hnonempty : left.isEmpty = false := by
          cases left with
          | nil => exact absurd rfl (hleft [])
          | cons b left => rfl
        simp [decodePieces, hnonempty, hleft cs]
  | cons piece rest ih =>
      rw [List.flatten_cons, ← List.append_assoc]
      have hnone : Reached none [] := rfl
      cases decodeStrictFrom_outcome (left ++ piece) 0 hnone with
      | whole next cs₁ here further =>
          simp only [decodePieces, here, further, map_eq_ok_iff]
          refine exists_congr fun cs₂ => and_congr_left' ?_
          rw [ih (.inl rfl), List.nil_append]
          exact decodeStrictFrom_eq_ok_comm _ _
      | cut done left' cs₁ octets nonempty here before further =>
          rw [List.reverse_nil, List.nil_append] at octets
          have htake : (left ++ piece).take (0 + done.length) = done := by
            rw [octets, Nat.zero_add, List.take_left]
          simp only [decodePieces, here, htake, before, if_true, further, map_eq_ok_iff]
          refine exists_congr fun cs₂ => and_congr_left' ?_
          have hleft' : IsLeft left' := by
            refine .inr fun cs h => ?_
            have hwhole := further []
            rw [List.append_nil, List.append_nil, here,
              decodeStrictFrom_ok_start h rfl (0 + done.length)] at hwhole
            cases hwhole
          rw [ih hleft']
          exact decodeStrictFrom_eq_ok_comm _ _
      | broken m cause further =>
          have here := further []
          rw [List.append_nil] at here
          simp only [decodePieces, here, further, if_neg cause]

/-- Octets in pieces, put together again. -/
theorem flatten_piecesOf {size : Nat} (hsize : 0 < size) {fuel : Nat} {bs : Bytes}
    (h : bs.length ≤ fuel) : (piecesOf size fuel bs).flatten = bs := by
  induction fuel generalizing bs with
  | zero =>
      have hnil : bs = [] := List.length_eq_zero_iff.mp (Nat.le_zero.mp h)
      rw [piecesOf, hnil]
      rfl
  | succ fuel ih =>
      cases bs with
      | nil => rfl
      | cons b bs =>
          have hrest : ((b :: bs).drop size).length ≤ fuel := by
            rw [List.length_drop]
            omega
          rw [piecesOf, List.isEmpty_cons, if_neg Bool.false_ne_true, List.flatten_cons, ih hrest,
            List.take_append_drop]

/-- A stream is a text exactly where all of its octets, read at once, are that text. -/
theorem decodeStream_eq_ok_iff (bs : Bytes) (s : String) :
    decodeStream bs = .ok s ↔ decodeStrict bs = .ok s := by
  rw [decodeStream, decodeStrict, map_eq_ok_iff, map_eq_ok_iff]
  refine exists_congr fun cs => and_congr_left' ?_
  rw [decodePieces_eq_ok_iff _ (.inl rfl), List.nil_append,
    flatten_piecesOf (by decide) (Nat.le_refl _)]

end JavaAtlas.Text.Utf8
