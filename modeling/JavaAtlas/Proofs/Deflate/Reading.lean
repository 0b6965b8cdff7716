import JavaAtlas.Deflate.Inflate

/-!
# Reading from the front

Reading a compressed stream takes bits from the front and never asks what follows
the final block.  So a stream that was read can be followed by anything: the same
octets come out of it, and what follows is left over.

Main results:

- Theorem `readBody_append`, theorem `readRuns_append`, theorem `readBlock_append`:
  the parts of a stream are read alike, whatever follows.
- Theorem `inflate_append`: a stream is read alike, whatever follows.
-/

namespace JavaAtlas.Deflate

variable {bits rest : List Bool} (behind : List Bool)

/-! ## Numbers and symbols -/

theorem takeNumber_append {k n : Nat} (h : takeNumber k bits = some (n, rest)) :
    takeNumber k (bits ++ behind) = some (n, rest ++ behind) := by
  unfold takeNumber at h ⊢
  dsimp only at h ⊢
  split at h
  case isTrue hlength =>
    have hle : k ≤ bits.length := by
      rw [List.length_take] at hlength
      omega
    rw [List.take_append_of_le_length hle, if_pos hlength, List.drop_append_of_le_length hle]
    cases h
    rfl
  case isFalse => cases h

theorem CodeTree.read_append {t : CodeTree} {s : Nat} (h : t.read bits = some (s, rest)) :
    t.read (bits ++ behind) = some (s, rest ++ behind) := by
  induction t generalizing bits with
  | empty => simp [CodeTree.read] at h
  | symbol s' =>
      simp only [CodeTree.read, Option.some.injEq, Prod.mk.injEq] at h ⊢
      obtain ⟨rfl, rfl⟩ := h
      exact ⟨rfl, rfl⟩
  | fork zero one ihzero ihone =>
      cases bits with
      | nil => simp [CodeTree.read] at h
      | cons b bits =>
          simp only [List.cons_append, CodeTree.read] at h ⊢
          split at h
          case isTrue hb =>
            rw [if_pos hb]
            exact ihone h
          case isFalse hb =>
            rw [if_neg hb]
            exact ihzero h

theorem takeClass_append {classes : Classes} {index n : Nat}
    (h : takeClass classes index bits = some (n, rest)) :
    takeClass classes index (bits ++ behind) = some (n, rest ++ behind) := by
  unfold takeClass at h ⊢
  simp only [Option.bind_eq_bind, Option.bind_eq_some_iff] at h ⊢
  obtain ⟨⟨least, extra⟩, hclass, ⟨m, rest'⟩, hnumber, heq⟩ := h
  cases heq
  exact ⟨(least, extra), hclass, (m, rest' ++ behind), takeNumber_append behind hnumber, rfl⟩

/-! ## Bodies -/

theorem readCopy_append {distances : CodeTree} {s : Nat} {out out' : Array UInt8}
    (h : readCopy distances s out bits = some (out', rest)) :
    readCopy distances s out (bits ++ behind) = some (out', rest ++ behind) := by
  unfold readCopy at h ⊢
  simp only [Option.bind_eq_bind, Option.bind_eq_some_iff] at h ⊢
  obtain ⟨⟨length, bits₁⟩, hlength, ⟨d, bits₂⟩, hdistance, ⟨distance, bits₃⟩, hclass, copied,
    hcopy, heq⟩ := h
  obtain ⟨rfl, rfl⟩ := Prod.mk.inj (Option.some.inj heq)
  exact ⟨(length, bits₁ ++ behind), takeClass_append behind hlength,
    (d, bits₂ ++ behind), CodeTree.read_append behind hdistance,
    (distance, bits₃ ++ behind), takeClass_append behind hclass, copied, hcopy, rfl⟩

/-- The body of a block is read alike with more bits behind it and with more steps. -/
theorem readBody_append {symbols distances : CodeTree} {n : Nat} {out out' : Array UInt8}
    (h : readBody symbols distances n out bits = some (out', rest)) (k : Nat) :
    readBody symbols distances (n + k) out (bits ++ behind) = some (out', rest ++ behind) := by
  induction n generalizing out bits with
  | zero => simp [readBody] at h
  | succ n ih =>
      rw [Nat.add_right_comm]
      unfold readBody at h ⊢
      simp only [Option.bind_eq_bind, Option.bind_eq_some_iff] at h ⊢
      obtain ⟨⟨s, bits₁⟩, hsymbol, h⟩ := h
      refine ⟨(s, bits₁ ++ behind), CodeTree.read_append behind hsymbol, ?_⟩
      dsimp only at h ⊢
      split at h
      case isTrue hliteral =>
        rw [if_pos hliteral]
        exact ih h
      case isFalse hliteral =>
        rw [if_neg hliteral]
        split at h
        case isTrue hend =>
          rw [if_pos hend]
          cases h
          rfl
        case isFalse hend =>
          rw [if_neg hend, Option.bind_eq_some_iff]
          obtain ⟨⟨copied, bits₂⟩, hcopy, h⟩ := Option.bind_eq_some_iff.mp h
          exact ⟨(copied, bits₂ ++ behind), readCopy_append behind hcopy, ih h⟩

/-! ## Descriptions of codes -/

private theorem repeated_append {length extra least : Nat} {lengths lengths' : List Nat}
    (h : (takeNumber extra bits).bind (fun r =>
      some (List.replicate (least + r.1) length ++ lengths, r.2)) = some (lengths', rest)) :
    (takeNumber extra (bits ++ behind)).bind (fun r =>
      some (List.replicate (least + r.1) length ++ lengths, r.2)) =
        some (lengths', rest ++ behind) := by
  simp only [Option.bind_eq_some_iff] at h ⊢
  obtain ⟨⟨n, bits₁⟩, hnumber, heq⟩ := h
  obtain ⟨rfl, rfl⟩ := Prod.mk.inj (Option.some.inj heq)
  exact ⟨(n, bits₁ ++ behind), takeNumber_append behind hnumber, rfl⟩

theorem readRun_append {s : Nat} {lengths lengths' : List Nat}
    (h : readRun s lengths bits = some (lengths', rest)) :
    readRun s lengths (bits ++ behind) = some (lengths', rest ++ behind) := by
  unfold readRun at h ⊢
  dsimp only at h ⊢
  split at h
  case isTrue hplain =>
    rw [if_pos hplain]
    cases h
    rfl
  case isFalse hplain =>
    rw [if_neg hplain]
    split at h
    case isTrue hbefore =>
      rw [if_pos hbefore]
      cases lengths with
      | nil => cases h
      | cons length lengths => exact repeated_append behind h
    case isFalse hbefore =>
      rw [if_neg hbefore]
      split at h
      case isTrue hfew =>
        rw [if_pos hfew]
        exact repeated_append behind h
      case isFalse hfew =>
        rw [if_neg hfew]
        exact repeated_append behind h

theorem readRuns_append {code : CodeTree} {total n : Nat} {lengths lengths' : List Nat}
    (h : readRuns code total n lengths bits = some (lengths', rest)) :
    readRuns code total n lengths (bits ++ behind) = some (lengths', rest ++ behind) := by
  induction n generalizing lengths bits with
  | zero => simp [readRuns] at h
  | succ n ih =>
      unfold readRuns at h ⊢
      split at h
      case isTrue hfull =>
        rw [if_pos hfull]
        split at h
        case isTrue hexact =>
          rw [if_pos hexact]
          cases h
          rfl
        case isFalse => cases h
      case isFalse hfull =>
        rw [if_neg hfull]
        simp only [Option.bind_eq_bind, Option.bind_eq_some_iff] at h ⊢
        obtain ⟨⟨s, bits₁⟩, hsymbol, ⟨more, bits₂⟩, hrun, h⟩ := h
        exact ⟨(s, bits₁ ++ behind), CodeTree.read_append behind hsymbol,
          (more, bits₂ ++ behind), readRun_append behind hrun, ih h⟩

theorem readLengthLengths_append {order : List Nat} {lengths lengths' : Array Nat}
    (h : readLengthLengths order lengths bits = some (lengths', rest)) :
    readLengthLengths order lengths (bits ++ behind) = some (lengths', rest ++ behind) := by
  induction order generalizing lengths bits with
  | nil =>
      cases h
      rfl
  | cons s order ih =>
      unfold readLengthLengths at h ⊢
      simp only [Option.bind_eq_bind, Option.bind_eq_some_iff] at h ⊢
      obtain ⟨⟨n, bits₁⟩, hnumber, h⟩ := h
      exact ⟨(n, bits₁ ++ behind), takeNumber_append behind hnumber, ih h⟩

theorem readCodes_append {c : Codes} (h : readCodes bits = some (c, rest)) :
    readCodes (bits ++ behind) = some (c, rest ++ behind) := by
  unfold readCodes at h ⊢
  simp only [Option.bind_eq_bind, Option.bind_eq_some_iff] at h ⊢
  obtain ⟨⟨symbolCount, bits₁⟩, hsymbols, ⟨distanceCount, bits₂⟩, hdistances, ⟨written, bits₃⟩,
    hwritten, ⟨lengths, bits₄⟩, hlengths, ⟨all, bits₅⟩, hall, heq⟩ := h
  obtain ⟨rfl, rfl⟩ := Prod.mk.inj (Option.some.inj heq)
  exact ⟨(symbolCount, bits₁ ++ behind), takeNumber_append behind hsymbols,
    (distanceCount, bits₂ ++ behind), takeNumber_append behind hdistances,
    (written, bits₃ ++ behind), takeNumber_append behind hwritten,
    (lengths, bits₄ ++ behind), readLengthLengths_append behind hlengths,
    (all, bits₅ ++ behind), readRuns_append behind hall, rfl⟩

/-! ## Blocks -/

theorem readPlain_append {used : Nat} {out out' : Array UInt8}
    (h : readPlain used out bits = some (out', rest)) :
    readPlain used out (bits ++ behind) = some (out', rest ++ behind) := by
  unfold readPlain at h ⊢
  simp only [Option.bind_eq_bind, Option.bind_eq_some_iff] at h ⊢
  obtain ⟨⟨length, bits₁⟩, hlength, ⟨check, bits₂⟩, hcheck, h⟩ := h
  dsimp only at h
  split at h
  case isTrue => cases h
  case isFalse hsound =>
    obtain ⟨hsum, hle⟩ := not_or.mp hsound
    obtain ⟨rfl, rfl⟩ := Prod.mk.inj (Option.some.inj h)
    -- the filling was there, since a number was read behind it
    have hfilling : (filling used).length ≤ bits.length := by
      refine Nat.le_of_not_lt fun hshort => ?_
      rw [List.drop_of_length_le (by omega)] at hlength
      cases hlength
    rw [List.drop_append_of_le_length hfilling]
    refine ⟨(length, bits₁ ++ behind), takeNumber_append behind hlength,
      (check, bits₂ ++ behind), takeNumber_append behind hcheck, ?_⟩
    dsimp only
    rw [if_neg (by rw [List.length_append]; omega), List.take_append_of_le_length (by omega),
      List.drop_append_of_le_length (by omega)]
    rfl

/-- A block is read alike with more bits behind it, which the stream then has more. -/
theorem readBlock_append {total : Nat} {low high : Bool} {out out' : Array UInt8}
    (h : readBlock total low high out bits = some (out', rest)) :
    readBlock (total + behind.length) low high out (bits ++ behind) =
      some (out', rest ++ behind) := by
  have hused : total + behind.length - (bits ++ behind).length = total - bits.length := by
    rw [List.length_append]
    omega
  have hsteps : ∀ bits : List Bool,
      (bits ++ behind).length + 1 = bits.length + 1 + behind.length := by
    intro bits
    rw [List.length_append]
    omega
  unfold readBlock at h ⊢
  split at h
  · rw [hused]
    exact readPlain_append behind h
  · rw [hsteps]
    exact readBody_append behind h behind.length
  · simp only [Option.bind_eq_bind, Option.bind_eq_some_iff] at h ⊢
    obtain ⟨⟨c, bits₁⟩, hcodes, h⟩ := h
    refine ⟨(c, bits₁ ++ behind), readCodes_append behind hcodes, ?_⟩
    dsimp only
    rw [hsteps]
    exact readBody_append behind h behind.length
  · cases h

theorem readBlocks_append {total n : Nat} {out out' : Array UInt8}
    (h : readBlocks total n out bits = some (out', rest)) (k : Nat) :
    readBlocks (total + behind.length) (n + k) out (bits ++ behind) =
      some (out', rest ++ behind) := by
  induction n generalizing out bits with
  | zero => simp [readBlocks] at h
  | succ n ih =>
      rw [Nat.add_right_comm]
      match bits, h with
      | final :: low :: high :: bits, h =>
        simp only [readBlocks, List.cons_append, Option.bind_eq_bind,
          Option.bind_eq_some_iff] at h ⊢
        obtain ⟨⟨out₁, bits₁⟩, hblock, h⟩ := h
        refine ⟨(out₁, bits₁ ++ behind), readBlock_append behind hblock, ?_⟩
        dsimp only at h ⊢
        split at h
        case isTrue hfinal =>
          rw [if_pos hfinal]
          cases h
          rfl
        case isFalse hfinal =>
          rw [if_neg hfinal]
          exact ih h
      | [], h => cases h
      | [_], h => cases h
      | [_, _], h => cases h

/-- A stream is read alike, whatever follows, and what follows is left over. -/
theorem inflate_append {out : Array UInt8} (h : inflate bits = some (out, rest)) :
    inflate (bits ++ behind) = some (out, rest ++ behind) := by
  have hsteps : (bits ++ behind).length + 1 = bits.length + 1 + behind.length := by
    rw [List.length_append]
    omega
  rw [inflate, hsteps, List.length_append]
  exact readBlocks_append behind h behind.length

end JavaAtlas.Deflate
