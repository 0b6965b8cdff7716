import Mathlib.Algebra.GroupWithZero.Nat
import JavaAtlas.Text.Utf8

/-!
# Reading back what was written

The octets of a text are read as that text, strictly: no octet is refused, and
every character is completed by its own octets.  No other octets are read as it.

Main definitions:

- `Pending.Begins`: octets that begin the characters which a pending one can become.

Main results:

- Theorem `decodeStrictFrom_utf8EncodeChar`: the octets of a character are read as
  that character, whatever follows.
- Theorem `decodeStrict_encode`: the octets of a text are read as that text.
- Theorem `decodeFrom_of_decodeStrictFrom`: where strict reading succeeds, nothing is replaced.
- Theorem `decodeStrict_eq_ok_iff`: octets are read as a text exactly where they are
  the octets of that text.
-/

namespace JavaAtlas.Text.Utf8

/-! ## Single octets -/

private theorem toNat_ofNat {n : Nat} (h : n < 256) : (UInt8.ofNat n).toNat = n :=
  UInt8.toNat_ofNat_of_lt' h

theorem decodeStrictFrom_single {b : UInt8} {c : Char} {start : Nat} {rest : Bytes}
    (h : lead b = .single c) :
    decodeStrictFrom start none [] (b :: rest) =
      (c :: ·) <$> decodeStrictFrom (start + 1) none [] rest := by
  rw [decodeStrictFrom, h]

theorem decodeStrictFrom_opening {b : UInt8} {p : Pending} {start : Nat} {rest : Bytes}
    (h : lead b = .opening p) :
    decodeStrictFrom start none [] (b :: rest) = decodeStrictFrom start (some p) [b] rest := by
  rw [decodeStrictFrom, h]

theorem accepts_of_toNat {p : Pending} {b : UInt8} {n : Nat} (hb : b.toNat = n + 0x80)
    (hlow : p.low ≤ n + 0x80) (hhigh : n + 0x80 ≤ p.high) : p.accepts b = true := by
  rw [Pending.accepts, hb, Bool.and_eq_true, decide_eq_true_eq, decide_eq_true_eq]
  exact ⟨hlow, hhigh⟩

theorem extended_of_toNat {p : Pending} {b : UInt8} {n : Nat} (hb : b.toNat = n + 0x80) :
    p.extended b = p.value * 64 + n := by
  unfold Pending.extended
  omega

/-- A pending character goes on with six more bits. -/
theorem decodeStrictFrom_continue {m low high value : Nat} {b : UInt8} {n start : Nat}
    {run rest : Bytes} (hb : b.toNat = n + 0x80) (hlow : low ≤ n + 0x80)
    (hhigh : n + 0x80 ≤ high) :
    decodeStrictFrom start (some ⟨m + 2, low, high, value⟩) run (b :: rest) =
      decodeStrictFrom start (some ⟨m + 1, 0x80, 0xBF, value * 64 + n⟩) (b :: run) rest := by
  rw [decodeStrictFrom, if_pos (accepts_of_toNat hb hlow hhigh), if_neg (by simp),
    extended_of_toNat hb]
  rfl

/-- A pending character is completed by the last six bits. -/
theorem decodeStrictFrom_complete {low high value : Nat} {b : UInt8} {n start : Nat}
    {run rest : Bytes} (hb : b.toNat = n + 0x80) (hlow : low ≤ n + 0x80)
    (hhigh : n + 0x80 ≤ high) :
    decodeStrictFrom start (some ⟨1, low, high, value⟩) run (b :: rest) =
      (Char.ofNat (value * 64 + n) :: ·) <$>
        decodeStrictFrom (start + run.length + 1) none [] rest := by
  rw [decodeStrictFrom, if_pos (accepts_of_toNat hb hlow hhigh), if_pos (by simp),
    extended_of_toNat hb]

theorem lead_one {v : Nat} (h : v ≤ 0x7F) : lead (UInt8.ofNat v) = .single (Char.ofNat v) := by
  have hoctet : (UInt8.ofNat v).toNat = v := toNat_ofNat (by omega)
  have hlt : v < 0x80 := by omega
  simp [lead, hoctet, hlt]

theorem lead_two {v : Nat} (h : 0x7F < v) (h' : v ≤ 0x7FF) :
    lead (UInt8.ofNat (v / 64 % 0x20 + 0xC0)) = .opening ⟨1, 0x80, 0xBF, v / 64⟩ := by
  have hoctet : (UInt8.ofNat (v / 64 % 0x20 + 0xC0)).toNat = v / 64 % 0x20 + 0xC0 :=
    toNat_ofNat (by omega)
  unfold lead
  rw [hoctet]
  dsimp only
  rw [if_neg (by omega), if_neg (by omega), if_pos (by omega)]
  simp only [Lead.opening.injEq, Pending.mk.injEq, true_and]
  omega

/-- The bounds for the second octet leave out longer forms of smaller numbers and the
numbers of surrogates, but no number of a character. -/
theorem lead_three {v : Nat} (h : 0x7FF < v) (h' : v ≤ 0xFFFF)
    (hvalid : v < 0xD800 ∨ 0xDFFF < v) :
    ∃ low high, lead (UInt8.ofNat (v / 4096 % 0x10 + 0xE0)) = .opening ⟨2, low, high, v / 4096⟩ ∧
      low ≤ v / 64 % 64 + 0x80 ∧ v / 64 % 64 + 0x80 ≤ high := by
  have hoctet : (UInt8.ofNat (v / 4096 % 0x10 + 0xE0)).toNat = v / 4096 % 0x10 + 0xE0 :=
    toNat_ofNat (by omega)
  unfold lead
  rw [hoctet]
  dsimp only
  rw [if_neg (by omega), if_neg (by omega), if_neg (by omega)]
  by_cases hfirst : v / 4096 = 0
  · refine ⟨0xA0, 0xBF, ?_, by omega, by omega⟩
    simp [hfirst]
  · by_cases hsurrogate : v / 4096 = 13
    · refine ⟨0x80, 0x9F, ?_, by omega, by omega⟩
      simp [hsurrogate]
    · refine ⟨0x80, 0xBF, ?_, by omega, by omega⟩
      rw [if_neg (by simp; omega), if_neg (by simp; omega), if_pos (by omega)]
      simp only [Lead.opening.injEq, Pending.mk.injEq, true_and]
      omega

/-- Here the bounds leave out numbers beyond the last character. -/
theorem lead_four {v : Nat} (h : 0xFFFF < v) (hvalid : v < 0x110000) :
    ∃ low high,
      lead (UInt8.ofNat (v / 262144 % 0x08 + 0xF0)) = .opening ⟨3, low, high, v / 262144⟩ ∧
      low ≤ v / 4096 % 64 + 0x80 ∧ v / 4096 % 64 + 0x80 ≤ high := by
  have hoctet : (UInt8.ofNat (v / 262144 % 0x08 + 0xF0)).toNat = v / 262144 % 0x08 + 0xF0 :=
    toNat_ofNat (by omega)
  unfold lead
  rw [hoctet]
  dsimp only
  rw [if_neg (by omega), if_neg (by omega), if_neg (by omega), if_neg (by simp), if_neg (by simp),
    if_neg (by omega)]
  by_cases hfirst : v / 262144 = 0
  · refine ⟨0x90, 0xBF, ?_, by omega, by omega⟩
    simp [hfirst]
  · by_cases hlast : v / 262144 = 4
    · refine ⟨0x80, 0x8F, ?_, by omega, by omega⟩
      simp [hlast]
    · refine ⟨0x80, 0xBF, ?_, by omega, by omega⟩
      rw [if_neg (by simp; omega), if_pos (by omega)]
      simp only [Lead.opening.injEq, Pending.mk.injEq, true_and]
      omega

/-! ## Characters and texts -/

/-- The octets of a character are read as that character, whatever follows. -/
theorem decodeStrictFrom_utf8EncodeChar (c : Char) (start : Nat) (rest : Bytes) :
    ∃ next, decodeStrictFrom start none [] (String.utf8EncodeChar c ++ rest) =
      (c :: ·) <$> decodeStrictFrom next none [] rest := by
  have hchar : Char.ofNat c.val.toNat = c := Char.ofNat_toNat c
  have hvalid : c.val.toNat < 0xD800 ∨ 0xDFFF < c.val.toNat ∧ c.val.toNat < 0x110000 := c.valid
  unfold String.utf8EncodeChar
  generalize c.val.toNat = v at hchar hvalid
  have hsextet : ∀ m, (UInt8.ofNat (m % 64 + 0x80)).toNat = m % 64 + 0x80 := fun m =>
    toNat_ofNat (by omega)
  dsimp only
  split
  case isTrue h1 =>
    refine ⟨start + 1, ?_⟩
    rw [List.cons_append, decodeStrictFrom_single (lead_one h1), hchar, List.nil_append]
  case isFalse h1 =>
    split
    case isTrue h2 =>
      refine ⟨start + 1 + 1, ?_⟩
      have hvalue : v / 64 * 64 + v % 64 = v := by omega
      simp only [List.cons_append, List.nil_append]
      rw [decodeStrictFrom_opening (lead_two (by omega) h2),
        decodeStrictFrom_complete (hsextet v) (by omega) (by omega)]
      simp only [hvalue, hchar]
      rfl
    case isFalse h2 =>
      split
      case isTrue h3 =>
        refine ⟨start + 2 + 1, ?_⟩
        obtain ⟨low, high, hlead, hlow, hhigh⟩ := lead_three (by omega) h3 (by omega)
        have hvalue : (v / 4096 * 64 + v / 64 % 64) * 64 + v % 64 = v := by omega
        simp only [List.cons_append, List.nil_append]
        rw [decodeStrictFrom_opening hlead,
          decodeStrictFrom_continue (hsextet _) hlow hhigh,
          decodeStrictFrom_complete (hsextet v) (by omega) (by omega)]
        simp only [hvalue, hchar]
        rfl
      case isFalse h3 =>
        refine ⟨start + 3 + 1, ?_⟩
        obtain ⟨low, high, hlead, hlow, hhigh⟩ := lead_four (v := v) (by omega) (by omega)
        have hvalue :
            ((v / 262144 * 64 + v / 4096 % 64) * 64 + v / 64 % 64) * 64 + v % 64 = v := by omega
        simp only [List.cons_append, List.nil_append]
        rw [decodeStrictFrom_opening hlead,
          decodeStrictFrom_continue (hsextet _) hlow hhigh,
          decodeStrictFrom_continue (hsextet _) (by omega) (by omega),
          decodeStrictFrom_complete (hsextet v) (by omega) (by omega)]
        simp only [hvalue, hchar]
        rfl

theorem decodeStrictFrom_flatMap (cs : List Char) (start : Nat) :
    decodeStrictFrom start none [] (cs.flatMap String.utf8EncodeChar) = .ok cs := by
  induction cs generalizing start with
  | nil => rfl
  | cons c cs ih =>
      obtain ⟨next, hnext⟩ := decodeStrictFrom_utf8EncodeChar c start
        (cs.flatMap String.utf8EncodeChar)
      rw [List.flatMap_cons, hnext, ih]
      rfl

/-- The octets of a text are read as that text. -/
theorem decodeStrict_encode (s : String) : decodeStrict (encode s) = .ok s := by
  rw [decodeStrict, encode, decodeStrictFrom_flatMap]
  exact congrArg Except.ok (String.ofList_toList)

/-! ## Reading with replacements -/

/-- A function that is applied to a result gives a result only where there is one. -/
theorem map_eq_ok_iff {ε α β : Type} {f : α → β} {r : Except ε α} {b : β} :
    f <$> r = .ok b ↔ ∃ a, r = .ok a ∧ f a = b := by
  cases r <;> simp [Functor.map, Except.map]

/-- Where strict reading succeeds, reading with replacements gives the same. -/
theorem decodeFrom_of_decodeStrictFrom {bs : Bytes} {start : Nat} {state : Option Pending}
    {run : Bytes} {cs : List Char} (h : decodeStrictFrom start state run bs = .ok cs) :
    decodeFrom state bs = cs := by
  induction bs generalizing start state run cs with
  | nil =>
      cases state with
      | none => exact Except.ok.inj h
      | some p => cases h
  | cons b bs ih =>
      rw [decodeFrom]
      cases state with
      | none =>
          rw [decodeStrictFrom] at h
          simp only [step, step.fresh]
          cases hlead : lead b with
          | single c =>
              rw [hlead] at h
              obtain ⟨rest, hrest, rfl⟩ := map_eq_ok_iff.mp h
              exact congrArg (c :: ·) (ih hrest)
          | opening p =>
              rw [hlead] at h
              exact ih h
          | invalid =>
              rw [hlead] at h
              cases h
      | some p =>
          rw [decodeStrictFrom] at h
          simp only [step]
          by_cases haccepts : p.accepts b = true
          case neg =>
            simp [haccepts] at h
          case pos =>
            simp only [haccepts, if_true] at h ⊢
            by_cases hlast : p.missing ≤ 1
            case pos =>
              rw [if_pos hlast] at h ⊢
              obtain ⟨rest, hrest, rfl⟩ := map_eq_ok_iff.mp h
              exact congrArg (Char.ofNat (p.extended b) :: ·) (ih hrest)
            case neg =>
              rw [if_neg hlast] at h ⊢
              exact ih h

/-- The octets of a text are read as that text, with replacements too. -/
theorem decode_encode (s : String) : decode (encode s) = s := by
  rw [decode, encode, decodeFrom_of_decodeStrictFrom (decodeStrictFrom_flatMap s.toList 0)]
  exact String.ofList_toList

/-! ## Octets that are read are those that are written -/

/-- The octets that give the last sextets of a number. -/
def sextets : Nat → Nat → Bytes
  | 0, _ => []
  | m + 1, v => UInt8.ofNat (v / 64 ^ m % 64 + 0x80) :: sextets m v

/-- Some octets begin the characters that can complete what is pending. -/
structure Pending.Begins (p : Pending) (octets : Bytes) : Prop where
  missing : 1 ≤ p.missing
  low : 0x80 ≤ p.low
  high : p.high ≤ 0xBF
  encode : ∀ v, v / 64 ^ p.missing = p.value →
    p.low ≤ v / 64 ^ (p.missing - 1) % 64 + 0x80 →
    v / 64 ^ (p.missing - 1) % 64 + 0x80 ≤ p.high →
    String.utf8EncodeChar (Char.ofNat v) = octets ++ sextets p.missing v

theorem toNat_val_ofNat {v : Nat} (h : v.isValidChar) : (Char.ofNat v).val.toNat = v := by
  rw [Char.ofNat, dif_pos h]
  rfl

theorem bounds_of_accepts {p : Pending} {octets : Bytes} (hp : p.Begins octets) {b : UInt8}
    (hb : p.accepts b = true) :
    p.low ≤ b.toNat ∧ b.toNat ≤ p.high ∧ 0x80 ≤ b.toNat ∧ b.toNat ≤ 0xBF := by
  rw [Pending.accepts, Bool.and_eq_true, decide_eq_true_eq, decide_eq_true_eq] at hb
  exact ⟨hb.1, hb.2, Nat.le_trans hp.low hb.1, Nat.le_trans hb.2 hp.high⟩

private theorem div_pow_succ (v m : Nat) : v / 64 ^ (m + 1) = v / 64 ^ m / 64 := by
  rw [Nat.div_div_eq_div_mul]
  rfl

/-- An octet that completes a character is the last one that the character is written with. -/
theorem Pending.Begins.complete {p : Pending} {octets : Bytes} (hp : p.Begins octets) {b : UInt8}
    (hb : p.accepts b = true) (hm : p.missing ≤ 1) :
    String.utf8EncodeChar (Char.ofNat (p.extended b)) = octets ++ [b] := by
  obtain ⟨hlow, hhigh, hleast, hgreatest⟩ := bounds_of_accepts hp hb
  have hone : p.missing = 1 := Nat.le_antisymm hm hp.missing
  have hvalue : p.extended b / 64 = p.value := by
    unfold Pending.extended
    omega
  have hsextet : p.extended b % 64 + 0x80 = b.toNat := by
    unfold Pending.extended
    omega
  have hencode := hp.encode (p.extended b)
  simp only [hone, Nat.pow_one, Nat.sub_self, Nat.pow_zero, Nat.div_one, hsextet, sextets,
    UInt8.ofNat_toNat] at hencode
  exact hencode hvalue hlow hhigh

/-- An octet that goes on with a character is the next one that it is written with. -/
theorem Pending.Begins.extended {p : Pending} {octets : Bytes} (hp : p.Begins octets) {b : UInt8}
    (hb : p.accepts b = true) (hm : ¬ p.missing ≤ 1) :
    Pending.Begins ⟨p.missing - 1, 0x80, 0xBF, p.extended b⟩ (octets ++ [b]) := by
  obtain ⟨hlow, hhigh, hleast, hgreatest⟩ := bounds_of_accepts hp hb
  obtain ⟨m, hmissing⟩ : ∃ m, p.missing = m + 2 := ⟨p.missing - 2, by omega⟩
  refine ⟨by simp only; omega, Nat.le_refl _, Nat.le_refl _, fun v hv _ _ => ?_⟩
  simp only [hmissing, Nat.add_one_sub_one] at hv ⊢
  have hvalue : v / 64 ^ (m + 2) = p.value := by
    rw [div_pow_succ, hv]
    clear hv
    unfold Pending.extended
    omega
  have hsextet : v / 64 ^ (m + 1) % 64 + 0x80 = b.toNat := by
    rw [hv]
    clear hv hvalue
    unfold Pending.extended
    omega
  have hencode := hp.encode v
  simp only [hmissing, Nat.add_one_sub_one] at hencode
  rw [hencode hvalue (hsextet ▸ hlow) (hsextet ▸ hhigh), sextets, hsextet, UInt8.ofNat_toNat]
  simp

/-! ### First octets -/

theorem encodeChar_two {v : Nat} (h : 0x7F < v) (h' : v ≤ 0x7FF) :
    String.utf8EncodeChar (Char.ofNat v) = UInt8.ofNat (v / 64 + 0xC0) :: sextets 1 v := by
  have hvalid : v.isValidChar := .inl (by omega)
  have hfirst : v / 64 % 0x20 = v / 64 := by omega
  simp only [String.utf8EncodeChar, toNat_val_ofNat hvalid]
  rw [if_neg (by omega), if_pos h', hfirst]
  simp [sextets]

theorem encodeChar_three {v : Nat} (h : 0x7FF < v) (h' : v ≤ 0xFFFF)
    (hvalid : v < 0xD800 ∨ 0xDFFF < v) :
    String.utf8EncodeChar (Char.ofNat v) = UInt8.ofNat (v / 4096 + 0xE0) :: sextets 2 v := by
  have hvalid : v.isValidChar := hvalid.imp_right fun h => ⟨h, by omega⟩
  have hfirst : v / 4096 % 0x10 = v / 4096 := by omega
  simp only [String.utf8EncodeChar, toNat_val_ofNat hvalid]
  rw [if_neg (by omega), if_neg (by omega), if_pos h', hfirst]
  simp [sextets]

theorem encodeChar_four {v : Nat} (h : 0xFFFF < v) (h' : v < 0x110000) :
    String.utf8EncodeChar (Char.ofNat v) = UInt8.ofNat (v / 262144 + 0xF0) :: sextets 3 v := by
  have hvalid : v.isValidChar := .inr ⟨by omega, h'⟩
  have hfirst : v / 262144 % 0x08 = v / 262144 := by omega
  simp only [String.utf8EncodeChar, toNat_val_ofNat hvalid]
  rw [if_neg (by omega), if_neg (by omega), if_neg (by omega), hfirst]
  simp [sextets]

theorem begins_two {b : UInt8} {value : Nat} (hb : value + 0xC0 = b.toNat) (hleast : 2 ≤ value)
    (hgreatest : value < 0x20) : Pending.Begins ⟨1, 0x80, 0xBF, value⟩ [b] := by
  refine ⟨Nat.le_refl _, Nat.le_refl _, Nat.le_refl _, fun v hv _ _ => ?_⟩
  simp only [Nat.pow_one] at hv
  rw [encodeChar_two (by omega) (by omega), hv, hb, UInt8.ofNat_toNat]
  rfl

/-- The bounds leave out longer forms of smaller numbers and the numbers of surrogates. -/
theorem begins_three {b : UInt8} {low high value : Nat} (hb : value + 0xE0 = b.toNat)
    (hvalue : value < 0x10) (hlow : 0x80 ≤ low) (hhigh : high ≤ 0xBF)
    (hlonger : value = 0 → 0xA0 ≤ low) (hsurrogate : value = 13 → high ≤ 0x9F) :
    Pending.Begins ⟨2, low, high, value⟩ [b] := by
  refine ⟨by simp, hlow, hhigh, fun v hv hleast hgreatest => ?_⟩
  simp only [Nat.reducePow, Nat.reduceSub] at hv hleast hgreatest
  rw [encodeChar_three (by omega) (by omega) (by omega), hv, hb, UInt8.ofNat_toNat]
  rfl

/-- Here they leave out numbers beyond the last character too. -/
theorem begins_four {b : UInt8} {low high value : Nat} (hb : value + 0xF0 = b.toNat)
    (hvalue : value ≤ 4) (hlow : 0x80 ≤ low) (hhigh : high ≤ 0xBF)
    (hlonger : value = 0 → 0x90 ≤ low) (hlast : value = 4 → high ≤ 0x8F) :
    Pending.Begins ⟨3, low, high, value⟩ [b] := by
  refine ⟨by simp, hlow, hhigh, fun v hv hleast hgreatest => ?_⟩
  simp only [Nat.reducePow, Nat.reduceSub] at hv hleast hgreatest
  rw [encodeChar_four (by omega) (by omega), hv, hb, UInt8.ofNat_toNat]
  rfl

/-- A first octet begins the characters that can complete it. -/
theorem begins_of_lead {b : UInt8} {p : Pending} (h : lead b = .opening p) : p.Begins [b] := by
  simp only [lead, beq_iff_eq] at h
  -- the classes of first octets in their order
  split at h
  · cases h
  split at h
  · cases h
  split at h
  · cases h
    exact begins_two (by omega) (by omega) (by omega)
  split at h
  · cases h
    exact begins_three (by omega) (by omega) (by omega) (by omega) (by omega) (by omega)
  split at h
  · cases h
    exact begins_three (by omega) (by omega) (by omega) (by omega) (by omega) (by omega)
  split at h
  · cases h
    exact begins_three (by omega) (by omega) (by omega) (by omega) (by omega) (by omega)
  split at h
  · cases h
    exact begins_four (by omega) (by omega) (by omega) (by omega) (by omega) (by omega)
  split at h
  · cases h
    exact begins_four (by omega) (by omega) (by omega) (by omega) (by omega) (by omega)
  split at h
  · cases h
    exact begins_four (by omega) (by omega) (by omega) (by omega) (by omega) (by omega)
  · cases h

theorem encodeChar_of_lead {b : UInt8} {c : Char} (h : lead b = .single c) :
    String.utf8EncodeChar c = [b] := by
  simp only [lead, beq_iff_eq] at h
  split at h
  case isTrue hb =>
    cases h
    have hvalid : b.toNat.isValidChar := .inl (by omega)
    simp only [String.utf8EncodeChar, toNat_val_ofNat hvalid]
    rw [if_pos (by omega), UInt8.ofNat_toNat]
  case isFalse =>
    repeat' split at h
    all_goals cases h

/-- A state between characters, or one that the octets of a run lead to. -/
def Awaits (state : Option Pending) (run : Bytes) : Prop :=
  match state with
  | none => run = []
  | some p => p.Begins run.reverse

theorem awaits_none : Awaits none [] := rfl

/-- Octets that are read as characters are the octets of those characters. -/
theorem flatMap_of_decodeStrictFrom {xs : Bytes} {start : Nat} {cs : List Char}
    {state : Option Pending} {run : Bytes}
    (hstate : Awaits state run) (h : decodeStrictFrom start state run xs = .ok cs) :
    run.reverse ++ xs = cs.flatMap String.utf8EncodeChar := by
  induction xs generalizing start state run cs with
  | nil =>
      cases state with
      | none =>
          cases hstate
          cases h
          rfl
      | some p => cases h
  | cons b xs ih =>
      cases state with
      | none =>
          cases hstate
          rw [decodeStrictFrom] at h
          cases hlead : lead b with
          | single c =>
              rw [hlead] at h
              obtain ⟨cs', hcs', rfl⟩ := map_eq_ok_iff.mp h
              rw [List.flatMap_cons, ← ih awaits_none hcs', encodeChar_of_lead hlead]
              rfl
          | opening p =>
              rw [hlead] at h
              have hbegins : Awaits (some p) [b] := begins_of_lead hlead
              rw [← ih hbegins h]
              rfl
          | invalid =>
              rw [hlead] at h
              cases h
      | some p =>
          replace hstate : p.Begins run.reverse := hstate
          rw [decodeStrictFrom] at h
          split at h
          case isTrue haccepts =>
            split at h
            case isTrue hm =>
              obtain ⟨cs', hcs', rfl⟩ := map_eq_ok_iff.mp h
              rw [List.flatMap_cons, ← ih awaits_none hcs',
                hstate.complete haccepts hm]
              simp
            case isFalse hm =>
              have hnext := hstate.extended haccepts hm
              rw [← List.reverse_cons] at hnext
              have hawaits : Awaits (some _) (b :: run) := hnext
              rw [← ih hawaits h]
              simp
          case isFalse => cases h

/-- Octets are read as a text exactly where they are the octets of that text. -/
theorem decodeStrict_eq_ok_iff {bs : Bytes} {s : String} :
    decodeStrict bs = .ok s ↔ bs = encode s := by
  constructor
  · intro h
    obtain ⟨cs, hcs, rfl⟩ := map_eq_ok_iff.mp h
    rw [encode, String.toList_ofList]
    exact flatMap_of_decodeStrictFrom awaits_none hcs
  · rintro rfl
    exact decodeStrict_encode s

end JavaAtlas.Text.Utf8
