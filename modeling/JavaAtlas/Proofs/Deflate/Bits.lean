import Mathlib.Algebra.GroupWithZero.Nat
import JavaAtlas.Deflate.Block

/-!
# Bits, numbers and octets

Numbers and bits turn into each other without loss.  Octets made of bits give the
bits back, with the zeros that filled up the last octet.

Main results:

- Theorem `valueOf_bitsOf`, theorem `bitsOf_valueOf`: numbers of bits and bits of
  numbers.
- Theorem `unpack_pack`: bits that went into octets come back, filled up.
- Theorem `pack_unpack`: octets that were taken apart come back.
- Theorem `takeNumber_bitsOf`: a number that was written is taken from the front.
-/

namespace JavaAtlas.Deflate

@[simp]
theorem length_bitsOf (k n : Nat) : (bitsOf k n).length = k := by
  induction k generalizing n with
  | zero => rfl
  | succ k ih => simp [bitsOf, ih]

/-- Bits beyond the places of a number are left out. -/
theorem valueOf_bitsOf (k n : Nat) : valueOf (bitsOf k n) = n % 2 ^ k := by
  induction k generalizing n with
  | zero => simp [bitsOf, valueOf, Nat.mod_one]
  | succ k ih =>
      have hbit : (if (n % 2 == 1) = true then 1 else 0) = n % 2 := by
        rcases Nat.mod_two_eq_zero_or_one n with h | h <;> simp [h]
      rw [bitsOf, valueOf, ih, hbit, Nat.pow_succ', Nat.mod_mul]

theorem valueOf_lt (bs : List Bool) : valueOf bs < 2 ^ bs.length := by
  induction bs with
  | nil => simp [valueOf]
  | cons b bs ih =>
      have hbit : (if b = true then 1 else 0) ≤ 1 := by split <;> omega
      rw [valueOf, List.length_cons, Nat.pow_succ']
      omega

private theorem valueOf_cons_mod (b : Bool) (bs : List Bool) :
    (valueOf (b :: bs) % 2 == 1) = b := by
  cases b <;> simp [valueOf]

private theorem valueOf_cons_div (b : Bool) (bs : List Bool) :
    valueOf (b :: bs) / 2 = valueOf bs := by
  cases b with
  | false => simp [valueOf]
  | true =>
      simp [valueOf]
      omega

/-- The number of bits has these bits, and zeros above them. -/
theorem bitsOf_valueOf (bs : List Bool) (k : Nat) :
    bitsOf (bs.length + k) (valueOf bs) = bs ++ List.replicate k false := by
  induction bs with
  | nil =>
      induction k with
      | zero => rfl
      | succ k ih => simpa [bitsOf, valueOf, List.replicate_succ] using ih
  | cons b bs ih =>
      rw [List.length_cons, Nat.add_right_comm, bitsOf, valueOf_cons_mod, valueOf_cons_div, ih,
        List.cons_append]

/-! ## Octets -/

/-- The bits of an octet that was made of at most eight bits. -/
theorem bitsOf_ofNat_valueOf {bs : List Bool} (h : bs.length ≤ 8) :
    bitsOf 8 (UInt8.ofNat (valueOf bs)).toNat = bs ++ List.replicate (8 - bs.length) false := by
  have hlt : valueOf bs < 256 := Nat.lt_of_lt_of_le (valueOf_lt bs)
    (Nat.pow_le_pow_right (by decide) h)
  rw [UInt8.toNat_ofNat_of_lt' hlt, ← bitsOf_valueOf, Nat.add_sub_cancel' h]

theorem unpack_cons (b : UInt8) (octets : List UInt8) :
    unpack (b :: octets) = bitsOf 8 b.toNat ++ unpack octets :=
  List.flatMap_cons

theorem unpack_append (xs ys : List UInt8) : unpack (xs ++ ys) = unpack xs ++ unpack ys :=
  List.flatMap_append

@[simp]
theorem length_unpack (octets : List UInt8) : (unpack octets).length = 8 * octets.length := by
  induction octets with
  | nil => rfl
  | cons b octets ih =>
      rw [unpack_cons, List.length_append, length_bitsOf, ih, List.length_cons]
      omega

/-- Bits that went into octets come back, with the zeros that fill up the last octet. -/
theorem unpack_pack (bits : List Bool) : unpack (pack bits) = bits ++ filling bits.length := by
  fun_induction pack bits with
  | case1 b0 b1 b2 b3 b4 b5 b6 b7 rest ih =>
      have hfilling : filling (rest.length + 8) = filling rest.length := by
        simp [filling, Nat.add_mod_right]
      rw [unpack_cons, bitsOf_ofNat_valueOf (by simp), ih]
      simp [hfilling]
  | case2 => rfl
  | case3 bs hlong hne =>
      have hlength : bs.length < 8 := by
        rcases bs with
          _ | ⟨b0, _ | ⟨b1, _ | ⟨b2, _ | ⟨b3, _ | ⟨b4, _ | ⟨b5, _ | ⟨b6, _ | ⟨b7, rest⟩⟩⟩⟩⟩⟩⟩⟩
        case cons.cons.cons.cons.cons.cons.cons.cons =>
          exact (hlong b0 b1 b2 b3 b4 b5 b6 b7 rest rfl).elim
        all_goals simp
      have hpos : 0 < bs.length := List.length_pos_iff.mpr hne
      rw [unpack_cons, bitsOf_ofNat_valueOf (by omega)]
      have hfilling : (8 - bs.length % 8) % 8 = 8 - bs.length := by omega
      simp [filling, hfilling, unpack]

/-- Octets that were taken apart come back. -/
theorem pack_unpack (octets : List UInt8) : pack (unpack octets) = octets := by
  induction octets with
  | nil => rfl
  | cons b octets ih =>
      have hvalue : valueOf (bitsOf 8 b.toNat) = b.toNat := by
        rw [valueOf_bitsOf]
        exact Nat.mod_eq_of_lt b.toNat_lt
      rw [unpack_cons]
      change UInt8.ofNat (valueOf (bitsOf 8 b.toNat)) :: pack (unpack octets) = _
      rw [hvalue, ih, UInt8.ofNat_toNat]

/-! ## Numbers at the front -/

/-- A number that was written in enough bits is taken from the front. -/
theorem takeNumber_bitsOf {k n : Nat} (h : n < 2 ^ k) (rest : List Bool) :
    takeNumber k (bitsOf k n ++ rest) = some (n, rest) := by
  have htake : (bitsOf k n ++ rest).take k = bitsOf k n := by
    rw [List.take_append_of_le_length (by simp), List.take_of_length_le (by simp)]
  have hdrop : (bitsOf k n ++ rest).drop k = rest := by
    rw [List.drop_append_of_le_length (by simp), List.drop_of_length_le (by simp), List.nil_append]
  simp [takeNumber, htake, hdrop, valueOf_bitsOf, Nat.mod_eq_of_lt h]

end JavaAtlas.Deflate
