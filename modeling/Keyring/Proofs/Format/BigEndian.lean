import Keyring.Bytes

/-!
# Numbers and their big-endian spellings

A byte string of a given length and a number below that power of 256 determine each other. The
shortest spelling has room for its number, so it reads back as the number.
-/

namespace Keyring

theorem lt_two_pow_of_bitLength_le {n width : Nat} (h : bitLength n ≤ width) : n < 2 ^ width :=
  Nat.lt_of_lt_of_le (lt_two_pow_bitLength n) (Nat.pow_le_pow_right (by decide) h)

theorem two_pow_le_of_lt_bitLength {n k : Nat} (h : k < bitLength n) : 2 ^ k ≤ n := by
  unfold bitLength at h
  split at h
  case isTrue => omega
  case isFalse hpos =>
    have hlow : 2 ^ n.log2 ≤ n := Nat.log2_self_le hpos
    exact Nat.le_trans (Nat.pow_le_pow_right (by decide) (by omega)) hlow

theorem bitLength_eq_succ {n k : Nat} (hle : 2 ^ k ≤ n) (hlt : n < 2 ^ (k + 1)) :
    bitLength n = k + 1 := by
  apply Nat.le_antisymm
  · apply Nat.le_of_not_lt
    intro hlong
    exact Nat.not_lt_of_le (two_pow_le_of_lt_bitLength hlong) hlt
  · apply Nat.succ_le_of_lt
    apply Nat.lt_of_not_le
    intro hshort
    exact Nat.not_lt_of_le hle (lt_two_pow_of_bitLength_le hshort)

namespace Bytes

variable {width n : Nat}

theorem two_pow_eight_mul (width : Nat) : 2 ^ (8 * width) = 256 ^ width :=
  Nat.pow_mul 2 8 width

/-- Zeros in front do not count. -/
theorem toNat_replicate_zero_append (count : Nat) (bytes : Bytes) :
    toNat (List.replicate count 0 ++ bytes) = toNat bytes := by
  induction count with
  | zero => rfl
  | succ count ih =>
    rw [List.replicate_succ, List.cons_append, toNat_cons, ih, UInt8.toNat_zero, Nat.mul_zero,
      Nat.zero_add]

theorem toNat_ofNat_of_lt (h : n < 256 ^ width) : toNat (ofNat width n) = n := by
  rw [toNat_ofNat, Nat.mod_eq_of_lt h]

/-- Strings of one length that denote the same number are equal. -/
theorem eq_of_toNat_eq {a b : Bytes} (hlength : a.length = b.length) (h : toNat a = toNat b) :
    a = b := by
  induction a generalizing b with
  | nil => exact (List.eq_nil_of_length_eq_zero hlength.symm).symm
  | cons x xs ih =>
    obtain _ | ⟨y, ys⟩ := b
    · cases hlength
    · have hrest : xs.length = ys.length := Nat.succ.inj hlength
      rw [toNat_cons, toNat_cons, ← hrest] at h
      have hxs : toNat xs < 256 ^ xs.length := toNat_lt xs
      have hys : toNat ys < 256 ^ xs.length := hrest ▸ toNat_lt ys
      -- the first byte is the quotient by the power, and the rest is the remainder
      have hquotient := congrArg (· / 256 ^ xs.length) h
      have hremainder := congrArg (· % 256 ^ xs.length) h
      have hpos : 0 < 256 ^ xs.length := Nat.pow_pos (by decide)
      simp only [Nat.mul_add_div hpos, Nat.div_eq_of_lt hxs, Nat.div_eq_of_lt hys,
        Nat.add_zero] at hquotient
      simp only [Nat.mul_add_mod, Nat.mod_eq_of_lt hxs, Nat.mod_eq_of_lt hys] at hremainder
      rw [UInt8.toNat_inj.1 hquotient, ih hrest hremainder]

/-- Writing a number that was read gives the string again. -/
theorem ofNat_toNat {bytes : Bytes} (h : bytes.length = width) :
    ofNat width (toNat bytes) = bytes := by
  subst h
  apply eq_of_toNat_eq
  · exact length_ofNat ..
  · exact toNat_ofNat_of_lt (toNat_lt bytes)

/-- The shortest spelling of a number denotes it. -/
theorem toNat_minimal (n : Nat) : toNat (minimal n) = n := by
  apply toNat_ofNat_of_lt
  rw [← two_pow_eight_mul]
  apply lt_two_pow_of_bitLength_le
  omega

end Bytes

end Keyring
