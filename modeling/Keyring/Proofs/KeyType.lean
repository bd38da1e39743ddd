import Keyring.KeyType

/-!
# Sizes are listed or refused

A size that is not listed is refused, and a byte length is judged by eight times it as a number
without bounds. A machine holds lengths in words. Multiplying there gives the same answer, since the
product is made only where it fits its word.
-/

namespace Keyring.KeyType

variable {keyType : KeyType} {bits length : Nat}

theorem checkSize_of_not_mem (h : bits ∉ keyType.acceptableSizes) :
    keyType.checkSize bits = .error .invalidKeySize :=
  if_neg fun hmem => h (List.contains_iff_mem.1 hmem)

/-- What comes behind the check of a size is only done for listed sizes. -/
theorem checkSize_bind {α : Type} (keyType : KeyType) (bits : Nat) (f : Unit → Result α) :
    keyType.checkSize bits >>= f =
      if bits ∈ keyType.acceptableSizes then f () else .error .invalidKeySize := by
  split
  case isTrue h =>
    rw [checkSize_eq_ok.2 h]
    rfl
  case isFalse h =>
    rw [checkSize_of_not_mem h]
    rfl

theorem checkSize_bind_of_not_mem {α : Type} (h : bits ∉ keyType.acceptableSizes)
    {f : Unit → Result α} : keyType.checkSize bits >>= f = .error .invalidKeySize := by
  rw [checkSize_bind, if_neg h]

/-- What fails by its size does so whether the size is listed or not. -/
theorem checkSize_bind_eq_error {α : Type} {f : Unit → Result α}
    (h : f () = .error .invalidKeySize) :
    keyType.checkSize bits >>= f = .error .invalidKeySize := by
  rw [checkSize_bind, h, ite_self]

theorem checkByteLength_eq (keyType : KeyType) (length : Nat) :
    keyType.checkByteLength length = keyType.checkSize (8 * length) := by
  unfold checkByteLength
  split
  case isTrue => rfl
  case isFalse h =>
    exact (checkSize_of_not_mem fun hmem => h (lt_of_mem_acceptableSizes hmem)).symm

/-! ## Lengths in machine words -/

/-- The product of two words, if it fits a word. -/
def mulWord? (a b : UInt32) : Option UInt32 :=
  if a.toNat * b.toNat < 2 ^ 32 then some (a * b) else none

/-- Checks a byte length in words: it is narrowed to 32 bits and multiplied there, and refused where
one of the two is not possible. -/
def checkWordLength (keyType : KeyType) (length : UInt64) : Result Unit :=
  if length.toNat < 2 ^ 32 then
    match mulWord? length.toUInt32 8 with
    | some bits => keyType.checkSize bits.toNat
    | none => .error .invalidKeySize
  else .error .invalidKeySize

theorem toNat_of_mulWord? {a b c : UInt32} (h : mulWord? a b = some c) :
    c.toNat = a.toNat * b.toNat := by
  rw [mulWord?] at h
  split at h
  case isTrue hlt =>
    cases h
    rw [UInt32.toNat_mul, Nat.mod_eq_of_lt hlt]
  case isFalse => cases h

/-- In words no length is taken for another one. -/
theorem checkWordLength_eq (keyType : KeyType) (length : UInt64) :
    keyType.checkWordLength length = keyType.checkByteLength length.toNat := by
  unfold checkWordLength checkByteLength
  by_cases hnarrow : length.toNat < 2 ^ 32
  · have hword : length.toUInt32.toNat = length.toNat := by
      rw [UInt64.toNat_toUInt32, Nat.mod_eq_of_lt hnarrow]
    rw [if_pos hnarrow]
    cases hbits : mulWord? length.toUInt32 8 with
    | some bits =>
      have hproduct : bits.toNat = 8 * length.toNat := by
        rw [toNat_of_mulWord? hbits, hword, Nat.mul_comm]
        rfl
      have hlt : bits.toNat < 2 ^ 32 := bits.toNat_lt
      rw [hproduct] at hlt
      rw [if_pos hlt, ← hproduct]
    | none =>
      rw [mulWord?, hword, Nat.mul_comm] at hbits
      split at hbits
      case isTrue => cases hbits
      case isFalse h => exact (if_neg h).symm
  · rw [if_neg hnarrow, if_neg (by omega)]

end Keyring.KeyType
