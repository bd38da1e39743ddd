import Keyring.Proofs.Format.BigEndian
import Keyring.Rsa.Signature

/-!
# What leaves the private operation, and what enters it

The private operation recomputes its input from its answer and reduces its answer by the modulus. So
whatever the factors are, prime or not, and whatever the blinding, an answer that leaves it is a
number below the modulus that the public operation takes back to the input. What enters it is a
block of the length of the modulus, whose zero at the front keeps its number below the modulus.
-/

namespace Keyring.Rsa

theorem of_privateOp_eq_ok {n e p q blinding c m : Nat} {values : CrtValues}
    (h : privateOp n e p q values blinding c = .ok m) : m < n ∧ publicOp n e m = c := by
  unfold privateOp at h
  split at h
  case isTrue => cases h
  case isFalse hlt =>
    have hpos : 0 < n := by omega
    simp only at h
    split at h
    case isTrue hcheck =>
      cases h
      exact ⟨Nat.mod_lt _ hpos, hcheck⟩
    case isFalse => cases h

theorem lt_pow_modulusLength (n : Nat) : n < 256 ^ modulusLength n := by
  rw [← Bytes.two_pow_eight_mul]
  apply lt_two_pow_of_bitLength_le
  unfold modulusLength
  omega

theorem pow_le_of_lt_modulusLength {n k : Nat} (h : k < modulusLength n) : 256 ^ k ≤ n := by
  rw [← Bytes.two_pow_eight_mul]
  apply two_pow_le_of_lt_bitLength
  unfold modulusLength at h
  omega

/-- A block of the length of the modulus that begins with zero is a number below the modulus. -/
theorem toNat_lt_of_leading_zero {n : Nat} {rest : Bytes}
    (h : (0 :: rest).length = modulusLength n) : Bytes.toNat (0 :: rest) < n := by
  have hshort : rest.length < modulusLength n := by
    rw [← h, List.length_cons]
    omega
  calc Bytes.toNat (0 :: rest) = Bytes.toNat rest := by
        rw [Bytes.toNat_cons, UInt8.toNat_zero, Nat.mul_zero, Nat.zero_add]
    _ < 256 ^ rest.length := Bytes.toNat_lt rest
    _ ≤ n := pow_le_of_lt_modulusLength hshort

/-- A modulus of at least 46 bytes has room for the block of any message. -/
theorem exists_signedBlock_eq_ok {length : Nat} (h : 46 ≤ length) (message : Bytes) :
    ∃ rest, signedBlock length message = .ok (0 :: rest) := by
  have hroom : ¬ length < (digestHeader ++ Sha1.digest message).length + 11 := by
    rw [List.length_append, Sha1.length_digest]
    simp only [digestHeader, List.length_cons, List.length_nil, Sha1.digestLength]
    omega
  unfold signedBlock
  simp only
  rw [if_neg hroom]
  exact ⟨_, rfl⟩

/-- A block that is signed has the length of the modulus. -/
theorem length_of_signedBlock_eq_ok {length : Nat} {message block : Bytes}
    (h : signedBlock length message = .ok block) : block.length = length := by
  unfold signedBlock at h
  simp only at h
  split at h
  case isTrue => cases h
  case isFalse hlength =>
    cases h
    simp only [List.cons_append, List.length_cons, List.length_append, List.length_replicate]
      at hlength ⊢
    omega

end Keyring.Rsa
