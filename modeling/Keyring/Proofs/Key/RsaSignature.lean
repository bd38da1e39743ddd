import Keyring.Proofs.Key.Checked
import Keyring.Proofs.Rsa.Primitive

/-!
# RSA signatures verify

Nothing that is checked of a private key makes its factors prime, so the private operation need not
undo the public one. But a signature only leaves it after the public operation has taken it back to
the signed block. Main statement: whatever leaves a private key as a signature has the length of the
modulus and verifies, under the private key and under its public half.
-/

namespace Keyring

namespace RsaPublicKey

/-- Every listed size is a whole number of bytes, which is the length of a block. -/
theorem Checked.blockLength_eq {key : RsaPublicKey} (h : key.Checked) :
    key.blockLength = key.size / 8 := by
  have hsize := h.size_mem
  simp only [KeyType.acceptableSizes, List.mem_cons, List.not_mem_nil, or_false] at hsize
  rw [blockLength, Rsa.modulusLength, h.bitLength_n]
  omega

/-- What is accepted as a signature: a string of the length of a block that stands for a number
below the modulus, which the public operation takes to the signed block. -/
theorem verify_iff {key : RsaPublicKey} {message block signature : Bytes}
    (hblock : Rsa.signedBlock key.blockLength message = .ok block) :
    key.verify message signature = true ↔ signature.length = key.blockLength ∧
      Bytes.toNat signature < key.n ∧
      Rsa.publicOp key.n key.e (Bytes.toNat signature) = Bytes.toNat block := by
  unfold verify
  split
  case isTrue hrange =>
    refine ⟨nofun, ?_⟩
    rintro ⟨hlength, hlt, -⟩
    rcases hrange with hother | hle
    · exact absurd hlength hother
    · exact absurd hlt (Nat.not_lt_of_le hle)
  case isFalse hrange =>
    have hlength : signature.length = key.blockLength := by omega
    have hlt : Bytes.toNat signature < key.n := by omega
    have hpublic : Rsa.publicOp key.n key.e (Bytes.toNat signature) < 256 ^ key.blockLength := by
      have hmod : Rsa.publicOp key.n key.e (Bytes.toNat signature) < key.n := by
        rw [Rsa.publicOp, powMod_eq]
        exact Nat.mod_lt _ (by omega)
      exact Nat.lt_trans hmod (Rsa.lt_pow_modulusLength key.n)
    rw [hblock]
    simp only [beq_iff_eq]
    constructor
    · rintro rfl
      exact ⟨hlength, hlt, (Bytes.toNat_ofNat_of_lt hpublic).symm⟩
    · rintro ⟨-, -, hnumber⟩
      rw [hnumber]
      exact Bytes.ofNat_toNat (Rsa.length_of_signedBlock_eq_ok hblock)

theorem toNat_ofNat_blockLength {key : RsaPublicKey} {m : Nat} (h : m < key.n) :
    Bytes.toNat (Bytes.ofNat key.blockLength m) = m :=
  Bytes.toNat_ofNat_of_lt (Nat.lt_trans h (Rsa.lt_pow_modulusLength key.n))

/-- A number below the modulus, at the length of a block, is a signature when the public operation
takes it to the signed block. -/
theorem verify_ofNat {key : RsaPublicKey} {message block : Bytes} {m : Nat}
    (hblock : Rsa.signedBlock key.blockLength message = .ok block) (hlt : m < key.n)
    (hpublic : Rsa.publicOp key.n key.e m = Bytes.toNat block) :
    key.verify message (Bytes.ofNat key.blockLength m) = true := by
  rw [verify_iff hblock, toNat_ofNat_blockLength hlt]
  exact ⟨Bytes.length_ofNat _ _, hlt, hpublic⟩

end RsaPublicKey

namespace RsaPrivateKey

/-- A signature is a number below the modulus, at the length of a block, that the public operation
takes to the signed block. -/
theorem of_sign_eq_ok {key : RsaPrivateKey} {blinding : Nat} {message signature : Bytes}
    (h : key.sign blinding message = .ok signature) :
    ∃ block m, Rsa.signedBlock key.publicKey.blockLength message = .ok block ∧
      m < key.publicKey.n ∧ Rsa.publicOp key.publicKey.n key.publicKey.e m = Bytes.toNat block ∧
      signature = Bytes.ofNat key.publicKey.blockLength m := by
  obtain ⟨block, hblock, h⟩ := Result.bind_eq_ok.1 h
  obtain ⟨m, hprivate, h⟩ := Result.bind_eq_ok.1 h
  cases h
  obtain ⟨hlt, hpublic⟩ := Rsa.of_privateOp_eq_ok (Result.ofFault_eq_ok.1 hprivate)
  exact ⟨block, m, Result.ofFault_eq_ok.1 hblock, hlt, hpublic, rfl⟩

/-- **A signature that leaves a key verifies.** For every private key that was obtained, every
message and every blinding: a signature has as many bytes as the modulus, and the private key and
its public half both accept it. The factors of the key need not be prime. -/
theorem verify_of_sign {key : RsaPrivateKey} (hkey : key.Obtained) {blinding : Nat}
    {message signature : Bytes} (h : key.sign blinding message = .ok signature) :
    signature.length = key.size / 8 ∧ key.verify message signature = true ∧
      key.publicKey.verify message signature = true := by
  obtain ⟨block, m, hblock, hlt, hpublic, rfl⟩ := of_sign_eq_ok h
  have hchecked := hkey.checked
  have hverify := RsaPublicKey.verify_ofNat hblock hlt hpublic
  refine ⟨?_, hverify, hverify⟩
  rw [Bytes.length_ofNat, hchecked.publicKey.blockLength_eq, hchecked.size_eq]

/-- A key of the least length signs the text `abc`, blinded with two. -/
theorem verify_of_sign_abc :
    ∃ signature, nearPowers.sign 2 [0x61, 0x62, 0x63] = .ok signature ∧ signature.length = 64 ∧
      nearPowers.verify [0x61, 0x62, 0x63] signature = true ∧
      nearPowers.publicKey.verify [0x61, 0x62, 0x63] signature = true := by
  have hsome : (nearPowers.sign 2 [0x61, 0x62, 0x63]).toOption.isSome = true := by decide +kernel
  obtain ⟨signature, h⟩ := Option.isSome_iff_exists.1 hsome
  have hsign := Result.eq_ok_of_toOption h
  exact ⟨signature, hsign, verify_of_sign obtained_nearPowers hsign⟩

end RsaPrivateKey

end Keyring
