import Keyring.Key.Material
import Keyring.Proofs.Key.RsaSignature
import Keyring.Proofs.Prime
import Keyring.Proofs.Rsa.Genuine

/-!
# RSA keys whose factors are prime

The checks on a private key leave one thing to be assumed, that its factors are prime; then they say
that the factors are different and that the private exponent undoes the public one. So the private
operation of such a key gives the root of its input, and there is no other one below the modulus.
Main statement: each message has one signature, which signing gives whatever the blinding, and every
other byte string is refused.
-/

namespace Keyring

theorem Rsa.checkPrivate_eq_ok {e d p q : Nat} :
    checkPrivate e d p q = .ok () ↔ d * e % (p - 1) = 1 ∧ d * e % (q - 1) = 1 := by
  unfold checkPrivate
  split
  case isTrue h => exact ⟨fun _ => h, fun _ => rfl⟩
  case isFalse h => exact ⟨nofun, fun hboth => absurd hboth h⟩

/-- Every listed size has room for a signed block, and for the block of an empty message. -/
theorem RsaPublicKey.Checked.le_blockLength {key : RsaPublicKey} (h : key.Checked) :
    64 ≤ key.blockLength := by
  have hsize := h.size_mem
  simp only [KeyType.acceptableSizes, List.mem_cons, List.not_mem_nil, or_false] at hsize
  rw [h.blockLength_eq]
  omega

namespace RsaPrivateKey

theorem Checked.blockLength_eq {key : RsaPrivateKey} (h : key.Checked) :
    key.publicKey.blockLength = key.size / 8 := by
  rw [h.publicKey.blockLength_eq, h.size_eq]

/-! ## The private operation on blocks -/

/-- What is checked of a key, with prime factors. The factors are different, since the second one
has an inverse modulo the first. -/
theorem Checked.genuine {key : RsaPrivateKey} (h : key.Checked) (hp : key.p.Prime)
    (hq : key.q.Prime) :
    Rsa.Genuine key.publicKey.n key.publicKey.e key.d key.p key.q := by
  obtain ⟨hinverts_p, hinverts_q⟩ := Rsa.checkPrivate_eq_ok.1 h.checkPrivate
  have hne : key.p ≠ key.q := by
    intro heq
    have hinverse : key.crt.qinv * key.q % key.p = 1 := by
      have hfits := h.fits
      simp only [Rsa.CrtValues.fits, Bool.and_eq_true, beq_iff_eq] at hfits
      exact hfits.2
    rw [heq, Nat.mul_mod_left] at hinverse
    cases hinverse
  exact ⟨hp, hq, (Nat.coprime_primes hp hq).2 hne, h.mul_eq, hinverts_p, hinverts_q⟩

/-- The block that the private operation makes of a block: the power by the private exponent. -/
def root (key : RsaPrivateKey) (block : Bytes) : Bytes :=
  Bytes.ofNat key.publicKey.blockLength (Bytes.toNat block ^ key.d % key.publicKey.n)

theorem privateOp_eq_root {key : RsaPrivateKey} (h : key.Checked) (hp : key.p.Prime)
    (hq : key.q.Prime) {block : Bytes} (hblock : Bytes.toNat block < key.publicKey.n)
    (blinding : Nat) : key.privateOp blinding block = .ok (key.root block) := by
  unfold privateOp
  rw [(h.genuine hp hq).privateOp_eq h.fits hblock]
  rfl

/-- The root of a block is the only string of its length, with a number below the modulus, that the
public operation takes to the block. -/
theorem eq_root_iff {key : RsaPrivateKey} (h : key.Checked) (hp : key.p.Prime) (hq : key.q.Prime)
    {block : Bytes} (hblock : Bytes.toNat block < key.publicKey.n) (other : Bytes) :
    (other.length = key.publicKey.blockLength ∧ Bytes.toNat other < key.publicKey.n ∧
      Rsa.publicOp key.publicKey.n key.publicKey.e (Bytes.toNat other) = Bytes.toNat block) ↔
      other = key.root block := by
  have hgenuine := h.genuine hp hq
  have hroot : Bytes.toNat block ^ key.d % key.publicKey.n < key.publicKey.n :=
    Nat.mod_lt _ hgenuine.modulus_pos
  have hnumber : Bytes.toNat (key.root block) = Bytes.toNat block ^ key.d % key.publicKey.n :=
    RsaPublicKey.toNat_ofNat_blockLength hroot
  constructor
  · rintro ⟨hlength, hlt, hpublic⟩
    apply Bytes.eq_of_toNat_eq
    · rw [hlength, root, Bytes.length_ofNat]
    · rw [hnumber]
      exact (hgenuine.publicOp_eq_iff hblock hlt).1 hpublic
  · rintro rfl
    rw [hnumber]
    exact ⟨Bytes.length_ofNat _ _, hroot, (hgenuine.publicOp_eq_iff hblock hroot).2 rfl⟩

/-! ## A key with prime factors -/

/-- The key of the primes `2 ^ 227 * 3 ^ 18 + 1` and `2 ^ 175 * 3 ^ 51 + 1` with the public exponent
five. -/
def smoothFactors : RsaPrivateKey :=
  let p := 2 ^ 227 * 3 ^ 18 + 1
  let q := 2 ^ 175 * 3 ^ 51 + 1
  let d := (2 * (p - 1) * (q - 1) + 1) / 5
  { publicKey := ⟨p * q, 5, 512⟩
    d, p, q
    crt := .compute p q d
    size := 512 }

theorem obtained_smoothFactors : smoothFactors.Obtained := by
  have hpublic : RsaPublicKey.ofNumbers smoothFactors.publicKey.n 5 512 =
      .ok smoothFactors.publicKey :=
    Result.eq_ok_of_toOption (by decide +kernel)
  have hprivate : ofNumbers smoothFactors.publicKey smoothFactors.d smoothFactors.p
      smoothFactors.q smoothFactors.crt 512 = .ok smoothFactors :=
    Result.eq_ok_of_toOption (by decide +kernel)
  exact .ofNumbers (.ofNumbers hpublic) hprivate

theorem prime_p_smoothFactors : smoothFactors.p.Prime := by
  have hpred : smoothFactors.p - 1 = 2 ^ 227 * 3 ^ 18 := rfl
  have hfull : powMod 5 (smoothFactors.p - 1) smoothFactors.p = 1 := by decide +kernel
  apply Prime.prime_of_powMod hpred hfull
  · decide +kernel
  · decide +kernel

theorem prime_q_smoothFactors : smoothFactors.q.Prime := by
  have hpred : smoothFactors.q - 1 = 2 ^ 175 * 3 ^ 51 := rfl
  have hfull : powMod 15 (smoothFactors.q - 1) smoothFactors.q = 1 := by decide +kernel
  apply Prime.prime_of_powMod hpred hfull
  · decide +kernel
  · decide +kernel

/-! ## Signatures -/

/-- **A message has one signature.** For every private key that was obtained and has prime factors,
and every message: signing succeeds and gives the same signature whatever the blinding; the private
key and its public half accept that byte string and refuse every other one, of any length, without
an error. -/
theorem exists_unique_signature {key : RsaPrivateKey} (hkey : key.Obtained) (hp : key.p.Prime)
    (hq : key.q.Prime) (message : Bytes) :
    ∃ signature, (∀ blinding, key.sign blinding message = .ok signature) ∧
      ∀ half ∈ [KeyMaterial.rsaPrivate key, KeyMaterial.rsaPublic key.publicKey],
        ∃ verifier, half.verifier? = some verifier ∧
          ∀ other, verifier.verify message other = .ok (decide (other = signature)) := by
  have hchecked := hkey.checked
  have hroom : 46 ≤ key.publicKey.blockLength := by
    have hlength := hchecked.publicKey.le_blockLength
    omega
  obtain ⟨rest, hblock⟩ := Rsa.exists_signedBlock_eq_ok hroom message
  have hlt : Bytes.toNat (0 :: rest) < key.publicKey.n :=
    Rsa.toNat_lt_of_leading_zero (Rsa.length_of_signedBlock_eq_ok hblock)
  have hverify (other : Bytes) :
      key.publicKey.verify message other = decide (other = key.root (0 :: rest)) := by
    rw [Bool.eq_iff_iff, RsaPublicKey.verify_iff hblock, decide_eq_true_iff]
    exact eq_root_iff hchecked hp hq hlt other
  refine ⟨key.root (0 :: rest), ?_, ?_⟩
  · intro blinding
    apply Result.bind_eq_ok.2
    exact ⟨0 :: rest, Result.ofFault_eq_ok.2 hblock, privateOp_eq_root hchecked hp hq hlt blinding⟩
  · intro half hhalf
    rcases List.mem_pair.1 hhalf with rfl | rfl
    · exact ⟨_, rfl, fun other => congrArg Except.ok (hverify other)⟩
    · exact ⟨_, rfl, fun other => congrArg Except.ok (hverify other)⟩

/-- The text `abc` has one signature under a key of the least length. -/
theorem exists_unique_signature_abc :
    ∃ signature, (∀ blinding, smoothFactors.sign blinding [0x61, 0x62, 0x63] = .ok signature) ∧
      ∀ other, other ≠ signature →
        smoothFactors.publicKey.verify [0x61, 0x62, 0x63] other = false := by
  obtain ⟨signature, hsign, hverify⟩ := exists_unique_signature obtained_smoothFactors
    prime_p_smoothFactors prime_q_smoothFactors [0x61, 0x62, 0x63]
  refine ⟨signature, hsign, ?_⟩
  intro other hother
  obtain ⟨verifier, hverifier, hdecide⟩ := hverify _ (List.mem_cons_of_mem _ List.mem_cons_self)
  cases hverifier
  exact (Except.ok.inj (hdecide other)).trans (decide_eq_false hother)

end RsaPrivateKey

end Keyring
