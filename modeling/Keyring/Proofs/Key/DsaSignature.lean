import Keyring.Proofs.Dsa.Primitive
import Keyring.Proofs.Format.Der
import Keyring.Proofs.Key.Checked
import Keyring.Proofs.Prime

/-!
# DSA signatures verify

A private key is only admitted with the public number that its secret exponent makes. What stays
unchecked is that the order is a prime and that the generator has it. Main statement: for keys of
which both are true, whatever leaves the private key as a signature spells two numbers below the
order, and verifies under the private key and under its public half.
-/

namespace Keyring

theorem DsaPublicKey.Checked.one_lt_q {key : DsaPublicKey} (h : key.Checked) :
    1 < key.numbers.q := by
  have hlength : 159 < bitLength key.numbers.q := by
    rw [h.bitLength_q]
    decide
  calc 1 < 2 ^ 159 := by decide
    _ ≤ key.numbers.q := two_pow_le_of_lt_bitLength hlength

namespace DsaPrivateKey

/-- A signature spells the pair made with the secret number that was drawn for it. -/
theorem exists_secret_of_sign_eq_ok {key : DsaPrivateKey} {entropy : Entropy}
    {message signature : Bytes} (h : key.sign entropy message = .ok signature) :
    ∃ k inverse r s,
      Dsa.secret? key.publicKey.numbers.q (entropy.length / Dsa.attemptLength) entropy =
        some (k, inverse) ∧
      Dsa.signWith? key.publicKey.numbers key.x (Bytes.toNat (Sha1.digest message)) k inverse =
        some (r, s) ∧
      signature = Der.writePair r s := by
  unfold sign at h
  simp only at h
  split at h
  case h_1 => cases h
  case h_2 k inverse hsecret =>
    split at h
    case h_1 => cases h
    case h_2 r s hpair =>
      cases h
      exact ⟨k, inverse, r, s, hsecret, hpair, rfl⟩

/-- The secret number has an inverse. -/
theorem of_sign_eq_ok {key : DsaPrivateKey} {entropy : Entropy} {message signature : Bytes}
    (h : key.sign entropy message = .ok signature) :
    ∃ k inverse r s, inverseMod? k key.publicKey.numbers.q = some inverse ∧
      Dsa.signWith? key.publicKey.numbers key.x (Bytes.toNat (Sha1.digest message)) k inverse =
        some (r, s) ∧
      signature = Der.writePair r s := by
  obtain ⟨k, inverse, r, s, hsecret, hpair, hspelling⟩ := exists_secret_of_sign_eq_ok h
  exact ⟨k, inverse, r, s, Dsa.of_secret?_eq_some hsecret, hpair, hspelling⟩

/-- The order has 160 bits, so that numbers below it are short enough to be read back. -/
theorem Checked.readPair?_writePair {key : DsaPrivateKey} (hkey : key.Checked) {r s : Nat}
    (hr : 0 < r ∧ r < key.publicKey.numbers.q) (hs : 0 < s ∧ s < key.publicKey.numbers.q) :
    Der.readPair? (Der.writePair r s) = some (r, s) := by
  have horder : key.publicKey.numbers.q < 256 ^ 20 :=
    lt_two_pow_of_bitLength_le (Nat.le_of_eq hkey.publicKey.bitLength_q)
  exact Der.readPair?_writePair (by decide) ⟨hr.1, Nat.lt_trans hr.2 horder⟩
    ⟨hs.1, Nat.lt_trans hs.2 horder⟩

/-! ## A key with a prime order -/

/-- The key with secret exponent three for the order `2 ^ 77 * 3 ^ 52 + 1`. The generator is the
power of two by what the order leaves of the predecessor of the modulus. -/
def smoothOrder : DsaPrivateKey :=
  let q := 2 ^ 77 * 3 ^ 52 + 1
  let cofactor := 2 ^ 828 * 3 ^ 23
  let p := cofactor * q + 1
  let g := powMod 2 cofactor p
  { publicKey := ⟨⟨p, q, g, powMod g 3 p⟩, 1024⟩
    x := 3
    size := 1024 }

theorem ofNumbers_publicKey_smoothOrder :
    DsaPublicKey.ofNumbers smoothOrder.publicKey.numbers 1024 = .ok smoothOrder.publicKey :=
  Result.eq_ok_of_toOption (by decide +kernel)

theorem ofNumbers_smoothOrder : ofNumbers smoothOrder.publicKey 3 1024 = .ok smoothOrder :=
  Result.eq_ok_of_toOption (by decide +kernel)

theorem obtained_smoothOrder : smoothOrder.Obtained :=
  .ofNumbers (.ofNumbers ofNumbers_publicKey_smoothOrder) ofNumbers_smoothOrder

theorem prime_q_smoothOrder : smoothOrder.publicKey.numbers.q.Prime := by
  have hpred : smoothOrder.publicKey.numbers.q - 1 = 2 ^ 77 * 3 ^ 52 := rfl
  have hfull : powMod 5 (smoothOrder.publicKey.numbers.q - 1) smoothOrder.publicKey.numbers.q = 1 :=
    by decide +kernel
  apply Prime.prime_of_powMod hpred hfull
  · decide +kernel
  · decide +kernel

theorem pow_q_smoothOrder :
    smoothOrder.publicKey.numbers.g ^ smoothOrder.publicKey.numbers.q ≡ 1
      [MOD smoothOrder.publicKey.numbers.p] :=
  pow_modEq_of_powMod_eq (by decide +kernel)

/-! ## Signatures -/

/-- **What a key signs verifies.** For every private key that was obtained, whose order is a prime
that the generator has as its order, every message and every supply of random bytes: a signature is
the spelling of two positive numbers below the order, reads back as them, and is accepted by the
private key and by its public half. The modulus need not be prime. -/
theorem sign_spells_and_verifies {key : DsaPrivateKey} (hkey : key.Obtained)
    (hq : key.publicKey.numbers.q.Prime)
    (hg : key.publicKey.numbers.g ^ key.publicKey.numbers.q ≡ 1 [MOD key.publicKey.numbers.p])
    {entropy : Entropy} {message signature : Bytes}
    (h : key.sign entropy message = .ok signature) :
    (∃ r s, (1 ≤ r ∧ r < key.publicKey.numbers.q) ∧ (1 ≤ s ∧ s < key.publicKey.numbers.q) ∧
      signature = Der.writePair r s ∧ Der.readPair? signature = some (r, s)) ∧
    key.verify message signature = .ok true ∧
    key.publicKey.verify message signature = .ok true := by
  obtain ⟨k, inverse, r, s, hinverse, hpair, rfl⟩ := of_sign_eq_ok h
  have hchecked := hkey.checked
  obtain ⟨-, -, hr, hs⟩ := Dsa.of_signWith?_eq_some hq.pos hpair
  have hread := hchecked.readPair?_writePair hr hs
  have hy : key.publicKey.numbers.y ≡ key.publicKey.numbers.g ^ key.x
      [MOD key.publicKey.numbers.p] := by
    rw [← hchecked.powMod_eq, powMod_eq]
    exact Nat.mod_modEq _ _
  have hverify : key.publicKey.verify message (Der.writePair r s) = .ok true := by
    unfold DsaPublicKey.verify
    rw [hread]
    exact congrArg Except.ok (Dsa.verify_of_signWith hq hg hy hinverse hpair)
  exact ⟨⟨r, s, hr, hs, rfl, hread⟩, hverify, hverify⟩

/-- The text `abc`, signed with a supply of 32 bytes that are all one. -/
theorem sign_spells_and_verifies_abc :
    ∃ signature, smoothOrder.sign (List.replicate 32 1) [0x61, 0x62, 0x63] = .ok signature ∧
      (∃ r s, (1 ≤ r ∧ r < smoothOrder.publicKey.numbers.q) ∧
        (1 ≤ s ∧ s < smoothOrder.publicKey.numbers.q) ∧
        signature = Der.writePair r s ∧ Der.readPair? signature = some (r, s)) ∧
      smoothOrder.verify [0x61, 0x62, 0x63] signature = .ok true ∧
      smoothOrder.publicKey.verify [0x61, 0x62, 0x63] signature = .ok true := by
  have hsome : (smoothOrder.sign (List.replicate 32 1) [0x61, 0x62, 0x63]).toOption.isSome =
      true := by decide +kernel
  obtain ⟨signature, h⟩ := Option.isSome_iff_exists.1 hsome
  have hsign := Result.eq_ok_of_toOption h
  exact ⟨signature, hsign, sign_spells_and_verifies obtained_smoothOrder prime_q_smoothOrder
    pow_q_smoothOrder hsign⟩

end DsaPrivateKey

end Keyring
