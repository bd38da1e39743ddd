import Keyring.Proofs.Key.Reachable
import Keyring.Proofs.Key.RsaEnvelope
import Keyring.Proofs.Rsa.Restoring

/-!
# RSA private keys that undo their public half

Loading makes the numbers of a private key fit together, and that is less than making the key work:
the factors need not be prime, and then the private exponent need not undo the public one. Main
statement: exactly which of the keys that load have an exponent that does, and exactly which have a
private operation that does; keys of the second kind open every envelope of their public half. Keys
with prime factors are of both kinds, and a key of prime powers is of neither.
-/

namespace Keyring

/-- An envelope is a header before the payload that the seed drawn for it gives to the message. -/
theorem RsaPublicKey.of_encrypt_eq_ok {key : RsaPublicKey} {entropy : Entropy}
    {plaintext envelope : Bytes} (h : key.encrypt entropy plaintext = .ok envelope) :
    plaintext.length + Rsa.Oaep.overhead ≤ key.blockLength ∧
      ∃ seed : Bytes, seed.length = Rsa.Oaep.seedLength ∧
        envelope = Envelope.header key.keyId ++ key.payload seed plaintext := by
  unfold encrypt at h
  split at h
  case isTrue => cases h
  case isFalse hfits =>
    split at h
    case h_1 => cases h
    case h_2 seed rest hdraw =>
      cases h
      exact ⟨Nat.le_of_not_lt hfits, seed, (Entropy.eq_append_of_draw? hdraw).2, rfl⟩

namespace RsaPrivateKey

variable {key : RsaPrivateKey}

/-! ## The numbers of a key that was checked -/

theorem Checked.joins (h : key.Checked) : Rsa.Joins key.publicKey.n key.p key.q key.crt :=
  ⟨h.one_lt_p, h.one_lt_q, h.mul_eq, h.wellFormed.qinv_mul⟩

/-- A positive exponent makes more than one of a public exponent. -/
theorem Checked.one_lt_e_mul (h : key.Checked) {d : Nat} (hd : d ≠ 0) :
    1 < key.publicKey.e * d := by
  have he : 3 ≤ key.publicKey.e := h.publicKey.wellFormed.three_le_e
  calc 1 < 3 * 1 := by decide
    _ ≤ key.publicKey.e * d := Nat.mul_le_mul he (Nat.pos_of_ne_zero hd)

theorem Checked.dp_ne_zero (h : key.Checked) : key.crt.dp ≠ 0 := by
  rw [h.wellFormed.dp_eq]
  exact Rsa.mod_pred_ne_zero (Rsa.checkPrivate_eq_ok.1 h.checkPrivate).1

theorem Checked.dq_ne_zero (h : key.Checked) : key.crt.dq ≠ 0 := by
  rw [h.wellFormed.dq_eq]
  exact Rsa.mod_pred_ne_zero (Rsa.checkPrivate_eq_ok.1 h.checkPrivate).2

theorem Checked.d_ne_zero (h : key.Checked) : key.d ≠ 0 := by
  intro hd
  apply h.dp_ne_zero
  rw [h.wellFormed.dp_eq, hd, Nat.zero_mod]

/-! ## Opening -/

/-- Where the private operation undoes the public one, envelopes open. -/
theorem decrypt_of_encrypt_of_undone
    (hundone : ∀ m, m < key.publicKey.n → ∀ blinding,
      Rsa.privateOp key.publicKey.n key.publicKey.e key.p key.q key.crt blinding
        (Rsa.publicOp key.publicKey.n key.publicKey.e m) = .ok m)
    {entropy : Entropy} {plaintext envelope : Bytes}
    (h : key.publicKey.encrypt entropy plaintext = .ok envelope) (blinding : Nat) :
    key.decrypt blinding envelope = .ok plaintext := by
  obtain ⟨hfits, seed, hseed, rfl⟩ := RsaPublicKey.of_encrypt_eq_ok h
  have hheader := Envelope.length_header key.publicKey.keyId
  have hlength := Rsa.Oaep.length_encode hseed hfits
  have hlt := RsaPublicKey.toNat_encode_lt hseed hfits
  have hpayload : Bytes.toNat (key.publicKey.payload seed plaintext) =
      Rsa.publicOp key.publicKey.n key.publicKey.e
        (Bytes.toNat (Rsa.Oaep.encode key.publicKey.blockLength seed plaintext)) :=
    RsaPublicKey.toNat_ofNat_blockLength (Rsa.publicOp_lt (Nat.zero_lt_of_lt hlt) _ _)
  apply decrypt_eq_ok_iff_block.2
  constructor
  · rw [List.length_append, hheader, RsaPublicKey.payload, Bytes.length_ofNat]
  · rw [List.drop_left' hheader]
    refine ⟨Rsa.Oaep.encode key.publicKey.blockLength seed plaintext, ?_, ?_⟩
    · unfold privateOp
      rw [hpayload, hundone _ hlt blinding]
      exact congrArg Except.ok (Bytes.ofNat_toNat hlength)
    · exact (Rsa.Oaep.decode?_eq_some_iff hlength).2 ⟨hfits, seed, hseed, rfl⟩

/-! ## Keys that undo their public half -/

/-- **When a private key undoes its public half.** For every private key that was obtained: its
exponent undoes the public one on every residue just when no square divides the modulus and each of
its prime factors, less one, divides what the product of the exponents exceeds one by. Its private
operation does so, whatever the blinding, just when the same holds of each factor and the exponent
reduced for it, and then every envelope that its public half seals opens. All of it holds if the
factors are prime. -/
theorem undoes_publicHalf_iff {key : RsaPrivateKey} (hkey : key.Obtained) :
    ((∀ m, m < key.publicKey.n → (m ^ key.publicKey.e) ^ key.d % key.publicKey.n = m) ↔
      Rsa.Restores key.publicKey.n (key.publicKey.e * key.d)) ∧
    ((∀ m, m < key.publicKey.n → ∀ blinding,
        Rsa.privateOp key.publicKey.n key.publicKey.e key.p key.q key.crt blinding
          (Rsa.publicOp key.publicKey.n key.publicKey.e m) = .ok m) ↔
      Rsa.Restores key.p (key.publicKey.e * key.crt.dp) ∧
        Rsa.Restores key.q (key.publicKey.e * key.crt.dq)) ∧
    (Rsa.Restores key.p (key.publicKey.e * key.crt.dp) →
      Rsa.Restores key.q (key.publicKey.e * key.crt.dq) →
      ∀ entropy plaintext envelope, key.publicKey.encrypt entropy plaintext = .ok envelope →
        ∀ blinding, key.decrypt blinding envelope = .ok plaintext) ∧
    (key.p.Prime → key.q.Prime →
      Rsa.Restores key.publicKey.n (key.publicKey.e * key.d) ∧
        Rsa.Restores key.p (key.publicKey.e * key.crt.dp) ∧
        Rsa.Restores key.q (key.publicKey.e * key.crt.dq)) := by
  have hchecked := hkey.checked
  have hwell := hchecked.wellFormed
  have hjoins := hchecked.joins
  have hpos : 0 < key.publicKey.n := Nat.zero_lt_of_lt hjoins.one_lt_modulus
  have hexponent := Rsa.forall_pow_modEq_self_iff (n := key.publicKey.n)
    (hchecked.one_lt_e_mul hchecked.d_ne_zero)
  have hoperation := Rsa.forall_privateOp_publicOp_iff hjoins
    (hchecked.one_lt_e_mul hchecked.dp_ne_zero) (hchecked.one_lt_e_mul hchecked.dq_ne_zero)
  refine ⟨?_, hoperation, ?_, ?_⟩
  · rw [← hexponent, ← Rsa.forall_lt_pow_mod_eq_iff hpos]
    simp only [pow_mul]
  · intro hp hq entropy plaintext envelope h
    exact decrypt_of_encrypt_of_undone (hoperation.2 ⟨hp, hq⟩) h
  · intro hp hq
    have hgenuine := hchecked.genuine hp hq
    refine ⟨hexponent.1 fun x => ?_, .of_prime hp ?_, .of_prime hq ?_⟩
    · rw [mul_comm]
      exact hgenuine.pow_modEq x
    · rw [hwell.dp_eq]
      exact ((Nat.mod_modEq _ _).mul_left _).trans hwell.inverts_p
    · rw [hwell.dq_eq]
      exact ((Nat.mod_modEq _ _).mul_left _).trans hwell.inverts_q

/-- A key with prime factors undoes its public half, on residues and on envelopes. -/
theorem undoes_publicHalf_iff_smoothFactors :
    (∀ m, m < smoothFactors.publicKey.n →
      (m ^ smoothFactors.publicKey.e) ^ smoothFactors.d % smoothFactors.publicKey.n = m) ∧
    ∀ entropy plaintext envelope,
      smoothFactors.publicKey.encrypt entropy plaintext = .ok envelope →
        ∀ blinding, smoothFactors.decrypt blinding envelope = .ok plaintext := by
  obtain ⟨hexponent, -, hopens, hprime⟩ := undoes_publicHalf_iff obtained_smoothFactors
  obtain ⟨hn, hp, hq⟩ := hprime prime_p_smoothFactors prime_q_smoothFactors
  exact ⟨hexponent.2 hn, hopens hp hq⟩

/-! ## A key that does not -/

/-- The key of the factors `3 ^ 160` and `5 ^ 111` with the public exponent three. -/
def primePowers : RsaPrivateKey :=
  let p := 3 ^ 160
  let q := 5 ^ 111
  let d := ((p - 1) * (q - 1) + 1) / 3
  { publicKey := ⟨p * q, 3, 512⟩
    d, p, q
    crt := ⟨d % (p - 1), d % (q - 1), powMod q (2 * 3 ^ 159 - 1) p⟩
    size := 512 }

theorem obtained_primePowers : primePowers.Obtained := by
  have hpublic : RsaPublicKey.ofNumbers primePowers.publicKey.n 3 512 = .ok primePowers.publicKey :=
    Result.eq_ok_of_toOption (by decide +kernel)
  have hprivate : ofNumbers primePowers.publicKey primePowers.d primePowers.p primePowers.q
      primePowers.crt 512 = .ok primePowers :=
    Result.eq_ok_of_toOption (by decide +kernel)
  exact .ofNumbers (.ofNumbers hpublic) hprivate

/-- The key loads, and neither its exponent gives two back nor does it open the envelope of a text
that its public half sealed. -/
theorem primePowers_not_undoing :
    primePowers.Obtained ∧
    (2 < primePowers.publicKey.n ∧
      (2 ^ primePowers.publicKey.e) ^ primePowers.d % primePowers.publicKey.n ≠ 2) ∧
    ∃ envelope,
      primePowers.publicKey.encrypt (List.replicate 20 0x17) [0x61, 0x62, 0x63] = .ok envelope ∧
        primePowers.decrypt 2 envelope ≠ .ok [0x61, 0x62, 0x63] := by
  refine ⟨obtained_primePowers, ⟨by decide +kernel, ?_⟩, ?_⟩
  · rw [← powMod_eq]
    decide +kernel
  · have hsome : (primePowers.publicKey.encrypt (List.replicate 20 0x17)
        [0x61, 0x62, 0x63]).toOption.isSome = true := by decide +kernel
    have hrefused : ((primePowers.publicKey.encrypt (List.replicate 20 0x17)
        [0x61, 0x62, 0x63]).bind (primePowers.decrypt 2)).toOption = none := by decide +kernel
    obtain ⟨envelope, h⟩ := Option.isSome_iff_exists.1 hsome
    have hseal := Result.eq_ok_of_toOption h
    refine ⟨envelope, hseal, ?_⟩
    intro hopen
    rw [hseal] at hrefused
    rw [Except.bind, hopen] at hrefused
    cases hrefused

end RsaPrivateKey

end Keyring
