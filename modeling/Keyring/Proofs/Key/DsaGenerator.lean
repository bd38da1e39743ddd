import Keyring.Proofs.Dsa.Generator
import Keyring.Proofs.Key.DsaSignature
import Keyring.Proofs.Key.Reachable

/-!
# DSA keys and the order of their generator

Loading a private key checks that the generator makes the public number, and that the order takes
the public number to one. Neither that the order takes the generator to one is checked, nor that it
is a prime. Main statements: exactly which of its own signatures a key accepts, with two keys that
load and refuse one; and that both unchecked properties together make the secret exponent the only
one that its public half loads with.
-/

namespace Keyring

namespace DsaPrivateKey

variable {key : DsaPrivateKey}

theorem Checked.y_modEq (h : key.Checked) : key.publicKey.numbers.y ≡
    key.publicKey.numbers.g ^ key.x [MOD key.publicKey.numbers.p] := by
  rw [h.wellFormed.y_eq]
  exact Nat.mod_modEq _ _

/-! ## Own signatures -/

/-- What the checks leave of the generator: its power by the order is a root of one, of the degree
of the secret exponent. -/
theorem Checked.pow_pow_x (h : key.Checked) :
    (key.publicKey.numbers.g ^ key.publicKey.numbers.q) ^ key.x ≡ 1
      [MOD key.publicKey.numbers.p] := by
  calc (key.publicKey.numbers.g ^ key.publicKey.numbers.q) ^ key.x
      = (key.publicKey.numbers.g ^ key.x) ^ key.publicKey.numbers.q := pow_right_comm _ _ _
    _ ≡ key.publicKey.numbers.y ^ key.publicKey.numbers.q [MOD key.publicKey.numbers.p] :=
      (h.y_modEq.pow _).symm
    _ ≡ 1 [MOD key.publicKey.numbers.p] := h.publicKey.wellFormed.pow_eq_one

/-- **When a key accepts what it signs.** For every private key that was obtained, every message and
every supply of random bytes: a signature is a pair `r` and `s` made with the secret number `k` that
was drawn, and the key and its public half give the same answer on it, which is never an error. They
accept it just when `s` has an inverse modulo the order and the turns of the exponents beyond the
order leave the power by `k` as it is. If the order takes the generator to one, then it is just the
inverse that is needed; if the order is a prime besides, then there always is one. -/
theorem accepts_own_signature_iff {key : DsaPrivateKey} (hkey : key.Obtained) {entropy : Entropy}
    {message signature : Bytes} (h : key.sign entropy message = .ok signature) :
    (key.publicKey.numbers.g ^ key.publicKey.numbers.q) ^ key.x ≡ 1
      [MOD key.publicKey.numbers.p] ∧
    ∃ k inverse r s accepted,
      Dsa.secret? key.publicKey.numbers.q (entropy.length / Dsa.attemptLength) entropy =
        some (k, inverse) ∧
      (1 ≤ k ∧ k < key.publicKey.numbers.q) ∧
      r = key.publicKey.numbers.g ^ k % key.publicKey.numbers.p % key.publicKey.numbers.q ∧
      signature = Der.writePair r s ∧
      key.verify message signature = .ok accepted ∧
      key.publicKey.verify message signature = .ok accepted ∧
      (accepted = true ↔ ∃ w, w < key.publicKey.numbers.q ∧
        s * w ≡ 1 [MOD key.publicKey.numbers.q] ∧
        key.publicKey.numbers.g ^ (k + key.publicKey.numbers.q *
          Dsa.turns key.publicKey.numbers.q key.x (Bytes.toNat (Sha1.digest message)) r w) %
          key.publicKey.numbers.p % key.publicKey.numbers.q = r) ∧
      (key.publicKey.numbers.g ^ key.publicKey.numbers.q ≡ 1 [MOD key.publicKey.numbers.p] →
        (accepted = true ↔ Nat.Coprime s key.publicKey.numbers.q)) ∧
      (key.publicKey.numbers.g ^ key.publicKey.numbers.q ≡ 1 [MOD key.publicKey.numbers.p] →
        key.publicKey.numbers.q.Prime → accepted = true) := by
  obtain ⟨k, inverse, r, s, hsecret, hpair, rfl⟩ := exists_secret_of_sign_eq_ok h
  have hchecked := hkey.checked
  have hone := hchecked.publicKey.one_lt_q
  have hq : 0 < key.publicKey.numbers.q := Nat.zero_lt_of_lt hone
  obtain ⟨⟨bytes, rfl⟩, hinverse⟩ := Dsa.exists_candidate_of_secret? hsecret
  obtain ⟨hr, -, hrange, hsrange⟩ := Dsa.of_signWith?_eq_some hq hpair
  have hlt := Dsa.candidate_lt hone bytes
  have hverify : key.publicKey.verify message (Der.writePair r s) =
      .ok (Dsa.verify key.publicKey.numbers (Bytes.toNat (Sha1.digest message)) r s) := by
    unfold DsaPublicKey.verify
    rw [hchecked.readPair?_writePair hrange hsrange]
  refine ⟨hchecked.pow_pow_x, _, _, r, s, _, hsecret, ⟨Dsa.candidate_pos _ bytes, hlt⟩, hr, rfl,
    hverify, hverify, ?_, ?_, ?_⟩
  · exact Dsa.verify_of_signWith_iff_turns hlt hinverse hchecked.y_modEq hpair
  · intro hg
    exact Dsa.verify_of_signWith_iff_coprime hq hg hchecked.y_modEq hinverse hpair
  · intro hg hprime
    exact Dsa.verify_of_signWith hprime hg hchecked.y_modEq hinverse hpair

/-- A key whose order is a prime and takes the generator to one accepts its signature of `abc`. -/
theorem accepts_own_signature_iff_smoothOrder :
    ∃ signature, smoothOrder.sign (List.replicate 32 1) [0x61, 0x62, 0x63] = .ok signature ∧
      smoothOrder.verify [0x61, 0x62, 0x63] signature = .ok true ∧
      smoothOrder.publicKey.verify [0x61, 0x62, 0x63] signature = .ok true := by
  have hsome : (smoothOrder.sign (List.replicate 32 1) [0x61, 0x62, 0x63]).toOption.isSome =
      true := by decide +kernel
  obtain ⟨signature, hvalue⟩ := Option.isSome_iff_exists.1 hsome
  have hsign := Result.eq_ok_of_toOption hvalue
  obtain ⟨-, k, inverse, r, s, accepted, -, -, -, -, hprivate, hpublic, -, -, haccepted⟩ :=
    accepts_own_signature_iff obtained_smoothOrder hsign
  rw [haccepted pow_q_smoothOrder prime_q_smoothOrder] at hprivate hpublic
  exact ⟨signature, hsign, hprivate, hpublic⟩

/-! ## Keys that refuse what they sign -/

/-- The order and the modulus of `smoothOrder` with the negative of its generator, which has twice
the order, and an even secret exponent, which hides that. -/
def doubledOrder : DsaPrivateKey :=
  let q := 2 ^ 77 * 3 ^ 52 + 1
  let cofactor := 2 ^ 828 * 3 ^ 23
  let p := cofactor * q + 1
  let g := p - powMod 2 cofactor p
  { publicKey := ⟨⟨p, q, g, powMod g 2 p⟩, 1024⟩
    x := 2
    size := 1024 }

/-- A generator that the order `5 * 3 ^ 99` takes to one. -/
def compositeOrder : DsaPrivateKey :=
  let q := 5 * 3 ^ 99
  let cofactor := 2 ^ 863 * 3
  let p := cofactor * q + 1
  let g := powMod 2 cofactor p
  { publicKey := ⟨⟨p, q, g, powMod g 3 p⟩, 1024⟩
    x := 3
    size := 1024 }

theorem obtained_doubledOrder : doubledOrder.Obtained := by
  have hpublic : DsaPublicKey.ofNumbers doubledOrder.publicKey.numbers 1024 =
      .ok doubledOrder.publicKey :=
    Result.eq_ok_of_toOption (by decide +kernel)
  have hprivate : ofNumbers doubledOrder.publicKey 2 1024 = .ok doubledOrder :=
    Result.eq_ok_of_toOption (by decide +kernel)
  exact .ofNumbers (.ofNumbers hpublic) hprivate

theorem obtained_compositeOrder : compositeOrder.Obtained := by
  have hpublic : DsaPublicKey.ofNumbers compositeOrder.publicKey.numbers 1024 =
      .ok compositeOrder.publicKey :=
    Result.eq_ok_of_toOption (by decide +kernel)
  have hprivate : ofNumbers compositeOrder.publicKey 3 1024 = .ok compositeOrder :=
    Result.eq_ok_of_toOption (by decide +kernel)
  exact .ofNumbers (.ofNumbers hpublic) hprivate

/-- A prime order is not enough for a key to accept what it signs, and neither is a generator that
the order takes to one: the first key has the one, the second key the other. -/
theorem own_signatures_refused :
    (doubledOrder.Obtained ∧ doubledOrder.publicKey.numbers.q.Prime ∧
      ∃ signature, doubledOrder.sign (List.replicate 32 1) [0x61, 0x62, 0x63] = .ok signature ∧
        doubledOrder.publicKey.verify [0x61, 0x62, 0x63] signature = .ok false) ∧
    (compositeOrder.Obtained ∧
      compositeOrder.publicKey.numbers.g ^ compositeOrder.publicKey.numbers.q ≡ 1
        [MOD compositeOrder.publicKey.numbers.p] ∧
      ∃ signature, compositeOrder.sign (List.replicate 32 3) [0x61, 0x62, 0x63] = .ok signature ∧
        compositeOrder.publicKey.verify [0x61, 0x62, 0x63] signature = .ok false) := by
  have hdoubled : (doubledOrder.sign (List.replicate 32 1) [0x61, 0x62, 0x63] >>=
      doubledOrder.publicKey.verify [0x61, 0x62, 0x63]).toOption = some false := by
    decide +kernel
  have hcomposite : (compositeOrder.sign (List.replicate 32 3) [0x61, 0x62, 0x63] >>=
      compositeOrder.publicKey.verify [0x61, 0x62, 0x63]).toOption = some false := by
    decide +kernel
  refine ⟨⟨obtained_doubledOrder, prime_q_smoothOrder, ?_⟩, obtained_compositeOrder, ?_, ?_⟩
  · exact Result.bind_eq_ok.1 (Result.eq_ok_of_toOption hdoubled)
  · exact pow_modEq_of_powMod_eq (by decide +kernel)
  · exact Result.bind_eq_ok.1 (Result.eq_ok_of_toOption hcomposite)

/-! ## The secret exponent -/

/-- What a secret exponent is asked once the size is that of the public half. -/
theorem Checked.ofNumbers_eq (h : key.Checked) (x : Nat) :
    ofNumbers key.publicKey x key.size =
      if key.publicKey.numbers.g ^ x % key.publicKey.numbers.p ≠ key.publicKey.numbers.y then
        .error .invalidKey
      else if x = 0 ∨ key.publicKey.numbers.q < x then .error .dsa
      else .ok ⟨key.publicKey, x, key.size⟩ := by
  have hsize : keyType.checkSize key.size = .ok () := KeyType.checkSize_eq_ok.2 h.size_mem
  unfold ofNumbers
  rw [hsize, ← Keyring.powMod_eq]
  show (if key.size ≠ key.publicKey.size then _ else _) = _
  rw [if_neg (Decidable.not_not.2 h.size_eq)]
  rfl

/-- The public number is at least two, so that it is not one. -/
theorem Checked.not_pow_x_modEq_one (h : key.Checked) :
    ¬ key.publicKey.numbers.g ^ key.x ≡ 1 [MOD key.publicKey.numbers.p] := by
  intro hone
  have htwo : 2 ≤ key.publicKey.numbers.y := h.publicKey.wellFormed.two_le_y
  have hle : key.publicKey.numbers.y ≤ 1 := by
    rw [h.wellFormed.y_eq, hone]
    exact Nat.mod_le _ _
  omega

/-- **The secret exponent is unique.** For every public key that was obtained, whose order is a
prime that takes the generator to one, and every secret exponent that loads with it: any other
number, of whatever size, is refused, as one that does not make the public number or else as one
that DSA does not admit. The modulus need not be prime. -/
theorem ofNumbers_refuses_other_secret {publicKey : DsaPublicKey} (hpublic : publicKey.Obtained)
    (hq : publicKey.numbers.q.Prime)
    (hg : publicKey.numbers.g ^ publicKey.numbers.q ≡ 1 [MOD publicKey.numbers.p])
    {x size : Nat} {key : DsaPrivateKey} (h : ofNumbers publicKey x size = .ok key)
    {x' : Nat} (hx : x' ≠ x) :
    (ofNumbers publicKey x' size = .error .invalidKey ∨
      ofNumbers publicKey x' size = .error .dsa) ∧
    (ofNumbers publicKey x' size = .error .invalidKey ↔
      publicKey.numbers.g ^ x' % publicKey.numbers.p ≠ publicKey.numbers.y) := by
  obtain ⟨hchecked, rfl⟩ := (ofNumbers_eq_ok hpublic.checked).1 h
  have hload : ofNumbers publicKey x' size = _ := hchecked.ofNumbers_eq x'
  rw [hload]
  by_cases hmakes : publicKey.numbers.g ^ x' % publicKey.numbers.p = publicKey.numbers.y
  · have houtside : x' = 0 ∨ publicKey.numbers.q < x' := by
      by_contra hinside
      rw [not_or, Nat.not_lt] at hinside
      have hsame : publicKey.numbers.g ^ x' ≡ publicKey.numbers.g ^ x [MOD publicKey.numbers.p] :=
        hmakes.trans hchecked.wellFormed.y_eq
      exact hx (Dsa.eq_of_pow_modEq_pow hq hg hchecked.not_pow_x_modEq_one hchecked.x_le hinside.2
        hsame)
    rw [if_neg (Decidable.not_not.2 hmakes), if_pos houtside]
    exact ⟨.inr rfl, nofun, fun hother => absurd hmakes hother⟩
  · rw [if_pos hmakes]
    exact ⟨.inl rfl, fun _ => hmakes, fun _ => rfl⟩

/-- With the secret exponent three, four does not make the public number, and the exponent that is
one turn of the order above three does but is too large. -/
theorem ofNumbers_refuses_other_secret_smoothOrder :
    ofNumbers smoothOrder.publicKey 4 1024 = .error .invalidKey ∧
    ofNumbers smoothOrder.publicKey (3 + smoothOrder.publicKey.numbers.q) 1024 = .error .dsa := by
  have hrefused {x' : Nat} (hx : x' ≠ 3) := ofNumbers_refuses_other_secret
    (.ofNumbers ofNumbers_publicKey_smoothOrder) prime_q_smoothOrder pow_q_smoothOrder
    ofNumbers_smoothOrder hx
  constructor
  · apply (hrefused (by decide)).2.2
    rw [← powMod_eq]
    decide +kernel
  · have hne : 3 + smoothOrder.publicKey.numbers.q ≠ 3 := by decide +kernel
    obtain ⟨hinvalid | hdsa, hiff⟩ := hrefused hne
    · exfalso
      apply hiff.1 hinvalid
      rw [← powMod_eq]
      decide +kernel
    · exact hdsa

end DsaPrivateKey

end Keyring
