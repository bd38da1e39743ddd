import Keyring.Proofs.Key.DsaSignature

/-!
# Which byte strings are DSA signatures

A signature is read before the numbers of the key are used, so whether a byte string is refused as
malformed depends on that string alone. Main statement: a public key refuses the byte strings that
are not the text of two positive numbers, and answers for all others by the pair that they spell;
since a pair has one text, a signature cannot be respelled.
-/

namespace Keyring

namespace Dsa

/-! ## Verifying within bounds -/

/-- Whether a pair is a signature of a digest, with every remainder checked. -/
def verifyRanged (n : Numbers) (z r s : Nat) : Ranged Bool :=
  if n.q ≤ r ∨ n.q ≤ s then .within (.ok false)
  else
    match inverseMod? s n.q with
    | none => .within (.ok false)
    | some w => do
      let u₁ ← Ranged.mod? (z * w) n.q
      let u₂ ← Ranged.mod? (r * w) n.q
      let left ← Ranged.powMod? n.g u₁ n.p
      let right ← Ranged.powMod? n.y u₂ n.p
      let product ← Ranged.mod? (left * right) n.p
      let found ← Ranged.mod? product n.q
      .within (.ok (found == r))

theorem verifyRanged_eq {n : Numbers} (hp : 0 < n.p) (z r s : Nat) :
    verifyRanged n z r s = .within (.ok (verify n z r s)) := by
  unfold verifyRanged verify
  split
  case isTrue => rfl
  case isFalse hrange =>
    have hq : 0 < n.q := by omega
    cases inverseMod? s n.q with
    | none => rfl
    | some w =>
      simp only [Ranged.mod?_of_pos hq, Ranged.mod?_of_pos hp, Ranged.powMod?_of_pos hp,
        Ranged.within_ok_bind]

end Dsa

namespace DsaPublicKey

variable {key : DsaPublicKey} {message signature : Bytes}

theorem Checked.two_le_p (h : key.Checked) : 2 ≤ key.numbers.p := by
  have husable := h.usable
  simp only [Dsa.Numbers.usable, Bool.and_eq_true, beq_iff_eq, decide_eq_true_eq] at husable
  exact husable.1.1.1.1.1

/-- Whether a byte string is a signature of a message, with every access to the bytes and every
remainder checked. -/
def verifyRanged (key : DsaPublicKey) (message signature : Bytes) : Ranged Bool := do
  let (r, s) ← Der.readPairRanged signature
  Dsa.verifyRanged key.numbers (Bytes.toNat (Sha1.digest message)) r s

theorem verifyRanged_eq (h : key.Checked) (message signature : Bytes) :
    key.verifyRanged message signature = .within (key.verify message signature) := by
  have hp : 0 < key.numbers.p := Nat.lt_of_lt_of_le (by decide) h.two_le_p
  rw [verifyRanged, verify, Der.readPairRanged_eq]
  cases Der.readPair? signature with
  | none => rfl
  | some pair =>
    obtain ⟨r, s⟩ := pair
    exact Dsa.verifyRanged_eq hp _ r s

/-! ## The answer -/

theorem verify_of_readPair? {r s : Nat} (h : Der.readPair? signature = some (r, s)) :
    key.verify message signature =
      .ok (Dsa.verify key.numbers (Bytes.toNat (Sha1.digest message)) r s) := by
  rw [verify, h]

theorem verify_eq_error_iff {error : KeyError} :
    key.verify message signature = .error error ↔
      error = .malformedSignature ∧ Der.readPair? signature = none := by
  rw [verify]
  cases Der.readPair? signature with
  | none => simp [eq_comm]
  | some pair => simp

end DsaPublicKey

namespace DsaPrivateKey

/-- A signature is the text of the pair that was made, whether or not it verifies. -/
theorem Checked.exists_pair_of_sign {key : DsaPrivateKey} (h : key.Checked) {entropy : Entropy}
    {message signature : Bytes} (hsign : key.sign entropy message = .ok signature) :
    ∃ k inverse r s,
      Dsa.secret? key.publicKey.numbers.q (entropy.length / Dsa.attemptLength) entropy =
        some (k, inverse) ∧
      Dsa.signWith? key.publicKey.numbers key.x (Bytes.toNat (Sha1.digest message)) k inverse =
        some (r, s) ∧
      signature = Der.writePair r s ∧ Der.readPair? signature = some (r, s) := by
  obtain ⟨k, inverse, r, s, hsecret, hpair, rfl⟩ := exists_secret_of_sign_eq_ok hsign
  have hq : 0 < key.publicKey.numbers.q := Nat.zero_lt_of_lt h.publicKey.one_lt_q
  obtain ⟨-, -, hr, hs⟩ := Dsa.of_signWith?_eq_some hq hpair
  exact ⟨k, inverse, r, s, hsecret, hpair, rfl, h.readPair?_writePair hr hs⟩

end DsaPrivateKey

namespace DsaPublicKey

/-- **Signatures are read strictly.** For every public key that was obtained, every message and
every byte string: verifying never leaves the bytes and divides by nothing that is zero; its only
error is that the string is malformed, which it is just when it is not the text of two positive
numbers in the grammar of pairs; and a text of such numbers is answered by the message and by them.
What a private key signs is the text of the pair that it made and is read as that pair, and two
byte strings are never read as the same pair. -/
theorem verify_reads_strictly {key : DsaPublicKey} (hkey : key.Obtained)
    (message signature : Bytes) :
    key.verifyRanged message signature = .within (key.verify message signature) ∧
    (∀ error, key.verify message signature = .error error ↔
      error = .malformedSignature ∧
        ¬ ∃ r s, (0 < r ∧ 0 < s) ∧ Der.PairText r s signature) ∧
    (∀ r s, (0 < r ∧ 0 < s) ∧ Der.PairText r s signature →
      key.verify message signature =
        .ok (Dsa.verify key.numbers (Bytes.toNat (Sha1.digest message)) r s)) ∧
    (∀ r s, Der.readPair? signature = some (r, s) ↔
      (0 < r ∧ 0 < s) ∧ Der.PairText r s signature) ∧
    (∀ (signer : DsaPrivateKey) (entropy : Entropy), signer.Obtained →
      signer.sign entropy message = .ok signature →
      ∃ k inverse r s,
        Dsa.secret? signer.publicKey.numbers.q (entropy.length / Dsa.attemptLength) entropy =
          some (k, inverse) ∧
        Dsa.signWith? signer.publicKey.numbers signer.x (Bytes.toNat (Sha1.digest message)) k
          inverse = some (r, s) ∧
        signature = Der.writePair r s ∧ Der.readPair? signature = some (r, s)) ∧
    ∀ pair other, Der.readPair? signature = some pair → Der.readPair? other = some pair →
      other = signature := by
  have hnone : Der.readPair? signature = none ↔
      ¬ ∃ r s, (0 < r ∧ 0 < s) ∧ Der.PairText r s signature := by
    simp only [← Der.readPair?_eq_some_iff, Option.eq_none_iff_forall_ne_some, Prod.forall,
      not_exists, ne_eq]
  refine ⟨verifyRanged_eq hkey.checked message signature, ?_, ?_, ?_, ?_, ?_⟩
  · intro error
    rw [verify_eq_error_iff, hnone]
  · intro r s h
    exact verify_of_readPair? (Der.readPair?_eq_some_iff.2 h)
  · intro r s
    exact Der.readPair?_eq_some_iff
  · intro signer entropy hsigner hsign
    exact hsigner.checked.exists_pair_of_sign hsign
  · rintro ⟨r, s⟩ other h hother
    exact (Der.readPair?_eq_some_iff.1 h).2.unique (Der.readPair?_eq_some_iff.1 hother).2

/-- The text of two ones, and what comes of it with a zero byte in front of a number, with its
length behind a count, and with a byte added. -/
theorem verify_reads_strictly_ones :
    DsaPrivateKey.smoothOrder.publicKey.verify [0x61, 0x62, 0x63] [0x30, 6, 2, 1, 1, 2, 1, 1] =
      .ok (Dsa.verify DsaPrivateKey.smoothOrder.publicKey.numbers
        (Bytes.toNat (Sha1.digest [0x61, 0x62, 0x63])) 1 1) ∧
    ∀ respelled ∈ [[0x30, 7, 2, 2, 0, 1, 2, 1, 1], [0x30, 0x81, 6, 2, 1, 1, 2, 1, 1],
        [0x30, 6, 2, 1, 1, 2, 1, 1, 0]],
      DsaPrivateKey.smoothOrder.publicKey.verify [0x61, 0x62, 0x63] respelled =
        .error .malformedSignature := by
  have hkey : DsaPrivateKey.smoothOrder.publicKey.Obtained :=
    .ofNumbers DsaPrivateKey.ofNumbers_publicKey_smoothOrder
  constructor
  · obtain ⟨-, -, hanswer, hread, -⟩ :=
      verify_reads_strictly hkey [0x61, 0x62, 0x63] [0x30, 6, 2, 1, 1, 2, 1, 1]
    exact hanswer 1 1 ((hread 1 1).1 (by decide))
  · intro respelled hmem
    obtain ⟨-, hrefuse, -, hread, -⟩ := verify_reads_strictly hkey [0x61, 0x62, 0x63] respelled
    refine (hrefuse _).2 ⟨rfl, ?_⟩
    rintro ⟨r, s, h⟩
    have hnone : ∀ text ∈ [[0x30, 7, 2, 2, 0, 1, 2, 1, 1], [0x30, 0x81, 6, 2, 1, 1, 2, 1, 1],
        [0x30, 6, 2, 1, 1, 2, 1, 1, 0]], Der.readPair? text = none := by decide
    have hsome := (hread r s).2 h
    rw [hnone respelled hmem] at hsome
    cases hsome

end DsaPublicKey

end Keyring
