import Keyring.Proofs.Key.RecordText
import Keyring.Proofs.Key.RsaGenuine
import Keyring.Proofs.Key.SymmetricAuthenticity

/-!
# Keys that can be reached

A program comes by a key in one of the ways to make keys, puts keys together from keys it has, and
goes on from a key to another: it loads the record of the key again, takes the public half of a
private key, or takes the MAC key out of a symmetric key. Main statement: whatever it does, every
key it holds is well formed. The invariant that carries the proof is what is checked when a key is
made, since each step keeps it; what a well-formed key is, is said apart from these checks.
-/

namespace Keyring

/-! ## Well-formed keys -/

/-- A MAC key of one of the two lengths. -/
def MacKey.WellFormed (key : MacKey) : Prop :=
  key.bytes.length = 20 ∨ key.bytes.length = 32

/-- An AES key of a length that the cipher knows, beside a MAC key. -/
structure SymmetricKey.WellFormed (key : SymmetricKey) : Prop where
  length_bytes : key.bytes.length = 16 ∨ key.bytes.length = 24 ∨ key.bytes.length = 32
  macKey : key.macKey.WellFormed

/-- A modulus of just the declared length, with an exponent that may have an inverse. -/
structure RsaPublicKey.WellFormed (key : RsaPublicKey) : Prop where
  size_mem : key.size ∈ [512, 768, 1024, 2048, 4096]
  bitLength_n : bitLength key.n = key.size
  odd_n : Odd key.n
  odd_e : Odd key.e
  three_le_e : 3 ≤ key.e
  e_lt_n : key.e < key.n

/-- Two factors of the modulus, an exponent that undoes the public one for each of them, and the
values that belong to them. -/
structure RsaPrivateKey.WellFormed (key : RsaPrivateKey) : Prop where
  publicKey : key.publicKey.WellFormed
  size_eq : key.size = key.publicKey.size
  one_lt_p : 1 < key.p
  one_lt_q : 1 < key.q
  mul_eq : key.p * key.q = key.publicKey.n
  dp_eq : key.crt.dp = key.d % (key.p - 1)
  dq_eq : key.crt.dq = key.d % (key.q - 1)
  qinv_lt : key.crt.qinv < key.p
  qinv_mul : key.crt.qinv * key.q ≡ 1 [MOD key.p]
  inverts_p : key.publicKey.e * key.d ≡ 1 [MOD key.p - 1]
  inverts_q : key.publicKey.e * key.d ≡ 1 [MOD key.q - 1]

/-- Numbers of the lengths of 1024-bit keys, with a public number that the order takes to one. -/
structure DsaPublicKey.WellFormed (key : DsaPublicKey) : Prop where
  size_eq : key.size = 1024
  bitLength_p : bitLength key.numbers.p = 1024
  bitLength_q : bitLength key.numbers.q = 160
  two_le_y : 2 ≤ key.numbers.y
  pow_eq_one : key.numbers.y ^ key.numbers.q ≡ 1 [MOD key.numbers.p]

/-- A positive exponent that makes the public number. -/
structure DsaPrivateKey.WellFormed (key : DsaPrivateKey) : Prop where
  publicKey : key.publicKey.WellFormed
  size_eq : key.size = key.publicKey.size
  y_eq : key.publicKey.numbers.y =
    key.publicKey.numbers.g ^ key.x % key.publicKey.numbers.p
  x_pos : 0 < key.x

/-! ## What is checked makes a key well formed -/

theorem MacKey.wellFormed_of_size_mem {key : MacKey}
    (h : key.size ∈ KeyType.hmacSha1.acceptableSizes) : key.WellFormed := by
  simp only [KeyType.acceptableSizes, size, List.mem_cons, List.not_mem_nil, or_false] at h
  unfold MacKey.WellFormed
  omega

theorem SymmetricKey.wellFormed_of_size_mem {key : SymmetricKey}
    (h : key.size ∈ KeyType.aes.acceptableSizes)
    (hmac : key.macKey.size ∈ KeyType.hmacSha1.acceptableSizes) : key.WellFormed := by
  refine ⟨?_, MacKey.wellFormed_of_size_mem hmac⟩
  simp only [KeyType.acceptableSizes, size, List.mem_cons, List.not_mem_nil, or_false] at h
  omega

/-- What the public numbers must be to be used. -/
theorem Rsa.of_checkPublic_eq_ok {n e : Nat} (h : checkPublic n e = .ok ()) :
    e < n ∧ Odd n ∧ Odd e ∧ 3 ≤ e := by
  unfold checkPublic at h
  rw [Nat.odd_iff, Nat.odd_iff]
  split at h
  · cases h
  · split at h
    · cases h
    · split at h
      · cases h
      · split at h
        · cases h
        · -- an odd exponent that is not one is at least three
          omega

theorem RsaPublicKey.Checked.wellFormed {key : RsaPublicKey} (h : key.Checked) :
    key.WellFormed := by
  obtain ⟨hlt, hn, he, hthree⟩ := Rsa.of_checkPublic_eq_ok h.checkPublic
  exact ⟨h.size_mem, h.bitLength_n, hn, he, hthree, hlt⟩

theorem RsaPrivateKey.Checked.wellFormed {key : RsaPrivateKey} (h : key.Checked) :
    key.WellFormed := by
  have hfits := h.fits
  simp only [Rsa.CrtValues.fits, Bool.and_eq_true, beq_iff_eq, decide_eq_true_eq] at hfits
  obtain ⟨⟨⟨hdp, hdq⟩, hlt⟩, hinverse⟩ := hfits
  obtain ⟨hp, hq⟩ := Rsa.checkPrivate_eq_ok.1 h.checkPrivate
  -- a remainder of one shows that the modulus is not one
  have modEq_of_mod {a m : Nat} (h : a % m = 1) : a ≡ 1 [MOD m] := by
    have hone : 1 % m = 1 := by rw [← h, Nat.mod_mod]
    exact h.trans hone.symm
  rw [Nat.mul_comm] at hp hq
  exact ⟨h.publicKey.wellFormed, h.size_eq, h.one_lt_p, h.one_lt_q, h.mul_eq, hdp, hdq, hlt,
    modEq_of_mod hinverse, modEq_of_mod hp, modEq_of_mod hq⟩

theorem DsaPublicKey.Checked.wellFormed {key : DsaPublicKey} (h : key.Checked) :
    key.WellFormed := by
  have hsize : key.size = 1024 := List.mem_singleton.1 h.size_mem
  have husable := h.usable
  simp only [Dsa.Numbers.usable, Bool.and_eq_true, beq_iff_eq, decide_eq_true_eq] at husable
  obtain ⟨⟨⟨⟨⟨htwo, -⟩, -⟩, -⟩, hy⟩, hpower⟩ := husable
  rw [powMod_eq] at hpower
  have hone : 1 % key.numbers.p = 1 := Nat.mod_eq_of_lt htwo
  exact ⟨hsize, h.bitLength_p.trans hsize, h.bitLength_q, hy, hpower.trans hone.symm⟩

theorem DsaPrivateKey.Checked.wellFormed {key : DsaPrivateKey} (h : key.Checked) :
    key.WellFormed := by
  have hy : key.publicKey.numbers.y = key.publicKey.numbers.g ^ key.x % key.publicKey.numbers.p :=
    h.powMod_eq.symm.trans (Keyring.powMod_eq ..)
  exact ⟨h.publicKey.wellFormed, h.size_eq, hy, h.x_pos⟩

/-! ## A well-formed symmetric key has a length that the cipher knows -/

namespace SymmetricKey

theorem WellFormed.encrypt_ne_invalidKeyLength {key : SymmetricKey} (h : key.WellFormed)
    (entropy : Entropy) (plaintext : Bytes) :
    key.encrypt entropy plaintext ≠ .error .invalidKeyLength := by
  intro herror
  unfold encrypt at herror
  split at herror
  case h_1 => cases herror
  case h_2 initial rest hdraw =>
    obtain ⟨-, hinitial⟩ := Entropy.eq_append_of_draw? hdraw
    have hwhole : Aes.blockSize ∣ (Padding.pad Aes.blockSize plaintext).length :=
      (Padding.isLeast_length_pad (by decide) plaintext).1.1
    obtain ⟨body, hbody⟩ := Cbc.exists_encrypt_eq_ok.2 ⟨h.length_bytes, hinitial, hwhole⟩
    rw [hbody] at herror
    cases herror

theorem WellFormed.decrypt_ne_invalidKeyLength {key : SymmetricKey} (h : key.WellFormed)
    (envelope : Bytes) : key.decrypt envelope ≠ .error .invalidKeyLength := by
  intro herror
  by_cases hlength : minEnvelopeLength ≤ envelope.length
  · rcases of_decrypt_eq_error hlength herror with ⟨-, hother⟩ | ⟨-, hother | ⟨-, hunknown⟩⟩
    · cases hother
    · cases hother
    · exact hunknown h.length_bytes
  · rw [decrypt_eq_shortCiphertext.2 (Nat.lt_of_not_le hlength)] at herror
    cases herror

end SymmetricKey

/-! ## What can be reached -/

namespace KeyMaterial

/-- From a key to the next: its own record loaded again, its public half, the MAC key inside it. -/
inductive Step : KeyMaterial → KeyMaterial → Prop
  | reload {key next : KeyMaterial} (h : ofRecordText key.keyType key.recordText = .ok next) :
    Step key next
  | publicHalf {key half : KeyMaterial} (h : key.publicHalf? = some half) : Step key half
  | innerMacKey {key mac : KeyMaterial} (h : key.innerMacKey? = some mac) : Step key mac

/-- The keys that a program can hold. -/
inductive Reachable : KeyMaterial → Prop
  /-- Made from bytes, from numbers, from a pack or from a record, or newly. -/
  | obtained {key : KeyMaterial} (h : key.Obtained) : Reachable key
  /-- Bytes put beside a MAC key that is held. -/
  | symmetric {macKey : MacKey} {bytes : Bytes} {key : SymmetricKey}
    (hmac : Reachable (.mac macKey)) (h : SymmetricKey.ofBytes bytes macKey = .ok key) :
    Reachable (.symmetric key)
  /-- Private numbers put beside an RSA public key that is held. -/
  | rsaPrivate {publicKey : RsaPublicKey} {d p q : Nat} {crt : Rsa.CrtValues} {size : Nat}
    {key : RsaPrivateKey} (hpublic : Reachable (.rsaPublic publicKey))
    (h : RsaPrivateKey.ofNumbers publicKey d p q crt size = .ok key) : Reachable (.rsaPrivate key)
  /-- A secret exponent put beside a DSA public key that is held. -/
  | dsaPrivate {publicKey : DsaPublicKey} {x size : Nat} {key : DsaPrivateKey}
    (hpublic : Reachable (.dsaPublic publicKey))
    (h : DsaPrivateKey.ofNumbers publicKey x size = .ok key) : Reachable (.dsaPrivate key)
  | step {key next : KeyMaterial} (hkey : Reachable key) (h : Step key next) : Reachable next

theorem Step.checked {key next : KeyMaterial} (h : Step key next) (hkey : key.Checked) :
    next.Checked := by
  cases h with
  | reload h => exact checked_of_ofRecordText h
  | publicHalf h => exact hkey.publicHalf? h
  | innerMacKey h =>
    cases key with
    | symmetric key =>
      cases h
      exact hkey.2
    | mac | dsaPrivate | dsaPublic | rsaPrivate | rsaPublic => cases h

/-- Whatever way led to a key, it passed the checks of its family. -/
theorem Reachable.checked {key : KeyMaterial} (h : key.Reachable) : key.Checked := by
  induction h with
  | obtained h => exact h.checked
  | symmetric _ h ih =>
    obtain ⟨hsize, rfl⟩ := SymmetricKey.of_ofBytes_eq_ok h
    exact ⟨hsize, ih⟩
  | rsaPrivate _ h ih => exact ((RsaPrivateKey.ofNumbers_eq_ok ih).1 h).1
  | dsaPrivate _ h ih => exact ((DsaPrivateKey.ofNumbers_eq_ok ih).1 h).1
  | step _ h ih => exact h.checked ih

/-! ## What holds of every key that can be reached -/

def WellFormed : KeyMaterial → Prop
  | .symmetric key => key.WellFormed
  | .mac key => key.WellFormed
  | .dsaPrivate key => key.WellFormed
  | .dsaPublic key => key.WellFormed
  | .rsaPrivate key => key.WellFormed
  | .rsaPublic key => key.WellFormed

/-- The bit length of what the size of a key stands for: of its bytes, or of its modulus. -/
def measuredBits : KeyMaterial → Nat
  | .symmetric key => 8 * key.bytes.length
  | .mac key => 8 * key.bytes.length
  | .dsaPrivate key => bitLength key.publicKey.numbers.p
  | .dsaPublic key => bitLength key.numbers.p
  | .rsaPrivate key => bitLength key.publicKey.n
  | .rsaPublic key => bitLength key.n

theorem Checked.wellFormed {key : KeyMaterial} (h : key.Checked) : key.WellFormed := by
  cases key with
  | symmetric key => exact SymmetricKey.wellFormed_of_size_mem h.1 h.2
  | mac key => exact MacKey.wellFormed_of_size_mem h
  | dsaPrivate key => exact DsaPrivateKey.Checked.wellFormed h
  | dsaPublic key => exact DsaPublicKey.Checked.wellFormed h
  | rsaPrivate key => exact RsaPrivateKey.Checked.wellFormed h
  | rsaPublic key => exact RsaPublicKey.Checked.wellFormed h

theorem Checked.size_mem {key : KeyMaterial} (h : key.Checked) :
    key.size ∈ key.keyType.acceptableSizes := by
  cases key with
  | symmetric key => exact h.1
  | mac key => exact h
  | dsaPrivate key => exact DsaPrivateKey.Checked.size_mem h
  | dsaPublic key => exact DsaPublicKey.Checked.size_mem h
  | rsaPrivate key => exact RsaPrivateKey.Checked.size_mem h
  | rsaPublic key => exact RsaPublicKey.Checked.size_mem h

theorem Checked.size_eq {key : KeyMaterial} (h : key.Checked) : key.size = key.measuredBits := by
  cases key with
  | symmetric key | mac key => rfl
  | dsaPrivate key =>
    have hkey : key.Checked := h
    exact hkey.size_eq.trans hkey.publicKey.bitLength_p.symm
  | dsaPublic key => exact (DsaPublicKey.Checked.bitLength_p h).symm
  | rsaPrivate key =>
    have hkey : key.Checked := h
    exact hkey.size_eq.trans hkey.publicKey.bitLength_n.symm
  | rsaPublic key => exact (RsaPublicKey.Checked.bitLength_n h).symm

/-- **Every key that can be reached is well formed.** However a key was made, put together from
others, loaded again or taken out of another, its parts have the lengths of its family and fit
together. So its size is just the bit length of what it stands for and is a listed one, and a
symmetric key never has a length that its cipher does not know. -/
theorem reachable_wellFormed {key : KeyMaterial} (h : key.Reachable) :
    key.WellFormed ∧ key.size = key.measuredBits ∧ key.size ∈ key.keyType.acceptableSizes ∧
      ∀ aes : SymmetricKey, key = .symmetric aes →
        (∀ entropy plaintext, aes.encrypt entropy plaintext ≠ .error .invalidKeyLength) ∧
          ∀ envelope, aes.decrypt envelope ≠ .error .invalidKeyLength := by
  have hchecked := h.checked
  refine ⟨hchecked.wellFormed, hchecked.size_eq, hchecked.size_mem, ?_⟩
  rintro aes rfl
  have haes : aes.WellFormed := hchecked.wellFormed
  exact ⟨haes.encrypt_ne_invalidKeyLength, haes.decrypt_ne_invalidKeyLength⟩

/-- The public half of an RSA private key that was loaded again from its own record. -/
theorem reachable_wellFormed_nearPowers :
    RsaPrivateKey.nearPowers.publicKey.WellFormed ∧
      (rsaPublic RsaPrivateKey.nearPowers.publicKey).size = 512 := by
  have hmade := Reachable.obtained (.rsaPrivate RsaPrivateKey.obtained_nearPowers)
  have hloaded := hmade.step (.reload hmade.checked.ofRecordText_recordText)
  have hhalf := hloaded.step (.publicHalf rfl)
  exact ⟨(reachable_wellFormed hhalf).1, rfl⟩

end KeyMaterial

end Keyring
