import Keyring.Proofs.Key.RsaGenuine
import Keyring.Proofs.Rsa.Oaep

/-!
# RSA envelopes open to what was sealed

The payload of an envelope is what the public operation makes of the block of the message. Main
statements: a message that leaves room for the overhead of a block is sealed, and opens again under
a key with prime factors; and what opens under any key at all is, behind its header, what its public
half makes of the message with some seed, so that nothing opens but what could have been sealed.
-/

namespace Keyring

namespace RsaPublicKey

variable {key : RsaPublicKey} {seed plaintext : Bytes}

/-- What stands behind the header: the public operation on the block of a message. -/
def payload (key : RsaPublicKey) (seed plaintext : Bytes) : Bytes :=
  let block := Rsa.Oaep.encode key.blockLength seed plaintext
  Bytes.ofNat key.blockLength (Rsa.publicOp key.n key.e (Bytes.toNat block))

theorem encrypt_of_fits (hseed : seed.length = Rsa.Oaep.seedLength)
    (h : plaintext.length + Rsa.Oaep.overhead ≤ key.blockLength) (rest : Entropy) :
    key.encrypt (seed ++ rest) plaintext =
      .ok (Envelope.header key.keyId ++ key.payload seed plaintext) := by
  unfold encrypt
  rw [if_neg (Nat.not_lt_of_le h), ← hseed, Entropy.draw?_append]
  rfl

theorem encrypt_of_too_long (h : key.blockLength < plaintext.length + Rsa.Oaep.overhead)
    (entropy : Entropy) : key.encrypt entropy plaintext = .error (.rsa .messageTooLong) :=
  if_pos h

/-- The block of a message stands for a number below the modulus. -/
theorem toNat_encode_lt (hseed : seed.length = Rsa.Oaep.seedLength)
    (h : plaintext.length + Rsa.Oaep.overhead ≤ key.blockLength) :
    Bytes.toNat (Rsa.Oaep.encode key.blockLength seed plaintext) < key.n := by
  have hlength : (Rsa.Oaep.encode key.blockLength seed plaintext).length = key.blockLength :=
    Rsa.Oaep.length_encode hseed h
  exact Rsa.toNat_lt_of_leading_zero hlength

end RsaPublicKey

namespace RsaPrivateKey

variable {key : RsaPrivateKey} {blinding : Nat} {block payload envelope message : Bytes}

/-! ## Opening -/

/-- What leaves the private operation is a block that the public operation takes back. -/
theorem of_privateOp_eq_ok {result : Bytes} (h : key.privateOp blinding block = .ok result) :
    result.length = key.publicKey.blockLength ∧
      Rsa.publicOp key.publicKey.n key.publicKey.e (Bytes.toNat result) = Bytes.toNat block := by
  obtain ⟨m, hprivate, h⟩ := Result.bind_eq_ok.1 h
  cases h
  obtain ⟨hlt, hpublic⟩ := Rsa.of_privateOp_eq_ok (Result.ofFault_eq_ok.1 hprivate)
  constructor
  · exact Bytes.length_ofNat _ _
  · rw [RsaPublicKey.toNat_ofNat_blockLength hlt]
    exact hpublic

theorem of_privateOp_eq_error {error : KeyError} (h : key.privateOp blinding block = .error error) :
    error = .rsa .decryption ∨ error = .rsa .internal := by
  unfold privateOp Rsa.privateOp at h
  split at h
  case isTrue =>
    cases h
    exact .inl rfl
  case isFalse =>
    simp only at h
    split at h
    case isTrue => cases h
    case isFalse =>
      cases h
      exact .inr rfl

/-- The message of a block that leaves the private operation. -/
def messageOf (block : Bytes) : Result Bytes :=
  match Rsa.Oaep.decode? block with
  | some message => .ok message
  | none => .error (.rsa .decryption)

theorem messageOf_eq_ok :
    messageOf block = .ok message ↔ Rsa.Oaep.decode? block = some message := by
  unfold messageOf
  cases Rsa.Oaep.decode? block with
  | none => exact ⟨nofun, nofun⟩
  | some other =>
    constructor
    · intro h
      exact congrArg some (Except.ok.inj h)
    · intro h
      exact congrArg Except.ok (Option.some.inj h)

theorem of_messageOf_eq_error {error : KeyError} (h : messageOf block = .error error) :
    error = .rsa .decryption := by
  unfold messageOf at h
  split at h
  case h_1 => cases h
  case h_2 =>
    cases h
    rfl

/-- Opening, of what stands behind the header. -/
def openPayload (key : RsaPrivateKey) (blinding : Nat) (payload : Bytes) : Result Bytes :=
  if payload.length ≠ key.publicKey.blockLength then .error (.rsa .decryption)
  else key.privateOp blinding payload >>= messageOf

/-- The header is dropped unread. -/
theorem decrypt_eq_openPayload (h : Envelope.headerLength ≤ envelope.length) :
    key.decrypt blinding envelope =
      key.openPayload blinding (envelope.drop Envelope.headerLength) :=
  if_neg (Nat.not_lt_of_le h)

theorem decrypt_of_length_lt (h : envelope.length < Envelope.headerLength) :
    key.decrypt blinding envelope = .error .shortCiphertext :=
  if_pos h

theorem openPayload_eq_ok :
    key.openPayload blinding payload = .ok message ↔
      payload.length = key.publicKey.blockLength ∧
        ∃ block, key.privateOp blinding payload = .ok block ∧
          Rsa.Oaep.decode? block = some message := by
  unfold openPayload
  split
  case isTrue hother => exact ⟨nofun, fun h => absurd h.1 hother⟩
  case isFalse hlength =>
    rw [Result.bind_eq_ok]
    constructor
    · rintro ⟨block, hprivate, hmessage⟩
      exact ⟨Decidable.not_not.1 hlength, block, hprivate, messageOf_eq_ok.1 hmessage⟩
    · rintro ⟨-, block, hprivate, hdecode⟩
      exact ⟨block, hprivate, messageOf_eq_ok.2 hdecode⟩

theorem of_openPayload_eq_error {error : KeyError}
    (h : key.openPayload blinding payload = .error error) :
    error = .rsa .decryption ∨ error = .rsa .internal := by
  unfold openPayload at h
  split at h
  case isTrue =>
    cases h
    exact .inl rfl
  case isFalse =>
    cases hprivate : key.privateOp blinding payload with
    | error fault =>
      rw [hprivate] at h
      cases h
      exact of_privateOp_eq_error hprivate
    | ok block =>
      rw [hprivate] at h
      exact .inl (of_messageOf_eq_error h)

theorem decrypt_eq_ok_iff_block :
    key.decrypt blinding envelope = .ok message ↔
      envelope.length = Envelope.headerLength + key.publicKey.blockLength ∧
        ∃ block, key.privateOp blinding (envelope.drop Envelope.headerLength) = .ok block ∧
          Rsa.Oaep.decode? block = some message := by
  by_cases hlong : Envelope.headerLength ≤ envelope.length
  · have hlength : (envelope.drop Envelope.headerLength).length = key.publicKey.blockLength ↔
        envelope.length = Envelope.headerLength + key.publicKey.blockLength := by
      rw [List.length_drop]
      omega
    rw [decrypt_eq_openPayload hlong, openPayload_eq_ok, hlength]
  · rw [decrypt_of_length_lt (Nat.lt_of_not_le hlong)]
    refine ⟨nofun, ?_⟩
    rintro ⟨hlength, -⟩
    omega

/-- Only an envelope without room for a header is short. -/
theorem decrypt_eq_shortCiphertext :
    key.decrypt blinding envelope = .error .shortCiphertext ↔
      envelope.length < Envelope.headerLength := by
  refine ⟨fun h => Nat.lt_of_not_le fun hlong => ?_, decrypt_of_length_lt⟩
  rw [decrypt_eq_openPayload hlong] at h
  rcases of_openPayload_eq_error h with herror | herror
  · cases herror
  · cases herror

/-! ## Sealing and opening -/

/-- The private operation of a key with prime factors makes a payload the block of its message. -/
theorem decrypt_payload {header seed plaintext : Bytes} (h : key.Checked) (hp : key.p.Prime)
    (hq : key.q.Prime) (hheader : header.length = Envelope.headerLength)
    (hseed : seed.length = Rsa.Oaep.seedLength)
    (hfits : plaintext.length + Rsa.Oaep.overhead ≤ key.publicKey.blockLength) :
    key.decrypt blinding (header ++ key.publicKey.payload seed plaintext) = .ok plaintext := by
  have hpublic : Rsa.publicOp key.publicKey.n key.publicKey.e
      (Bytes.toNat (Rsa.Oaep.encode key.publicKey.blockLength seed plaintext)) <
        key.publicKey.n := by
    rw [Rsa.publicOp, powMod_eq]
    exact Nat.mod_lt _ (h.genuine hp hq).modulus_pos
  have hnumber : Bytes.toNat (key.publicKey.payload seed plaintext) =
      Rsa.publicOp key.publicKey.n key.publicKey.e
        (Bytes.toNat (Rsa.Oaep.encode key.publicKey.blockLength seed plaintext)) :=
    RsaPublicKey.toNat_ofNat_blockLength hpublic
  have hlt : Bytes.toNat (key.publicKey.payload seed plaintext) < key.publicKey.n := by
    rw [hnumber]
    exact hpublic
  have hroot : Rsa.Oaep.encode key.publicKey.blockLength seed plaintext =
      key.root (key.publicKey.payload seed plaintext) :=
    (eq_root_iff h hp hq hlt _).1 ⟨Rsa.Oaep.length_encode hseed hfits,
      RsaPublicKey.toNat_encode_lt hseed hfits, hnumber.symm⟩
  apply decrypt_eq_ok_iff_block.2
  constructor
  · rw [List.length_append, hheader, RsaPublicKey.payload, Bytes.length_ofNat]
  · rw [List.drop_left' hheader]
    refine ⟨_, privateOp_eq_root h hp hq hlt blinding, ?_⟩
    rw [← hroot]
    apply (Rsa.Oaep.decode?_eq_some_iff (Rsa.Oaep.length_encode hseed hfits)).2
    exact ⟨hfits, seed, hseed, rfl⟩

/-- What opens, whatever the factors, is the payload that some seed gives to the message. -/
theorem exists_payload_of_decrypt (h : key.decrypt blinding envelope = .ok message) :
    envelope.length = Envelope.headerLength + key.publicKey.blockLength ∧
      message.length + Rsa.Oaep.overhead ≤ key.publicKey.blockLength ∧
        ∃ seed : Bytes, seed.length = Rsa.Oaep.seedLength ∧
          envelope.drop Envelope.headerLength = key.publicKey.payload seed message := by
  obtain ⟨hlength, block, hprivate, hdecode⟩ := decrypt_eq_ok_iff_block.1 h
  obtain ⟨hblock, hpublic⟩ := of_privateOp_eq_ok hprivate
  obtain ⟨hfits, seed, hseed, rfl⟩ := (Rsa.Oaep.decode?_eq_some_iff hblock).1 hdecode
  refine ⟨hlength, hfits, seed, hseed, ?_⟩
  have hpayload : (envelope.drop Envelope.headerLength).length = key.publicKey.blockLength := by
    rw [List.length_drop]
    omega
  unfold RsaPublicKey.payload
  simp only
  rw [hpublic, Bytes.ofNat_toNat hpayload]

/-- **Sealing has an exact domain, and opening undoes it.** For every private key that was obtained
and has prime factors, every message and every seed that is drawn: the key and its public half seal
alike; they do so just when the message is at least 42 bytes shorter than a block, and otherwise say
that it is too long; an envelope is a header of the key and one block, and opens to the message
whatever the blinding. -/
theorem encrypt_domain_and_decrypt {key : RsaPrivateKey} (hkey : key.Obtained) (hp : key.p.Prime)
    (hq : key.q.Prime) {seed : Bytes} (hseed : seed.length = 20) (rest : Entropy)
    (plaintext : Bytes) :
    key.publicKey.encrypt (seed ++ rest) plaintext = key.encrypt (seed ++ rest) plaintext ∧
    ((∃ envelope, key.encrypt (seed ++ rest) plaintext = .ok envelope) ↔
      plaintext.length ≤ key.size / 8 - 42) ∧
    (key.size / 8 - 42 < plaintext.length →
      key.encrypt (seed ++ rest) plaintext = .error (.rsa .messageTooLong) ∧
        KeyError.message (.rsa .messageTooLong) = "RSA error: message too long") ∧
    ∀ envelope, key.encrypt (seed ++ rest) plaintext = .ok envelope →
      envelope.length = 5 + key.size / 8 ∧ envelope.take 5 = Envelope.header key.keyId ∧
        ∀ blinding, key.decrypt blinding envelope = .ok plaintext := by
  have hchecked := hkey.checked
  have hroom : 64 ≤ key.publicKey.blockLength := hchecked.publicKey.le_blockLength
  have hblock := hchecked.blockLength_eq
  have hbound : plaintext.length + Rsa.Oaep.overhead ≤ key.publicKey.blockLength ↔
      plaintext.length ≤ key.size / 8 - 42 := by
    show plaintext.length + 42 ≤ key.publicKey.blockLength ↔ _
    omega
  have hheader := Envelope.length_header key.keyId
  have htooLong (hlong : key.size / 8 - 42 < plaintext.length) :
      key.encrypt (seed ++ rest) plaintext = .error (.rsa .messageTooLong) :=
    RsaPublicKey.encrypt_of_too_long
      (Nat.lt_of_not_le fun hfits => Nat.not_le_of_lt hlong (hbound.1 hfits)) _
  have hseal (hfits : plaintext.length ≤ key.size / 8 - 42) :
      key.encrypt (seed ++ rest) plaintext =
        .ok (Envelope.header key.keyId ++ key.publicKey.payload seed plaintext) :=
    RsaPublicKey.encrypt_of_fits hseed (hbound.2 hfits) rest
  by_cases hfits : plaintext.length ≤ key.size / 8 - 42
  · rw [hseal hfits]
    refine ⟨hseal hfits, ⟨fun _ => hfits, fun _ => ⟨_, rfl⟩⟩, fun hlong => ?_, ?_⟩
    · exact absurd hfits (Nat.not_le_of_lt hlong)
    · intro envelope h
      cases h
      refine ⟨?_, List.take_left' hheader, fun blinding => ?_⟩
      · rw [List.length_append, hheader, RsaPublicKey.payload, Bytes.length_ofNat, hblock]
        rfl
      · exact decrypt_payload hchecked hp hq hheader hseed (hbound.2 hfits)
  · rw [htooLong (Nat.lt_of_not_le hfits)]
    refine ⟨htooLong (Nat.lt_of_not_le hfits), ⟨?_, fun h => absurd h hfits⟩, ?_, nofun⟩
    · rintro ⟨envelope, h⟩
      cases h
    · exact fun _ => ⟨rfl, rfl⟩

/-- Under a key of the least length, 22 bytes are the longest message. -/
theorem encrypt_domain_and_decrypt_longest :
    (∃ envelope, smoothFactors.publicKey.encrypt (List.replicate 20 0x17)
        (List.replicate 22 0x41) = .ok envelope ∧ envelope.length = 69 ∧
      ∀ blinding, smoothFactors.decrypt blinding envelope = .ok (List.replicate 22 0x41)) ∧
    smoothFactors.publicKey.encrypt (List.replicate 20 0x17) (List.replicate 23 0x41) =
      .error (.rsa .messageTooLong) := by
  have hseed : (List.replicate 20 (0x17 : UInt8)).length = 20 := rfl
  constructor
  · obtain ⟨hhalves, hdomain, -, hopens⟩ := encrypt_domain_and_decrypt obtained_smoothFactors
      prime_p_smoothFactors prime_q_smoothFactors hseed [] (List.replicate 22 0x41)
    obtain ⟨envelope, hseal⟩ := hdomain.2 (by decide)
    obtain ⟨hlength, -, hopen⟩ := hopens envelope hseal
    exact ⟨envelope, hhalves.trans hseal, hlength, hopen⟩
  · obtain ⟨hhalves, -, htooLong, -⟩ := encrypt_domain_and_decrypt obtained_smoothFactors
      prime_p_smoothFactors prime_q_smoothFactors hseed [] (List.replicate 23 0x41)
    exact hhalves.trans (htooLong (by decide)).1

/-- **Opening accepts only what could have been sealed.** For every private key that was obtained,
whether its factors are prime or not, every byte string and every blinding: what opens to a message
is five bytes and one block, and the public half seals the message, with some seed, as its own
header before that block. Only a string without room for a header is refused as short, any other
failure is one of the arithmetic, and the five bytes of the header decide nothing. -/
theorem decrypt_only_sealed {key : RsaPrivateKey} (hkey : key.Obtained) (blinding : Nat)
    (envelope : Bytes) :
    (∀ message, key.decrypt blinding envelope = .ok message →
      envelope.length = 5 + key.size / 8 ∧ message.length ≤ key.size / 8 - 42 ∧
        ∃ seed : Bytes, seed.length = 20 ∧ ∀ rest : Entropy,
          key.publicKey.encrypt (seed ++ rest) message =
            .ok (Envelope.header key.keyId ++ envelope.drop 5)) ∧
    (key.decrypt blinding envelope = .error .shortCiphertext ↔ envelope.length < 5) ∧
    (∀ error, key.decrypt blinding envelope = .error error → error ≠ .shortCiphertext →
      error = .rsa .decryption ∨ error = .rsa .internal) ∧
    ∀ other : Bytes, 5 ≤ envelope.length → 5 ≤ other.length → other.drop 5 = envelope.drop 5 →
      key.decrypt blinding other = key.decrypt blinding envelope := by
  have hchecked := hkey.checked
  have hblock := hchecked.blockLength_eq
  refine ⟨?_, decrypt_eq_shortCiphertext, ?_, ?_⟩
  · intro message h
    obtain ⟨hlength, hfits, seed, hseed, hpayload⟩ := exists_payload_of_decrypt h
    refine ⟨?_, ?_, seed, hseed, fun rest => ?_⟩
    · rw [hlength, hblock]
      rfl
    · change message.length + 42 ≤ _ at hfits
      omega
    · rw [RsaPublicKey.encrypt_of_fits hseed hfits, ← hpayload]
      rfl
  · intro error h hother
    by_cases hlong : Envelope.headerLength ≤ envelope.length
    · rw [decrypt_eq_openPayload hlong] at h
      exact of_openPayload_eq_error h
    · rw [decrypt_of_length_lt (Nat.lt_of_not_le hlong)] at h
      cases h
      exact absurd rfl hother
  · intro other henvelope hother hdrop
    have hpayload : other.drop Envelope.headerLength = envelope.drop Envelope.headerLength := hdrop
    rw [decrypt_eq_openPayload hother, decrypt_eq_openPayload henvelope, hpayload]

/-- An envelope with another header than the one it was sealed with opens all the same, and its
message is sealed as that block again, with some seed. -/
theorem decrypt_only_sealed_longest :
    ∃ envelope : Bytes, envelope.take 5 = List.replicate 5 0xFF ∧
      smoothFactors.decrypt 2 envelope = .ok (List.replicate 22 0x41) ∧
      ∃ seed : Bytes, seed.length = 20 ∧ ∀ rest : Entropy,
        smoothFactors.publicKey.encrypt (seed ++ rest) (List.replicate 22 0x41) =
          .ok (Envelope.header smoothFactors.keyId ++ envelope.drop 5) := by
  let payload := smoothFactors.publicKey.payload (List.replicate 20 0x17) (List.replicate 22 0x41)
  have hfits : 22 + Rsa.Oaep.overhead ≤ smoothFactors.publicKey.blockLength := by decide +kernel
  have hopen : smoothFactors.decrypt 2 (List.replicate 5 0xFF ++ payload) =
      .ok (List.replicate 22 0x41) :=
    decrypt_payload obtained_smoothFactors.checked prime_p_smoothFactors prime_q_smoothFactors rfl
      rfl hfits
  obtain ⟨hsealed, -⟩ := decrypt_only_sealed obtained_smoothFactors 2
    (List.replicate 5 0xFF ++ payload)
  obtain ⟨-, -, seed, hseed, hagain⟩ := hsealed _ hopen
  exact ⟨_, List.take_left' rfl, hopen, seed, hseed, hagain⟩

end RsaPrivateKey

end Keyring
