import Keyring.Proofs.Key.SymmetricEnvelope

/-!
# Symmetric envelopes are verified before they are opened

The tag is compared before the cipher is used, so that the outcome of an envelope that is not
authentic depends on the MAC key alone. Main statement: which outcome each envelope has, that two
keys with the same MAC key agree on every refusal before opening, and what a changed envelope must
carry not to be refused.
-/

namespace Keyring

namespace SymmetricKey

variable {key : SymmetricKey} {envelope message tag : Bytes}

/-! ## What is signed -/

/-- What the tag of an envelope covers: everything before its last twenty bytes. -/
def messagePart (envelope : Bytes) : Bytes :=
  envelope.take (envelope.length - Hmac.tagSize)

/-- The last twenty bytes of an envelope. -/
def tagPart (envelope : Bytes) : Bytes :=
  envelope.drop (envelope.length - Hmac.tagSize)

/-- The envelope carries the tag that belongs to it under the MAC key. -/
def Authentic (key : SymmetricKey) (envelope : Bytes) : Prop :=
  tagPart envelope = Hmac.tag key.macKey.bytes (messagePart envelope)

theorem messagePart_append_tagPart (envelope : Bytes) :
    messagePart envelope ++ tagPart envelope = envelope :=
  List.take_append_drop ..

theorem messagePart_append (htag : tag.length = Hmac.tagSize) :
    messagePart (message ++ tag) = message := by
  rw [messagePart, List.length_append, htag, Nat.add_sub_cancel, List.take_left]

theorem tagPart_append (htag : tag.length = Hmac.tagSize) :
    tagPart (message ++ tag) = tag := by
  rw [tagPart, List.length_append, htag, Nat.add_sub_cancel, List.drop_left]

/-! ## Outcomes -/

/-- Opening an envelope that is long enough: the tag is compared first, and only an authentic
envelope reaches the cipher and the padding. -/
theorem decrypt_of_length (key : SymmetricKey) (h : minEnvelopeLength ≤ envelope.length) :
    (¬ key.Authentic envelope ∧ key.decrypt envelope = .error .invalidSignature) ∨
      key.Authentic envelope ∧ ∃ initial body : Bytes, initial.length = Aes.blockSize ∧
        key.decrypt envelope =
          Cbc.decrypt key.bytes initial body >>= Padding.unpad Aes.blockSize := by
  obtain ⟨header, initial, body, tag, hheader, hinitial, htag, rfl⟩ := exists_parts h
  rw [decrypt_parts key hheader hinitial htag, Authentic, messagePart_append htag,
    tagPart_append htag]
  by_cases hsign : key.macKey.sign (header ++ initial ++ body) = tag
  · rw [if_pos hsign]
    exact .inr ⟨hsign.symm, initial, body, hinitial, rfl⟩
  · rw [if_neg hsign]
    exact .inl ⟨fun h => hsign h.symm, rfl⟩

/-- Past the tag, the padding or the length of the AES key is at fault. -/
theorem of_open_eq_error {bytes initial body : Bytes} {error : KeyError}
    (hinitial : initial.length = Aes.blockSize)
    (h : Cbc.decrypt bytes initial body >>= Padding.unpad Aes.blockSize = .error error) :
    error = .invalidPadding ∨ error = .invalidKeyLength ∧
      ¬ (bytes.length = 16 ∨ bytes.length = 24 ∨ bytes.length = 32) := by
  cases hdecrypt : Cbc.decrypt bytes initial body with
  | error e =>
    rw [hdecrypt] at h
    cases h
    rcases Cbc.of_decrypt_eq_error hdecrypt with rfl | ⟨rfl, hlengths⟩
    · exact .inl rfl
    · exact .inr ⟨rfl, fun hbytes => hlengths ⟨hbytes, hinitial⟩⟩
  | ok padded =>
    rw [hdecrypt] at h
    exact .inl (Padding.eq_invalidPadding_of_unpad h)

/-- What is at fault in an envelope that is long enough: its tag, or something past an authentic
tag. -/
theorem of_decrypt_eq_error {error : KeyError} (hlength : minEnvelopeLength ≤ envelope.length)
    (h : key.decrypt envelope = .error error) :
    (¬ key.Authentic envelope ∧ error = .invalidSignature) ∨
      key.Authentic envelope ∧ (error = .invalidPadding ∨ error = .invalidKeyLength ∧
        ¬ (key.bytes.length = 16 ∨ key.bytes.length = 24 ∨ key.bytes.length = 32)) := by
  rcases decrypt_of_length key hlength with
    ⟨hforged, hrefused⟩ | ⟨hauthentic, initial, body, hinitial, hopened⟩
  · rw [hrefused] at h
    cases h
    exact .inl ⟨hforged, rfl⟩
  · rw [hopened] at h
    exact .inr ⟨hauthentic, of_open_eq_error hinitial h⟩

theorem decrypt_eq_shortCiphertext :
    key.decrypt envelope = .error .shortCiphertext ↔ envelope.length < minEnvelopeLength := by
  constructor
  · intro h
    apply Nat.lt_of_not_le
    intro hlength
    rcases of_decrypt_eq_error hlength h with ⟨-, herror⟩ | ⟨-, herror | ⟨herror, -⟩⟩
    all_goals cases herror
  · intro h
    exact if_pos h

theorem decrypt_eq_invalidSignature :
    key.decrypt envelope = .error .invalidSignature ↔
      minEnvelopeLength ≤ envelope.length ∧ ¬ key.Authentic envelope := by
  constructor
  · intro h
    have hlength : minEnvelopeLength ≤ envelope.length := by
      apply Nat.le_of_not_lt
      intro hshort
      rw [decrypt_eq_shortCiphertext.2 hshort] at h
      cases h
    rcases of_decrypt_eq_error hlength h with ⟨hforged, -⟩ | ⟨-, herror | ⟨herror, -⟩⟩
    · exact ⟨hlength, hforged⟩
    · cases herror
    · cases herror
  · rintro ⟨hlength, hforged⟩
    rcases decrypt_of_length key hlength with ⟨-, hrefused⟩ | ⟨hauthentic, -⟩
    · exact hrefused
    · exact absurd hauthentic hforged

/-- An authentic envelope opens, or its padding is refused; a key that was obtained has no other
outcome. -/
theorem decrypt_of_authentic (hkey : key.Obtained) (hlength : minEnvelopeLength ≤ envelope.length)
    (hauthentic : key.Authentic envelope) :
    (∃ plaintext, key.decrypt envelope = .ok plaintext) ∨
      key.decrypt envelope = .error .invalidPadding := by
  cases h : key.decrypt envelope with
  | ok plaintext => exact .inl ⟨plaintext, rfl⟩
  | error error =>
    rcases of_decrypt_eq_error hlength h with ⟨hforged, -⟩ | ⟨-, rfl | ⟨-, hlengths⟩⟩
    · exact absurd hauthentic hforged
    · exact .inr rfl
    · exact absurd hkey.length_bytes hlengths

/-! ## Staying within bounds -/

/-- Opening, with every access to the bytes checked. -/
def decryptRanged (key : SymmetricKey) (envelope : Bytes) : Ranged Bytes :=
  if envelope.length < minEnvelopeLength then .within (.error .shortCiphertext)
  else do
    let (message, tag) ←
      Ranged.splitAt? envelope (← Ranged.sub? envelope.length Hmac.tagSize)
    if key.macKey.verify message tag then do
      let (_, rest) ← Ranged.splitAt? message Envelope.headerLength
      let (initial, body) ← Ranged.splitAt? rest Aes.blockSize
      let padded ← Ranged.within (Cbc.decrypt key.bytes initial body)
      Padding.unpadRanged Aes.blockSize padded
    else .within (.error .invalidSignature)

/-- Whatever the key and the envelope are, no access is out of bounds. -/
theorem decryptRanged_eq (key : SymmetricKey) (envelope : Bytes) :
    key.decryptRanged envelope = .within (key.decrypt envelope) := by
  unfold decryptRanged decrypt
  -- the length test bounds every offset that is taken after it
  by_cases hshort : envelope.length < minEnvelopeLength
  · rw [if_pos hshort, if_pos hshort]
  · have hlength : Envelope.headerLength + Aes.blockSize + Hmac.tagSize ≤ envelope.length :=
      Nat.le_of_not_lt hshort
    have hmessage : (envelope.take (envelope.length - Hmac.tagSize)).length =
        envelope.length - Hmac.tagSize := List.length_take_of_le (Nat.sub_le ..)
    have hrest : ((envelope.take (envelope.length - Hmac.tagSize)).drop
        Envelope.headerLength).length = envelope.length - Hmac.tagSize - Envelope.headerLength := by
      rw [List.length_drop, hmessage]
    rw [if_neg hshort, if_neg hshort, Ranged.sub?_of_le (by omega), Ranged.within_ok_bind,
      Ranged.splitAt?_of_le (Nat.sub_le ..), Ranged.within_ok_bind]
    simp only
    split
    case isFalse => rfl
    case isTrue =>
      rw [Ranged.splitAt?_of_le (by omega), Ranged.within_ok_bind]
      simp only
      rw [Ranged.splitAt?_of_le (by omega), Ranged.within_ok_bind]
      simp only
      cases Cbc.decrypt key.bytes _ _ with
      | error error => rfl
      | ok padded => exact Padding.unpadRanged_eq Aes.blockSize padded

/-! ## Changed envelopes -/

theorem authentic_of_encrypt {entropy : Entropy} {plaintext : Bytes}
    (h : key.encrypt entropy plaintext = .ok envelope) :
    minEnvelopeLength ≤ envelope.length ∧ key.Authentic envelope := by
  obtain ⟨initial, rest, body, -, hinitial, -, rfl⟩ := encrypt_eq_ok_iff_sealed.1 h
  have htag := key.macKey.length_sign (Envelope.header key.keyId ++ initial ++ body)
  constructor
  · simp only [sealed, List.length_append, Envelope.length_header, hinitial, htag,
      minEnvelopeLength]
    omega
  · rw [Authentic, sealed, tagPart_append htag, messagePart_append htag]
    rfl

/-- The message part of an authentic envelope determines the envelope. -/
theorem Authentic.eq_of_messagePart_eq {original : Bytes} (h : key.Authentic envelope)
    (horiginal : key.Authentic original) (heq : messagePart envelope = messagePart original) :
    envelope = original := by
  calc envelope = messagePart envelope ++ tagPart envelope :=
        (messagePart_append_tagPart envelope).symm
    _ = messagePart original ++ tagPart original := by rw [h, horiginal, heq]
    _ = original := messagePart_append_tagPart original

/-- **Nothing is opened before it is verified.** No access of an opening is out of bounds. An
envelope is too short just below 41 bytes, is refused for its signature just when it is long enough
and its last twenty bytes are not the tag of the rest, and otherwise opens or is refused for its
padding. A key with the same MAC key, whatever its AES key, refuses the same envelopes for the same
of these two causes. And a changed envelope is refused unless it carries another message part with
its own tag; so it always is when only its last twenty bytes were changed. -/
theorem decrypt_verifies_first {key : SymmetricKey} (hkey : key.Obtained) (envelope : Bytes) :
    key.decryptRanged envelope = .within (key.decrypt envelope) ∧
    (key.decrypt envelope = .error .shortCiphertext ↔ envelope.length < 41) ∧
    (key.decrypt envelope = .error .invalidSignature ↔
      41 ≤ envelope.length ∧ ¬ key.Authentic envelope) ∧
    (41 ≤ envelope.length → key.Authentic envelope →
      (∃ plaintext, key.decrypt envelope = .ok plaintext) ∨
        key.decrypt envelope = .error .invalidPadding) ∧
    (∀ other : SymmetricKey, other.macKey = key.macKey →
      (key.decrypt envelope = .error .shortCiphertext ↔
        other.decrypt envelope = .error .shortCiphertext) ∧
      (key.decrypt envelope = .error .invalidSignature ↔
        other.decrypt envelope = .error .invalidSignature)) ∧
    (∀ (entropy : Entropy) (plaintext original : Bytes),
      key.encrypt entropy plaintext = .ok original → envelope ≠ original →
      (41 ≤ envelope.length → key.decrypt envelope = .error .invalidSignature ∨
        messagePart envelope ≠ messagePart original ∧ key.Authentic envelope) ∧
      (envelope.length = original.length → messagePart envelope = messagePart original →
        key.decrypt envelope = .error .invalidSignature)) := by
  refine ⟨decryptRanged_eq key envelope, decrypt_eq_shortCiphertext, decrypt_eq_invalidSignature,
    decrypt_of_authentic hkey, ?_, ?_⟩
  · intro other hmac
    have hauthentic : other.Authentic envelope ↔ key.Authentic envelope := by
      rw [Authentic, Authentic, hmac]
    rw [decrypt_eq_shortCiphertext, decrypt_eq_shortCiphertext, decrypt_eq_invalidSignature,
      decrypt_eq_invalidSignature, hauthentic]
    exact ⟨Iff.rfl, Iff.rfl⟩
  · intro entropy plaintext original horiginal hne
    obtain ⟨hlength, hown⟩ := authentic_of_encrypt horiginal
    have hsame : messagePart envelope = messagePart original → ¬ key.Authentic envelope := by
      intro heq hauthentic
      exact hne (hauthentic.eq_of_messagePart_eq hown heq)
    constructor
    · intro hlong
      by_cases hauthentic : key.Authentic envelope
      · exact .inr ⟨fun heq => hsame heq hauthentic, hauthentic⟩
      · exact .inl (decrypt_eq_invalidSignature.2 ⟨hlong, hauthentic⟩)
    · intro hlengths heq
      exact decrypt_eq_invalidSignature.2 ⟨hlengths ▸ hlength, hsame heq⟩

/-- The shortest envelope that is looked at, with a tag of zeros. -/
theorem decrypt_verifies_first_zeros :
    (SymmetricKey.mk (List.replicate 16 0x40) ⟨List.replicate 20 0x60⟩).decrypt
      (List.replicate 41 0) = .error .invalidSignature := by
  have hkey := obtained_shortest 0x40 0x60
  obtain ⟨-, -, hsignature, -⟩ := decrypt_verifies_first hkey (List.replicate 41 0)
  refine hsignature.2 ⟨by decide, ?_⟩
  show ¬ List.replicate 20 0 = Hmac.tag (List.replicate 20 0x60) (List.replicate 21 0)
  decide +kernel

end SymmetricKey

end Keyring
