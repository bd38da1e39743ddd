import Keyring.Proofs.Cipher.Chain
import Keyring.Proofs.Format.Padding
import Keyring.Proofs.Key.Obtained

/-!
# Symmetric envelopes open to what was sealed

An envelope is a header of five bytes, an initial block, the chained blocks of the padded message,
and the tag of all of that. Main statements: sealing a message never fails, and the envelope opens
to the message; an envelope that opens was put together in just this way, so that there is no second
spelling of a body or of a tag.
-/

namespace Keyring

theorem MacKey.length_sign (key : MacKey) (message : Bytes) :
    (key.sign message).length = Hmac.tagSize :=
  Hmac.length_tag _ _

theorem MacKey.verify_iff {key : MacKey} {message signature : Bytes} :
    key.verify message signature = true ↔ key.sign message = signature := by
  unfold verify
  split
  case isTrue hlength =>
    refine ⟨nofun, ?_⟩
    rintro rfl
    exact absurd (key.length_sign message) hlength
  case isFalse => exact beq_iff_eq

namespace SymmetricKey

variable {key : SymmetricKey} {header initial body tag envelope plaintext : Bytes}

/-! ## The parts of an envelope -/

/-- An envelope of its parts, with the tag that belongs to them. -/
def sealed (key : SymmetricKey) (header initial body : Bytes) : Bytes :=
  header ++ initial ++ body ++ key.macKey.sign (header ++ initial ++ body)

theorem take_sealed (hheader : header.length = Envelope.headerLength) :
    (key.sealed header initial body).take Envelope.headerLength = header := by
  simp only [sealed, List.append_assoc, List.take_left' hheader]

theorem take_drop_sealed (hheader : header.length = Envelope.headerLength)
    (hinitial : initial.length = Aes.blockSize) :
    ((key.sealed header initial body).drop Envelope.headerLength).take Aes.blockSize = initial := by
  simp only [sealed, List.append_assoc, List.drop_left' hheader, List.take_left' hinitial]

theorem exists_append_of_le {n : Nat} {bytes : Bytes} (h : n ≤ bytes.length) :
    ∃ front back : Bytes, front.length = n ∧ bytes = front ++ back :=
  ⟨bytes.take n, bytes.drop n, List.length_take_of_le h, (List.take_append_drop n bytes).symm⟩

/-- An envelope that is long enough has all its parts. -/
theorem exists_parts (h : minEnvelopeLength ≤ envelope.length) :
    ∃ header initial body tag : Bytes, header.length = Envelope.headerLength ∧
      initial.length = Aes.blockSize ∧ tag.length = Hmac.tagSize ∧
      envelope = header ++ initial ++ body ++ tag := by
  rw [minEnvelopeLength] at h
  obtain ⟨message, tag, hmessage, rfl⟩ :=
    exists_append_of_le (Nat.sub_le envelope.length Hmac.tagSize)
  rw [List.length_append] at h hmessage
  have htag : tag.length = Hmac.tagSize := by omega
  obtain ⟨header, rest, hheader, rfl⟩ :=
    exists_append_of_le (show Envelope.headerLength ≤ message.length by omega)
  rw [List.length_append] at h
  obtain ⟨initial, body, hinitial, rfl⟩ :=
    exists_append_of_le (show Aes.blockSize ≤ rest.length by omega)
  exact ⟨header, initial, body, tag, hheader, hinitial, htag, by simp only [List.append_assoc]⟩

/-- What opening does to an envelope of given parts: the tag decides whether the cipher is used. -/
theorem decrypt_parts (key : SymmetricKey) (hheader : header.length = Envelope.headerLength)
    (hinitial : initial.length = Aes.blockSize) (htag : tag.length = Hmac.tagSize) :
    key.decrypt (header ++ initial ++ body ++ tag) =
      if key.macKey.sign (header ++ initial ++ body) = tag then
        Cbc.decrypt key.bytes initial body >>= Padding.unpad Aes.blockSize
      else .error .invalidSignature := by
  have hlength : ¬ (header ++ initial ++ body ++ tag).length < minEnvelopeLength := by
    simp only [List.length_append, minEnvelopeLength]
    omega
  have hsplit : (header ++ initial ++ body ++ tag).length - Hmac.tagSize =
      (header ++ initial ++ body).length := by
    rw [@List.length_append _ _ tag]
    omega
  have hrest : (header ++ initial ++ body).drop Envelope.headerLength = initial ++ body := by
    rw [List.append_assoc, List.drop_left' hheader]
  unfold decrypt
  rw [if_neg hlength]
  simp only [hsplit, List.take_left, List.drop_left, MacKey.verify_iff, hrest,
    List.take_left' hinitial, List.drop_left' hinitial]

/-! ## Sealing and opening -/

/-- What opens is what was put together from a header, an initial block and the chained blocks of
the padded message, with its own tag. -/
theorem decrypt_eq_ok_iff_sealed :
    key.decrypt envelope = .ok plaintext ↔
      ∃ header initial body, header.length = Envelope.headerLength ∧
        initial.length = Aes.blockSize ∧
        Cbc.encrypt key.bytes initial (Padding.pad Aes.blockSize plaintext) = .ok body ∧
        envelope = key.sealed header initial body := by
  constructor
  · intro h
    by_cases hlength : envelope.length < minEnvelopeLength
    · rw [decrypt, if_pos hlength] at h
      cases h
    · obtain ⟨header, initial, body, tag, hheader, hinitial, htag, rfl⟩ :=
        exists_parts (Nat.le_of_not_lt hlength)
      rw [decrypt_parts key hheader hinitial htag] at h
      split at h
      case isFalse => cases h
      case isTrue hsign =>
        obtain ⟨padded, hpadded, hunpad⟩ := Result.bind_eq_ok.1 h
        -- only padded messages are unpadded, and only encryptions are decrypted
        obtain rfl := (Padding.unpad_eq_ok_iff_pad (by decide) (by decide)).1 hunpad
        refine ⟨header, initial, body, hheader, hinitial, ?_, ?_⟩
        · exact Cbc.encrypt_eq_ok_iff_decrypt.2 hpadded
        · rw [sealed, hsign]
  · rintro ⟨header, initial, body, hheader, hinitial, hbody, rfl⟩
    rw [sealed, decrypt_parts key hheader hinitial (MacKey.length_sign _ _), if_pos rfl]
    apply Result.bind_eq_ok.2
    refine ⟨Padding.pad Aes.blockSize plaintext, ?_, ?_⟩
    · exact Cbc.encrypt_eq_ok_iff_decrypt.1 hbody
    · exact (Padding.unpad_eq_ok_iff_pad (by decide) (by decide)).2 rfl

/-- What sealing does: the header is the key's own, and the initial block is the one drawn. -/
theorem encrypt_eq_ok_iff_sealed {entropy : Entropy} :
    key.encrypt entropy plaintext = .ok envelope ↔
      ∃ initial rest body, entropy = initial ++ rest ∧ initial.length = Aes.blockSize ∧
        Cbc.encrypt key.bytes initial (Padding.pad Aes.blockSize plaintext) = .ok body ∧
        envelope = key.sealed (Envelope.header key.keyId) initial body := by
  unfold encrypt
  constructor
  · intro h
    split at h
    case h_1 => cases h
    case h_2 initial rest hdraw =>
      obtain ⟨hentropy, hinitial⟩ := Entropy.eq_append_of_draw? hdraw
      obtain ⟨body, hbody, h⟩ := Result.bind_eq_ok.1 h
      cases h
      exact ⟨initial, rest, body, hentropy, hinitial, hbody, rfl⟩
  · rintro ⟨initial, rest, body, rfl, hinitial, hbody, rfl⟩
    rw [← hinitial, Entropy.draw?_append]
    simp only [hinitial, hbody]
    rfl

/-- **Sealing is total and opening undoes it.** For every key that was obtained, every message and
every initial block that is drawn, the cipher is given whole blocks and succeeds; the envelope is
the header of the key, the initial block, a body of the least whole number of blocks longer than the
message, and the tag of all of that; and it opens to the message. -/
theorem encrypt_layout_and_decrypt {key : SymmetricKey} (hkey : key.Obtained) (plaintext : Bytes)
    {initial : Bytes} (hinitial : initial.length = 16) (rest : Entropy) :
    ∃ body envelope : Bytes,
      16 ∣ (Padding.pad 16 plaintext).length ∧
      Cbc.encrypt key.bytes initial (Padding.pad 16 plaintext) = .ok body ∧
      IsLeast {n | 16 ∣ n ∧ plaintext.length < n} body.length ∧
      envelope = Envelope.header key.keyId ++ initial ++ body ++
        Hmac.tag key.macKey.bytes (Envelope.header key.keyId ++ initial ++ body) ∧
      key.encrypt (initial ++ rest) plaintext = .ok envelope ∧
      key.decrypt envelope = .ok plaintext := by
  have hleast := Padding.isLeast_length_pad (by decide : 0 < Aes.blockSize) plaintext
  have hwhole : Aes.blockSize ∣ (Padding.pad Aes.blockSize plaintext).length := hleast.1.1
  obtain ⟨body, hbody⟩ := Cbc.exists_encrypt_eq_ok.2 ⟨hkey.length_bytes, hinitial, hwhole⟩
  refine ⟨body, key.sealed (Envelope.header key.keyId) initial body, hwhole, hbody, ?_, rfl, ?_, ?_⟩
  · rw [Cbc.length_of_encrypt hbody]
    exact hleast
  · exact encrypt_eq_ok_iff_sealed.2 ⟨initial, rest, body, rfl, hinitial, hbody, rfl⟩
  · exact decrypt_eq_ok_iff_sealed.2
      ⟨_, initial, body, Envelope.length_header _, hinitial, hbody, rfl⟩

/-- A message of exactly one block is followed by a block of filling. -/
theorem encrypt_layout_and_decrypt_block :
    ∃ body envelope : Bytes, body.length = 32 ∧
      (SymmetricKey.mk (List.replicate 16 0x40) ⟨List.replicate 20 0x60⟩).encrypt
        (List.replicate 16 0x17) (List.replicate 16 0x41) = .ok envelope ∧
      (SymmetricKey.mk (List.replicate 16 0x40) ⟨List.replicate 20 0x60⟩).decrypt envelope =
        .ok (List.replicate 16 0x41) := by
  have hkey := obtained_shortest 0x40 0x60
  have hinitial : (List.replicate 16 (0x17 : UInt8)).length = 16 := rfl
  obtain ⟨body, envelope, -, -, ⟨⟨hwhole, hlonger⟩, hleast⟩, -, hseal, hopen⟩ :=
    encrypt_layout_and_decrypt hkey (List.replicate 16 0x41) hinitial []
  have hle : body.length ≤ 32 := hleast ⟨by decide, by decide⟩
  rw [List.length_replicate] at hlonger
  exact ⟨body, envelope, by omega, hseal, hopen⟩

/-- **Opening accepts exactly what sealing makes.** An envelope opens to a message just when it
consists of five bytes, an initial block, the chained blocks of the padded message and the tag of
all of that; and when the five bytes are the header of the key, just when sealing the message with
that initial block gives the envelope byte for byte. -/
theorem decrypt_eq_ok_iff (key : SymmetricKey) (envelope plaintext : Bytes) :
    (key.decrypt envelope = .ok plaintext ↔
      ∃ header initial body, header.length = 5 ∧ initial.length = 16 ∧
        Cbc.encrypt key.bytes initial (Padding.pad 16 plaintext) = .ok body ∧
        envelope = header ++ initial ++ body ++
          Hmac.tag key.macKey.bytes (header ++ initial ++ body)) ∧
    (key.decrypt envelope = .ok plaintext ∧ envelope.take 5 = Envelope.header key.keyId ↔
      ∀ rest : Entropy,
        key.encrypt ((envelope.drop 5).take 16 ++ rest) plaintext = .ok envelope) := by
  refine ⟨decrypt_eq_ok_iff_sealed, ?_⟩
  constructor
  · rintro ⟨hopen, hown⟩ rest
    obtain ⟨header, initial, body, hheader, hinitial, hbody, rfl⟩ :=
      decrypt_eq_ok_iff_sealed.1 hopen
    obtain rfl : header = Envelope.header key.keyId := (take_sealed hheader).symm.trans hown
    apply encrypt_eq_ok_iff_sealed.2
    refine ⟨initial, rest, body, ?_, hinitial, hbody, rfl⟩
    exact congrArg (· ++ rest) (take_drop_sealed hheader hinitial)
  · intro hseal
    obtain ⟨initial, rest, body, -, hinitial, hbody, rfl⟩ :=
      encrypt_eq_ok_iff_sealed.1 (hseal [])
    have hheader := Envelope.length_header key.keyId
    constructor
    · exact decrypt_eq_ok_iff_sealed.2 ⟨_, initial, body, hheader, hinitial, hbody, rfl⟩
    · exact take_sealed hheader

end SymmetricKey

end Keyring
