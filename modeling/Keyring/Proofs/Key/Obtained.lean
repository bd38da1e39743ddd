import Keyring.Key.Symmetric

/-!
# Where keys come from

A key is obtained by one of the operations that make keys: from its bytes, from a pack, from a
record, or newly made. Each of them checks the length of the key in a way of its own; what follows
is that a key that was obtained has one of the listed lengths, whichever way it took.
-/

namespace Keyring

/-- Every listed size is a whole number of bytes. -/
theorem KeyType.eight_mul_div_eight {keyType : KeyType} {bits : Nat}
    (h : bits ∈ keyType.acceptableSizes) : 8 * (bits / 8) = bits := by
  cases keyType <;> simp only [acceptableSizes, List.mem_cons, List.not_mem_nil, or_false] at h <;>
    omega

/-! ## MAC keys -/

namespace MacKey

/-- The ways to come by a MAC key. -/
inductive Obtained : MacKey → Prop
  | ofBytes {bytes : Bytes} {key : MacKey} (h : MacKey.ofBytes bytes = .ok key) : Obtained key
  | ofRecordText {text : String} {key : MacKey} (h : MacKey.ofRecordText text = .ok key) :
    Obtained key
  | generate {bits : Nat} {entropy rest : Entropy} {key : MacKey}
    (h : MacKey.generate bits entropy = .ok (key, rest)) : Obtained key

theorem size_mem_of_ofBytes {bytes : Bytes} {key : MacKey} (h : MacKey.ofBytes bytes = .ok key) :
    key.size ∈ KeyType.hmacSha1.acceptableSizes := by
  obtain ⟨⟨⟩, hsize, h⟩ := Result.bind_eq_ok.1 h
  cases h
  exact KeyType.checkByteLength_eq_ok.1 hsize

theorem size_mem_of_ofRecord {record : Record.Mac} {key : MacKey} (h : ofRecord record = .ok key) :
    key.size ∈ KeyType.hmacSha1.acceptableSizes := by
  obtain ⟨⟨⟩, hsize, h⟩ := Result.bind_eq_ok.1 h
  obtain ⟨bytes, -, h⟩ := Result.bind_eq_ok.1 h
  split at h
  case isTrue => cases h
  case isFalse hbytes =>
    cases h
    rw [size, Decidable.not_not.1 hbytes]
    exact KeyType.checkSize_eq_ok.1 hsize

theorem size_mem_of_generate {bits : Nat} {entropy rest : Entropy} {key : MacKey}
    (h : MacKey.generate bits entropy = .ok (key, rest)) :
    key.size ∈ KeyType.hmacSha1.acceptableSizes := by
  obtain ⟨⟨⟩, hsize, h⟩ := Result.bind_eq_ok.1 h
  have hbits : bits ∈ KeyType.hmacSha1.acceptableSizes := KeyType.checkSize_eq_ok.1 hsize
  split at h
  case h_1 bytes left hdraw =>
    cases h
    obtain ⟨-, hlength⟩ := Entropy.eq_append_of_draw? hdraw
    rw [size, hlength, KeyType.eight_mul_div_eight hbits]
    exact hbits
  case h_2 => cases h

theorem Obtained.size_mem {key : MacKey} (h : key.Obtained) :
    key.size ∈ KeyType.hmacSha1.acceptableSizes := by
  cases h with
  | ofBytes h => exact size_mem_of_ofBytes h
  | ofRecordText h =>
    obtain ⟨record, -, h⟩ := Result.bind_eq_ok.1 h
    exact size_mem_of_ofRecord h
  | generate h => exact size_mem_of_generate h

end MacKey

/-! ## Symmetric keys -/

namespace SymmetricKey

/-- The ways to come by a symmetric key. -/
inductive Obtained : SymmetricKey → Prop
  | ofBytes {bytes : Bytes} {macKey : MacKey} {key : SymmetricKey} (hmac : macKey.Obtained)
    (h : SymmetricKey.ofBytes bytes macKey = .ok key) : Obtained key
  | ofPacked {pack : Bytes} {key : SymmetricKey} (h : SymmetricKey.ofPacked pack = .ok key) :
    Obtained key
  | ofRecordText {text : String} {key : SymmetricKey}
    (h : SymmetricKey.ofRecordText text = .ok key) : Obtained key
  | generate {bits macBits : Nat} {entropy : Entropy} {key : SymmetricKey}
    (h : SymmetricKey.generate bits macBits entropy = .ok key) : Obtained key

/-! What each way of making a key checks: the length of the AES part, and the MAC key in a way of
making MAC keys. -/

theorem of_ofBytes_eq_ok {bytes : Bytes} {macKey : MacKey} {key : SymmetricKey}
    (h : SymmetricKey.ofBytes bytes macKey = .ok key) :
    key.size ∈ KeyType.aes.acceptableSizes ∧ key.macKey = macKey := by
  obtain ⟨⟨⟩, hsize, h⟩ := Result.bind_eq_ok.1 h
  cases h
  exact ⟨KeyType.checkByteLength_eq_ok.1 hsize, rfl⟩

theorem of_ofPacked_eq_ok {pack : Bytes} {key : SymmetricKey}
    (h : SymmetricKey.ofPacked pack = .ok key) :
    key.size ∈ KeyType.aes.acceptableSizes ∧ ∃ bytes, MacKey.ofBytes bytes = .ok key.macKey := by
  obtain ⟨parts, -, h⟩ := Result.bind_eq_ok.1 h
  split at h
  case h_1 bytes macBytes =>
    obtain ⟨macKey, hmac, h⟩ := Result.bind_eq_ok.1 h
    obtain ⟨hsize, rfl⟩ := of_ofBytes_eq_ok h
    exact ⟨hsize, macBytes, hmac⟩
  case h_2 => cases h

/-- A record is not checked by `ofBytes`: its declared size is checked against the list, and the
bytes against the declared size. -/
theorem of_ofRecord_eq_ok {record : Record.Symmetric} {key : SymmetricKey}
    (h : ofRecord record = .ok key) :
    key.size ∈ KeyType.aes.acceptableSizes ∧ MacKey.ofRecord record.macKey = .ok key.macKey := by
  obtain ⟨⟨⟩, hsize, h⟩ := Result.bind_eq_ok.1 h
  split at h
  case isTrue => cases h
  case isFalse =>
    obtain ⟨macKey, hmac, h⟩ := Result.bind_eq_ok.1 h
    obtain ⟨bytes, -, h⟩ := Result.bind_eq_ok.1 h
    split at h
    case isTrue => cases h
    case isFalse hbytes =>
      cases h
      rw [size, Decidable.not_not.1 hbytes]
      exact ⟨KeyType.checkSize_eq_ok.1 hsize, hmac⟩

theorem of_generate_eq_ok {bits macBits : Nat} {entropy : Entropy} {key : SymmetricKey}
    (h : SymmetricKey.generate bits macBits entropy = .ok key) :
    key.size ∈ KeyType.aes.acceptableSizes ∧
      ∃ rest, MacKey.generate macBits entropy = .ok (key.macKey, rest) := by
  obtain ⟨⟨⟩, hsize, h⟩ := Result.bind_eq_ok.1 h
  obtain ⟨⟨macKey, left⟩, hmac, h⟩ := Result.bind_eq_ok.1 h
  have hbits : bits ∈ KeyType.aes.acceptableSizes := KeyType.checkSize_eq_ok.1 hsize
  simp only at h
  split at h
  case h_1 bytes rest hdraw =>
    cases h
    obtain ⟨-, hlength⟩ := Entropy.eq_append_of_draw? hdraw
    rw [size, hlength, KeyType.eight_mul_div_eight hbits]
    exact ⟨hbits, left, hmac⟩
  case h_2 => cases h

/-- However it was obtained, the AES part has one of the lengths that the cipher knows. -/
theorem Obtained.size_mem {key : SymmetricKey} (h : key.Obtained) :
    key.size ∈ KeyType.aes.acceptableSizes := by
  cases h with
  | ofBytes hmac h => exact (of_ofBytes_eq_ok h).1
  | ofPacked h => exact (of_ofPacked_eq_ok h).1
  | ofRecordText h =>
    obtain ⟨record, -, h⟩ := Result.bind_eq_ok.1 h
    exact (of_ofRecord_eq_ok h).1
  | generate h => exact (of_generate_eq_ok h).1

/-- However it was obtained, the MAC key beside it has one of the lengths of MAC keys. -/
theorem Obtained.macKey_size_mem {key : SymmetricKey} (h : key.Obtained) :
    key.macKey.size ∈ KeyType.hmacSha1.acceptableSizes := by
  cases h with
  | ofBytes hmac h =>
    obtain ⟨-, rfl⟩ := of_ofBytes_eq_ok h
    exact hmac.size_mem
  | ofPacked h =>
    obtain ⟨-, bytes, hmac⟩ := of_ofPacked_eq_ok h
    exact MacKey.size_mem_of_ofBytes hmac
  | ofRecordText h =>
    obtain ⟨record, -, h⟩ := Result.bind_eq_ok.1 h
    exact MacKey.size_mem_of_ofRecord (of_ofRecord_eq_ok h).2
  | generate h =>
    obtain ⟨-, rest, hmac⟩ := of_generate_eq_ok h
    exact MacKey.size_mem_of_generate hmac

theorem Obtained.length_bytes {key : SymmetricKey} (h : key.Obtained) :
    key.bytes.length = 16 ∨ key.bytes.length = 24 ∨ key.bytes.length = 32 := by
  have hsize := h.size_mem
  simp only [KeyType.acceptableSizes, size, List.mem_cons, List.not_mem_nil, or_false] at hsize
  omega

/-- Such a key exists: the shortest AES key and the shortest MAC key, of equal bytes each. -/
theorem obtained_shortest (a b : UInt8) :
    (SymmetricKey.mk (List.replicate 16 a) ⟨List.replicate 20 b⟩).Obtained := by
  have hmac : MacKey.ofBytes (List.replicate 20 b) = .ok ⟨List.replicate 20 b⟩ := rfl
  have hbytes : SymmetricKey.ofBytes (List.replicate 16 a) ⟨List.replicate 20 b⟩ =
      .ok ⟨List.replicate 16 a, ⟨List.replicate 20 b⟩⟩ := rfl
  exact .ofBytes (.ofBytes hmac) hbytes

end SymmetricKey

end Keyring
