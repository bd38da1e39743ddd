import Keyring.Envelope

/-!
# What the header of an envelope says

A byte string that is long enough for a header splits into a format byte, an id and a payload in one
way. The format is looked at only then, so that a short string is refused as short whatever it
begins with.
-/

namespace Keyring

theorem KeyId.bytes_inj {a b : KeyId} : a.bytes = b.bytes ↔ a = b := by
  cases a
  cases b
  exact (KeyId.mk.injEq ..).symm.to_iff

namespace Envelope

variable {envelope payload : Bytes} {id : KeyId}

theorem exists_parts (h : headerLength ≤ envelope.length) :
    ∃ (version : UInt8) (id : KeyId) (payload : Bytes),
      envelope = version :: id.bytes ++ payload := by
  match envelope, h with
  | version :: a :: b :: c :: d :: payload, _ =>
    exact ⟨version, ⟨[a, b, c, d], rfl⟩, payload, rfl⟩

theorem length_parts (version : UInt8) (id : KeyId) (payload : Bytes) :
    headerLength ≤ (version :: id.bytes ++ payload).length := by
  simp only [List.cons_append, List.length_cons, List.length_append, id.length_eq, headerLength,
    KeyId.size]
  omega

theorem parse_parts (version : UInt8) (id : KeyId) (payload : Bytes) :
    parse (version :: id.bytes ++ payload) =
      if version = formatVersion then .ok (id, payload) else .error .invalidHeader := by
  obtain ⟨bytes, hbytes⟩ := id
  match bytes, hbytes with
  | [_, _, _, _], _ => rfl

/-- The id of an envelope is what stands behind its first byte. -/
theorem take_drop_parts (version : UInt8) (id : KeyId) (payload : Bytes) :
    ((version :: id.bytes ++ payload).drop 1).take KeyId.size = id.bytes := by
  show (id.bytes ++ payload).take KeyId.size = id.bytes
  exact List.take_left' id.length_eq

/-- A header that was written is read as its id, and the payload is what stands behind it. -/
theorem parse_header_append (id : KeyId) (payload : Bytes) :
    parse (header id ++ payload) = .ok (id, payload) := by
  rw [header, parse_parts, if_pos rfl]

theorem parse_of_length_lt (h : envelope.length < headerLength) :
    parse envelope = .error .shortCiphertext := by
  match envelope, h with
  | [], _ | [_], _ | [_, _], _ | [_, _, _], _ | [_, _, _, _], _ => rfl

theorem parse_eq_shortCiphertext :
    parse envelope = .error .shortCiphertext ↔ envelope.length < headerLength := by
  refine ⟨fun h => Nat.lt_of_not_le fun hlength => ?_, parse_of_length_lt⟩
  obtain ⟨version, id, payload, rfl⟩ := exists_parts hlength
  rw [parse_parts] at h
  split at h <;> cases h

theorem parse_eq_invalidHeader :
    parse envelope = .error .invalidHeader ↔
      headerLength ≤ envelope.length ∧ envelope.head? ≠ some formatVersion := by
  by_cases hlength : headerLength ≤ envelope.length
  · obtain ⟨version, id, payload, rfl⟩ := exists_parts hlength
    have hlong := length_parts version id payload
    rw [parse_parts]
    by_cases hversion : version = formatVersion
    · simp [hversion]
    · simpa [hversion] using hlong
  · rw [parse_of_length_lt (Nat.lt_of_not_le hlength)]
    simp [hlength]

/-- Reading accepts just what begins with a header. -/
theorem parse_eq_ok :
    parse envelope = .ok (id, payload) ↔ envelope = header id ++ payload := by
  constructor
  · intro h
    by_cases hlength : headerLength ≤ envelope.length
    · obtain ⟨version, id', payload', rfl⟩ := exists_parts hlength
      rw [parse_parts] at h
      split at h
      case isTrue hversion =>
        cases h
        rw [hversion, header]
      case isFalse => cases h
    · rw [parse_of_length_lt (Nat.lt_of_not_le hlength)] at h
      cases h
  · rintro rfl
    exact parse_header_append id payload

end Envelope

end Keyring
