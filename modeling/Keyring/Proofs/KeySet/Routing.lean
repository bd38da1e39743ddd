import Keyring.Key.Material
import Keyring.Proofs.Envelope
import Keyring.Proofs.Key.SymmetricEnvelope
import Keyring.Proofs.KeySet.VersionMap

/-!
# Envelopes find their keys

An envelope begins with the id of the key that made it, and a map looks for that id from its lowest
version on. Main statement: an envelope that a key of a map made is routed to the lowest version
with the id of that key, which is a key that opens it unless two different keys share the id. What
becomes of other byte strings depends on their first five bytes alone.

Several versions may have one id: the same key listed twice, or two keys whose digests begin with
the same four bytes.
-/

namespace Keyring

/-! ## Envelopes begin with the id of their key -/

/-- The envelope begins with a header for the id. -/
def Envelope.HeadedBy (envelope : Bytes) (id : KeyId) : Prop :=
  ∃ payload, envelope = Envelope.header id ++ payload

theorem SymmetricKey.headedBy_of_encrypt {key : SymmetricKey} {entropy : Entropy}
    {plaintext envelope : Bytes} (h : key.encrypt entropy plaintext = .ok envelope) :
    Envelope.HeadedBy envelope key.keyId := by
  obtain ⟨initial, rest, body, -, -, -, rfl⟩ := encrypt_eq_ok_iff_sealed.1 h
  simp only [sealed, List.append_assoc]
  exact ⟨_, rfl⟩

/-- What sealing makes, opening undoes. -/
theorem SymmetricKey.decrypt_of_encrypt {key : SymmetricKey} {entropy : Entropy}
    {plaintext envelope : Bytes} (h : key.encrypt entropy plaintext = .ok envelope) :
    key.decrypt envelope = .ok plaintext := by
  obtain ⟨initial, rest, body, -, hinitial, hbody, rfl⟩ := encrypt_eq_ok_iff_sealed.1 h
  apply decrypt_eq_ok_iff_sealed.2
  exact ⟨_, initial, body, Envelope.length_header _, hinitial, hbody, rfl⟩

theorem RsaPublicKey.headedBy_of_encrypt {key : RsaPublicKey} {entropy : Entropy}
    {plaintext envelope : Bytes} (h : key.encrypt entropy plaintext = .ok envelope) :
    Envelope.HeadedBy envelope key.keyId := by
  unfold encrypt at h
  split at h
  case isTrue => cases h
  case isFalse =>
    split at h
    case h_1 => cases h
    case h_2 =>
      cases h
      exact ⟨_, rfl⟩

theorem KeyMaterial.headedBy_of_encrypt {key : KeyMaterial} {encrypter : Encrypter}
    {randomness : Randomness} {plaintext envelope : Bytes} (hkey : key.encrypter? = some encrypter)
    (h : encrypter.encrypt randomness plaintext = .ok envelope) :
    Envelope.HeadedBy envelope key.keyId := by
  cases key with
  | symmetric key =>
    cases hkey
    exact SymmetricKey.headedBy_of_encrypt h
  | rsaPrivate key =>
    cases hkey
    exact RsaPublicKey.headedBy_of_encrypt h
  | rsaPublic key =>
    cases hkey
    exact RsaPublicKey.headedBy_of_encrypt h
  | mac | dsaPrivate | dsaPublic => cases hkey

namespace VersionMap

variable {κ : Type} {map : VersionMap κ} {version : Nat} {key : κ} {id : KeyId} {envelope : Bytes}

/-! ## The lowest version with an id -/

/-- In an ascending list the first entry of a kind is the lowest one. -/
theorem find?_eq_some_iff_lowest {entries : List (Nat × κ)} {p : Nat × κ → Bool} {entry : Nat × κ}
    (h : entries.Pairwise fun a b => a.1 < b.1) :
    entries.find? p = some entry ↔
      entry ∈ entries ∧ p entry ∧ ∀ other ∈ entries, p other → entry.1 ≤ other.1 := by
  induction entries with
  | nil => simp
  | cons first rest ih =>
    obtain ⟨hfirst, hrest⟩ := List.pairwise_cons.1 h
    rw [List.find?_cons]
    split
    case h_1 hp =>
      constructor
      · intro heq
        cases heq
        refine ⟨List.mem_cons_self, hp, fun other hother _ => ?_⟩
        rcases List.mem_cons.1 hother with rfl | hother
        · exact Nat.le_refl _
        · exact Nat.le_of_lt (hfirst other hother)
      · rintro ⟨hmem, -, hlowest⟩
        -- anything behind the first entry is above it
        have hle : entry.1 ≤ first.1 := hlowest first List.mem_cons_self hp
        rcases List.mem_cons.1 hmem with rfl | hmem
        · rfl
        · exact absurd (hfirst entry hmem) (Nat.not_lt_of_le hle)
    case h_2 hp =>
      rw [ih hrest]
      constructor
      · rintro ⟨hmem, hentry, hlowest⟩
        refine ⟨List.mem_cons_of_mem _ hmem, hentry, fun other hother hother' => ?_⟩
        rcases List.mem_cons.1 hother with rfl | hother
        · rw [hp] at hother'
          cases hother'
        · exact hlowest other hother hother'
      · rintro ⟨hmem, hentry, hlowest⟩
        refine ⟨?_, hentry, fun other hother => hlowest other (List.mem_cons_of_mem _ hother)⟩
        rcases List.mem_cons.1 hmem with rfl | hmem
        · rw [hp] at hentry
          cases hentry
        · exact hmem

variable [Identified κ]

/-- The version is the lowest one that has the id, and has it by the key. -/
def Lowest (map : VersionMap κ) (id : KeyId) (version : Nat) (key : κ) : Prop :=
  map.get? version = some key ∧ Identified.keyId key = id ∧
    ∀ other otherKey, map.get? other = some otherKey → Identified.keyId otherKey = id →
      version ≤ other

/-- Different keys of the map have different ids. -/
def SeparatesIds (map : VersionMap κ) : Prop :=
  ∀ version other key otherKey, map.get? version = some key → map.get? other = some otherKey →
    Identified.keyId key = Identified.keyId otherKey → key = otherKey

theorem findById?_eq_some : map.findById? id = some (version, key) ↔ map.Lowest id version key := by
  unfold findById? Lowest
  rw [find?_eq_some_iff_lowest map.ascending]
  simp only [get?_eq_some_iff, toList, beq_iff_eq, Prod.forall]

theorem findById?_eq_none :
    map.findById? id = none ↔
      ∀ version key, map.get? version = some key → Identified.keyId key ≠ id := by
  unfold findById?
  simp only [List.find?_eq_none, get?_eq_some_iff, toList, beq_iff_eq, Prod.forall, ne_eq]

/-- An id that some version has is found. -/
theorem exists_lowest (h : map.get? version = some key) :
    ∃ lowest found, map.findById? (Identified.keyId key) = some (lowest, found) := by
  cases hfind : map.findById? (Identified.keyId key) with
  | some entry => exact ⟨entry.1, entry.2, rfl⟩
  | none => exact absurd rfl (findById?_eq_none.1 hfind version key h)

/-! ## Routing -/

/-- The envelope is routed to the lowest version that has the id of a key. -/
def Routes (map : VersionMap κ) (envelope : Bytes) (key : κ) (lowest : Nat) (found : κ) : Prop :=
  map.keyForEnvelope envelope = .ok (some (lowest, found)) ∧
    map.Lowest (Identified.keyId key) lowest found

theorem keyForEnvelope_parts (map : VersionMap κ) (format : UInt8) (id : KeyId) (payload : Bytes) :
    map.keyForEnvelope (format :: id.bytes ++ payload) =
      if format = Envelope.formatVersion then .ok (map.findById? id)
      else .error .invalidHeader := by
  rw [keyForEnvelope, Envelope.parse_parts]
  split <;> rfl

/-- An error of routing is one of reading the header. -/
theorem keyForEnvelope_eq_error {error : KeyError} :
    map.keyForEnvelope envelope = .error error ↔ Envelope.parse envelope = .error error := by
  rw [keyForEnvelope]
  cases Envelope.parse envelope with
  | error other =>
    exact ⟨fun h => congrArg _ (Except.error.inj h), fun h => congrArg _ (Except.error.inj h)⟩
  | ok parts => exact ⟨nofun, nofun⟩

theorem keyForEnvelope_eq_none :
    map.keyForEnvelope envelope = .ok none ↔
      Envelope.headerLength ≤ envelope.length ∧ envelope.head? = some Envelope.formatVersion ∧
        ∀ version key, map.get? version = some key →
          (Identified.keyId key).bytes ≠ (envelope.drop 1).take KeyId.size := by
  by_cases hlength : Envelope.headerLength ≤ envelope.length
  · obtain ⟨format, id, payload, rfl⟩ := Envelope.exists_parts hlength
    rw [keyForEnvelope_parts, Envelope.take_drop_parts]
    simp only [ne_eq, KeyId.bytes_inj, hlength, true_and]
    by_cases hformat : format = Envelope.formatVersion
    · rw [if_pos hformat, Except.ok.injEq, findById?_eq_none]
      simp [hformat]
    · rw [if_neg hformat]
      simp [hformat]
  · have hshort := Envelope.parse_of_length_lt (Nat.lt_of_not_le hlength)
    rw [keyForEnvelope_eq_error.2 hshort]
    simp [hlength]

/-- An envelope that begins with the id of a key of the map is routed. -/
theorem exists_routes (hkey : map.get? version = some key)
    (henvelope : Envelope.HeadedBy envelope (Identified.keyId key)) :
    ∃ lowest found, map.Routes envelope key lowest found ∧ lowest ≤ version := by
  obtain ⟨payload, rfl⟩ := henvelope
  obtain ⟨lowest, found, hfind⟩ := exists_lowest hkey
  have hlowest := findById?_eq_some.1 hfind
  refine ⟨lowest, found, ⟨?_, hlowest⟩, hlowest.2.2 version key hkey rfl⟩
  rw [Envelope.header, keyForEnvelope_parts, if_pos rfl, hfind]

/-- Where different keys have different ids, the key itself is found. -/
theorem Routes.eq {lowest : Nat} {found : κ} (h : map.Routes envelope key lowest found)
    (hkey : map.get? version = some key) (hids : map.SeparatesIds) : found = key :=
  hids lowest version found key h.2.1 hkey h.2.2.1

/-- **A map routes what its keys seal.** An envelope that a key of a map made, with whatever message
and randomness, is routed to the lowest version whose key has the id of that key, which is no later
version; this holds of maps of AES keys, of RSA private and public keys, and of keys of any family.
Where different keys have different ids, the AES key that is found opens the envelope to its
message. Any byte string is refused as short just below five bytes, and for its format just when it
is long enough and does not begin with a zero byte; otherwise it has no key just when no key of the
map has its next four bytes as the id. -/
theorem keyForEnvelope_of_sealed :
    (∀ (map : VersionMap SymmetricKey) (version : Nat) (key : SymmetricKey) (entropy : Entropy)
        (plaintext envelope : Bytes), map.get? version = some key →
        key.encrypt entropy plaintext = .ok envelope →
      ∃ lowest found, map.Routes envelope key lowest found ∧ lowest ≤ version ∧
        (map.SeparatesIds → found.decrypt envelope = .ok plaintext)) ∧
    (∀ (map : VersionMap RsaPrivateKey) (version : Nat) (key : RsaPrivateKey) (entropy : Entropy)
        (plaintext envelope : Bytes), map.get? version = some key →
        key.encrypt entropy plaintext = .ok envelope →
      ∃ lowest found, map.Routes envelope key lowest found ∧ lowest ≤ version) ∧
    (∀ (map : VersionMap RsaPublicKey) (version : Nat) (key : RsaPublicKey) (entropy : Entropy)
        (plaintext envelope : Bytes), map.get? version = some key →
        key.encrypt entropy plaintext = .ok envelope →
      ∃ lowest found, map.Routes envelope key lowest found ∧ lowest ≤ version) ∧
    (∀ (map : VersionMap KeyMaterial) (version : Nat) (key : KeyMaterial) (encrypter : Encrypter)
        (randomness : Randomness) (plaintext envelope : Bytes), map.get? version = some key →
        key.encrypter? = some encrypter →
        encrypter.encrypt randomness plaintext = .ok envelope →
      ∃ lowest found, map.Routes envelope key lowest found ∧ lowest ≤ version ∧
        (map.SeparatesIds → key.keyType = .aes → ∃ decrypter, found.decrypter? = some decrypter ∧
          ∀ later, decrypter.decrypt later envelope = .ok plaintext)) ∧
    (∀ {κ : Type} [Identified κ] (map : VersionMap κ) (envelope : Bytes),
      (map.keyForEnvelope envelope = .error .shortCiphertext ↔ envelope.length < 5) ∧
      (map.keyForEnvelope envelope = .error .invalidHeader ↔
        5 ≤ envelope.length ∧ envelope.head? ≠ some 0) ∧
      (map.keyForEnvelope envelope = .ok none ↔
        5 ≤ envelope.length ∧ envelope.head? = some 0 ∧
          ∀ version key, map.get? version = some key →
            (Identified.keyId key).bytes ≠ (envelope.drop 1).take 4)) := by
  refine ⟨?_, ?_, ?_, ?_, ?_⟩
  · intro map version key entropy plaintext envelope hkey hseal
    obtain ⟨lowest, found, hroutes, hle⟩ :=
      exists_routes hkey (SymmetricKey.headedBy_of_encrypt hseal)
    refine ⟨lowest, found, hroutes, hle, fun hids => ?_⟩
    rw [hroutes.eq hkey hids]
    exact SymmetricKey.decrypt_of_encrypt hseal
  · intro map version key entropy plaintext envelope hkey hseal
    exact exists_routes hkey (RsaPublicKey.headedBy_of_encrypt hseal)
  · intro map version key entropy plaintext envelope hkey hseal
    exact exists_routes hkey (RsaPublicKey.headedBy_of_encrypt hseal)
  · intro map version key encrypter randomness plaintext envelope hkey hencrypter hseal
    obtain ⟨lowest, found, hroutes, hle⟩ :=
      exists_routes hkey (KeyMaterial.headedBy_of_encrypt hencrypter hseal)
    refine ⟨lowest, found, hroutes, hle, fun hids haes => ?_⟩
    rw [hroutes.eq hkey hids]
    cases key with
    | symmetric key =>
      cases hencrypter
      exact ⟨_, rfl, fun _ => SymmetricKey.decrypt_of_encrypt hseal⟩
    | mac | dsaPrivate | dsaPublic | rsaPrivate | rsaPublic => cases haes
  · intro κ _ map envelope
    refine ⟨?_, ?_, keyForEnvelope_eq_none⟩
    · rw [keyForEnvelope_eq_error]
      exact Envelope.parse_eq_shortCiphertext
    · rw [keyForEnvelope_eq_error]
      exact Envelope.parse_eq_invalidHeader

/-! ## A map with a key that returns -/

/-- Two keys, of which the first one comes back under a third version. -/
def returning : VersionMap SymmetricKey :=
  let first : SymmetricKey := ⟨List.replicate 16 0x40, ⟨List.replicate 20 0x60⟩⟩
  let second : SymmetricKey := ⟨List.replicate 16 0x41, ⟨List.replicate 20 0x61⟩⟩
  ((empty.insert 1 first).insert 2 second).insert 3 first

theorem of_get?_returning_eq_some {key : SymmetricKey} (h : returning.get? version = some key) :
    key = ⟨List.replicate 16 0x40, ⟨List.replicate 20 0x60⟩⟩ ∨
      key = ⟨List.replicate 16 0x41, ⟨List.replicate 20 0x61⟩⟩ := by
  simp only [returning, get?_insert, get?_empty] at h
  split at h
  · exact .inl (Option.some.inj h).symm
  · split at h
    · exact .inr (Option.some.inj h).symm
    · split at h
      · exact .inl (Option.some.inj h).symm
      · cases h

theorem separatesIds_returning : returning.SeparatesIds := by
  have hids : (SymmetricKey.mk (List.replicate 16 0x40) ⟨List.replicate 20 0x60⟩).keyId ≠
      (SymmetricKey.mk (List.replicate 16 0x41) ⟨List.replicate 20 0x61⟩).keyId := by
    decide +kernel
  intro version other key otherKey hkey hother hsame
  rcases of_get?_returning_eq_some hkey with rfl | rfl <;>
    rcases of_get?_returning_eq_some hother with rfl | rfl
  · rfl
  · exact absurd hsame hids
  · exact absurd hsame.symm hids
  · rfl

/-- What the key of the third version seals is routed to the first one, where the same key is, and
what the key of the second version seals is routed to that one. The keys that are found open it. -/
theorem keyForEnvelope_of_sealed_returning :
    let first : SymmetricKey := ⟨List.replicate 16 0x40, ⟨List.replicate 20 0x60⟩⟩
    let second : SymmetricKey := ⟨List.replicate 16 0x41, ⟨List.replicate 20 0x61⟩⟩
    let entropy : Entropy := List.replicate 16 7
    returning.get? 3 = some first ∧
    (∃ envelope, first.encrypt entropy [0x61, 0x62, 0x63] = .ok envelope ∧
      returning.keyForEnvelope envelope = .ok (some (1, first)) ∧
      first.decrypt envelope = .ok [0x61, 0x62, 0x63]) ∧
    (∃ envelope, second.encrypt entropy [0x61, 0x62, 0x63] = .ok envelope ∧
      returning.keyForEnvelope envelope = .ok (some (2, second)) ∧
      second.decrypt envelope = .ok [0x61, 0x62, 0x63]) ∧
    returning.keyForEnvelope [0, 1, 2, 3] = .error .shortCiphertext := by
  intro first second entropy
  obtain ⟨hroutes, -, -, -, hother⟩ := keyForEnvelope_of_sealed
  have hsealed {version lowest : Nat} {key : SymmetricKey}
      (hkey : returning.get? version = some key)
      (hsome : (key.encrypt entropy [0x61, 0x62, 0x63]).toOption.isSome = true)
      (hfind : returning.findById? key.keyId = some (lowest, key)) :
      ∃ envelope, key.encrypt entropy [0x61, 0x62, 0x63] = .ok envelope ∧
        returning.keyForEnvelope envelope = .ok (some (lowest, key)) ∧
        key.decrypt envelope = .ok [0x61, 0x62, 0x63] := by
    obtain ⟨envelope, hvalue⟩ := Option.isSome_iff_exists.1 hsome
    have hseal := Result.eq_ok_of_toOption hvalue
    obtain ⟨_, _, ⟨hrouted, hlowest⟩, -, hopens⟩ := hroutes _ _ _ _ _ _ hkey hseal
    cases (findById?_eq_some.2 hlowest).symm.trans hfind
    exact ⟨envelope, hseal, hrouted, hopens separatesIds_returning⟩
  have hthird : returning.get? 3 = some first := rfl
  have hsecond : returning.get? 2 = some second := rfl
  refine ⟨hthird, ?_, ?_, (hother returning _).1.2 (by decide)⟩
  · exact hsealed hthird (by decide +kernel) (by decide +kernel)
  · exact hsealed hsecond (by decide +kernel) (by decide +kernel)

end VersionMap

end Keyring
