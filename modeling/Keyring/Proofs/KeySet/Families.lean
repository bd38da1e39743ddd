import Keyring.Proofs.KeySet.Load

/-!
# Families known in advance and families named at run time

A key set is loaded as keys of one type when the program knows their family, and as keys of any
family when the family is only named. Main statement: for each family the two loads read the same
versions in the same order and have the same outcome, each key of any family being the key of the
known type; and a key does through its abilities just what the key of the known type does.

The equality of the loads holds for readers with effects of any kind. Its proof follows the loop:
putting a key in and then forgetting its type is forgetting the type and then putting it in.
-/

namespace Keyring

/-! ## The type of a family -/

namespace KeyType

/-- The keys of a family that is known in advance. -/
def Key : KeyType → Type
  | .aes => SymmetricKey
  | .hmacSha1 => MacKey
  | .dsaPrivate => DsaPrivateKey
  | .dsaPublic => DsaPublicKey
  | .rsaPrivate => RsaPrivateKey
  | .rsaPublic => RsaPublicKey

instance (family : KeyType) : Stored family.Key :=
  match family with
  | .aes => inferInstanceAs (Stored SymmetricKey)
  | .hmacSha1 => inferInstanceAs (Stored MacKey)
  | .dsaPrivate => inferInstanceAs (Stored DsaPrivateKey)
  | .dsaPublic => inferInstanceAs (Stored DsaPublicKey)
  | .rsaPrivate => inferInstanceAs (Stored RsaPrivateKey)
  | .rsaPublic => inferInstanceAs (Stored RsaPublicKey)

/-- What the keys of one type can do, each as a function of the key. -/
structure Abilities (κ : Type) where
  sign? : Option (κ → Randomness → Bytes → Result Bytes)
  verify? : Option (κ → Bytes → Bytes → Result Bool)
  encrypt? : Option (κ → Randomness → Bytes → Result Bytes)
  decrypt? : Option (κ → Randomness → Bytes → Result Bytes)

/-- What the keys of a known family can do. -/
def abilities : (family : KeyType) → Abilities family.Key
  | .aes =>
    { sign? := none
      verify? := none
      encrypt? := some fun key randomness => SymmetricKey.encrypt key randomness.bytes
      decrypt? := some fun key _ => SymmetricKey.decrypt key }
  | .hmacSha1 =>
    { sign? := some fun key _ message => .ok (MacKey.sign key message)
      verify? := some fun key message signature => .ok (MacKey.verify key message signature)
      encrypt? := none
      decrypt? := none }
  | .dsaPrivate =>
    { sign? := some fun key randomness => DsaPrivateKey.sign key randomness.bytes
      verify? := some DsaPrivateKey.verify
      encrypt? := none
      decrypt? := none }
  | .dsaPublic =>
    { sign? := none
      verify? := some DsaPublicKey.verify
      encrypt? := none
      decrypt? := none }
  | .rsaPrivate =>
    { sign? := some fun key randomness => RsaPrivateKey.sign key randomness.blinding
      verify? := some fun key message signature => .ok (RsaPrivateKey.verify key message signature)
      encrypt? := some fun key randomness => RsaPrivateKey.encrypt key randomness.bytes
      decrypt? := some fun key randomness => RsaPrivateKey.decrypt key randomness.blinding }
  | .rsaPublic =>
    { sign? := none
      verify? := some fun key message signature => .ok (RsaPublicKey.verify key message signature)
      encrypt? := some fun key randomness => RsaPublicKey.encrypt key randomness.bytes
      decrypt? := none }

end KeyType

/-- A key of a known family as a key of any family. -/
def KeyMaterial.ofKey : (family : KeyType) → family.Key → KeyMaterial
  | .aes, key => .symmetric key
  | .hmacSha1, key => .mac key
  | .dsaPrivate, key => .dsaPrivate key
  | .dsaPublic, key => .dsaPublic key
  | .rsaPrivate, key => .rsaPrivate key
  | .rsaPublic, key => .rsaPublic key

/-- A key of any family that behaves as a key of a known family: it has the same family, id and
record text, it has an ability just when the known family has it, and then with the same results. -/
structure KeyMaterial.BehavesAs (material : KeyMaterial) {family : KeyType} (key : family.Key) :
    Prop where
  keyType : material.keyType = Stored.keyType family.Key
  keyId : material.keyId = Identified.keyId key
  recordText : material.recordText = Stored.recordText key
  sign : material.signer?.map (·.sign) = family.abilities.sign?.map (· key)
  verify : material.verifier?.map (·.verify) = family.abilities.verify?.map (· key)
  encrypt : material.encrypter?.map (·.encrypt) = family.abilities.encrypt?.map (· key)
  decrypt : material.decrypter?.map (·.decrypt) = family.abilities.decrypt?.map (· key)
  /-- Who signs also verifies, and who decrypts also encrypts, with the same functions. -/
  signer_verifies : ∀ signer ∈ material.signer?, material.verifier? = some signer.toVerifier
  decrypter_encrypts : ∀ decrypter ∈ material.decrypter?,
    material.encrypter? = some decrypter.toEncrypter
  verifier_keyId : ∀ verifier ∈ material.verifier?, verifier.keyId = material.keyId
  encrypter_keyId : ∀ encrypter ∈ material.encrypter?, encrypter.keyId = material.keyId

namespace KeyMaterial

theorem behavesAs_ofKey (family : KeyType) (key : family.Key) :
    (ofKey family key).BehavesAs key := by
  cases family with
  | aes | hmacSha1 | dsaPrivate | dsaPublic | rsaPrivate | rsaPublic =>
    constructor
    -- an ability that the family lacks has nothing to agree with
    all_goals first | rfl | (rintro _ ⟨⟩ <;> rfl)

theorem keyType_key (family : KeyType) : Stored.keyType family.Key = family := by
  cases family with
  | aes | hmacSha1 | dsaPrivate | dsaPublic | rsaPrivate | rsaPublic => rfl

/-- A record of a family is read as it is read for the type of the family. -/
theorem ofRecordText_eq_map (family : KeyType) (text : String) :
    ofRecordText family text = ofKey family <$> (Stored.ofRecordText text : Result family.Key) := by
  cases family with
  | aes | hmacSha1 | dsaPrivate | dsaPublic | rsaPrivate | rsaPublic => rfl

end KeyMaterial

/-! ## Maps whose keys are changed one by one -/

namespace VersionMap

variable {κ κ' : Type}

/-- Changes every key of a map. -/
def mapKeys (f : κ → κ') (map : VersionMap κ) : VersionMap κ' :=
  ⟨map.entries.map fun entry => (entry.1, f entry.2), List.pairwise_map.2 map.ascending⟩

theorem versions_mapKeys (f : κ → κ') (map : VersionMap κ) :
    (map.mapKeys f).versions = map.versions := by
  show (map.entries.map fun entry => (entry.1, f entry.2)).map (·.1) = map.entries.map (·.1)
  rw [List.map_map]
  rfl

theorem get?_mapKeys (f : κ → κ') (map : VersionMap κ) (version : Nat) :
    (map.mapKeys f).get? version = (map.get? version).map f := by
  obtain ⟨entries, ascending⟩ := map
  show (entries.map fun entry => (entry.1, f entry.2)).lookup version =
    (entries.lookup version).map f
  clear ascending
  induction entries with
  | nil => rfl
  | cons entry rest ih =>
    rw [List.map_cons, List.lookup_cons, List.lookup_cons, ih]
    cases version == entry.1 with
    | true => rfl
    | false => rfl

theorem insertEntry_map (f : κ → κ') (version : Nat) (key : κ) (entries : List (Nat × κ)) :
    insertEntry version (f key) (entries.map fun entry => (entry.1, f entry.2)) =
      (insertEntry version key entries).map fun entry => (entry.1, f entry.2) := by
  induction entries with
  | nil => rfl
  | cons entry rest ih =>
    rw [List.map_cons, insertEntry, insertEntry]
    split
    · rfl
    · split
      · rfl
      · rw [ih, List.map_cons]

/-- Putting a changed key in is putting the key in and then changing it. -/
theorem insert_mapKeys (f : κ → κ') (map : VersionMap κ) (version : Nat) (key : κ) :
    (map.mapKeys f).insert version (f key) = (map.insert version key).mapKeys f := by
  have hentries := insertEntry_map f version key map.entries
  simp only [insert, mapKeys, hentries]

end VersionMap

/-! ## Loads whose keys are changed one by one -/

section

variable {m : Type → Type} [Monad m] [LawfulMonad m] {κ κ' : Type}
  (read : Nat → m (Except String String)) {decode : String → m (Result κ)}
  {decode' : String → m (Result κ')} {f : κ → κ'}

/-- The loop with a decoder that changes every key gives the changed map, after the same effects. -/
theorem loadInto_mapKeys (h : ∀ record, decode' record = (f <$> ·) <$> decode record)
    (map : VersionMap κ) (versions : List Nat) :
    loadInto read decode' (map.mapKeys f) versions =
      (VersionMap.mapKeys f <$> ·) <$> loadInto read decode map versions := by
  induction versions generalizing map with
  | nil =>
    rw [loadInto, loadInto, map_pure]
    rfl
  | cons version rest ih =>
    rw [loadInto, loadInto, map_bind]
    apply bind_congr
    intro fetched
    cases fetched with
    | error cause =>
      simp only [map_pure]
      rfl
    | ok record =>
      simp only [h, map_bind, bind_map_left]
      apply bind_congr
      intro decoded
      cases decoded with
      | error error =>
        simp only [map_pure]
        rfl
      | ok key =>
        have hnext := ih (map.insert version key)
        rw [← VersionMap.insert_mapKeys] at hnext
        exact hnext

theorem loadVersions_mapKeys (h : ∀ record, decode' record = (f <$> ·) <$> decode record)
    (versions : List Nat) :
    loadVersions read decode' versions =
      (VersionMap.mapKeys f <$> ·) <$> loadVersions read decode versions := by
  unfold loadVersions
  cases firstRepeated? [] versions with
  | none => exact loadInto_mapKeys read h .empty versions
  | some version =>
    simp only [map_pure]
    rfl

/-- Loading for a named family is loading for its type and then forgetting the type. -/
theorem loadKeyMaterial_eq_map (family : KeyType) (versions : List Nat) :
    loadKeyMaterial read family versions =
      (VersionMap.mapKeys (KeyMaterial.ofKey family) <$> ·) <$>
        (loadKeys read versions : m (Result (VersionMap family.Key))) := by
  apply loadVersions_mapKeys
  intro record
  rw [map_pure, KeyMaterial.ofRecordText_eq_map]

end

namespace Loading

variable {σ : Type}

/-- **A named family loads as its type does.** For every family, every reader that keeps a state and
every list of versions, the load for the named family makes the calls of the load for the type of
the family, in the same order, and leaves the same state. Both end in the same error, or both give
maps of the same versions, and each key of the one is that of the other with its type forgotten. A
key whose type is forgotten is still of the family, has the same id and record text, and signs,
verifies, encrypts and decrypts with the same results, or not at all when its type does not. -/
theorem loadKeyMaterial_agrees (family : KeyType) (read : Nat → StateM σ (Except String String))
    (versions : List Nat) (s : σ) :
    let noted := fun version => note (.read version) (read version)
    let known := (loadKeys noted versions : StateM _ (Result (VersionMap family.Key))).run (s, [])
    let named := (loadKeyMaterial noted family versions).run (s, [])
    named.2 = known.2 ∧
    ((∃ error, known.1 = .error error ∧ named.1 = .error error) ∨
      ∃ map material, known.1 = .ok map ∧ named.1 = .ok material ∧
        material.versions = map.versions ∧
        ∀ version, material.get? version = (map.get? version).map (KeyMaterial.ofKey family)) ∧
    Stored.keyType family.Key = family ∧
    ∀ key : family.Key, (KeyMaterial.ofKey family key).BehavesAs key := by
  intro noted known named
  have hnamed : named = (VersionMap.mapKeys (KeyMaterial.ofKey family) <$> known.1, known.2) :=
    congrArg (·.run (s, [])) (loadKeyMaterial_eq_map noted family versions)
  rw [hnamed]
  refine ⟨rfl, ?_, KeyMaterial.keyType_key family, KeyMaterial.behavesAs_ofKey family⟩
  cases hknown : known.1 with
  | error error => exact .inl ⟨error, rfl, rfl⟩
  | ok map =>
    refine .inr ⟨map, map.mapKeys (KeyMaterial.ofKey family), rfl, rfl, ?_, ?_⟩
    · exact VersionMap.versions_mapKeys _ map
    · exact VersionMap.get?_mapKeys _ map

end Loading

end Keyring
