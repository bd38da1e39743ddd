import Keyring.Proofs.Key.RecordVariants
import Keyring.Proofs.KeyType
import Keyring.Proofs.Record.Sizes

/-!
# Declared sizes are never trusted

A record declares the size of its key, and that of a key inside it. Main statement: a declared size
that is not listed for its family is refused before any other field is looked at but the mode, and a
declared size of a record that is loaded is the only one that it can declare. So a size says nothing
that the bytes and numbers of the key do not say.
-/

namespace Keyring

open Record Json

/-! ## MAC keys -/

namespace MacKey

theorem ofRecord_of_resized {record record' : Record.Mac} (h : record.Resized record')
    {key : MacKey} (hload : ofRecord record = .ok key) :
    ofRecord record' = .error .invalidKeySize := by
  obtain ⟨⟨⟩, -, hload⟩ := Result.bind_eq_ok.1 hload
  obtain ⟨bytes, hbytes, hload⟩ := Result.bind_eq_ok.1 hload
  split at hload
  case isTrue => cases hload
  case isFalse hlength =>
    cases h with
    | size hne =>
      apply KeyType.checkSize_bind_eq_error
      rw [hbytes, Result.ok_bind]
      exact if_pos fun h => hne ((Decidable.not_not.1 hlength).symm.trans h)

end MacKey

/-! ## Symmetric keys -/

namespace SymmetricKey

theorem ofRecord_of_macKey {record : Symmetric} (hmode : record.mode = cbcMode)
    (h : MacKey.ofRecord record.macKey = .error .invalidKeySize) :
    ofRecord record = .error .invalidKeySize := by
  apply KeyType.checkSize_bind_eq_error
  rw [if_neg (Decidable.not_not.2 hmode), h]
  rfl

theorem ofRecord_of_resized {record record' : Symmetric} (h : record.Resized record')
    {key : SymmetricKey} (hload : ofRecord record = .ok key) :
    ofRecord record' = .error .invalidKeySize := by
  obtain ⟨⟨⟩, -, hload⟩ := Result.bind_eq_ok.1 hload
  split at hload
  case isTrue => cases hload
  case isFalse hmode =>
    obtain ⟨macKey, hmacKey, hload⟩ := Result.bind_eq_ok.1 hload
    obtain ⟨bytes, hbytes, hload⟩ := Result.bind_eq_ok.1 hload
    split at hload
    case isTrue => cases hload
    case isFalse hlength =>
      cases h with
      | size hne =>
        apply KeyType.checkSize_bind_eq_error
        rw [if_neg hmode, hmacKey, Result.ok_bind, hbytes, Result.ok_bind]
        exact if_pos fun h => hne ((Decidable.not_not.1 hlength).symm.trans h)
      | macKey h =>
        exact ofRecord_of_macKey (Decidable.not_not.1 hmode)
          (MacKey.ofRecord_of_resized h hmacKey)

end SymmetricKey

/-! ## DSA keys -/

namespace DsaPublicKey

theorem ofNumbers_of_bitLength_ne {numbers : Dsa.Numbers} {size : Nat}
    (h : bitLength numbers.p ≠ size) : ofNumbers numbers size = .error .invalidKeySize :=
  KeyType.checkSize_bind_eq_error (if_pos (.inl h))

theorem ofRecord_of_resized {record record' : DsaPublic} (h : record.Resized record')
    {key : DsaPublicKey} (hload : ofRecord record = .ok key) :
    ofRecord record' = .error .invalidKeySize := by
  obtain ⟨⟨⟩, -, hload⟩ := Result.bind_eq_ok.1 hload
  obtain ⟨p, hp, hload⟩ := Result.bind_eq_ok.1 hload
  obtain ⟨q, hq, hload⟩ := Result.bind_eq_ok.1 hload
  obtain ⟨g, hg, hload⟩ := Result.bind_eq_ok.1 hload
  obtain ⟨y, hy, hload⟩ := Result.bind_eq_ok.1 hload
  obtain ⟨hkey, rfl⟩ := ofNumbers_eq_ok.1 hload
  cases h with
  | size hne =>
    have hbits : bitLength p = record.size := hkey.bitLength_p
    apply KeyType.checkSize_bind_eq_error
    simp only [hp, hq, hg, hy, Result.ok_bind]
    exact ofNumbers_of_bitLength_ne fun h => hne (hbits.symm.trans h)

end DsaPublicKey

namespace DsaPrivateKey

theorem ofNumbers_of_size_ne {publicKey : DsaPublicKey} {x size : Nat}
    (h : size ≠ publicKey.size) : ofNumbers publicKey x size = .error .invalidKeySize :=
  KeyType.checkSize_bind_eq_error (if_pos h)

theorem ofRecord_of_publicKey {record : DsaPrivate}
    (h : DsaPublicKey.ofRecord record.publicKey = .error .invalidKeySize) :
    ofRecord record = .error .invalidKeySize := by
  apply KeyType.checkSize_bind_eq_error
  rw [h]
  rfl

theorem ofRecord_of_resized {record record' : DsaPrivate} (h : record.Resized record')
    {key : DsaPrivateKey} (hload : ofRecord record = .ok key) :
    ofRecord record' = .error .invalidKeySize := by
  obtain ⟨⟨⟩, -, hload⟩ := Result.bind_eq_ok.1 hload
  obtain ⟨publicKey, hpublic, hload⟩ := Result.bind_eq_ok.1 hload
  obtain ⟨x, hx, hload⟩ := Result.bind_eq_ok.1 hload
  obtain ⟨hkey, rfl⟩ := (ofNumbers_eq_ok (DsaPublicKey.checked_of_ofRecord hpublic)).1 hload
  cases h with
  | size hne =>
    have hsize : record.size = publicKey.size := hkey.size_eq
    apply KeyType.checkSize_bind_eq_error
    simp only [hpublic, hx, Result.ok_bind]
    exact ofNumbers_of_size_ne fun h => hne (hsize.trans h.symm)
  | publicKey h => exact ofRecord_of_publicKey (DsaPublicKey.ofRecord_of_resized h hpublic)

end DsaPrivateKey

/-! ## RSA keys -/

namespace RsaPublicKey

theorem ofNumbers_of_bitLength_ne {n e size : Nat} (h : bitLength n ≠ size) :
    ofNumbers n e size = .error .invalidKeySize :=
  KeyType.checkSize_bind_eq_error (if_pos h)

theorem ofRecord_of_resized {record record' : RsaPublic} (h : record.Resized record')
    {key : RsaPublicKey} (hload : ofRecord record = .ok key) :
    ofRecord record' = .error .invalidKeySize := by
  obtain ⟨⟨⟩, -, hload⟩ := Result.bind_eq_ok.1 hload
  obtain ⟨n, hn, hload⟩ := Result.bind_eq_ok.1 hload
  obtain ⟨e, he, hload⟩ := Result.bind_eq_ok.1 hload
  obtain ⟨hkey, rfl⟩ := ofNumbers_eq_ok.1 hload
  cases h with
  | size hne =>
    have hbits : bitLength n = record.size := hkey.bitLength_n
    apply KeyType.checkSize_bind_eq_error
    simp only [hn, he, Result.ok_bind]
    exact ofNumbers_of_bitLength_ne fun h => hne (hbits.symm.trans h)

end RsaPublicKey

namespace RsaPrivateKey

theorem ofNumbers_of_size_ne {publicKey : RsaPublicKey} {d p q : Nat} {crt : Rsa.CrtValues}
    {size : Nat} (h : size ≠ publicKey.size) :
    ofNumbers publicKey d p q crt size = .error .invalidKeySize :=
  KeyType.checkSize_bind_eq_error (if_pos h)

theorem ofRecord_of_publicKey {record : RsaPrivate}
    (h : RsaPublicKey.ofRecord record.publicKey = .error .invalidKeySize) :
    ofRecord record = .error .invalidKeySize := by
  apply KeyType.checkSize_bind_eq_error
  rw [h]
  rfl

theorem ofRecord_of_resized {record record' : RsaPrivate} (h : record.Resized record')
    {key : RsaPrivateKey} (hload : ofRecord record = .ok key) :
    ofRecord record' = .error .invalidKeySize := by
  obtain ⟨⟨⟩, -, hload⟩ := Result.bind_eq_ok.1 hload
  obtain ⟨publicKey, hpublic, hload⟩ := Result.bind_eq_ok.1 hload
  obtain ⟨d, hd, hload⟩ := Result.bind_eq_ok.1 hload
  obtain ⟨p, hp, hload⟩ := Result.bind_eq_ok.1 hload
  obtain ⟨q, hq, hload⟩ := Result.bind_eq_ok.1 hload
  obtain ⟨dp, hdp, hload⟩ := Result.bind_eq_ok.1 hload
  obtain ⟨dq, hdq, hload⟩ := Result.bind_eq_ok.1 hload
  obtain ⟨qinv, hqinv, hload⟩ := Result.bind_eq_ok.1 hload
  obtain ⟨hkey, rfl⟩ := (ofNumbers_eq_ok (RsaPublicKey.checked_of_ofRecord hpublic)).1 hload
  cases h with
  | size hne =>
    have hsize : record.size = publicKey.size := hkey.size_eq
    apply KeyType.checkSize_bind_eq_error
    simp only [hpublic, hd, hp, hq, hdp, hdq, hqinv, Result.ok_bind]
    exact ofNumbers_of_size_ne fun h => hne (hsize.trans h.symm)
  | publicKey h => exact ofRecord_of_publicKey (RsaPublicKey.ofRecord_of_resized h hpublic)

end RsaPrivateKey

/-! ## Keys of any family -/

namespace KeyType

/-- What the record of a text declares: a size, and the family that it must be listed for. -/
inductive Declares : KeyType → String → KeyType → Nat → Prop
  | aes {text : String} {record : Symmetric} (h : readAll Symmetric.ofNode text = .ok record) :
    Declares .aes text .aes record.size
  /-- The MAC key of a symmetric record, unless its mode is another one. -/
  | macKey {text : String} {record : Symmetric} (h : readAll Symmetric.ofNode text = .ok record)
    (hmode : record.mode = cbcMode) : Declares .aes text .hmacSha1 record.macKey.size
  | hmacSha1 {text : String} {record : Record.Mac}
    (h : readAll Record.Mac.ofNode text = .ok record) :
    Declares .hmacSha1 text .hmacSha1 record.size
  | dsaPrivate {text : String} {record : DsaPrivate}
    (h : readAll DsaPrivate.ofNode text = .ok record) :
    Declares .dsaPrivate text .dsaPrivate record.size
  | dsaPublicKey {text : String} {record : DsaPrivate}
    (h : readAll DsaPrivate.ofNode text = .ok record) :
    Declares .dsaPrivate text .dsaPublic record.publicKey.size
  | dsaPublic {text : String} {record : DsaPublic}
    (h : readAll DsaPublic.ofNode text = .ok record) :
    Declares .dsaPublic text .dsaPublic record.size
  | rsaPrivate {text : String} {record : RsaPrivate}
    (h : readAll RsaPrivate.ofNode text = .ok record) :
    Declares .rsaPrivate text .rsaPrivate record.size
  | rsaPublicKey {text : String} {record : RsaPrivate}
    (h : readAll RsaPrivate.ofNode text = .ok record) :
    Declares .rsaPrivate text .rsaPublic record.publicKey.size
  | rsaPublic {text : String} {record : RsaPublic}
    (h : readAll RsaPublic.ofNode text = .ok record) :
    Declares .rsaPublic text .rsaPublic record.size

/-- One declared size of the record of a family changed, its own or that of the record inside it. -/
def Resize : KeyType → Node → Node → Prop
  | .aes => Symmetric.Resize
  | .hmacSha1 => Record.Mac.Resize
  | .dsaPrivate => DsaPrivate.Resize
  | .dsaPublic => DsaPublic.Resize
  | .rsaPrivate => RsaPrivate.Resize
  | .rsaPublic => RsaPublic.Resize

end KeyType

namespace KeyMaterial

section

variable {α β : Type} {read : Node → Except Fault α} {load : α → Result β} {wrap : β → KeyMaterial}
  {key : KeyMaterial} {error : KeyError}

/-- A text fails as its record does. -/
theorem loadText_eq_error {text : String} {record : α} (hread : readAll read text = .ok record)
    (hload : load record = .error error) :
    wrap <$> (Result.ofFault .invalidRecord (readAll read text) >>= load) = .error error := by
  rw [hread, Result.ofFault, Result.ok_bind, hload]
  rfl

/-- A value that is read as a changed record fails as that record does. -/
theorem loadNode_of_changed {Changed : α → α → Prop} {node node' : Node}
    (hread : ∀ {record}, read node = .ok record →
      ∃ record', read node' = .ok record' ∧ Changed record record')
    (hload : ∀ {record record'}, Changed record record' → ∀ {concrete},
      load record = .ok concrete → load record' = .error error)
    (h : loadNode read load wrap node = .ok key) :
    loadNode read load wrap node' = .error error := by
  obtain ⟨record, hrecord, hkey⟩ := loadNode_eq_ok.1 h
  obtain ⟨concrete, hconcrete, -⟩ := Result.map_eq_ok.1 hkey
  obtain ⟨record', hrecord', hchanged⟩ := hread hrecord
  rw [loadNode, hrecord', Result.ofFault, Result.ok_bind, hload hchanged hconcrete]
  rfl

end

/-- A size that is not listed is refused. -/
theorem ofRecordText_of_declares {keyType table : KeyType} {text : String} {size : Nat}
    (h : keyType.Declares text table size) (hsize : size ∉ table.acceptableSizes) :
    ofRecordText keyType text = .error .invalidKeySize := by
  -- every family checks the size before it reads anything else
  have hfirst {α : Type} {f : Unit → Result α} :
      table.checkSize size >>= f = .error .invalidKeySize := KeyType.checkSize_bind_of_not_mem hsize
  cases h with
  | aes h | hmacSha1 h | dsaPrivate h | dsaPublic h | rsaPrivate h | rsaPublic h =>
    exact loadText_eq_error h hfirst
  | macKey h hmode => exact loadText_eq_error h (SymmetricKey.ofRecord_of_macKey hmode hfirst)
  | dsaPublicKey h => exact loadText_eq_error h (DsaPrivateKey.ofRecord_of_publicKey hfirst)
  | rsaPublicKey h => exact loadText_eq_error h (RsaPrivateKey.ofRecord_of_publicKey hfirst)

/-- A value that is loaded is refused with another size. -/
theorem ofNode_of_resize {keyType : KeyType} {node node' : Node} (hnode : keyType.Resize node node')
    {key : KeyMaterial} (h : ofNode keyType node = .ok key) :
    ofNode keyType node' = .error .invalidKeySize := by
  cases keyType with
  | aes =>
    exact loadNode_of_changed (Symmetric.ofNode_of_resize hnode) SymmetricKey.ofRecord_of_resized h
  | hmacSha1 =>
    exact loadNode_of_changed (Record.Mac.ofNode_of_resize hnode) MacKey.ofRecord_of_resized h
  | dsaPrivate =>
    exact loadNode_of_changed (DsaPrivate.ofNode_of_resize hnode)
      DsaPrivateKey.ofRecord_of_resized h
  | dsaPublic =>
    exact loadNode_of_changed (DsaPublic.ofNode_of_resize hnode) DsaPublicKey.ofRecord_of_resized h
  | rsaPrivate =>
    exact loadNode_of_changed (RsaPrivate.ofNode_of_resize hnode)
      RsaPrivateKey.ofRecord_of_resized h
  | rsaPublic =>
    exact loadNode_of_changed (RsaPublic.ofNode_of_resize hnode) RsaPublicKey.ofRecord_of_resized h

/-- **Declared sizes are never trusted.** A text whose record declares a size that is not listed
fails by its size, whatever else the record says. A text that is loaded fails by its size as well
when any one of the sizes it declares is changed to another number of 32 bits, listed or not. -/
theorem declared_sizes_not_trusted (keyType : KeyType) :
    (∀ {text : String} {table : KeyType} {size : Nat}, keyType.Declares text table size →
      size ∉ table.acceptableSizes → ofRecordText keyType text = .error .invalidKeySize) ∧
    ∀ {text : String} {key : KeyMaterial}, ofRecordText keyType text = .ok key →
      ∀ {node node' : Node} {text' : String}, node.Text text.toList → keyType.Resize node node' →
        node'.Text text'.toList → ofRecordText keyType text' = .error .invalidKeySize := by
  refine ⟨ofRecordText_of_declares, fun hload => fun htext hresize htext' => ?_⟩
  rw [ofRecordText_of_text htext] at hload
  rw [ofRecordText_of_text htext']
  exact ofNode_of_resize hresize hload

/-- A record that declares a MAC key of eight bits is refused for it, though neither key is base64.
The record of an AES key is refused when the size of its MAC key is changed to the other one there
is. -/
theorem declared_sizes_not_trusted_macKey :
    let record : Symmetric := ⟨"!", 128, ⟨"?", 8⟩, "CBC"⟩
    let key : SymmetricKey := ⟨List.replicate 16 0x40, ⟨List.replicate 20 0x60⟩⟩
    let resized : Symmetric :=
      { key.toRecord with macKey := { key.macKey.toRecord with size := 256 } }
    ofRecordText .aes record.toNode.render = .error .invalidKeySize ∧
      ofRecordText .aes key.recordText = .ok (symmetric key) ∧
        256 ∈ KeyType.hmacSha1.acceptableSizes ∧
          ofRecordText .aes resized.toNode.render = .error .invalidKeySize := by
  intro record key resized
  obtain ⟨hunlisted, hchanged⟩ := declared_sizes_not_trusted .aes
  have hplain : record.toNode.Plain := Symmetric.plain_toNode fun
    | .key => .text (show NoControl "!" by decide)
    | .size => .number _
    | .macKey => Record.Mac.plain_toNode fun
      | .key => .text (show NoControl "?" by decide)
      | .size => .number _
    | .mode => .text (show NoControl cbcMode by decide)
  have hread : readAll Symmetric.ofNode record.toNode.render = .ok record :=
    (readAll_render hplain _).trans (Symmetric.ofNode_toNode (by decide) (by decide))
  have hload : ofRecordText .aes key.recordText = .ok (symmetric key) :=
    (Obtained.symmetric (SymmetricKey.obtained_shortest 0x40 0x60)).checked.ofRecordText_recordText
  have hresized : resized.toNode.Plain := Symmetric.plain_toNode fun
    | .key => plain_encode _
    | .size => .number _
    | .macKey => Record.Mac.plain_toNode fun
      | .key => plain_encode _
      | .size => .number _
    | .mode => .text (show NoControl cbcMode by decide)
  have hresize : KeyType.aes.Resize key.toRecord.toNode resized.toNode :=
    Symmetric.resize_toNode (Record.Mac.resize_toNode (by decide) (by decide) (by decide))
  exact ⟨hunlisted (.macKey hread rfl) (by decide), hload, by decide,
    hchanged hload key.plain_record.text_render hresize hresized.text_render⟩

end KeyMaterial

end Keyring
