import Keyring.Key.Material
import Keyring.Proofs.Format.BigEndian
import Keyring.Proofs.Key.Checked
import Keyring.Proofs.Key.Obtained
import Keyring.Proofs.Record.Schema
import Keyring.Proofs.Text.Web64

/-!
# Records of keys read back

Main statement: a key of any family that was obtained, however it was, is read back from its record
text as the same key. The text is a plain tree, so it is read as that tree; every field is the
spelling of its bytes or of its number, so the values are read back; and what is checked of a key
when it is read is what was checked when it was obtained. The record of a private key holds that of
its public half.
-/

namespace Keyring

open Record Json

/-! ## Fields -/

namespace Record

theorem readBytes_encode (bytes : Bytes) : readBytes (Web64.encode bytes) = .ok bytes := by
  rw [readBytes, Web64.decode_encode]
  rfl

theorem readNumber_writeNumber (n : Nat) : readNumber (writeNumber n) = .ok n := by
  rw [readNumber, writeNumber, readBytes_encode]
  exact congrArg Except.ok (Bytes.toNat_minimal n)

theorem plain_encode (bytes : Bytes) : (textNode (Web64.encode bytes)).Plain :=
  .text fun _ => Web64.le_toNat_of_mem_encode

/-- What is loaded from the text of a tree is what is loaded from the tree. -/
theorem load_render_eq_ok {α β : Type} {node : Node} (hnode : node.Plain)
    {read : Node → Except Fault α} {load : α → Result β} {key : β} :
    Result.ofFault .invalidRecord (readAll read node.render) >>= load = .ok key ↔
      ∃ record, read node = .ok record ∧ load record = .ok key := by
  rw [readAll_render hnode, Result.bind_eq_ok]
  simp only [Result.ofFault_eq_ok]

end Record

/-! ## MAC keys -/

namespace MacKey

theorem plain_record (key : MacKey) : key.toRecord.toNode.Plain :=
  Mac.plain_toNode fun
    | .key => plain_encode _
    | .size => .number _

theorem ofRecord_toRecord {key : MacKey} (h : key.size ∈ KeyType.hmacSha1.acceptableSizes) :
    ofRecord key.toRecord = .ok key := by
  apply Result.bind_eq_ok.2
  refine ⟨(), KeyType.checkSize_eq_ok.2 h, ?_⟩
  apply Result.bind_eq_ok.2
  exact ⟨key.bytes, readBytes_encode key.bytes, if_neg (Decidable.not_not.2 rfl)⟩

theorem ofRecordText_recordText {key : MacKey}
    (h : key.size ∈ KeyType.hmacSha1.acceptableSizes) :
    ofRecordText key.recordText = .ok key := by
  have hread : Record.Mac.ofNode key.toRecord.toNode = .ok key.toRecord :=
    Mac.ofNode_toNode (KeyType.lt_of_mem_acceptableSizes h)
  exact (load_render_eq_ok key.plain_record).2 ⟨_, hread, ofRecord_toRecord h⟩

end MacKey

/-! ## Symmetric keys -/

namespace SymmetricKey

theorem plain_record (key : SymmetricKey) : key.toRecord.toNode.Plain :=
  Symmetric.plain_toNode fun
    | .key => plain_encode _
    | .size => .number _
    | .macKey => key.macKey.plain_record
    | .mode => .text (show NoControl cbcMode by decide)

theorem ofRecord_toRecord {key : SymmetricKey} (h : key.size ∈ KeyType.aes.acceptableSizes)
    (hmac : key.macKey.size ∈ KeyType.hmacSha1.acceptableSizes) :
    ofRecord key.toRecord = .ok key := by
  have hmode : key.toRecord.mode = cbcMode := rfl
  apply Result.bind_eq_ok.2
  refine ⟨(), KeyType.checkSize_eq_ok.2 h, ?_⟩
  rw [if_neg (Decidable.not_not.2 hmode)]
  apply Result.bind_eq_ok.2
  refine ⟨key.macKey, MacKey.ofRecord_toRecord hmac, ?_⟩
  apply Result.bind_eq_ok.2
  exact ⟨key.bytes, readBytes_encode key.bytes, if_neg (Decidable.not_not.2 rfl)⟩

theorem ofRecordText_recordText {key : SymmetricKey} (h : key.size ∈ KeyType.aes.acceptableSizes)
    (hmac : key.macKey.size ∈ KeyType.hmacSha1.acceptableSizes) :
    ofRecordText key.recordText = .ok key := by
  have hread : Record.Symmetric.ofNode key.toRecord.toNode = .ok key.toRecord :=
    Symmetric.ofNode_toNode (KeyType.lt_of_mem_acceptableSizes h)
      (KeyType.lt_of_mem_acceptableSizes hmac)
  exact (load_render_eq_ok key.plain_record).2 ⟨_, hread, ofRecord_toRecord h hmac⟩

end SymmetricKey

/-! ## DSA keys -/

namespace DsaPublicKey

theorem plain_record (key : DsaPublicKey) : key.toRecord.toNode.Plain :=
  DsaPublic.plain_toNode fun
    | .q | .p | .g | .y => plain_encode _
    | .size => .number _

theorem ofRecord_toRecord {key : DsaPublicKey} (h : key.Checked) :
    ofRecord key.toRecord = .ok key := by
  apply Result.bind_eq_ok.2
  refine ⟨(), KeyType.checkSize_eq_ok.2 h.size_mem, ?_⟩
  simp only [toRecord, readNumber_writeNumber]
  exact ofNumbers_eq_ok.2 ⟨h, rfl⟩

theorem ofRecordText_recordText {key : DsaPublicKey} (h : key.Checked) :
    ofRecordText key.recordText = .ok key := by
  have hread : Record.DsaPublic.ofNode key.toRecord.toNode = .ok key.toRecord :=
    DsaPublic.ofNode_toNode (KeyType.lt_of_mem_acceptableSizes h.size_mem)
  exact (load_render_eq_ok key.plain_record).2 ⟨_, hread, ofRecord_toRecord h⟩

end DsaPublicKey

namespace DsaPrivateKey

theorem plain_record (key : DsaPrivateKey) : key.toRecord.toNode.Plain :=
  DsaPrivate.plain_toNode fun
    | .publicKey => key.publicKey.plain_record
    | .size => .number _
    | .x => plain_encode _

theorem ofRecord_toRecord {key : DsaPrivateKey} (h : key.Checked) :
    ofRecord key.toRecord = .ok key := by
  apply Result.bind_eq_ok.2
  refine ⟨(), KeyType.checkSize_eq_ok.2 h.size_mem, ?_⟩
  simp only [toRecord, readNumber_writeNumber, DsaPublicKey.ofRecord_toRecord h.publicKey]
  exact (ofNumbers_eq_ok h.publicKey).2 ⟨h, rfl⟩

theorem ofRecordText_recordText {key : DsaPrivateKey} (h : key.Checked) :
    ofRecordText key.recordText = .ok key := by
  have hread : Record.DsaPrivate.ofNode key.toRecord.toNode = .ok key.toRecord :=
    DsaPrivate.ofNode_toNode (KeyType.lt_of_mem_acceptableSizes h.size_mem)
      (KeyType.lt_of_mem_acceptableSizes h.publicKey.size_mem)
  exact (load_render_eq_ok key.plain_record).2 ⟨_, hread, ofRecord_toRecord h⟩

end DsaPrivateKey

/-! ## RSA keys -/

namespace RsaPublicKey

theorem plain_record (key : RsaPublicKey) : key.toRecord.toNode.Plain :=
  RsaPublic.plain_toNode fun
    | .modulus | .publicExponent => plain_encode _
    | .size => .number _

theorem ofRecord_toRecord {key : RsaPublicKey} (h : key.Checked) :
    ofRecord key.toRecord = .ok key := by
  apply Result.bind_eq_ok.2
  refine ⟨(), KeyType.checkSize_eq_ok.2 h.size_mem, ?_⟩
  simp only [toRecord, readNumber_writeNumber]
  exact ofNumbers_eq_ok.2 ⟨h, rfl⟩

theorem ofRecordText_recordText {key : RsaPublicKey} (h : key.Checked) :
    ofRecordText key.recordText = .ok key := by
  have hread : Record.RsaPublic.ofNode key.toRecord.toNode = .ok key.toRecord :=
    RsaPublic.ofNode_toNode (KeyType.lt_of_mem_acceptableSizes h.size_mem)
  exact (load_render_eq_ok key.plain_record).2 ⟨_, hread, ofRecord_toRecord h⟩

end RsaPublicKey

namespace RsaPrivateKey

theorem plain_record (key : RsaPrivateKey) : key.toRecord.toNode.Plain :=
  RsaPrivate.plain_toNode fun
    | .crtCoefficient | .primeExponentP | .primeExponentQ => plain_encode _
    | .primeP | .primeQ | .privateExponent => plain_encode _
    | .publicKey => key.publicKey.plain_record
    | .size => .number _

theorem ofRecord_toRecord {key : RsaPrivateKey} (h : key.Checked) :
    ofRecord key.toRecord = .ok key := by
  apply Result.bind_eq_ok.2
  refine ⟨(), KeyType.checkSize_eq_ok.2 h.size_mem, ?_⟩
  simp only [toRecord, readNumber_writeNumber, RsaPublicKey.ofRecord_toRecord h.publicKey]
  exact (ofNumbers_eq_ok h.publicKey).2 ⟨h, rfl⟩

theorem ofRecordText_recordText {key : RsaPrivateKey} (h : key.Checked) :
    ofRecordText key.recordText = .ok key := by
  have hread : Record.RsaPrivate.ofNode key.toRecord.toNode = .ok key.toRecord :=
    RsaPrivate.ofNode_toNode (KeyType.lt_of_mem_acceptableSizes h.size_mem)
      (KeyType.lt_of_mem_acceptableSizes h.publicKey.size_mem)
  exact (load_render_eq_ok key.plain_record).2 ⟨_, hread, ofRecord_toRecord h⟩

end RsaPrivateKey

/-! ## Keys of any family -/

/-- The value of a member of an object. -/
def Json.Node.member? (name : String) : Node → Option Node
  | .object members _ => (members.find? fun member => member.1 = .ofString name).map (·.2)
  | _ => none

namespace KeyMaterial

/-- The ways to come by a key: from a record of some family, or as a key of its own family. -/
inductive Obtained : KeyMaterial → Prop
  | ofRecordText {keyType : KeyType} {text : String} {key : KeyMaterial}
    (h : KeyMaterial.ofRecordText keyType text = .ok key) : Obtained key
  | symmetric {key : SymmetricKey} (h : key.Obtained) : Obtained (.symmetric key)
  | mac {key : MacKey} (h : key.Obtained) : Obtained (.mac key)
  | dsaPrivate {key : DsaPrivateKey} (h : key.Obtained) : Obtained (.dsaPrivate key)
  | dsaPublic {key : DsaPublicKey} (h : key.Obtained) : Obtained (.dsaPublic key)
  | rsaPrivate {key : RsaPrivateKey} (h : key.Obtained) : Obtained (.rsaPrivate key)
  | rsaPublic {key : RsaPublicKey} (h : key.Obtained) : Obtained (.rsaPublic key)

/-- What is known of a key that was obtained: that its sizes are listed, or that its numbers were
checked. -/
def Checked : KeyMaterial → Prop
  | .symmetric key =>
    key.size ∈ KeyType.aes.acceptableSizes ∧ key.macKey.size ∈ KeyType.hmacSha1.acceptableSizes
  | .mac key => key.size ∈ KeyType.hmacSha1.acceptableSizes
  | .dsaPrivate key => key.Checked
  | .dsaPublic key => key.Checked
  | .rsaPrivate key => key.Checked
  | .rsaPublic key => key.Checked

theorem checked_of_ofRecordText {keyType : KeyType} {text : String} {key : KeyMaterial}
    (h : ofRecordText keyType text = .ok key) : key.Checked := by
  cases keyType with
  | aes =>
    obtain ⟨concrete, hconcrete, rfl⟩ := Result.map_eq_ok.1 h
    have hobtained := SymmetricKey.Obtained.ofRecordText hconcrete
    exact ⟨hobtained.size_mem, hobtained.macKey_size_mem⟩
  | hmacSha1 =>
    obtain ⟨concrete, hconcrete, rfl⟩ := Result.map_eq_ok.1 h
    exact (MacKey.Obtained.ofRecordText hconcrete).size_mem
  | dsaPrivate =>
    obtain ⟨concrete, hconcrete, rfl⟩ := Result.map_eq_ok.1 h
    exact (DsaPrivateKey.Obtained.ofRecordText hconcrete).checked
  | dsaPublic =>
    obtain ⟨concrete, hconcrete, rfl⟩ := Result.map_eq_ok.1 h
    exact (DsaPublicKey.Obtained.ofRecordText hconcrete).checked
  | rsaPrivate =>
    obtain ⟨concrete, hconcrete, rfl⟩ := Result.map_eq_ok.1 h
    exact (RsaPrivateKey.Obtained.ofRecordText hconcrete).checked
  | rsaPublic =>
    obtain ⟨concrete, hconcrete, rfl⟩ := Result.map_eq_ok.1 h
    exact (RsaPublicKey.Obtained.ofRecordText hconcrete).checked

theorem Obtained.checked {key : KeyMaterial} (h : key.Obtained) : key.Checked := by
  cases h with
  | ofRecordText h => exact checked_of_ofRecordText h
  | symmetric h => exact ⟨h.size_mem, h.macKey_size_mem⟩
  | mac h => exact h.size_mem
  | dsaPrivate h => exact h.checked
  | dsaPublic h => exact h.checked
  | rsaPrivate h => exact h.checked
  | rsaPublic h => exact h.checked

theorem Checked.publicHalf? {key half : KeyMaterial} (h : key.Checked)
    (hhalf : key.publicHalf? = some half) : half.Checked := by
  cases key with
  | dsaPrivate key =>
    cases hhalf
    exact DsaPrivateKey.Checked.publicKey h
  | rsaPrivate key =>
    cases hhalf
    exact RsaPrivateKey.Checked.publicKey h
  | symmetric | mac | dsaPublic | rsaPublic => cases hhalf

theorem Checked.ofRecordText_recordText {key : KeyMaterial} (h : key.Checked) :
    ofRecordText key.keyType key.recordText = .ok key := by
  cases key with
  | symmetric key =>
    exact congrArg (symmetric <$> ·) (SymmetricKey.ofRecordText_recordText h.1 h.2)
  | mac key => exact congrArg (mac <$> ·) (MacKey.ofRecordText_recordText h)
  | dsaPrivate key => exact congrArg (dsaPrivate <$> ·) (DsaPrivateKey.ofRecordText_recordText h)
  | dsaPublic key => exact congrArg (dsaPublic <$> ·) (DsaPublicKey.ofRecordText_recordText h)
  | rsaPrivate key => exact congrArg (rsaPrivate <$> ·) (RsaPrivateKey.ofRecordText_recordText h)
  | rsaPublic key => exact congrArg (rsaPublic <$> ·) (RsaPublicKey.ofRecordText_recordText h)

/-- The record of a private key holds that of its public half. -/
theorem member?_publicKey {key half : KeyMaterial} (h : key.publicHalf? = some half) :
    ∃ nested, (Node.ofText key.recordText.toList).1.member? "publicKey" = some nested ∧
      nested.render = half.recordText := by
  cases key with
  | dsaPrivate key =>
    cases h
    refine ⟨key.publicKey.toRecord.toNode, ?_, rfl⟩
    rw [recordText, DsaPrivateKey.recordText, key.plain_record.ofText_render]
    rfl
  | rsaPrivate key =>
    cases h
    refine ⟨key.publicKey.toRecord.toNode, ?_, rfl⟩
    rw [recordText, RsaPrivateKey.recordText, key.plain_record.ofText_render]
    rfl
  | symmetric | mac | dsaPublic | rsaPublic => cases h

theorem keyId_of_publicHalf? {key half : KeyMaterial} (h : key.publicHalf? = some half) :
    half.keyId = key.keyId := by
  cases key with
  | dsaPrivate key | rsaPrivate key =>
    cases h
    rfl
  | symmetric | mac | dsaPublic | rsaPublic => cases h

/-- **What a key is written as is read as the key.** However a key was obtained, its record text is
read in its own family as the same key, with every byte, number and size of it. The public half of a
private key is read back from its own record text and has the id of the private key, and the object
that the private record holds for it has the same text. -/
theorem loads_own_record {key : KeyMaterial} (hkey : key.Obtained) :
    ofRecordText key.keyType key.recordText = .ok key ∧
      ∀ half, key.publicHalf? = some half →
        ofRecordText half.keyType half.recordText = .ok half ∧ half.keyId = key.keyId ∧
        ∃ nested, (Node.ofText key.recordText.toList).1.member? "publicKey" = some nested ∧
          nested.render = half.recordText := by
  refine ⟨hkey.checked.ofRecordText_recordText, fun half hhalf => ?_⟩
  have hloads := (hkey.checked.publicHalf? hhalf).ofRecordText_recordText
  exact ⟨hloads, keyId_of_publicHalf? hhalf, member?_publicKey hhalf⟩

/-- An RSA private key of the least length and its public half are both read back. -/
theorem loads_own_record_nearPowers :
    ofRecordText .rsaPrivate (rsaPrivate .nearPowers).recordText = .ok (rsaPrivate .nearPowers) ∧
      ofRecordText .rsaPublic (rsaPublic RsaPrivateKey.nearPowers.publicKey).recordText =
        .ok (rsaPublic RsaPrivateKey.nearPowers.publicKey) := by
  obtain ⟨hprivate, hhalf⟩ := loads_own_record (.rsaPrivate RsaPrivateKey.obtained_nearPowers)
  exact ⟨hprivate, (hhalf _ rfl).1⟩

end KeyMaterial

end Keyring
