import Mathlib.Logic.Relation
import Keyring.Proofs.Json.Reading
import Keyring.Proofs.Key.RecordText
import Keyring.Proofs.Record.Variants

/-!
# A key depends only on what its record says

Main statement: the texts that a record text can be rewritten to, in any number of steps, are all
loaded as the same key. A text is loaded exactly when it is a text of a value that is read as a
record, so blanks and escapes do not count; and a rewrite of the value leaves the record saying the
same, so the numbers and bytes of the key stay.
-/

namespace Keyring

open Record Json

/-! ## What a text is loaded as -/

namespace Record

theorem readAll_of_text {α : Type} {node : Node} {text : String} (h : node.Text text.toList)
    (read : Node → Except Fault α) : readAll read text = read node := by
  simp only [readAll, h.ofText_eq]
  cases read node with
  | ok value => rfl
  | error fault => rfl

theorem readAll_eq_ok {α : Type} {read : Node → Except Fault α}
    (hread : ∀ {node value}, read node = .ok value → node.skipStop? = none) {text : String}
    {value : α} :
    readAll read text = .ok value ↔
      ∃ node : Node, node.Text text.toList ∧ read node = .ok value := by
  constructor
  · intro h
    obtain ⟨value', hvalue, h⟩ := Result.bind_eq_ok.1 h
    split at h
    case isTrue hrest =>
      cases h
      refine ⟨_, text_iff_ofText_eq.2 ⟨?_, hread hvalue⟩, hvalue⟩
      exact Prod.ext rfl (List.isEmpty_iff.1 hrest)
    case isFalse => cases h
  · rintro ⟨node, htext, hvalue⟩
    exact (readAll_of_text htext read).trans hvalue

end Record

/-! ## What a value is loaded as -/

namespace KeyMaterial

section

variable {α β : Type} {read : Node → Except Fault α} {load : α → Result β} {wrap : β → KeyMaterial}
  {key : KeyMaterial}

/-- The key of a value. -/
def loadNode (read : Node → Except Fault α) (load : α → Result β) (wrap : β → KeyMaterial)
    (node : Node) : Result KeyMaterial :=
  wrap <$> (Result.ofFault .invalidRecord (read node) >>= load)

theorem loadNode_eq_ok {node : Node} :
    loadNode read load wrap node = .ok key ↔
      ∃ record, read node = .ok record ∧ wrap <$> load record = .ok key := by
  rw [loadNode, Result.map_eq_ok]
  simp only [Result.bind_eq_ok, Result.ofFault_eq_ok, Result.map_eq_ok]
  constructor
  · rintro ⟨concrete, ⟨record, hrecord, hload⟩, hwrap⟩
    exact ⟨record, hrecord, concrete, hload, hwrap⟩
  · rintro ⟨record, hrecord, concrete, hload, hwrap⟩
    exact ⟨concrete, ⟨record, hrecord, hload⟩, hwrap⟩

/-- A text is loaded exactly when it is a text of a value that is. -/
theorem loadText_eq_ok (hread : ∀ {node record}, read node = .ok record → node.skipStop? = none)
    {text : String} :
    wrap <$> (Result.ofFault .invalidRecord (readAll read text) >>= load) = .ok key ↔
      ∃ node : Node, node.Text text.toList ∧ loadNode read load wrap node = .ok key := by
  simp only [loadNode_eq_ok, Result.map_eq_ok, Result.bind_eq_ok, Result.ofFault_eq_ok,
    readAll_eq_ok hread]
  constructor
  · rintro ⟨concrete, ⟨record, ⟨node, htext, hrecord⟩, hload⟩, hwrap⟩
    exact ⟨node, htext, record, hrecord, concrete, hload, hwrap⟩
  · rintro ⟨node, htext, record, hrecord, concrete, hload, hwrap⟩
    exact ⟨concrete, ⟨record, ⟨node, htext, hrecord⟩, hload⟩, hwrap⟩

/-- A value that is read as a record alike is loaded as the same key. -/
theorem loadNode_of_alike {Alike : α → α → Prop} {node node' : Node}
    (hread : ∀ {record}, read node = .ok record →
      ∃ record', read node' = .ok record' ∧ Alike record record')
    (hload : ∀ {record record'}, Alike record record' → load record = load record')
    (h : loadNode read load wrap node = .ok key) : loadNode read load wrap node' = .ok key := by
  rw [loadNode_eq_ok] at h ⊢
  obtain ⟨record, hrecord, hkey⟩ := h
  obtain ⟨record', hrecord', halike⟩ := hread hrecord
  rw [hload halike] at hkey
  exact ⟨record', hrecord', hkey⟩

end

/-- The key of a value, in a family. -/
def ofNode : KeyType → Node → Result KeyMaterial
  | .aes => loadNode Symmetric.ofNode SymmetricKey.ofRecord symmetric
  | .hmacSha1 => loadNode Record.Mac.ofNode MacKey.ofRecord mac
  | .dsaPrivate => loadNode DsaPrivate.ofNode DsaPrivateKey.ofRecord dsaPrivate
  | .dsaPublic => loadNode DsaPublic.ofNode DsaPublicKey.ofRecord dsaPublic
  | .rsaPrivate => loadNode RsaPrivate.ofNode RsaPrivateKey.ofRecord rsaPrivate
  | .rsaPublic => loadNode RsaPublic.ofNode RsaPublicKey.ofRecord rsaPublic

/-- A text of a value is loaded as the value is, or fails as it does. -/
theorem ofRecordText_of_text {node : Node} {text : String} (h : node.Text text.toList)
    (keyType : KeyType) : ofRecordText keyType text = ofNode keyType node := by
  have hload {α β : Type} (read : Node → Except Fault α) (load : α → Result β)
      (wrap : β → KeyMaterial) :
      wrap <$> (Result.ofFault .invalidRecord (readAll read text) >>= load) =
        loadNode read load wrap node := by
    rw [readAll_of_text h, loadNode]
  cases keyType with
  | aes | hmacSha1 | dsaPrivate | dsaPublic | rsaPrivate | rsaPublic => exact hload _ _ _

/-- **What a text is loaded as.** A text is loaded as a key exactly when it is a text of a value
that is. -/
theorem ofRecordText_eq_ok {keyType : KeyType} {text : String} {key : KeyMaterial} :
    ofRecordText keyType text = .ok key ↔
      ∃ node : Node, node.Text text.toList ∧ ofNode keyType node = .ok key := by
  cases keyType with
  | aes | hmacSha1 | dsaPrivate | dsaPublic | rsaPrivate | rsaPublic =>
    exact loadText_eq_ok Layout.skipStop?_of_bind

end KeyMaterial

/-! ## Records of the same numbers -/

theorem DsaPublicKey.ofRecord_alike {record record' : DsaPublic} (h : record.Alike record') :
    ofRecord record = ofRecord record' := by
  rw [ofRecord, ofRecord, h.p, h.q, h.g, h.y, h.size]

theorem DsaPrivateKey.ofRecord_alike {record record' : DsaPrivate} (h : record.Alike record') :
    ofRecord record = ofRecord record' := by
  rw [ofRecord, ofRecord, DsaPublicKey.ofRecord_alike h.publicKey, h.x, h.size]

theorem RsaPublicKey.ofRecord_alike {record record' : RsaPublic} (h : record.Alike record') :
    ofRecord record = ofRecord record' := by
  rw [ofRecord, ofRecord, h.modulus, h.publicExponent, h.size]

theorem RsaPrivateKey.ofRecord_alike {record record' : RsaPrivate} (h : record.Alike record') :
    ofRecord record = ofRecord record' := by
  rw [ofRecord, ofRecord, RsaPublicKey.ofRecord_alike h.publicKey, h.privateExponent, h.primeP,
    h.primeQ, h.primeExponentP, h.primeExponentQ, h.crtCoefficient, h.size]

/-! ## Rewritten texts -/

namespace KeyType

/-- A single rewrite of the record of a family, or of a record inside it. -/
def Rewrite : KeyType → Node → Node → Prop
  | .aes => Symmetric.Rewrite
  | .hmacSha1 => Record.Mac.Rewrite
  | .dsaPrivate => DsaPrivate.Rewrite
  | .dsaPublic => DsaPublic.Rewrite
  | .rsaPrivate => RsaPrivate.Rewrite
  | .rsaPublic => RsaPublic.Rewrite

/-- A single rewrite of a record text: another text of the same value, or of the rewritten one. -/
inductive TextRewrite (keyType : KeyType) (text text' : String) : Prop
  | respace {node : Node} (h : node.Text text.toList) (h' : node.Text text'.toList)
  | rewrite {node node' : Node} (hnode : keyType.Rewrite node node') (h : node.Text text.toList)
    (h' : node'.Text text'.toList)

/-- The texts that a record text can be rewritten to. -/
def Variant (keyType : KeyType) : String → String → Prop :=
  Relation.ReflTransGen keyType.TextRewrite

end KeyType

namespace KeyMaterial

theorem ofNode_of_rewrite {keyType : KeyType} {node node' : Node}
    (hnode : keyType.Rewrite node node') {key : KeyMaterial} (h : ofNode keyType node = .ok key) :
    ofNode keyType node' = .ok key := by
  cases keyType with
  | aes =>
    exact loadNode_of_alike
      (fun hread => ⟨_, Symmetric.ofNode_of_rewrite hnode hread, rfl⟩) (congrArg _) h
  | hmacSha1 =>
    exact loadNode_of_alike
      (fun hread => ⟨_, Record.Mac.ofNode_of_rewrite hnode hread, rfl⟩) (congrArg _) h
  | dsaPrivate =>
    exact loadNode_of_alike (DsaPrivate.ofNode_of_rewrite hnode) DsaPrivateKey.ofRecord_alike h
  | dsaPublic =>
    exact loadNode_of_alike (DsaPublic.ofNode_of_rewrite hnode) DsaPublicKey.ofRecord_alike h
  | rsaPrivate =>
    exact loadNode_of_alike (RsaPrivate.ofNode_of_rewrite hnode) RsaPrivateKey.ofRecord_alike h
  | rsaPublic =>
    exact loadNode_of_alike (RsaPublic.ofNode_of_rewrite hnode) RsaPublicKey.ofRecord_alike h

/-- A value has one tree, so a text has one value. -/
theorem ofRecordText_of_textRewrite {keyType : KeyType} {text text' : String}
    (h : keyType.TextRewrite text text') {key : KeyMaterial}
    (hload : ofRecordText keyType text = .ok key) : ofRecordText keyType text' = .ok key := by
  obtain ⟨node, htext, hkey⟩ := ofRecordText_eq_ok.1 hload
  have hunique {other : Node} (hother : other.Text text.toList) : other = node :=
    congrArg Prod.fst (hother.ofText_eq.symm.trans htext.ofText_eq)
  rw [ofRecordText_eq_ok]
  cases h with
  | respace h h' =>
    obtain rfl := hunique h
    exact ⟨_, h', hkey⟩
  | rewrite hnode h h' =>
    obtain rfl := hunique h
    exact ⟨_, h', ofNode_of_rewrite hnode hkey⟩

/-- **A key depends only on what its record says.** A record text that is loaded is a text of some
value. All texts it can be rewritten to, in any number of steps, are loaded too and as the same key,
which has the same id and is written as the same text. -/
theorem loads_variant {keyType : KeyType} {text : String} {key : KeyMaterial}
    (h : ofRecordText keyType text = .ok key) :
    (∃ node : Node, node.Text text.toList) ∧
      ∀ text', keyType.Variant text text' →
        ∃ key', ofRecordText keyType text' = .ok key' ∧ key' = key ∧ key'.keyId = key.keyId ∧
          key'.recordText = key.recordText := by
  constructor
  · obtain ⟨node, htext, -⟩ := ofRecordText_eq_ok.1 h
    exact ⟨node, htext⟩
  · intro text' hvariant
    have hload : ofRecordText keyType text' = .ok key := by
      induction hvariant with
      | refl => exact h
      | tail _ hstep ih => exact ofRecordText_of_textRewrite hstep ih
    exact ⟨key, hload, rfl, rfl, rfl⟩

end KeyMaterial

/-- The record of an AES key under its older name, without a mode and with a member more. -/
def SymmetricKey.olderNode (key : SymmetricKey) : Node :=
  objectNode
    [("name", .null), ("aesKeyString", textNode (Web64.encode key.bytes)),
      ("size", wordNode key.size), ("macKey", key.macKey.toRecord.toNode)]

/-- What an AES key is written as can be rewritten to its older record, here behind a blank. -/
theorem SymmetricKey.variant_olderNode (key : SymmetricKey) :
    KeyType.aes.Variant key.recordText (String.ofList (' ' :: key.olderNode.render.toList)) := by
  let mode := ("mode", textNode cbcMode)
  let bytes := textNode (Web64.encode key.bytes)
  let others := [("size", wordNode key.size), ("macKey", key.macKey.toRecord.toNode)]
  have hothers : ∀ member ∈ others, NoControl member.1 ∧ member.2.Plain :=
    List.forall_mem_cons.2 ⟨⟨show NoControl "size" by decide, .number _⟩,
      List.forall_mem_singleton.2 ⟨show NoControl "macKey" by decide, key.macKey.plain_record⟩⟩
  have hnamed (name : String) (hname : NoControl name) :
      ∀ member ∈ (name, bytes) :: others, NoControl member.1 ∧ member.2.Plain :=
    List.forall_mem_cons.2 ⟨⟨hname, plain_encode _⟩, hothers⟩
  have hmode : (objectNode (mode :: ("key", bytes) :: others)).Plain := plain_objectNode <|
    List.forall_mem_cons.2 ⟨⟨by decide, .text (by decide)⟩, hnamed "key" (by decide)⟩
  have hcurrent := plain_objectNode (hnamed "key" (by decide))
  have hrenamed := plain_objectNode (hnamed "aesKeyString" (by decide))
  have holder : key.olderNode.Plain := plain_objectNode <|
    List.forall_mem_cons.2 ⟨⟨by decide, .null⟩, hnamed "aesKeyString" (by decide)⟩
  have hstep {node node' : Node} (h : Symmetric.Rewrite node node') (hnode : node.Plain)
      (hnode' : node'.Plain) : KeyType.aes.TextRewrite node.render node'.render :=
    .rewrite h hnode.text_render hnode'.text_render
  have hnames {name : String} {field : Symmetric.Field}
      (h : name ∈ Symmetric.layout.names field) :
      Symmetric.layout.Names (.ofString name) field := ⟨name, h, decode_ofString name⟩
  -- the mode is moved to the front and dropped
  have hpermute : Symmetric.Rewrite key.toRecord.toNode
      (objectNode (mode :: ("key", bytes) :: others)) :=
    .members (.permute ((List.perm_append_singleton mode (("key", bytes) :: others)).map _))
  have hmodeName : Symmetric.layout.Names (.ofString "mode") .mode := hnames (by decide)
  have hdefault : Spells (textNode cbcMode) cbcMode := ⟨_, rfl, decode_ofString cbcMode⟩
  have hdrop : Symmetric.Rewrite (objectNode (mode :: ("key", bytes) :: others))
      (objectNode (("key", bytes) :: others)) := .members (.dropDefault hmodeName hdefault _)
  have hkeyName : Symmetric.layout.Names (.ofString "key") .key := hnames (by decide)
  have hrename : Symmetric.Rewrite (objectNode (("key", bytes) :: others))
      (objectNode (("aesKeyString", bytes) :: others)) :=
    .members (.rename hkeyName (hnames (by decide)) bytes _)
  have hforeign : Symmetric.layout.Foreign (.ofString "name") := by
    refine ⟨"name", decode_ofString "name", fun field => ?_⟩
    cases field <;> decide
  have hinsert : Symmetric.Rewrite (objectNode (("aesKeyString", bytes) :: others))
      key.olderNode := .members (.insert hforeign .null _)
  have hblank : Blank [' '] := List.forall_mem_singleton.2 rfl
  have htext : key.olderNode.Text (String.ofList (' ' :: key.olderNode.render.toList)).toList := by
    rw [String.toList_ofList]
    exact ⟨holder.complete, holder.text_render.tokens.blanks_append hblank⟩
  have hmoved : KeyType.aes.Variant key.recordText _ :=
    .single (hstep hpermute key.plain_record hmode)
  exact (((hmoved.tail (hstep hdrop hmode hcurrent)).tail (hstep hrename hcurrent hrenamed)).tail
    (hstep hinsert hrenamed holder)).tail (.respace holder.text_render htext)

namespace KeyMaterial

/-- So the older record of one AES key is loaded as the key. -/
theorem loads_variant_older :
    ofRecordText .aes (String.ofList (' ' :: (SymmetricKey.olderNode
      ⟨List.replicate 16 0x40, ⟨List.replicate 20 0x60⟩⟩).render.toList)) =
      .ok (symmetric ⟨List.replicate 16 0x40, ⟨List.replicate 20 0x60⟩⟩) := by
  have hkey := Obtained.symmetric (SymmetricKey.obtained_shortest 0x40 0x60)
  have hload := hkey.checked.ofRecordText_recordText
  obtain ⟨key', hload', rfl, -⟩ := (loads_variant hload).2 _ (SymmetricKey.variant_olderNode _)
  exact hload'

end KeyMaterial

end Keyring
