import Keyring.Proofs.Format.BigEndian
import Keyring.Proofs.Record.Rewriting
import Keyring.Proofs.Record.Schema
import Keyring.Record.Value

/-!
# Variants of the records of the key families

What may be written differently in the record of each family: a string in any spelling, a number
with any number of zero bytes in front, the only mode there is by leaving it out, and a nested
record in any variant of it. Main statements, once for each family: a rewrite within this latitude
is read as a record that says the same. Records without numbers even are the same.
-/

namespace Keyring.Record

open Json

/-! ## Single values -/

/-- The string that a node spells. -/
def Spells (node : Node) (text : String) : Prop :=
  ∃ value, node = .text value ∧ value.decode = .ok text

/-- Two spellings of one string. -/
def SameText (node node' : Node) : Prop :=
  ∃ text, Spells node text ∧ Spells node' text

/-- Two spellings of one number, whose bytes may have zeros in front. -/
inductive SameNumber (node node' : Node) : Prop
  | text (h : SameText node node')
  | zeros {text text' : String} {count count' : Nat} {bytes : Bytes} (hnode : Spells node text)
    (hnode' : Spells node' text')
    (htext : Web64.decode text = .ok (List.replicate count 0 ++ bytes))
    (htext' : Web64.decode text' = .ok (List.replicate count' 0 ++ bytes))

theorem readText_eq_ok {node : Node} {text : String} :
    readText node = .ok text ↔ Spells node text := by
  constructor
  · intro h
    cases node with
    | text value =>
      rw [readText] at h
      cases hvalue : value.decode with
      | ok decoded =>
        rw [hvalue] at h
        cases h
        exact ⟨value, rfl, hvalue⟩
      | error stop =>
        rw [hvalue] at h
        cases h
    | null | bool | number | array | object | broken => cases h
  · rintro ⟨value, rfl, hvalue⟩
    rw [readText, hvalue]
    rfl

theorem SameText.readText_eq {node node' : Node} (h : SameText node node') {text : String}
    (hread : readText node = .ok text) : readText node' = .ok text := by
  obtain ⟨text', hnode, hnode'⟩ := h
  obtain rfl : text = text' := Except.ok.inj (hread.symm.trans (readText_eq_ok.2 hnode))
  exact readText_eq_ok.2 hnode'

theorem readNumber_zeros {text : String} {count : Nat} {bytes : Bytes}
    (h : Web64.decode text = .ok (List.replicate count 0 ++ bytes)) :
    readNumber text = .ok (Bytes.toNat bytes) := by
  rw [readNumber, readBytes, h]
  exact congrArg Except.ok (Bytes.toNat_replicate_zero_append count bytes)

/-- Two texts that spell one number, or both none. -/
def AlikeNumber (text text' : String) : Prop :=
  readNumber text = readNumber text'

theorem SameNumber.exists_alike {node node' : Node} (h : SameNumber node node') {text : String}
    (hread : readText node = .ok text) :
    ∃ text', readText node' = .ok text' ∧ AlikeNumber text text' := by
  cases h with
  | text h => exact ⟨text, h.readText_eq hread, rfl⟩
  | zeros hnode hnode' htext htext' =>
    obtain rfl := Except.ok.inj (hread.symm.trans (readText_eq_ok.2 hnode))
    refine ⟨_, readText_eq_ok.2 hnode', ?_⟩
    rw [AlikeNumber, readNumber_zeros htext, readNumber_zeros htext']

/-! ## MAC keys -/

namespace Mac

def latitude : Layout.Latitude Field where
  Same
    | .key => SameText
    | .size => fun _ _ => False
  Default _ _ := False

/-- A single rewrite of the record of a MAC key. -/
def Rewrite : Node → Node → Prop := layout.Rewrite latitude

theorem legible_layout : layout.Legible := by
  intro field
  cases field <;> decide

theorem sound_latitude : latitude.Sound layout fun _ => Option.Rel Eq := by
  refine .of_rel (fun _ _ => rfl) ?_ (fun _ _ => id)
  intro field node node' text hsame hread
  cases field with
  | key => exact ⟨text, hsame.readText_eq hread, rfl⟩
  | size => cases hsame

theorem ofNode_of_rewrite {node node' : Node} (h : Rewrite node node') {record : Mac}
    (hread : ofNode node = .ok record) : ofNode node' = .ok record := by
  obtain ⟨value, hdraft, halike⟩ :=
    Layout.values_of_rewrite writable_layout.nodup legible_layout sound_latitude h
      (ofNode_eq_ok.1 hread)
  obtain rfl := funext halike
  exact ofNode_eq_ok.2 hdraft

end Mac

/-! ## Symmetric keys -/

namespace Symmetric

def latitude : Layout.Latitude Field where
  Same
    | .key | .mode => SameText
    | .size => fun _ _ => False
    | .macKey => Mac.Rewrite
  Default
    | .mode => fun node => Spells node cbcMode
    | .key | .size | .macKey => fun _ => False

/-- A single rewrite of the record of a symmetric key, or of the record inside it. -/
def Rewrite : Node → Node → Prop := layout.Rewrite latitude

theorem legible_layout : layout.Legible := by
  intro field
  cases field <;> decide

/-- Equal values, where no mode is the only mode there is. -/
def Agree : (field : Field) → Option (layout.Value field) → Option (layout.Value field) → Prop
  | .mode => fun (value value' : Option String) => value.getD cbcMode = value'.getD cbcMode
  | .key | .size | .macKey => Eq

theorem sound_latitude : latitude.Sound layout Agree where
  refl field value := by
    cases field <;> rfl
  same := by
    intro field node node' value hsame hread
    cases field with
    | key | mode => exact ⟨value, hsame.readText_eq hread, rfl⟩
    | size => cases hsame
    | macKey => exact ⟨value, Mac.ofNode_of_rewrite hsame hread, rfl⟩
  default := by
    intro field node hdefault
    cases field with
    | mode => exact ⟨cbcMode, readText_eq_ok.2 hdefault, rfl, rfl⟩
    | key | size | macKey => cases hdefault

theorem ofNode_of_rewrite {node node' : Node} (h : Rewrite node node') {record : Symmetric}
    (hread : ofNode node = .ok record) : ofNode node' = .ok record := by
  obtain ⟨draft, hdraft, hrequired, hmode⟩ := ofNode_eq_ok.1 hread
  obtain ⟨draft', hdraft', hagree⟩ :=
    Layout.draft_of_rewrite writable_layout.nodup legible_layout sound_latitude h hdraft
  refine ofNode_eq_ok.2 ⟨draft', hdraft', fun field hfield => ?_, (hagree .mode).symm.trans hmode⟩
  cases field with
  | key => exact (hagree .key).symm.trans (hrequired .key rfl)
  | size => exact (hagree .size).symm.trans (hrequired .size rfl)
  | macKey => exact (hagree .macKey).symm.trans (hrequired .macKey rfl)
  | mode => cases hfield

end Symmetric

/-! ## DSA keys -/

namespace DsaPublic

def latitude : Layout.Latitude Field where
  Same
    | .q | .p | .g | .y => SameNumber
    | .size => fun _ _ => False
  Default _ _ := False

/-- A single rewrite of the record of a DSA public key. -/
def Rewrite : Node → Node → Prop := layout.Rewrite latitude

theorem legible_layout : layout.Legible := by
  intro field
  cases field <;> decide

def AlikeField : (field : Field) → layout.Value field → layout.Value field → Prop
  | .q | .p | .g | .y => AlikeNumber
  | .size => Eq

theorem sound_latitude : latitude.Sound layout fun field => Option.Rel (AlikeField field) := by
  refine .of_rel (fun field _ => ?_) ?_ (fun _ _ => id)
  · cases field <;> rfl
  · intro field node node' value hsame hread
    cases field with
    | q | p | g | y => exact hsame.exists_alike hread
    | size => cases hsame

/-- Records of the same numbers. -/
structure Alike (record record' : DsaPublic) : Prop where
  q : AlikeNumber record.q record'.q
  p : AlikeNumber record.p record'.p
  g : AlikeNumber record.g record'.g
  y : AlikeNumber record.y record'.y
  size : record.size = record'.size

theorem ofNode_of_rewrite {node node' : Node} (h : Rewrite node node') {record : DsaPublic}
    (hread : ofNode node = .ok record) :
    ∃ record', ofNode node' = .ok record' ∧ record.Alike record' := by
  obtain ⟨value, hdraft, halike⟩ :=
    Layout.values_of_rewrite writable_layout.nodup legible_layout sound_latitude h
      (ofNode_eq_ok.1 hread)
  obtain ⟨record', rfl⟩ : ∃ record' : DsaPublic, record'.fieldValue = value := by
    refine ⟨⟨value .q, value .p, value .g, value .y, value .size⟩, ?_⟩
    funext field
    cases field <;> rfl
  exact ⟨record', ofNode_eq_ok.2 hdraft, halike .q, halike .p, halike .g, halike .y, halike .size⟩

end DsaPublic

namespace DsaPrivate

def latitude : Layout.Latitude Field where
  Same
    | .publicKey => DsaPublic.Rewrite
    | .size => fun _ _ => False
    | .x => SameNumber
  Default _ _ := False

/-- A single rewrite of the record of a DSA private key, or of the record inside it. -/
def Rewrite : Node → Node → Prop := layout.Rewrite latitude

theorem legible_layout : layout.Legible := by
  intro field
  cases field <;> decide

def AlikeField : (field : Field) → layout.Value field → layout.Value field → Prop
  | .publicKey => DsaPublic.Alike
  | .size => Eq
  | .x => AlikeNumber

theorem sound_latitude : latitude.Sound layout fun field => Option.Rel (AlikeField field) := by
  refine .of_rel (fun field _ => ?_) ?_ (fun _ _ => id)
  · cases field with
    | publicKey => exact ⟨rfl, rfl, rfl, rfl, rfl⟩
    | size | x => rfl
  · intro field node node' value hsame hread
    cases field with
    | publicKey => exact DsaPublic.ofNode_of_rewrite hsame hread
    | size => cases hsame
    | x => exact hsame.exists_alike hread

/-- Records of the same numbers. -/
structure Alike (record record' : DsaPrivate) : Prop where
  publicKey : record.publicKey.Alike record'.publicKey
  size : record.size = record'.size
  x : AlikeNumber record.x record'.x

theorem ofNode_of_rewrite {node node' : Node} (h : Rewrite node node') {record : DsaPrivate}
    (hread : ofNode node = .ok record) :
    ∃ record', ofNode node' = .ok record' ∧ record.Alike record' := by
  obtain ⟨value, hdraft, halike⟩ :=
    Layout.values_of_rewrite writable_layout.nodup legible_layout sound_latitude h
      (ofNode_eq_ok.1 hread)
  obtain ⟨record', rfl⟩ : ∃ record' : DsaPrivate, record'.fieldValue = value := by
    refine ⟨⟨value .publicKey, value .size, value .x⟩, ?_⟩
    funext field
    cases field <;> rfl
  exact ⟨record', ofNode_eq_ok.2 hdraft, halike .publicKey, halike .size, halike .x⟩

end DsaPrivate

/-! ## RSA keys -/

namespace RsaPublic

def latitude : Layout.Latitude Field where
  Same
    | .modulus | .publicExponent => SameNumber
    | .size => fun _ _ => False
  Default _ _ := False

/-- A single rewrite of the record of an RSA public key. -/
def Rewrite : Node → Node → Prop := layout.Rewrite latitude

theorem legible_layout : layout.Legible := by
  intro field
  cases field <;> decide

def AlikeField : (field : Field) → layout.Value field → layout.Value field → Prop
  | .modulus | .publicExponent => AlikeNumber
  | .size => Eq

theorem sound_latitude : latitude.Sound layout fun field => Option.Rel (AlikeField field) := by
  refine .of_rel (fun field _ => ?_) ?_ (fun _ _ => id)
  · cases field <;> rfl
  · intro field node node' value hsame hread
    cases field with
    | modulus | publicExponent => exact hsame.exists_alike hread
    | size => cases hsame

/-- Records of the same numbers. -/
structure Alike (record record' : RsaPublic) : Prop where
  modulus : AlikeNumber record.modulus record'.modulus
  publicExponent : AlikeNumber record.publicExponent record'.publicExponent
  size : record.size = record'.size

theorem ofNode_of_rewrite {node node' : Node} (h : Rewrite node node') {record : RsaPublic}
    (hread : ofNode node = .ok record) :
    ∃ record', ofNode node' = .ok record' ∧ record.Alike record' := by
  obtain ⟨value, hdraft, halike⟩ :=
    Layout.values_of_rewrite writable_layout.nodup legible_layout sound_latitude h
      (ofNode_eq_ok.1 hread)
  obtain ⟨record', rfl⟩ : ∃ record' : RsaPublic, record'.fieldValue = value := by
    refine ⟨⟨value .modulus, value .publicExponent, value .size⟩, ?_⟩
    funext field
    cases field <;> rfl
  exact ⟨record', ofNode_eq_ok.2 hdraft, halike .modulus, halike .publicExponent, halike .size⟩

end RsaPublic

namespace RsaPrivate

def latitude : Layout.Latitude Field where
  Same
    | .crtCoefficient | .primeExponentP | .primeExponentQ => SameNumber
    | .primeP | .primeQ | .privateExponent => SameNumber
    | .publicKey => RsaPublic.Rewrite
    | .size => fun _ _ => False
  Default _ _ := False

/-- A single rewrite of the record of an RSA private key, or of the record inside it. -/
def Rewrite : Node → Node → Prop := layout.Rewrite latitude

theorem legible_layout : layout.Legible := by
  intro field
  cases field <;> decide

def AlikeField : (field : Field) → layout.Value field → layout.Value field → Prop
  | .crtCoefficient | .primeExponentP | .primeExponentQ => AlikeNumber
  | .primeP | .primeQ | .privateExponent => AlikeNumber
  | .publicKey => RsaPublic.Alike
  | .size => Eq

theorem sound_latitude : latitude.Sound layout fun field => Option.Rel (AlikeField field) := by
  refine .of_rel (fun field _ => ?_) ?_ (fun _ _ => id)
  · cases field with
    | publicKey => exact ⟨rfl, rfl, rfl⟩
    | crtCoefficient | primeExponentP | primeExponentQ => rfl
    | primeP | primeQ | privateExponent | size => rfl
  · intro field node node' value hsame hread
    cases field with
    | crtCoefficient | primeExponentP | primeExponentQ => exact hsame.exists_alike hread
    | primeP | primeQ | privateExponent => exact hsame.exists_alike hread
    | publicKey => exact RsaPublic.ofNode_of_rewrite hsame hread
    | size => cases hsame

/-- Records of the same numbers. -/
structure Alike (record record' : RsaPrivate) : Prop where
  crtCoefficient : AlikeNumber record.crtCoefficient record'.crtCoefficient
  primeExponentP : AlikeNumber record.primeExponentP record'.primeExponentP
  primeExponentQ : AlikeNumber record.primeExponentQ record'.primeExponentQ
  primeP : AlikeNumber record.primeP record'.primeP
  primeQ : AlikeNumber record.primeQ record'.primeQ
  privateExponent : AlikeNumber record.privateExponent record'.privateExponent
  publicKey : record.publicKey.Alike record'.publicKey
  size : record.size = record'.size

theorem ofNode_of_rewrite {node node' : Node} (h : Rewrite node node') {record : RsaPrivate}
    (hread : ofNode node = .ok record) :
    ∃ record', ofNode node' = .ok record' ∧ record.Alike record' := by
  obtain ⟨value, hdraft, halike⟩ :=
    Layout.values_of_rewrite writable_layout.nodup legible_layout sound_latitude h
      (ofNode_eq_ok.1 hread)
  obtain ⟨record', rfl⟩ : ∃ record' : RsaPrivate, record'.fieldValue = value := by
    refine ⟨⟨value .crtCoefficient, value .primeExponentP, value .primeExponentQ, value .primeP,
      value .primeQ, value .privateExponent, value .publicKey, value .size⟩, ?_⟩
    funext field
    cases field <;> rfl
  exact ⟨record', ofNode_eq_ok.2 hdraft, halike .crtCoefficient, halike .primeExponentP,
    halike .primeExponentQ, halike .primeP, halike .primeQ, halike .privateExponent,
    halike .publicKey, halike .size⟩

end RsaPrivate

end Keyring.Record
