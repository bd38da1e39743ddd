import Keyring.Proofs.Record.Layout

/-!
# Records are read as they were written

For each family `fieldNode` and `fieldValue` give what a field is written as and what it is read as,
and `ofNode_eq_ok` says which values are read as a record. Main statements, from it: a record is
read back from the object it is written as, and an object is only read as a record if it has members
for the fields that are needed. Declared sizes must be numbers of 32 bits; texts may be any.
-/

namespace Keyring.Record

open Json

/-! ## MAC keys -/

namespace Mac

theorem writable_layout : layout.Writable where
  nodup := by decide
  mem_fields field := by cases field <;> decide
  field?_name field := by cases field <;> rfl
  noControl_name field := by cases field <;> decide

def fieldNode (record : Mac) : Field → Node
  | .key => textNode record.key
  | .size => wordNode record.size

def fieldValue (record : Mac) : (field : Field) → layout.Value field
  | .key => record.key
  | .size => record.size

/-- What a value is read as: the record of the values of its draft. -/
theorem ofNode_eq_ok {node : Node} {record : Mac} :
    ofNode node = .ok record ↔
      layout.draft node = .ok fun field => some (record.fieldValue field) := by
  constructor
  · intro h
    obtain ⟨draft, hdraft, h⟩ := Result.bind_eq_ok.1 h
    obtain ⟨key, hkey, h⟩ := Result.bind_eq_ok.1 h
    obtain ⟨size, hsize, h⟩ := Result.bind_eq_ok.1 h
    cases h
    rw [hdraft]
    refine congrArg Except.ok (funext fun field => ?_)
    cases field with
    | key => exact Layout.require_eq_ok.1 hkey
    | size => exact Layout.require_eq_ok.1 hsize
  · intro h
    rw [ofNode, h]
    rfl

theorem plain_toNode {record : Mac} (h : ∀ field, (record.fieldNode field).Plain) :
    record.toNode.Plain :=
  Layout.plain_write writable_layout h

theorem read_fieldNode {record : Mac} (h : record.size < 2 ^ 32) (field : Field) :
    layout.read field (record.fieldNode field) = .ok (record.fieldValue field) := by
  cases field with
  | key => exact readText_textNode _
  | size => exact readWord_wordNode h

theorem ofNode_toNode {record : Mac} (h : record.size < 2 ^ 32) :
    ofNode record.toNode = .ok record :=
  ofNode_eq_ok.2 (Layout.draft_write writable_layout (read_fieldNode h))

end Mac

/-! ## Symmetric keys -/

namespace Symmetric

theorem writable_layout : layout.Writable where
  nodup := by decide
  mem_fields field := by cases field <;> decide
  field?_name field := by cases field <;> rfl
  noControl_name field := by cases field <;> decide

def fieldNode (record : Symmetric) : Field → Node
  | .key => textNode record.key
  | .size => wordNode record.size
  | .macKey => record.macKey.toNode
  | .mode => textNode record.mode

def fieldValue (record : Symmetric) : (field : Field) → layout.Value field
  | .key => record.key
  | .size => record.size
  | .macKey => record.macKey
  | .mode => record.mode

/-- What a value is read as: the record of the values of its draft, where no mode is the only mode
there is. -/
theorem ofNode_eq_ok {node : Node} {record : Symmetric} :
    ofNode node = .ok record ↔
      ∃ draft, layout.draft node = .ok draft ∧
        (∀ field, layout.optional field = false → draft field = some (record.fieldValue field)) ∧
          (draft .mode).getD cbcMode = record.mode := by
  constructor
  · intro h
    obtain ⟨draft, hdraft, h⟩ := Result.bind_eq_ok.1 h
    obtain ⟨key, hkey, h⟩ := Result.bind_eq_ok.1 h
    obtain ⟨size, hsize, h⟩ := Result.bind_eq_ok.1 h
    obtain ⟨macKey, hmacKey, h⟩ := Result.bind_eq_ok.1 h
    cases h
    refine ⟨draft, hdraft, fun field hrequired => ?_, rfl⟩
    cases field with
    | key => exact Layout.require_eq_ok.1 hkey
    | size => exact Layout.require_eq_ok.1 hsize
    | macKey => exact Layout.require_eq_ok.1 hmacKey
    | mode => cases hrequired
  · rintro ⟨draft, hdraft, hrequired, hmode⟩
    obtain ⟨key, size, macKey, mode⟩ := record
    have hkey := Layout.require_eq_ok.2 (hrequired .key rfl)
    have hsize := Layout.require_eq_ok.2 (hrequired .size rfl)
    have hmacKey := Layout.require_eq_ok.2 (hrequired .macKey rfl)
    simp only [ofNode, hdraft, hkey, hsize, hmacKey, bind, Except.bind, pure, Except.pure]
    cases hmode
    rfl

theorem plain_toNode {record : Symmetric} (h : ∀ field, (record.fieldNode field).Plain) :
    record.toNode.Plain :=
  Layout.plain_write writable_layout h

theorem read_fieldNode {record : Symmetric} (h : record.size < 2 ^ 32)
    (hmac : record.macKey.size < 2 ^ 32) (field : Field) :
    layout.read field (record.fieldNode field) = .ok (record.fieldValue field) := by
  cases field with
  | key | mode => exact readText_textNode _
  | size => exact readWord_wordNode h
  | macKey => exact Mac.ofNode_toNode hmac

theorem ofNode_toNode {record : Symmetric} (h : record.size < 2 ^ 32)
    (hmac : record.macKey.size < 2 ^ 32) : ofNode record.toNode = .ok record := by
  have hdraft := Layout.draft_write writable_layout (read_fieldNode h hmac)
  exact ofNode_eq_ok.2 ⟨_, hdraft, fun _ _ => rfl, rfl⟩

end Symmetric

/-! ## DSA keys -/

namespace DsaPublic

theorem writable_layout : layout.Writable where
  nodup := by decide
  mem_fields field := by cases field <;> decide
  field?_name field := by cases field <;> rfl
  noControl_name field := by cases field <;> decide

def fieldNode (record : DsaPublic) : Field → Node
  | .q => textNode record.q
  | .p => textNode record.p
  | .g => textNode record.g
  | .y => textNode record.y
  | .size => wordNode record.size

def fieldValue (record : DsaPublic) : (field : Field) → layout.Value field
  | .q => record.q
  | .p => record.p
  | .g => record.g
  | .y => record.y
  | .size => record.size

/-- What a value is read as: the record of the values of its draft. -/
theorem ofNode_eq_ok {node : Node} {record : DsaPublic} :
    ofNode node = .ok record ↔
      layout.draft node = .ok fun field => some (record.fieldValue field) := by
  constructor
  · intro h
    obtain ⟨draft, hdraft, h⟩ := Result.bind_eq_ok.1 h
    obtain ⟨q, hq, h⟩ := Result.bind_eq_ok.1 h
    obtain ⟨p, hp, h⟩ := Result.bind_eq_ok.1 h
    obtain ⟨g, hg, h⟩ := Result.bind_eq_ok.1 h
    obtain ⟨y, hy, h⟩ := Result.bind_eq_ok.1 h
    obtain ⟨size, hsize, h⟩ := Result.bind_eq_ok.1 h
    cases h
    rw [hdraft]
    refine congrArg Except.ok (funext fun field => ?_)
    cases field with
    | q => exact Layout.require_eq_ok.1 hq
    | p => exact Layout.require_eq_ok.1 hp
    | g => exact Layout.require_eq_ok.1 hg
    | y => exact Layout.require_eq_ok.1 hy
    | size => exact Layout.require_eq_ok.1 hsize
  · intro h
    rw [ofNode, h]
    rfl

theorem plain_toNode {record : DsaPublic} (h : ∀ field, (record.fieldNode field).Plain) :
    record.toNode.Plain :=
  Layout.plain_write writable_layout h

theorem read_fieldNode {record : DsaPublic} (h : record.size < 2 ^ 32) (field : Field) :
    layout.read field (record.fieldNode field) = .ok (record.fieldValue field) := by
  cases field with
  | q | p | g | y => exact readText_textNode _
  | size => exact readWord_wordNode h

theorem ofNode_toNode {record : DsaPublic} (h : record.size < 2 ^ 32) :
    ofNode record.toNode = .ok record :=
  ofNode_eq_ok.2 (Layout.draft_write writable_layout (read_fieldNode h))

end DsaPublic

namespace DsaPrivate

theorem writable_layout : layout.Writable where
  nodup := by decide
  mem_fields field := by cases field <;> decide
  field?_name field := by cases field <;> rfl
  noControl_name field := by cases field <;> decide

def fieldNode (record : DsaPrivate) : Field → Node
  | .publicKey => record.publicKey.toNode
  | .size => wordNode record.size
  | .x => textNode record.x

def fieldValue (record : DsaPrivate) : (field : Field) → layout.Value field
  | .publicKey => record.publicKey
  | .size => record.size
  | .x => record.x

/-- What a value is read as: the record of the values of its draft. -/
theorem ofNode_eq_ok {node : Node} {record : DsaPrivate} :
    ofNode node = .ok record ↔
      layout.draft node = .ok fun field => some (record.fieldValue field) := by
  constructor
  · intro h
    obtain ⟨draft, hdraft, h⟩ := Result.bind_eq_ok.1 h
    obtain ⟨publicKey, hpublicKey, h⟩ := Result.bind_eq_ok.1 h
    obtain ⟨size, hsize, h⟩ := Result.bind_eq_ok.1 h
    obtain ⟨x, hx, h⟩ := Result.bind_eq_ok.1 h
    cases h
    rw [hdraft]
    refine congrArg Except.ok (funext fun field => ?_)
    cases field with
    | publicKey => exact Layout.require_eq_ok.1 hpublicKey
    | size => exact Layout.require_eq_ok.1 hsize
    | x => exact Layout.require_eq_ok.1 hx
  · intro h
    rw [ofNode, h]
    rfl

theorem plain_toNode {record : DsaPrivate} (h : ∀ field, (record.fieldNode field).Plain) :
    record.toNode.Plain :=
  Layout.plain_write writable_layout h

theorem read_fieldNode {record : DsaPrivate} (h : record.size < 2 ^ 32)
    (hpublic : record.publicKey.size < 2 ^ 32) (field : Field) :
    layout.read field (record.fieldNode field) = .ok (record.fieldValue field) := by
  cases field with
  | publicKey => exact DsaPublic.ofNode_toNode hpublic
  | size => exact readWord_wordNode h
  | x => exact readText_textNode _

theorem ofNode_toNode {record : DsaPrivate} (h : record.size < 2 ^ 32)
    (hpublic : record.publicKey.size < 2 ^ 32) : ofNode record.toNode = .ok record :=
  ofNode_eq_ok.2 (Layout.draft_write writable_layout (read_fieldNode h hpublic))

end DsaPrivate

/-! ## RSA keys -/

namespace RsaPublic

theorem writable_layout : layout.Writable where
  nodup := by decide
  mem_fields field := by cases field <;> decide
  field?_name field := by cases field <;> rfl
  noControl_name field := by cases field <;> decide

def fieldNode (record : RsaPublic) : Field → Node
  | .modulus => textNode record.modulus
  | .publicExponent => textNode record.publicExponent
  | .size => wordNode record.size

def fieldValue (record : RsaPublic) : (field : Field) → layout.Value field
  | .modulus => record.modulus
  | .publicExponent => record.publicExponent
  | .size => record.size

/-- What a value is read as: the record of the values of its draft. -/
theorem ofNode_eq_ok {node : Node} {record : RsaPublic} :
    ofNode node = .ok record ↔
      layout.draft node = .ok fun field => some (record.fieldValue field) := by
  constructor
  · intro h
    obtain ⟨draft, hdraft, h⟩ := Result.bind_eq_ok.1 h
    obtain ⟨modulus, hmodulus, h⟩ := Result.bind_eq_ok.1 h
    obtain ⟨publicExponent, hpublicExponent, h⟩ := Result.bind_eq_ok.1 h
    obtain ⟨size, hsize, h⟩ := Result.bind_eq_ok.1 h
    cases h
    rw [hdraft]
    refine congrArg Except.ok (funext fun field => ?_)
    cases field with
    | modulus => exact Layout.require_eq_ok.1 hmodulus
    | publicExponent => exact Layout.require_eq_ok.1 hpublicExponent
    | size => exact Layout.require_eq_ok.1 hsize
  · intro h
    rw [ofNode, h]
    rfl

theorem plain_toNode {record : RsaPublic} (h : ∀ field, (record.fieldNode field).Plain) :
    record.toNode.Plain :=
  Layout.plain_write writable_layout h

theorem read_fieldNode {record : RsaPublic} (h : record.size < 2 ^ 32) (field : Field) :
    layout.read field (record.fieldNode field) = .ok (record.fieldValue field) := by
  cases field with
  | modulus | publicExponent => exact readText_textNode _
  | size => exact readWord_wordNode h

theorem ofNode_toNode {record : RsaPublic} (h : record.size < 2 ^ 32) :
    ofNode record.toNode = .ok record :=
  ofNode_eq_ok.2 (Layout.draft_write writable_layout (read_fieldNode h))

end RsaPublic

namespace RsaPrivate

theorem writable_layout : layout.Writable where
  nodup := by decide
  mem_fields field := by cases field <;> decide
  field?_name field := by cases field <;> rfl
  noControl_name field := by cases field <;> decide

def fieldNode (record : RsaPrivate) : Field → Node
  | .crtCoefficient => textNode record.crtCoefficient
  | .primeExponentP => textNode record.primeExponentP
  | .primeExponentQ => textNode record.primeExponentQ
  | .primeP => textNode record.primeP
  | .primeQ => textNode record.primeQ
  | .privateExponent => textNode record.privateExponent
  | .publicKey => record.publicKey.toNode
  | .size => wordNode record.size

def fieldValue (record : RsaPrivate) : (field : Field) → layout.Value field
  | .crtCoefficient => record.crtCoefficient
  | .primeExponentP => record.primeExponentP
  | .primeExponentQ => record.primeExponentQ
  | .primeP => record.primeP
  | .primeQ => record.primeQ
  | .privateExponent => record.privateExponent
  | .publicKey => record.publicKey
  | .size => record.size

/-- What a value is read as: the record of the values of its draft. -/
theorem ofNode_eq_ok {node : Node} {record : RsaPrivate} :
    ofNode node = .ok record ↔
      layout.draft node = .ok fun field => some (record.fieldValue field) := by
  constructor
  · intro h
    obtain ⟨draft, hdraft, h⟩ := Result.bind_eq_ok.1 h
    obtain ⟨crtCoefficient, hcrtCoefficient, h⟩ := Result.bind_eq_ok.1 h
    obtain ⟨primeExponentP, hprimeExponentP, h⟩ := Result.bind_eq_ok.1 h
    obtain ⟨primeExponentQ, hprimeExponentQ, h⟩ := Result.bind_eq_ok.1 h
    obtain ⟨primeP, hprimeP, h⟩ := Result.bind_eq_ok.1 h
    obtain ⟨primeQ, hprimeQ, h⟩ := Result.bind_eq_ok.1 h
    obtain ⟨privateExponent, hprivateExponent, h⟩ := Result.bind_eq_ok.1 h
    obtain ⟨publicKey, hpublicKey, h⟩ := Result.bind_eq_ok.1 h
    obtain ⟨size, hsize, h⟩ := Result.bind_eq_ok.1 h
    cases h
    rw [hdraft]
    refine congrArg Except.ok (funext fun field => ?_)
    cases field with
    | crtCoefficient => exact Layout.require_eq_ok.1 hcrtCoefficient
    | primeExponentP => exact Layout.require_eq_ok.1 hprimeExponentP
    | primeExponentQ => exact Layout.require_eq_ok.1 hprimeExponentQ
    | primeP => exact Layout.require_eq_ok.1 hprimeP
    | primeQ => exact Layout.require_eq_ok.1 hprimeQ
    | privateExponent => exact Layout.require_eq_ok.1 hprivateExponent
    | publicKey => exact Layout.require_eq_ok.1 hpublicKey
    | size => exact Layout.require_eq_ok.1 hsize
  · intro h
    rw [ofNode, h]
    rfl

theorem plain_toNode {record : RsaPrivate} (h : ∀ field, (record.fieldNode field).Plain) :
    record.toNode.Plain :=
  Layout.plain_write writable_layout h

theorem read_fieldNode {record : RsaPrivate} (h : record.size < 2 ^ 32)
    (hpublic : record.publicKey.size < 2 ^ 32) (field : Field) :
    layout.read field (record.fieldNode field) = .ok (record.fieldValue field) := by
  cases field with
  | crtCoefficient | primeExponentP | primeExponentQ
  | primeP | primeQ | privateExponent => exact readText_textNode _
  | publicKey => exact RsaPublic.ofNode_toNode hpublic
  | size => exact readWord_wordNode h

theorem ofNode_toNode {record : RsaPrivate} (h : record.size < 2 ^ 32)
    (hpublic : record.publicKey.size < 2 ^ 32) : ofNode record.toNode = .ok record :=
  ofNode_eq_ok.2 (Layout.draft_write writable_layout (read_fieldNode h hpublic))

end RsaPrivate

end Keyring.Record
