import Keyring.Proofs.Record.Change
import Keyring.Proofs.Record.Variants

/-!
# Declared sizes changed

A record declares a size, and a private record or a symmetric one has a record inside it that
declares one too. Main statements, once for each family: where one of these sizes is replaced by
another number of 32 bits, the value is read as the record with that size and the same other fields.
-/

namespace Keyring.Record

open Json

/-- Two different numbers of 32 bits. -/
def OtherWord (node node' : Node) : Prop :=
  ∃ n n', readWord node = .ok n ∧ readWord node' = .ok n' ∧ n ≠ n'

theorem OtherWord.exists_ne {node node' : Node} (h : OtherWord node node') {n : Nat}
    (hread : readWord node = .ok n) : ∃ n', readWord node' = .ok n' ∧ n ≠ n' := by
  obtain ⟨given, n', hgiven, hn', hne⟩ := h
  obtain rfl := Except.ok.inj (hread.symm.trans hgiven)
  exact ⟨n', hn', hne⟩

theorem otherWord_wordNode {n n' : Nat} (hn : n < 2 ^ 32) (hn' : n' < 2 ^ 32) (hne : n ≠ n') :
    OtherWord (wordNode n) (wordNode n') :=
  ⟨n, n', readWord_wordNode hn, readWord_wordNode hn', hne⟩

/-! ## MAC keys -/

namespace Mac

/-- The size of a record of a MAC key changed. -/
def Resize : Node → Node → Prop := layout.Change .size OtherWord

inductive Resized (record : Mac) : Mac → Prop
  | size {size : Nat} (h : record.size ≠ size) : Resized record { record with size }

theorem ofNode_of_resize {node node' : Node} (h : Resize node node') {record : Mac}
    (hread : ofNode node = .ok record) :
    ∃ record', ofNode node' = .ok record' ∧ record.Resized record' := by
  obtain ⟨size, hne, hdraft⟩ := Layout.values_of_change Ne writable_layout legible_layout
    OtherWord.exists_ne h (ofNode_eq_ok.1 hread)
  refine ⟨{ record with size }, ofNode_eq_ok.2 ?_, .size hne⟩
  rw [hdraft]
  refine congrArg Except.ok (funext fun field => ?_)
  cases field with
  | key | size => rfl

/-- A record is resized by writing another size. -/
theorem resize_toNode {record : Mac} {size : Nat} (h : record.size < 2 ^ 32) (hlt : size < 2 ^ 32)
    (hne : record.size ≠ size) : Resize record.toNode { record with size }.toNode := by
  let record' : Mac := { record with size }
  refine Layout.change_write writable_layout record.fieldNode record'.fieldNode
    (fun field hfield => ?_) (otherWord_wordNode h hlt hne)
  cases field with
  | key => rfl
  | size => exact absurd rfl hfield

end Mac

/-! ## Symmetric keys -/

namespace Symmetric

/-- One of the sizes of a record of a symmetric key changed. -/
def Resize (node node' : Node) : Prop :=
  layout.Change .size OtherWord node node' ∨ layout.Change .macKey Mac.Resize node node'

inductive Resized (record : Symmetric) : Symmetric → Prop
  | size {size : Nat} (h : record.size ≠ size) : Resized record { record with size }
  | macKey {macKey : Mac} (h : record.macKey.Resized macKey) : Resized record { record with macKey }

theorem ofNode_of_resize {node node' : Node} (h : Resize node node') {record : Symmetric}
    (hread : ofNode node = .ok record) :
    ∃ record', ofNode node' = .ok record' ∧ record.Resized record' := by
  -- the draft may lack the mode, so it is the draft that is followed and not its values
  obtain ⟨draft, hdraft, hrequired, hmode⟩ := ofNode_eq_ok.1 hread
  rcases h with h | h
  · obtain ⟨given, size, hgiven, hne, hdraft'⟩ :=
      Layout.draft_of_change Ne writable_layout legible_layout OtherWord.exists_ne h hdraft
    obtain rfl := Option.some.inj ((hrequired .size rfl).symm.trans hgiven)
    refine ⟨{ record with size }, ofNode_eq_ok.2 ⟨_, hdraft', fun field hfield => ?_, hmode⟩,
      .size hne⟩
    cases field with
    | key => exact hrequired .key rfl
    | size => rfl
    | macKey => exact hrequired .macKey rfl
    | mode => cases hfield
  · obtain ⟨given, macKey, hgiven, hresized, hdraft'⟩ :=
      Layout.draft_of_change Mac.Resized writable_layout legible_layout Mac.ofNode_of_resize h
        hdraft
    obtain rfl := Option.some.inj ((hrequired .macKey rfl).symm.trans hgiven)
    refine ⟨{ record with macKey }, ofNode_eq_ok.2 ⟨_, hdraft', fun field hfield => ?_, hmode⟩,
      .macKey hresized⟩
    cases field with
    | key => exact hrequired .key rfl
    | size => exact hrequired .size rfl
    | macKey => rfl
    | mode => cases hfield

/-- A record is resized by writing another size for the MAC key in it. -/
theorem resize_toNode {record : Symmetric} {macKey : Mac}
    (h : Mac.Resize record.macKey.toNode macKey.toNode) :
    Resize record.toNode { record with macKey }.toNode := by
  let record' : Symmetric := { record with macKey }
  refine .inr (Layout.change_write writable_layout record.fieldNode record'.fieldNode
    (fun field hfield => ?_) h)
  cases field with
  | key | size | mode => rfl
  | macKey => exact absurd rfl hfield

end Symmetric

/-! ## DSA keys -/

namespace DsaPublic

/-- The size of a record of a DSA public key changed. -/
def Resize : Node → Node → Prop := layout.Change .size OtherWord

inductive Resized (record : DsaPublic) : DsaPublic → Prop
  | size {size : Nat} (h : record.size ≠ size) : Resized record { record with size }

theorem ofNode_of_resize {node node' : Node} (h : Resize node node') {record : DsaPublic}
    (hread : ofNode node = .ok record) :
    ∃ record', ofNode node' = .ok record' ∧ record.Resized record' := by
  obtain ⟨size, hne, hdraft⟩ := Layout.values_of_change Ne writable_layout legible_layout
    OtherWord.exists_ne h (ofNode_eq_ok.1 hread)
  refine ⟨{ record with size }, ofNode_eq_ok.2 ?_, .size hne⟩
  rw [hdraft]
  refine congrArg Except.ok (funext fun field => ?_)
  cases field with
  | q | p | g | y | size => rfl

end DsaPublic

namespace DsaPrivate

/-- One of the sizes of a record of a DSA private key changed. -/
def Resize (node node' : Node) : Prop :=
  layout.Change .size OtherWord node node' ∨ layout.Change .publicKey DsaPublic.Resize node node'

inductive Resized (record : DsaPrivate) : DsaPrivate → Prop
  | size {size : Nat} (h : record.size ≠ size) : Resized record { record with size }
  | publicKey {publicKey : DsaPublic} (h : record.publicKey.Resized publicKey) :
    Resized record { record with publicKey }

theorem ofNode_of_resize {node node' : Node} (h : Resize node node') {record : DsaPrivate}
    (hread : ofNode node = .ok record) :
    ∃ record', ofNode node' = .ok record' ∧ record.Resized record' := by
  rcases h with h | h
  · obtain ⟨size, hne, hdraft⟩ := Layout.values_of_change Ne writable_layout legible_layout
      OtherWord.exists_ne h (ofNode_eq_ok.1 hread)
    refine ⟨{ record with size }, ofNode_eq_ok.2 ?_, .size hne⟩
    rw [hdraft]
    refine congrArg Except.ok (funext fun field => ?_)
    cases field with
    | publicKey | size | x => rfl
  · obtain ⟨publicKey, hresized, hdraft⟩ := Layout.values_of_change DsaPublic.Resized
      writable_layout legible_layout DsaPublic.ofNode_of_resize h (ofNode_eq_ok.1 hread)
    refine ⟨{ record with publicKey }, ofNode_eq_ok.2 ?_, .publicKey hresized⟩
    rw [hdraft]
    refine congrArg Except.ok (funext fun field => ?_)
    cases field with
    | publicKey | size | x => rfl

end DsaPrivate

/-! ## RSA keys -/

namespace RsaPublic

/-- The size of a record of an RSA public key changed. -/
def Resize : Node → Node → Prop := layout.Change .size OtherWord

inductive Resized (record : RsaPublic) : RsaPublic → Prop
  | size {size : Nat} (h : record.size ≠ size) : Resized record { record with size }

theorem ofNode_of_resize {node node' : Node} (h : Resize node node') {record : RsaPublic}
    (hread : ofNode node = .ok record) :
    ∃ record', ofNode node' = .ok record' ∧ record.Resized record' := by
  obtain ⟨size, hne, hdraft⟩ := Layout.values_of_change Ne writable_layout legible_layout
    OtherWord.exists_ne h (ofNode_eq_ok.1 hread)
  refine ⟨{ record with size }, ofNode_eq_ok.2 ?_, .size hne⟩
  rw [hdraft]
  refine congrArg Except.ok (funext fun field => ?_)
  cases field with
  | modulus | publicExponent | size => rfl

end RsaPublic

namespace RsaPrivate

/-- One of the sizes of a record of an RSA private key changed. -/
def Resize (node node' : Node) : Prop :=
  layout.Change .size OtherWord node node' ∨ layout.Change .publicKey RsaPublic.Resize node node'

inductive Resized (record : RsaPrivate) : RsaPrivate → Prop
  | size {size : Nat} (h : record.size ≠ size) : Resized record { record with size }
  | publicKey {publicKey : RsaPublic} (h : record.publicKey.Resized publicKey) :
    Resized record { record with publicKey }

theorem ofNode_of_resize {node node' : Node} (h : Resize node node') {record : RsaPrivate}
    (hread : ofNode node = .ok record) :
    ∃ record', ofNode node' = .ok record' ∧ record.Resized record' := by
  rcases h with h | h
  · obtain ⟨size, hne, hdraft⟩ := Layout.values_of_change Ne writable_layout legible_layout
      OtherWord.exists_ne h (ofNode_eq_ok.1 hread)
    refine ⟨{ record with size }, ofNode_eq_ok.2 ?_, .size hne⟩
    rw [hdraft]
    refine congrArg Except.ok (funext fun field => ?_)
    cases field with
    | crtCoefficient | primeExponentP | primeExponentQ | primeP | primeQ => rfl
    | privateExponent | publicKey | size => rfl
  · obtain ⟨publicKey, hresized, hdraft⟩ := Layout.values_of_change RsaPublic.Resized
      writable_layout legible_layout RsaPublic.ofNode_of_resize h (ofNode_eq_ok.1 hread)
    refine ⟨{ record with publicKey }, ofNode_eq_ok.2 ?_, .publicKey hresized⟩
    rw [hdraft]
    refine congrArg Except.ok (funext fun field => ?_)
    cases field with
    | crtCoefficient | primeExponentP | primeExponentQ | primeP | primeQ => rfl
    | privateExponent | publicKey | size => rfl

end RsaPrivate

end Keyring.Record
