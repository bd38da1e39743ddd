import Mathlib.Data.List.Nodup
import Keyring.Error
import Keyring.Proofs.Json.Node
import Keyring.Proofs.Record.Items
import Keyring.Record.Schema

/-!
# Records by their layout, written and read

A record that is written with every field of its layout once is read as the draft of its values.
Members with other names are passed over, so a draft has a value for a field only if some member has
a name of the field.
-/

namespace Keyring.Record

open Json

/-! ## Single values -/

theorem decodeAll_chars (chars : List Char) :
    Piece.decodeAll none (chars.map .char) = .ok chars := by
  induction chars with
  | nil => rfl
  | cons c chars ih =>
    rw [List.map_cons, Piece.decodeAll, ih]
    rfl

theorem decode_ofString (text : String) : (Spelling.ofString text).decode = .ok text := by
  rw [Spelling.decode, Spelling.ofString, decodeAll_chars]
  exact congrArg Except.ok String.ofList_toList

theorem readText_textNode (text : String) : readText (textNode text) = .ok text := by
  rw [textNode, readText, decode_ofString]
  rfl

theorem readWord_wordNode {n : Nat} (h : n < 2 ^ 32) : readWord (wordNode n) = .ok n := by
  have hamount : (Numeral.ofNat n).amount? = some (.natural n) := amount?_ofNat (by omega)
  simp only [wordNode, readWord, hamount]
  rw [if_pos h]

/-- A whole text is read as the tree it was written from. -/
theorem readAll_render {α : Type} {node : Node} (h : node.Plain) (read : Node → Except Fault α) :
    readAll read node.render = read node := by
  simp only [readAll, h.ofText_render]
  cases read node with
  | ok value => rfl
  | error fault => rfl

theorem plain_objectNode {members : List (String × Node)}
    (h : ∀ member ∈ members, NoControl member.1 ∧ member.2.Plain) : (objectNode members).Plain := by
  refine .object ?_ ?_
  · rw [List.forall_mem_map]
    exact fun member hmember => ⟨member.1, (h member hmember).1, rfl⟩
  · rw [List.forall_mem_map]
    exact fun member hmember => (h member hmember).2

namespace Layout

variable {Field : Type} (layout : Layout Field)

/-! ## Reading what was written -/

/-- An object with every field of a layout, in order. -/
def write (node : Field → Node) : Node :=
  objectNode (layout.fields.map fun field => (layout.name field, node field))

/-- A layout whose fields are listed once each and found by their names. -/
structure Writable : Prop where
  nodup : layout.fields.Nodup
  mem_fields : ∀ field, field ∈ layout.fields
  field?_name : ∀ field, layout.field? (layout.name field) = some field
  noControl_name : ∀ field, NoControl (layout.name field)

variable {layout}

theorem plain_write (hlayout : layout.Writable) {node : Field → Node}
    (h : ∀ field, (node field).Plain) : (layout.write node).Plain := by
  apply plain_objectNode
  rw [List.forall_mem_map]
  exact fun field _ => ⟨hlayout.noControl_name field, h field⟩

/-- A value that is required is there. -/
theorem require_eq_ok {draft : Draft layout} {field : Field} {value : layout.Value field} :
    draft.require field = .ok value ↔ draft field = some value := by
  rw [Draft.require]
  cases draft field with
  | none =>
    constructor
    · intro h
      cases h
    · intro h
      cases h
  | some given => rw [Except.ok.injEq, Option.some.injEq]

theorem fieldOf?_ofString (name : String) : layout.fieldOf? (.ofString name) = layout.field? name :=
  fieldOf?_of_decode (decode_ofString name)

variable [DecidableEq Field]

theorem nodesOf_map_ofString_eq_nil {field : Field} {members : List (String × Node)} :
    layout.nodesOf field (members.map fun member => (.ofString member.1, member.2)) = [] ↔
      ∀ member ∈ members, layout.field? member.1 ≠ some field := by
  simp only [nodesOf_eq_nil, List.forall_mem_map, fieldOf?_ofString]

/-- Written members give every field its own node. -/
theorem nodesOf_written (hlayout : layout.Writable) (node : Field → Node) (field : Field) :
    layout.nodesOf field
        (layout.fields.map fun other => (.ofString (layout.name other), node other)) =
      [node field] := by
  rw [nodesOf, List.filter_map, List.map_map]
  simp only [Function.comp_def, fieldOf?_ofString, hlayout.field?_name, Option.some.injEq]
  rw [List.filter_eq, List.count_eq_one_of_mem hlayout.nodup (hlayout.mem_fields field)]
  rfl

/-- A written object is read as the draft of its values, also with members of other names behind its
own. -/
theorem draft_write_append (hlayout : layout.Writable) {node : Field → Node}
    {value : (field : Field) → layout.Value field}
    (hread : ∀ field, layout.read field (node field) = .ok (value field))
    {others : List (String × Node)}
    (hothers : ∀ member ∈ others, layout.field? member.1 = none ∧ member.2.skipStop? = none) :
    layout.draft
        (objectNode (layout.fields.map (fun field => (layout.name field, node field)) ++ others)) =
      .ok fun field => some (value field) := by
  have hmembers : objectNode
      (layout.fields.map (fun field => (layout.name field, node field)) ++ others) =
        .object (layout.fields.map (fun field => (.ofString (layout.name field), node field)) ++
          others.map fun member => (.ofString member.1, member.2)) .closed := by
    rw [objectNode, List.map_append, List.map_map]
    rfl
  rw [hmembers]
  refine draft_object_eq_ok.2 ⟨?_, fun field => ?_⟩
  · rw [List.forall_mem_append, List.forall_mem_map, List.forall_mem_map]
    refine ⟨fun field _ => ?_, fun member hmember => ?_⟩
    · have hname : layout.fieldOf? (.ofString (layout.name field)) = some field := by
        rw [fieldOf?_ofString, hlayout.field?_name]
      exact readable_of_fieldOf? hname (node field)
    · exact ⟨⟨member.1, decode_ofString member.1⟩, fun _ => (hothers member hmember).2⟩
  · have hrest : layout.nodesOf field
        (others.map fun member => (.ofString member.1, member.2)) = [] := by
      rw [nodesOf_map_ofString_eq_nil]
      intro member hmember
      rw [(hothers member hmember).1]
      exact (Option.some_ne_none field).symm
    rw [nodesOf_append, nodesOf_written hlayout, hrest]
    exact .value (hread field)

theorem draft_write (hlayout : layout.Writable) {node : Field → Node}
    {value : (field : Field) → layout.Value field}
    (hread : ∀ field, layout.read field (node field) = .ok (value field)) :
    layout.draft (layout.write node) = .ok fun field => some (value field) := by
  have hnone : ∀ member ∈ ([] : List (String × Node)),
      layout.field? member.1 = none ∧ member.2.skipStop? = none := nofun
  have h := draft_write_append hlayout hread hnone
  rwa [List.append_nil] at h

/-! ## Fields that are not there -/

end Layout

end Keyring.Record
