import Keyring.Json.Amount
import Keyring.Json.Node
import Keyring.Record.Fault

/-!
# Reading records by their layout

A layout lists the fields of a record: their names, older names that are still read, and how the
value of each is read. A record is an object with these members in any order, other members being
passed over, or an array of the values in the order of the layout.

What has been read so far is a draft, a partial assignment of values to fields. Members are taken in
the order of the text, and the first fault wins: an unreadable key, a field given twice, an
unreadable value, and only at the end a field that is missing.
-/

namespace Keyring.Record

open Json

/-! ## Single values -/

/-- Reading fails where the text stops making sense. -/
def ofStop {α : Type} : Except Stop α → Except Fault α
  | .ok value => .ok value
  | .error stop => .error (.stopped stop)

/-- What a node is, for a message; a number without a value or an unreadable string stops. -/
def found (node : Node) : Except Stop Found :=
  match node with
  | .null => .ok .null
  | .bool value => .ok (.boolean value)
  | .number value =>
    match value.amount? with
    | some (.natural n) => .ok (.integer n)
    | some (.negative n) => .ok (.integer (-n))
    | some (.float negative magnitude) => .ok (.float negative magnitude)
    | none => .error .malformed
  | .text value => .text <$> value.decode
  | .array _ _ => .ok .sequence
  | .object _ _ => .ok .map
  | .broken read _ => .error read

/-- The fault of a node that is not what was expected. -/
def mismatch (node : Node) (expected : String) : Fault :=
  match found node with
  | .ok found => .unfit (.wrongType found expected)
  | .error stop => .stopped stop

def readText (node : Node) : Except Fault String :=
  match node with
  | .text value => ofStop value.decode
  | node => .error (mismatch node "a string")

/-- How a 32-bit number is called in messages. -/
def wordName : String := "u32"

/-- Reads a natural number below `2 ^ 32`. -/
def readWord (node : Node) : Except Fault Nat :=
  match node with
  | .number value =>
    match value.amount? with
    | some (.natural n) =>
      if n < 2 ^ 32 then .ok n else .error (.unfit (.outOfRange n wordName))
    | some (.negative n) => .error (.unfit (.outOfRange (-n) wordName))
    | _ => .error (mismatch node wordName)
  | node => .error (mismatch node wordName)

/-! ## Layouts -/

/-- The fields of a record, and how each is read. -/
structure Layout (Field : Type) where
  title : String
  fields : List Field
  name : Field → String
  /-- Older names of a field that are still read. -/
  olderNames : Field → List String
  optional : Field → Bool
  Value : Field → Type
  read : (field : Field) → Node → Except Fault (Value field)

/-- A partial assignment of values to the fields of a layout. -/
def Draft {Field : Type} (layout : Layout Field) : Type :=
  (field : Field) → Option (layout.Value field)

namespace Draft

variable {Field : Type} {layout : Layout Field}

def empty : Draft layout := fun _ => none

def set [DecidableEq Field] (draft : Draft layout) (field : Field) (value : layout.Value field) :
    Draft layout :=
  fun other => if h : other = field then some (h ▸ value) else draft other

@[simp] theorem set_self [DecidableEq Field] (draft : Draft layout) (field : Field)
    (value : layout.Value field) : draft.set field value field = some value := by
  simp [set]

@[simp] theorem set_of_ne [DecidableEq Field] (draft : Draft layout) {field other : Field}
    (value : layout.Value field) (h : other ≠ field) :
    draft.set field value other = draft other := by
  simp [set, h]

/-- The value of a field that must be there. -/
def require (draft : Draft layout) (field : Field) : Except Fault (layout.Value field) :=
  match draft field with
  | some value => .ok value
  | none => .error (.unfit (.missingField (layout.name field)))

end Draft

namespace Layout

variable {Field : Type} [DecidableEq Field] (layout : Layout Field)

/-- The field that a member name belongs to. -/
def field? (name : String) : Option Field :=
  layout.fields.find? fun field =>
    layout.name field == name || (layout.olderNames field).contains name

/-- What a record is called where it was expected. -/
def expectation : String := "struct " ++ layout.title

/-- What a list of fields is called where it was expected. -/
def listExpectation : String :=
  layout.expectation ++ " with " ++ toString layout.fields.length ++ " elements"

/-- Takes members into a draft, in the order of the text. -/
def takeMembers (draft : Draft layout) : List (Spelling × Node) → Except Fault (Draft layout)
  | [] => .ok draft
  | (key, node) :: rest => do
    let name ← ofStop key.decode
    match layout.field? name with
    | none =>
      match node.skipStop? with
      | some stop => .error (.stopped stop)
      | none => takeMembers draft rest
    | some field =>
      if (draft field).isSome then .error (.unfit (.duplicateField (layout.name field)))
      else
        let value ← layout.read field node
        takeMembers (draft.set field value) rest

/-- Takes the items of an array into a draft, one for each field; `count` items came before. -/
def takeItems (ending : Ending) (count : Nat) (draft : Draft layout) :
    List Field → List Node → Except Fault (Draft layout)
  | [], [] =>
    match ending with
    | .closed => .ok draft
    | .broken stop => .error (.stopped stop)
  | [], _ :: _ => .error (.stopped .malformed)
  | field :: fields, [] =>
    match ending with
    | .closed =>
      if layout.optional field then takeItems ending (count + 1) draft fields []
      else .error (.unfit (.tooFew count layout.listExpectation))
    | .broken stop => .error (.stopped stop)
  | field :: fields, item :: items => do
    let value ← layout.read field item
    takeItems ending (count + 1) (draft.set field value) fields items

/-- The draft that a node gives. -/
def draft (node : Node) : Except Fault (Draft layout) :=
  match node with
  | .object members ending => do
    let draft ← layout.takeMembers Draft.empty members
    match ending with
    | .closed => .ok draft
    | .broken stop => .error (.stopped stop)
  | .array items ending => layout.takeItems ending 0 Draft.empty layout.fields items
  | node => .error (mismatch node layout.expectation)

end Layout

/-- Reads a whole text: one value, and behind it only blanks. What follows the value is looked at
only when the value itself is accepted. -/
def readAll {α : Type} (read : Node → Except Fault α) (text : String) : Except Fault α :=
  let (node, rest) := Node.ofText text.toList
  do
    let value ← read node
    if rest.isEmpty then .ok value else .error (.stopped .malformed)

end Keyring.Record
