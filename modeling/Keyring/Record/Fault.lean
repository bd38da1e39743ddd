import Keyring.Json.Token
import Keyring.Number.Decimal
import Keyring.Text.Quoted

/-!
# Why a text is not a record

Either the text is not JSON, and reading stops there, or it is JSON of the wrong shape. A problem of
shape names what was found and what was expected.
-/

namespace Keyring.Record

/-- What a value turned out to be. -/
inductive Found
  | null
  | boolean (value : Bool)
  | integer (value : Int)
  | float (negative : Bool) (magnitude : Binary64)
  | text (value : String)
  | sequence
  | map
  deriving DecidableEq, Repr

def Found.describe : Found → String
  | .null => "null"
  | .boolean value => "boolean `" ++ toString value ++ "`"
  | .integer value => "integer `" ++ toString value ++ "`"
  | .float negative magnitude => "floating point `" ++ magnitude.signedText negative ++ "`"
  | .text value => "string " ++ Text.quoted value
  | .sequence => "sequence"
  | .map => "map"

/-- A way in which well-formed JSON is not a record. -/
inductive Problem
  /-- A value of the wrong kind. -/
  | wrongType (found : Found) (expected : String)
  /-- A number of the right kind that is out of range. -/
  | outOfRange (value : Int) (expected : String)
  /-- A list of fields that ends too early. -/
  | tooFew (count : Nat) (expected : String)
  | duplicateField (name : String)
  | missingField (name : String)
  deriving DecidableEq, Repr

def Problem.message : Problem → String
  | .wrongType found expected =>
    "invalid type: " ++ found.describe ++ ", expected " ++ expected
  | .outOfRange value expected =>
    "invalid value: " ++ (Found.integer value).describe ++ ", expected " ++ expected
  | .tooFew count expected => "invalid length " ++ toString count ++ ", expected " ++ expected
  | .duplicateField name => "duplicate field `" ++ name ++ "`"
  | .missingField name => "missing field `" ++ name ++ "`"

/-- Why a text is not a record. -/
inductive Fault
  | stopped (cause : Json.Stop)
  | unfit (problem : Problem)
  deriving DecidableEq, Repr

def Fault.message : Fault → String
  | .stopped .malformed => "malformed JSON"
  | .stopped .truncated => "unexpected end of JSON"
  | .unfit problem => problem.message

end Keyring.Record
