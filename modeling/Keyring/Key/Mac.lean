import Keyring.Entropy
import Keyring.Hash.Hmac
import Keyring.Key.Stored
import Keyring.Record.Schema
import Keyring.Record.Value
import Keyring.Text.Description

/-!
# MAC keys

A key for HMAC over SHA-1. It signs and verifies with tags of twenty bytes, without an envelope, and
also protects the envelopes of a symmetric key.
-/

namespace Keyring

structure MacKey where
  bytes : Bytes
  deriving DecidableEq, Repr

namespace MacKey

def keyType : KeyType := .hmacSha1

/-! ## Making -/

def ofBytes (bytes : Bytes) : Result MacKey := do
  keyType.checkByteLength bytes.length
  return ⟨bytes⟩

/-- A new key of the given bit length: one draw. -/
def generate (bits : Nat) (entropy : Entropy) : Result (MacKey × Entropy) := do
  keyType.checkSize bits
  match Entropy.draw? (bits / 8) entropy with
  | some (bytes, rest) => return (⟨bytes⟩, rest)
  | none => .error .noEntropy

/-! ## Describing -/

def size (key : MacKey) : Nat := 8 * key.bytes.length

/-- What the key id is a digest of: the key itself. -/
def material (key : MacKey) : Bytes := key.bytes

def keyId (key : MacKey) : KeyId := .ofMaterial key.material

/-- A description that keeps the secret. -/
def inspect (key : MacKey) : String :=
  Text.describe "MacKey" [("id", key.keyId.inspect), ("key", Text.redacted)]

/-! ## Using -/

/-- The tag of a message. -/
def sign (key : MacKey) (message : Bytes) : Bytes :=
  Hmac.tag key.bytes message

/-- Whether a byte string is the tag of a message. -/
def verify (key : MacKey) (message signature : Bytes) : Bool :=
  if signature.length ≠ Hmac.tagSize then false else key.sign message == signature

/-! ## Records -/

def ofRecord (record : Record.Mac) : Result MacKey := do
  keyType.checkSize record.size
  let bytes ← Record.readBytes record.key
  if 8 * bytes.length ≠ record.size then .error .invalidKeySize else return ⟨bytes⟩

def toRecord (key : MacKey) : Record.Mac where
  key := Web64.encode key.bytes
  size := key.size

def ofRecordText (text : String) : Result MacKey :=
  Result.ofFault .invalidRecord (Record.readAll Record.Mac.ofNode text) >>= ofRecord

def recordText (key : MacKey) : String :=
  key.toRecord.toNode.render

instance : Stored MacKey where
  keyId := keyId
  keyType := keyType
  ofRecordText := ofRecordText
  recordText := recordText

end MacKey

end Keyring
