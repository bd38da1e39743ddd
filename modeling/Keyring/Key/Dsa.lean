import Keyring.Dsa.Primitive
import Keyring.Format.Der
import Keyring.Key.Stored
import Keyring.Record.Schema
import Keyring.Record.Value
import Keyring.Text.Description

/-!
# DSA keys

Keys for DSA over SHA-1. Signatures are pairs of numbers in DER, without an envelope. Only 1024-bit
keys are admitted, whose subgroup has an order of 160 bits.
-/

namespace Keyring

structure DsaPublicKey where
  numbers : Dsa.Numbers
  size : Nat
  deriving DecidableEq, Repr

structure DsaPrivateKey where
  publicKey : DsaPublicKey
  x : Nat
  size : Nat
  deriving DecidableEq, Repr

/-! ## Public keys -/

namespace DsaPublicKey

def keyType : KeyType := .dsaPublic

/-- The binary digits of the order of the subgroup. -/
def orderBits : Nat := 160

/-- The key of the given numbers and declared size. -/
def ofNumbers (numbers : Dsa.Numbers) (size : Nat) : Result DsaPublicKey := do
  keyType.checkSize size
  if bitLength numbers.p ≠ size ∨ bitLength numbers.q ≠ orderBits then .error .invalidKeySize
  else if numbers.usable then return ⟨numbers, size⟩
  else .error .dsa

/-- What the key id is a digest of: the four numbers, each behind its length. -/
def material (key : DsaPublicKey) : Bytes :=
  KeyId.joinParts
    [.minimal key.numbers.p, .minimal key.numbers.q, .minimal key.numbers.g,
      .minimal key.numbers.y]

def keyId (key : DsaPublicKey) : KeyId := .ofMaterial key.material

def inspect (key : DsaPublicKey) : String :=
  Text.describe "DsaPublicKey" [("id", key.keyId.inspect), ("size", toString key.size)]

/-- Whether a byte string is a signature of a message; one that spells no pair is an error. -/
def verify (key : DsaPublicKey) (message signature : Bytes) : Result Bool :=
  match Der.readPair? signature with
  | none => .error .malformedSignature
  | some (r, s) => .ok (Dsa.verify key.numbers (Bytes.toNat (Sha1.digest message)) r s)

def ofRecord (record : Record.DsaPublic) : Result DsaPublicKey := do
  keyType.checkSize record.size
  let p ← Record.readNumber record.p
  let q ← Record.readNumber record.q
  let g ← Record.readNumber record.g
  let y ← Record.readNumber record.y
  ofNumbers ⟨p, q, g, y⟩ record.size

def toRecord (key : DsaPublicKey) : Record.DsaPublic where
  q := Record.writeNumber key.numbers.q
  p := Record.writeNumber key.numbers.p
  g := Record.writeNumber key.numbers.g
  y := Record.writeNumber key.numbers.y
  size := key.size

def ofRecordText (text : String) : Result DsaPublicKey :=
  Result.ofFault .invalidRecord (Record.readAll Record.DsaPublic.ofNode text) >>= ofRecord

def recordText (key : DsaPublicKey) : String :=
  key.toRecord.toNode.render

instance : Stored DsaPublicKey where
  keyId := keyId
  keyType := keyType
  ofRecordText := ofRecordText
  recordText := recordText

end DsaPublicKey

/-! ## Private keys -/

namespace DsaPrivateKey

def keyType : KeyType := .dsaPrivate

/-- The key of a public half and a secret exponent. -/
def ofNumbers (publicKey : DsaPublicKey) (x size : Nat) : Result DsaPrivateKey := do
  keyType.checkSize size
  let numbers := publicKey.numbers
  if size ≠ publicKey.size then .error .invalidKeySize
  else if powMod numbers.g x numbers.p ≠ numbers.y then .error .invalidKey
  else if x = 0 ∨ numbers.q < x then .error .dsa
  else return ⟨publicKey, x, size⟩

/-- The key id, which is that of the public half. -/
def keyId (key : DsaPrivateKey) : KeyId := key.publicKey.keyId

/-- A description that keeps the secret. -/
def inspect (key : DsaPrivateKey) : String :=
  Text.describe "DsaPrivateKey"
    [("id", key.keyId.inspect), ("size", toString key.size), ("x", Text.redacted)]

def verify (key : DsaPrivateKey) (message signature : Bytes) : Result Bool :=
  key.publicKey.verify message signature

def sign (key : DsaPrivateKey) (entropy : Entropy) (message : Bytes) : Result Bytes :=
  let numbers := key.publicKey.numbers
  match Dsa.secret? numbers.q (entropy.length / Dsa.attemptLength) entropy with
  | none => .error .noEntropy
  | some (k, inverse) =>
    match Dsa.signWith? numbers key.x (Bytes.toNat (Sha1.digest message)) k inverse with
    | none => .error .dsa
    | some (r, s) => .ok (Der.writePair r s)

def ofRecord (record : Record.DsaPrivate) : Result DsaPrivateKey := do
  keyType.checkSize record.size
  let publicKey ← DsaPublicKey.ofRecord record.publicKey
  let x ← Record.readNumber record.x
  ofNumbers publicKey x record.size

def toRecord (key : DsaPrivateKey) : Record.DsaPrivate where
  publicKey := key.publicKey.toRecord
  size := key.size
  x := Record.writeNumber key.x

def ofRecordText (text : String) : Result DsaPrivateKey :=
  Result.ofFault .invalidRecord (Record.readAll Record.DsaPrivate.ofNode text) >>= ofRecord

def recordText (key : DsaPrivateKey) : String :=
  key.toRecord.toNode.render

instance : Stored DsaPrivateKey where
  keyId := keyId
  keyType := keyType
  ofRecordText := ofRecordText
  recordText := recordText

end DsaPrivateKey

end Keyring
