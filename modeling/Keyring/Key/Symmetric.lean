import Keyring.Cipher.Cbc
import Keyring.Envelope
import Keyring.Format.Pack
import Keyring.Format.Padding
import Keyring.Key.Mac

/-!
# Symmetric keys

An AES key with a MAC key beside it. An envelope holds the header, an initial block, the padded
message in chained blocks, and a tag over all of it. The tag is checked before anything is
decrypted, so that a forged envelope shows nothing about the cipher.
-/

namespace Keyring

/-- A symmetric key: an AES key and a MAC key. -/
structure SymmetricKey where
  bytes : Bytes
  macKey : MacKey
  deriving DecidableEq, Repr

namespace SymmetricKey

def keyType : KeyType := .aes

/-- The bytes of an envelope that are there for the shortest message even before padding. -/
def minEnvelopeLength : Nat := Envelope.headerLength + Aes.blockSize + Hmac.tagSize

/-! ## Making -/

def ofBytes (bytes : Bytes) (macKey : MacKey) : Result SymmetricKey := do
  keyType.checkByteLength bytes.length
  return ⟨bytes, macKey⟩

/-- A new key of the given bit lengths: one draw for the MAC key, then one for the AES key. -/
def generate (bits macBits : Nat) (entropy : Entropy) : Result SymmetricKey := do
  keyType.checkSize bits
  let (macKey, entropy) ← MacKey.generate macBits entropy
  match Entropy.draw? (bits / 8) entropy with
  | some (bytes, _) => return ⟨bytes, macKey⟩
  | none => .error .noEntropy

/-- Both keys in one pack. -/
def packed (key : SymmetricKey) : Result Bytes :=
  Pack.pack [key.bytes, key.macKey.bytes]

def ofPacked (pack : Bytes) : Result SymmetricKey := do
  match ← Pack.unpack pack with
  | [bytes, macBytes] =>
    let macKey ← MacKey.ofBytes macBytes
    ofBytes bytes macKey
  | _ => .error .invalidKeySize

/-! ## Describing -/

/-- The bit length of the AES key. -/
def size (key : SymmetricKey) : Nat := 8 * key.bytes.length

/-- What the key id is a digest of: the AES key behind its length, and the MAC key. -/
def material (key : SymmetricKey) : Bytes :=
  KeyId.lengthPrefixed key.bytes ++ key.macKey.bytes

def keyId (key : SymmetricKey) : KeyId := .ofMaterial key.material

/-- A description that keeps the secret. -/
def inspect (key : SymmetricKey) : String :=
  Text.describe "SymmetricKey"
    [("id", key.keyId.inspect), ("size", toString key.size), ("key", Text.redacted)]

/-! ## Using -/

/-- The envelope of a message; one draw gives the initial block. -/
def encrypt (key : SymmetricKey) (entropy : Entropy) (plaintext : Bytes) : Result Bytes :=
  match Entropy.draw? Aes.blockSize entropy with
  | none => .error .noEntropy
  | some (initial, _) => do
    let body ← Cbc.encrypt key.bytes initial (Padding.pad Aes.blockSize plaintext)
    let message := Envelope.header key.keyId ++ initial ++ body
    return message ++ key.macKey.sign message

def decrypt (key : SymmetricKey) (envelope : Bytes) : Result Bytes :=
  if envelope.length < minEnvelopeLength then .error .shortCiphertext
  else
    let split := envelope.length - Hmac.tagSize
    let message := envelope.take split
    if key.macKey.verify message (envelope.drop split) then do
      let rest := message.drop Envelope.headerLength
      let padded ← Cbc.decrypt key.bytes (rest.take Aes.blockSize) (rest.drop Aes.blockSize)
      Padding.unpad Aes.blockSize padded
    else .error .invalidSignature

/-! ## Records -/

def ofRecord (record : Record.Symmetric) : Result SymmetricKey := do
  keyType.checkSize record.size
  if record.mode ≠ Record.cbcMode then .error (.unsupportedMode record.mode)
  else
    let macKey ← MacKey.ofRecord record.macKey
    let bytes ← Record.readBytes record.key
    if 8 * bytes.length ≠ record.size then .error .invalidKeySize else return ⟨bytes, macKey⟩

def toRecord (key : SymmetricKey) : Record.Symmetric where
  key := Web64.encode key.bytes
  size := key.size
  macKey := key.macKey.toRecord
  mode := Record.cbcMode

def ofRecordText (text : String) : Result SymmetricKey :=
  Result.ofFault .invalidRecord (Record.readAll Record.Symmetric.ofNode text) >>= ofRecord

def recordText (key : SymmetricKey) : String :=
  key.toRecord.toNode.render

instance : Stored SymmetricKey where
  keyId := keyId
  keyType := keyType
  ofRecordText := ofRecordText
  recordText := recordText

end SymmetricKey

end Keyring
