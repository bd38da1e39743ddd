import Keyring.Entropy
import Keyring.Envelope
import Keyring.Key.Stored
import Keyring.Record.Schema
import Keyring.Record.Value
import Keyring.Rsa.Oaep
import Keyring.Rsa.Signature
import Keyring.Text.Description

/-!
# RSA keys

Keys for RSA signatures over SHA-1, without an envelope, and for RSA encryption in envelopes. A
private key carries the values that speed up its operation. They are read from its record and never
trusted: a key whose values do not fit its factors is refused.
-/

namespace Keyring

structure RsaPublicKey where
  n : Nat
  e : Nat
  size : Nat
  deriving DecidableEq, Repr

structure RsaPrivateKey where
  publicKey : RsaPublicKey
  d : Nat
  p : Nat
  q : Nat
  crt : Rsa.CrtValues
  size : Nat
  deriving DecidableEq, Repr

/-! ## Public keys -/

namespace RsaPublicKey

def keyType : KeyType := .rsaPublic

/-- The key of a modulus and an exponent. -/
def ofNumbers (n e size : Nat) : Result RsaPublicKey := do
  keyType.checkSize size
  if bitLength n ≠ size then .error .invalidKeySize
  else
    Result.ofFault .rsa (Rsa.checkPublic n e)
    return ⟨n, e, size⟩

/-- What the key id is a digest of: modulus and exponent, each behind its length. -/
def material (key : RsaPublicKey) : Bytes :=
  KeyId.joinParts [.minimal key.n, .minimal key.e]

def keyId (key : RsaPublicKey) : KeyId := .ofMaterial key.material

def inspect (key : RsaPublicKey) : String :=
  Text.describe "RsaPublicKey" [("id", key.keyId.inspect), ("size", toString key.size)]

/-- The number of bytes of a signature, and of the payload of an envelope. -/
def blockLength (key : RsaPublicKey) : Nat := Rsa.modulusLength key.n

/-- Whether a byte string is the signature of a message. -/
def verify (key : RsaPublicKey) (message signature : Bytes) : Bool :=
  if signature.length ≠ key.blockLength ∨ key.n ≤ Bytes.toNat signature then false
  else
    match Rsa.signedBlock key.blockLength message with
    | .error _ => false
    | .ok block =>
      Bytes.ofNat key.blockLength (Rsa.publicOp key.n key.e (Bytes.toNat signature)) == block

/-- The envelope of a message; one draw gives the seed of its block. -/
def encrypt (key : RsaPublicKey) (entropy : Entropy) (plaintext : Bytes) : Result Bytes :=
  if key.blockLength < plaintext.length + Rsa.Oaep.overhead then .error (.rsa .messageTooLong)
  else
    match Entropy.draw? Rsa.Oaep.seedLength entropy with
    | none => .error .noEntropy
    | some (seed, _) =>
      let block := Rsa.Oaep.encode key.blockLength seed plaintext
      let c := Rsa.publicOp key.n key.e (Bytes.toNat block)
      .ok (Envelope.header key.keyId ++ Bytes.ofNat key.blockLength c)

def ofRecord (record : Record.RsaPublic) : Result RsaPublicKey := do
  keyType.checkSize record.size
  let n ← Record.readNumber record.modulus
  let e ← Record.readNumber record.publicExponent
  ofNumbers n e record.size

def toRecord (key : RsaPublicKey) : Record.RsaPublic where
  modulus := Record.writeNumber key.n
  publicExponent := Record.writeNumber key.e
  size := key.size

def ofRecordText (text : String) : Result RsaPublicKey :=
  Result.ofFault .invalidRecord (Record.readAll Record.RsaPublic.ofNode text) >>= ofRecord

def recordText (key : RsaPublicKey) : String :=
  key.toRecord.toNode.render

instance : Stored RsaPublicKey where
  keyId := keyId
  keyType := keyType
  ofRecordText := ofRecordText
  recordText := recordText

end RsaPublicKey

/-! ## Private keys -/

namespace RsaPrivateKey

def keyType : KeyType := .rsaPrivate

/-- The key of a public half, a private exponent, two factors and the values for them. -/
def ofNumbers (publicKey : RsaPublicKey) (d p q : Nat) (crt : Rsa.CrtValues) (size : Nat) :
    Result RsaPrivateKey := do
  keyType.checkSize size
  if size ≠ publicKey.size then .error .invalidKeySize
  else if p ≤ 1 ∨ q ≤ 1 ∨ p * q ≠ publicKey.n then .error .invalidKey
  else if crt.fits p q d then
    Result.ofFault .rsa (Rsa.checkPublic publicKey.n publicKey.e)
    Result.ofFault .rsa (Rsa.checkPrivate publicKey.e d p q)
    return ⟨publicKey, d, p, q, crt, size⟩
  else .error .invalidKey

/-- The key id, which is that of the public half. -/
def keyId (key : RsaPrivateKey) : KeyId := key.publicKey.keyId

/-- A description that keeps the secret. -/
def inspect (key : RsaPrivateKey) : String :=
  Text.describe "RsaPrivateKey"
    [("id", key.keyId.inspect), ("size", toString key.size), ("d", Text.redacted)]

/-- The private operation on blocks of the length of the modulus. -/
def privateOp (key : RsaPrivateKey) (blinding : Nat) (block : Bytes) : Result Bytes := do
  let m ← Result.ofFault .rsa <|
    Rsa.privateOp key.publicKey.n key.publicKey.e key.p key.q key.crt blinding (Bytes.toNat block)
  return Bytes.ofNat key.publicKey.blockLength m

def verify (key : RsaPrivateKey) (message signature : Bytes) : Bool :=
  key.publicKey.verify message signature

def sign (key : RsaPrivateKey) (blinding : Nat) (message : Bytes) : Result Bytes := do
  let block ← Result.ofFault .rsa (Rsa.signedBlock key.publicKey.blockLength message)
  key.privateOp blinding block

/-- The envelope of a message, made by the public half. -/
def encrypt (key : RsaPrivateKey) (entropy : Entropy) (plaintext : Bytes) : Result Bytes :=
  key.publicKey.encrypt entropy plaintext

/-- The message of an envelope; the header is dropped unread. -/
def decrypt (key : RsaPrivateKey) (blinding : Nat) (envelope : Bytes) : Result Bytes :=
  if envelope.length < Envelope.headerLength then .error .shortCiphertext
  else
    let payload := envelope.drop Envelope.headerLength
    if payload.length ≠ key.publicKey.blockLength then .error (.rsa .decryption)
    else do
      let block ← key.privateOp blinding payload
      match Rsa.Oaep.decode? block with
      | some message => return message
      | none => .error (.rsa .decryption)

def ofRecord (record : Record.RsaPrivate) : Result RsaPrivateKey := do
  keyType.checkSize record.size
  let publicKey ← RsaPublicKey.ofRecord record.publicKey
  let d ← Record.readNumber record.privateExponent
  let p ← Record.readNumber record.primeP
  let q ← Record.readNumber record.primeQ
  let dp ← Record.readNumber record.primeExponentP
  let dq ← Record.readNumber record.primeExponentQ
  let qinv ← Record.readNumber record.crtCoefficient
  ofNumbers publicKey d p q ⟨dp, dq, qinv⟩ record.size

def toRecord (key : RsaPrivateKey) : Record.RsaPrivate where
  crtCoefficient := Record.writeNumber key.crt.qinv
  primeExponentP := Record.writeNumber key.crt.dp
  primeExponentQ := Record.writeNumber key.crt.dq
  primeP := Record.writeNumber key.p
  primeQ := Record.writeNumber key.q
  privateExponent := Record.writeNumber key.d
  publicKey := key.publicKey.toRecord
  size := key.size

def ofRecordText (text : String) : Result RsaPrivateKey :=
  Result.ofFault .invalidRecord (Record.readAll Record.RsaPrivate.ofNode text) >>= ofRecord

def recordText (key : RsaPrivateKey) : String :=
  key.toRecord.toNode.render

instance : Stored RsaPrivateKey where
  keyId := keyId
  keyType := keyType
  ofRecordText := ofRecordText
  recordText := recordText

end RsaPrivateKey

end Keyring
