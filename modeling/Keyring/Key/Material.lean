import Keyring.Key.Dsa
import Keyring.Key.Rsa
import Keyring.Key.Symmetric

/-!
# Keys of any family

A key whose family is known only when the program runs, and what can be done with it. Public keys
verify and encrypt; private keys also sign and decrypt. Each ability is given as functions together
with the id of the key behind them.
-/

namespace Keyring

/-- A key of any family. -/
inductive KeyMaterial
  | symmetric (key : SymmetricKey)
  | mac (key : MacKey)
  | dsaPrivate (key : DsaPrivateKey)
  | dsaPublic (key : DsaPublicKey)
  | rsaPrivate (key : RsaPrivateKey)
  | rsaPublic (key : RsaPublicKey)
  deriving DecidableEq, Repr

/-! ## Abilities -/

/-- The ability to check signatures. -/
structure Verifier where
  keyId : KeyId
  verify : (message signature : Bytes) → Result Bool

/-- The ability to make and check signatures. -/
structure Signer extends Verifier where
  sign : Randomness → (message : Bytes) → Result Bytes

/-- The ability to make envelopes. -/
structure Encrypter where
  keyId : KeyId
  encrypt : Randomness → (plaintext : Bytes) → Result Bytes

/-- The ability to make and open envelopes. -/
structure Decrypter extends Encrypter where
  decrypt : Randomness → (envelope : Bytes) → Result Bytes

namespace KeyMaterial

def keyType : KeyMaterial → KeyType
  | .symmetric _ => .aes
  | .mac _ => .hmacSha1
  | .dsaPrivate _ => .dsaPrivate
  | .dsaPublic _ => .dsaPublic
  | .rsaPrivate _ => .rsaPrivate
  | .rsaPublic _ => .rsaPublic

def keyId : KeyMaterial → KeyId
  | .symmetric key => key.keyId
  | .mac key => key.keyId
  | .dsaPrivate key => key.keyId
  | .dsaPublic key => key.keyId
  | .rsaPrivate key => key.keyId
  | .rsaPublic key => key.keyId

def size : KeyMaterial → Nat
  | .symmetric key => key.size
  | .mac key => key.size
  | .dsaPrivate key => key.size
  | .dsaPublic key => key.size
  | .rsaPrivate key => key.size
  | .rsaPublic key => key.size

def inspect : KeyMaterial → String
  | .symmetric key => Text.describeWrapped "Symmetric" key.inspect
  | .mac key => Text.describeWrapped "Mac" key.inspect
  | .dsaPrivate key => Text.describeWrapped "DsaPrivate" key.inspect
  | .dsaPublic key => Text.describeWrapped "DsaPublic" key.inspect
  | .rsaPrivate key => Text.describeWrapped "RsaPrivate" key.inspect
  | .rsaPublic key => Text.describeWrapped "RsaPublic" key.inspect

/-! ## Records -/

/-- The key of a record text of the given family. -/
def ofRecordText (keyType : KeyType) (text : String) : Result KeyMaterial :=
  match keyType with
  | .aes => symmetric <$> SymmetricKey.ofRecordText text
  | .hmacSha1 => mac <$> MacKey.ofRecordText text
  | .dsaPrivate => dsaPrivate <$> DsaPrivateKey.ofRecordText text
  | .dsaPublic => dsaPublic <$> DsaPublicKey.ofRecordText text
  | .rsaPrivate => rsaPrivate <$> RsaPrivateKey.ofRecordText text
  | .rsaPublic => rsaPublic <$> RsaPublicKey.ofRecordText text

def recordText : KeyMaterial → String
  | .symmetric key => key.recordText
  | .mac key => key.recordText
  | .dsaPrivate key => key.recordText
  | .dsaPublic key => key.recordText
  | .rsaPrivate key => key.recordText
  | .rsaPublic key => key.recordText

instance : Identified KeyMaterial where
  keyId := keyId

/-! ## What a key can do -/

/-- The ability to sign, of MAC keys and private keys. -/
def signer? : KeyMaterial → Option Signer
  | .mac key =>
    some {
      keyId := key.keyId
      verify := fun message signature => .ok (key.verify message signature)
      sign := fun _ message => .ok (key.sign message) }
  | .dsaPrivate key =>
    some {
      keyId := key.keyId
      verify := key.verify
      sign := fun randomness => key.sign randomness.bytes }
  | .rsaPrivate key =>
    some {
      keyId := key.keyId
      verify := fun message signature => .ok (key.verify message signature)
      sign := fun randomness => key.sign randomness.blinding }
  | _ => none

/-- The ability to verify, of all keys but symmetric ones. -/
def verifier? : KeyMaterial → Option Verifier
  | .symmetric _ => none
  | .mac key => some ⟨key.keyId, fun message signature => .ok (key.verify message signature)⟩
  | .dsaPrivate key => some ⟨key.keyId, key.verify⟩
  | .dsaPublic key => some ⟨key.keyId, key.verify⟩
  | .rsaPrivate key =>
    some ⟨key.keyId, fun message signature => .ok (key.verify message signature)⟩
  | .rsaPublic key =>
    some ⟨key.keyId, fun message signature => .ok (key.verify message signature)⟩

/-- The ability to encrypt, of symmetric and RSA keys. -/
def encrypter? : KeyMaterial → Option Encrypter
  | .symmetric key => some ⟨key.keyId, fun randomness => key.encrypt randomness.bytes⟩
  | .rsaPrivate key => some ⟨key.keyId, fun randomness => key.encrypt randomness.bytes⟩
  | .rsaPublic key => some ⟨key.keyId, fun randomness => key.encrypt randomness.bytes⟩
  | _ => none

/-- The ability to decrypt, of symmetric and RSA private keys. -/
def decrypter? : KeyMaterial → Option Decrypter
  | .symmetric key =>
    some {
      keyId := key.keyId
      encrypt := fun randomness => key.encrypt randomness.bytes
      decrypt := fun _ => key.decrypt }
  | .rsaPrivate key =>
    some {
      keyId := key.keyId
      encrypt := fun randomness => key.encrypt randomness.bytes
      decrypt := fun randomness => key.decrypt randomness.blinding }
  | _ => none

/-- The public half of a private key. -/
def publicHalf? : KeyMaterial → Option KeyMaterial
  | .dsaPrivate key => some (.dsaPublic key.publicKey)
  | .rsaPrivate key => some (.rsaPublic key.publicKey)
  | _ => none

/-- The MAC key inside a symmetric key. -/
def innerMacKey? : KeyMaterial → Option KeyMaterial
  | .symmetric key => some (.mac key.macKey)
  | _ => none

end KeyMaterial

end Keyring
