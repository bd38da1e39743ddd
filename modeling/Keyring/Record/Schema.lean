import Keyring.Record.Layout

/-!
# The records of the key families

Each family stores a key as a record of base64 texts and declared bit lengths; private keys hold the
record of their public half. A record is written as an object with its current field names in the
order of its layout.
-/

namespace Keyring.Record

open Json

/-! ## Writing -/

def textNode (text : String) : Node := .text (.ofString text)

def wordNode (n : Nat) : Node := .number (.ofNat n)

def objectNode (members : List (String × Node)) : Node :=
  .object (members.map fun (name, value) => (.ofString name, value)) .closed

/-! ## MAC keys -/

/-- The record of a MAC key. -/
structure Mac where
  key : String
  size : Nat
  deriving DecidableEq, Repr

inductive Mac.Field
  | key
  | size
  deriving DecidableEq

def Mac.layout : Layout Mac.Field where
  title := "MacKeyRecord"
  fields := [.key, .size]
  name
    | .key => "key"
    | .size => "size"
  olderNames
    | .key => ["hmacKeyString"]
    | .size => []
  optional _ := false
  Value
    | .key => String
    | .size => Nat
  read
    | .key => readText
    | .size => readWord

def Mac.ofNode (node : Node) : Except Fault Mac := do
  let draft ← Mac.layout.draft node
  let key ← draft.require .key
  let size ← draft.require .size
  return { key, size }

def Mac.toNode (record : Mac) : Node :=
  objectNode [("key", textNode record.key), ("size", wordNode record.size)]

/-! ## Symmetric keys -/

/-- The mode that a symmetric record has when it names none, and the only one there is. -/
def cbcMode : String := "CBC"

/-- The record of a symmetric key. -/
structure Symmetric where
  key : String
  size : Nat
  macKey : Mac
  mode : String
  deriving DecidableEq, Repr

inductive Symmetric.Field
  | key
  | size
  | macKey
  | mode
  deriving DecidableEq

def Symmetric.layout : Layout Symmetric.Field where
  title := "SymmetricKeyRecord"
  fields := [.key, .size, .macKey, .mode]
  name
    | .key => "key"
    | .size => "size"
    | .macKey => "macKey"
    | .mode => "mode"
  olderNames
    | .key => ["aesKeyString"]
    | .macKey => ["hmacKey"]
    | .size | .mode => []
  optional
    | .mode => true
    | .key | .size | .macKey => false
  Value
    | .key | .mode => String
    | .size => Nat
    | .macKey => Mac
  read
    | .key | .mode => readText
    | .size => readWord
    | .macKey => Mac.ofNode

def Symmetric.ofNode (node : Node) : Except Fault Symmetric := do
  let draft ← Symmetric.layout.draft node
  let key ← draft.require .key
  let size ← draft.require .size
  let macKey ← draft.require .macKey
  let mode : Option String := draft .mode
  return { key, size, macKey, mode := mode.getD cbcMode }

def Symmetric.toNode (record : Symmetric) : Node :=
  objectNode
    [("key", textNode record.key), ("size", wordNode record.size),
      ("macKey", record.macKey.toNode), ("mode", textNode record.mode)]

/-! ## DSA keys -/

/-- The record of a DSA public key. -/
structure DsaPublic where
  q : String
  p : String
  g : String
  y : String
  size : Nat
  deriving DecidableEq, Repr

inductive DsaPublic.Field
  | q
  | p
  | g
  | y
  | size
  deriving DecidableEq

def DsaPublic.layout : Layout DsaPublic.Field where
  title := "DsaPublicKeyRecord"
  fields := [.q, .p, .g, .y, .size]
  name
    | .q => "q"
    | .p => "p"
    | .g => "g"
    | .y => "y"
    | .size => "size"
  olderNames
    | .q => ["Q"]
    | .p => ["P"]
    | .g => ["G"]
    | .y => ["Y"]
    | .size => []
  optional _ := false
  Value
    | .q | .p | .g | .y => String
    | .size => Nat
  read
    | .q | .p | .g | .y => readText
    | .size => readWord

def DsaPublic.ofNode (node : Node) : Except Fault DsaPublic := do
  let draft ← DsaPublic.layout.draft node
  let q ← draft.require .q
  let p ← draft.require .p
  let g ← draft.require .g
  let y ← draft.require .y
  let size ← draft.require .size
  return { q, p, g, y, size }

def DsaPublic.toNode (record : DsaPublic) : Node :=
  objectNode
    [("q", textNode record.q), ("p", textNode record.p), ("g", textNode record.g),
      ("y", textNode record.y), ("size", wordNode record.size)]

/-- The record of a DSA private key. -/
structure DsaPrivate where
  publicKey : DsaPublic
  size : Nat
  x : String
  deriving DecidableEq, Repr

inductive DsaPrivate.Field
  | publicKey
  | size
  | x
  deriving DecidableEq

def DsaPrivate.layout : Layout DsaPrivate.Field where
  title := "DsaPrivateKeyRecord"
  fields := [.publicKey, .size, .x]
  name
    | .publicKey => "publicKey"
    | .size => "size"
    | .x => "x"
  olderNames _ := []
  optional _ := false
  Value
    | .publicKey => DsaPublic
    | .size => Nat
    | .x => String
  read
    | .publicKey => DsaPublic.ofNode
    | .size => readWord
    | .x => readText

def DsaPrivate.ofNode (node : Node) : Except Fault DsaPrivate := do
  let draft ← DsaPrivate.layout.draft node
  let publicKey ← draft.require .publicKey
  let size ← draft.require .size
  let x ← draft.require .x
  return { publicKey, size, x }

def DsaPrivate.toNode (record : DsaPrivate) : Node :=
  objectNode
    [("publicKey", record.publicKey.toNode), ("size", wordNode record.size),
      ("x", textNode record.x)]

/-! ## RSA keys -/

/-- The record of an RSA public key. -/
structure RsaPublic where
  modulus : String
  publicExponent : String
  size : Nat
  deriving DecidableEq, Repr

inductive RsaPublic.Field
  | modulus
  | publicExponent
  | size
  deriving DecidableEq

def RsaPublic.layout : Layout RsaPublic.Field where
  title := "RsaPublicKeyRecord"
  fields := [.modulus, .publicExponent, .size]
  name
    | .modulus => "modulus"
    | .publicExponent => "publicExponent"
    | .size => "size"
  olderNames _ := []
  optional _ := false
  Value
    | .modulus | .publicExponent => String
    | .size => Nat
  read
    | .modulus | .publicExponent => readText
    | .size => readWord

def RsaPublic.ofNode (node : Node) : Except Fault RsaPublic := do
  let draft ← RsaPublic.layout.draft node
  let modulus ← draft.require .modulus
  let publicExponent ← draft.require .publicExponent
  let size ← draft.require .size
  return { modulus, publicExponent, size }

def RsaPublic.toNode (record : RsaPublic) : Node :=
  objectNode
    [("modulus", textNode record.modulus), ("publicExponent", textNode record.publicExponent),
      ("size", wordNode record.size)]

/-- The record of an RSA private key. -/
structure RsaPrivate where
  crtCoefficient : String
  primeExponentP : String
  primeExponentQ : String
  primeP : String
  primeQ : String
  privateExponent : String
  publicKey : RsaPublic
  size : Nat
  deriving DecidableEq, Repr

inductive RsaPrivate.Field
  | crtCoefficient
  | primeExponentP
  | primeExponentQ
  | primeP
  | primeQ
  | privateExponent
  | publicKey
  | size
  deriving DecidableEq

def RsaPrivate.layout : Layout RsaPrivate.Field where
  title := "RsaPrivateKeyRecord"
  fields :=
    [.crtCoefficient, .primeExponentP, .primeExponentQ, .primeP, .primeQ, .privateExponent,
      .publicKey, .size]
  name
    | .crtCoefficient => "crtCoefficient"
    | .primeExponentP => "primeExponentP"
    | .primeExponentQ => "primeExponentQ"
    | .primeP => "primeP"
    | .primeQ => "primeQ"
    | .privateExponent => "privateExponent"
    | .publicKey => "publicKey"
    | .size => "size"
  olderNames _ := []
  optional _ := false
  Value
    | .crtCoefficient | .primeExponentP | .primeExponentQ => String
    | .primeP | .primeQ | .privateExponent => String
    | .publicKey => RsaPublic
    | .size => Nat
  read
    | .crtCoefficient | .primeExponentP | .primeExponentQ => readText
    | .primeP | .primeQ | .privateExponent => readText
    | .publicKey => RsaPublic.ofNode
    | .size => readWord

def RsaPrivate.ofNode (node : Node) : Except Fault RsaPrivate := do
  let draft ← RsaPrivate.layout.draft node
  let crtCoefficient ← draft.require .crtCoefficient
  let primeExponentP ← draft.require .primeExponentP
  let primeExponentQ ← draft.require .primeExponentQ
  let primeP ← draft.require .primeP
  let primeQ ← draft.require .primeQ
  let privateExponent ← draft.require .privateExponent
  let publicKey ← draft.require .publicKey
  let size ← draft.require .size
  return {
    crtCoefficient, primeExponentP, primeExponentQ, primeP, primeQ, privateExponent, publicKey,
    size }

def RsaPrivate.toNode (record : RsaPrivate) : Node :=
  objectNode
    [("crtCoefficient", textNode record.crtCoefficient),
      ("primeExponentP", textNode record.primeExponentP),
      ("primeExponentQ", textNode record.primeExponentQ), ("primeP", textNode record.primeP),
      ("primeQ", textNode record.primeQ), ("privateExponent", textNode record.privateExponent),
      ("publicKey", record.publicKey.toNode), ("size", wordNode record.size)]

end Keyring.Record
