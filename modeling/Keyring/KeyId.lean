import Keyring.Hash.Sha1

/-!
# Key ids

A key is known by the first four bytes of a digest over its public material. Material of several
parts is joined with each part behind its length, so that the parts can be told apart again. What is
hashed is kept apart from the hashing: two keys share an id when their material is equal or when the
digests collide.
-/

namespace Keyring

/-- The id of a key: four bytes. -/
structure KeyId where
  bytes : Bytes
  length_eq : bytes.length = 4
  deriving DecidableEq, Repr

namespace KeyId

def size : Nat := 4

/-- The id that a digest over the given material gives. -/
def ofMaterial (material : Bytes) : KeyId :=
  ⟨(Sha1.digest material).take size, by simp [size, Sha1.digestLength]⟩

/-- The largest length that can be written before a part. -/
def maxPartLength : Nat := 2 ^ 32 - 1

/-- A part behind its length. -/
def lengthPrefixed (part : Bytes) : Bytes :=
  Bytes.ofNat 4 (min part.length maxPartLength) ++ part

/-- Several parts, each behind its length. -/
def joinParts (parts : List Bytes) : Bytes :=
  parts.flatMap lengthPrefixed

/-- The text of an id: eight hexadecimal digits. -/
def text (id : KeyId) : String :=
  Bytes.toHex id.bytes

/-- How an id is shown inside a description. -/
def inspect (id : KeyId) : String :=
  "KeyId(" ++ id.text ++ ")"

/-- How a list of ids is shown. -/
def inspectAll (ids : List KeyId) : String :=
  "[" ++ ", ".intercalate (ids.map inspect) ++ "]"

/-- Ids are ordered by their bytes, the first one counting most. -/
def le (a b : KeyId) : Bool :=
  Bytes.toNat a.bytes ≤ Bytes.toNat b.bytes

def sort (ids : List KeyId) : List KeyId :=
  ids.mergeSort le

end KeyId

end Keyring
