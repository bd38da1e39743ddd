import Keyring.Error

/-!
# Values inside records

Byte strings stand in records as web-safe base64, and numbers as the base64 of their big-endian
bytes. A number is written as short as possible and read at any length.
-/

namespace Keyring.Record

/-- The bytes that a field spells. -/
def readBytes (text : String) : Result Bytes :=
  Result.ofFault .base64 (Web64.decode text)

/-- The number that a field spells. -/
def readNumber (text : String) : Result Nat :=
  Bytes.toNat <$> readBytes text

/-- The field of a number. -/
def writeNumber (n : Nat) : String :=
  Web64.encode (Bytes.minimal n)

end Keyring.Record
