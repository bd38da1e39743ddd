import Keyring.KeyId
import Keyring.KeyType

/-!
# What all keys have

Every key has an id. A key of a known family can also be written as a record and read back.
-/

namespace Keyring

/-- Keys with an id. -/
class Identified (κ : Type) where
  keyId : κ → KeyId

/-- Keys of one family, which are written as records and read back. -/
class Stored (κ : Type) extends Identified κ where
  keyType : KeyType
  ofRecordText : String → Result κ
  recordText : κ → String

end Keyring
