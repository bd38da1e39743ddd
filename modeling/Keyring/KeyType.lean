import Keyring.Error

/-!
# Key families

Each family has a fixed name, the bit length of newly made keys, and the bit lengths that are
admitted. A length is listed or refused; nothing is rounded.
-/

namespace Keyring

inductive KeyType
  /-- AES in CBC mode with a MAC key beside it. -/
  | aes
  | hmacSha1
  | dsaPrivate
  | dsaPublic
  | rsaPrivate
  | rsaPublic
  deriving DecidableEq, Repr

namespace KeyType

/-- Every family, in the order of the table. -/
def all : List KeyType :=
  [.aes, .hmacSha1, .dsaPrivate, .dsaPublic, .rsaPrivate, .rsaPublic]

/-- The name of a family in key metadata. -/
def name : KeyType → String
  | .aes => "AES"
  | .hmacSha1 => "HMAC_SHA1"
  | .dsaPrivate => "DSA_PRIV"
  | .dsaPublic => "DSA_PUB"
  | .rsaPrivate => "RSA_PRIV"
  | .rsaPublic => "RSA_PUB"

/-- The bit length of a new key when none is asked for. -/
def defaultSize : KeyType → Nat
  | .aes => 128
  | .hmacSha1 => 256
  | .dsaPrivate | .dsaPublic => 1024
  | .rsaPrivate | .rsaPublic => 2048

/-- Every admitted bit length. -/
def acceptableSizes : KeyType → List Nat
  | .aes => [128, 192, 256]
  | .hmacSha1 => [160, 256]
  | .dsaPrivate | .dsaPublic => [1024]
  | .rsaPrivate | .rsaPublic => [512, 768, 1024, 2048, 4096]

/-- The family with a given name; names are matched exactly. -/
def ofName (name : String) : Result KeyType :=
  match all.find? (·.name == name) with
  | some keyType => .ok keyType
  | none => .error (.unsupportedKeyType name)

/-- Whether a bit length is admitted. -/
def accepts (keyType : KeyType) (bits : Nat) : Bool :=
  keyType.acceptableSizes.contains bits

/-- Refuses a bit length that is not admitted. -/
def checkSize (keyType : KeyType) (bits : Nat) : Result Unit :=
  if keyType.accepts bits then .ok () else .error .invalidKeySize

/-- Refuses a byte length whose bit length is not admitted, or is no 32-bit number. -/
def checkByteLength (keyType : KeyType) (length : Nat) : Result Unit :=
  if 8 * length < 2 ^ 32 then keyType.checkSize (8 * length) else .error .invalidKeySize

theorem checkSize_eq_ok {keyType : KeyType} {bits : Nat} :
    keyType.checkSize bits = .ok () ↔ bits ∈ keyType.acceptableSizes := by
  unfold checkSize accepts
  split
  case isTrue h => exact ⟨fun _ => List.contains_iff_mem.1 h, fun _ => rfl⟩
  case isFalse h => exact ⟨nofun, fun h' => absurd (List.contains_iff_mem.2 h') h⟩

theorem lt_of_mem_acceptableSizes {keyType : KeyType} {bits : Nat}
    (h : bits ∈ keyType.acceptableSizes) : bits < 2 ^ 32 := by
  cases keyType <;> simp only [acceptableSizes, List.mem_cons, List.not_mem_nil, or_false] at h <;>
    omega

/-- The bound on lengths is never what decides: every listed length is far below it. -/
theorem checkByteLength_eq_ok {keyType : KeyType} {length : Nat} :
    keyType.checkByteLength length = .ok () ↔ 8 * length ∈ keyType.acceptableSizes := by
  unfold checkByteLength
  split
  case isTrue => exact checkSize_eq_ok
  case isFalse h => exact ⟨nofun, fun h' => absurd (lt_of_mem_acceptableSizes h') h⟩

end KeyType

end Keyring
