import Keyring.Record.Fault
import Keyring.Rsa.Fault
import Keyring.Text.Web64

/-!
# How loading and using keys fails

One type of errors for all operations on keys. The wording of an integrity failure says no more
than that it failed.
-/

namespace Keyring

/-- Why loading or using key material fails. -/
inductive KeyError
  /-- A declared or actual size that the key family does not admit. -/
  | invalidKeySize
  /-- A key field that is not web-safe base64. -/
  | base64 (fault : Web64.Fault)
  /-- A text that is not the record of its key family. -/
  | invalidRecord (fault : Record.Fault)
  /-- An envelope too short for its parts. -/
  | shortCiphertext
  /-- An envelope of an unknown format. -/
  | invalidHeader
  | invalidSignature
  | invalidPadding
  | malformedSignature
  | malformedPack
  /-- A key length that the block cipher does not know. -/
  | invalidKeyLength
  /-- Key material whose parts do not fit together. -/
  | invalidKey
  | unsupportedMode (mode : String)
  | unsupportedKeyType (name : String)
  | duplicateVersion (version : Nat)
  /-- The source of records failed, for the stated cause. -/
  | source (version : Nat) (cause : String)
  | rsa (fault : Rsa.Fault)
  | dsa
  /-- The supply of random bytes ran out. -/
  | noEntropy
  deriving DecidableEq, Repr

def KeyError.message : KeyError → String
  | .invalidKeySize => "Invalid key size"
  | .base64 fault => "Base64 decode error: " ++ fault.message
  | .invalidRecord fault => "Invalid key record: " ++ fault.message
  | .shortCiphertext => "Ciphertext too short"
  | .invalidHeader => "Invalid envelope header"
  | .invalidSignature => "Invalid signature"
  | .invalidPadding => "Invalid padding"
  | .malformedSignature => "Malformed signature"
  | .malformedPack => "Malformed key pack"
  | .invalidKeyLength => "Invalid key length for cipher"
  | .invalidKey => "Invalid key material"
  | .unsupportedMode mode => "Unsupported cipher mode: " ++ mode
  | .unsupportedKeyType name => "Unsupported key type: " ++ name
  | .duplicateVersion version => "Duplicate key version " ++ toString version
  | .source version cause =>
    "Failed to read key version " ++ toString version ++ ": " ++ cause
  | .rsa fault => "RSA error: " ++ fault.message
  | .dsa => "DSA error: signature error"
  | .noEntropy => "Cryptographic operation failed"

/-- The result of an operation on keys. -/
abbrev Result := Except KeyError

/-- Turns the fault of one part into an error of the whole. -/
def Result.ofFault {ε α : Type} (wrap : ε → KeyError) : Except ε α → Result α
  | .ok value => .ok value
  | .error fault => .error (wrap fault)

theorem Result.ok_bind {ε α β : Type} (a : α) (f : α → Except ε β) : Except.ok a >>= f = f a := rfl

/-- A sequence of two steps gives a value when both steps do. -/
theorem Result.bind_eq_ok {ε α β : Type} {x : Except ε α} {f : α → Except ε β} {b : β} :
    x >>= f = .ok b ↔ ∃ a, x = .ok a ∧ f a = .ok b := by
  cases x with
  | error e => exact ⟨nofun, nofun⟩
  | ok a => exact ⟨fun h => ⟨a, rfl, h⟩, fun ⟨_, rfl, h⟩ => h⟩

/-- A sequence of two steps fails when the first step does, or the second one behind it. -/
theorem Result.bind_eq_error {ε α β : Type} {x : Except ε α} {f : α → Except ε β} {e : ε} :
    x >>= f = .error e ↔ x = .error e ∨ ∃ a, x = .ok a ∧ f a = .error e := by
  cases x with
  | error fault =>
    constructor
    · intro h
      cases h
      exact .inl rfl
    · rintro (h | ⟨a, h, -⟩)
      · cases h
        rfl
      · cases h
  | ok a =>
    constructor
    · exact fun h => .inr ⟨a, rfl, h⟩
    · rintro (h | ⟨_, h, hnext⟩)
      · cases h
      · cases h
        exact hnext

theorem Result.ofFault_eq_ok {ε α : Type} {wrap : ε → KeyError} {x : Except ε α} {a : α} :
    Result.ofFault wrap x = .ok a ↔ x = .ok a := by
  cases x with
  | ok value => exact ⟨fun h => congrArg _ (Except.ok.inj h), fun h => congrArg _ (Except.ok.inj h)⟩
  | error fault => exact ⟨nofun, nofun⟩

theorem Result.map_eq_ok {α β : Type} {f : α → β} {x : Result α} {b : β} :
    f <$> x = .ok b ↔ ∃ a, x = .ok a ∧ f a = b := by
  cases x with
  | ok a => exact ⟨fun h => ⟨a, rfl, Except.ok.inj h⟩, fun ⟨_, rfl, h⟩ => congrArg Except.ok h⟩
  | error error => exact ⟨nofun, nofun⟩

/-- A result that is known by its value. -/
theorem Result.eq_ok_of_toOption {α : Type} {x : Result α} {a : α} (h : x.toOption = some a) :
    x = .ok a := by
  cases x with
  | ok value => exact congrArg _ (Option.some.inj h)
  | error error => cases h

end Keyring
