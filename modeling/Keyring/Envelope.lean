import Keyring.Error
import Keyring.KeyId

/-!
# Envelopes

A ciphertext travels in an envelope: one byte for the format version, the id of the key that made
it, and the payload. The header says which key opens the envelope; it protects nothing by itself.
-/

namespace Keyring.Envelope

def formatVersion : UInt8 := 0

def headerLength : Nat := 1 + KeyId.size

/-- The header for a key. -/
def header (id : KeyId) : Bytes :=
  formatVersion :: id.bytes

@[simp] theorem length_header (id : KeyId) : (header id).length = headerLength := by
  simp [header, headerLength, KeyId.size, id.length_eq]

/-- The key id in the header of an envelope, and the payload behind it. -/
def parse (envelope : Bytes) : Result (KeyId × Bytes) :=
  match envelope with
  | version :: a :: b :: c :: d :: payload =>
    if version = formatVersion then .ok (⟨[a, b, c, d], rfl⟩, payload)
    else .error .invalidHeader
  | _ => .error .shortCiphertext

end Keyring.Envelope
