/-!
# How RSA arithmetic fails

The numbers of a key may be unusable, a message may not fit, and a private result may turn out
wrong. All defects of a ciphertext are one fault.
-/

namespace Keyring.Rsa

/-- Why a modulus, an exponent or a use of them is refused. -/
inductive Fault
  /-- A ciphertext that is not the encryption of anything. -/
  | decryption
  | messageTooLong
  /-- A private result that the public operation does not undo. -/
  | internal
  | invalidModulus
  | invalidExponent
  | publicExponentTooSmall
  | publicExponentTooLarge
  deriving DecidableEq, Repr

def Fault.message : Fault → String
  | .decryption => "decryption error"
  | .messageTooLong => "message too long"
  | .internal => "internal error"
  | .invalidModulus => "invalid modulus"
  | .invalidExponent => "invalid exponent"
  | .publicExponentTooSmall => "public exponent too small"
  | .publicExponentTooLarge => "public exponent too large"

end Keyring.Rsa
