import Keyring.Hash.Sha1
import Keyring.Rsa.Primitive

/-!
# The signed block

A message is signed as a block of the length of the modulus: a fixed start, a filling of ones, and
the digest behind a fixed text that names the digest. The block is a function of the message, so a
signature is checked by comparing blocks.
-/

namespace Keyring.Rsa

/-- What stands before a SHA-1 digest: the spelling of its name and length. -/
def digestHeader : Bytes :=
  [0x30, 0x21, 0x30, 0x09, 0x06, 0x05, 0x2B, 0x0E, 0x03, 0x02, 0x1A, 0x05, 0x00, 0x04, 0x14]

/-- The block of a message, for a modulus of `length` bytes. -/
def signedBlock (length : Nat) (message : Bytes) : Except Fault Bytes :=
  let digestInfo := digestHeader ++ Sha1.digest message
  if length < digestInfo.length + 11 then .error .messageTooLong
  else
    .ok (0 :: 1 :: List.replicate (length - digestInfo.length - 3) 0xFF ++ 0 :: digestInfo)

end Keyring.Rsa
