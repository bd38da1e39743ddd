import Keyring.Hash.Sha1
import Keyring.Rsa.Primitive

/-!
# OAEP blocks

A message is encrypted as a block of the length of the modulus. Behind a zero byte stand a random
seed and a data block, each masked with a stream grown from the other; the data block holds the
digest of an empty label, a run of zeros, a one, and the message. Unmasking recovers the seed, so a
block that is accepted can be made again from its message.
-/

namespace Keyring.Rsa.Oaep

def seedLength : Nat := Sha1.digestLength

/-- The bytes of a block that do not hold the message. -/
def overhead : Nat := 2 * seedLength + 2

def labelDigest : Bytes := Sha1.digest []

/-- A mask of the given length grown from a seed. -/
def mask (seed : Bytes) (length : Nat) : Bytes :=
  let stream := (List.range ((length + 19) / 20)).flatMap fun counter =>
    Sha1.digest (seed ++ Bytes.ofNat 4 counter)
  stream.take length

/-- The data block of a message. -/
def dataBlock (length : Nat) (message : Bytes) : Bytes :=
  labelDigest ++ List.replicate (length - overhead - message.length) 0 ++ 1 :: message

/-- The block of a message, for a modulus of `length` bytes. -/
def encode (length : Nat) (seed message : Bytes) : Bytes :=
  let data := dataBlock length message
  let maskedData := Bytes.xor data (mask seed data.length)
  let maskedSeed := Bytes.xor seed (mask maskedData seedLength)
  0 :: maskedSeed ++ maskedData

/-- The message behind a run of zeros and a one. -/
def message? : Bytes → Option Bytes
  | [] => none
  | b :: rest => if b = 0 then message? rest else if b = 1 then some rest else none

/-- The seed and the data block of a block, unmasked. -/
def unmask (block : Bytes) : Bytes × Bytes :=
  let maskedSeed := (block.drop 1).take seedLength
  let maskedData := block.drop (1 + seedLength)
  let seed := Bytes.xor maskedSeed (mask maskedData seedLength)
  (seed, Bytes.xor maskedData (mask seed maskedData.length))

/-- The message of a block. -/
def decode? (block : Bytes) : Option Bytes :=
  let (_, data) := unmask block
  if block.head? = some 0 ∧ data.take seedLength = labelDigest then
    message? (data.drop seedLength)
  else none

end Keyring.Rsa.Oaep
