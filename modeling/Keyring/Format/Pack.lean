import Keyring.Error

/-!
# Packs of byte strings

Several byte strings in one: a 32-bit count, then each string behind its 32-bit length, all numbers
big-endian. A pack is read to its last byte, and a count or length that promises more than there is
makes it malformed.
-/

namespace Keyring.Pack

def lengthSize : Nat := 4

/-- A count or length, if it fits its width. -/
def writeLength (n : Nat) : Result Bytes :=
  if n < 2 ^ 32 then .ok (Bytes.ofNat lengthSize n) else .error .malformedPack

/-- The strings behind their lengths. -/
def writeBuffers : List Bytes → Result Bytes
  | [] => .ok []
  | buffer :: rest => do
    let length ← writeLength buffer.length
    let tail ← writeBuffers rest
    return length ++ buffer ++ tail

def pack (buffers : List Bytes) : Result Bytes := do
  let count ← writeLength buffers.length
  let body ← writeBuffers buffers
  return count ++ body

/-- A count or length, and what follows it. -/
def readLength : Bytes → Result (Nat × Bytes)
  | a :: b :: c :: d :: rest => .ok (Bytes.toNat [a, b, c, d], rest)
  | _ => .error .malformedPack

/-- A given number of strings, and what follows them. -/
def readBuffers : (count : Nat) → Bytes → Result (List Bytes × Bytes)
  | 0, input => .ok ([], input)
  | count + 1, input => do
    let (length, tail) ← readLength input
    let buffer := tail.take length
    if buffer.length < length then .error .malformedPack
    else
      let (buffers, rest) ← readBuffers count (tail.drop length)
      return (buffer :: buffers, rest)

/-- A given number of strings and nothing else. -/
def readBody (count : Nat) (input : Bytes) : Result (List Bytes) := do
  let (buffers, rest) ← readBuffers count input
  if rest.isEmpty then .ok buffers else .error .malformedPack

/-- The byte strings of a pack. Each needs at least its length, so a count beyond what the input can
hold is refused before any is read. -/
def unpack (packed : Bytes) : Result (List Bytes) := do
  let (count, rest) ← readLength packed
  if rest.length / lengthSize < count then .error .malformedPack else readBody count rest

end Keyring.Pack
