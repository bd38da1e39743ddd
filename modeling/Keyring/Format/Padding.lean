import Keyring.Error

/-!
# Block padding

A message is filled up to a multiple of the block size with at least one byte, and every byte of the
filling is its length. Reading refuses whatever writing does not produce.
-/

namespace Keyring.Padding

/-- Fills a message up to the next multiple of the block size. -/
def pad (block : Nat) (data : Bytes) : Bytes :=
  let count := block - data.length % block
  data ++ List.replicate count (UInt8.ofNat count)

/-- Takes the filling off again. -/
def unpad (block : Nat) (data : Bytes) : Result Bytes :=
  match data.getLast? with
  | none => .error .invalidPadding
  | some last =>
    let count := last.toNat
    if data.length % block ≠ 0 then .error .invalidPadding
    else if count = 0 ∨ block < count then .error .invalidPadding
    else if (data.drop (data.length - count)).any (· ≠ last) then .error .invalidPadding
    else .ok (data.take (data.length - count))

end Keyring.Padding
