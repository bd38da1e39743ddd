import Keyring.Hash.Sha1

/-!
# HMAC over SHA-1

The key is brought to the length of a block and hashed in front of the message twice, under two
different masks.
-/

namespace Keyring.Hmac

def tagSize : Nat := Sha1.digestLength

/-- The key at the length of a block: a longer one is hashed, a shorter one filled with zeros. -/
def blockKey (key : Bytes) : Bytes :=
  let short := if 64 < key.length then Sha1.digest key else key
  short ++ List.replicate (64 - short.length) 0

/-- The tag of a message. -/
def tag (key message : Bytes) : Bytes :=
  let padded := blockKey key
  let inner := Sha1.digest (padded.map (· ^^^ 0x36) ++ message)
  Sha1.digest (padded.map (· ^^^ 0x5C) ++ inner)

@[simp] theorem length_tag (key message : Bytes) : (tag key message).length = tagSize := by
  simp [tag, tagSize]

end Keyring.Hmac
