import Keyring.Bytes

/-!
# SHA-1

The message is padded to whole blocks of 64 bytes. Each block is expanded to eighty words, which
eighty rounds work into a state of five words; the last state is the digest.
-/

namespace Keyring.Sha1

def digestLength : Nat := 20

structure State where
  a : UInt32
  b : UInt32
  c : UInt32
  d : UInt32
  e : UInt32
  deriving DecidableEq, Repr

def initial : State :=
  ⟨0x67452301, 0xEFCDAB89, 0x98BADCFE, 0x10325476, 0xC3D2E1F0⟩

/-- Rotation to the left, by less than the whole width. -/
def rotate (x count : UInt32) : UInt32 :=
  (x <<< count) ||| (x >>> (32 - count))

/-! ## Padding and words -/

/-- The message with its final bit, zeros up to the length field, and its length in bits. -/
def pad (message : Bytes) : Bytes :=
  message ++ 0x80 :: List.replicate ((119 - message.length % 64) % 64) 0 ++
    Bytes.ofNat 8 (8 * message.length)

/-- The big-endian words of a byte string; bytes beyond the last whole word are dropped. -/
def words : Bytes → List UInt32
  | a :: b :: c :: d :: rest =>
    ((a.toUInt32 <<< 24) ||| (b.toUInt32 <<< 16) ||| (c.toUInt32 <<< 8) ||| d.toUInt32) ::
      words rest
  | _ => []

/-- The four bytes of a word, most significant first. -/
def wordBytes (w : UInt32) : Bytes :=
  [(w >>> 24).toUInt8, (w >>> 16).toUInt8, (w >>> 8).toUInt8, w.toUInt8]

@[simp] theorem length_wordBytes (w : UInt32) : (wordBytes w).length = 4 := rfl

/-! ## Compression -/

/-- The first words of the schedule, from a window of sixteen that slides along it. -/
def schedule : (count : Nat) → (window : List UInt32) → List UInt32
  | 0, _ => []
  | _, [] => []
  | count + 1, w :: rest =>
    let next := rotate (w ^^^ rest.getD 1 0 ^^^ rest.getD 7 0 ^^^ rest.getD 12 0) 1
    w :: schedule count (rest ++ [next])

/-- The mixing function and the constant of a round. -/
def roundWord (round : Nat) (b c d : UInt32) : UInt32 × UInt32 :=
  if round < 20 then ((b &&& c) ||| (~~~b &&& d), 0x5A827999)
  else if round < 40 then (b ^^^ c ^^^ d, 0x6ED9EBA1)
  else if round < 60 then ((b &&& c) ||| (b &&& d) ||| (c &&& d), 0x8F1BBCDC)
  else (b ^^^ c ^^^ d, 0xCA62C1D6)

/-- The rounds for the rest of the schedule, from a given round on. -/
def rounds : (round : Nat) → State → List UInt32 → State
  | _, s, [] => s
  | round, s, w :: rest =>
    let (f, k) := roundWord round s.b s.c s.d
    rounds (round + 1) ⟨rotate s.a 5 + f + s.e + k + w, s.a, rotate s.b 30, s.c, s.d⟩ rest

/-- Works one block into the state. -/
def compress (s : State) (block : Bytes) : State :=
  let t := rounds 0 s (schedule 80 (words block))
  ⟨s.a + t.a, s.b + t.b, s.c + t.c, s.d + t.d, s.e + t.e⟩

/-- Works a given number of blocks into the state. -/
def absorb : (blocks : Nat) → State → Bytes → State
  | 0, s, _ => s
  | blocks + 1, s, input => absorb blocks (compress s (input.take 64)) (input.drop 64)

/-! ## The digest -/

def State.bytes (s : State) : Bytes :=
  wordBytes s.a ++ wordBytes s.b ++ wordBytes s.c ++ wordBytes s.d ++ wordBytes s.e

@[simp] theorem State.length_bytes (s : State) : s.bytes.length = digestLength := by
  simp [State.bytes, digestLength]

def digest (message : Bytes) : Bytes :=
  let padded := pad message
  (absorb (padded.length / 64) initial padded).bytes

@[simp] theorem length_digest (message : Bytes) : (digest message).length = digestLength := by
  simp [digest]

end Keyring.Sha1
