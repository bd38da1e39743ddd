import Keyring.Bytes

/-!
# Pairs of numbers in DER

A signature of two positive numbers is a `SEQUENCE` of two `INTEGER`s. Tags, lengths and numbers
have exactly one spelling each: a length takes as few bytes as it can, and a number has no leading
zero byte unless its first bit is set. Reading refuses everything else.

Lengths of up to four bytes are read, whatever their value. A reader that stops at elements of
`2 ^ 28 - 1` bytes differs from this one only on strings that are longer than that.
-/

namespace Keyring.Der

def integerTag : UInt8 := 0x02

def sequenceTag : UInt8 := 0x30

/-! ## Writing -/

/-- The spelling of a length: itself below 128, otherwise behind the count of its bytes. -/
def writeLength (n : Nat) : Bytes :=
  if n < 128 then [UInt8.ofNat n]
  else
    let digits := Bytes.minimal n
    UInt8.ofNat (128 + digits.length) :: digits

/-- A tag, the length of the content, and the content. -/
def writeElement (tag : UInt8) (content : Bytes) : Bytes :=
  tag :: writeLength content.length ++ content

/-- The content of a number: a zero byte keeps the first bit from being read as a sign. -/
def integerContent (n : Nat) : Bytes :=
  let digits := Bytes.minimal n
  match digits with
  | first :: _ => if 0x80 ≤ first then 0 :: digits else digits
  | [] => []

def writePair (r s : Nat) : Bytes :=
  writeElement sequenceTag
    (writeElement integerTag (integerContent r) ++ writeElement integerTag (integerContent s))

/-! ## Reading -/

/-- A length in its shortest spelling, of at most four bytes, and what follows it. -/
def readLength? (input : Bytes) : Option (Nat × Bytes) :=
  match input with
  | [] => none
  | first :: rest =>
    if first < 128 then some (first.toNat, rest)
    else
      let count := first.toNat - 128
      let n := Bytes.toNat (rest.take count)
      if count = 0 ∨ 4 < count ∨ rest.length < count then none
      else if n < 128 ∨ n < 256 ^ (count - 1) then none
      else some (n, rest.drop count)

/-- The content of an element with the given tag, and what follows the element. -/
def readElement? (tag : UInt8) (input : Bytes) : Option (Bytes × Bytes) :=
  match input with
  | [] => none
  | first :: rest =>
    if first ≠ tag then none
    else
      match readLength? rest with
      | none => none
      | some (length, tail) =>
        if tail.length < length then none else some (tail.take length, tail.drop length)

/-- The number that a content spells, if it is not negative and in its shortest spelling. -/
def integerValue? (content : Bytes) : Option Nat :=
  match content with
  | [] => none
  | [only] => if 0x80 ≤ only then none else some only.toNat
  | first :: second :: _ =>
    if 0x80 ≤ first then none
    else if first = 0 ∧ second < 0x80 then none
    else some (Bytes.toNat content)

def readInteger? (input : Bytes) : Option (Nat × Bytes) :=
  match readElement? integerTag input with
  | none => none
  | some (content, rest) =>
    match integerValue? content with
    | none => none
    | some n => some (n, rest)

/-- The pair of positive numbers that a byte string spells. -/
def readPair? (input : Bytes) : Option (Nat × Nat) :=
  match readElement? sequenceTag input with
  | some (content, []) =>
    match readInteger? content with
    | none => none
    | some (r, rest) =>
      match readInteger? rest with
      | some (s, []) => if r = 0 ∨ s = 0 then none else some (r, s)
      | _ => none
  | _ => none

end Keyring.Der
