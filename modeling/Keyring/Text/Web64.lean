import Keyring.Bytes

/-!
# Web-safe base64

Three bytes are written as four symbols of six bits each, over `A-Z a-z 0-9 - _` and without
padding; a last group of one or two bytes takes two or three symbols whose unused bits are zero.
Reading is strict, so a byte string has exactly one spelling. A text that is not one is refused with
the first problem found, at an offset counted in the bytes of its UTF-8 form.
-/

namespace Keyring.Web64

/-! ## The alphabet -/

/-- The symbol, as an ASCII byte, of a six-bit value. -/
def symbol (value : Nat) : UInt8 :=
  if value < 26 then UInt8.ofNat (65 + value)
  else if value < 52 then UInt8.ofNat (97 + (value - 26))
  else if value < 62 then UInt8.ofNat (48 + (value - 52))
  else if value = 62 then 45
  else 95

/-- The six-bit value of a symbol; no other byte has one. -/
def value? (byte : UInt8) : Option Nat :=
  let n := byte.toNat
  if 65 ≤ n ∧ n ≤ 90 then some (n - 65)
  else if 97 ≤ n ∧ n ≤ 122 then some (n - 97 + 26)
  else if 48 ≤ n ∧ n ≤ 57 then some (n - 48 + 52)
  else if n = 45 then some 62
  else if n = 95 then some 63
  else none

/-- The padding character of other base64 dialects; it is never part of a spelling here. -/
def padding : UInt8 := 61

/-! ## Writing -/

/-- The six-bit values that spell a byte string. -/
def split : Bytes → List Nat
  | [] => []
  | [a] => [a.toNat / 4, a.toNat % 4 * 16]
  | [a, b] => [a.toNat / 4, a.toNat % 4 * 16 + b.toNat / 16, b.toNat % 16 * 4]
  | a :: b :: c :: rest =>
    a.toNat / 4 :: (a.toNat % 4 * 16 + b.toNat / 16) :: (b.toNat % 16 * 4 + c.toNat / 64) ::
      c.toNat % 64 :: split rest

def encode (bytes : Bytes) : String :=
  String.ofList ((split bytes).map fun value => Char.ofNat (symbol value).toNat)

/-! ## Reading -/

/-- Why a text is not the spelling of a byte string. -/
inductive Fault
  /-- A byte that may not stand where it does. -/
  | invalidSymbol (byte : UInt8) (offset : Nat)
  /-- A last group of a single symbol, which holds no byte; the number counts the symbols. -/
  | invalidLength (symbols : Nat)
  /-- Padding where none is used. -/
  | invalidPadding
  /-- A last symbol with unused bits that are not zero. -/
  | invalidLastSymbol (byte : UInt8) (offset : Nat)
  deriving DecidableEq, Repr

def Fault.message : Fault → String
  | .invalidSymbol byte offset =>
    "Invalid symbol " ++ toString byte.toNat ++ ", offset " ++ toString offset ++ "."
  | .invalidLength symbols => "Invalid input length: " ++ toString symbols
  | .invalidPadding => "Invalid padding"
  | .invalidLastSymbol byte offset =>
    "Invalid last symbol " ++ toString byte.toNat ++ ", offset " ++ toString offset ++ "."

/-- The first byte that is not a symbol, with its offset. -/
def firstNonSymbol? : (offset : Nat) → Bytes → Option Fault
  | _, [] => none
  | offset, b :: rest =>
    if (value? b).isSome then firstNonSymbol? (offset + 1) rest
    else some (.invalidSymbol b offset)

/-- A single byte beyond the complete groups that is neither a symbol nor padding. -/
def strayLast? (bytes : Bytes) : Option Fault :=
  match bytes.getLast? with
  | some b =>
    if bytes.length % 4 = 1 ∧ b ≠ padding ∧ (value? b).isNone then
      some (.invalidSymbol b (bytes.length - 1))
    else none
  | none => none

/-- Where the last group, complete or not, begins. -/
def lastGroupStart (length : Nat) : Nat :=
  (length - 1) / 4 * 4

/-- The first problem among the bytes of the last group. `index` counts the bytes already seen in
the group, and `padded` is the offset of the first padding character. -/
def tailFault? (start : Nat) : (index : Nat) → (padded : Option Nat) → Bytes → Option Fault
  | _, _, [] => none
  | index, padded, b :: rest =>
    if b = padding then
      if index < 2 then some (.invalidSymbol b (start + index))
      else tailFault? start (index + 1) (padded.or (some (start + index))) rest
    else
      match padded with
      | some offset => some (.invalidSymbol padding offset)
      | none =>
        if (value? b).isSome then tailFault? start (index + 1) none rest
        else some (.invalidSymbol b (start + index))

/-- The unused low bits of a last group with the given symbols. -/
def unusedBits : List Nat → Nat
  | [_, b] => b % 16
  | [_, _, c] => c % 4
  | _ => 0

/-- What is wrong with a last group of symbols and padding as a whole. -/
def groupFault? (start : Nat) (tail : Bytes) : Option Fault :=
  let symbols := tail.filter (· ≠ padding)
  if symbols.length < 2 then some (.invalidLength (start + symbols.length))
  else if symbols.length < tail.length then some .invalidPadding
  else if unusedBits (symbols.filterMap value?) ≠ 0 then
    some (.invalidLastSymbol (tail.getLastD 0) (start + tail.length - 1))
  else none

/-- The first problem of a text, if it has one. -/
def fault? (bytes : Bytes) : Option Fault :=
  if bytes.isEmpty then none
  else
    let start := lastGroupStart bytes.length
    let tail := bytes.drop start
    strayLast? bytes <|> firstNonSymbol? 0 (bytes.take start) <|> tailFault? start 0 none tail <|>
      groupFault? start tail

/-- The bytes that six-bit values spell; bits beyond the last whole byte are dropped. -/
def join : List Nat → Bytes
  | a :: b :: c :: d :: rest =>
    UInt8.ofNat (a * 4 + b / 16) :: UInt8.ofNat (b % 16 * 16 + c / 4) ::
      UInt8.ofNat (c % 4 * 64 + d) :: join rest
  | [a, b, c] => [UInt8.ofNat (a * 4 + b / 16), UInt8.ofNat (b % 16 * 16 + c / 4)]
  | [a, b] => [UInt8.ofNat (a * 4 + b / 16)]
  | _ => []

/-- The byte string a text spells, or the first problem of the text. -/
def decode (text : String) : Except Fault Bytes :=
  let bytes := Bytes.ofText text
  match fault? bytes with
  | some fault => .error fault
  | none => .ok (join (bytes.filterMap value?))

end Keyring.Web64
