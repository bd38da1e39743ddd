import Keyring.Json.Token
import Keyring.Number.Binary64

/-!
# The value of a JSON number

A number without fraction and exponent is an integer if it fits 64 bits: unsigned, or signed when
negative. Everything else is a floating-point number, computed from a significand of at most 64 bits
that is scaled by a power of ten in rounded steps. Digits that no longer fit the significand only
count towards the power of ten. A number beyond the floating-point range has no value.
-/

namespace Keyring.Json

/-- The value of a number, by how it can be represented. -/
inductive Amount
  | natural (value : Nat)
  | negative (magnitude : Nat)
  | float (negative : Bool) (magnitude : Binary64)
  deriving DecidableEq, Repr

/-- Appends digits to a significand while it stays below `2 ^ 64`; gives also the digits left. -/
def accumulate : (significand : Nat) → List Nat → Nat × List Nat
  | s, [] => (s, [])
  | s, d :: rest =>
    if 10 * s + d < 2 ^ 64 then accumulate (10 * s + d) rest else (s, d :: rest)

def powerOfTen (e : Nat) : Option Binary64 :=
  Binary64.ofRatio (10 ^ e) 1

/-- Divides several times by the largest power of ten in range. -/
def shrink (largest : Binary64) : (steps : Nat) → Binary64 → Option Binary64
  | 0, x => some x
  | steps + 1, x => do shrink largest steps (← x.div largest)

/-- Scales by a power of ten. A product beyond the range has no value. A power too small to be
represented is divided out in steps, three of which take every significand to zero. -/
def scale (x : Binary64) (e : Int) : Option Binary64 :=
  if x.isZero then some x
  else if 308 < e then none
  else if 0 ≤ e then do x.mul (← powerOfTen e.toNat)
  else
    let down := (-e).toNat
    let steps := (down - 1) / 308
    do (← shrink (← powerOfTen 308) (min steps 3) x).div (← powerOfTen (down - 308 * steps))

def maxExponent : Nat := 2 ^ 31 - 1

/-- The number that a list of decimal digits denotes. -/
def digitsValue (digits : List Nat) : Nat :=
  digits.foldl (fun n d => 10 * n + d) 0

/-- The magnitude of a number as floating point. -/
def Numeral.magnitude? (numeral : Numeral) : Option Binary64 :=
  let (whole, extra) := accumulate 0 numeral.whole
  let (significand, unread) := accumulate whole numeral.fraction
  let shift : Int := extra.length - (numeral.fraction.length - unread.length : Nat)
  match numeral.exponent with
  | none => do scale (← Binary64.ofRatio significand 1) shift
  | some (negative, digits) =>
    let e := digitsValue digits
    if maxExponent < e then
      if significand ≠ 0 ∧ ¬negative then none else some Binary64.zero
    else do scale (← Binary64.ofRatio significand 1) (if negative then shift - e else shift + e)

/-- The value of a number; none when it is beyond the range. -/
def Numeral.amount? (numeral : Numeral) : Option Amount :=
  let whole := accumulate 0 numeral.whole
  if numeral.fraction.isEmpty ∧ numeral.exponent.isNone ∧ whole.2.isEmpty ∧
      (numeral.negative → 0 < whole.1 ∧ whole.1 ≤ 2 ^ 63) then
    some (if numeral.negative then .negative whole.1 else .natural whole.1)
  else (.float numeral.negative ·) <$> numeral.magnitude?

end Keyring.Json
