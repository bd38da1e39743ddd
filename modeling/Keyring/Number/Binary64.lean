/-!
# Binary floating point with 53 digits

A finite number is held as a natural mantissa and a power of two, so that rounding, products and
quotients are exact computations on natural numbers with a single rounding at the end. Signs are
kept apart. Results beyond the largest finite number have no value here.
-/

namespace Keyring

/-- The number `mantissa * 2 ^ exponent`. The mantissa has at most 53 binary digits; it has fewer
only at the smallest exponent. -/
structure Binary64 where
  mantissa : Nat
  exponent : Int
  deriving DecidableEq, Repr

namespace Binary64

/-- The exponent of the smallest positive number. -/
def minExponent : Int := -1074

/-- The exponent of the largest finite numbers. -/
def maxExponent : Int := 971

def zero : Binary64 := ⟨0, minExponent⟩

def isZero (x : Binary64) : Bool := x.mantissa == 0

/-! ## Rounding -/

/-- A quotient rounded to the nearest natural number, a half to the even neighbour. -/
def roundQuotient (num den : Nat) : Nat :=
  let q := num / den
  let r := num % den
  if den < 2 * r ∨ den = 2 * r ∧ q % 2 = 1 then q + 1 else q

/-- The two sides of `num / den` when it is measured in units of `2 ^ e`. -/
def inUnits (num den : Nat) (e : Int) : Nat × Nat :=
  (num * 2 ^ (-e).toNat, den * 2 ^ e.toNat)

/-- The exponent at which a positive quotient has 53 binary digits, but at least the smallest. -/
def exponentOf (num den : Nat) : Int :=
  let guess : Int := num.log2 - den.log2 - 52
  let (a, b) := inUnits num den guess
  max (if a < 2 ^ 52 * b then guess - 1 else guess) minExponent

/-- The number nearest to a quotient, if it is in range. -/
def ofRatio (num den : Nat) : Option Binary64 :=
  if num = 0 then some zero
  else
    let e := exponentOf num den
    let (a, b) := inUnits num den e
    let m := roundQuotient a b
    let x : Binary64 := if m = 2 ^ 53 then ⟨2 ^ 52, e + 1⟩ else ⟨m, e⟩
    if maxExponent < x.exponent then none else some x

/-- The number nearest to `num / den * 2 ^ e`, if it is in range. -/
def ofScaled (num den : Nat) (e : Int) : Option Binary64 :=
  ofRatio (num * 2 ^ e.toNat) (den * 2 ^ (-e).toNat)

/-- The rounded product. -/
def mul (x y : Binary64) : Option Binary64 :=
  ofScaled (x.mantissa * y.mantissa) 1 (x.exponent + y.exponent)

/-- The rounded quotient. -/
def div (x y : Binary64) : Option Binary64 :=
  ofScaled x.mantissa y.mantissa (x.exponent - y.exponent)

/-! ## The shortest decimal -/

/-- Four times the number, as a quotient in units of `10 ^ k`. -/
def quadrupleOnGrid (x : Binary64) (k : Int) : Nat × Nat :=
  (4 * x.mantissa * 2 ^ x.exponent.toNat * 10 ^ (-k).toNat,
    2 ^ (-x.exponent).toNat * 10 ^ k.toNat)

/-- The largest `e` up to a bound with `10 ^ e ≤ num / den`. -/
def floorLog10 (num den : Nat) : Int :=
  if den ≤ num then ((Nat.toDigits 10 (num / den)).length : Int) - 1
  else -(((List.range 400).find? fun j => den ≤ num * 10 ^ j).getD 0 : Nat)

/-- The decimal magnitude of a positive number: the exponent of its first digit. -/
def magnitude (x : Binary64) : Int :=
  floorLog10 (x.mantissa * 2 ^ x.exponent.toNat) (2 ^ (-x.exponent).toNat)

/-- The multiple of `10 ^ k` that reads back as the number, if one of the two neighbours on that
grid does. Of two that do the nearer one is taken, and of two equally near the even one. -/
def onGrid (x : Binary64) (k : Int) : Option (Nat × Int) :=
  let (num, den) := x.quadrupleOnGrid k
  let step := num / (4 * x.mantissa)
  let below := if x.mantissa = 2 ^ 52 ∧ minExponent < x.exponent then step else 2 * step
  let even := x.mantissa % 2 = 0
  let c := num / (4 * den)
  let reads (c : Nat) : Bool :=
    let at4 := 4 * c * den
    if even then num - below ≤ at4 ∧ at4 ≤ num + 2 * step
    else num - below < at4 ∧ at4 < num + 2 * step
  let r := num % (4 * den)
  let upper := 4 * den < 2 * r ∨ 4 * den = 2 * r ∧ c % 2 = 1
  if reads c ∧ reads (c + 1) then some (if upper then c + 1 else c, k)
  else if reads c then some (c, k)
  else if reads (c + 1) then some (c + 1, k)
  else none

/-- The fewest decimal digits that read back as a positive number, and the power of ten they
count. Seventeen digits always do. -/
def shortest (x : Binary64) : Nat × Int :=
  ((List.range 17).findSome? fun (i : Nat) => x.onGrid (x.magnitude - i)).getD (0, 0)

end Binary64

end Keyring
