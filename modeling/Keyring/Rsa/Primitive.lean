import Keyring.Modular
import Keyring.Rsa.Fault

/-!
# RSA on numbers

The public operation raises to the public exponent. The private operation works modulo each factor
and joins the results; its input is blinded with a random unit, and its answer is checked with the
public operation, so that a wrong result never leaves it. Nothing here assumes that the factors are
prime.
-/

namespace Keyring.Rsa

/-! ## Public numbers -/

/-- Refuses a modulus and a public exponent that cannot be used. -/
def checkPublic (n e : Nat) : Except Fault Unit :=
  if 2 ^ 64 ≤ e then .error .publicExponentTooLarge
  else if n ≤ e ∨ n % 2 = 0 then .error .invalidModulus
  else if e % 2 = 0 then .error .invalidExponent
  else if e < 2 then .error .publicExponentTooSmall
  else if 2 ^ 33 ≤ e then .error .publicExponentTooLarge
  else .ok ()

/-- The number of bytes of a modulus. -/
def modulusLength (n : Nat) : Nat :=
  (bitLength n + 7) / 8

/-- The public operation. -/
def publicOp (n e m : Nat) : Nat :=
  powMod m e n

/-! ## Private numbers -/

/-- Refuses a private exponent that does not undo the public one modulo a factor less one. -/
def checkPrivate (e d p q : Nat) : Except Fault Unit :=
  if d * e % (p - 1) = 1 ∧ d * e % (q - 1) = 1 then .ok () else .error .invalidExponent

/-- The values that speed up the private operation: the private exponent reduced for each factor,
and the inverse of the second factor modulo the first. -/
structure CrtValues where
  dp : Nat
  dq : Nat
  qinv : Nat
  deriving DecidableEq, Repr

/-- The values for a prime `p`: the inverse is a power. -/
def CrtValues.compute (p q d : Nat) : CrtValues where
  dp := d % (p - 1)
  dq := d % (q - 1)
  qinv := powMod q (p - 2) p

/-- Whether values belong to the factors and the private exponent. -/
def CrtValues.fits (values : CrtValues) (p q d : Nat) : Bool :=
  values.dp == d % (p - 1) && values.dq == d % (q - 1) && decide (values.qinv < p) &&
    values.qinv * q % p == 1

/-- Works modulo each factor and joins the two results. -/
def crtPower (p q : Nat) (values : CrtValues) (c : Nat) : Nat :=
  let m₁ := powMod c values.dp p
  let m₂ := powMod c values.dq q
  let difference := (((m₁ : Int) - m₂) % p).toNat
  m₂ + values.qinv * difference % p * q

/-- A unit and its inverse, from a candidate; one that is no unit is replaced by one. -/
def blindingPair (n candidate : Nat) : Nat × Nat :=
  match inverseMod? candidate n with
  | some inverse => (candidate % n, inverse)
  | none => (1, 1)

/-- The private operation. -/
def privateOp (n e p q : Nat) (values : CrtValues) (blinding c : Nat) : Except Fault Nat :=
  if n ≤ c then .error .decryption
  else
    let (r, inverse) := blindingPair n blinding
    let m := crtPower p q values (c * publicOp n e r % n) * inverse % n
    if publicOp n e m = c then .ok m else .error .internal

end Keyring.Rsa
