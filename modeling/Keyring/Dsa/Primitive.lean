import Keyring.Entropy
import Keyring.Modular

/-!
# DSA on numbers

A signature of a digest `z` is a pair made with a secret number for the occasion, which is drawn
anew until it has an inverse. Verification makes the first number again from the second. Neither
primality nor the order of the generator is assumed.
-/

namespace Keyring.Dsa

/-- The numbers that a DSA public key consists of. -/
structure Numbers where
  p : Nat
  q : Nat
  g : Nat
  y : Nat
  deriving DecidableEq, Repr

/-- Whether the numbers can be used at all. -/
def Numbers.usable (n : Numbers) : Bool :=
  decide (2 ≤ n.p) && decide (2 ≤ n.q) && decide (0 < n.g) && decide (n.g ≤ n.p) &&
    decide (2 ≤ n.y) && powMod n.y n.q n.p == 1

/-! ## Verification -/

/-- Whether a pair is a signature of a digest. -/
def verify (n : Numbers) (z : Nat) (r s : Nat) : Bool :=
  if n.q ≤ r ∨ n.q ≤ s then false
  else
    match inverseMod? s n.q with
    | none => false
    | some w =>
      let u₁ := z * w % n.q
      let u₂ := r * w % n.q
      powMod n.g u₁ n.p * powMod n.y u₂ n.p % n.p % n.q == r

/-! ## Signing -/

def attemptLength : Nat := 32

/-- The candidate that the random bytes of an attempt give: 224 bits, four bytes being unused, taken
into the range from one to `q - 1`. -/
def candidate (q : Nat) (bytes : Bytes) : Nat :=
  let low := Bytes.toNatLittle (bytes.take 24)
  let high := Bytes.toNatLittle (bytes.drop 28)
  (low + 2 ^ 192 * high) % (q - 1) + 1

/-- The first secret number with an inverse, and its inverse, within a number of attempts. -/
def secret? (q : Nat) : (attempts : Nat) → Entropy → Option (Nat × Nat)
  | 0, _ => none
  | attempts + 1, entropy =>
    match Entropy.draw? attemptLength entropy with
    | none => none
    | some (bytes, rest) =>
      let k := candidate q bytes
      match inverseMod? k q with
      | some inverse => some (k, inverse)
      | none => secret? q attempts rest

/-- The pair that a secret number and its inverse give; neither number may be zero. -/
def signWith? (n : Numbers) (x z k inverse : Nat) : Option (Nat × Nat) :=
  let r := powMod n.g k n.p % n.q
  let s := inverse * (z + x * r) % n.q
  if r = 0 ∨ s = 0 then none else some (r, s)

end Keyring.Dsa
