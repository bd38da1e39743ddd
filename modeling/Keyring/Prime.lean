import Keyring.Modular

/-!
# Finding primes

A probable prime passes trial division by small primes and strong tests to fixed bases. Candidates
are tried at equal steps from a random start; for a random start a composite number passes with
negligible chance.
-/

namespace Keyring.Prime

/-- The primes below 2048, found by division. -/
def small : List Nat :=
  (List.range 2048).filter fun n =>
    2 ≤ n && (List.range 46).all fun d => d < 2 || n ≤ d || n % d ≠ 0

/-- The bases of the strong tests. -/
def bases : List Nat := [2, 3, 5, 7, 11, 13, 17, 19, 23, 29, 31, 37]

/-- Whether a power becomes `n - 1` within a number of squarings. -/
def reachesMinusOne (n : Nat) : (squarings power : Nat) → Bool
  | 0, _ => false
  | squarings + 1, power =>
    power == n - 1 || reachesMinusOne n squarings (power * power % n)

/-- An even number as a power of two times an odd number, within a number of halvings. -/
def splitTwos : (halvings n twos : Nat) → Nat × Nat
  | 0, n, twos => (n, twos)
  | halvings + 1, n, twos =>
    if n % 2 = 0 then splitTwos halvings (n / 2) (twos + 1) else (n, twos)

/-- The strong test of an odd number to a base. -/
def passes (n base : Nat) : Bool :=
  let (odd, twos) := splitTwos (bitLength n) (n - 1) 0
  let power := powMod base odd n
  power == 1 || reachesMinusOne n twos power

/-- Whether a number beyond the small primes is a probable prime. -/
def isProbable (n : Nat) : Bool :=
  small.all (fun d => n % d ≠ 0) && bases.all (passes n)

/-- The first acceptable number among `count` of them at equal steps. -/
def search (accept : Nat → Bool) (step : Nat) : (count start : Nat) → Option Nat
  | 0, _ => none
  | count + 1, n => if accept n then some n else search accept step count (n + step)

end Keyring.Prime
