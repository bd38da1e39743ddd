import Keyring.Key.Dsa
import Keyring.Key.Rsa
import Keyring.Prime

/-!
# New private keys

Primes are searched from random starting points, and a key is put together from what is found. It
does not go through the checks on keys that are loaded: it is made so that it would pass them.
-/

namespace Keyring

/-! ## Searching from random starts -/

namespace Prime

/-- The number that the next bytes of a supply spell, with its highest bits and its lowest bit set,
and the rest of the supply. -/
def drawOdd (bits highBits : Nat) (entropy : Entropy) : Result (Nat × Entropy) :=
  match Entropy.draw? (bits / 8) entropy with
  | none => .error .noEntropy
  | some (bytes, rest) =>
    let high := 2 ^ bits - 2 ^ (bits - highBits)
    .ok (Bytes.toNat bytes ||| high ||| 1, rest)

/-- Whether a number has the given length and is a probable prime. -/
def fills (bits n : Nat) : Bool :=
  bitLength n == bits && isProbable n

/-- How many candidates are tried for a prime of the given length. -/
def candidateCount (bits : Nat) : Nat := 32 * bits

/-- The result of a search; one that finds nothing had a start that was not random. -/
def outcome : Option Nat → Result Nat
  | some n => .ok n
  | none => .error .noEntropy

end Prime

/-! ## RSA keys -/

namespace RsaPrivateKey

def newPublicExponent : Nat := 65537

/-- A prime of the given length that suits the public exponent. -/
def newFactor (bits : Nat) (entropy : Entropy) : Result (Nat × Entropy) := do
  let (start, rest) ← Prime.drawOdd bits 2 entropy
  let accept (n : Nat) : Bool := (n - 1) % newPublicExponent ≠ 0 && Prime.fills bits n
  let p ← Prime.outcome (Prime.search accept 2 (Prime.candidateCount bits) start)
  return (p, rest)

/-- A key of two new factors; a supply that gives the same one twice is not random. -/
def generate (bits : Nat) (entropy : Entropy) : Result RsaPrivateKey := do
  keyType.checkSize bits
  let (p, entropy) ← newFactor (bits / 2) entropy
  let (q, _) ← newFactor (bits / 2) entropy
  if p = q then .error .noEntropy
  else
    let d ← Prime.outcome (inverseMod? newPublicExponent ((p - 1) * (q - 1)))
    let publicKey : RsaPublicKey := ⟨p * q, newPublicExponent, bits⟩
    return ⟨publicKey, d, p, q, .compute p q d, bits⟩

end RsaPrivateKey

/-! ## DSA keys -/

namespace DsaPrivateKey

/-- A prime of the length of orders. -/
def newOrder (entropy : Entropy) : Result (Nat × Entropy) := do
  let (start, rest) ← Prime.drawOdd DsaPublicKey.orderBits 1 entropy
  let q ← Prime.outcome <| Prime.search (Prime.fills DsaPublicKey.orderBits) 2
    (Prime.candidateCount DsaPublicKey.orderBits) start
  return (q, rest)

/-- A prime of the given length whose predecessor is a multiple of the order. -/
def newModulus (bits q : Nat) (entropy : Entropy) : Result (Nat × Entropy) := do
  let (start, rest) ← Prime.drawOdd bits 2 entropy
  let p ← Prime.outcome <| Prime.search (Prime.fills bits) (2 * q) (Prime.candidateCount bits)
    (start - start % (2 * q) + 1)
  return (p, rest)

/-- A generator of the subgroup of order `q`, from the first base that gives one. -/
def newGenerator (p q : Nat) : Result Nat := do
  let base ← Prime.outcome (Prime.search (fun h => powMod h ((p - 1) / q) p ≠ 1) 1 64 2)
  return powMod base ((p - 1) / q) p

def generate (bits : Nat) (entropy : Entropy) : Result DsaPrivateKey := do
  keyType.checkSize bits
  let (q, entropy) ← newOrder entropy
  let (p, entropy) ← newModulus bits q entropy
  let g ← newGenerator p q
  match Entropy.draw? Dsa.attemptLength entropy with
  | none => .error .noEntropy
  | some (bytes, _) =>
    let x := Dsa.candidate q bytes
    let publicKey : DsaPublicKey := ⟨⟨p, q, g, powMod g x p⟩, bits⟩
    return ⟨publicKey, x, bits⟩

end DsaPrivateKey

end Keyring
