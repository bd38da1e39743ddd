import Keyring.Bytes

/-!
# Modular arithmetic

Powers by repeated squaring and inverses by Euclid's algorithm, both with an explicit bound on the
number of steps.
-/

namespace Keyring

/-- Multiplies `result` by `base ^ exponent`, for an exponent of at most `steps` binary digits. -/
def powModLoop (modulus : Nat) : (steps base exponent result : Nat) → Nat
  | 0, _, _, result => result
  | steps + 1, base, exponent, result =>
    powModLoop modulus steps (base * base % modulus) (exponent / 2)
      (if exponent % 2 = 1 then result * base % modulus else result)

/-- The remainder of `base ^ exponent`. -/
def powMod (base exponent modulus : Nat) : Nat :=
  powModLoop modulus (bitLength exponent) (base % modulus) exponent (1 % modulus)

theorem powModLoop_eq {modulus steps base exponent result : Nat} (hexponent : exponent < 2 ^ steps)
    (hresult : result % modulus = result) :
    powModLoop modulus steps base exponent result = result * base ^ exponent % modulus := by
  induction steps generalizing base exponent result with
  | zero =>
    obtain rfl : exponent = 0 := by omega
    rw [powModLoop, Nat.pow_zero, Nat.mul_one, hresult]
  | succ steps ih =>
    have hhalf : exponent / 2 < 2 ^ steps := by
      rw [Nat.pow_succ] at hexponent
      omega
    have hsquare : (base * base) ^ (exponent / 2) = base ^ (2 * (exponent / 2)) := by
      rw [Nat.pow_mul, Nat.pow_two]
    rw [powModLoop]
    split
    case isTrue hodd =>
      have hsplit : base ^ exponent = base * base ^ (2 * (exponent / 2)) := by
        rw [Nat.mul_comm, ← Nat.pow_succ]
        congr 1
        omega
      rw [ih hhalf (Nat.mod_mod ..), Nat.mul_mod, ← Nat.pow_mod, Nat.mod_mod, ← Nat.mul_mod,
        hsquare, hsplit, Nat.mul_assoc]
    case isFalse heven =>
      have hsplit : base ^ exponent = base ^ (2 * (exponent / 2)) := by
        congr 1
        omega
      rw [ih hhalf hresult, Nat.mul_mod, ← Nat.pow_mod, ← Nat.mul_mod, hsquare, hsplit]

/-- Repeated squaring gives the remainder of the power. -/
theorem powMod_eq (base exponent modulus : Nat) :
    powMod base exponent modulus = base ^ exponent % modulus := by
  rw [powMod, powModLoop_eq (lt_two_pow_bitLength exponent) (Nat.mod_mod ..), Nat.mul_mod,
    ← Nat.pow_mod, Nat.mod_mod, ← Nat.mul_mod, Nat.one_mul]

/-- Euclid's algorithm on `r` and `s`, which stand for multiples `t` and `u` of one number: the
greatest common divisor and what it is a multiple of. -/
def euclid : (steps r s : Nat) → (t u : Int) → Nat × Int
  | 0, r, _, t, _ => (r, t)
  | steps + 1, r, s, t, u =>
    if s = 0 then (r, t) else euclid steps s (r % s) u (t - (r / s : Nat) * u)

/-- The inverse of a number for a positive modulus, if the two have no common divisor. -/
def inverseMod? (a modulus : Nat) : Option Nat :=
  let (divisor, factor) := euclid (modulus + 1) modulus (a % modulus) 0 1
  if divisor = 1 then some (factor % modulus).toNat else none

end Keyring
