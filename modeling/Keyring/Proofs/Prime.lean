import Mathlib.NumberTheory.LucasPrimality
import Keyring.Modular

/-!
# Numbers that are certainly prime

Keys for which the properties of prime factors are to hold must have factors that are known to be
prime, and not just probably so. Lucas's test proves it of a number whose predecessor is factored: a
base must have the predecessor as its order. Here the predecessor has no factors but two, three and
perhaps one large prime, so that a few powers are all the evidence.
-/

namespace Keyring.Prime

theorem pow_eq_one_iff_powMod {n : Nat} (hn : 1 < n) (a k : Nat) :
    (a : ZMod n) ^ k = 1 ↔ powMod a k n = 1 := by
  rw [powMod_eq, ← Nat.cast_pow, ← Nat.cast_one, ZMod.natCast_eq_natCast_iff,
    Nat.ModEq, Nat.mod_eq_of_lt hn]

/-- Lucas's test for a number whose predecessor has no prime factors but the given ones. -/
theorem prime_of_factors {n a : Nat} (factors : List Nat) (hn : 1 < n)
    (hfactors : ∀ divisor : Nat, divisor.Prime → divisor ∣ n - 1 → divisor ∈ factors)
    (hfull : powMod a (n - 1) n = 1)
    (hproper : ∀ divisor ∈ factors, powMod a ((n - 1) / divisor) n ≠ 1) : n.Prime := by
  apply lucas_primality n (a : ZMod n)
  · exact (pow_eq_one_iff_powMod hn a _).2 hfull
  · intro divisor hdivisor hdvd
    rw [ne_eq, pow_eq_one_iff_powMod hn]
    exact hproper divisor (hfactors divisor hdivisor hdvd)

theorem eq_two_or_eq_three_of_dvd {divisor i j : Nat} (hdivisor : divisor.Prime)
    (h : divisor ∣ 2 ^ i * 3 ^ j) : divisor = 2 ∨ divisor = 3 := by
  rcases hdivisor.dvd_mul.1 h with htwos | hthrees
  · left
    exact (Nat.prime_dvd_prime_iff_eq hdivisor Nat.prime_two).1 (hdivisor.dvd_of_dvd_pow htwos)
  · right
    exact (Nat.prime_dvd_prime_iff_eq hdivisor Nat.prime_three).1 (hdivisor.dvd_of_dvd_pow hthrees)

/-- The test for a number that is one more than a product of twos and threes. -/
theorem prime_of_powMod {n a i j : Nat} (hpred : n - 1 = 2 ^ i * 3 ^ j)
    (hfull : powMod a (n - 1) n = 1) (htwo : powMod a ((n - 1) / 2) n ≠ 1)
    (hthree : powMod a ((n - 1) / 3) n ≠ 1) : n.Prime := by
  have hn : 1 < n := by
    have hpos : 0 < 2 ^ i * 3 ^ j := Nat.mul_pos (Nat.pow_pos (by decide)) (Nat.pow_pos (by decide))
    omega
  apply prime_of_factors [2, 3] hn _ hfull
  · simp [htwo, hthree]
  · intro divisor hdivisor hdvd
    rw [hpred] at hdvd
    simpa using eq_two_or_eq_three_of_dvd hdivisor hdvd

/-- The test for one more than such a product with another prime factor. -/
theorem prime_of_powMod_of_prime {n a i j r : Nat} (hr : r.Prime)
    (hpred : n - 1 = 2 ^ i * 3 ^ j * r) (hfull : powMod a (n - 1) n = 1)
    (htwo : powMod a ((n - 1) / 2) n ≠ 1) (hthree : powMod a ((n - 1) / 3) n ≠ 1)
    (hlast : powMod a ((n - 1) / r) n ≠ 1) : n.Prime := by
  have hn : 1 < n := by
    have hpos : 0 < 2 ^ i * 3 ^ j * r := Nat.mul_pos
      (Nat.mul_pos (Nat.pow_pos (by decide)) (Nat.pow_pos (by decide))) hr.pos
    omega
  apply prime_of_factors [2, 3, r] hn _ hfull
  · simp [htwo, hthree, hlast]
  · intro divisor hdivisor hdvd
    rw [hpred] at hdvd
    rcases hdivisor.dvd_mul.1 hdvd with hsmall | hdvd
    · rcases eq_two_or_eq_three_of_dvd hdivisor hsmall with rfl | rfl
      · simp
      · simp
    · obtain rfl := (Nat.prime_dvd_prime_iff_eq hdivisor hr).1 hdvd
      simp

end Keyring.Prime
