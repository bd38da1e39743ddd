import Mathlib.FieldTheory.Finite.Basic
import Keyring.Modular

/-!
# Inverses and powers for a modulus

Each step of Euclid's algorithm keeps two numbers as multiples of the number to be inverted, and
keeps their greatest common divisor. So what it gives is an inverse, and it gives one whenever there
is one. Exponents may be reduced by one that gives one; for a prime modulus that is the modulus less
one, as long as a positive exponent does not become zero.
-/

namespace Keyring

/-! ## Euclid's algorithm -/

/-- With more steps than the second number, the algorithm ends at the greatest common divisor. -/
theorem euclid_fst {steps r s : Nat} (hsteps : s < steps) (t u : Int) :
    (euclid steps r s t u).1 = Nat.gcd r s := by
  induction steps generalizing r s t u with
  | zero => cases hsteps
  | succ steps ih =>
    rw [euclid]
    split
    case isTrue hzero =>
      subst hzero
      exact (Nat.gcd_zero_right r).symm
    case isFalse hpos =>
      have hdecrease : r % s < s := Nat.mod_lt r (Nat.pos_of_ne_zero hpos)
      rw [ih (by omega), Nat.gcd_comm r s, Nat.gcd_rec s r, Nat.gcd_comm]

/-- If the two numbers are multiples of `a`, then so is the result, after any number of steps. -/
theorem euclid_modEq {a m : Int} {steps r s : Nat} {t u : Int} (hr : t * a ≡ r [ZMOD m])
    (hs : u * a ≡ s [ZMOD m]) :
    (euclid steps r s t u).2 * a ≡ (euclid steps r s t u).1 [ZMOD m] := by
  induction steps generalizing r s t u with
  | zero => exact hr
  | succ steps ih =>
    rw [euclid]
    split
    case isTrue => exact hr
    case isFalse =>
      apply ih hs
      have hremainder : ((r % s : Nat) : Int) = r - (r / s : Nat) * s := by
        have hdivision : (r / s : Nat) * (s : Int) + (r % s : Nat) = r := by
          exact_mod_cast Nat.div_add_mod' r s
        omega
      calc (t - (r / s : Nat) * u) * a = t * a - (r / s : Nat) * (u * a) := by ring
        _ ≡ r - (r / s : Nat) * s [ZMOD m] := hr.sub (hs.mul_left _)
        _ = ((r % s : Nat) : Int) := hremainder.symm

/-! ## Inverses -/

/-- A remainder of one, for a modulus that leaves one as it is. -/
theorem mod_eq_one_of_modEq {a m : Nat} (hm : 1 < m) (h : a ≡ 1 [MOD m]) : a % m = 1 :=
  Eq.trans h (Nat.mod_eq_of_lt hm)

section Inverse

variable {a b m : Nat}

theorem inverseMod?_eq (a m : Nat) :
    inverseMod? a m =
      if (euclid (m + 1) m (a % m) 0 1).1 = 1 then
        some ((euclid (m + 1) m (a % m) 0 1).2 % m).toNat
      else none :=
  rfl

/-- What is given as an inverse is one. -/
theorem of_inverseMod?_eq_some (hm : 0 < m) (h : inverseMod? a m = some b) :
    b < m ∧ a * b ≡ 1 [MOD m] := by
  have hpos : (0 : Int) < m := by exact_mod_cast hm
  have hmodulus : (0 : Int) * a ≡ m [ZMOD m] := by
    rw [zero_mul]
    exact (Int.modEq_zero_iff_dvd.2 (dvd_refl _)).symm
  have hnumber : (1 : Int) * a ≡ (a % m : Nat) [ZMOD m] := by
    rw [one_mul, Int.natCast_mod]
    exact (Int.mod_modEq _ _).symm
  have hmultiple := @euclid_modEq a m (m + 1) m (a % m) 0 1 hmodulus hnumber
  rw [inverseMod?_eq] at h
  generalize euclid (m + 1) m (a % m) 0 1 = result at h hmultiple
  obtain ⟨divisor, factor⟩ := result
  simp only at h hmultiple
  split at h
  case isFalse => cases h
  case isTrue hone =>
    cases h
    subst hone
    have hcast : (((factor % m).toNat : Nat) : Int) = factor % m :=
      Int.toNat_of_nonneg (Int.emod_nonneg _ hpos.ne')
    constructor
    · have hlt : factor % m < m := Int.emod_lt_of_pos _ hpos
      omega
    · apply Int.natCast_modEq_iff.1
      push_cast [hcast]
      calc (a : Int) * (factor % m) ≡ a * factor [ZMOD m] := (Int.mod_modEq _ _).mul_left _
        _ = factor * a := mul_comm _ _
        _ ≡ 1 [ZMOD m] := hmultiple

/-- A number without a common divisor with the modulus is given an inverse. -/
theorem exists_inverseMod?_eq_some (hm : 0 < m) (h : Nat.Coprime a m) :
    ∃ b, inverseMod? a m = some b := by
  have hlt : a % m < m := Nat.mod_lt a hm
  have hdivisor : (euclid (m + 1) m (a % m) 0 1).1 = 1 := by
    rw [euclid_fst (by omega), Nat.gcd_comm, ← Nat.gcd_rec, Nat.gcd_comm]
    exact h
  rw [inverseMod?_eq, if_pos hdivisor]
  exact ⟨_, rfl⟩

/-- The inverse is the one below the modulus. -/
theorem inverseMod?_eq_some_iff (hm : 0 < m) :
    inverseMod? a m = some b ↔ b < m ∧ a * b ≡ 1 [MOD m] := by
  constructor
  · exact of_inverseMod?_eq_some hm
  · rintro ⟨hlt, hmul⟩
    have hcoprime : Nat.Coprime a m := Nat.coprime_of_mul_modEq_one b hmul
    obtain ⟨found, hfound⟩ := exists_inverseMod?_eq_some hm hcoprime
    obtain ⟨hfoundlt, hfoundmul⟩ := of_inverseMod?_eq_some hm hfound
    have hsame : found ≡ b [MOD m] :=
      Nat.ModEq.cancel_left_of_coprime hcoprime.symm (hfoundmul.trans hmul.symm)
    rw [hfound, hsame.eq_of_lt_of_lt hfoundlt hlt]

end Inverse

/-! ## Powers -/

/-- A power that is known from computing it. -/
theorem pow_modEq_of_powMod_eq {a k m b : Nat} (h : powMod a k m = b % m) : a ^ k ≡ b [MOD m] := by
  rw [powMod_eq] at h
  exact h

/-- An exponent may be reduced by one that gives one. -/
theorem pow_mod_modEq {x m q : Nat} (h : x ^ q ≡ 1 [MOD m]) (k : Nat) :
    x ^ (k % q) ≡ x ^ k [MOD m] := by
  have hcycles : (x ^ q) ^ (k / q) ≡ 1 [MOD m] := by
    simpa using h.pow (k / q)
  calc x ^ (k % q) = 1 * x ^ (k % q) := (one_mul _).symm
    _ ≡ (x ^ q) ^ (k / q) * x ^ (k % q) [MOD m] := hcycles.symm.mul_right _
    _ = x ^ (q * (k / q) + k % q) := by rw [pow_add, pow_mul]
    _ = x ^ k := by rw [Nat.div_add_mod]

theorem ne_zero_of_pow_modEq_one {a k m : Nat} (hm : 1 < m) (hk : k ≠ 0)
    (h : a ^ k ≡ 1 [MOD m]) : a ≠ 0 := by
  rintro rfl
  rw [zero_pow hk] at h
  exact absurd (h.eq_of_lt_of_lt (Nat.zero_lt_of_lt hm) hm) (by decide)

/-- Fermat's theorem. -/
theorem pow_pred_modEq_one {p x : Nat} (hp : p.Prime) (hx : ¬ p ∣ x) :
    x ^ (p - 1) ≡ 1 [MOD p] := by
  rw [← Nat.totient_prime hp]
  exact Nat.ModEq.pow_totient (hp.coprime_iff_not_dvd.2 hx).symm

/-- For a prime modulus an exponent may be reduced by the modulus less one, if that leaves any of
it. -/
theorem pow_mod_pred_modEq {p k : Nat} (hp : p.Prime) (hk : k % (p - 1) ≠ 0) (x : Nat) :
    x ^ (k % (p - 1)) ≡ x ^ k [MOD p] := by
  by_cases hx : p ∣ x
  · -- both powers are zero, as both exponents are positive
    have hk' : k ≠ 0 := by
      rintro rfl
      exact hk (Nat.zero_mod _)
    have hleft : x ^ (k % (p - 1)) ≡ 0 [MOD p] := Nat.modEq_zero_iff_dvd.2 (dvd_pow hx hk)
    have hright : x ^ k ≡ 0 [MOD p] := Nat.modEq_zero_iff_dvd.2 (dvd_pow hx hk')
    exact hleft.trans hright.symm
  · exact pow_mod_modEq (pow_pred_modEq_one hp hx) k

end Keyring
